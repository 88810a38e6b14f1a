import HermesDecomp.Write.Encode

/-!
# Reading what was written

Bytes read as a value when a reader that reaches them returns it, whatever stands before and
behind them. What reads as values one after the other reads as all of them.
-/

namespace HermesDecomp

namespace Reader

open ByteReader (between)

/-- A reader takes exactly these bytes, wherever they stand, for a value. -/
def ReadsAs {α : Type} (action : Reader α) (bytes : Bytes) (value : α) : Prop :=
  ∀ before after, action (between before (bytes ++ after)) = (.ok value, between (before ++ bytes) after)

theorem readsAs_pure {α : Type} (value : α) : ReadsAs (pure value : Reader α) [] value := by
  intro before after
  rw [List.append_nil]
  rfl

section

variable {α β : Type} {action : Reader α} {next : α → Reader β} {value : α} {result : β}

/-- One read after the other. -/
theorem readsAs_bind {bytes more : Bytes} (first : ReadsAs action bytes value)
    (rest : ReadsAs (next value) more result) :
    ReadsAs (action >>= next) (bytes ++ more) result := by
  intro before after
  rw [List.append_assoc]
  refine Action.bind_eq_ok.mpr ⟨value, between (before ++ bytes) (more ++ after),
    first before (more ++ after), ?_⟩
  rw [← List.append_assoc]
  exact rest (before ++ bytes) after

/-- A read that something follows without reading. -/
theorem readsAs_bind_pure {bytes : Bytes} (first : ReadsAs action bytes value)
    (rest : ReadsAs (next value) [] result) : ReadsAs (action >>= next) bytes result := by
  have whole := readsAs_bind first rest
  rwa [List.append_nil] at whole

end

end Reader

end HermesDecomp
