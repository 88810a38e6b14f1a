import HermesDecomp.Write.HashTracking
import HermesDecomp.Write.OperandEdits
import HermesDecomp.Write.RegexpEdits

/-!
# Sessions of writes

A session tries one write after the other on a parsed file, whether or not the ones before it
succeeded. A write adopts a new image only when the image parses, so what a session leaves is the
file it started from, or one that is all of what its own bytes say.
-/

namespace HermesDecomp

namespace Action

variable {σ ε α β : Type} {invariant : σ → Prop}

/-- A run that fails leaves the state as it was, and a run that succeeds leaves it so or leaves one
that satisfies the invariant. -/
def Transactional (invariant : σ → Prop) (action : Action σ ε α) : Prop :=
  ∀ state, (action state).2 = state ∨ invariant (action state).2 ∧
    ∃ value, (action state).1 = .ok value

theorem transactional_get {next : σ → Action σ ε β}
    (rest : ∀ state, Transactional invariant (next state)) :
    Transactional invariant (get >>= next) := fun state => rest state state

theorem transactional_lift {outcome : Outcome ε α} {next : α → Action σ ε β}
    (rest : ∀ value, Transactional invariant (next value)) :
    Transactional invariant (lift outcome >>= next) := by
  intro state
  cases outcome with
  | ok value => exact rest value state
  | err | panic => exact .inl rfl

/-- What follows makes a result of the value. -/
theorem transactional_bind {action : Action σ ε α} {next : α → Action σ ε β}
    (first : Transactional invariant action) (rest : ∀ value, ∃ result, next value = pure result) :
    Transactional invariant (action >>= next) := by
  intro state
  have here := first state
  rw [bind_apply]
  rcases run : action state with ⟨outcome, final⟩
  rw [run] at here
  cases outcome with
  | ok value =>
    obtain ⟨result, same⟩ := rest value
    dsimp only
    rw [same]
    exact here.imp_right fun ⟨holds, _⟩ => ⟨holds, result, rfl⟩
  | err | panic => simpa using here

end Action

namespace Write

open Action Serialize HermesDecomp.Parser Operands

/-- A file is what its own bytes parse to, and these carry their length and footer. -/
def Settled (sha1 : Sha1) (file : BytecodeFile) : Prop :=
  ∃ bytes, file.rawBytes = some bytes ∧ parseAuto sha1 bytes = .ok file ∧
    Footer.verifyFooter sha1 bytes = true ∧ file.header.fileLength = bytes.length % 2 ^ 32

variable {sha1 : Sha1}

theorem verifyFooter_finalize {buf out : Bytes} (finalized : finalizeRawImage sha1 buf = .ok out) :
    Footer.verifyFooter sha1 out = true := by
  have verifies : ∀ body : Bytes,
      Footer.verifyFooter sha1 (Footer.appendFooter sha1 body) = true := by
    intro body
    simp [Footer.verifyFooter, Footer.appendFooter, Footer.footerLen, (sha1 body).property]
  rw [finalizeRawImage] at finalized
  split_ifs at finalized
  cases finalized
  exact verifies _

/-- The only place where a write puts a new file. -/
theorem transactional_commit {buf : Bytes} {edit : HeaderEdit}
    {check : BytecodeFile → Result PUnit} :
    Transactional (Settled sha1) (commitImageChecked sha1 buf edit check) := by
  intro file
  cases refreshed : refresh sha1 file buf edit check with
  | ok adopted =>
    have ran : commitImageChecked sha1 buf edit check file = (.ok adopted.1, adopted.2) := by
      simp only [commitImageChecked, bind_apply, get_apply, lift_apply, refreshed, set_apply,
        pure_apply]
    obtain ⟨finalized, parsed, header, -⟩ := commitImageChecked_eq_ok.mp ran
    rw [ran]
    exact .inr ⟨⟨_, (parseAuto_region parsed).raw, parsed, verifyFooter_finalize finalized,
      header ▸ rfl⟩, _, rfl⟩
  | err | panic =>
    exact .inl (by simp only [commitImageChecked, bind_apply, get_apply, lift_apply, refreshed])

/-- The writes that edit a parsed file. -/
inductive WriteOp where
  | string (operation : Strings.StringOp)
  | operand (format : BytecodeFormat) (target : OperandTarget) (newStringId : Nat)
      (operandIndex : Option Nat)
  | regexp (index : Nat) (payload : Bytes)

/-- Run a write. -/
def WriteOp.perform (sha1 : Sha1) : WriteOp → Edit Bytes
  | string operation => operation.perform sha1
  | operand format target newStringId operandIndex => do
      let (out, _) ← patchStringOperand sha1 format target newStringId operandIndex
      pure out
  | regexp index payload => do
      let (out, _) ← Regexps.setRegexp sha1 index payload
      pure out

/-- Whatever a write does before it commits only reads the file. -/
theorem transactional_perform (operation : WriteOp) :
    Transactional (Settled sha1) (operation.perform sha1) := by
  have resize : ∀ id newValue packing,
      Transactional (Settled sha1) (Strings.patchStringResize sha1 id newValue packing) :=
    fun _ _ _ => transactional_get fun _ => transactional_lift fun (_, _, _) => transactional_commit
  have report : ∀ {α β : Type} {action : Edit α} {result : α → β},
      Transactional (Settled sha1) action →
        Transactional (Settled sha1) (action >>= fun value => pure (result value)) :=
    fun runs => transactional_bind runs fun _ => ⟨_, rfl⟩
  cases operation with
  | string operation =>
    cases operation with
    | patchStringById id newValue options =>
      refine transactional_get fun file => transactional_lift fun entry => ?_
      split_ifs
      · exact resize id newValue _
      · refine transactional_get fun file => transactional_lift fun place => ?_
        dsimp only
        split_ifs
        · exact resize id newValue _
        · exact transactional_lift fun _ => transactional_commit
    | retargetString fromId toId =>
      exact transactional_get fun _ => transactional_lift fun (_, _) => transactional_commit
    | addString value isIdentifier options =>
      exact report (transactional_get fun _ => transactional_lift fun _ =>
        report (transactional_commit))
  | operand format target newStringId operandIndex =>
    exact report (transactional_get fun _ => transactional_lift fun _ =>
      report (transactional_commit))
  | regexp index payload =>
    exact report (transactional_get fun _ => transactional_lift fun _ =>
      report (transactional_commit))

/-- Every write is tried, on what the ones before it left. -/
def session (sha1 : Sha1) (file : BytecodeFile) (operations : List WriteOp) : BytecodeFile :=
  operations.foldl (fun file operation => (operation.perform sha1 file).2) file

/-- What a session leaves is what those of its writes that succeed leave by themselves. It is the
file it started from, or one that its own bytes parse to. -/
theorem session_succeeds (operations : List WriteOp) (file : BytecodeFile) :
    (∃ kept, kept.Sublist operations ∧ Runs (WriteOp.perform sha1) (fun _ _ => True) file kept
      (session sha1 file operations)) ∧
    (session sha1 file operations = file ∨ Settled sha1 (session sha1 file operations)) := by
  induction operations generalizing file with
  | nil => exact ⟨⟨[], .slnil, .nil file⟩, .inl rfl⟩
  | cons operation rest ih =>
    obtain ⟨⟨kept, within, later⟩, final⟩ := ih (operation.perform sha1 file).2
    have here := @transactional_perform sha1 operation file
    rw [session, List.foldl_cons]
    rcases run : operation.perform sha1 file with ⟨outcome, after⟩
    rw [run] at later final here
    cases outcome with
    | ok out =>
      refine ⟨⟨operation :: kept, within.cons_cons _, .cons trivial run later⟩, ?_⟩
      rcases final with same | settled
      · rw [session] at same
        rw [same]
        exact here.imp_right And.left
      · exact .inr settled
    | err | panic =>
      obtain rfl : after = file := by simpa using here
      exact ⟨⟨kept, within.cons _, later⟩, final⟩

end Write

end HermesDecomp
