import HermesDecomp.Library.Outcome

/-!
# Two pieces of code that agree

Two actions agree under a relation of their states when from related states they
end the same way, with the same value or the same error, and leave related states.
Agreement is what a rewriting of a program has to keep, and it composes: related
parts make related wholes.
-/

namespace HermesDecomp.Action

variable {σ τ ε α β : Type} {related : σ → τ → Prop}

/-- From related states, two actions end the same way and leave related states. -/
def Agree (related : σ → τ → Prop) (left : Action σ ε α) (right : Action τ ε α) : Prop :=
  ∀ state state', related state state' →
    (left state).1 = (right state').1 ∧ related (left state).2 (right state').2

/-- From states related one way, two actions end the same way and leave states related
another way. -/
def AgreeTo (before after : σ → τ → Prop) (left : Action σ ε α) (right : Action τ ε α) : Prop :=
  ∀ state state', before state state' →
    (left state).1 = (right state').1 ∧ after (left state).2 (right state').2

variable {left : Action σ ε α} {right : Action τ ε α}

theorem AgreeTo.mono {before before' after after' : σ → τ → Prop}
    (agree : AgreeTo before after left right)
    (stronger : ∀ state state', before' state state' → before state state')
    (weaker : ∀ state state', after state state' → after' state state') :
    AgreeTo before' after' left right := by
  intro state state' start
  obtain ⟨same, finish⟩ := agree state state' (stronger state state' start)
  exact ⟨same, weaker _ _ finish⟩

variable {next : α → Action σ ε β} {next' : α → Action τ ε β}

/-- First parts into a middle relation, followed by parts that lead from it into a weaker
one, for every value. -/
theorem agreeTo_bind {before middle after : σ → τ → Prop}
    (weakens : ∀ state state', middle state state' → after state state')
    (first : AgreeTo before middle left right)
    (rest : ∀ value, AgreeTo middle after (next value) (next' value)) :
    AgreeTo before after (left >>= next) (right >>= next') := by
  intro state state' start
  obtain ⟨same, finish⟩ := first state state' start
  rw [bind_apply, bind_apply]
  rcases ran : left state with ⟨outcome, middle⟩
  rcases ran' : right state' with ⟨outcome', middle'⟩
  rw [ran, ran'] at same finish
  dsimp only at same finish
  subst same
  cases outcome with
  | ok value => exact rest value middle middle' finish
  | err | panic => exact ⟨rfl, weakens _ _ finish⟩

theorem agreeTo_ite {before after : σ → τ → Prop} {condition : Prop} [Decidable condition]
    {yes no : Action σ ε α} {yes' no' : Action τ ε α} (whenTrue : AgreeTo before after yes yes')
    (whenFalse : AgreeTo before after no no') :
    AgreeTo before after (if condition then yes else no) (if condition then yes' else no') := by
  split
  · exact whenTrue
  · exact whenFalse

theorem agree_pure (value : α) :
    Agree related (pure value : Action σ ε α) (pure value : Action τ ε α) := by
  intro state state' start
  exact ⟨rfl, start⟩

theorem agree_fail (error : ε) :
    Agree related (fail error : Action σ ε α) (fail error : Action τ ε α) := by
  intro state state' start
  exact ⟨rfl, start⟩

theorem agree_lift (outcome : Outcome ε α) :
    Agree related (lift outcome : Action σ ε α) (lift outcome : Action τ ε α) := by
  intro state state' start
  exact ⟨rfl, start⟩

/-- Related first parts, and related next parts for every value, make related wholes. -/
theorem agree_bind (first : Agree related left right)
    (rest : ∀ value, Agree related (next value) (next' value)) :
    Agree related (left >>= next) (right >>= next') :=
  agreeTo_bind (fun _ _ middle => middle) first rest

/-- A first part that agrees under a relation, followed by parts that lead from it into
a weaker one. -/
theorem agree_bind_into {weaker : σ → τ → Prop}
    (weakens : ∀ state state', related state state' → weaker state state')
    (first : Agree related left right) (rest : ∀ value state state', related state state' →
      (next value state).1 = (next' value state').1 ∧
        weaker (next value state).2 (next' value state').2) {state : σ} {state' : τ}
    (start : related state state') :
    ((left >>= next) state).1 = ((right >>= next') state').1 ∧
      weaker ((left >>= next) state).2 ((right >>= next') state').2 :=
  agreeTo_bind weakens first rest state state' start

theorem agree_ite {condition : Prop} [Decidable condition] {yes no : Action σ ε α}
    {yes' no' : Action τ ε α} (whenTrue : Agree related yes yes')
    (whenFalse : Agree related no no') :
    Agree related (if condition then yes else no) (if condition then yes' else no') :=
  agreeTo_ite whenTrue whenFalse

end HermesDecomp.Action
