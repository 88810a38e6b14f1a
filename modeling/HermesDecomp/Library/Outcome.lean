import Mathlib.Data.List.Forall2

/-!
# Results that may also panic, and code behind a mutable reference

A call ends with a value, with an error it returns, or with a panic: an index or
slice outside its bounds, an arithmetic overflow, an unwrapped absence. Panics
are values of the model, so that their absence is a statement about a definition
and not a side condition of the translation.

`Action` is code that runs with a mutable reference to a state. The state
survives an error: whatever was written before the failing step stays written,
which is what a caller that inspects the state after an error observes.
-/

namespace HermesDecomp

universe u

/-- How a call ends. A loop that would never end is a `panic` too: both are the
absence of any returned value. -/
inductive Outcome (ε : Type) (α : Type u) where
  | ok (value : α)
  | err (error : ε)
  | panic
deriving DecidableEq, Repr

namespace Outcome

variable {ε : Type} {α β γ : Type u}

/-- Continue with the value, or keep the failure. -/
@[inline] def andThen (outcome : Outcome ε α) (next : α → Outcome ε β) : Outcome ε β :=
  match outcome with
  | ok value => next value
  | err error => err error
  | panic => panic

instance : Monad (Outcome ε) where
  pure := ok
  bind := andThen

@[simp] theorem pure_eq (value : α) : (pure value : Outcome ε α) = ok value := rfl

@[simp] theorem ok_bind (value : α) (next : α → Outcome ε β) :
    (ok value >>= next) = next value := rfl

@[simp] theorem err_bind (error : ε) (next : α → Outcome ε β) :
    ((err error : Outcome ε α) >>= next) = err error := rfl

@[simp] theorem panic_bind (next : α → Outcome ε β) :
    ((panic : Outcome ε α) >>= next) = panic := rfl

instance : LawfulMonad (Outcome ε) :=
  LawfulMonad.mk' (Outcome ε)
    (by intro α outcome; cases outcome <;> rfl)
    (by intros; rfl)
    (by intro α β γ outcome; cases outcome <;> intros <;> rfl)

@[simp] theorem map_ok (f : α → β) (value : α) : f <$> (ok value : Outcome ε α) = ok (f value) := rfl

@[simp] theorem map_err (f : α → β) (error : ε) : f <$> (err error : Outcome ε α) = err error := rfl

@[simp] theorem map_panic (f : α → β) : f <$> (panic : Outcome ε α) = panic := rfl

variable {outcome : Outcome ε α} {next : α → Outcome ε β} {result : β}

/-- A composed call returns a value exactly when both of its parts do. -/
theorem bind_eq_ok :
    (outcome >>= next) = ok result ↔ ∃ value, outcome = ok value ∧ next value = ok result := by
  cases outcome <;> simp

/-- A mapped call returns a value exactly when the call does. -/
theorem map_eq_ok {f : α → β} :
    f <$> outcome = ok result ↔ ∃ value, outcome = ok value ∧ f value = result := by
  cases outcome <;> simp

/-- A composed call panics exactly when a part that runs does. -/
theorem bind_eq_panic :
    (outcome >>= next) = panic ↔
      outcome = panic ∨ ∃ value, outcome = ok value ∧ next value = panic := by
  cases outcome <;> simp

/-- A composed call does not panic when no part that runs does. -/
theorem bind_ne_panic (first : outcome ≠ panic)
    (rest : ∀ value, outcome = ok value → next value ≠ panic) : (outcome >>= next) ≠ panic:= by
  intro panics
  rcases bind_eq_panic.mp panics with now | ⟨value, ran, later⟩
  · exact first now
  · exact rest value ran later

theorem map_ne_panic {f : α → β} (quiet : outcome ≠ panic) : f <$> outcome ≠ panic := by
  cases outcome <;> simp_all

theorem pure_ne_panic (value : α) : (pure value : Outcome ε α) ≠ panic := by simp

/-- The absence of a value becomes the given error. -/
def ofOption (error : ε) : Option α → Outcome ε α
  | some value => ok value
  | none => err error

variable {value : α}

@[simp] theorem ofOption_eq_ok {error : ε} {found : Option α} :
    ofOption error found = ok value ↔ found = some value := by
  cases found <;> simp [ofOption]

theorem ofOption_ne_panic (error : ε) (found : Option α) : ofOption error found ≠ panic := by
  cases found <;> simp [ofOption]

/-- Unwrap: the absence of a value is a panic. -/
def unwrap : Option α → Outcome ε α
  | some value => ok value
  | none => panic

@[simp] theorem unwrap_eq_ok {found : Option α} :
    (unwrap found : Outcome ε α) = ok value ↔ found = some value := by
  cases found <;> simp [unwrap]

/-- Return the error unless the condition holds. -/
def ensure (condition : Prop) [Decidable condition] (error : ε) : Outcome ε PUnit :=
  if condition then ok ⟨⟩ else err error

variable {condition : Prop}

@[simp] theorem ensure_eq_ok [Decidable condition] {error : ε} {value : PUnit} :
    ensure condition error = ok value ↔ condition := by
  unfold ensure
  split <;> simp_all

/-- Checked arithmetic: a result outside the machine range is a panic. -/
def checked (condition : Prop) [Decidable condition] (value : α) : Outcome ε α :=
  if condition then ok value else panic

@[simp] theorem checked_eq_ok [Decidable condition] {value result : α} :
    (checked condition value : Outcome ε α) = ok result ↔ condition ∧ value = result := by
  unfold checked
  split <;> simp_all

@[simp] theorem checked_eq_panic [Decidable condition] :
    (checked condition value : Outcome ε α) = panic ↔ ¬ condition := by
  unfold checked
  split <;> simp_all

/-- Indexing: a position outside the list is a panic. -/
def index (items : List α) (position : Nat) : Outcome ε α := unwrap items[position]?

variable {items : List α}

@[simp] theorem index_eq_ok {position : Nat} :
    (index items position : Outcome ε α) = ok value ↔ items[position]? = some value :=
  unwrap_eq_ok

/-- Assignment to a position: a position outside the list is a panic. -/
def store (items : List α) (position : Nat) (value : α) : Outcome ε (List α) :=
  checked (position < items.length) (items.set position value)

/-- The returned value, if any. -/
def toOption : Outcome ε α → Option α
  | ok value => some value
  | _ => none

/-- The call returns no error: it has an answer, or panics. -/
def Answers (outcome : Outcome ε α) : Prop := ∀ error, outcome ≠ err error

theorem answers_pure (value : α) : Answers (pure value : Outcome ε α) := by
  intro error
  simp

theorem answers_checked (condition : Prop) [Decidable condition] (value : α) :
    Answers (checked condition value : Outcome ε α) := by
  intro error
  unfold checked
  split <;> simp

theorem answers_bind (first : Answers outcome) (rest : ∀ value, Answers (next value))
    : Answers (outcome >>= next):= by
  intro error
  cases outcome with
  | ok value => exact rest value error
  | err found => exact absurd rfl (first found)
  | panic => simp

variable {σ : Type u} {f : σ → α → Outcome ε σ}

theorem answers_foldlM (step : ∀ state, ∀ item ∈ items, Answers (f state item)) (start : σ) :
    Answers (items.foldlM f start) := by
  induction items generalizing start with
  | nil => exact answers_pure start
  | cons item items ih =>
    rw [List.foldlM_cons]
    refine answers_bind (step start item List.mem_cons_self) fun middle => ?_
    exact ih (fun state item inside => step state item (List.mem_cons_of_mem _ inside)) middle

variable {start final : σ}

@[simp] theorem foldlM_nil_eq_ok :
    ([] : List α).foldlM f start = ok final ↔ start = final := by
  simp

/-- A row of steps returns exactly when the first step does and the others do
from where it ended. -/
theorem foldlM_cons_eq_ok {item : α} :
    (item :: items).foldlM f start = ok final ↔
      ∃ middle, f start item = ok middle ∧ items.foldlM f middle = ok final := by
  rw [List.foldlM_cons, bind_eq_ok]

/-- What every step preserves, a row of steps preserves. -/
theorem foldlM_preserves (invariant : σ → Prop)
    (step : ∀ item ∈ items, ∀ before after, invariant before → f before item = ok after →
      invariant after) (holds : invariant start) (ran : items.foldlM f start = ok final) :
    invariant final := by
  induction items generalizing start with
  | nil => exact foldlM_nil_eq_ok.mp ran ▸ holds
  | cons item items ih =>
    obtain ⟨middle, first, rest⟩ := foldlM_cons_eq_ok.mp ran
    have later : ∀ item ∈ items, ∀ before after, invariant before → f before item = ok after →
        invariant after := fun item inside => step item (List.mem_cons_of_mem _ inside)
    exact ih later (step _ List.mem_cons_self _ _ holds first) rest

variable {results : List β}

/-- A call on every item returns exactly when the call on each one does. -/
theorem mapM_eq_ok {f : α → Outcome ε β} :
    items.mapM f = ok results ↔ List.Forall₂ (fun item result => f item = ok result) items results := by
  induction items generalizing results with
  | nil => simp [eq_comm]
  | cons item items ih =>
    simp only [List.mapM_cons, bind_eq_ok, pure_eq, ok.injEq, ih, List.forall₂_cons_left_iff]
    constructor
    · rintro ⟨first, ran, rest, ranRest, rfl⟩
      exact ⟨first, rest, ran, ranRest, rfl⟩
    · rintro ⟨first, rest, ran, ranRest, rfl⟩
      exact ⟨first, ran, rest, ranRest, rfl⟩

/-- The result at a position comes from the item at that position. -/
theorem mapM_getElem? {f : α → Outcome ε β}
    (pairs : List.Forall₂ (fun item result => f item = ok result) items results) {position : Nat}
    (found : results[position]? = some result) :
    ∃ item, items[position]? = some item ∧ f item = ok result := by
  obtain ⟨inside, rfl⟩ := List.getElem?_eq_some_iff.mp found
  have source : position < items.length := pairs.length_eq ▸ inside
  exact ⟨items[position], List.getElem?_eq_getElem source, pairs.get source inside⟩

/-- A relation between positions and the results at them. -/
theorem forall₂_range {R : Nat → β → Prop} {count : Nat} :
    List.Forall₂ R (List.range count) results ↔
      results.length = count ∧ ∀ position result, results[position]? = some result →
        R position result := by
  rw [List.forall₂_iff_get]
  constructor
  · rintro ⟨length, related⟩
    rw [List.length_range] at length
    refine ⟨length.symm, fun position result found => ?_⟩
    obtain ⟨inside, rfl⟩ := List.getElem?_eq_some_iff.mp found
    simpa using related position (by simpa [length] using inside) inside
  · rintro ⟨length, related⟩
    refine ⟨by rw [List.length_range, length], fun position inside found => ?_⟩
    simpa using related position _ (List.getElem?_eq_getElem found)

/-- What holds of a result, if there is one, can be decided. -/
instance {outcome : Outcome ε α} {property : α → Prop} [DecidablePred property] :
    Decidable (∀ value, outcome = .ok value → property value) :=
  match outcome with
  | .ok value => decidable_of_iff (property value) (by simp)
  | .err _ => isTrue (by simp)
  | .panic => isTrue (by simp)

instance {outcome : Outcome ε α} {property : α → Prop} [DecidablePred property] :
    Decidable (∃ value, outcome = .ok value ∧ property value) :=
  match outcome with
  | .ok value => decidable_of_iff (property value) (by simp)
  | .err _ => isFalse (by simp)
  | .panic => isFalse (by simp)

instance {found : Option α} {property : α → Prop} [DecidablePred property] :
    Decidable (∀ value, found = some value → property value) :=
  match found with
  | some value => decidable_of_iff (property value) (by simp)
  | none => isTrue (by simp)

end Outcome

/-- Code that runs with a mutable reference to a state of type `σ`. -/
def Action (σ ε : Type) (α : Type) : Type := σ → Outcome ε α × σ

namespace Action

variable {σ ε α β : Type}

/-- Run the next part on the state the first part left, unless it failed. -/
@[inline] def andThen (action : Action σ ε α) (next : α → Action σ ε β) : Action σ ε β :=
  fun state => match action state with
    | (.ok value, state') => next value state'
    | (.err error, state') => (.err error, state')
    | (.panic, state') => (.panic, state')

instance : Monad (Action σ ε) where
  pure value := fun state => (.ok value, state)
  bind := andThen

/-- Read the state. -/
def get : Action σ ε σ := fun state => (.ok state, state)

/-- Replace the state. -/
def set (state : σ) : Action σ ε PUnit := fun _ => (.ok ⟨⟩, state)

/-- Return an error. -/
def fail (error : ε) : Action σ ε α := fun state => (.err error, state)

/-- Run a computation that does not touch the state. -/
def lift (outcome : Outcome ε α) : Action σ ε α := fun state => (outcome, state)

/-- Run a part and hand its error, if any, to the caller as a value. A panic is
not caught. -/
def attempt (action : Action σ ε α) : Action σ ε (Except ε α) :=
  fun state => match action state with
    | (.ok value, state') => (.ok (.ok value), state')
    | (.err error, state') => (.ok (.error error), state')
    | (.panic, state') => (.panic, state')

@[simp] theorem pure_apply (value : α) (state : σ) :
    (pure value : Action σ ε α) state = (.ok value, state) := rfl

@[simp] theorem get_apply (state : σ) : (get : Action σ ε σ) state = (.ok state, state) := rfl

@[simp] theorem set_apply (state state' : σ) :
    (set state' : Action σ ε PUnit) state = (.ok ⟨⟩, state') := rfl

@[simp] theorem fail_apply (error : ε) (state : σ) :
    (fail error : Action σ ε α) state = (.err error, state) := rfl

@[simp] theorem lift_apply (outcome : Outcome ε α) (state : σ) :
    (lift outcome : Action σ ε α) state = (outcome, state) := rfl

instance {action : Action σ ε α} {state : σ} {property : σ → Prop} [DecidablePred property] :
    Decidable (∃ value final, action state = (.ok value, final) ∧ property final) :=
  match action state with
  | (.ok _, final) => decidable_of_iff (property final) (by simp)
  | (.err _, _) => isFalse (by simp)
  | (.panic, _) => isFalse (by simp)

theorem bind_apply (action : Action σ ε α) (next : α → Action σ ε β) (state : σ) :
    (action >>= next) state = match action state with
      | (.ok value, state') => next value state'
      | (.err error, state') => (.err error, state')
      | (.panic, state') => (.panic, state') := rfl

variable {action : Action σ ε α} {next : α → Action σ ε β}

/-- An action that has run is left out of a composed one. -/
theorem bind_of_run {state between : σ} {value : α} (ran : action state = (.ok value, between))
    : (action >>= next) state = next value between:= by
  change andThen action next state = next value between
  rw [andThen, ran]

instance : LawfulMonad (Action σ ε) :=
  LawfulMonad.mk' (Action σ ε)
    (by
      intro α action
      funext state
      change andThen action pure state = action state
      rw [andThen]
      rcases action state with ⟨outcome, state'⟩
      cases outcome <;> rfl)
    (by intros; rfl)
    (by
      intro α β γ action next last
      funext state
      change andThen (andThen action next) last state =
        andThen action (fun value => andThen (next value) last) state
      simp only [andThen]
      rcases action state with ⟨outcome, state'⟩
      cases outcome <;> rfl)

/-- A composed action succeeds exactly when both parts do, the second one on the
state the first one left. -/
theorem bind_eq_ok {state final : σ} {result : β} :
    (action >>= next) state = (.ok result, final) ↔
      ∃ value between, action state = (.ok value, between) ∧
        next value between = (.ok result, final) := by
  rw [bind_apply]
  rcases run : action state with ⟨outcome, between⟩
  cases outcome <;> simp

/-- From any state that satisfies the invariant, a run does not panic and leaves
a state that satisfies it. -/
def SafeOn (invariant : σ → Prop) (action : Action σ ε α) : Prop :=
  ∀ state, invariant state → (action state).1 ≠ .panic ∧ invariant (action state).2

section Safety

variable {invariant : σ → Prop}

theorem safe_pure (value : α) : SafeOn invariant (pure value : Action σ ε α) := by
  intro state holds
  exact ⟨by simp, holds⟩

theorem safe_fail (error : ε) : SafeOn invariant (fail error : Action σ ε α) := by
  intro state holds
  exact ⟨by simp, holds⟩

theorem safe_lift {outcome : Outcome ε α} (quiet : outcome ≠ .panic) :
    SafeOn invariant (lift outcome : Action σ ε α) := by
  intro state holds
  exact ⟨quiet, holds⟩

variable {action : Action σ ε α}

/-- Safety composes: a continuation has to be safe for the values it is given. -/
theorem safe_bind_of {next : α → Action σ ε β} {given : α → Prop} (first : SafeOn invariant action)
    (ensures : ∀ state value, invariant state → (action state).1 = .ok value → given value)
    (rest : ∀ value, given value → SafeOn invariant (next value)) :
    SafeOn invariant (action >>= next) := by
  intro state holds
  obtain ⟨quiet, kept⟩ := first state holds
  have produced := ensures state
  rw [bind_apply]
  rcases run : action state with ⟨outcome, between⟩
  rw [run] at quiet kept produced
  cases outcome with
  | ok value => exact rest value (produced value holds rfl) between kept
  | err error => exact ⟨by simp, kept⟩
  | panic => exact absurd rfl quiet

/-- Safety composes when the continuation is safe whatever it is given. -/
theorem safe_bind {next : α → Action σ ε β} (first : SafeOn invariant action)
    (rest : ∀ value, SafeOn invariant (next value)) : SafeOn invariant (action >>= next) :=
  safe_bind_of first (fun _ _ _ _ => trivial) fun value _ => rest value

theorem safe_ite {condition : Prop} [Decidable condition] {yes no : Action σ ε α}
    (whenTrue : condition → SafeOn invariant yes) (whenFalse : ¬ condition → SafeOn invariant no) :
    SafeOn invariant (if condition then yes else no) := by
  split
  next holds => exact whenTrue holds
  next fails => exact whenFalse fails

theorem safe_attempt (safe : SafeOn invariant action) : SafeOn invariant (attempt action) := by
  intro state holds
  obtain ⟨quiet, kept⟩ := safe state holds
  unfold attempt
  rcases run : action state with ⟨outcome, between⟩
  rw [run] at quiet kept
  cases outcome with
  | ok | err => exact ⟨by simp, kept⟩
  | panic => exact absurd rfl quiet

end Safety

/-- No run of the action returns an error. -/
def Unfailing (action : Action σ ε α) : Prop := ∀ state, (action state).1.Answers

theorem unfailing_pure (value : α) : Unfailing (pure value : Action σ ε α) := by
  intro state error
  simp

theorem unfailing_attempt (action : Action σ ε α) : Unfailing (attempt action) := by
  intro state error
  unfold attempt
  rcases action state with ⟨_ | _ | _, _⟩ <;> simp

theorem unfailing_lift {outcome : Outcome ε α} (answers : outcome.Answers) :
    Unfailing (lift outcome : Action σ ε α) := fun _ => answers

theorem unfailing_checked (condition : Prop) [Decidable condition] (value : α) :
    Unfailing (lift (.checked condition value) : Action σ ε α) :=
  unfailing_lift (Outcome.answers_checked _ _)

theorem unfailing_bind (first : Unfailing action) (rest : ∀ value, Unfailing (next value)) :
    Unfailing (action >>= next) := by
  intro state error
  have quiet := first state error
  rw [bind_apply]
  rcases run : action state with ⟨outcome, between⟩
  rw [run] at quiet
  cases outcome with
  | ok value => exact rest value between error
  | err error => simpa using quiet
  | panic => simp

theorem unfailing_ite {condition : Prop} [Decidable condition] {yes no : Action σ ε α}
    (whenTrue : Unfailing yes) (whenFalse : Unfailing no) :
    Unfailing (if condition then yes else no) := by
  split
  · exact whenTrue
  · exact whenFalse

/-- A run from a state that satisfies the invariant leaves one that does. -/
def Preserves (invariant : σ → Prop) (action : Action σ ε α) : Prop :=
  ∀ state, invariant state → invariant (action state).2

section Preservation

variable {invariant : σ → Prop}

theorem Preserves.of_run {action : Action σ ε α} {state final : σ} {outcome : Outcome ε α}
    (keeps : Preserves invariant action) (ran : action state = (outcome, final))
    (holds : invariant state) : invariant final := by
  have kept := keeps state holds
  rwa [ran] at kept

theorem preserves_pure (value : α) : Preserves invariant (pure value : Action σ ε α) :=
  fun _ holds => holds

theorem preserves_fail (error : ε) : Preserves invariant (fail error : Action σ ε α) :=
  fun _ holds => holds

theorem preserves_lift (outcome : Outcome ε α) :
    Preserves invariant (lift outcome : Action σ ε α) := fun _ holds => holds

theorem preserves_bind {action : Action σ ε α} {next : α → Action σ ε β}
    (first : Preserves invariant action) (rest : ∀ value, Preserves invariant (next value)) :
    Preserves invariant (action >>= next) := by
  intro state holds
  have kept := first state holds
  rw [bind_apply]
  rcases run : action state with ⟨outcome, between⟩
  rw [run] at kept
  cases outcome with
  | ok value => exact rest value between kept
  | err | panic => exact kept

theorem preserves_ite {condition : Prop} [Decidable condition] {yes no : Action σ ε α}
    (whenTrue : Preserves invariant yes) (whenFalse : Preserves invariant no) :
    Preserves invariant (if condition then yes else no) := by
  split
  · exact whenTrue
  · exact whenFalse

end Preservation

/-- Every value that a run returns has the property. -/
def Returns (action : Action σ ε α) (property : α → Prop) : Prop :=
  ∀ state value, (action state).1 = .ok value → property value

variable {property : α → Prop}

theorem returns_pure {value : α} (holds : property value) :
    Returns (pure value : Action σ ε α) property := by
  intro state result ran
  obtain rfl : value = result := Outcome.ok.inj ran
  exact holds

theorem returns_fail (property : α → Prop) (error : ε) :
    Returns (fail error : Action σ ε α) property := by
  intro state value ran
  cases ran

theorem returns_lift {outcome : Outcome ε α} (holds : ∀ value, outcome = .ok value → property value) :
    Returns (lift outcome : Action σ ε α) property := by
  intro state value ran
  exact holds value ran

/-- What a composed run returns is what its second part returns for a value of
its first part. -/
theorem returns_bind_of {property : β → Prop} {given : α → Prop} (first : Returns action given)
    (rest : ∀ value, given value → Returns (next value) property) :
    Returns (action >>= next) property := by
  intro state result ran
  have whole : (action >>= next) state = (.ok result, ((action >>= next) state).2) :=
    Prod.ext ran rfl
  obtain ⟨value, between, firstRan, restRan⟩ := bind_eq_ok.mp whole
  have given := first state value (congrArg Prod.fst firstRan)
  exact rest value given between result (congrArg Prod.fst restRan)

theorem returns_bind {property : β → Prop} (rest : ∀ value, Returns (next value) property)
    : Returns (action >>= next) property:=
  returns_bind_of (show Returns action fun _ => True from fun _ _ _ => trivial)
    fun value _ => rest value

theorem returns_ite {condition : Prop} [Decidable condition] {yes no : Action σ ε α}
    (whenTrue : Returns yes property) (whenFalse : Returns no property) :
    Returns (if condition then yes else no) property := by
  split
  · exact whenTrue
  · exact whenFalse

/-- `count` runs in a row, collecting the values; the first failure stops them. -/
def repeatM (action : Action σ ε α) : Nat → Action σ ε (List α)
  | 0 => pure []
  | count + 1 => do
    let value ← action
    let rest ← repeatM action count
    pure (value :: rest)

theorem safe_repeatM {invariant : σ → Prop} (safe : SafeOn invariant action) (count : Nat)
    : SafeOn invariant (repeatM action count):= by
  induction count with
  | zero => exact safe_pure []
  | succ count ih => exact safe_bind safe fun value => safe_bind ih fun rest => safe_pure _

/-- A row of runs succeeds exactly when the first run and the rest do. -/
theorem repeatM_succ_eq_ok {count : Nat} {state final : σ} {values : List α} :
    repeatM action (count + 1) state = (.ok values, final) ↔
      ∃ value between rest, action state = (.ok value, between) ∧
        repeatM action count between = (.ok rest, final) ∧ values = value :: rest := by
  simp only [repeatM, bind_eq_ok, pure_apply, Prod.mk.injEq, Outcome.ok.injEq]
  constructor
  · rintro ⟨value, between, first, rest, final', later, rfl, rfl⟩
    exact ⟨value, between, rest, first, later, rfl⟩
  · rintro ⟨value, between, rest, first, later, rfl⟩
    exact ⟨value, between, first, rest, final, later, rfl, rfl⟩

/-- A row of operations that all succeed, each run where it is allowed. -/
inductive Runs {ω : Type} (perform : ω → Action σ ε α) (allowed : σ → ω → Prop) :
    σ → List ω → σ → Prop
  | nil (state : σ) : Runs perform allowed state [] state
  | cons {start between finish : σ} {operation : ω} {rest : List ω} {value : α}
      (fits : allowed start operation) (ran : perform operation start = (.ok value, between))
      (later : Runs perform allowed between rest finish) :
      Runs perform allowed start (operation :: rest) finish

/-- What every allowed operation keeps, every row of them keeps. -/
theorem Runs.keeps {ω : Type} {perform : ω → Action σ ε α} {allowed : σ → ω → Prop}
    {invariant : σ → Prop}
    (step : ∀ start operation value between, invariant start → allowed start operation →
      perform operation start = (.ok value, between) → invariant between)
    {start finish : σ} {operations : List ω} (run : Runs perform allowed start operations finish)
    (holds : invariant start) : invariant finish := by
  induction run with
  | nil state => exact holds
  | cons fits ran later ih => exact ih (step _ _ _ _ holds fits ran)

end Action

end HermesDecomp
