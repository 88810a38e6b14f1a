import HermesDecomp.Transforms.LogicRules
import HermesDecomp.Transforms.ShortCircuitMeaning

/-!
# Where branches are logic, and guarded reads optional ones

The branch evaluates a condition and then, in one arm, the same expression again; the logical
operator takes the value it has. The guarded read keeps what a register holds when the check fails,
and the optional read stores `undefined` for a value that is nullish, and the member of any other
one.
-/

namespace HermesDecomp.Ir.LogicPatterns

/-- A branch that assigns its condition in one arm and another value in the other one. -/
def logicAssignment (condition : Expression) (target target' : AssignTarget)
    (value value' : Expression) : Option Statement :=
  if target == target' then
    if condition == value then some (.assign target (.binary .or condition value'))
    else if condition == value' then some (.assign target (.binary .and condition value))
    else none
  else none

/-- A branch as an assignment, where it is one. -/
def pairLogic : Statement → Statement
  | .ifStmt condition [.assign target value] [.assign target' value'] =>
      (logicAssignment condition target target' value value').getD
        (.ifStmt condition [.assign target value] [.assign target' value'])
  | statement => statement

/-- The read of a register. -/
def isReg : Expression → Nat → Bool
  | .value (.binding (.register number)), register => number == register
  | _, _ => false

/-- A check that a register holds something. -/
def isNullCheck (register : Nat) : Expression → Bool
  | .value (.binding (.register number)) => number == register
  | .binary .neq left right | .binary .strictNeq left right =>
      (isReg left register || isReg right register) &&
        (isNullOrUndefined left || isNullOrUndefined right)
  | _ => false

/-- The optional read of a member of a register into the register. -/
def optionalRead (register : Nat) (property : PropertyKey) : Statement :=
  .assign (.binding (.register register)) (.member (.register register) property true)

/-- The guarded read of a member of a register, behind a store into the register. -/
def chained (first next : Statement) : Option Statement :=
  match first, next with
  | .assign (.binding (.register register)) _,
      .ifStmt condition [.assign target (.member object property _)] [] =>
      if target == .binding (.register register) && isNullCheck register condition &&
          isReg object register then
        some (optionalRead register property)
      else none
  | _, _ => none

/-- Each statement with the one in front of it. -/
def chainFrom (first : Statement) : List Statement → List Statement
  | [] => [first]
  | next :: rest => first :: chainFrom ((chained first next).getD next) rest

def chainList : List Statement → List Statement
  | [] => []
  | first :: rest => chainFrom first rest

/-- Both passes. -/
def transformLogic (statements : List Statement) : List Statement :=
  chainList (statements.map pairLogic)

open Action Logic ShortCircuit

variable {host : Host}

/-- Where the condition has this truth, storing the repeated expression comes to storing the
condition's value. -/
def RepeatsInto (host : Host) (place : Binding) (truth : Bool) (condition repeated : Expression) :
    Prop :=
  ∀ (machine : Machine host) value after, condition.evaluate machine = (.ok value, after) →
    host.truthy value = truth →
      ((repeated.evaluate : Exec host host.Val) >>= writeBinding place) after =
        (writeBinding place value : Exec host PUnit) after

/-- An arm that repeats the condition stores what the condition came to; the parts of a member may
be computed before the condition. -/
def ArmSound (host : Host) (target : AssignTarget) (truth : Bool) (condition repeated : Expression) :
    Prop :=
  match target with
  | .binding place => RepeatsInto host place truth condition repeated
  | target => target.Movable condition ∧ Repeats host truth condition repeated

/-- A branch on the truth of a condition that stores the condition, or something else. -/
def choosing (target : AssignTarget) (truth : Bool) (condition repeated other : Expression) :
    Statement :=
  if truth then .ifStmt condition [.assign target repeated] [.assign target other]
  else .ifStmt condition [.assign target other] [.assign target repeated]

/-- The operator that keeps a left operand of this truth. -/
def keeping (truth : Bool) : BinaryOp := if truth then .or else .and

theorem binaryOf_keeping (truth : Bool) (left right : Exec host host.Val) :
    binaryOf (keeping truth) left right =
      left >>= fun value => if host.truthy value = truth then pure value else right := by
  cases truth
  · refine congrArg (left >>= ·) (funext fun value => ?_)
    by_cases truth : host.truthy value = true <;> simp [keeping, truth]
  · rfl

theorem bind_eq_choiceOf {α : Type} (condition : Exec host host.Val)
    (whenTrue whenFalse : Exec host α) :
    (condition >>= fun value => if host.truthy value = false then whenFalse else whenTrue) =
      choiceOf condition whenTrue whenFalse := by
  refine congrArg (condition >>= ·) (funext fun value => ?_)
  by_cases truth : host.truthy value = true <;> simp [truth]

theorem execute_choosing (branching : host.Branching) (fuel : Nat) (label : Option String)
    (target : AssignTarget) (truth : Bool) (condition repeated other : Expression) :
    ((choosing target truth condition repeated other).execute fuel label : Exec host PUnit) =
      (condition.evaluate >>= fun value =>
        if host.truthy value = truth then storeAgain target repeated
        else storeAgain target other) := by
  cases truth
  · rw [choosing, if_neg (by decide), Statement.execute, inScope_assign branching,
      inScope_assign branching, bind_eq_choiceOf]
    rfl
  · rw [choosing, if_pos rfl, Statement.execute, inScope_assign branching, inScope_assign branching]
    rfl

theorem storeAgain_binding (place : Binding) (value : Expression) :
    (storeAgain (.binding place) value : Exec host PUnit) =
      value.evaluate >>= writeBinding place := by
  rw [storeAgain, AssignTarget.store, bind_assoc]
  refine congrArg (value.evaluate >>= ·) (funext fun content => ?_)
  rw [bind_assoc]
  exact bind_pure _

theorem storeAgain_keeping (place : Binding) (truth : Bool) (condition other : Expression) :
    (storeAgain (.binding place) (.binary (keeping truth) condition other) : Exec host PUnit) =
      (condition.evaluate >>= fun value =>
        if host.truthy value = truth then writeBinding place value
        else storeAgain (.binding place) other) := by
  rw [storeAgain_binding, storeAgain_binding, Expression.evaluate, binaryOf_keeping, bind_assoc]
  refine congrArg (condition.evaluate >>= ·) (funext fun value => ?_)
  split
  · rfl
  · rfl

/-- Into a place, the operator does what the branch does exactly where the arm stores what the
condition came to. -/
theorem keeping_iff (branching : host.Branching) (fuel : Nat) (label : Option String)
    (place : Binding) (truth : Bool) (condition repeated other : Expression) :
    ((Statement.assign (.binding place) (.binary (keeping truth) condition other)).execute fuel label :
        Exec host PUnit) =
      (choosing (.binding place) truth condition repeated other).execute fuel label ↔
    RepeatsInto host place truth condition repeated := by
  have assigned : ((Statement.assign (.binding place)
      (.binary (keeping truth) condition other)).execute fuel label : Exec host PUnit) =
      storeAgain (.binding place) (.binary (keeping truth) condition other) := rfl
  rw [assigned, storeAgain_keeping, execute_choosing branching]
  constructor
  · intro same machine value after evaluated isTruth
    have applied := bind_apply_eq_iff.mp (congrFun same machine) value after evaluated
    rw [if_pos isTruth, if_pos isTruth, storeAgain_binding] at applied
    exact applied.symm
  · intro repeats
    funext machine
    refine bind_apply_eq_iff.mpr fun value after evaluated => ?_
    split
    case isTrue isTruth =>
      rw [storeAgain_binding]
      exact (repeats machine value after evaluated isTruth).symm
    case isFalse => rfl

variable {truth : Bool} {condition repeated : Expression}

/-- A choice that repeats its condition in one arm is the operator that keeps it. -/
theorem choiceOf_repeats (repeats : Repeats host truth condition repeated)
    (other : Exec host host.Val) :
    (condition.evaluate >>= fun value =>
        if host.truthy value = truth then repeated.evaluate else other) =
      binaryOf (keeping truth) condition.evaluate other := by
  rw [binaryOf_keeping]
  funext machine
  refine bind_apply_eq_iff.mpr fun value after evaluated => ?_
  split
  case isTrue isTruth => exact repeats machine value after evaluated isTruth
  case isFalse => rfl

variable {target : AssignTarget}

/-- Into a member whose parts may come before the condition, the operator does what the branch
does. -/
theorem execute_keeping (branching : host.Branching) (fuel : Nat) (label : Option String)
    (movable : target.Movable condition) (repeats : Repeats host truth condition repeated)
    (other : Expression) :
    ((Statement.assign target (.binary (keeping truth) condition other)).execute fuel label :
        Exec host PUnit) =
      (choosing target truth condition repeated other).execute fuel label := by
  have stored : target.store (binaryOf (keeping truth) condition.evaluate other.evaluate) =
      (condition.evaluate >>= fun value => if host.truthy value = truth
        then target.store repeated.evaluate else target.store other.evaluate) := by
    rw [← choiceOf_repeats repeats]
    cases truth
    · rw [bind_eq_choiceOf, bind_eq_choiceOf]
      exact movable.store_choiceOf ..
    · exact movable.store_choiceOf ..
  rw [execute_choosing branching, Statement.execute, Expression.evaluate, stored, bind_assoc]
  refine congrArg (condition.evaluate >>= ·) (funext fun value => ?_)
  split
  · rfl
  · rfl

/-- An assignment does what the branch it is made of does. -/
theorem ArmSound.execute (branching : host.Branching) (fuel : Nat) (label : Option String)
    (sound : ArmSound host target truth condition repeated) (other : Expression) :
    ((Statement.assign target (.binary (keeping truth) condition other)).execute fuel label :
        Exec host PUnit) =
      (choosing target truth condition repeated other).execute fuel label := by
  cases target with
  | binding place =>
    exact (keeping_iff branching fuel label place truth condition repeated other).mpr sound
  | member | index | destructuringArray | destructuringArrayRest | destructuringObject
  | destructuringObjectRest | rest =>
    exact execute_keeping branching fuel label sound.1 sound.2 other

/-- A branch that becomes an assignment has one target, and an arm that is sound. -/
def PairSound (host : Host) : Statement → Prop
  | .ifStmt condition [.assign target value] [.assign target' value'] =>
      (target == target') = true →
        if condition == value then target' = target ∧ ArmSound host target true condition value
        else (condition == value') = true →
          target' = target ∧ ArmSound host target false condition value'
  | _ => True

theorem execute_pairLogic (branching : host.Branching) (fuel : Nat) (label : Option String)
    {statement : Statement} (sound : PairSound host statement) :
    ((pairLogic statement).execute fuel label : Exec host PUnit) =
      statement.execute fuel label := by
  unfold pairLogic
  split
  case h_1 condition target value target' value' =>
    unfold logicAssignment
    split
    case isFalse => rfl
    case isTrue same =>
      have sound := sound same
      split
      case isTrue first =>
        rw [if_pos first] at sound
        obtain ⟨rfl, arm⟩ := sound
        exact arm.execute branching fuel label value'
      case isFalse first =>
        rw [if_neg first] at sound
        split
        case isTrue second =>
          obtain ⟨rfl, arm⟩ := sound second
          exact arm.execute branching fuel label value
        case isFalse => rfl
  case h_2 => rfl

theorem labelAfter_pairLogic (pending : Option String) (statement : Statement) :
    (pairLogic statement).labelAfter pending = statement.labelAfter pending := by
  unfold pairLogic
  split
  case h_1 =>
    unfold logicAssignment
    split
    · split
      · rfl
      · split <;> rfl
    · rfl
  case h_2 => rfl

theorem executeAll_pairLogic (branching : host.Branching) (fuel : Nat) (statements : List Statement) :
    ∀ pending : Option String, (∀ statement ∈ statements, PairSound host statement) →
      (executeAll fuel pending (statements.map pairLogic) : Exec host PUnit) =
        executeAll fuel pending statements := by
  induction statements with
  | nil => intro pending _; rfl
  | cons first rest hypothesis =>
    intro pending sound
    rw [List.forall_mem_cons] at sound
    rw [List.map_cons, executeAll, execute_pairLogic branching fuel pending sound.1,
      labelAfter_pairLogic, hypothesis _ sound.2, executeAll]

/-- A read of a member of a register into the register, guarded by a condition. -/
def guardedRead (condition : Expression) (register : Nat) (property : PropertyKey)
    (optional : Bool) : Statement :=
  .ifStmt condition
    [.assign (.binding (.register register)) (.member (.register register) property optional)] []

/-- What is read when the check has this truth: a value that is not nullish when it holds, and
one whose optional member changes nothing when it does not. -/
def Chainable (register : Nat) (property : PropertyKey) (optional flag : Bool)
    (after : Machine host) : Prop :=
  if flag then host.nullish (after.read register) = false ∨ optional = true
  else storeAgain (.binding (.register register)) (.member (.register register) property true) after =
    (.ok ⟨⟩, after)

variable {after : Machine host}

theorem execute_guardedRead (branching : host.Branching) (fuel : Nat) (label : Option String)
    {condition : Expression} {flag : Bool} (decides : Decides condition flag after) (register : Nat)
    (property : PropertyKey) (optional : Bool) :
    (guardedRead condition register property optional).execute fuel label after =
      if flag then storeAgain (.binding (.register register))
        (.member (.register register) property optional) after
      else (.ok ⟨⟩, after) := by
  rw [guardedRead, Statement.execute, inScope_assign branching, executeAll, inScope_pure branching,
    choiceOf_of_decides decides]
  cases flag <;> rfl

variable {register : Nat}

/-- A member of a value that is not nullish is the same with and without the option. -/
theorem memberOf_of_present {optional : Bool}
    (present : host.nullish (after.read register) = false ∨ optional = true)
    (key : Exec host host.Key) :
    memberOf optional (readRegister register) key after =
      memberOf true (readRegister register) key after := by
  rcases present with present | rfl
  · have found : readRegister register after = (.ok (after.read register), after) := rfl
    rw [memberOf, memberOf, bind_of_run found, bind_of_run found, present, Bool.and_false,
      Bool.and_false]
  · rfl

theorem execute_optionalRead (fuel : Nat) (label : Option String) (register : Nat)
    (property : PropertyKey) :
    ((optionalRead register property).execute fuel label : Exec host PUnit) =
      storeAgain (.binding (.register register)) (.member (.register register) property true) := rfl

theorem evaluate_member_register (register : Nat) (property : PropertyKey) (optional : Bool) :
    ((Expression.member (.register register) property optional).evaluate : Exec host host.Val) =
      memberOf optional (readRegister register) property.evaluate := rfl

/-- The optional read does what the guarded one does. -/
theorem Chainable.execute (branching : host.Branching) (fuel : Nat) (label : Option String)
    {condition : Expression} {flag optional : Bool} {property : PropertyKey}
    (chainable : Chainable register property optional flag after)
    (decides : Decides condition flag after) :
    (optionalRead register property).execute fuel label after =
      (guardedRead condition register property optional).execute fuel label after := by
  rw [execute_guardedRead branching fuel label decides, execute_optionalRead]
  cases flag
  case false => exact chainable
  case true =>
    have same := memberOf_of_present chainable property.evaluate
    rw [if_pos rfl, storeAgain_binding, storeAgain_binding, evaluate_member_register,
      evaluate_member_register, bind_apply, bind_apply, same]

/-- A member of a nullish value has no value. -/
def Guarded (host : Host) : Prop :=
  ∀ object key world value after, host.nullish object = true →
    host.getMember object key world ≠ (.ok value, after)

/-- Where a member of a nullish value has no value, only a chainable read does what the guarded
one does. -/
theorem chainable_of_execute (branching : host.Branching) (guarded : Guarded host) (fuel : Nat)
    (label : Option String) {condition : Expression} {flag optional : Bool} {property : PropertyKey}
    (decides : Decides condition flag after)
    (same : (optionalRead register property).execute fuel label after =
      (guardedRead condition register property optional).execute fuel label after) :
    Chainable register property optional flag after := by
  rw [execute_guardedRead branching fuel label decides, execute_optionalRead] at same
  cases flag
  case false => exact same
  case true =>
    by_contra neither
    obtain ⟨absent, rfl⟩ : host.nullish (after.read register) = true ∧ optional = false := by
      simpa [Chainable] using neither
    have found : readRegister register after = (.ok (after.read register), after) := rfl
    have chained : memberOf true (readRegister register) property.evaluate after =
        (.ok (host.constant .undefined), after) := by
      rw [memberOf, bind_of_run found, absent]
      rfl
    rw [if_pos rfl, storeAgain_binding, storeAgain_binding, evaluate_member_register,
      evaluate_member_register, bind_of_run chained] at same
    obtain ⟨value, middle, read, -⟩ := bind_eq_ok.mp same.symm
    rw [memberOf, bind_of_run found, Bool.false_and] at read
    obtain ⟨key, ready, _, got⟩ := bind_eq_ok.mp read
    rw [perform] at got
    rcases answered : host.getMember (after.read register) key ready.world with ⟨_ | _ | _, world⟩
    · exact guarded _ _ _ _ _ absent answered
    · rw [answered] at got
      cases got
    · rw [answered] at got
      cases got

/-- A guarded read behind a store: once the value is stored, the check does nothing, and what is
read is chainable. -/
def ChainSound (host : Host) (first next : Statement) : Prop :=
  ∀ register value condition property optional,
    first = .assign (.binding (.register register)) value →
      next = guardedRead condition register property optional →
        isNullCheck register condition = true →
          ∀ (machine : Machine host) content ready, value.evaluate machine = (.ok content, ready) →
            ∃ flag, Decides condition flag (ready.write register content) ∧
              Chainable register property optional flag (ready.write register content)

theorem eq_of_same_register (same : (target == .binding (.register register)) = true) :
    target = .binding (.register register) := by
  cases target
  case binding place =>
    cases place
    case register number =>
      have numbers : (number == register) = true := same
      rw [eq_of_beq numbers]
    all_goals cases same
  all_goals cases same

theorem eq_of_isReg {object : Expression} (isRead : isReg object register = true) :
    object = .register register := by
  unfold isReg at isRead
  split at isRead
  · rw [eq_of_beq isRead]
    rfl
  · cases isRead

theorem chained_eq_some {first next optional : Statement}
    (found : chained first next = some optional) :
    ∃ register value condition property isOptional,
      first = .assign (.binding (.register register)) value ∧
        next = guardedRead condition register property isOptional ∧
          isNullCheck register condition = true ∧ optional = optionalRead register property := by
  unfold chained at found
  split at found
  case h_1 register value condition target object property isOptional =>
    obtain ⟨checks, made⟩ := Option.ite_none_right_eq_some.mp found
    simp only [Bool.and_eq_true] at checks
    obtain ⟨⟨same, checked⟩, isRead⟩ := checks
    obtain rfl := eq_of_same_register same
    obtain rfl := eq_of_isReg isRead
    exact ⟨register, value, condition, property, isOptional, rfl, rfl, checked,
      (Option.some.inj made).symm⟩
  case h_2 => cases found

/-- What follows the store of a register runs with the value in it. -/
theorem store_register_bind_iff {value : Expression} (fuel : Nat) (label : Option String)
    {next next' : Exec host PUnit} :
    ((Statement.assign (.binding (.register register)) value).execute fuel label >>= fun _ => next) =
        ((Statement.assign (.binding (.register register)) value).execute fuel label >>=
          fun _ => next') ↔
      ∀ (machine : Machine host) content ready, value.evaluate machine = (.ok content, ready) →
        next (ready.write register content) = next' (ready.write register content) := by
  have stored : ((Statement.assign (.binding (.register register)) value).execute fuel label :
      Exec host PUnit) = value.evaluate >>= writeRegister register := storeAgain_binding ..
  rw [stored, bind_assoc, bind_assoc]
  constructor
  · intro same machine content ready evaluated
    exact bind_apply_eq_iff.mp (congrFun same machine) content ready evaluated
  · intro same
    funext machine
    exact bind_apply_eq_iff.mpr (same machine)

/-- Every guarded read of a list, each behind the statement that is in front of it then. -/
def ChainsSound (host : Host) (first : Statement) : List Statement → Prop
  | [] => True
  | next :: rest =>
      ChainSound host first next ∧ ChainsSound host ((chained first next).getD next) rest

/-- An optional read behind a store does what the guarded one does there. -/
theorem execute_chained (branching : host.Branching) (fuel : Nat) (label label' : Option String)
    {first next : Statement} (sound : ChainSound host first next) (rest : Exec host PUnit) :
    (first.execute fuel label >>= fun _ =>
        ((chained first next).getD next).execute fuel label' >>= fun _ => rest) =
      first.execute fuel label >>= fun _ => next.execute fuel label' >>= fun _ => rest := by
  cases found : chained first next with
  | none => rfl
  | some optional =>
    obtain ⟨register, value, condition, property, isOptional, rfl, rfl, checked, rfl⟩ :=
      chained_eq_some found
    refine (store_register_bind_iff fuel label).mpr ?_
    intro machine content ready evaluated
    obtain ⟨flag, decides, chainable⟩ :=
      sound register value condition property isOptional rfl rfl checked machine content ready
        evaluated
    rw [bind_apply, bind_apply, Option.getD_some, chainable.execute branching fuel label' decides]

theorem labelAfter_chained (first next : Statement) (pending : Option String) :
    ((chained first next).getD next).labelAfter pending = next.labelAfter pending := by
  cases found : chained first next with
  | none => rfl
  | some optional =>
    obtain ⟨_, _, _, _, _, _, rfl, _, rfl⟩ := chained_eq_some found
    rfl

/-- The second pass keeps what a list does. -/
theorem executeAll_chainFrom (branching : host.Branching) (fuel : Nat) (rest : List Statement) :
    ∀ {first : Statement} {pending : Option String}, ChainsSound host first rest →
      (executeAll fuel pending (chainFrom first rest) : Exec host PUnit) =
        executeAll fuel pending (first :: rest) := by
  induction rest with
  | nil => intro first pending _; rfl
  | cons next rest hypothesis =>
    intro first pending ⟨onPair, onRest⟩
    rw [chainFrom, executeAll, hypothesis onRest, executeAll, labelAfter_chained,
      execute_chained branching fuel _ _ onPair]
    rfl

/-- Every branch that becomes an assignment, and every guarded read behind a store. -/
def Sound (host : Host) (statements : List Statement) : Prop :=
  (∀ statement ∈ statements, PairSound host statement) ∧
    match statements.map pairLogic with
    | [] => True
    | first :: rest => ChainsSound host first rest

theorem executeAll_transformLogic (branching : host.Branching) (fuel : Nat)
    (pending : Option String) {statements : List Statement} (sound : Sound host statements) :
    (executeAll fuel pending (transformLogic statements) : Exec host PUnit) =
      executeAll fuel pending statements := by
  obtain ⟨pairs, chains⟩ := sound
  rw [← executeAll_pairLogic branching fuel statements pending pairs, transformLogic]
  cases paired : statements.map pairLogic with
  | nil => rfl
  | cons first rest =>
    rw [paired] at chains
    exact executeAll_chainFrom branching fuel rest chains

theorem binding_beq_self (place : Binding) :
    (AssignTarget.binding place == .binding place) = true := by
  change (place == place) = true
  cases place
  case register number => exact beq_self_eq_true number
  case «variable» name => exact beq_self_eq_true name.name
  case closureVar level slot =>
    change (level == level && slot == slot) = true
    simp

theorem pairLogic_choosing {place : Binding} {condition repeated other : Expression}
    (repeats : (condition == repeated) = true)
    (differs : truth = false → (condition == other) = false) :
    pairLogic (choosing (.binding place) truth condition repeated other) =
      .assign (.binding place) (.binary (keeping truth) condition other) := by
  cases truth
  · simp [choosing, pairLogic, logicAssignment, binding_beq_self, repeats, differs rfl, keeping]
  · simp [choosing, pairLogic, logicAssignment, binding_beq_self, repeats, keeping]

/-- The passes keep what every list does if each arm that repeats its condition stores what the
condition came to, and if each guarded read reads a value that is not nullish, or where the check
fails one whose optional member changes nothing. For places, and where a member of a nullish value
has no value, this is also needed. -/
theorem transformLogic_kept (branching : host.Branching) (fuel : Nat) (pending : Option String) :
    (∀ statements, Sound host statements →
      (executeAll fuel pending (transformLogic statements) : Exec host PUnit) =
        executeAll fuel pending statements) ∧
    (∀ place truth condition repeated other, (condition == repeated) = true →
      (truth = false → (condition == other) = false) →
        ((executeAll fuel pending
            (transformLogic [choosing (.binding place) truth condition repeated other]) :
              Exec host PUnit) =
            executeAll fuel pending [choosing (.binding place) truth condition repeated other] ↔
          RepeatsInto host place truth condition repeated)) ∧
    (Guarded host → ∀ register value condition property optional,
      isNullCheck register condition = true →
        (∀ (machine : Machine host) content ready, value.evaluate machine = (.ok content, ready) →
          ∃ flag, Decides condition flag (ready.write register content)) →
        ((executeAll fuel pending (transformLogic [.assign (.binding (.register register)) value,
              guardedRead condition register property optional]) : Exec host PUnit) =
            executeAll fuel pending [.assign (.binding (.register register)) value,
              guardedRead condition register property optional] ↔
          ∀ (machine : Machine host) content ready, value.evaluate machine = (.ok content, ready) →
            ∀ flag, Decides condition flag (ready.write register content) →
              Chainable register property optional flag (ready.write register content))) := by
  refine ⟨fun _ => executeAll_transformLogic branching fuel pending, ?_, ?_⟩
  · intro place truth condition repeated other repeats differs
    have made : transformLogic [choosing (.binding place) truth condition repeated other] =
        [.assign (.binding place) (.binary (keeping truth) condition other)] :=
      congrArg (fun statement => [statement]) (pairLogic_choosing repeats differs)
    rw [made, executeAll_singleton, executeAll_singleton]
    exact keeping_iff branching fuel pending place truth condition repeated other
  · intro guarded register value condition property optional checked decided
    have found : chained (.assign (.binding (.register register)) value)
        (guardedRead condition register property optional) =
          some (optionalRead register property) := by
      have isRead : isReg (.register register) register = true := beq_self_eq_true register
      simp [chained, guardedRead, binding_beq_self, checked, isRead]
    have made : transformLogic [.assign (.binding (.register register)) value,
        guardedRead condition register property optional] =
          [.assign (.binding (.register register)) value, optionalRead register property] := by
      have paired : transformLogic [.assign (.binding (.register register)) value,
          guardedRead condition register property optional] =
            [.assign (.binding (.register register)) value,
              (chained (.assign (.binding (.register register)) value)
                (guardedRead condition register property optional)).getD
                  (guardedRead condition register property optional)] := rfl
      rw [paired, found]
      rfl
    have ofTwo : ∀ next : Statement,
        (executeAll fuel pending [.assign (.binding (.register register)) value, next] :
            Exec host PUnit) =
          (Statement.assign (.binding (.register register)) value).execute fuel pending >>=
            fun _ => next.execute fuel pending := by
      intro next
      rw [executeAll, executeAll_singleton]
      rfl
    rw [made, ofTwo, ofTwo, store_register_bind_iff]
    constructor
    · intro same machine content ready evaluated flag decides
      exact chainable_of_execute branching guarded fuel pending decides
        (same machine content ready evaluated)
    · intro chainable machine content ready evaluated
      obtain ⟨flag, decides⟩ := decided machine content ready evaluated
      exact (chainable machine content ready evaluated flag decides).execute branching fuel pending
        decides

/-- A branch that repeats its condition, and a guarded read behind a store. -/
def guarding : List Statement :=
  [choosing (.binding (.register 0)) true (.register 1) (.register 1)
      (.value (.constant (.integer 2))),
    .assign (.binding (.register 2)) (.value (.constant (.integer 1))),
    guardedRead (.register 2) 2 (.ident "x") false]

theorem guarding_kept :
    (executeAll 0 none (transformLogic guarding) : Exec Tracing.host PUnit) =
      executeAll 0 none guarding := by
  refine (transformLogic_kept tracing_branching 0 none).1 guarding ⟨?_, ?_⟩
  · simp only [guarding, List.forall_mem_cons, List.not_mem_nil, false_implies, implies_true]
    refine ⟨fun _ => ⟨rfl, ?_⟩, trivial, trivial, trivial⟩
    intro machine value after evaluated _
    obtain rfl := congrArg Prod.snd evaluated
    obtain rfl := Outcome.ok.inj (congrArg Prod.fst evaluated)
    rfl
  · refine ⟨?_, ?_, trivial⟩
    · rintro _ _ _ _ _ first next _
      cases next
    · intro register value condition property optional first next _ machine content ready evaluated
      cases first
      obtain ⟨rfl, -⟩ := Statement.ifStmt.inj next
      obtain rfl := Outcome.ok.inj (congrArg Prod.fst evaluated)
      have found := read_write 2 (Constant.integer 1) ready
      exact ⟨true, ⟨_, congrArg (fun read => (Outcome.ok read, _)) found, rfl⟩, .inl rfl⟩

/-- A falsy number whose member is read only when it is truthy. -/
def guardingZero : List Statement :=
  [.assign (.binding (.register 0)) (.value (.constant (.integer 0))),
    guardedRead (.register 0) 0 (.ident "x") false]

/-- The register holds zero afterwards, and with the optional read the property. -/
theorem transformLogic_changes :
    ¬ (∀ host : Host, host.Branching → ∀ (fuel : Nat) (pending : Option String)
      (statements : List Statement),
      (executeAll fuel pending (transformLogic statements) : Exec host PUnit) =
        executeAll fuel pending statements) := by
  intro all
  have contents : Constant.undefined = Constant.integer 0 :=
    congrArg (fun code : Exec Tracing.host PUnit =>
      (code ⟨fun _ => none, Tracing.blank, .other ⟨0, 0⟩⟩).2.read 0)
      (all Tracing.host tracing_branching 0 none guardingZero)
  cases contents

end HermesDecomp.Ir.LogicPatterns
