import HermesDecomp.Transforms.LogicSimplify
import HermesDecomp.Transforms.DeadStores
import HermesDecomp.Transforms.TernaryReturns

/-!
# What folded branches keep

A store and a branch behind it run the condition after the store, and the second value with the
first one already stored. The folded store runs the second value before anything is stored. Both
do the same when the condition, run after the store, says what the operator asks of the value, and
when storing the second value comes to the same whether the first one was stored before or not.
-/

namespace HermesDecomp.Ir.ShortCircuit

/-- How a condition relates to a value. -/
inductive Relation where
  | same
  | negated
deriving DecidableEq, Repr

/-- One operator is the negation of the other. -/
def flipped : BinaryOp → BinaryOp → Bool
  | .strictEq, .strictNeq | .strictNeq, .strictEq | .eq, .neq | .neq, .eq => true
  | _, _ => false

/-- A condition is the same expression as a value, its negation, or the comparison with the
opposite operator. -/
def conditionRelation (condition a : Expression) : Option Relation :=
  if exprsEqual condition a then some .same
  else
    match condition, a with
    | .unary .not operand, a => if exprsEqual operand a then some .negated else none
    | .binary opC leftC rightC, .binary opA leftA rightA =>
        if flipped opA opC && exprsEqual leftC leftA && exprsEqual rightC rightA then some .negated
        else none
    | _, _ => none

/-- The expression reads the binding that a statement writes. -/
def readsTarget : Expression → AssignTarget → Bool
  | .value (.binding (.register register)), .binding (.register target) => register == target
  | .value (.binding (.variable name)), .binding (.variable target) => name == target
  | _, _ => false

/-- A comparison of the target with `null` or `undefined`. -/
def isNullOrUndefinedCheck (left right : Expression) (target : AssignTarget) : Bool :=
  readsTarget left target && isNullOrUndefined right ||
    readsTarget right target && isNullOrUndefined left

/-- The operator that a condition on the target stands for. -/
def determineShortCircuitOp (target : AssignTarget) (condition : Expression) : Option BinaryOp :=
  match target with
  | .binding (.register _) | .binding (.variable _) =>
      if readsTarget condition target then some .logicalAnd
      else
        match condition with
        | .unary .not operand => if readsTarget operand target then some .logicalOr else none
        | .binary .eq left right | .binary .strictEq left right =>
            if isNullOrUndefinedCheck left right target then some .nullishCoalesce else none
        | _ => none
  | _ => none

/-- What a statement stores into. -/
def firstTarget : Statement → Option AssignTarget
  | .assign target _ => some target
  | .letStmt name _ _ => some (.binding (.variable name))
  | _ => none

/-- The value a statement stores, if it may be evaluated again. -/
def firstValue : Statement → Option Expression
  | .assign _ value | .letStmt _ value _ => if hasSideEffects value then none else some value
  | _ => none

/-- The operator that a condition stands for behind a store. -/
def shortCircuitOp (first : Statement) (target : AssignTarget) (condition : Expression) :
    Option BinaryOp :=
  (determineShortCircuitOp target condition).or
    ((firstValue first).bind fun a =>
      match conditionRelation condition a with
      | some .same => some .logicalAnd
      | some .negated => some .logicalOr
      | none => none)

/-- The operator and the second value that a store and a branch behind it fold with. -/
def matchResult (first : Statement) : Statement → Option (AssignTarget × BinaryOp × Expression)
  | .ifStmt condition [.assign target' b] [] => do
      let target ← firstTarget first
      if target == target' then do
        let op ← shortCircuitOp first target condition
        some (target, op, b)
      else none
  | _ => none

/-- The store of a folded value. -/
def foldInto (target : AssignTarget) (op : BinaryOp) (b : Expression) : Statement → Statement
  | .assign _ a => .assign target (.binary op a b)
  | .letStmt name a kind => .letStmt name (.binary op a b) kind
  | statement => statement

/-- The read of a target. -/
def readOf : AssignTarget → Option Expression
  | .binding (.variable name) => some (.value (.binding (.variable name)))
  | .binding (.register register) => some (.value (.binding (.register register)))
  | _ => none

/-- A condition that repeats the value stored before it, as a read of the target. -/
def repeatedCondition (first : Statement) (condition : Expression) : Option Expression := do
  let target ← firstTarget first
  let a ← firstValue first
  let read ← readOf target
  match conditionRelation condition a with
  | some .same => some read
  | some .negated => some (.unary .not read)
  | none => none

/-- The statement behind a store it is not folded with. -/
def behind (first : Statement) : Statement → Statement
  | .ifStmt condition thenBody elseBody =>
      .ifStmt ((repeatedCondition first condition).getD condition) thenBody elseBody
  | statement => statement

/-- Fold a statement with those behind it, as long as they fold, and go on. -/
def foldFrom (first : Statement) : List Statement → List Statement
  | [] => [first]
  | next :: rest =>
      match matchResult first next with
      | some (target, op, b) => foldFrom (foldInto target op b first) rest
      | none => first :: foldFrom (behind first next) rest

/-- The folds of one list. -/
def foldList : List Statement → List Statement
  | [] => []
  | first :: rest => foldFrom first rest

mutual

/-- The pass over the bodies of a statement. -/
def walkStatement : Statement → Statement
  | .ifStmt condition thenBody elseBody =>
      .ifStmt condition (foldList (walkStatements thenBody)) (foldList (walkStatements elseBody))
  | .whileStmt condition body => .whileStmt condition (foldList (walkStatements body))
  | .doWhile body condition => .doWhile (foldList (walkStatements body)) condition
  | .forStmt init condition update body =>
      .forStmt (walkOption init) condition (walkOption update) (foldList (walkStatements body))
  | .switch discriminant cases default =>
      .switch discriminant (walkCases cases) (walkDefault default)
  | .block body => .block (foldList (walkStatements body))
  | .tryCatch tryBody catchParam catchBody finallyBody =>
      .tryCatch (foldList (walkStatements tryBody)) catchParam
        (foldList (walkStatements catchBody)) (foldList (walkStatements finallyBody))
  | .forIn name object body => .forIn name object (foldList (walkStatements body))
  | .forOf name iterable body => .forOf name iterable (foldList (walkStatements body))
  | statement => statement

def walkStatements : List Statement → List Statement
  | [] => []
  | first :: rest => walkStatement first :: walkStatements rest

def walkOption : Option Statement → Option Statement
  | none => none
  | some statement => some (walkStatement statement)

def walkCases : List (Expression × List Statement) → List (Expression × List Statement)
  | [] => []
  | (test, body) :: rest => (test, foldList (walkStatements body)) :: walkCases rest

def walkDefault : Option (List Statement) → Option (List Statement)
  | none => none
  | some body => some (foldList (walkStatements body))

end

/-- Fold the inner bodies and then the list itself. -/
def detectShortCircuitLogic (statements : List Statement) : List Statement :=
  foldList (walkStatements statements)

open Action

variable {host : Host}

/-- Run what a target runs before its value, and give the store into what it found. -/
def locate : AssignTarget → Exec host (host.Val → Exec host PUnit)
  | .binding place => pure (writeBinding place)
  | .member object property => do
      let holder ← object.evaluate
      pure fun content => perform (host.setMember holder (host.name property) content)
  | .index object key => do
      let holder ← object.evaluate
      let position ← key.evaluate
      pure fun content => do
        let property ← perform (host.toKey position)
        perform (host.setMember holder property content)
  | .rest target => locate target
  | target => pure fun content => do
      let _ ← target.store (pure content)
      pure ⟨⟩

/-- A store is what its target runs first, then its value, then the store into what was found. -/
theorem store_eq_locate : ∀ (target : AssignTarget) (value : Exec host host.Val),
    target.store value = (do
      let put ← locate target
      let content ← value
      put content
      pure content)
  | .binding _, _ => rfl
  | .member object property, value | .index object key, value
  | .destructuringArray elements, value | .destructuringArrayRest elements rest, value
  | .destructuringObject properties, value | .destructuringObjectRest properties rest, value => by
    simp only [AssignTarget.store, locate, bind_assoc, pure_bind]
  | .rest target, value => by rw [AssignTarget.store, locate, store_eq_locate target value]

/-- What a store runs before its value. -/
def placeOf : Statement → Exec host (host.Val → Exec host PUnit)
  | .assign target _ => locate target
  | .letStmt name _ kind => pure fun content => perform (host.declare kind name content)
  | _ => pure fun _ => pure ⟨⟩

/-- The value of a store. -/
def valueOf : Statement → Expression
  | .assign _ value | .letStmt _ value _ => value
  | _ => .value (.constant .undefined)

variable {first : Statement} {target : AssignTarget}

theorem execute_store (stores : firstTarget first = some target) (fuel : Nat)
    (label : Option String) :
    (first.execute fuel label : Exec host PUnit) = (do
      let put ← placeOf first
      let content ← (valueOf first).evaluate
      put content) := by
  cases first <;> simp only [firstTarget, reduceCtorEq] at stores
  case assign target' value =>
    simp only [Statement.execute, placeOf, valueOf, store_eq_locate, bind_assoc, pure_bind]
    refine congrArg (locate target' >>= ·) (funext fun put => ?_)
    exact congrArg ((value.evaluate : Exec host host.Val) >>= ·) (funext fun _ => bind_pure _)
  case letStmt name value kind => rfl

/-- A store into what it found, about to happen. -/
def Reached (first : Statement) (put : host.Val → Exec host PUnit) (value : host.Val)
    (ready : Machine host) : Prop :=
  ∃ machine middle, placeOf first machine = (.ok put, middle) ∧
    (valueOf first).evaluate middle = (.ok value, ready)

/-- Two continuations of a part do the same when they do where the part comes to a value. -/
theorem bind_apply_eq_iff {α β : Type} {part : Exec host α} {next next' : α → Exec host β}
    {machine : Machine host} :
    (part >>= next) machine = (part >>= next') machine ↔
      ∀ value after, part machine = (.ok value, after) → next value after = next' value after := by
  constructor
  · intro same value after ran
    rwa [bind_of_run ran, bind_of_run ran] at same
  · intro same
    rw [bind_apply, bind_apply]
    rcases ran : part machine with ⟨value | _ | _, after⟩
    · exact same value after ran
    · rfl
    · rfl

/-- What follows the places and values of two stores decides whether the stores do the same. -/
theorem located_eq_iff {next next' : (host.Val → Exec host PUnit) → host.Val → Exec host PUnit} :
    (placeOf first >>= fun put => (valueOf first).evaluate >>= fun value => next put value) =
        (placeOf first >>= fun put => (valueOf first).evaluate >>= fun value => next' put value) ↔
      ∀ put value ready, Reached first put value ready →
        next put value ready = next' put value ready := by
  constructor
  · rintro same put value ready ⟨machine, middle, found, evaluated⟩
    have applied := bind_apply_eq_iff.mp (congrFun same machine) put middle found
    exact bind_apply_eq_iff.mp applied value ready evaluated
  · intro same
    funext machine
    refine bind_apply_eq_iff.mpr fun put middle found => bind_apply_eq_iff.mpr ?_
    intro value ready evaluated
    exact same put value ready ⟨machine, middle, found, evaluated⟩

/-- A condition has an answer of this truth, and does nothing else. -/
def Decides (condition : Expression) (flag : Bool) (machine : Machine host) : Prop :=
  ∃ answer, condition.evaluate machine = (.ok answer, machine) ∧ host.truthy answer = flag

variable {condition : Expression}

theorem choiceOf_of_decides {flag : Bool} {machine : Machine host}
    (decides : Decides condition flag machine) (whenTrue whenFalse : Exec host PUnit) :
    choiceOf condition.evaluate whenTrue whenFalse machine =
      (if flag then whenTrue else whenFalse) machine := by
  obtain ⟨answer, evaluated, rfl⟩ := decides
  rw [choiceOf, bind_of_run evaluated]

/-- Whether an operator asks for its right operand. -/
def asks : BinaryOp → host.Val → Bool
  | .logicalAnd, value => host.truthy value
  | .logicalOr, value => !host.truthy value
  | .nullishCoalesce, value => host.nullish value
  | _, _ => false

/-- The operators that are folded with. -/
def isShortCircuit : BinaryOp → Bool
  | .logicalAnd | .logicalOr | .nullishCoalesce => true
  | _ => false

variable {op : BinaryOp}

theorem binaryOf_eq_asks (shortCircuit : isShortCircuit op = true) (left right : Exec host host.Val) :
    binaryOf op left right =
      left >>= fun value => if asks op value then right else pure value := by
  cases op <;> simp only [isShortCircuit, Bool.false_eq_true] at shortCircuit
  case logicalAnd => rfl
  case logicalOr =>
    refine congrArg (left >>= ·) (funext fun value => ?_)
    by_cases truth : host.truthy value = true <;> simp [asks, truth]
  case nullishCoalesce => rfl

theorem shortCircuitOp_isShortCircuit (found : shortCircuitOp first target condition = some op)
    : isShortCircuit op = true:= by
  rw [shortCircuitOp, Option.or_eq_some_iff] at found
  rcases found with found | ⟨-, found⟩
  · unfold determineShortCircuitOp at found
    split at found
    · split at found
      · cases found; rfl
      · split at found <;> try split at found
        all_goals cases found
        all_goals rfl
    · split at found
      · cases found; rfl
      · split at found <;> try split at found
        all_goals cases found
        all_goals rfl
    · cases found
  · obtain ⟨a, -, related⟩ := Option.bind_eq_some_iff.mp found
    split at related <;> cases related <;> rfl

/-- The condition behind a store, run once the value is stored, does nothing and says what the
operator asks of the value. -/
def Decided (host : Host) (first : Statement) (condition : Expression) (op : BinaryOp) : Prop :=
  ∀ (put : host.Val → Exec host PUnit) value ready after, Reached first put value ready →
    put value ready = (.ok ⟨⟩, after) → Decides condition (asks op value) after

/-- The second store. -/
def storeAgain (target : AssignTarget) (b : Expression) : Exec host PUnit := do
  let _ ← target.store b.evaluate
  pure ⟨⟩

/-- Where the operator asks for the second value, storing it behind the first one comes to storing
it alone. -/
def Replaced (host : Host) (first : Statement) (target : AssignTarget) (b : Expression)
    (op : BinaryOp) : Prop :=
  ∀ (put : host.Val → Exec host PUnit) value ready, Reached first put value ready →
    asks op value = true →
      (put value >>= fun _ => storeAgain target b) ready = (b.evaluate >>= put) ready

/-- A store and a branch that stores again. -/
def paired (first : Statement) (condition : Expression) (target : AssignTarget) (b : Expression) :
    List Statement :=
  [first, .ifStmt condition [.assign target b] []]

theorem executeAll_paired (branching : host.Branching) (stores : firstTarget first = some target)
    (fuel : Nat) (pending : Option String) (condition : Expression) (target' : AssignTarget)
    (b : Expression) :
    (executeAll fuel pending (paired first condition target' b) : Exec host PUnit) =
      (placeOf first >>= fun put => (valueOf first).evaluate >>= fun value => do
        put value
        choiceOf condition.evaluate (storeAgain target' b) (pure ⟨⟩)) := by
  rw [paired, executeAll, executeAll_singleton, execute_store stores, Statement.execute,
    inScope_assign branching, executeAll, inScope_pure branching]
  simp only [bind_assoc]
  rfl

theorem execute_foldInto (stores : firstTarget first = some target)
    (shortCircuit : isShortCircuit op = true) (fuel : Nat) (label : Option String) (b : Expression) :
    ((foldInto target op b first).execute fuel label : Exec host PUnit) =
      placeOf first >>= fun put => (valueOf first).evaluate >>= fun value =>
        if asks op value then b.evaluate >>= put else put value := by
  have folds : firstTarget (foldInto target op b first) = some target ∧
      (placeOf (foldInto target op b first) : Exec host _) = placeOf first ∧
      valueOf (foldInto target op b first) = .binary op (valueOf first) b := by
    cases first <;> simp only [firstTarget, reduceCtorEq, Option.some.injEq] at stores
    case assign => subst stores; exact ⟨rfl, rfl, rfl⟩
    case letStmt => subst stores; exact ⟨rfl, rfl, rfl⟩
  rw [execute_store folds.1, folds.2.1, folds.2.2, Expression.evaluate,
    binaryOf_eq_asks shortCircuit]
  refine congrArg (placeOf first >>= ·) (funext fun put => ?_)
  rw [bind_assoc]
  refine congrArg ((valueOf first).evaluate >>= ·) (funext fun value => ?_)
  split
  · rfl
  · rfl

/-- Where the condition is decided as the operator does, a fold keeps what the pair does exactly
when the second value replaces the first one. -/
theorem fold_iff (branching : host.Branching) (stores : firstTarget first = some target)
    (shortCircuit : isShortCircuit op = true) (decided : Decided host first condition op)
    (fuel : Nat) (pending : Option String) (target' : AssignTarget) (b : Expression) :
    ((foldInto target op b first).execute fuel pending : Exec host PUnit) =
        executeAll fuel pending (paired first condition target' b) ↔
      Replaced host first target' b op := by
  have asked : ∀ (put : host.Val → Exec host PUnit) value ready, Reached first put value ready →
      asks op value = true →
        (put value >>= fun _ => choiceOf condition.evaluate (storeAgain target' b) (pure ⟨⟩)) ready =
          (put value >>= fun _ => storeAgain target' b) ready := by
    intro put value ready reached asked
    rw [bind_apply_eq_iff]
    intro _ after stored
    have decides := decided put value ready after reached stored
    rw [asked] at decides
    exact choiceOf_of_decides decides ..
  rw [execute_foldInto stores shortCircuit, executeAll_paired branching stores, located_eq_iff]
  constructor
  · intro same put value ready reached asking
    have applied := same put value ready reached
    rw [if_pos asking, asked put value ready reached asking] at applied
    exact applied.symm
  · intro replaced put value ready reached
    split
    case isTrue asking =>
      rw [asked put value ready reached asking, replaced put value ready reached asking]
    case isFalse quiet =>
      rw [bind_apply]
      rcases stored : put value ready with ⟨_ | _ | _, after⟩
      · have decides := decided put value ready after reached stored
        rw [Bool.eq_false_iff.mpr quiet] at decides
        exact (choiceOf_of_decides decides ..).symm
      · rfl
      · rfl

/-- A pair that folds with an operator. -/
def PairSound (host : Host) (first : Statement) (op : BinaryOp) : Statement → Prop
  | .ifStmt condition [.assign target b] [] =>
      Decided host first condition op ∧ Replaced host first target b op
  | _ => True

/-- A condition that becomes a read of the target: once the value is stored, both do nothing and
are true together. -/
def RepeatSound (host : Host) (first : Statement) : Statement → Prop
  | .ifStmt condition _ _ => ∀ read, repeatedCondition first condition = some read →
      ∀ (put : host.Val → Exec host PUnit) value ready after, Reached first put value ready →
        put value ready = (.ok ⟨⟩, after) →
          ∃ flag, Decides condition flag after ∧ Decides read flag after
  | _ => True

/-- Every fold and every rewritten condition of a list. -/
def FoldsSound (host : Host) (first : Statement) : List Statement → Prop
  | [] => True
  | next :: rest =>
      match matchResult first next with
      | some (target, op, b) =>
          PairSound host first op next ∧ FoldsSound host (foldInto target op b first) rest
      | none => RepeatSound host first next ∧ FoldsSound host (behind first next) rest

theorem matchResult_eq_some {first next : Statement} {b : Expression}
    (found : matchResult first next = some (target, op, b)) :
    ∃ condition target', next = .ifStmt condition [.assign target' b] [] ∧
      firstTarget first = some target ∧ shortCircuitOp first target condition = some op := by
  unfold matchResult at found
  split at found
  case h_1 condition target' b' =>
    simp only [Option.bind_eq_bind, Option.bind_eq_some_iff, Option.ite_none_right_eq_some,
      Option.some.injEq, Prod.mk.injEq] at found
    obtain ⟨target, stores, -, op, named, rfl, rfl, rfl⟩ := found
    exact ⟨condition, target', rfl, stores, named⟩
  case h_2 => cases found

theorem labelAfter_store (stores : firstTarget first = some target) (pending : Option String) :
    first.labelAfter pending = pending := by
  cases first <;> simp only [firstTarget, reduceCtorEq] at stores <;> rfl

theorem labelAfter_foldInto (stores : firstTarget first = some target) (op : BinaryOp)
    (b : Expression) (pending : Option String) :
    (foldInto target op b first).labelAfter pending = pending := by
  cases first <;> simp only [firstTarget, reduceCtorEq] at stores <;> rfl

theorem labelAfter_behind (first next : Statement) (pending : Option String) :
    (behind first next).labelAfter pending = next.labelAfter pending := by
  cases next <;> rfl

/-- What follows a store runs in a state the store left. -/
theorem store_bind_congr (stores : firstTarget first = some target) (fuel : Nat)
    (label : Option String) {next next' : Exec host PUnit}
    (same : ∀ (put : host.Val → Exec host PUnit) value ready after, Reached first put value ready →
      put value ready = (.ok ⟨⟩, after) → next after = next' after) :
    (first.execute fuel label >>= fun _ => next) = first.execute fuel label >>= fun _ => next' := by
  rw [execute_store stores]
  simp only [bind_assoc]
  rw [located_eq_iff]
  intro put value ready reached
  rw [bind_apply_eq_iff]
  intro _ after stored
  exact same put value ready after reached stored

/-- A statement with a rewritten condition does the same behind the store. -/
theorem execute_behind {first next : Statement} (sound : RepeatSound host first next) (fuel : Nat)
    (label label' : Option String) {rest : Exec host PUnit} :
    (first.execute fuel label >>= fun _ => (behind first next).execute fuel label' >>= fun _ => rest) =
      first.execute fuel label >>= fun _ => next.execute fuel label' >>= fun _ => rest := by
  cases next
  case ifStmt condition thenBody elseBody =>
    rw [behind]
    cases rewritten : repeatedCondition first condition with
    | none => rfl
    | some read =>
      obtain ⟨target, stores⟩ : ∃ target, firstTarget first = some target := by
        unfold repeatedCondition at rewritten
        obtain ⟨target, stores, -⟩ := Option.bind_eq_some_iff.mp rewritten
        exact ⟨target, stores⟩
      refine store_bind_congr stores fuel label ?_
      intro put value ready after reached stored
      obtain ⟨flag, onCondition, onRead⟩ := sound read rewritten put value ready after reached stored
      rw [bind_apply, bind_apply, Option.getD_some, Statement.execute, Statement.execute,
        choiceOf_of_decides onCondition, choiceOf_of_decides onRead]
  all_goals rfl

/-- The folds of a list keep what it does. -/
theorem executeAll_foldFrom (branching : host.Branching) (fuel : Nat) (rest : List Statement) :
    ∀ {first : Statement} {pending : Option String}, FoldsSound host first rest →
      (executeAll fuel pending (foldFrom first rest) : Exec host PUnit) =
        executeAll fuel pending (first :: rest) := by
  induction rest with
  | nil => intro first pending _; rfl
  | cons next rest hypothesis =>
    intro first pending sound
    rw [foldFrom]
    rw [FoldsSound] at sound
    cases found : matchResult first next with
    | some folded =>
      obtain ⟨target, op, b⟩ := folded
      obtain ⟨condition, target', rfl, stores, named⟩ := matchResult_eq_some found
      rw [found] at sound
      obtain ⟨⟨decided, replaced⟩, onRest⟩ := sound
      have same := (fold_iff branching stores (shortCircuitOp_isShortCircuit named) decided fuel
        pending target' b).mpr replaced
      have label : (Statement.ifStmt condition [.assign target' b] []).labelAfter
          (first.labelAfter pending) = pending := labelAfter_store stores pending
      dsimp only
      rw [hypothesis onRest, executeAll, same, labelAfter_foldInto stores, paired]
      simp [executeAll, bind_assoc, label]
    | none =>
      rw [found] at sound
      obtain ⟨onPair, onRest⟩ := sound
      dsimp only
      rw [executeAll, hypothesis onRest, executeAll, labelAfter_behind, execute_behind onPair]
      rfl

/-- Every fold and every rewritten condition of a list that the pass folds. -/
def ListSound (host : Host) : List Statement → Prop
  | [] => True
  | first :: rest => FoldsSound host first rest

theorem executeAll_foldList (branching : host.Branching) (fuel : Nat) (pending : Option String) :
    ∀ {statements : List Statement}, ListSound host statements →
      (executeAll fuel pending (foldList statements) : Exec host PUnit) =
        executeAll fuel pending statements
  | [], _ => rfl
  | _ :: rest, sound => executeAll_foldFrom branching fuel rest sound

mutual

/-- Every fold and every rewritten condition inside a statement. -/
def Sound (host : Host) : Statement → Prop
  | .ifStmt _ thenBody elseBody =>
      (SoundAll host thenBody ∧ ListSound host (walkStatements thenBody)) ∧
        SoundAll host elseBody ∧ ListSound host (walkStatements elseBody)
  | .whileStmt _ body => SoundAll host body ∧ ListSound host (walkStatements body)
  | .doWhile body _ => SoundAll host body ∧ ListSound host (walkStatements body)
  | .forStmt init _ update body =>
      SoundOption host init ∧ SoundOption host update ∧ SoundAll host body ∧
        ListSound host (walkStatements body)
  | .switch _ cases default => SoundCases host cases ∧ SoundDefault host default
  | .block body => SoundAll host body ∧ ListSound host (walkStatements body)
  | .tryCatch tryBody _ catchBody finallyBody =>
      (SoundAll host tryBody ∧ ListSound host (walkStatements tryBody)) ∧
        (SoundAll host catchBody ∧ ListSound host (walkStatements catchBody)) ∧
          SoundAll host finallyBody ∧ ListSound host (walkStatements finallyBody)
  | .forIn _ _ body => SoundAll host body ∧ ListSound host (walkStatements body)
  | .forOf _ _ body => SoundAll host body ∧ ListSound host (walkStatements body)
  | _ => True

def SoundAll (host : Host) : List Statement → Prop
  | [] => True
  | first :: rest => Sound host first ∧ SoundAll host rest

def SoundOption (host : Host) : Option Statement → Prop
  | none => True
  | some statement => Sound host statement

def SoundCases (host : Host) : List (Expression × List Statement) → Prop
  | [] => True
  | (_, body) :: rest =>
      (SoundAll host body ∧ ListSound host (walkStatements body)) ∧ SoundCases host rest

def SoundDefault (host : Host) : Option (List Statement) → Prop
  | none => True
  | some body => SoundAll host body ∧ ListSound host (walkStatements body)

end

/-- Every fold and every rewritten condition that the pass makes in a list. -/
def PassSound (host : Host) (statements : List Statement) : Prop :=
  SoundAll host statements ∧ ListSound host (walkStatements statements)

theorem labelAfter_walkStatement (pending : Option String) (statement : Statement) :
    (walkStatement statement).labelAfter pending = statement.labelAfter pending := by
  cases statement <;> rfl

theorem isEmpty_foldFrom (rest : List Statement) :
    ∀ first : Statement, (foldFrom first rest).isEmpty = false := by
  induction rest with
  | nil => intro first; rfl
  | cons next rest hypothesis =>
    intro first
    rw [foldFrom]
    split
    · exact hypothesis _
    · rfl

theorem isEmpty_foldList_walk (statements : List Statement) :
    (foldList (walkStatements statements)).isEmpty = statements.isEmpty := by
  cases statements with
  | nil => rfl
  | cons first rest => exact isEmpty_foldFrom ..

/-- A list whose statements keep what they do, and whose folds are sound. -/
theorem executeAll_pass (branching : host.Branching) {fuel : Nat} {pending : Option String}
    {statements : List Statement}
    (walked : (executeAll fuel pending (walkStatements statements) : Exec host PUnit) =
      executeAll fuel pending statements) (sound : ListSound host (walkStatements statements)) :
    (executeAll fuel pending (foldList (walkStatements statements)) : Exec host PUnit) =
      executeAll fuel pending statements :=
  (executeAll_foldList branching fuel pending sound).trans walked

section

variable (branching : host.Branching) (fuel : Nat)

include branching

set_option linter.unusedSectionVars false in
mutual

/-- The pass keeps what a statement does. -/
theorem execute_walkStatement : ∀ {statement : Statement} (label : Option String),
    Sound host statement →
      ((walkStatement statement).execute fuel label : Exec host PUnit) =
        statement.execute fuel label
  | .ifStmt condition thenBody elseBody, label, ⟨⟨thenAll, onThen⟩, elseAll, onElse⟩ => by
    simp [walkStatement, Statement.execute,
      executeAll_pass branching (executeAll_walkStatements none thenAll) onThen,
      executeAll_pass branching (executeAll_walkStatements none elseAll) onElse]
  | .whileStmt condition body, label, ⟨bodyAll, onBody⟩
  | .doWhile body condition, label, ⟨bodyAll, onBody⟩ | .block body, label, ⟨bodyAll, onBody⟩
  | .forIn name object body, label, ⟨bodyAll, onBody⟩
  | .forOf name iterable body, label, ⟨bodyAll, onBody⟩ => by
    simp [walkStatement, Statement.execute,
      executeAll_pass branching (executeAll_walkStatements none bodyAll) onBody]
  | .forStmt init condition update body, label, ⟨onInit, onUpdate, bodyAll, onBody⟩ => by
    simp [walkStatement, Statement.execute, executeOption_walkOption onInit,
      executeOption_walkOption onUpdate,
      executeAll_pass branching (executeAll_walkStatements none bodyAll) onBody]
  | .switch discriminant cases default, label, ⟨onCases, onDefault⟩ => by
    simp [walkStatement, Statement.execute, executeDefault_walkDefault onDefault,
      executeCases_walkCases _ _ onCases]
  | .tryCatch tryBody catchParam catchBody finallyBody, label,
      ⟨⟨tryAll, onTry⟩, ⟨catchAll, onCatch⟩, finallyAll, onFinally⟩ => by
    simp [walkStatement, Statement.execute, isEmpty_foldList_walk,
      executeAll_pass branching (executeAll_walkStatements none tryAll) onTry,
      executeAll_pass branching (executeAll_walkStatements none catchAll) onCatch,
      executeAll_pass branching (executeAll_walkStatements none finallyAll) onFinally]
  | .expr _, _, _ | .letStmt .., _, _ | .assign .., _, _ | .delete .., _, _ | .returnStmt _, _, _
  | .throwStmt _, _, _ | .debugger, _, _ | .comment _, _, _ | .breakStmt _, _, _
  | .continueStmt _, _, _ | .goto _, _, _ | .condGoto .., _, _ | .classStmt .., _, _ => rfl

theorem executeAll_walkStatements : ∀ {statements : List Statement} (pending : Option String),
    SoundAll host statements →
      (executeAll fuel pending (walkStatements statements) : Exec host PUnit) =
        executeAll fuel pending statements
  | [], _, _ => rfl
  | first :: rest, pending, ⟨onFirst, onRest⟩ => by
    rw [walkStatements, executeAll, execute_walkStatement pending onFirst,
      labelAfter_walkStatement, executeAll_walkStatements _ onRest, executeAll]

theorem executeOption_walkOption : ∀ {statement : Option Statement}, SoundOption host statement →
    (executeOption fuel (walkOption statement) : Exec host PUnit) = executeOption fuel statement
  | none, _ => rfl
  | some _, sound => execute_walkStatement none sound

theorem executeCases_walkCases (value : host.Val) (otherwise : Exec host PUnit) :
    ∀ {cases : List (Expression × List Statement)}, SoundCases host cases →
      executeCases fuel value otherwise (walkCases cases) = executeCases fuel value otherwise cases
  | [], _ => rfl
  | (test, body) :: rest, ⟨⟨bodyAll, onBody⟩, onRest⟩ => by
    simp [walkCases, executeCases,
      executeAll_pass branching (executeAll_walkStatements none bodyAll) onBody,
      executeCases_walkCases value otherwise onRest]

theorem executeDefault_walkDefault : ∀ {default : Option (List Statement)},
    SoundDefault host default →
      (executeDefault fuel (walkDefault default) : Exec host PUnit) = executeDefault fuel default
  | none, _ => rfl
  | some _, ⟨bodyAll, onBody⟩ =>
    executeAll_pass branching (executeAll_walkStatements none bodyAll) onBody

end

end

theorem read_write (register : Nat) (value : host.Val) (machine : Machine host) :
    (machine.write register value).read register = value := by
  rw [Machine.read, Machine.write_self]

theorem reached_register {register : Nat} {a : Expression} {put : host.Val → Exec host PUnit}
    {value : host.Val} {ready : Machine host}
    (reached : Reached (.assign (.binding (.register register)) a) put value ready) :
    put = writeRegister register := by
  obtain ⟨machine, middle, found, -⟩ := reached
  exact (Outcome.ok.inj (congrArg Prod.fst found)).symm

/-- The register a value was stored in decides for the value. -/
theorem decided_register (branching : host.Branching) (register : Nat) (a : Expression) :
    Decided host (.assign (.binding (.register register)) a) (.register register) .logicalAnd ∧
      Decided host (.assign (.binding (.register register)) a)
        (.unary .not (.register register)) .logicalOr := by
  constructor
  · intro put value ready after reached stored
    obtain rfl := reached_register reached
    obtain rfl := congrArg Prod.snd stored
    exact ⟨value, congrArg (fun read => (Outcome.ok read, _)) (read_write register value ready), rfl⟩
  · intro put value ready after reached stored
    obtain rfl := reached_register reached
    obtain rfl := congrArg Prod.snd stored
    refine ⟨host.constant (.bool (!host.truthy value)), ?_, branching.truthy_bool _⟩
    change (perform (host.unary .not ((ready.write register value).read register)) :
      Exec host host.Val) (ready.write register value) = _
    rw [read_write, branching.negation]
    rfl

theorem detectShortCircuitLogic_paired {target target' : AssignTarget} {condition b : Expression}
    (folds : matchResult first (.ifStmt condition [.assign target' b] []) = some (target, op, b)) :
    detectShortCircuitLogic (paired first condition target' b) = [foldInto target op b first] := by
  obtain ⟨_, _, _, stores, _⟩ := matchResult_eq_some folds
  have walked : walkStatement first = first := by
    cases first <;> simp only [firstTarget, reduceCtorEq] at stores <;> rfl
  simp [detectShortCircuitLogic, paired, walkStatements, walkStatement, foldList, walked, foldFrom,
    folds]

/-- The pass keeps what every list of statements does if each condition that is folded or rewritten,
run behind its store, does nothing and says what the operator asks of the stored value, and if each
second value may be stored without the first one. The latter is also needed where a pair folds, and
the truth of a register, or of its negation, always says what the operator asks. -/
theorem shortCircuit_kept (branching : host.Branching) (fuel : Nat) (pending : Option String) :
    (∀ statements, PassSound host statements →
      (executeAll fuel pending (detectShortCircuitLogic statements) : Exec host PUnit) =
        executeAll fuel pending statements) ∧
    (∀ first condition target target' b op,
      matchResult first (.ifStmt condition [.assign target' b] []) = some (target, op, b) →
        Decided host first condition op →
          ((executeAll fuel pending (detectShortCircuitLogic (paired first condition target' b)) :
              Exec host PUnit) = executeAll fuel pending (paired first condition target' b) ↔
            Replaced host first target' b op)) ∧
    ∀ register a,
      Decided host (.assign (.binding (.register register)) a) (.register register) .logicalAnd ∧
        Decided host (.assign (.binding (.register register)) a)
          (.unary .not (.register register)) .logicalOr := by
  refine ⟨?_, ?_, decided_register branching⟩
  · rintro statements ⟨sound, folds⟩
    exact executeAll_pass branching (executeAll_walkStatements branching fuel pending sound) folds
  · intro first condition target target' b op folds decided
    obtain ⟨_, _, same, stores, named⟩ := matchResult_eq_some folds
    simp only [Statement.ifStmt.injEq, List.cons.injEq, Statement.assign.injEq, and_true] at same
    obtain ⟨rfl, rfl⟩ := same
    rw [detectShortCircuitLogic_paired folds, executeAll_singleton]
    exact fold_iff branching stores (shortCircuitOp_isShortCircuit named) decided fuel pending target' b

/-- A register that is given a second value when the first one is falsy. -/
def defaulting : List Statement :=
  paired (.assign (.binding (.register 0)) (.register 1)) (.unary .not (.register 0))
    (.binding (.register 0)) (.value (.constant (.integer 1)))

theorem defaulting_kept :
    (executeAll 0 none (detectShortCircuitLogic defaulting) : Exec Tracing.host PUnit) =
      executeAll 0 none defaulting := by
  refine (shortCircuit_kept tracing_branching 0 none).1 defaulting
    ⟨⟨trivial, ⟨⟨⟨trivial, trivial⟩, trivial⟩, trivial, trivial⟩, trivial⟩, ?_⟩
  refine ⟨⟨(decided_register tracing_branching 0 _).2, ?_⟩, trivial⟩
  intro put value ready reached _
  obtain rfl := reached_register reached
  exact congrArg (fun registers => (Outcome.ok PUnit.unit, { ready with registers }))
    (Function.update_idem ..)

/-- A register that holds `undefined` and is compared with `null`. -/
def strictlyNull : List Statement :=
  paired (.assign (.binding (.register 0)) (.value (.constant .undefined)))
    (.binary .strictEq (.register 0) (.value (.constant .null)))
    (.binding (.register 0)) (.value (.constant (.integer 1)))

/-- `undefined` is not `null`, and stays; `??` replaces it. -/
theorem shortCircuit_changes :
    ¬ (∀ host : Host, host.Branching → ∀ (fuel : Nat) (pending : Option String)
      (statements : List Statement),
      (executeAll fuel pending (detectShortCircuitLogic statements) : Exec host PUnit) =
        executeAll fuel pending statements) := by
  intro all
  have contents : Constant.integer 1 = Constant.undefined :=
    congrArg (fun code : Exec Tracing.host PUnit =>
      (code ⟨fun _ => none, Tracing.blank, .other ⟨0, 0⟩⟩).2.read 0)
      (all Tracing.host tracing_branching 0 none strictlyNull)
  cases contents

end HermesDecomp.Ir.ShortCircuit
