import HermesDecomp.Ir.Throws
import HermesDecomp.Transforms.ConditionalsMeaning
import HermesDecomp.Transforms.DeadStores

/-!
# What dead stores leave

A function that is left by a thrown value takes its registers with it, so what they hold then
makes a difference only to a handler in the function itself. Code in the body of a `try` has to
be kept as it is, and other code up to the registers at a throw.
-/

namespace HermesDecomp.Ir

open Action

variable {host : Host} {α β : Type}

/-- A machine without the registers of the running function. -/
def Machine.forget (machine : Machine host) : Machine host :=
  { machine with registers := fun _ => none }

/-- What a caller sees of some code: a throw takes the registers with it. -/
def forgets (code : Exec host α) : Exec host α := fun machine =>
  match code machine with
  | (.err (.throws value), final) => (.err (.throws value), final.forget)
  | (.panic, final) => (.panic, final.forget)
  | ended => ended

/-- Two pieces of code are the same, up to the registers at a throw unless the throw is caught
in the function. -/
def Alike (caught : Bool) (code code' : Exec host α) : Prop :=
  if caught = true then code = code' else forgets code = forgets code'

variable {code code' : Exec host α}

theorem alike_true : Alike true code code' ↔ code = code':= by simp [Alike]

theorem alike_false : Alike false code code' ↔ forgets code = forgets code' := by simp [Alike]

theorem Alike.refl (caught : Bool) (code : Exec host α) : Alike caught code code := by
  cases caught <;> simp [Alike]

variable {caught : Bool}

theorem Alike.of_eq (same : code = code') :
    Alike caught code code' := same ▸ Alike.refl caught code

theorem Alike.trans {code code' code'' : Exec host α} (first : Alike caught code code')
    (second : Alike caught code' code'') : Alike caught code code'' := by
  cases caught
  · exact alike_false.mpr ((alike_false.mp first).trans (alike_false.mp second))
  · exact alike_true.mpr ((alike_true.mp first).trans (alike_true.mp second))

theorem forgets_bind (part : Exec host α) (next : α → Exec host β) :
    forgets (part >>= next) = forgets part >>= fun value => forgets (next value) := by
  funext machine
  rw [forgets, bind_apply, bind_apply, forgets]
  rcases part machine with ⟨value | exit | _, middle⟩
  · rfl
  · cases exit <;> rfl
  · rfl

theorem alike_bind {part part' : Exec host α} {next next' : α → Exec host β}
    (first : Alike caught part part') (rest : ∀ value, Alike caught (next value) (next' value)) :
    Alike caught (part >>= next) (part' >>= next') := by
  cases caught with
  | false =>
    rw [alike_false] at first
    rw [alike_false, forgets_bind, forgets_bind, first]
    exact congrArg (_ >>= ·) (funext fun value => alike_false.mp (rest value))
  | true =>
    rw [alike_true] at first
    rw [alike_true, first]
    exact congrArg (_ >>= ·) (funext fun value => alike_true.mp (rest value))

theorem alike_ite {condition : Prop} [Decidable condition] {yes yes' no no' : Exec host α}
    (whenTrue : Alike caught yes yes') (whenFalse : Alike caught no no') :
    Alike caught (if condition then yes else no) (if condition then yes' else no') := by
  split
  · exact whenTrue
  · exact whenFalse

/-- A combinator that does not look at the registers of a throw of its part. -/
def Absorbs (combinator : Exec host α → Exec host β) : Prop :=
  ∀ part, forgets (combinator (forgets part)) = forgets (combinator part)

theorem Absorbs.alike {combinator : Exec host α → Exec host β} (absorbs : Absorbs combinator)
    {part part' : Exec host α} (alike : Alike caught part part') :
    Alike caught (combinator part) (combinator part') := by
  cases caught with
  | false =>
    rw [alike_false] at alike ⊢
    rw [← absorbs part, alike, absorbs part']
  | true => exact alike_true.mpr (congrArg combinator (alike_true.mp alike))

theorem absorbs_inScope : Absorbs (@inScope host α) := by
  intro part
  funext machine
  rw [forgets, forgets, inScope, inScope, forgets]
  rcases part { machine with world := host.openScope machine.world } with ⟨_ | exit | _, middle⟩
  · rfl
  · cases exit <;> rfl
  · rfl

/-- A handler that does not look at the registers of a throw. -/
theorem absorbs_onExit {handler : Exit host → Exec host α}
    (blind : ∀ value machine, forgets (handler (.throws value)) (Machine.forget machine) =
      forgets (handler (.throws value)) machine) :
    Absorbs fun part => onExit part handler := by
  intro part
  funext machine
  simp only [forgets, onExit]
  rcases part machine with ⟨_ | exit | _, middle⟩
  · rfl
  · cases exit with
    | throws value => exact blind value middle
    | returns | breaks | continues | jumps => rfl
  · rfl

theorem absorbs_catchContinue (label : Option String) : Absorbs (@catchContinue host label) :=
  absorbs_onExit fun _ _ => rfl

theorem absorbs_catchBreak (label : Option String) : Absorbs (@catchBreak host label) :=
  absorbs_onExit fun _ _ => rfl

theorem absorbs_closing (iterator : host.Val) : Absorbs (closing iterator) := by
  apply absorbs_onExit
  intro value machine
  have sameWorld : (Machine.forget machine).world = machine.world := rfl
  rcases closed : host.close iterator machine.world with ⟨_ | _ | _, world⟩ <;>
    simp only [forgets, bind_apply, perform, sameWorld, closed] <;> rfl

theorem Absorbs.bind {combinator : Exec host α → Exec host β} (absorbs : Absorbs combinator)
    {γ : Type} (next : β → Exec host γ) : Absorbs fun part => combinator part >>= next := by
  intro part
  dsimp only
  rw [forgets_bind, absorbs part, forgets_bind]

/-- A final part that does nothing in its scope. -/
theorem absorbs_finallyDo :
    Absorbs fun body : Exec host PUnit => finallyDo body (inScope (pure ⟨⟩)) := by
  apply Absorbs.bind
  apply absorbs_onExit
  intro value machine
  rfl

theorem alike_onExit (body : Exec host α) {handler handler' : Exit host → Exec host α}
    (alike : ∀ exit, Alike caught (handler exit) (handler' exit)) :
    Alike caught (onExit body handler) (onExit body handler') := by
  cases caught with
  | false =>
    rw [alike_false]
    funext machine
    simp only [forgets, onExit]
    rcases body machine with ⟨_ | exit | _, middle⟩
    · rfl
    · exact congrFun (alike_false.mp (alike exit)) middle
    · rfl
  | true =>
    rw [alike_true]
    exact congrArg (onExit body) (funext fun exit => alike_true.mp (alike exit))

theorem alike_choiceOf (condition : Exec host host.Val)
    {whenTrue whenTrue' whenFalse whenFalse' : Exec host α}
    (onTrue : Alike caught whenTrue whenTrue') (onFalse : Alike caught whenFalse whenFalse') :
    Alike caught (choiceOf condition whenTrue whenFalse)
      (choiceOf condition whenTrue' whenFalse') :=
  alike_bind (Alike.refl caught condition) fun _ => alike_ite onTrue onFalse

theorem alike_iterate {iteration iteration' : Exec host Bool}
    (alike : Alike caught iteration iteration') (fuel : Nat) :
    Alike caught (iterate iteration fuel) (iterate iteration' fuel) := by
  induction fuel with
  | zero => exact Alike.refl caught _
  | succ fuel ih => exact alike_bind alike fun _ => alike_ite ih (Alike.refl caught _)

variable {body body' : Exec host PUnit}

theorem alike_testFirst (label : Option String) (condition : Exec host host.Val)
    (update : Exec host PUnit) (alike : Alike caught body body') :
    Alike caught (testFirst label condition body update)
      (testFirst label condition body' update) := by
  apply alike_bind (Alike.refl caught condition)
  intro value
  apply alike_ite _ (Alike.refl caught _)
  apply alike_bind _ fun _ => Alike.refl caught _
  exact (absorbs_catchContinue label).alike (absorbs_inScope.alike alike)

theorem alike_testLast (label : Option String) (condition : Exec host host.Val)
    (alike : Alike caught body body') :
    Alike caught (testLast label body condition) (testLast label body' condition) :=
  alike_bind ((absorbs_catchContinue label).alike (absorbs_inScope.alike alike)) fun _ =>
    Alike.refl caught _

theorem alike_forEach (label : Option String) (iterator : host.Val) (name : String)
    (alike : Alike caught body body') :
    Alike caught (forEach label iterator name body) (forEach label iterator name body') := by
  apply alike_bind (Alike.refl caught _)
  intro element
  cases element with
  | none => exact Alike.refl caught _
  | some value =>
    apply alike_bind _ fun _ => Alike.refl caught _
    apply (absorbs_catchContinue label).alike
    apply absorbs_inScope.alike
    exact alike_bind (Alike.refl caught _) fun _ => alike

theorem alike_handling (body : Exec host PUnit) {handler handler' : host.Val → Exec host PUnit}
    (alike : ∀ value, Alike caught (handler value) (handler' value)) :
    Alike caught (handling body handler) (handling body handler') := by
  apply alike_onExit
  intro exit
  cases exit with
  | throws value => exact alike value
  | returns | breaks | continues | jumps => exact Alike.refl caught _

theorem alike_finallyDo (body : Exec host PUnit) {final final' : Exec host PUnit}
    (alike : Alike caught final final') :
    Alike caught (finallyDo body final) (finallyDo body final') := by
  apply alike_bind _ fun _ => alike
  apply alike_onExit
  intro exit
  exact alike_bind alike fun _ => Alike.refl caught _

section EachStore

variable (holds : Bool → List Statement → Statement → Prop)

mutual

/-- A property of each statement of a list and of its bodies, beside what follows the statement
and whether a throw of it is caught in the function. The body of a `try` is left by a throw to
a handler of the function, and a handler to what is run finally, if anything. -/
def EachStore (caught : Bool) : List Statement → Prop
  | [] => True
  | first :: rest => holds caught rest first ∧ EachStoreInside caught first ∧ EachStore caught rest

def EachStoreInside (caught : Bool) : Statement → Prop
  | .ifStmt _ thenBody elseBody => EachStore caught thenBody ∧ EachStore caught elseBody
  | .whileStmt _ body => EachStore caught body
  | .doWhile body _ => EachStore caught body
  | .forStmt _ _ _ body => EachStore caught body
  | .forIn _ _ body => EachStore caught body
  | .forOf _ _ body => EachStore caught body
  | .tryCatch tryBody _ catchBody finallyBody =>
      EachStore true tryBody ∧ EachStore (caught || !finallyBody.isEmpty) catchBody ∧
        EachStore caught finallyBody
  | .switch _ cases default => EachStoreInCases caught cases ∧ EachStoreInDefault caught default
  | .block body => EachStore caught body
  | _ => True

def EachStoreInCases (caught : Bool) : List (Expression × List Statement) → Prop
  | [] => True
  | (_, body) :: rest => EachStore caught body ∧ EachStoreInCases caught rest

def EachStoreInDefault (caught : Bool) : Option (List Statement) → Prop
  | none => True
  | some body => EachStore caught body

end

variable {holds} {implied : Bool → List Statement → Statement → Prop}

section

variable
  (implies : ∀ caught rest statement, holds caught rest statement → implied caught rest statement)

include implies

set_option linter.unusedSectionVars false in
mutual

theorem EachStore.imp : ∀ (caught : Bool) (statements : List Statement),
      EachStore holds caught statements → EachStore implied caught statements
  | _, [], _ => trivial
  | caught, first :: rest, ⟨onStore, onFirst, onRest⟩ =>
    ⟨implies caught rest first onStore, EachStoreInside.imp caught first onFirst,
      EachStore.imp caught rest onRest⟩

theorem EachStoreInside.imp : ∀ (caught : Bool) (statement : Statement),
      EachStoreInside holds caught statement → EachStoreInside implied caught statement
  | caught, .ifStmt _ thenBody elseBody, ⟨onThen, onElse⟩ =>
    ⟨EachStore.imp caught thenBody onThen, EachStore.imp caught elseBody onElse⟩
  | caught, .whileStmt _ body, onBody | caught, .doWhile body _, onBody
  | caught, .forStmt _ _ _ body, onBody | caught, .forIn _ _ body, onBody
  | caught, .forOf _ _ body, onBody | caught, .block body, onBody => EachStore.imp caught body onBody
  | caught, .tryCatch tryBody _ catchBody finallyBody, ⟨onTry, onCatch, onFinally⟩ =>
    ⟨EachStore.imp true tryBody onTry, EachStore.imp _ catchBody onCatch,
      EachStore.imp caught finallyBody onFinally⟩
  | caught, .switch _ cases default, ⟨onCases, onDefault⟩ =>
    ⟨EachStoreInCases.imp caught cases onCases, EachStoreInDefault.imp caught default onDefault⟩
  | _, .expr _, _ | _, .letStmt .., _ | _, .assign .., _ | _, .delete .., _
  | _, .returnStmt _, _ | _, .throwStmt _, _ | _, .debugger, _ | _, .comment _, _
  | _, .breakStmt _, _ | _, .continueStmt _, _ | _, .goto _, _ | _, .condGoto .., _
  | _, .classStmt .., _ => trivial

theorem EachStoreInCases.imp (caught : Bool) :
    ∀ cases, EachStoreInCases holds caught cases → EachStoreInCases implied caught cases
  | [], _ => trivial
  | (_, body) :: rest, ⟨onBody, onRest⟩ =>
    ⟨EachStore.imp caught body onBody, EachStoreInCases.imp caught rest onRest⟩

theorem EachStoreInDefault.imp (caught : Bool) :
    ∀ default, EachStoreInDefault holds caught default → EachStoreInDefault implied caught default
  | none, _ => trivial
  | some body, onBody => EachStore.imp caught body onBody

end

end

end EachStore

/-- A store that the pass removes is dead: what its place holds makes no difference to what
follows, and a dropped value is evaluated without a throw or an effect. -/
def DeadStore (host : Host) (caught : Bool) (rest : List Statement) : Statement → Prop
  | .assign (.binding place) value => ∀ left,
      removedStore rest (.assign (.binding place) value) = some left →
      (∀ (fuel : Nat) (pending : Option String) (content : host.Val),
        Alike caught (executeAll fuel pending rest)
          (writeBinding place content >>= fun _ => executeAll fuel pending rest)) ∧
      (left = [] → ∀ machine : Machine host, ∃ content,
        value.evaluate machine = (.ok content, machine))
  | _ => True

/-- Variables that are declared where they are used and that are nothing but places: reading or
writing one neither throws nor runs code. -/
structure Variables (host : Host) where
  declared : String → Prop
  peek : String → host.World → host.Val
  put : String → host.Val → host.World → host.World
  read : ∀ {name : Var}, declared name.name → ∀ world,
    host.readVariable name world = (.ok (peek name.name world), world)
  write : ∀ {name : Var}, declared name.name → ∀ value world,
    host.setVariable name value world = (.ok ⟨⟩, put name.name value world)
  put_put : ∀ {name}, declared name → ∀ value other world,
    put name value (put name other world) = put name value world
  put_comm : ∀ {name name'}, declared name → declared name' → name ≠ name' →
    ∀ value value' world,
      put name value (put name' value' world) = put name' value' (put name value world)
  peek_put : ∀ {name name'}, declared name → declared name' → name ≠ name' →
    ∀ value world, peek name (put name' value world) = peek name world

namespace Variables

variable (vars : Variables host)

/-- A place is a register or a declared variable. -/
def Holds : Key → Prop
  | .reg _ => True
  | .var name => vars.declared name

/-- A machine with a value stored at a place. -/
def stored (key : Key) (value : host.Val) (machine : Machine host) : Machine host :=
  match key with
  | .reg number => machine.write number value
  | .var name => { machine with world := vars.put name value machine.world }

/-- A value that is read without effect: a register, a declared variable or a fixed value. -/
def QuietValue : Expression → Prop
  | .value (.binding (.variable name)) => vars.declared name.name
  | .value (.binding (.closureVar _ _)) => False
  | .value _ => True
  | _ => False

/-- A statement that only moves such values. -/
def Quiet : Statement → Prop
  | .assign target value =>
      (∃ key, targetKey target = some key ∧ vars.Holds key) ∧ vars.QuietValue value
  | .expr value => vars.QuietValue value
  | _ => False

/-- Where the scan of the pass is right about a statement: in a function that a throw leaves, it
does not read a register, in whatever form. For a variable, which other code may read, and in
the body of a `try` it only moves values. -/
def StepSound (caught : Bool) (key : Key) (statement : Statement) : Prop :=
  match key, caught with
  | .reg number, false => number ∉ statement.reads
  | _, _ => vars.Quiet statement

/-- The scan is right up to the statement that stores to the place again. -/
def ScanSound (caught : Bool) (key : Key) : List Statement → Prop
  | [] => True
  | first :: rest =>
      vars.StepSound caught key first ∧ (overwrites key first = false → ScanSound caught key rest)

/-- A store may be removed. A dropped value is one that is read without effect. -/
def StoreSound (caught : Bool) (key : Key) (value : Expression) (rest : List Statement) : Prop :=
  vars.Holds key ∧ (isTrivialValue value = true → vars.QuietValue value) ∧
    vars.ScanSound caught key rest

/-- A statement is no store that the pass is wrong to remove. -/
def RemovableStore (caught : Bool) (rest : List Statement) : Statement → Prop
  | .assign target value => ∀ key left, targetKey target = some key →
      removedStore rest (.assign target value) = some left → vars.StoreSound caught key value rest
  | _ => True

/-- The pass is right to remove each store it removes. -/
def Removable (caught : Bool) (statements : List Statement) : Prop :=
  EachStore vars.RemovableStore caught statements

end Variables

namespace Variables

variable (vars : Variables host)

variable {key : Key}

theorem stored_stored (holds : vars.Holds key) (value other : host.Val) (machine : Machine host) :
    vars.stored key value (vars.stored key other machine) = vars.stored key value machine := by
  cases key with
  | reg number => simp [stored, Machine.write]
  | var name => simp [stored, vars.put_put holds]

theorem stored_comm {key key' : Key} (holds : vars.Holds key) (holds' : vars.Holds key')
    (different : key ≠ key') (value value' : host.Val) (machine : Machine host) :
    vars.stored key value (vars.stored key' value' machine) =
      vars.stored key' value' (vars.stored key value machine) := by
  cases key with
  | reg number =>
    cases key' with
    | reg number' =>
      have apart : number ≠ number' := fun same => different (congrArg Key.reg same)
      simp [stored, Machine.write, Function.update_comm apart]
    | var name => rfl
  | var name =>
    cases key' with
    | reg number => rfl
    | var name' =>
      have apart : name ≠ name' := fun same => different (congrArg Key.var same)
      simp [stored, vars.put_comm holds holds' apart]

variable {place : Binding}

/-- A write to a place. -/
theorem writeBinding_eq (found : targetKey (.binding place) = some key) (holds : vars.Holds key)
    (value : host.Val) (machine : Machine host) :
    writeBinding place value machine = (.ok ⟨⟩, vars.stored key value machine) := by
  cases place with
  | register number =>
    cases found
    rfl
  | «variable» name =>
    cases found
    rw [writeBinding, perform, vars.write holds]
    rfl
  | closureVar level slot => cases found

/-- A target with a place is the binding of that place. -/
theorem targetKey_eq_some {target : AssignTarget} (found : targetKey target = some key) :
    ∃ place, target = .binding place ∧ targetKey (.binding place) = some key := by
  unfold targetKey at found
  split at found
  · exact ⟨_, rfl, found⟩
  · exact ⟨_, rfl, found⟩
  · cases found

/-- Storing a value that is read without effect. -/
theorem QuietValue.evaluate {value : Expression} (quiet : vars.QuietValue value) :
    ∃ look : Machine host → host.Val,
      (∀ machine, value.evaluate machine = (.ok (look machine), machine)) ∧
      ∀ key, vars.Holds key → usesKey (.expr value) key = false → ∀ content machine,
        look (vars.stored key content machine) = look machine := by
  unfold QuietValue at quiet
  split at quiet
  case h_1 name =>
    refine ⟨fun machine => vars.peek name.name machine.world, ?_, ?_⟩
    · intro machine
      rw [Expression.evaluate, evaluateValue, readBinding, perform, vars.read quiet]
    · intro key holds unused content machine
      cases key with
      | reg number => rfl
      | var other =>
        have apart : name.name ≠ other := by
          rintro rfl
          simp [usesKey, stmtUsesVariable, Statement.visit, Expression.visit, Binding.variable?]
            at unused
        exact vars.peek_put quiet holds apart content machine.world
  case h_2 => exact quiet.elim
  case h_3 value notVariable notClosure =>
    cases value with
    | binding place =>
      cases place with
      | register number =>
        refine ⟨fun machine => machine.read number, fun _ => rfl, ?_⟩
        intro key holds unused content machine
        cases key with
        | reg other =>
          have apart : number ≠ other := by
            rintro rfl
            simp [usesKey, stmtUsesRegister, Expression.usesRegister] at unused
          exact Machine.read_congr (Machine.write_of_ne apart content machine)
        | var other => rfl
      | «variable» name => exact (notVariable name rfl).elim
      | closureVar level slot => exact (notClosure level slot rfl).elim
    | constant | this | global | parameter | arguments | newTarget | super =>
      exact ⟨fun _ => _, fun _ => rfl, fun _ _ _ _ _ => rfl⟩
  case h_4 => exact quiet.elim

/-- A binding is not read by a store to it. -/
theorem usesKey_assign (place : Binding) (value : Expression) (key : Key) :
    usesKey (.assign (.binding place) value) key = usesKey (.expr value) key := by
  cases key with
  | reg | var => rfl

theorem overwrites_assign {key' : Key} (found : targetKey (.binding place) = some key')
    (value : Expression) (key : Key) :
    overwrites key (.assign (.binding place) value) = (key == key') := by
  cases place with
  | register | «variable» =>
    cases found
    rfl
  | closureVar level slot => cases found

/-- A store of a value that is read without effect. -/
theorem execute_assign (found : targetKey (.binding place) = some key) (holds : vars.Holds key)
    {value : Expression} {look : Machine host → host.Val}
    (looks : ∀ machine, value.evaluate machine = (.ok (look machine), machine)) (fuel : Nat)
    (label : Option String) (machine : Machine host) :
    (Statement.assign (.binding place) value).execute fuel label machine =
      (.ok ⟨⟩, vars.stored key (look machine) machine) := by
  simp only [Statement.execute, AssignTarget.store, bind_apply, looks,
    vars.writeBinding_eq found holds, pure_apply]

theorem execute_expr {value : Expression} {look : Machine host → host.Val}
    (looks : ∀ machine, value.evaluate machine = (.ok (look machine), machine)) (fuel : Nat)
    (label : Option String) (machine : Machine host) :
    (Statement.expr value).execute fuel label machine = (.ok ⟨⟩, machine) := by
  simp [Statement.execute, bind_apply, looks, pure_apply]

section

variable {statement : Statement} (quiet : vars.Quiet statement) (holds : vars.Holds key)
  (unused : usesKey statement key = false)

include quiet holds unused

/-- A statement that moves values makes up for a store to the place it stores to. -/
theorem Quiet.makesUp (covered : overwrites key statement = true) (fuel : Nat)
    (label : Option String) (content : host.Val) (machine : Machine host) :
    statement.execute fuel label (vars.stored key content machine) =
      statement.execute fuel label machine := by
  unfold Quiet at quiet
  split at quiet
  case h_1 target value =>
    obtain ⟨⟨key', found, holds'⟩, isQuiet⟩ := quiet
    obtain ⟨place, rfl, found'⟩ := targetKey_eq_some found
    obtain ⟨look, looks, keeps⟩ := isQuiet.evaluate
    rw [usesKey_assign] at unused
    rw [overwrites_assign found', beq_iff_eq] at covered
    subst covered
    rw [vars.execute_assign found' holds' looks, vars.execute_assign found' holds' looks,
      keeps key holds unused, vars.stored_stored holds]
  case h_2 => cases covered
  case h_3 => exact quiet.elim

/-- It does the same beside a store to another place. -/
theorem Quiet.passes (covered : overwrites key statement = false) (fuel : Nat)
    (label : Option String) (content : host.Val) (machine : Machine host) :
    ∃ final, statement.execute fuel label machine = (.ok ⟨⟩, final) ∧
      statement.execute fuel label (vars.stored key content machine) =
        (.ok ⟨⟩, vars.stored key content final) := by
  unfold Quiet at quiet
  split at quiet
  case h_1 target value =>
    obtain ⟨⟨key', found, holds'⟩, isQuiet⟩ := quiet
    obtain ⟨place, rfl, found'⟩ := targetKey_eq_some found
    obtain ⟨look, looks, keeps⟩ := isQuiet.evaluate
    rw [usesKey_assign] at unused
    rw [overwrites_assign found', beq_eq_false_iff_ne] at covered
    refine ⟨_, vars.execute_assign found' holds' looks fuel label machine, ?_⟩
    rw [vars.execute_assign found' holds' looks, keeps key holds unused,
      vars.stored_comm holds' holds (Ne.symm covered)]
  case h_2 value =>
    obtain ⟨look, looks, _⟩ := QuietValue.evaluate vars quiet
    exact ⟨machine, execute_expr looks fuel label machine, execute_expr looks fuel label _⟩
  case h_3 => exact quiet.elim

end

/-- A place whose next store comes before any read, among statements that move values. -/
theorem executeAll_stored (holds : vars.Holds key) (fuel : Nat) (content : host.Val) :
    ∀ (rest : List Statement) (pending : Option String),
      overwrittenBeforeRead key rest = true → vars.ScanSound true key rest →
      ∀ machine, executeAll fuel pending rest (vars.stored key content machine) =
        executeAll fuel pending rest machine
  | [], _, covered, _, _ => by cases covered
  | first :: rest, pending, covered, ⟨onFirst, onRest⟩, machine => by
    have quiet : vars.Quiet first := by cases key <;> exact onFirst
    rw [overwrittenBeforeRead] at covered
    split at covered
    case isTrue => cases covered
    case isFalse =>
      split at covered
      case isTrue => cases covered
      case isFalse used =>
        have unused : usesKey first key = false := by simpa using used
        split at covered
        case isTrue here =>
          rw [executeAll, bind_apply, bind_apply, Quiet.makesUp vars quiet holds unused here]
        case isFalse elsewhere =>
          have passed : overwrites key first = false := by simpa using elsewhere
          obtain ⟨final, ran, ran'⟩ :=
            Quiet.passes vars quiet holds unused passed fuel pending content machine
          rw [executeAll, bind_apply, bind_apply, ran, ran']
          exact executeAll_stored holds fuel content rest _ covered (onRest passed) final

end Variables

/-- Two machines that differ in one register at most. -/
structure ApartAt (number : Nat) (machine machine' : Machine host) : Prop where
  world : machine.world = machine'.world
  writer : machine.writer = machine'.writer
  registers : ∀ other, other ≠ number → machine.registers other = machine'.registers other

variable {number : Nat}

theorem renames_apartAt {reads : List Nat} (unread : number ∉ reads) (writes : List Nat)
    : Renames (@ApartAt host number) id reads writes where
  world apart := apart.world
  update apart _ := ⟨rfl, apart.writer, apart.registers⟩
  read := by
    intro register member machine machine' apart
    exact Machine.read_congr (apart.registers register fun same => unread (same ▸ member))
  write := by
    intro register _ value machine machine' apart
    refine ⟨apart.world, apart.writer, fun other different => ?_⟩
    by_cases here : other = register
    · subst here
      rw [Machine.write_self, Machine.write_self, apart.writer]
    · rw [Machine.write_of_ne here, Machine.write_of_ne here]
      exact apart.registers other different

variable {machine machine' : Machine host}

theorem ApartAt.forget (apart : ApartAt number machine machine')
    : machine.forget = machine'.forget:= by
  cases machine
  cases machine'
  obtain ⟨rfl, rfl, _⟩ := apart
  rfl

/-- A store to the register brings two machines together. -/
theorem ApartAt.write (apart : ApartAt number machine machine') (value : host.Val) :
    machine.write number value = machine'.write number value := by
  have registers : Function.update machine.registers number (some ⟨value, machine.writer⟩) =
      Function.update machine'.registers number (some ⟨value, machine'.writer⟩) := by
    funext other
    by_cases here : other = number
    · subst here
      rw [Function.update_self, Function.update_self, apart.writer]
    · rw [Function.update_of_ne here, Function.update_of_ne here]
      exact apart.registers other here
  unfold Machine.write
  rw [registers]
  cases machine
  cases machine'
  obtain ⟨rfl, rfl, _⟩ := apart
  rfl

variable {statement : Statement}

theorem throwsOnly_execute (straight : isStraightLine statement = true) (fuel : Nat)
    (label : Option String) : ThrowsOnly (statement.execute fuel label : Exec host PUnit) := by
  unfold isStraightLine at straight
  split at straight
  case h_1 target value =>
    exact throwsOnly_bind (target.throwsOnly value.throwsOnly) fun _ => throwsOnly_pure _
  case h_2 expression => exact throwsOnly_bind expression.throwsOnly fun _ => throwsOnly_pure _
  case h_3 name value kind => exact throwsOnly_andPerform value.throwsOnly _
  case h_4 => cases straight

/-- Two parts that agree up to a register and only throw, and what follows each of them. -/
theorem forgets_bind_apart {part : Exec host α} {next next' : α → Exec host β}
    (agree : Agree (ApartAt number) part part) (throws : ThrowsOnly part)
    (rest : ∀ value machine machine', ApartAt number machine machine' →
      forgets (next value) machine = forgets (next' value) machine')
    (apart : ApartAt number machine machine') :
    forgets (part >>= next) machine = forgets (part >>= next') machine' := by
  obtain ⟨same, finish⟩ := agree machine machine' apart
  have onThrow := throws machine
  have later := rest
  unfold forgets at later ⊢
  rw [bind_apply, bind_apply]
  rcases ran : part machine with ⟨outcome, middle⟩
  rcases ran' : part machine' with ⟨outcome', middle'⟩
  rw [ran, ran'] at same finish
  rw [ran] at onThrow
  dsimp only at same finish onThrow
  subst same
  cases outcome with
  | ok value => exact later value middle middle' finish
  | err exit =>
    obtain ⟨value, rfl⟩ := onThrow exit rfl
    exact congrArg (Prod.mk _) finish.forget
  | panic => exact congrArg (Prod.mk _) finish.forget

theorem overwrites_reg (covered : overwrites (.reg number) statement = true) :
    ∃ value, statement = .assign (.binding (.register number)) value := by
  unfold overwrites at covered
  split at covered
  case h_1 other value =>
    obtain rfl : number = other := by simpa using covered
    exact ⟨value, rfl⟩
  case h_2 => exact nomatch covered
  case h_3 => exact nomatch covered
  case h_4 => cases covered

/-- An assignment to a place is its value, the write and what follows. -/
theorem executeAll_assign (fuel : Nat) (pending : Option String) (place : Binding)
    (value : Expression) (rest : List Statement) :
    (executeAll fuel pending (.assign (.binding place) value :: rest) : Exec host PUnit) =
      value.evaluate >>= fun content => writeBinding place content >>= fun _ =>
        executeAll fuel pending rest := by
  rw [executeAll, Statement.execute, AssignTarget.store, bind_assoc, bind_assoc]
  refine congrArg (value.evaluate >>= ·) (funext fun content => ?_)
  rw [bind_assoc]
  rfl

/-- A register whose next store comes before any read makes no difference to a caller. -/
theorem executeAll_apart (vars : Variables host) (fuel : Nat) :
    ∀ (rest : List Statement) (pending : Option String),
      overwrittenBeforeRead (.reg number) rest = true →
      vars.ScanSound false (.reg number) rest →
      ∀ machine machine' : Machine host, ApartAt number machine machine' →
        forgets (executeAll fuel pending rest) machine =
          forgets (executeAll fuel pending rest) machine'
  | [], _, covered, _, _, _, _ => by cases covered
  | first :: rest, pending, covered, ⟨onFirst, onRest⟩, machine, machine', apart => by
    have unread : number ∉ first.reads := onFirst
    rw [overwrittenBeforeRead] at covered
    split at covered
    case isTrue => cases covered
    case isFalse isStraight =>
      have straight : isStraightLine first = true := by simpa using isStraight
      split at covered
      case isTrue => cases covered
      case isFalse =>
        split at covered
        case isTrue here =>
          obtain ⟨value, rfl⟩ := overwrites_reg here
          rw [executeAll_assign]
          refine forgets_bind_apart (value.agree_self (renames_apartAt unread _)) value.throwsOnly
            (fun content middle middle' between => ?_) apart
          have together := congrArg (forgets (executeAll fuel pending rest)) (between.write content)
          exact together
        case isFalse elsewhere =>
          have passed : overwrites (.reg number) first = false := by simpa using elsewhere
          rw [executeAll]
          refine forgets_bind_apart ?_ (throwsOnly_execute straight fuel pending)
            (fun _ => executeAll_apart vars fuel rest _ covered (onRest passed)) apart
          exact first.agree_self fuel pending (renames_apartAt unread _)

variable {vars : Variables host}

/-- A scan that asks for quiet statements. -/
theorem scanSound_true {key : Key} (strict : caught = true ∨ ∃ name, key = .var name)
    : ∀ {rest : List Statement}, vars.ScanSound caught key rest → vars.ScanSound true key rest
  | [], _ => trivial
  | first :: rest, ⟨onFirst, onRest⟩ => by
    refine ⟨?_, fun passed => scanSound_true strict (onRest passed)⟩
    rcases strict with rfl | ⟨name, rfl⟩
    · exact onFirst
    · cases caught <;> exact onFirst

/-- A store to a place whose next store comes before any read makes no difference. -/
theorem alike_stored {place : Binding} {key : Key} (found : targetKey (.binding place) = some key)
    (holds : vars.Holds key) (fuel : Nat) (pending : Option String) {rest : List Statement}
    (covered : overwrittenBeforeRead key rest = true) (scan : vars.ScanSound caught key rest)
    (content : host.Val) :
    Alike caught (executeAll fuel pending rest : Exec host PUnit)
      (writeBinding place content >>= fun _ => executeAll fuel pending rest) := by
  have written : ∀ machine : Machine host,
      (writeBinding place content >>= fun _ => executeAll fuel pending rest) machine =
        executeAll fuel pending rest (vars.stored key content machine) := by
    intro machine
    rw [bind_apply, vars.writeBinding_eq found holds]
  by_cases strict : caught = true ∨ ∃ name, key = .var name
  · apply Alike.of_eq
    funext machine
    rw [written]
    exact (vars.executeAll_stored holds fuel content rest pending covered
      (scanSound_true strict scan) machine).symm
  · rw [not_or] at strict
    obtain ⟨notCaught, notVariable⟩ := strict
    obtain rfl : caught = false := by simpa using notCaught
    cases key with
    | var name => exact (notVariable ⟨name, rfl⟩).elim
    | reg number =>
      rw [alike_false]
      funext machine
      have apart : ApartAt number machine (vars.stored (.reg number) content machine) :=
        ⟨rfl, rfl, fun _ different => (Machine.write_of_ne different content machine).symm⟩
      rw [executeAll_apart vars fuel rest pending covered scan machine _ apart, forgets, forgets,
        written]

/-- What a removed store is, and what it leaves. -/
theorem removedStore_eq_some {rest left : List Statement}
    (found : removedStore rest statement = some left) :
    ∃ place key value, statement = .assign (.binding place) value ∧
      targetKey (.binding place) = some key ∧ overwrittenBeforeRead key rest = true ∧
      ((isTrivialValue value = true ∧ left = []) ∨ left = [.expr value]) := by
  unfold removedStore at found
  split at found
  case h_1 target value =>
    split at found
    case h_1 key isKey =>
      obtain ⟨place, rfl, isKey'⟩ := Variables.targetKey_eq_some isKey
      obtain ⟨covered, leaves⟩ := Option.ite_none_right_eq_some.mp found
      refine ⟨place, key, value, rfl, isKey', covered, ?_⟩
      unfold leftOf at leaves
      split at leaves
      case isTrue isTrivial => exact .inl ⟨isTrivial, (Option.some.inj leaves).symm⟩
      case isFalse =>
        split at leaves
        case isTrue => cases leaves
        case isFalse => exact .inr (Option.some.inj leaves).symm
    case h_2 => cases found
  case h_2 => cases found

/-- What a removed store leaves does what the store does. -/
theorem alike_removedStore (fuel : Nat) (pending : Option String) {rest left : List Statement}
    (found : removedStore rest statement = some left)
    (sound : vars.RemovableStore caught rest statement) :
    Alike caught (executeAll fuel pending (left ++ rest) : Exec host PUnit)
      (executeAll fuel pending (statement :: rest)) := by
  obtain ⟨place, key, value, rfl, isKey, covered, leaves⟩ := removedStore_eq_some found
  obtain ⟨holds, dropped, scan⟩ := sound key left isKey found
  have behind := alike_bind (Alike.refl caught (value.evaluate : Exec host host.Val)) fun content =>
    alike_stored isKey holds fuel pending covered scan content
  rw [executeAll_assign]
  refine Alike.trans (Alike.of_eq ?_) behind
  rcases leaves with ⟨isTrivial, rfl⟩ | rfl
  · obtain ⟨look, looks, _⟩ := (dropped isTrivial).evaluate
    funext machine
    rw [bind_apply, looks, List.nil_append]
  · rw [List.singleton_append, executeAll, Statement.execute, bind_assoc]
    rfl

/-- A store that the pass is right to remove is dead. -/
theorem deadStore_of_removable (caught : Bool) (rest : List Statement) (statement : Statement)
    (sound : vars.RemovableStore caught rest statement) : DeadStore host caught rest statement := by
  unfold DeadStore
  split
  case h_1 place value =>
    intro left found
    obtain ⟨_, key, _, same, isKey, covered, leaves⟩ := removedStore_eq_some found
    obtain ⟨⟨rfl⟩, rfl⟩ := Statement.assign.inj same
    obtain ⟨holds, dropped, scan⟩ := sound key left isKey found
    refine ⟨fun fuel pending => alike_stored isKey holds fuel pending covered scan, ?_⟩
    rintro rfl machine
    rcases leaves with ⟨isTrivial, _⟩ | isExpr
    · obtain ⟨look, looks, _⟩ := (dropped isTrivial).evaluate
      exact ⟨look machine, looks machine⟩
    · cases isExpr
  case h_2 => trivial

theorem labelAfter_removeInside (pending : Option String) (statement : Statement) :
    (removeInside statement).labelAfter pending = statement.labelAfter pending := by
  cases statement <;> rfl

/-- The last store stays, so a list does not become empty. -/
theorem isEmpty_removeDeadAssignments (statements : List Statement) :
    (removeDeadAssignments statements).isEmpty = statements.isEmpty := by
  induction statements with
  | nil => rfl
  | cons first rest onRest =>
    rw [removeDeadAssignments]
    split
    case h_1 left found =>
      obtain ⟨_, key, _, _, _, covered, _⟩ := removedStore_eq_some found
      cases rest with
      | nil => cases covered
      | cons second others =>
        have stays := List.isEmpty_eq_false_iff.mp onRest
        exact List.isEmpty_eq_false_iff.mpr (List.append_ne_nil_of_right_ne_nil _ stays)
    case h_2 => rfl

section

variable (vars : Variables host) (fuel : Nat)

mutual

/-- The pass keeps what a list does, as far as it is right about the stores it removes. -/
theorem alike_removeDeadAssignments :
    ∀ (caught : Bool) (statements : List Statement) (pending : Option String),
      vars.Removable caught statements →
      Alike caught (executeAll fuel pending (removeDeadAssignments statements) : Exec host PUnit)
        (executeAll fuel pending statements)
  | caught, [], _, _ => Alike.refl caught _
  | caught, first :: rest, pending, ⟨onStore, onFirst, onRest⟩ => by
    have tails := fun pending => alike_removeDeadAssignments caught rest pending onRest
    rw [removeDeadAssignments]
    split
    case h_1 left found =>
      refine Alike.trans ?_ (alike_removedStore fuel pending found onStore)
      obtain ⟨_, _, value, _, _, _, ⟨_, rfl⟩ | rfl⟩ := removedStore_eq_some found
      · exact tails pending
      · exact alike_bind (Alike.refl caught _) fun _ => tails pending
    case h_2 =>
      rw [executeAll, executeAll, labelAfter_removeInside]
      exact alike_bind (alike_removeInside caught first pending onFirst) fun _ => tails _

theorem alike_removeInside :
    ∀ (caught : Bool) (statement : Statement) (label : Option String),
      EachStoreInside vars.RemovableStore caught statement →
      Alike caught ((removeInside statement).execute fuel label : Exec host PUnit)
        (statement.execute fuel label)
  | caught, .ifStmt condition thenBody elseBody, label, ⟨onThen, onElse⟩ =>
    alike_choiceOf condition.evaluate
      (absorbs_inScope.alike (alike_removeDeadAssignments caught thenBody none onThen))
      (absorbs_inScope.alike (alike_removeDeadAssignments caught elseBody none onElse))
  | caught, .whileStmt condition body, label, onBody =>
    (absorbs_catchBreak label).alike (alike_iterate (alike_testFirst label condition.evaluate _
      (alike_removeDeadAssignments caught body none onBody)) fuel)
  | caught, .doWhile body condition, label, onBody =>
    (absorbs_catchBreak label).alike (alike_iterate (alike_testLast label condition.evaluate
      (alike_removeDeadAssignments caught body none onBody)) fuel)
  | caught, .forStmt init condition update body, label, onBody => by
    rw [removeInside, Statement.execute, Statement.execute]
    apply absorbs_inScope.alike
    apply alike_bind (Alike.refl caught _)
    intro _
    exact (absorbs_catchBreak label).alike (alike_iterate (alike_testFirst label _ _
      (alike_removeDeadAssignments caught body none onBody)) fuel)
  | caught, .forIn name object body, label, onBody => by
    apply alike_bind (Alike.refl caught _)
    intro source
    apply alike_bind (Alike.refl caught _)
    intro iterator
    exact (absorbs_catchBreak label).alike (alike_iterate (alike_forEach label iterator name
      (alike_removeDeadAssignments caught body none onBody)) fuel)
  | caught, .forOf name iterable body, label, onBody => by
    apply alike_bind (Alike.refl caught _)
    intro source
    apply alike_bind (Alike.refl caught _)
    intro iterator
    exact (absorbs_catchBreak label).alike ((absorbs_closing iterator).alike (alike_iterate
      (alike_forEach label iterator name
        (alike_removeDeadAssignments caught body none onBody)) fuel))
  | caught, .tryCatch tryBody catchParam catchBody finallyBody, label,
      ⟨onTry, onCatch, onFinally⟩ => by
    have sameTry := alike_true.mp (alike_removeDeadAssignments true tryBody none onTry)
    have likeCatch := alike_removeDeadAssignments (caught || !finallyBody.isEmpty)
      catchBody none onCatch
    have likeFinally := alike_removeDeadAssignments caught finallyBody none onFinally
    rw [removeInside, Statement.execute, Statement.execute, isEmpty_removeDeadAssignments, sameTry]
    cases finallyBody with
    | nil =>
      rw [List.isEmpty_nil, Bool.not_true, Bool.or_false] at likeCatch
      refine absorbs_finallyDo.alike (alike_ite (Alike.refl caught _) ?_)
      refine alike_handling _ fun thrown => absorbs_inScope.alike ?_
      exact alike_bind (Alike.refl caught _) fun _ => likeCatch
    | cons first rest =>
      have sameCatch := alike_true.mp (Bool.or_true caught ▸ likeCatch)
      rw [sameCatch]
      exact alike_finallyDo _ (absorbs_inScope.alike likeFinally)
  | caught, .switch discriminant cases default, label, ⟨onCases, onDefault⟩ => by
    apply alike_bind (Alike.refl caught _)
    intro value
    exact (absorbs_catchBreak none).alike (absorbs_inScope.alike
      (alike_removeInCases caught value
        (alike_removeInDefault caught default onDefault) cases onCases))
  | caught, .block body, label, onBody =>
    absorbs_inScope.alike (alike_removeDeadAssignments caught body none onBody)
  | caught, .expr _, _, _ | caught, .letStmt .., _, _ | caught, .assign .., _, _
  | caught, .delete .., _, _ | caught, .returnStmt _, _, _ | caught, .throwStmt _, _, _
  | caught, .debugger, _, _ | caught, .comment _, _, _ | caught, .breakStmt _, _, _
  | caught, .continueStmt _, _, _ | caught, .goto _, _, _ | caught, .condGoto .., _, _
  | caught, .classStmt .., _, _ => Alike.refl caught _

theorem alike_removeInCases (caught : Bool) (value : host.Val)
    {otherwise otherwise' : Exec host PUnit} (alike : Alike caught otherwise otherwise') :
    ∀ cases, EachStoreInCases vars.RemovableStore caught cases →
      Alike caught (executeCases fuel value otherwise (removeInCases cases))
        (executeCases fuel value otherwise' cases)
  | [], _ => alike
  | (test, body) :: rest, ⟨onBody, onRest⟩ => by
    apply alike_bind (Alike.refl caught _)
    intro candidate
    exact alike_ite (alike_removeDeadAssignments caught body none onBody)
      (alike_removeInCases caught value alike rest onRest)

theorem alike_removeInDefault (caught : Bool) :
    ∀ default, EachStoreInDefault vars.RemovableStore caught default →
      Alike caught (executeDefault fuel (removeInDefault default) : Exec host PUnit)
        (executeDefault fuel default)
  | none, _ => Alike.refl caught _
  | some body, onBody => alike_removeDeadAssignments caught body none onBody

end

end

/-- Where the pass is right about the stores it removes, they are dead, and the list does what it
did before. -/
theorem removeDeadAssignments_dead (vars : Variables host) (fuel : Nat) (caught : Bool)
    (pending : Option String) (statements : List Statement)
    (removable : vars.Removable caught statements) :
    EachStore (DeadStore host) caught statements ∧
      Alike caught (executeAll fuel pending (removeDeadAssignments statements) : Exec host PUnit)
        (executeAll fuel pending statements) :=
  ⟨EachStore.imp deadStore_of_removable caught statements removable,
    alike_removeDeadAssignments vars fuel caught statements pending removable⟩

/-- In the recording engine every name is a declared variable. -/
def Tracing.variables : Variables Tracing.host where
  declared _ := True
  peek name world := world.names name
  put name value world := { world with names := Function.update world.names name value }
  read _ _ := rfl
  write _ _ _ := rfl
  put_put {name} _ value other world := by
    have names : Function.update (Function.update world.names name other) name value =
        Function.update world.names name value := Function.update_idem ..
    rw [names]
  put_comm {name name'} _ _ apart value value' world := by
    have names : Function.update (Function.update world.names name' value') name value =
        Function.update (Function.update world.names name value) name' value' :=
      Function.update_comm (Ne.symm apart) ..
    rw [names]
  peek_put _ _ apart _ _ := Function.update_of_ne apart _ _

/-- A store of an integer to a register. -/
def storeInteger (register : Nat) (value : Int) : Statement :=
  .assign (.binding (.register register)) (.value (.constant (.integer value)))

/-- A call with a register. -/
def callWith (register : Nat) : Statement :=
  .expr (.call (.value .this) [.value (.binding (.register register))])

/-- A call between two stores to another register, and a `try` with two stores to one. -/
def overwriting : List Statement :=
  [storeInteger 1 5, storeInteger 2 6, callWith 1, storeInteger 2 7,
    .tryCatch [storeInteger 3 8, storeInteger 4 9, storeInteger 3 10] none [callWith 3] []]

theorem overwriting_removable : Tracing.variables.Removable false overwriting := by
  refine ⟨?_, trivial, ?_, trivial, trivial, trivial, ?_, trivial, trivial,
    ⟨⟨?_, trivial, ?_, trivial, ?_, trivial, trivial⟩, ⟨trivial, trivial, trivial⟩, trivial⟩,
    trivial⟩
  all_goals
    intro key left isKey found
    cases isKey
  · cases found
  · have unread : 2 ∉ (callWith 1).reads := by decide
    have unread' : 2 ∉ (storeInteger 2 7).reads := by decide
    exact ⟨trivial, fun _ => trivial, unread, fun _ => ⟨unread', fun passed => by cases passed⟩⟩
  · cases found
  · exact ⟨trivial, fun _ => trivial, ⟨⟨.reg 4, rfl, trivial⟩, trivial⟩, fun _ =>
      ⟨⟨⟨.reg 3, rfl, trivial⟩, trivial⟩, fun passed => by cases passed⟩⟩
  · cases found
  · cases found

/-- The second store of the call's list and the first of the `try` go. -/
theorem overwriting_dead :
    removeDeadAssignments overwriting =
        [storeInteger 1 5, callWith 1, storeInteger 2 7,
          .tryCatch [storeInteger 4 9, storeInteger 3 10] none [callWith 3] []] ∧
      EachStore (DeadStore Tracing.host) false overwriting ∧
      Alike false (executeAll 0 none (removeDeadAssignments overwriting) :
          Exec Tracing.host PUnit) (executeAll 0 none overwriting) :=
  ⟨rfl, removeDeadAssignments_dead Tracing.variables 0 false none overwriting overwriting_removable⟩

/-- A register that a declaration between its two stores reads. -/
def declaring : List Statement :=
  [storeInteger 5 1, .letStmt ⟨"y", none⟩ (.value (.binding (.register 5))) .let, storeInteger 5 2]

/-- What the variable of the declaration holds at the end. -/
def yAfter (statements : List Statement) : Constant :=
  (forgets (executeAll 0 none statements : Exec Tracing.host PUnit)
    ⟨fun _ => none, Tracing.blank, .other ⟨0, 0⟩⟩).2.world.names "y"

/-- The scan does not look into the value of the declaration. -/
theorem removeDeadAssignments_read :
    ¬ (∀ (host : Host) (vars : Variables host), (∀ name, vars.declared name) →
      ∀ (fuel : Nat) (caught : Bool) (pending : Option String) (statements : List Statement),
        EachStore (DeadStore host) caught statements ∧
          Alike caught (executeAll fuel pending (removeDeadAssignments statements) :
            Exec host PUnit) (executeAll fuel pending statements)) := by
  intro all
  obtain ⟨_, alike⟩ := all Tracing.host Tracing.variables (fun _ => trivial) 0 false none declaring
  have kept : yAfter (removeDeadAssignments declaring) = yAfter declaring := by
    unfold yAfter
    rw [alike_false.mp alike]
  have original : yAfter declaring = .integer 1 := by decide +kernel
  have removed : yAfter (removeDeadAssignments declaring) = .undefined := by decide +kernel
  rw [original, removed] at kept
  cases kept

end HermesDecomp.Ir
