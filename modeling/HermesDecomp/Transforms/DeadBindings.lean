import HermesDecomp.Transforms.ConstBindings
import HermesDecomp.Transforms.DeadStores
import HermesDecomp.Transforms.DroppedBookkeeping

/-!
# Dead bindings of generated names

Near the end of the pipeline a copy to a generated name that is not read goes, as a declaration or
as an assignment, wherever it stands. What is dropped is judged statement by statement, so a
declaration may go while another assignment to its name stays.
-/

namespace HermesDecomp.Ir

open List

/-- A name the decompiler made up. -/
def isGenericTemp (name : String) : Bool :=
  (["tmp", "num", "str", "val", "bool", "obj", "arr"].any fun stem =>
      (stem.toList.isPrefixOf? name.toList).any (·.all Char.isDigit)) ||
    match name.toList with
    | 'r' :: digits => !digits.isEmpty && digits.all Char.isDigit
    | _ => false

/-- Collects the variables read. -/
def variablesRead : Visitor String where
  onRead
    | .variable name => [name.name]
    | .register _ | .closureVar _ _ => []
  onWrite _ := []

/-- A store of a trivial value to a generated name that is not among the names read. -/
def isDeadBinding (reads : List String) (statement : Statement) : Bool :=
  match statement.variableStore? with
  | some (name, value) =>
      isGenericTemp name.name && !reads.contains name.name && !hasSideEffects value &&
        isTrivialValue value
  | none => false

/-- What a statement without its bodies does to variables: the names it reads, writes, declares and
declares for the whole function, and the names declared around it. -/
structure Spot where
  reads : List String
  writes : List String
  declares : List String
  hoists : List String
  around : List String
deriving DecidableEq

/-- What a statement does that the pass does not enter. -/
def Statement.spot (around : List String) (statement : Statement) : Spot where
  reads := statement.visit variablesRead
  writes := statement.written
  declares := statement.declared?.toList
  hoists := match statement with
    | .letStmt name _ .var => [name.name]
    | _ => []
  around := around

/-- What the evaluation of an expression does. -/
def Expression.spot (around : List String) (expression : Expression) : Spot :=
  (Statement.expr expression).spot around

/-- What the head of a loop over a value does. -/
def headSpot (around : List String) (name : String) (value : Expression) : Spot :=
  (Statement.letStmt ⟨name, none⟩ value .const).spot around

/-- What the head of a handler does. -/
def catchSpot (around : List String) (name : String) : Spot := ⟨[], [], [name], [], around⟩

section Spots

variable (gone : Statement → Bool)

/-- The names a list declares itself, without the statements that are gone. -/
def declaredBy (body : List Statement) : List String :=
  (body.filter fun statement => !gone statement).filterMap Statement.declared?

mutual

/-- What a statement does in its place, without the statements in its bodies that are gone. -/
def Statement.spots (around : List String) : Statement → List Spot
  | .ifStmt condition thenBody elseBody =>
      condition.spot around :: (spotsOfAll (declaredBy gone thenBody ++ around) thenBody ++
        spotsOfAll (declaredBy gone elseBody ++ around) elseBody)
  | .whileStmt condition body =>
      condition.spot around :: spotsOfAll (declaredBy gone body ++ around) body
  | .doWhile body condition =>
      spotsOfAll (declaredBy gone body ++ around) body ++ [condition.spot around]
  | .forStmt init condition update body =>
      let inHead := init.toList.filterMap Statement.declared? ++ around
      init.toList.map (·.spot inHead) ++ (condition.toList.map (·.spot inHead) ++
        (update.toList.map (·.spot inHead) ++ spotsOfAll (declaredBy gone body ++ inHead) body))
  | .switch discriminant cases default =>
      discriminant.spot around :: (spotsOfCases around cases ++ spotsOfDefault around default)
  | .forOf name value body | .forIn name value body =>
      headSpot around name value :: spotsOfAll (declaredBy gone body ++ name :: around) body
  | .tryCatch tryBody catchParam catchBody finallyBody =>
      let name := catchParam.getD "e"
      spotsOfAll (declaredBy gone tryBody ++ around) tryBody ++ (catchSpot around name ::
        (spotsOfAll (declaredBy gone catchBody ++ name :: around) catchBody ++
          spotsOfAll (declaredBy gone finallyBody ++ around) finallyBody))
  | .block body => spotsOfAll (declaredBy gone body ++ around) body
  | statement => [statement.spot around]

def spotsOfAll (around : List String) : List Statement → List Spot
  | [] => []
  | first :: rest =>
      if gone first then spotsOfAll around rest else first.spots around ++ spotsOfAll around rest

def spotsOfCases (around : List String) : List (Expression × List Statement) → List Spot
  | [] => []
  | (test, body) :: rest =>
      test.spot around :: (spotsOfAll (declaredBy gone body ++ around) body ++
        spotsOfCases around rest)

def spotsOfDefault (around : List String) : Option (List Statement) → List Spot
  | none => []
  | some body => spotsOfAll (declaredBy gone body ++ around) body

end

/-- What the statements of a function do that are not gone. -/
def spotsOf (body : List Statement) : List Spot := spotsOfAll gone (declaredBy gone body) body

end Spots

/-- Nothing is gone. -/
def noneGone : Statement → Bool := fun _ => false

/-- The names a body declares anywhere. -/
def declaredIn (body : List Statement) : List String := (spotsOf noneGone body).flatMap Spot.declares

/-- Every write of one of the names has a declaration of it around it, or one of the function. -/
def WritesDeclared (names : List String) (spots : List Spot) : Prop :=
  ∀ spot ∈ spots, ∀ name ∈ spot.writes, name ∈ names →
    name ∈ spot.around ∨ ∃ other ∈ spots, name ∈ other.hoists

/-- The statements that go in the first rounds: those that are dead where the ones that went before
no longer read. -/
def faded (keep : List String) (body : List Statement) : Nat → Statement → Bool
  | 0 => noneGone
  | rounds + 1 => fun statement => faded keep body rounds statement ||
      isDeadBinding (keep ++ (spotsOf (faded keep body rounds) body).flatMap Spot.reads) statement

/-- What a body has to be like: a copy that fades reads no property and its name is read nowhere, in
classes and created functions either, every write that stays of a declared name is in the scope of a
declaration that stays, and nothing fades in a third round. -/
structure Removable (captured : FunctionId → List Binding) (keep : List String)
    (body : List Statement) : Prop where
  copies : ∀ statement ∈ leavesOfAll body, faded keep body 2 statement = true →
    ∀ name value, statement.variableStore? = some (name, value) →
      (∀ object property isOptional, value ≠ .member object property isOptional) ∧
        Unread captured body (.variable name)
  scopes : WritesDeclared (declaredIn body) (spotsOf (faded keep body 2) body)
  settled : ∀ statement ∈ leavesOfAll body, faded keep body 3 statement = true →
    faded keep body 2 statement = true

theorem visitName_variablesRead (name : String) : visitName variablesRead name = [] := by
  unfold visitName
  split <;> rfl

mutual

theorem Statement.reads_spots (around : List String) : ∀ statement : Statement,
    (statement.spots noneGone around).flatMap Spot.reads = statement.visit variablesRead
  | .ifStmt condition thenBody elseBody => by
    simp [Statement.spots, Statement.visit, Expression.spot, Statement.spot,
      reads_spotsOfAll _ thenBody, reads_spotsOfAll _ elseBody]
  | .whileStmt condition body | .doWhile body condition => by
    simp [Statement.spots, Statement.visit, Expression.spot, Statement.spot, reads_spotsOfAll _ body]
  | .block body => reads_spotsOfAll _ body
  | .forStmt init condition update body => by
    simp only [Statement.spots, Statement.visit, flatMap_append, reads_spotsOfAll _ body]
    cases init <;> cases condition <;> cases update <;>
      simp [visitStatement, visitOption, Expression.spot, Statement.spot, Statement.visit]
  | .switch discriminant cases default => by
    simp [Statement.spots, Statement.visit, Expression.spot, Statement.spot,
      reads_spotsOfCases _ cases, reads_spotsOfDefault _ default]
  | .forOf name value body | .forIn name value body => by
    simp [Statement.spots, Statement.visit, headSpot, Statement.spot, reads_spotsOfAll _ body,
      visitName_variablesRead]
  | .tryCatch tryBody catchParam catchBody finallyBody => by
    simp [Statement.spots, Statement.visit, catchSpot, reads_spotsOfAll _ tryBody,
      reads_spotsOfAll _ catchBody, reads_spotsOfAll _ finallyBody, visitName_variablesRead]
  | .expr _ | .letStmt _ _ _ | .assign _ _ | .delete _ _ | .returnStmt _ | .throwStmt _ | .debugger
  | .comment _ | .breakStmt _ | .continueStmt _ | .goto _ | .condGoto _ _ _ | .classStmt _ _ _ _ =>
    append_nil _

theorem reads_spotsOfAll (around : List String) : ∀ body,
    (spotsOfAll noneGone around body).flatMap Spot.reads = visitStatements variablesRead body
  | [] => rfl
  | first :: rest => by
    simp [spotsOfAll, noneGone, visitStatements, first.reads_spots, reads_spotsOfAll _ rest]

theorem reads_spotsOfCases (around : List String) : ∀ cases,
    (spotsOfCases noneGone around cases).flatMap Spot.reads = visitCases variablesRead cases
  | [] => rfl
  | (test, body) :: rest => by
    simp [spotsOfCases, visitCases, Expression.spot, Statement.spot, Statement.visit,
      reads_spotsOfAll _ body, reads_spotsOfCases _ rest]

theorem reads_spotsOfDefault (around : List String) : ∀ default,
    (spotsOfDefault noneGone around default).flatMap Spot.reads = visitDefault variablesRead default
  | none => rfl
  | some body => reads_spotsOfAll _ body

end

section

variable {doomed gone : Statement → Bool}

theorem DoomsStores.mapNestedBodies (stores : DoomsStores doomed)
    (pass : List Statement → List Statement) (statement : Statement) :
    doomed (statement.mapNestedBodies pass) = doomed statement := by
  cases statement with
  | ifStmt | whileStmt | doWhile | forStmt | switch | forOf | forIn | tryCatch | block =>
    rw [stores.kept rfl, stores.kept rfl]
  | _ => rfl

theorem declared_mapNestedBodies (pass : List Statement → List Statement) (statement : Statement) :
    (statement.mapNestedBodies pass).declared? = statement.declared? := by
  cases statement <;> rfl

section

variable (dooms : DoomsStores doomed) (goes : DoomsStores gone)

include dooms goes

/-- A stripped list declares what is left of the list. -/
theorem declaredBy_strip (body : List Statement) :
    declaredBy gone (dropDoomed doomed (mapNestedAll (dropDoomed doomed) body)) =
      declaredBy (fun statement => doomed statement || gone statement) body := by
  have mapped : ∀ list, mapNestedAll (dropDoomed doomed) list =
      list.map (·.mapNestedBodies (dropDoomed doomed)) := by
    intro list
    induction list with
    | nil => rfl
    | cons first rest ih => rw [mapNestedAll, ih, map_cons]
  rw [mapped, declaredBy, dropDoomed, filter_filter, filter_map, filterMap_map]
  simp only [Function.comp_def, dooms.mapNestedBodies, goes.mapNestedBodies,
    declared_mapNestedBodies, Bool.and_comm]
  simp [declaredBy]

mutual

/-- What a stripped statement does is what is left of what the statement does. -/
theorem Statement.spots_strip (around : List String) : ∀ statement : Statement,
    (statement.mapNestedBodies (dropDoomed doomed)).spots gone around =
      statement.spots (fun statement => doomed statement || gone statement) around
  | .ifStmt condition thenBody elseBody => by
    simp only [Statement.mapNestedBodies, Statement.spots, declaredBy_strip dooms goes,
      spotsOfAll_strip _ thenBody, spotsOfAll_strip _ elseBody]
  | .whileStmt condition body | .doWhile body condition | .forStmt init condition update body
  | .forOf name value body | .forIn name value body | .block body => by
    simp only [Statement.mapNestedBodies, Statement.spots, declaredBy_strip dooms goes,
      spotsOfAll_strip _ body]
  | .tryCatch tryBody catchParam catchBody finallyBody => by
    simp only [Statement.mapNestedBodies, Statement.spots, declaredBy_strip dooms goes,
      spotsOfAll_strip _ tryBody, spotsOfAll_strip _ catchBody, spotsOfAll_strip _ finallyBody]
  | .switch discriminant cases default => by
    simp only [Statement.mapNestedBodies, Statement.spots, spotsOfCases_strip _ cases,
      spotsOfDefault_strip _ default]
  | .expr _ | .letStmt _ _ _ | .assign _ _ | .delete _ _ | .returnStmt _ | .throwStmt _ | .debugger
  | .comment _ | .breakStmt _ | .continueStmt _ | .goto _ | .condGoto _ _ _ | .classStmt _ _ _ _ =>
    rfl

theorem spotsOfAll_strip (around : List String) : ∀ body,
    spotsOfAll gone around (dropDoomed doomed (mapNestedAll (dropDoomed doomed) body)) =
      spotsOfAll (fun statement => doomed statement || gone statement) around body
  | [] => rfl
  | first :: rest => by
    have others := spotsOfAll_strip around rest
    unfold dropDoomed at others ⊢
    rw [mapNestedAll, filter_cons, dooms.mapNestedBodies, spotsOfAll]
    cases isDoomed : doomed first with
    | true => simpa [isDoomed] using others
    | false =>
      have same := first.spots_strip around
      unfold dropDoomed at same
      simp [spotsOfAll, goes.mapNestedBodies, same, others]

theorem spotsOfCases_strip (around : List String) : ∀ cases,
    spotsOfCases gone around (mapNestedCases (dropDoomed doomed) cases) =
      spotsOfCases (fun statement => doomed statement || gone statement) around cases
  | [] => rfl
  | (test, body) :: rest => by
    simp only [mapNestedCases, spotsOfCases, declaredBy_strip dooms goes,
      spotsOfAll_strip _ body, spotsOfCases_strip _ rest]

theorem spotsOfDefault_strip (around : List String) : ∀ default,
    spotsOfDefault gone around (mapNestedDefault (dropDoomed doomed) default) =
      spotsOfDefault (fun statement => doomed statement || gone statement) around default
  | none => rfl
  | some body => by
    simp only [mapNestedDefault, spotsOfDefault, declaredBy_strip dooms goes,
      spotsOfAll_strip _ body]

end

end

theorem leaves_of_storedPlace {statement : Statement}
    (stores : statement.storedPlace?.isSome = true) : statement.leaves = [statement] := by
  cases statement with
  | letStmt | assign => rfl
  | _ => cases stores

section

variable (dooms : DoomsStores doomed)

include dooms

set_option linter.unusedSectionVars false in
mutual

/-- A statement without doomed leaves stays as it is. -/
theorem Statement.strip_eq_self : ∀ statement : Statement,
    (∀ leaf ∈ statement.leaves, doomed leaf = false) →
      statement.mapNestedBodies (dropDoomed doomed) = statement
  | .ifStmt condition thenBody elseBody => by
    intro stays
    simp only [Statement.leaves, mem_append, or_imp, forall_and] at stays
    rw [Statement.mapNestedBodies, strip_eq_self thenBody stays.1, strip_eq_self elseBody stays.2]
  | .whileStmt condition body | .doWhile body condition | .forStmt init condition update body
  | .forOf name value body | .forIn name value body | .block body => by
    intro stays
    rw [Statement.mapNestedBodies, strip_eq_self body stays]
  | .tryCatch tryBody catchParam catchBody finallyBody => by
    intro stays
    simp only [Statement.leaves, mem_append, or_imp, forall_and] at stays
    rw [Statement.mapNestedBodies, strip_eq_self tryBody stays.1,
      strip_eq_self catchBody stays.2.1, strip_eq_self finallyBody stays.2.2]
  | .switch discriminant cases default => by
    intro stays
    simp only [Statement.leaves, mem_append, or_imp, forall_and] at stays
    rw [Statement.mapNestedBodies, stripCases_eq_self cases stays.1,
      stripDefault_eq_self default stays.2]
  | .expr _ | .letStmt _ _ _ | .assign _ _ | .delete _ _ | .returnStmt _ | .throwStmt _ | .debugger
  | .comment _ | .breakStmt _ | .continueStmt _ | .goto _ | .condGoto _ _ _ | .classStmt _ _ _ _ =>
    fun _ => rfl

theorem strip_eq_self : ∀ body,
    (∀ leaf ∈ leavesOfAll body, doomed leaf = false) →
      dropDoomed doomed (mapNestedAll (dropDoomed doomed) body) = body
  | [] => fun _ => rfl
  | first :: rest => by
    intro stays
    simp only [leavesOfAll, mem_append, or_imp, forall_and] at stays
    have kept : doomed first = false := by
      rw [Bool.eq_false_iff]
      intro goes
      have alone := stays.1 first
      simp [leaves_of_storedPlace (dooms first goes), goes] at alone
    rw [mapNestedAll, dropDoomed_cons, first.strip_eq_self stays.1, strip_eq_self rest stays.2]
    simp [dropDoomed, kept]

theorem stripCases_eq_self :
    ∀ cases, (∀ leaf ∈ leavesOfCases cases, doomed leaf = false) →
      mapNestedCases (dropDoomed doomed) cases = cases
  | [] => fun _ => rfl
  | (test, body) :: rest => by
    intro stays
    simp only [leavesOfCases, mem_append, or_imp, forall_and] at stays
    rw [mapNestedCases, strip_eq_self body stays.1, stripCases_eq_self rest stays.2]

theorem stripDefault_eq_self :
    ∀ default, (∀ leaf ∈ leavesOfDefault default, doomed leaf = false) →
      mapNestedDefault (dropDoomed doomed) default = default
  | none => fun _ => rfl
  | some body => by
    intro stays
    rw [mapNestedDefault, strip_eq_self body stays]

end

end

end

section

variable (keep : List String) (body : List Statement)

end

end HermesDecomp.Ir
