import HermesDecomp.Ir.NestedBodies
import HermesDecomp.Ir.Registers

/-!
# Bindings that become constant

A `let` whose name the pass sees no assignment to becomes a `const`. What the pass looks at is the
assignment statements of a list. A binding may be written elsewhere in its scope: by an assignment
inside an expression, by the rest of a pattern, by the head of a loop, in a method of a class.
-/

namespace HermesDecomp.Ir

mutual

/-- The variables an assignment stores to, as far as the pass looks into its target. -/
def AssignTarget.collectAssigned : AssignTarget → List String
  | .binding (.variable name) => [name.name]
  | .destructuringObject properties => collectAssignedFields properties
  | .destructuringArray elements => collectAssignedItems elements
  | .rest target => target.collectAssigned
  | _ => []

def collectAssignedFields : List (String × AssignTarget × Option Expression) → List String
  | [] => []
  | (_, target, _) :: rest => target.collectAssigned ++ collectAssignedFields rest

def collectAssignedItems : List (Option (AssignTarget × Option Expression)) → List String
  | [] => []
  | none :: rest => collectAssignedItems rest
  | some (target, _) :: rest => target.collectAssigned ++ collectAssignedItems rest

end

mutual

/-- The variables the assignment statements of a statement store to. -/
def Statement.collectAssignments : Statement → List String
  | .assign target _ => target.collectAssigned
  | .ifStmt _ thenBody elseBody => collectAssignments thenBody ++ collectAssignments elseBody
  | .whileStmt _ body | .doWhile body _ | .forIn _ _ body | .forOf _ _ body | .block body =>
      collectAssignments body
  | .forStmt init _ update body =>
      collectAssignmentsOption init ++ (collectAssignmentsOption update ++ collectAssignments body)
  | .tryCatch tryBody _ catchBody finallyBody =>
      collectAssignments tryBody ++ (collectAssignments catchBody ++ collectAssignments finallyBody)
  | .switch _ cases default => collectAssignmentsCases cases ++ collectAssignmentsDefault default
  | .classStmt _ _ constructor _ => collectAssignmentsOption constructor
  | _ => []

def collectAssignments : List Statement → List String
  | [] => []
  | first :: rest => first.collectAssignments ++ collectAssignments rest

def collectAssignmentsOption : Option Statement → List String
  | none => []
  | some statement => statement.collectAssignments

def collectAssignmentsDefault : Option (List Statement) → List String
  | none => []
  | some body => collectAssignments body

def collectAssignmentsCases : List (Expression × List Statement) → List String
  | [] => []
  | (_, body) :: rest => collectAssignments body ++ collectAssignmentsCases rest

end

/-- The kind of a binding behind the pass. -/
def promotedKind (assigned : List String) (name : String) (kind : VarKind) : VarKind :=
  if kind = .let ∧ name ∉ assigned then .const else kind

/-- A declaration that stands in a list is promoted. -/
def promote (assigned : List String) : Statement → Statement
  | .letStmt name value kind => .letStmt name value (promotedKind assigned name.name kind)
  | statement => statement

/-- Promote the declarations of a list and of every body inside its statements. -/
def applyConst (assigned : List String) (statements : List Statement) : List Statement :=
  (mapNestedAll (List.map (promote assigned)) statements).map (promote assigned)

/-- Promote the `let` bindings that are never reassigned to `const`. -/
def promoteConstBindings (statements : List Statement) : List Statement :=
  applyConst (collectAssignments statements) statements

/-- Collects the variables written. -/
def variablesWritten : Visitor String where
  onRead _ := []
  onWrite
    | .variable name => [name.name]
    | .register _ | .closureVar _ _ => []

/-- The name a statement declares in its list. -/
def Statement.declared? : Statement → Option String
  | .letStmt name _ _ => some name.name
  | .classStmt name _ _ _ => some name
  | _ => none

/-- The names that are not declared by the statements of a body themselves. -/
def outside (body : List Statement) (names : List String) : List String :=
  names.filter (· ∉ body.filterMap Statement.declared?)

mutual

/-- The variables of its surroundings a statement writes, wherever in it the write stands. -/
def Statement.written : Statement → List String
  | .expr expression => expression.visit variablesWritten
  | .letStmt _ value _ => value.visit variablesWritten
  | .assign target value => target.visit variablesWritten ++ value.visit variablesWritten
  | .delete target _ => target.visit variablesWritten
  | .returnStmt value => visitOption variablesWritten value
  | .throwStmt value => value.visit variablesWritten
  | .debugger | .comment _ | .breakStmt _ | .continueStmt _ | .goto _ => []
  | .condGoto condition _ _ => condition.visit variablesWritten
  | .ifStmt condition thenBody elseBody =>
      condition.visit variablesWritten ++
        (outside thenBody (writtenAll thenBody) ++ outside elseBody (writtenAll elseBody))
  | .whileStmt condition body => condition.visit variablesWritten ++ outside body (writtenAll body)
  | .doWhile body condition => outside body (writtenAll body) ++ condition.visit variablesWritten
  | .forStmt init condition update body =>
      outside init.toList (writtenOption init ++ (visitOption variablesWritten condition ++
        (writtenOption update ++ outside body (writtenAll body))))
  | .switch discriminant cases default =>
      discriminant.visit variablesWritten ++ (writtenCases cases ++ writtenDefault default)
  | .forOf name iterable body =>
      name :: (iterable.visit variablesWritten ++ outside body (writtenAll body))
  | .forIn name object body =>
      name :: (object.visit variablesWritten ++ outside body (writtenAll body))
  | .tryCatch tryBody catchParam catchBody finallyBody =>
      outside tryBody (writtenAll tryBody) ++
        ((outside catchBody (writtenAll catchBody)).filter (· ≠ catchParam.getD "e") ++
          outside finallyBody (writtenAll finallyBody))
  | .block body => outside body (writtenAll body)
  | .classStmt _ superClass constructor methods =>
      visitOption variablesWritten superClass ++ (writtenOption constructor ++ writtenMethods methods)

def writtenAll : List Statement → List String
  | [] => []
  | first :: rest => first.written ++ writtenAll rest

def writtenOption : Option Statement → List String
  | none => []
  | some statement => statement.written

def writtenDefault : Option (List Statement) → List String
  | none => []
  | some body => outside body (writtenAll body)

def writtenCases : List (Expression × List Statement) → List String
  | [] => []
  | (test, body) :: rest =>
      test.visit variablesWritten ++ (outside body (writtenAll body) ++ writtenCases rest)

def writtenMethods : List ClassMethod → List String
  | [] => []
  | .mk _ value body _ _ params :: rest =>
      value.visit variablesWritten ++
        ((writtenDefault body).filter (· ∉ params) ++ writtenMethods rest)

end

/-- A binding, with the variables that are written in its scope. -/
structure Declaration where
  name : String
  kind : VarKind
  writes : List String

/-- The binding is the target of a write in its scope. -/
def Declaration.Written (declaration : Declaration) : Prop := declaration.name ∈ declaration.writes

section Declarations

variable (elsewhere : Declaration → Prop)

mutual

/-- A property of the bindings a statement declares in a list with the given writes or in one of
its bodies, and another one of those it declares in the head of a loop or in a class. -/
def Statement.Declares (inLists : Declaration → Prop) (writes : List String) : Statement → Prop
  | .letStmt name _ kind => inLists ⟨name.name, kind, writes⟩
  | .ifStmt _ thenBody elseBody =>
      AllDeclare inLists (writtenAll thenBody) thenBody ∧
        AllDeclare inLists (writtenAll elseBody) elseBody
  | .whileStmt _ body | .doWhile body _ | .forIn _ _ body | .forOf _ _ body | .block body =>
      AllDeclare inLists (writtenAll body) body
  | .forStmt init condition update body =>
      let inHead := writtenOption init ++ (visitOption variablesWritten condition ++
        (writtenOption update ++ outside body (writtenAll body)))
      OptionDeclares inHead init ∧ OptionDeclares inHead update ∧
        AllDeclare inLists (writtenAll body) body
  | .tryCatch tryBody _ catchBody finallyBody =>
      AllDeclare inLists (writtenAll tryBody) tryBody ∧
        AllDeclare inLists (writtenAll catchBody) catchBody ∧
          AllDeclare inLists (writtenAll finallyBody) finallyBody
  | .switch _ cases default => CasesDeclare inLists cases ∧ DefaultDeclares inLists default
  | .classStmt _ _ constructor methods =>
      OptionDeclares (writtenOption constructor) constructor ∧ MethodsDeclare methods
  | _ => True

def AllDeclare (inLists : Declaration → Prop) (writes : List String) : List Statement → Prop
  | [] => True
  | first :: rest => first.Declares inLists writes ∧ AllDeclare inLists writes rest

def OptionDeclares (writes : List String) : Option Statement → Prop
  | none => True
  | some statement => statement.Declares elsewhere writes

def DefaultDeclares (inLists : Declaration → Prop) : Option (List Statement) → Prop
  | none => True
  | some body => AllDeclare inLists (writtenAll body) body

def CasesDeclare (inLists : Declaration → Prop) : List (Expression × List Statement) → Prop
  | [] => True
  | (_, body) :: rest => AllDeclare inLists (writtenAll body) body ∧ CasesDeclare inLists rest

def MethodsDeclare : List ClassMethod → Prop
  | [] => True
  | .mk _ _ body _ _ _ :: rest => DefaultDeclares elsewhere body ∧ MethodsDeclare rest

end

end Declarations

/-- The binding is not constant, or nothing in its scope writes it. -/
def Declaration.Safe (declaration : Declaration) : Prop :=
  declaration.kind = .const → ¬ declaration.Written

/-- No constant binding of a list is the target of a write in its scope. -/
def ConstSafe (statements : List Statement) : Prop :=
  AllDeclare Declaration.Safe Declaration.Safe (writtenAll statements) statements

/-- A target gives a variable a value, itself or through the plain places of a pattern. -/
inductive AssignTarget.Stores (name : String) : AssignTarget → Prop
  | variable {slot} : Stores name (.binding (.variable ⟨name, slot⟩))
  | property {properties key target fallback} : (key, target, fallback) ∈ properties →
      Stores name target → Stores name (.destructuringObject properties)
  | element {elements target fallback} : some (target, fallback) ∈ elements →
      Stores name target → Stores name (.destructuringArray elements)
  | rest {target} : Stores name target → Stores name (.rest target)

/-- The bodies of a statement. The parts of the head of a loop and the constructor of a class
count among them, its methods do not. -/
def Statement.bodies : Statement → List (List Statement)
  | .ifStmt _ thenBody elseBody => [thenBody, elseBody]
  | .whileStmt _ body | .doWhile body _ | .forIn _ _ body | .forOf _ _ body | .block body => [body]
  | .forStmt init _ update body => [init.toList, update.toList, body]
  | .tryCatch tryBody _ catchBody finallyBody => [tryBody, catchBody, finallyBody]
  | .switch _ cases default => cases.map Prod.snd ++ default.toList
  | .classStmt _ _ constructor _ => [constructor.toList]
  | _ => []

/-- A statement is or contains an assignment statement that gives a variable a value. -/
inductive Statement.Reassigns (name : String) : Statement → Prop
  | assigns {target value} : target.Stores name → Reassigns name (.assign target value)
  | inside {statement body inner} : body ∈ statement.bodies → inner ∈ body →
      Reassigns name inner → Reassigns name statement

/-- A binding of a list that may be promoted: it is not written while it is constant already, and
a `let` that is written is given a value by an assignment statement somewhere. -/
structure Declaration.Promotable (statements : List Statement) (declaration : Declaration) :
    Prop where
  constant : declaration.Safe
  reassigned : declaration.kind = .let → declaration.Written →
    ∃ statement ∈ statements, statement.Reassigns declaration.name

section

variable {name : String}

mutual

theorem AssignTarget.mem_collectAssigned : ∀ target : AssignTarget,
    name ∈ target.collectAssigned ↔ target.Stores name
  | .binding (.variable variableName) => by
    rw [AssignTarget.collectAssigned, List.mem_singleton]
    constructor
    · rintro rfl
      exact .variable
    · rintro ⟨⟩
      rfl
  | .destructuringObject properties => by
    rw [AssignTarget.collectAssigned, mem_collectAssignedFields properties]
    constructor
    · rintro ⟨⟨key, target, fallback⟩, member, stores⟩
      exact .property member stores
    · rintro (_ | ⟨member, stores⟩)
      exact ⟨_, member, stores⟩
  | .destructuringArray elements => by
    rw [AssignTarget.collectAssigned, mem_collectAssignedItems elements]
    constructor
    · rintro ⟨⟨target, fallback⟩, member, stores⟩
      exact .element member stores
    · rintro (_ | _ | ⟨member, stores⟩)
      exact ⟨_, member, stores⟩
  | .rest target => by
    rw [AssignTarget.collectAssigned, target.mem_collectAssigned]
    constructor
    · exact .rest
    · rintro (_ | _ | _ | stores)
      exact stores
  | .binding (.register _) | .binding (.closureVar _ _) | .member _ _ | .index _ _
  | .destructuringArrayRest _ _ | .destructuringObjectRest _ _ => by
    simp only [AssignTarget.collectAssigned, List.not_mem_nil, false_iff]
    rintro ⟨⟩

theorem mem_collectAssignedFields : ∀ properties, name ∈ collectAssignedFields properties ↔
      ∃ property ∈ properties, property.2.1.Stores name
  | [] => by simp [collectAssignedFields]
  | (key, target, fallback) :: rest => by
    simp [collectAssignedFields, target.mem_collectAssigned, mem_collectAssignedFields rest]

theorem mem_collectAssignedItems : ∀ elements, name ∈ collectAssignedItems elements ↔
      ∃ element, some element ∈ elements ∧ element.1.Stores name
  | [] => by simp [collectAssignedItems]
  | none :: rest => by simp [collectAssignedItems, mem_collectAssignedItems rest]
  | some (target, fallback) :: rest => by
    simp [collectAssignedItems, target.mem_collectAssigned, mem_collectAssignedItems rest,
      or_and_right, exists_or]

end

theorem Statement.reassigns_iff {statement : Statement} : statement.Reassigns name ↔
    (∃ target value, statement = .assign target value ∧ target.Stores name) ∨
      ∃ body ∈ statement.bodies, ∃ inner ∈ body, inner.Reassigns name := by
  constructor
  · rintro (stores | ⟨member, inner, reassigns⟩)
    · exact .inl ⟨_, _, rfl, stores⟩
    · exact .inr ⟨_, member, _, inner, reassigns⟩
  · rintro (⟨target, value, rfl, stores⟩ | ⟨body, member, inner, isInner, reassigns⟩)
    · exact .assigns stores
    · exact .inside member isInner reassigns

mutual

theorem Statement.mem_collectAssignments : ∀ statement : Statement,
    name ∈ statement.collectAssignments ↔ statement.Reassigns name
  | .assign target value => by
    rw [Statement.reassigns_iff]
    simp [Statement.collectAssignments, Statement.bodies, target.mem_collectAssigned]
  | .ifStmt _ thenBody elseBody => by
    rw [Statement.reassigns_iff]
    simp [Statement.collectAssignments, Statement.bodies, mem_collectAssignments thenBody,
      mem_collectAssignments elseBody]
  | .whileStmt _ body | .doWhile body _ | .forIn _ _ body | .forOf _ _ body | .block body => by
    rw [Statement.reassigns_iff]
    simp [Statement.collectAssignments, Statement.bodies, mem_collectAssignments body]
  | .forStmt init _ update body => by
    rw [Statement.reassigns_iff]
    simp [Statement.collectAssignments, Statement.bodies, mem_collectAssignmentsOption init,
      mem_collectAssignmentsOption update, mem_collectAssignments body]
  | .tryCatch tryBody _ catchBody finallyBody => by
    rw [Statement.reassigns_iff]
    simp [Statement.collectAssignments, Statement.bodies, mem_collectAssignments tryBody,
      mem_collectAssignments catchBody, mem_collectAssignments finallyBody]
  | .switch _ cases default => by
    rw [Statement.reassigns_iff]
    simp [Statement.collectAssignments, Statement.bodies, mem_collectAssignmentsCases cases,
      mem_collectAssignmentsDefault default, or_and_right, exists_or]
  | .classStmt _ _ constructor _ => by
    rw [Statement.reassigns_iff]
    simp [Statement.collectAssignments, Statement.bodies, mem_collectAssignmentsOption constructor]
  | .expr _ | .letStmt _ _ _ | .delete _ _ | .returnStmt _ | .throwStmt _ | .debugger
  | .comment _ | .breakStmt _ | .continueStmt _ | .goto _ | .condGoto _ _ _ => by
    rw [Statement.reassigns_iff]
    simp [Statement.collectAssignments, Statement.bodies]

theorem mem_collectAssignments : ∀ statements,
    name ∈ collectAssignments statements ↔ ∃ statement ∈ statements, statement.Reassigns name
  | [] => by simp [collectAssignments]
  | first :: rest => by
    simp [collectAssignments, first.mem_collectAssignments, mem_collectAssignments rest]

theorem mem_collectAssignmentsOption : ∀ statement, name ∈ collectAssignmentsOption statement ↔
      ∃ inner, statement = some inner ∧ inner.Reassigns name
  | none => by simp [collectAssignmentsOption]
  | some statement => by simp [collectAssignmentsOption, statement.mem_collectAssignments]

theorem mem_collectAssignmentsDefault : ∀ default, name ∈ collectAssignmentsDefault default ↔
      ∃ body, default = some body ∧ ∃ statement ∈ body, statement.Reassigns name
  | none => by simp [collectAssignmentsDefault]
  | some body => by simp [collectAssignmentsDefault, mem_collectAssignments body]

theorem mem_collectAssignmentsCases : ∀ cases, name ∈ collectAssignmentsCases cases ↔
      ∃ body, (∃ test, (test, body) ∈ cases) ∧ ∃ statement ∈ body, statement.Reassigns name
  | [] => by simp [collectAssignmentsCases]
  | (test, body) :: rest => by
    simp [collectAssignmentsCases, mem_collectAssignments body, mem_collectAssignmentsCases rest,
      or_and_right, exists_or]

end

end

section

variable {assigned : List String}

theorem mapNestedAll_promote (body : List Statement) :
    (mapNestedAll (List.map (promote assigned)) body).map (promote assigned) =
      applyConst assigned body := rfl

theorem declared_promote (statement : Statement) :
    (promote assigned (statement.mapNestedBodies (List.map (promote assigned)))).declared? =
      statement.declared? := by
  cases statement <;> rfl

/-- A promoted body declares the same names. -/
theorem outside_applyConst (names : List String) : ∀ body,
    outside (applyConst assigned body) names = outside body names := by
  suffices same : ∀ body, (applyConst assigned body).filterMap Statement.declared? =
      body.filterMap Statement.declared? by
    intro body
    rw [outside, same, outside]
  intro body
  induction body with
  | nil => rfl
  | cons first rest ih =>
    calc (applyConst assigned (first :: rest)).filterMap Statement.declared?
        = ((promote assigned (first.mapNestedBodies (List.map (promote assigned)))) ::
            applyConst assigned rest).filterMap Statement.declared? := rfl
      _ = (first :: rest).filterMap Statement.declared? := by
        rw [List.filterMap_cons, List.filterMap_cons, declared_promote, ih]

mutual

/-- The pass changes no write. -/
theorem Statement.written_promote : ∀ statement : Statement,
    (promote assigned (statement.mapNestedBodies (List.map (promote assigned)))).written =
      statement.written
  | .ifStmt condition thenBody elseBody => by
    simp only [Statement.mapNestedBodies, promote, Statement.written, mapNestedAll_promote,
      outside_applyConst, writtenAll_applyConst thenBody, writtenAll_applyConst elseBody]
  | .whileStmt condition body | .doWhile body condition | .forIn name object body
  | .forOf name iterable body | .block body | .forStmt init condition update body => by
    simp only [Statement.mapNestedBodies, promote, Statement.written, mapNestedAll_promote,
      outside_applyConst, writtenAll_applyConst body]
  | .tryCatch tryBody catchParam catchBody finallyBody => by
    simp only [Statement.mapNestedBodies, promote, Statement.written, mapNestedAll_promote,
      outside_applyConst, writtenAll_applyConst tryBody, writtenAll_applyConst catchBody,
      writtenAll_applyConst finallyBody]
  | .switch discriminant cases default => by
    simp only [Statement.mapNestedBodies, promote, Statement.written, writtenCases_applyConst cases,
      writtenDefault_applyConst default]
  | .expr _ | .letStmt _ _ _ | .assign _ _ | .delete _ _ | .returnStmt _ | .throwStmt _ | .debugger
  | .comment _ | .breakStmt _ | .continueStmt _ | .goto _ | .condGoto _ _ _ | .classStmt _ _ _ _ =>
    rfl

theorem writtenAll_applyConst : ∀ statements,
    writtenAll (applyConst assigned statements) = writtenAll statements
  | [] => rfl
  | first :: rest => congrArg₂ (· ++ ·) first.written_promote (writtenAll_applyConst rest)

theorem writtenDefault_applyConst : ∀ default,
    writtenDefault (mapNestedDefault (List.map (promote assigned)) default) = writtenDefault default
  | none => rfl
  | some body => by
    simp only [mapNestedDefault, writtenDefault, mapNestedAll_promote, outside_applyConst,
      writtenAll_applyConst body]

theorem writtenCases_applyConst : ∀ cases,
    writtenCases (mapNestedCases (List.map (promote assigned)) cases) = writtenCases cases
  | [] => rfl
  | (test, body) :: rest => by
    simp only [mapNestedCases, writtenCases, mapNestedAll_promote, outside_applyConst,
      writtenAll_applyConst body, writtenCases_applyConst rest]

end

/-- A binding behind the pass. -/
def Declaration.promoted (assigned : List String) (declaration : Declaration) : Declaration :=
  { declaration with kind := promotedKind assigned declaration.name declaration.kind }

variable {elsewhere inLists : Declaration → Prop}

mutual

/-- What holds of the bindings behind the pass held of them as they are promoted. -/
theorem Statement.declares_promote (writes : List String) : ∀ statement : Statement,
    (promote assigned (statement.mapNestedBodies (List.map (promote assigned)))).Declares elsewhere
        inLists writes =
      statement.Declares elsewhere (fun declaration => inLists (declaration.promoted assigned))
        writes
  | .ifStmt condition thenBody elseBody => by
    simp only [Statement.mapNestedBodies, promote, Statement.Declares, mapNestedAll_promote,
      writtenAll_applyConst, allDeclare_applyConst _ thenBody, allDeclare_applyConst _ elseBody]
  | .whileStmt condition body | .doWhile body condition | .forIn name object body
  | .forOf name iterable body | .block body | .forStmt init condition update body => by
    simp only [Statement.mapNestedBodies, promote, Statement.Declares, mapNestedAll_promote,
      outside_applyConst, writtenAll_applyConst, allDeclare_applyConst _ body]
  | .tryCatch tryBody catchParam catchBody finallyBody => by
    simp only [Statement.mapNestedBodies, promote, Statement.Declares, mapNestedAll_promote,
      writtenAll_applyConst, allDeclare_applyConst _ tryBody, allDeclare_applyConst _ catchBody,
      allDeclare_applyConst _ finallyBody]
  | .switch discriminant cases default => by
    simp only [Statement.mapNestedBodies, promote, Statement.Declares,
      casesDeclare_applyConst cases, defaultDeclares_applyConst default]
  | .expr _ | .letStmt _ _ _ | .assign _ _ | .delete _ _ | .returnStmt _ | .throwStmt _ | .debugger
  | .comment _ | .breakStmt _ | .continueStmt _ | .goto _ | .condGoto _ _ _ | .classStmt _ _ _ _ =>
    rfl

theorem allDeclare_applyConst (writes : List String) : ∀ statements,
    AllDeclare elsewhere inLists writes (applyConst assigned statements) =
      AllDeclare elsewhere (fun declaration => inLists (declaration.promoted assigned)) writes
        statements
  | [] => rfl
  | first :: rest =>
    congrArg₂ And (first.declares_promote writes) (allDeclare_applyConst writes rest)

theorem defaultDeclares_applyConst : ∀ default,
    DefaultDeclares elsewhere inLists (mapNestedDefault (List.map (promote assigned)) default) =
      DefaultDeclares elsewhere (fun declaration => inLists (declaration.promoted assigned)) default
  | none => rfl
  | some body => by
    simp only [mapNestedDefault, DefaultDeclares, mapNestedAll_promote, writtenAll_applyConst,
      allDeclare_applyConst _ body]

theorem casesDeclare_applyConst : ∀ cases,
    CasesDeclare elsewhere inLists (mapNestedCases (List.map (promote assigned)) cases) =
      CasesDeclare elsewhere (fun declaration => inLists (declaration.promoted assigned)) cases
  | [] => rfl
  | (test, body) :: rest => by
    simp only [mapNestedCases, CasesDeclare, mapNestedAll_promote, writtenAll_applyConst,
      allDeclare_applyConst _ body, casesDeclare_applyConst rest]

end

end

/-- A promoted binding is safe where it may be promoted. -/
theorem safe_promoted_iff {statements : List Statement} {declaration : Declaration} :
    (declaration.promoted (collectAssignments statements)).Safe ↔
      declaration.Promotable statements := by
  have reassigned : declaration.name ∈ collectAssignments statements ↔
      ∃ statement ∈ statements, statement.Reassigns declaration.name :=
    mem_collectAssignments statements
  obtain ⟨name, kind, writes⟩ := declaration
  constructor
  · intro safe
    constructor
    · rintro rfl
      exact safe rfl
    · rintro rfl written
      by_contra unassigned
      apply safe _ written
      exact if_pos ⟨rfl, mt reassigned.mp unassigned⟩
  · rintro ⟨constant, assigns⟩ isConst written
    change promotedKind _ name kind = .const at isConst
    rw [promotedKind] at isConst
    split at isConst
    next promotes => exact promotes.2 (reassigned.mpr (assigns promotes.1 written))
    next => exact constant isConst written

/-- No constant binding is written in its scope behind the pass exactly when none was before and
every `let` of a list that is written in its scope is given a value by an assignment statement. -/
theorem constSafe_promoteConstBindings_iff (statements : List Statement) :
    ConstSafe (promoteConstBindings statements) ↔
      AllDeclare Declaration.Safe (Declaration.Promotable statements) (writtenAll statements)
        statements := by
  rw [ConstSafe, promoteConstBindings, writtenAll_applyConst, allDeclare_applyConst]
  simp only [safe_promoted_iff]

/-- A variable that an argument of a call is assigned to. -/
def assignedInArgument : List Statement :=
  [.letStmt ⟨"x", none⟩ (.value (.constant (.integer 1))) .let,
    .expr (.call (.register 0)
      [.assignment (.binding (.variable ⟨"x", none⟩)) (.value (.constant (.integer 2)))])]

theorem assignedInArgument_promoted : ¬ ConstSafe (promoteConstBindings assignedInArgument) := by
  rintro ⟨safe, _⟩
  exact safe rfl (List.mem_singleton.mpr rfl)

end HermesDecomp.Ir
