import HermesDecomp.Ir.Calls

/-!
# Places assigned once

The table of definitions is the assignments of the body, counted one after the other. A
place that is assigned once, from a member, is a method with the object of that member.
-/

namespace HermesDecomp.Ir

/-- Whether a property is spelled by a name, bare or quoted. -/
def PropertyKey.isNamed (text : String) : PropertyKey → Bool
  | .ident name => name == text
  | .string name => name == text
  | _ => false

def mentionsHermesInternal : Expression → Bool
  | .value (.binding (.variable name)) => name.name == "HermesInternal"
  | .member object property _ => property.isNamed "HermesInternal" || mentionsHermesInternal object
  | _ => false

/-- `HermesInternal.concat` takes operands and no receiver. -/
def isHermesInternalConcat : Expression → Bool
  | .member object property _ => property.isNamed "concat" && mentionsHermesInternal object
  | _ => false

/-- `Object.create`, however the global `Object` is spelled. -/
def isObjectCreate : Expression → Bool
  | .member object property _ =>
      property.isNamed "create" &&
        match object with
        | .value (.binding (.variable name)) => name.name == "Object"
        | .member _ property _ => property.isNamed "Object"
        | _ => false
  | _ => false

/-- `[...arguments].slice`, the start of a rest parameter. -/
def isRestArgsSlice : Expression → Bool
  | .member (.array [some (.spread (.value (.binding (.variable name))))]) (.ident "slice") _ =>
      name.name == "arguments"
  | _ => false

def Expression.isSpread : Expression → Bool
  | .spread _ => true
  | _ => false

/-- Whether the first argument of a call is an argument and no receiver. -/
def keepsFirst (callee first : Expression) (rest : List Expression) : Bool :=
  isHermesInternalConcat callee || rest.isEmpty && isObjectCreate callee ||
    rest.isEmpty && isRestArgsSlice callee || first.isSpread

/-- The object of a member read. -/
def Expression.memberObject? : Expression → Option Expression
  | .member base _ _ => some base
  | _ => none

/-- How often each place is assigned, with the object of the member read its first
assignment makes. -/
abbrev Defs := List (Binding × Nat × Option Expression)

/-- Count an assignment. -/
def Defs.note (place : Binding) (value : Expression) : Defs → Defs
  | [] => [(place, 1, value.memberObject?)]
  | (first, count, object) :: rest =>
      if first == place then (first, count + 1, object) :: rest
      else (first, count, object) :: Defs.note place value rest

mutual

/-- Count the assignments of a statement. -/
def Statement.noteDefs (defs : Defs) : Statement → Defs
  | .assign (.binding place) value => defs.note place value
  | .letStmt name value _ => defs.note (.variable name) value
  | .ifStmt _ thenBody elseBody => noteDefsAll (noteDefsAll defs thenBody) elseBody
  | .whileStmt _ body => noteDefsAll defs body
  | .doWhile body _ => noteDefsAll defs body
  | .forStmt init _ update body =>
      noteDefsAll (noteDefsOption (noteDefsOption defs init) update) body
  | .switch _ cases default => noteDefsDefault (noteDefsCases defs cases) default
  | .forOf _ _ body => noteDefsAll defs body
  | .forIn _ _ body => noteDefsAll defs body
  | .tryCatch tryBody _ catchBody finallyBody =>
      noteDefsAll (noteDefsAll (noteDefsAll defs tryBody) catchBody) finallyBody
  | .block body => noteDefsAll defs body
  | _ => defs

def noteDefsAll (defs : Defs) : List Statement → Defs
  | [] => defs
  | first :: rest => noteDefsAll (first.noteDefs defs) rest

def noteDefsOption (defs : Defs) : Option Statement → Defs
  | none => defs
  | some statement => statement.noteDefs defs

def noteDefsDefault (defs : Defs) : Option (List Statement) → Defs
  | none => defs
  | some body => noteDefsAll defs body

def noteDefsCases (defs : Defs) : List (Expression × List Statement) → Defs
  | [] => defs
  | (_, body) :: rest => noteDefsCases (noteDefsAll defs body) rest

end

/-- The places assigned once, from a member read, with the object of the read. -/
def Defs.methods (defs : Defs) : List (Binding × Expression) :=
  defs.filterMap fun entry => if entry.2.1 = 1 then entry.2.2.map (entry.1, ·) else none

/-- The object a place was read off. -/
def methodObject? (methods : List (Binding × Expression)) (place : Binding) : Option Expression :=
  (methods.find? (·.1 == place)).map (·.2)

/-- The function a call through `call` is made with. -/
def throughCall (callee : Expression) : Expression := .member callee (.ident "call") false

/-- A call through a method read off its receiver names the receiver. -/
def keepCall (methods : List (Binding × Expression)) (callee : Expression)
    (arguments : List Expression) : Expression :=
  match callee, arguments with
  | .value (.binding place), first :: rest =>
      if (methodObject? methods place).any (·.same first) then
        .call (throughCall callee) (callee :: first :: rest)
      else .call callee (first :: rest)
  | _, _ => .call callee arguments

def keepMethodReceivers (statements : List Statement) : List Statement :=
  let methods := (noteDefsAll [] statements).methods
  if methods.isEmpty then statements
  else rewriteCallsStatements (keepCall methods) statements

/-- Whether the receiver of a call goes. -/
def shouldStrip (callee first : Expression) : Bool :=
  match callee with
  | .member object property _ =>
      match property with
      | .ident "call" => true
      | _ => if object.same first then true else true
  | _ => true

/-- What becomes of a call whose parts are stripped. -/
def stripCall (callee : Expression) : List Expression → Expression
  | [] => .call callee []
  | first :: rest =>
      if isHermesInternalConcat callee then .call callee (first :: rest)
      else if rest.isEmpty && isObjectCreate callee then .call callee (first :: rest)
      else if rest.isEmpty && isRestArgsSlice callee then .call callee (first :: rest)
      else if first.isSpread then .call callee (first :: rest)
      else if shouldStrip callee first then .call callee rest
      else .call callee (first :: rest)

mutual

def Expression.stripThis : Expression → Expression
  | .call callee arguments => stripCall callee.stripThis (stripThisAll arguments)
  | .binary op left right => .binary op left.stripThis right.stripThis
  | .unary op operand => .unary op operand.stripThis
  | .new callee arguments => .new callee.stripThis (stripThisAll arguments)
  | .member object property optional => .member object.stripThis property optional
  | .conditional condition thenExpr elseExpr =>
      .conditional condition.stripThis thenExpr.stripThis elseExpr.stripThis
  | .array elements => .array (stripThisElements elements)
  | .object properties => .object (stripThisProperties properties)
  | .assignment target value => .assignment target.stripExpressions value.stripThis
  | .spread operand => .spread operand.stripThis
  | .templateLiteral quasis expressions => .templateLiteral quasis (stripThisAll expressions)
  | .yield value delegate => .yield value.stripThis delegate
  | .await operand => .await operand.stripThis
  | .value value => .value value
  | .function id name isArrow isAsync isGenerator => .function id name isArrow isAsync isGenerator
  | .regExp pattern flags => .regExp pattern flags
  | .jsxElement tag attributes children => .jsxElement tag attributes children
  | .unknown opcode operands => .unknown opcode operands

def stripThisAll : List Expression → List Expression
  | [] => []
  | first :: rest => first.stripThis :: stripThisAll rest

def stripThisElements : List (Option Expression) → List (Option Expression)
  | [] => []
  | none :: rest => none :: stripThisElements rest
  | some first :: rest => some first.stripThis :: stripThisElements rest

/-- The values are visited, the keys are not. -/
def stripThisProperties : List ObjectProperty → List ObjectProperty
  | [] => []
  | .mk key value :: rest => .mk key value.stripThis :: stripThisProperties rest

/-- Visit the expressions of the target of an assignment expression. -/
def AssignTarget.stripExpressions : AssignTarget → AssignTarget
  | .binding binding => .binding binding
  | .member object property => .member object.stripThis property
  | .index object key => .index object.stripThis key.stripThis
  | .destructuringArray elements => .destructuringArray (stripThisItems elements)
  | .destructuringArrayRest elements rest =>
      .destructuringArrayRest (stripThisItems elements) rest.stripExpressions
  | .destructuringObject properties => .destructuringObject (stripThisFields properties)
  | .destructuringObjectRest properties rest =>
      .destructuringObjectRest (stripThisFields properties) rest.stripExpressions
  | .rest target => .rest target.stripExpressions

def stripThisItems : List (Option (AssignTarget × Option Expression)) →
    List (Option (AssignTarget × Option Expression))
  | [] => []
  | none :: rest => none :: stripThisItems rest
  | some (target, none) :: rest => some (target.stripExpressions, none) :: stripThisItems rest
  | some (target, some fallback) :: rest =>
      some (target.stripExpressions, some fallback.stripThis) :: stripThisItems rest

def stripThisFields : List (String × AssignTarget × Option Expression) →
    List (String × AssignTarget × Option Expression)
  | [] => []
  | (key, target, none) :: rest => (key, target.stripExpressions, none) :: stripThisFields rest
  | (key, target, some fallback) :: rest =>
      (key, target.stripExpressions, some fallback.stripThis) :: stripThisFields rest

end

/-- Visit the target of an assignment statement. Patterns are left as they are. -/
def AssignTarget.stripThis : AssignTarget → AssignTarget
  | .member object property => .member object.stripThis property
  | .index object key => .index object.stripThis key.stripThis
  | target => target

mutual

def Statement.stripThis : Statement → Statement
  | .assign target value => .assign target.stripThis value.stripThis
  | .letStmt name value kind => .letStmt name value.stripThis kind
  | .expr expression => .expr expression.stripThis
  | .returnStmt value => .returnStmt (value.map (·.stripThis))
  | .throwStmt value => .throwStmt value.stripThis
  | .ifStmt condition thenBody elseBody =>
      .ifStmt condition.stripThis (stripList thenBody) (stripList elseBody)
  | .whileStmt condition body => .whileStmt condition.stripThis (stripList body)
  | .doWhile body condition => .doWhile (stripList body) condition.stripThis
  | .forStmt init condition update body =>
      .forStmt (stripOption init) (condition.map (·.stripThis)) (stripOption update)
        (stripList body)
  | .forIn name object body => .forIn name object.stripThis (stripList body)
  | .forOf name iterable body => .forOf name iterable.stripThis (stripList body)
  | .block body => .block (stripList body)
  | .tryCatch tryBody catchParam catchBody finallyBody =>
      .tryCatch (stripList tryBody) catchParam (stripList catchBody) (stripList finallyBody)
  | .switch discriminant cases default =>
      .switch discriminant.stripThis (stripCases cases) (stripDefault default)
  | .delete target result => .delete target result
  | .debugger => .debugger
  | .comment text => .comment text
  | .breakStmt label => .breakStmt label
  | .continueStmt label => .continueStmt label
  | .goto target => .goto target
  | .condGoto condition target fallthrough => .condGoto condition target fallthrough
  | .classStmt name superClass constructor methods => .classStmt name superClass constructor methods

def stripList : List Statement → List Statement
  | [] => []
  | first :: rest => first.stripThis :: stripList rest

def stripOption : Option Statement → Option Statement
  | none => none
  | some statement => some statement.stripThis

def stripDefault : Option (List Statement) → Option (List Statement)
  | none => none
  | some body => some (stripList body)

def stripCases : List (Expression × List Statement) → List (Expression × List Statement)
  | [] => []
  | (test, body) :: rest => (test.stripThis, stripList body) :: stripCases rest

end

/-- Strip the receivers of a body. -/
def stripHermesThis (statements : List Statement) : List Statement :=
  stripList (keepMethodReceivers statements)

/-- What the equality of places compares. -/
def Binding.identity : Binding → Nat ⊕ String ⊕ Nat × Nat
  | .register number => .inl number
  | .variable name => .inr (.inl name.name)
  | .closureVar level slot => .inr (.inr (level, slot))

theorem Binding.beq_iff (left right : Binding) :
    (left == right) = true ↔ left.identity = right.identity := by
  obtain _ | _ | _ := left <;> obtain _ | _ | _ := right <;>
    simp [identity, BEq.beq, instBEqBinding.beq]

theorem Binding.beq_congr {left right : Binding} (equal : (left == right) = true)
    (other : Binding) : (left == other) = (right == other) := by
  rw [Bool.eq_iff_iff, Binding.beq_iff, Binding.beq_iff, (Binding.beq_iff left right).mp equal]

mutual

/-- The assignments to places a statement makes, in the order of the walk. -/
def Statement.assignments : Statement → List (Binding × Expression)
  | .assign (.binding place) value => [(place, value)]
  | .letStmt name value _ => [(.variable name, value)]
  | .ifStmt _ thenBody elseBody => assignmentsAll thenBody ++ assignmentsAll elseBody
  | .whileStmt _ body => assignmentsAll body
  | .doWhile body _ => assignmentsAll body
  | .forStmt init _ update body =>
      assignmentsOption init ++ assignmentsOption update ++ assignmentsAll body
  | .switch _ cases default => assignmentsCases cases ++ assignmentsDefault default
  | .forOf _ _ body => assignmentsAll body
  | .forIn _ _ body => assignmentsAll body
  | .tryCatch tryBody _ catchBody finallyBody =>
      assignmentsAll tryBody ++ assignmentsAll catchBody ++ assignmentsAll finallyBody
  | .block body => assignmentsAll body
  | _ => []

def assignmentsAll : List Statement → List (Binding × Expression)
  | [] => []
  | first :: rest => first.assignments ++ assignmentsAll rest

def assignmentsOption : Option Statement → List (Binding × Expression)
  | none => []
  | some statement => statement.assignments

def assignmentsDefault : Option (List Statement) → List (Binding × Expression)
  | none => []
  | some body => assignmentsAll body

def assignmentsCases : List (Expression × List Statement) → List (Binding × Expression)
  | [] => []
  | (_, body) :: rest => assignmentsAll body ++ assignmentsCases rest

end

/-- Count assignments one after the other. -/
def Defs.noteAll (defs : Defs) (assignments : List (Binding × Expression)) : Defs :=
  assignments.foldl (fun defs assignment => defs.note assignment.1 assignment.2) defs

theorem Defs.noteAll_append (defs : Defs) (first second : List (Binding × Expression)) :
    defs.noteAll (first ++ second) = (defs.noteAll first).noteAll second := List.foldl_append

mutual

theorem Statement.noteDefs_eq : ∀ (statement : Statement) (defs : Defs),
    statement.noteDefs defs = defs.noteAll statement.assignments
  | .assign (.binding place) value, defs | .letStmt name value kind, defs
  | .assign (.member ..) value, defs | .assign (.index ..) value, defs
  | .assign (.destructuringArray ..) value, defs
  | .assign (.destructuringArrayRest ..) value, defs
  | .assign (.destructuringObject ..) value, defs
  | .assign (.destructuringObjectRest ..) value, defs | .assign (.rest ..) value, defs
  | .expr expression, defs | .delete target result, defs | .returnStmt value, defs
  | .throwStmt value, defs | .debugger, defs | .comment text, defs | .breakStmt label, defs
  | .continueStmt label, defs | .goto target, defs
  | .condGoto condition target fallthrough, defs
  | .classStmt name superClass constructor methods, defs => rfl
  | .ifStmt condition thenBody elseBody, defs => by
    simp [Statement.noteDefs, Statement.assignments, Defs.noteAll_append, noteDefsAll_eq thenBody,
      noteDefsAll_eq elseBody]
  | .whileStmt condition body, defs | .doWhile body condition, defs
  | .forOf name iterable body, defs | .forIn name base body, defs | .block body, defs => noteDefsAll_eq body defs
  | .forStmt init condition update body, defs => by
    simp [Statement.noteDefs, Statement.assignments, Defs.noteAll_append, noteDefsOption_eq init,
      noteDefsOption_eq update, noteDefsAll_eq body]
  | .switch discriminant cases default, defs => by
    simp [Statement.noteDefs, Statement.assignments, Defs.noteAll_append, noteDefsCases_eq cases,
      noteDefsDefault_eq default]
  | .tryCatch tryBody catchParam catchBody finallyBody, defs => by
    simp [Statement.noteDefs, Statement.assignments, Defs.noteAll_append, noteDefsAll_eq tryBody,
      noteDefsAll_eq catchBody, noteDefsAll_eq finallyBody]

theorem noteDefsAll_eq : ∀ (statements : List Statement) (defs : Defs),
    noteDefsAll defs statements = defs.noteAll (assignmentsAll statements)
  | [], _ => rfl
  | first :: rest, defs => by
    rw [noteDefsAll, assignmentsAll, Defs.noteAll_append, first.noteDefs_eq, noteDefsAll_eq rest]

theorem noteDefsOption_eq : ∀ (statement : Option Statement) (defs : Defs),
    noteDefsOption defs statement = defs.noteAll (assignmentsOption statement)
  | none, _ => rfl
  | some statement, defs => statement.noteDefs_eq defs

theorem noteDefsDefault_eq : ∀ (default : Option (List Statement)) (defs : Defs),
    noteDefsDefault defs default = defs.noteAll (assignmentsDefault default)
  | none, _ => rfl
  | some body, defs => noteDefsAll_eq body defs

theorem noteDefsCases_eq : ∀ (cases : List (Expression × List Statement)) (defs : Defs),
    noteDefsCases defs cases = defs.noteAll (assignmentsCases cases)
  | [], _ => rfl
  | (test, body) :: rest, defs => by
    rw [noteDefsCases, assignmentsCases, Defs.noteAll_append, noteDefsAll_eq body,
      noteDefsCases_eq rest]

end

/-- The entry of a place. -/
def Defs.counted? (defs : Defs) (place : Binding) : Option (Binding × Nat × Option Expression) :=
  defs.find? (·.1 == place)

theorem Defs.counted?_nil (place : Binding) : Defs.counted? [] place = none := rfl

/-- Counting another place leaves an entry alone. -/
theorem Defs.counted?_note_of_ne {place other : Binding} (different : (place == other) = false)
    (value : Expression) (defs : Defs) : (defs.note place value).counted? other = defs.counted? other := by
  unfold Defs.counted?
  induction defs with
  | nil => simp [Defs.note, different]
  | cons first rest ih =>
    obtain ⟨stored, count, object⟩ := first
    rw [Defs.note]
    split
    · rename_i same
      have absent : (stored == other) = false := by rw [Binding.beq_congr same, different]
      simp [absent]
    · simp [List.find?_cons, ih]

/-- The first assignment of a place makes its entry. -/
theorem Defs.counted?_note_of_none {place other : Binding} (same : (place == other) = true)
    (value : Expression) {defs : Defs} (absent : defs.counted? other = none) :
    ∃ stored, (stored == other) = true ∧
      (defs.note place value).counted? other = some (stored, 1, value.memberObject?) := by
  unfold Defs.counted? at absent ⊢
  induction defs with
  | nil => exact ⟨place, same, by simp [Defs.note, same]⟩
  | cons first rest ih =>
    obtain ⟨stored, count, object⟩ := first
    rw [List.find?_eq_none] at absent
    have head : (stored == other) = false := by simpa using absent _ (List.mem_cons_self ..)
    have apart : (stored == place) = false := by
      rw [← head, Bool.eq_iff_iff, Binding.beq_iff, Binding.beq_iff,
        (Binding.beq_iff place other).mp same]
    rw [Defs.note, if_neg (by simp [apart]), List.find?_cons_of_neg (by simp [head])]
    exact ih (List.find?_eq_none.mpr fun entry mem => absent entry (List.mem_cons_of_mem _ mem))

/-- Assignments to other places leave an entry alone. -/
theorem Defs.counted?_noteAll_of_none {other : Binding} {assignments : List (Binding × Expression)}
    (others : ∀ assignment ∈ assignments, (assignment.1 == other) = false) (defs : Defs) :
    (defs.noteAll assignments).counted? other = defs.counted? other := by
  induction assignments generalizing defs with
  | nil => rfl
  | cons first rest ih =>
    have head := others first (List.mem_cons_self ..)
    exact (ih (fun assignment mem => others assignment (List.mem_cons_of_mem _ mem))
      _).trans (Defs.counted?_note_of_ne head first.2 defs)

/-- The one assignment of a place makes its entry. -/
theorem Defs.counted?_noteAll {other : Binding} {assignments : List (Binding × Expression)}
    {place : Binding} {value : Expression}
    (once : assignments.filter (·.1 == other) = [(place, value)]) {defs : Defs}
    (absent : defs.counted? other = none) :
    ∃ stored, (stored == other) = true ∧
      (defs.noteAll assignments).counted? other = some (stored, 1, value.memberObject?) := by
  induction assignments generalizing defs with
  | nil => cases once
  | cons first rest ih =>
    cases same : first.1 == other with
    | false =>
      rw [List.filter_cons_of_neg (by simp [same])] at once
      exact ih once ((Defs.counted?_note_of_ne same first.2 defs).trans absent)
    | true =>
      rw [List.filter_cons_of_pos (by simp [same])] at once
      obtain ⟨rfl, others⟩ := List.cons.inj once
      obtain ⟨stored, stands, entry⟩ := Defs.counted?_note_of_none same value absent
      have apart : ∀ assignment ∈ rest, (assignment.1 == other) = false := by
        intro assignment mem
        simpa using List.filter_eq_nil_iff.mp others assignment mem
      have kept := Defs.counted?_noteAll_of_none apart (defs.note place value)
      exact ⟨stored, stands, kept.trans entry⟩

/-- A place counted once with an object is a method of that object. -/
theorem methodObject?_of_entry {defs : Defs} {place stored : Binding} {object : Expression}
    (entry : defs.counted? place = some (stored, 1, some object)) :
    methodObject? defs.methods place = some object := by
  unfold Defs.counted? at entry
  unfold methodObject? Defs.methods
  induction defs with
  | nil => cases entry
  | cons first rest ih =>
    obtain ⟨name, count, read⟩ := first
    cases same : name == place with
    | true =>
      rw [List.find?_cons_of_pos (by simp [same])] at entry
      cases entry
      simp [same]
    | false =>
      rw [List.find?_cons_of_neg (by simp [same])] at entry
      rw [← ih entry, List.filterMap_cons]
      split
      · rfl
      · rename_i method made
        have named : method.1 = name := by
          simp only at made
          split at made
          · obtain ⟨_, _, rfl⟩ := Option.map_eq_some_iff.mp made
            rfl
          · cases made
        rw [List.find?_cons_of_neg (by simp [named, same])]

/-- A place whose only assignment reads a member is a method of the object read. -/
theorem methodObject?_of_once {statements : List Statement} {place stored : Binding}
    {value object : Expression}
    (once : (assignmentsAll statements).filter (·.1 == place) = [(stored, value)])
    (member : value.memberObject? = some object) :
    methodObject? (noteDefsAll [] statements).methods place = some object := by
  rw [noteDefsAll_eq]
  obtain ⟨first, _, entry⟩ := Defs.counted?_noteAll once (Defs.counted?_nil place)
  rw [member] at entry
  exact methodObject?_of_entry entry

end HermesDecomp.Ir
