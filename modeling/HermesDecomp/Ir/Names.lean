import HermesDecomp.Ir.Syntax

/-!
# The names of variables

Where a statement spells the name of a variable: where it declares it, reads it or
writes it, in whatever kind of expression or statement. The second traversal spells
every one of these names anew. Property names, labels and the name a function
expression has for itself are no variables of the statement.

A tag of a markup element is the name of an intrinsic element when it begins with a
lowercase letter, and a path from a variable when it has a dot or begins otherwise.
-/

namespace HermesDecomp.Ir

/-- A character an identifier can begin with. -/
def isIdentifierStart (char : Char) : Bool := char == '$' || char == '_' || char.isAlpha

/-- A character an identifier can go on with. -/
def isIdentifierPart (char : Char) : Bool := isIdentifierStart char || char.isDigit

/-- The text is an identifier. -/
def isValidIdentifier (text : String) : Bool :=
  match text.toList with
  | [] => false
  | first :: rest => isIdentifierStart first && rest.all isIdentifierPart

/-- The words no name may be. -/
def reservedWords : List String :=
  ["break", "case", "catch", "continue", "debugger", "default", "delete", "do", "else",
    "finally", "for", "function", "if", "in", "instanceof", "new", "return", "switch", "this",
    "throw", "try", "typeof", "var", "void", "while", "with", "class", "const", "enum", "export",
    "extends", "import", "super", "implements", "interface", "let", "package", "private",
    "protected", "public", "static", "yield", "null", "true", "false", "undefined", "NaN",
    "Infinity", "arguments", "eval"]

/-- The text is a reserved word. -/
def isReservedWord (text : String) : Bool := reservedWords.contains text

/-- The first part of a dotted path. -/
def tagHead (tag : String) : String := String.ofList (tag.toList.takeWhile (· != '.'))

/-- What follows the first part of a dotted path. -/
def tagPath (tag : String) : String := String.ofList (tag.toList.dropWhile (· != '.'))

/-- Whether a tag stands for a variable and not for an intrinsic element. -/
def tagNamesVariable (tag : String) : Bool :=
  match tag.toList with
  | [] => false
  | first :: rest => (first :: rest).contains '.' || !first.isLower

/-- The variable a tag stands for. -/
def tagNames (tag : String) : List String := if tagNamesVariable tag then [tagHead tag] else []

section Names

/-- The variable a place is. -/
def Binding.names : Binding → List String
  | .variable name => [name.name]
  | .register _ => []
  | .closureVar .. => []

mutual

/-- The names an expression spells. -/
def Expression.names : Expression → List String
  | .value (.binding place) => place.names
  | .value _ => []
  | .binary _ left right => left.names ++ right.names
  | .unary _ operand => operand.names
  | .conditional condition thenExpr elseExpr =>
      condition.names ++ (thenExpr.names ++ elseExpr.names)
  | .member object property _ => object.names ++ property.names
  | .call callee arguments => callee.names ++ namesOfAll arguments
  | .new callee arguments => callee.names ++ namesOfAll arguments
  | .array elements => namesOfElements elements
  | .object properties => namesOfProperties properties
  | .function .. => []
  | .assignment target value => target.names ++ value.names
  | .spread operand => operand.names
  | .templateLiteral _ expressions => namesOfAll expressions
  | .regExp .. => []
  | .yield value _ => value.names
  | .await operand => operand.names
  | .jsxElement tag attributes children =>
      tagNames tag ++ (namesOfAttributes attributes ++ namesOfAll children)
  | .unknown .. => []

def namesOfAll : List Expression → List String
  | [] => []
  | first :: rest => first.names ++ namesOfAll rest

def namesOfElements : List (Option Expression) → List String
  | [] => []
  | none :: rest => namesOfElements rest
  | some first :: rest => first.names ++ namesOfElements rest

def namesOfAttributes : List (String × Expression) → List String
  | [] => []
  | (_, first) :: rest => first.names ++ namesOfAttributes rest

def PropertyKey.names : PropertyKey → List String
  | .computed key => key.names
  | .ident _ => []
  | .string _ => []
  | .index _ => []

def namesOfProperties : List ObjectProperty → List String
  | [] => []
  | .mk key value :: rest => key.names ++ (value.names ++ namesOfProperties rest)

def AssignTarget.names : AssignTarget → List String
  | .binding place => place.names
  | .member object _ => object.names
  | .index object key => object.names ++ key.names
  | .destructuringArray elements => namesOfItems elements
  | .destructuringArrayRest elements rest => namesOfItems elements ++ rest.names
  | .destructuringObject properties => namesOfFields properties
  | .destructuringObjectRest properties rest => namesOfFields properties ++ rest.names
  | .rest target => target.names

def namesOfItems : List (Option (AssignTarget × Option Expression)) → List String
  | [] => []
  | none :: rest => namesOfItems rest
  | some (target, none) :: rest => target.names ++ namesOfItems rest
  | some (target, some fallback) :: rest => target.names ++ (fallback.names ++ namesOfItems rest)

def namesOfFields : List (String × AssignTarget × Option Expression) → List String
  | [] => []
  | (_, target, none) :: rest => target.names ++ namesOfFields rest
  | (_, target, some fallback) :: rest => target.names ++ (fallback.names ++ namesOfFields rest)

end

/-- The names of an expression that may be absent. -/
def namesOfOption : Option Expression → List String
  | none => []
  | some expression => expression.names

mutual

/-- The names a statement spells, those of the bodies of a class among them. -/
def Statement.names : Statement → List String
  | .expr expression => expression.names
  | .letStmt name value _ => name.name :: value.names
  | .assign target value => target.names ++ value.names
  | .delete target _ => target.names
  | .returnStmt value => namesOfOption value
  | .throwStmt value => value.names
  | .debugger => []
  | .comment _ => []
  | .breakStmt _ => []
  | .continueStmt _ => []
  | .goto _ => []
  | .condGoto condition _ _ => condition.names
  | .ifStmt condition thenBody elseBody =>
      condition.names ++ (namesOfStatements thenBody ++ namesOfStatements elseBody)
  | .whileStmt condition body => condition.names ++ namesOfStatements body
  | .doWhile body condition => namesOfStatements body ++ condition.names
  | .forStmt init condition update body =>
      namesOfStatement init ++ (namesOfOption condition ++ (namesOfStatement update ++
        namesOfStatements body))
  | .switch discriminant cases default =>
      discriminant.names ++ (namesOfCases cases ++ namesOfDefault default)
  | .forOf name iterable body => name :: (iterable.names ++ namesOfStatements body)
  | .forIn name object body => name :: (object.names ++ namesOfStatements body)
  | .tryCatch tryBody catchParam catchBody finallyBody =>
      namesOfStatements tryBody ++ (catchParam.toList ++ (namesOfStatements catchBody ++
        namesOfStatements finallyBody))
  | .block body => namesOfStatements body
  | .classStmt name superClass constructor methods =>
      name :: (namesOfOption superClass ++ (namesOfStatement constructor ++ namesOfMethods methods))

def namesOfStatements : List Statement → List String
  | [] => []
  | first :: rest => first.names ++ namesOfStatements rest

def namesOfStatement : Option Statement → List String
  | none => []
  | some statement => statement.names

def namesOfDefault : Option (List Statement) → List String
  | none => []
  | some body => namesOfStatements body

def namesOfCases : List (Expression × List Statement) → List String
  | [] => []
  | (test, body) :: rest => test.names ++ (namesOfStatements body ++ namesOfCases rest)

def namesOfMethods : List ClassMethod → List String
  | [] => []
  | .mk _ value body _ _ params :: rest =>
      params ++ (value.names ++ (namesOfDefault body ++ namesOfMethods rest))

end

end Names

section Spelling

variable (spell : String → String)

/-- A tag with its variable spelled anew. -/
def respellTag (tag : String) : String :=
  if tagNamesVariable tag then spell (tagHead tag) ++ tagPath tag else tag

/-- A variable spelled anew. It keeps its slot. -/
def Var.respell (name : Var) : Var := { name with name := spell name.name }

def Binding.respell : Binding → Binding
  | .variable name => .variable (name.respell spell)
  | .register index => .register index
  | .closureVar level slot => .closureVar level slot

mutual

/-- An expression with its names spelled anew. -/
def Expression.respell : Expression → Expression
  | .value (.binding place) => .value (.binding (place.respell spell))
  | .value value => .value value
  | .binary op left right => .binary op left.respell right.respell
  | .unary op operand => .unary op operand.respell
  | .conditional condition thenExpr elseExpr =>
      .conditional condition.respell thenExpr.respell elseExpr.respell
  | .member object property optional => .member object.respell property.respell optional
  | .call callee arguments => .call callee.respell (respellAll arguments)
  | .new callee arguments => .new callee.respell (respellAll arguments)
  | .array elements => .array (respellElements elements)
  | .object properties => .object (respellProperties properties)
  | .function id name isArrow isAsync isGenerator => .function id name isArrow isAsync isGenerator
  | .assignment target value => .assignment target.respell value.respell
  | .spread operand => .spread operand.respell
  | .templateLiteral quasis expressions => .templateLiteral quasis (respellAll expressions)
  | .regExp pattern flags => .regExp pattern flags
  | .yield value delegate => .yield value.respell delegate
  | .await operand => .await operand.respell
  | .jsxElement tag attributes children =>
      .jsxElement (respellTag spell tag) (respellAttributes attributes) (respellAll children)
  | .unknown opcode operands => .unknown opcode operands

def respellAll : List Expression → List Expression
  | [] => []
  | first :: rest => first.respell :: respellAll rest

def respellElements : List (Option Expression) → List (Option Expression)
  | [] => []
  | none :: rest => none :: respellElements rest
  | some first :: rest => some first.respell :: respellElements rest

def respellAttributes : List (String × Expression) → List (String × Expression)
  | [] => []
  | (name, first) :: rest => (name, first.respell) :: respellAttributes rest

def PropertyKey.respell : PropertyKey → PropertyKey
  | .computed key => .computed key.respell
  | .ident name => .ident name
  | .string text => .string text
  | .index position => .index position

def respellProperties : List ObjectProperty → List ObjectProperty
  | [] => []
  | .mk key value :: rest => .mk key.respell value.respell :: respellProperties rest

def AssignTarget.respell : AssignTarget → AssignTarget
  | .binding place => .binding (place.respell spell)
  | .member object property => .member object.respell property
  | .index object key => .index object.respell key.respell
  | .destructuringArray elements => .destructuringArray (respellItems elements)
  | .destructuringArrayRest elements rest =>
      .destructuringArrayRest (respellItems elements) rest.respell
  | .destructuringObject properties => .destructuringObject (respellFields properties)
  | .destructuringObjectRest properties rest =>
      .destructuringObjectRest (respellFields properties) rest.respell
  | .rest target => .rest target.respell

def respellItems : List (Option (AssignTarget × Option Expression)) →
    List (Option (AssignTarget × Option Expression))
  | [] => []
  | none :: rest => none :: respellItems rest
  | some (target, none) :: rest => some (target.respell, none) :: respellItems rest
  | some (target, some fallback) :: rest =>
      some (target.respell, some fallback.respell) :: respellItems rest

def respellFields : List (String × AssignTarget × Option Expression) →
    List (String × AssignTarget × Option Expression)
  | [] => []
  | (key, target, none) :: rest => (key, target.respell, none) :: respellFields rest
  | (key, target, some fallback) :: rest =>
      (key, target.respell, some fallback.respell) :: respellFields rest

end

mutual

/-- A statement with its names spelled anew. -/
def Statement.respell : Statement → Statement
  | .expr expression => .expr (expression.respell spell)
  | .letStmt name value kind => .letStmt (name.respell spell) (value.respell spell) kind
  | .assign target value => .assign (target.respell spell) (value.respell spell)
  | .delete target result => .delete (target.respell spell) result
  | .returnStmt value => .returnStmt (value.map (·.respell spell))
  | .throwStmt value => .throwStmt (value.respell spell)
  | .debugger => .debugger
  | .comment text => .comment text
  | .breakStmt label => .breakStmt label
  | .continueStmt label => .continueStmt label
  | .goto target => .goto target
  | .condGoto condition target fallthrough => .condGoto (condition.respell spell) target fallthrough
  | .ifStmt condition thenBody elseBody =>
      .ifStmt (condition.respell spell) (respellStatements thenBody) (respellStatements elseBody)
  | .whileStmt condition body => .whileStmt (condition.respell spell) (respellStatements body)
  | .doWhile body condition => .doWhile (respellStatements body) (condition.respell spell)
  | .forStmt init condition update body =>
      .forStmt (respellStatement init) (condition.map (·.respell spell))
        (respellStatement update) (respellStatements body)
  | .switch discriminant cases default =>
      .switch (discriminant.respell spell) (respellCases cases) (respellDefault default)
  | .forOf name iterable body =>
      .forOf (spell name) (iterable.respell spell) (respellStatements body)
  | .forIn name object body => .forIn (spell name) (object.respell spell) (respellStatements body)
  | .tryCatch tryBody catchParam catchBody finallyBody =>
      .tryCatch (respellStatements tryBody) (catchParam.map spell) (respellStatements catchBody)
        (respellStatements finallyBody)
  | .block body => .block (respellStatements body)
  | .classStmt name superClass constructor methods =>
      .classStmt (spell name) (superClass.map (·.respell spell)) (respellStatement constructor)
        (respellMethods methods)

def respellStatements : List Statement → List Statement
  | [] => []
  | first :: rest => first.respell :: respellStatements rest

def respellStatement : Option Statement → Option Statement
  | none => none
  | some statement => some statement.respell

def respellDefault : Option (List Statement) → Option (List Statement)
  | none => none
  | some body => some (respellStatements body)

def respellCases : List (Expression × List Statement) → List (Expression × List Statement)
  | [] => []
  | (test, body) :: rest => (test.respell spell, respellStatements body) :: respellCases rest

def respellMethods : List ClassMethod → List ClassMethod
  | [] => []
  | .mk key value body isStatic kind params :: rest =>
      .mk key (value.respell spell) (respellDefault body) isStatic kind (params.map spell) ::
        respellMethods rest

end

end Spelling

section Unchanged

variable {spell : String → String}

theorem tagHead_append_tagPath (tag : String) : tagHead tag ++ tagPath tag = tag := by
  apply String.toList_inj.mp
  simp [tagHead, tagPath]

/-- A tag is spelled anew exactly as its variable is. -/
theorem respellTag_eq_iff {spelled : String → String} (tag : String) :
    respellTag spell tag = respellTag spelled tag ↔
      ∀ name ∈ tagNames tag, spell name = spelled name := by
  unfold respellTag tagNames
  split
  · simp
  · simp

theorem respellTag_eq_self_iff (tag : String) :
    respellTag spell tag = tag ↔ ∀ name ∈ tagNames tag, spell name = name := by
  have same : respellTag spell tag = respellTag id tag ↔
      ∀ name ∈ tagNames tag, spell name = id name := respellTag_eq_iff tag
  rwa [show respellTag id tag = tag by
    unfold respellTag
    split
    · exact tagHead_append_tagPath tag
    · rfl] at same

attribute [local simp] Binding.respell Binding.names Var.respell Expression.respell
  Expression.names respellAll namesOfAll respellElements namesOfElements respellAttributes
  namesOfAttributes PropertyKey.respell PropertyKey.names respellProperties namesOfProperties
  AssignTarget.respell AssignTarget.names respellItems namesOfItems respellFields namesOfFields
  Statement.respell Statement.names respellStatements namesOfStatements respellStatement
  namesOfStatement respellDefault namesOfDefault respellCases namesOfCases respellMethods
  namesOfMethods or_imp forall_and

theorem Binding.respell_eq_self_iff (place : Binding) :
    place.respell spell = place ↔ ∀ name ∈ place.names, spell name = name := by
  cases place with
  | «variable» name =>
    simp
    constructor
    · intro same
      exact congrArg Var.name same
    · intro same
      rw [same]
  | register | closureVar => simp

mutual

/-- An expression stays as it is exactly when every name it spells does. -/
theorem Expression.respell_eq_self_iff : ∀ expression : Expression,
    expression.respell spell = expression ↔ ∀ name ∈ expression.names, spell name = name
  | .value value => by
    cases value with
    | binding place =>
      simp only [Expression.respell, Expression.names, Expression.value.injEq,
        Value.binding.injEq, place.respell_eq_self_iff]
    | constant | this | global | parameter | arguments | newTarget | super => simp
  | .binary op left right => by simp [left.respell_eq_self_iff, right.respell_eq_self_iff]
  | .unary op operand | .spread operand | .await operand => by simp [operand.respell_eq_self_iff]
  | .conditional condition thenExpr elseExpr => by
    simp [condition.respell_eq_self_iff, thenExpr.respell_eq_self_iff, elseExpr.respell_eq_self_iff]
  | .member object property optional => by
    simp [object.respell_eq_self_iff, property.respell_eq_self_iff]
  | .call callee arguments | .new callee arguments => by
    simp [callee.respell_eq_self_iff, respellAll_eq_self_iff arguments]
  | .array elements => by simp [respellElements_eq_self_iff elements]
  | .object properties => by simp [respellProperties_eq_self_iff properties]
  | .assignment target value => by simp [target.respell_eq_self_iff, value.respell_eq_self_iff]
  | .templateLiteral quasis expressions => by simp [respellAll_eq_self_iff expressions]
  | .yield value delegate => by simp [value.respell_eq_self_iff]
  | .jsxElement tag attributes children => by
    simp [respellTag_eq_self_iff, respellAttributes_eq_self_iff attributes,
      respellAll_eq_self_iff children]
  | .function .. | .regExp .. | .unknown .. => by simp

theorem respellAll_eq_self_iff : ∀ expressions, respellAll spell expressions = expressions ↔
      ∀ name ∈ namesOfAll expressions, spell name = name
  | [] => by simp
  | first :: rest => by simp [first.respell_eq_self_iff, respellAll_eq_self_iff rest]

theorem respellElements_eq_self_iff : ∀ elements, respellElements spell elements = elements ↔
      ∀ name ∈ namesOfElements elements, spell name = name
  | [] => by simp
  | none :: rest => by simp [respellElements_eq_self_iff rest]
  | some first :: rest => by simp [first.respell_eq_self_iff, respellElements_eq_self_iff rest]

theorem respellAttributes_eq_self_iff : ∀ attributes,
    respellAttributes spell attributes = attributes ↔
      ∀ name ∈ namesOfAttributes attributes, spell name = name
  | [] => by simp
  | (key, first) :: rest => by simp [first.respell_eq_self_iff, respellAttributes_eq_self_iff rest]

theorem PropertyKey.respell_eq_self_iff : ∀ key : PropertyKey,
    key.respell spell = key ↔ ∀ name ∈ key.names, spell name = name
  | .computed key => by simp [key.respell_eq_self_iff]
  | .ident _ | .string _ | .index _ => by simp

theorem respellProperties_eq_self_iff : ∀ properties,
    respellProperties spell properties = properties ↔
      ∀ name ∈ namesOfProperties properties, spell name = name
  | [] => by simp
  | .mk key value :: rest => by
    simp [key.respell_eq_self_iff, value.respell_eq_self_iff, respellProperties_eq_self_iff rest,
      and_assoc]

theorem AssignTarget.respell_eq_self_iff : ∀ target : AssignTarget,
    target.respell spell = target ↔ ∀ name ∈ target.names, spell name = name
  | .binding place => by
    simp only [AssignTarget.respell, AssignTarget.names, AssignTarget.binding.injEq,
      place.respell_eq_self_iff]
  | .member object property => by simp [object.respell_eq_self_iff]
  | .index object key => by simp [object.respell_eq_self_iff, key.respell_eq_self_iff]
  | .destructuringArray elements => by simp [respellItems_eq_self_iff elements]
  | .destructuringArrayRest elements rest => by
    simp [respellItems_eq_self_iff elements, rest.respell_eq_self_iff]
  | .destructuringObject properties => by simp [respellFields_eq_self_iff properties]
  | .destructuringObjectRest properties rest => by
    simp [respellFields_eq_self_iff properties, rest.respell_eq_self_iff]
  | .rest target => by simp [target.respell_eq_self_iff]

theorem respellItems_eq_self_iff : ∀ items,
    respellItems spell items = items ↔ ∀ name ∈ namesOfItems items, spell name = name
  | [] => by simp
  | none :: rest => by simp [respellItems_eq_self_iff rest]
  | some (target, none) :: rest => by
    simp [target.respell_eq_self_iff, respellItems_eq_self_iff rest]
  | some (target, some fallback) :: rest => by
    simp [target.respell_eq_self_iff, fallback.respell_eq_self_iff, respellItems_eq_self_iff rest,
      and_assoc]

theorem respellFields_eq_self_iff :
    ∀ fields, respellFields spell fields = fields ↔ ∀ name ∈ namesOfFields fields, spell name = name
  | [] => by simp
  | (key, target, none) :: rest => by
    simp [target.respell_eq_self_iff, respellFields_eq_self_iff rest]
  | (key, target, some fallback) :: rest => by
    simp [target.respell_eq_self_iff, fallback.respell_eq_self_iff, respellFields_eq_self_iff rest,
      and_assoc]

end

theorem map_respell_eq_self_iff (expression : Option Expression) :
    expression.map (·.respell spell) = expression ↔
      ∀ name ∈ namesOfOption expression, spell name = name := by
  cases expression with
  | none => simp [namesOfOption]
  | some expression => simp [namesOfOption, expression.respell_eq_self_iff]

theorem map_spell_eq_self_iff (name : Option String) :
    name.map spell = name ↔ ∀ member ∈ name.toList, spell member = member := by
  cases name with
  | none => simp
  | some name => simp

theorem map_spellAll_eq_self_iff (names : List String) :
    names.map spell = names ↔ ∀ name ∈ names, spell name = name := by
  induction names with
  | nil => simp
  | cons first rest ih => simp [ih]

theorem Var.respell_eq_self_iff (name : Var) :
    name.respell spell = name ↔ spell name.name = name.name := by
  constructor
  · intro same
    exact congrArg Var.name same
  · intro same
    simp [same]

mutual

/-- A statement stays as it is exactly when every name it spells does. -/
theorem Statement.respell_eq_self_iff : ∀ statement : Statement,
    statement.respell spell = statement ↔ ∀ name ∈ statement.names, spell name = name
  | .expr expression => by simp [expression.respell_eq_self_iff]
  | .letStmt name value kind => by
    simp only [Statement.respell, Statement.names, Statement.letStmt.injEq, and_true,
      List.forall_mem_cons, name.respell_eq_self_iff, value.respell_eq_self_iff]
  | .assign target value => by simp [target.respell_eq_self_iff, value.respell_eq_self_iff]
  | .delete target result => by simp [target.respell_eq_self_iff]
  | .returnStmt value => by simp [map_respell_eq_self_iff]
  | .throwStmt value => by simp [value.respell_eq_self_iff]
  | .debugger | .comment _ | .breakStmt _ | .continueStmt _ | .goto _ => by simp
  | .condGoto condition target fallthrough => by simp [condition.respell_eq_self_iff]
  | .ifStmt condition thenBody elseBody => by
    simp [condition.respell_eq_self_iff, respellStatements_eq_self_iff thenBody,
      respellStatements_eq_self_iff elseBody]
  | .whileStmt condition body | .doWhile body condition => by
    simp [condition.respell_eq_self_iff, respellStatements_eq_self_iff body]
  | .forStmt init condition update body => by
    simp [respellStatement_eq_self_iff init, map_respell_eq_self_iff,
      respellStatement_eq_self_iff update, respellStatements_eq_self_iff body]
  | .switch discriminant cases default => by
    simp [discriminant.respell_eq_self_iff, respellCases_eq_self_iff cases,
      respellDefault_eq_self_iff default]
  | .forOf name iterable body => by
    simp [iterable.respell_eq_self_iff, respellStatements_eq_self_iff body]
  | .forIn name object body => by
    simp [object.respell_eq_self_iff, respellStatements_eq_self_iff body]
  | .tryCatch tryBody catchParam catchBody finallyBody => by
    simp [respellStatements_eq_self_iff tryBody, map_spell_eq_self_iff,
      respellStatements_eq_self_iff catchBody, respellStatements_eq_self_iff finallyBody]
  | .block body => by simp [respellStatements_eq_self_iff body]
  | .classStmt name superClass constructor methods => by
    simp [map_respell_eq_self_iff, respellStatement_eq_self_iff constructor,
      respellMethods_eq_self_iff methods]

theorem respellStatements_eq_self_iff : ∀ statements,
    respellStatements spell statements = statements ↔
      ∀ name ∈ namesOfStatements statements, spell name = name
  | [] => by simp
  | first :: rest => by simp [first.respell_eq_self_iff, respellStatements_eq_self_iff rest]

theorem respellStatement_eq_self_iff : ∀ statement, respellStatement spell statement = statement ↔
      ∀ name ∈ namesOfStatement statement, spell name = name
  | none => by simp
  | some statement => by simp [statement.respell_eq_self_iff]

theorem respellDefault_eq_self_iff : ∀ default, respellDefault spell default = default ↔
      ∀ name ∈ namesOfDefault default, spell name = name
  | none => by simp
  | some body => by simp [respellStatements_eq_self_iff body]

theorem respellCases_eq_self_iff : ∀ cases,
    respellCases spell cases = cases ↔ ∀ name ∈ namesOfCases cases, spell name = name
  | [] => by simp
  | (test, body) :: rest => by
    simp [test.respell_eq_self_iff, respellStatements_eq_self_iff body,
      respellCases_eq_self_iff rest, and_assoc]

theorem respellMethods_eq_self_iff : ∀ methods,
    respellMethods spell methods = methods ↔ ∀ name ∈ namesOfMethods methods, spell name = name
  | [] => by simp
  | .mk key value body isStatic kind params :: rest => by
    simp [value.respell_eq_self_iff, respellDefault_eq_self_iff body, map_spellAll_eq_self_iff,
      respellMethods_eq_self_iff rest]
    tauto

end

end Unchanged

end HermesDecomp.Ir
