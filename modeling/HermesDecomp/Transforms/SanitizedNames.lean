import HermesDecomp.Ir.Mentions
import HermesDecomp.Ir.Names
import HermesDecomp.Library.Fresh
import Std.Data.TreeMap
import Std.Data.TreeSet

/-!
# Sanitised names

A name is printed as an identifier: characters an identifier cannot have become underscores, and a
reserved word gets one in front. Different variables whose identifiers would be the same are given
numbered ones before.
-/

namespace HermesDecomp.Ir

open List
open Std (TreeMap TreeSet)

/-- Words that cannot be declared and can be read as themselves. -/
def readableWords : List String :=
  ["arguments", "eval", "undefined", "NaN", "Infinity", "globalThis"]

/-- The characters of a text that is no identifier, made into those of one. -/
def sanitizeChars : List Char → List Char
  | [] => []
  | first :: rest =>
      (if isIdentifierStart first then [first]
        else if first.isDigit then ['_', first]
        else ['_']) ++
        rest.map fun char => if isIdentifierPart char then char else '_'

/-- Make an identifier of a name that does not begin with two at signs. -/
def sanitizePlain (name : String) : String :=
  if isValidIdentifier name then
    if isReservedWord name && !readableWords.contains name then "_" ++ name else name
  else if (sanitizeChars name.toList).isEmpty then "_unnamed"
  else String.ofList (sanitizeChars name.toList)

/-- Make an identifier of a name. The name of a symbol is one without the at signs. -/
def sanitizeIdentifier (name : String) : String :=
  match name.toList with
  | '@' :: '@' :: symbol =>
      if symbol = "iterator".toList then "iterable"
      else if symbol = "asyncIterator".toList then "asyncIterable"
      else sanitizePlain ("Symbol_" ++ String.ofList symbol)
  | _ => sanitizePlain name

/-- The characters make an identifier. -/
def Identifies : List Char → Prop
  | [] => False
  | first :: rest => isIdentifierStart first = true ∧ ∀ char ∈ rest, isIdentifierPart char = true

theorem isValidIdentifier_iff (name : String) :
    isValidIdentifier name = true ↔ Identifies name.toList := by
  rw [isValidIdentifier]
  cases name.toList with
  | nil => exact iff_of_false Bool.false_ne_true id
  | cons first rest => simp [Identifies]

theorem isValidIdentifier_ofList (chars : List Char) :
    isValidIdentifier (String.ofList chars) = true ↔ Identifies chars := by
  rw [isValidIdentifier_iff, String.toList_ofList]

theorem part_of_start {char : Char} (start : isIdentifierStart char = true) :
    isIdentifierPart char = true := by
  rw [isIdentifierPart, start]
  rfl

/-- No reserved word has an underscore. -/
theorem isReservedWord_of_underscore {name : String} (underscore : '_' ∈ name.toList) :
    isReservedWord name = false := by
  have none : ∀ word ∈ reservedWords, '_' ∉ word.toList := by decide
  rw [isReservedWord]
  by_contra reserved
  rw [Bool.not_eq_false, contains_iff_mem] at reserved
  exact none name reserved underscore

theorem identifies_underscore {chars : List Char} (identifies : Identifies chars) :
    Identifies ('_' :: chars) := by
  cases chars with
  | nil => exact identifies.elim
  | cons first rest =>
    refine ⟨rfl, ?_⟩
    intro char member
    rcases mem_cons.mp member with rfl | later
    · exact part_of_start identifies.1
    · exact identifies.2 char later

theorem identifies_sanitizeChars {chars : List Char} (some : chars ≠ []) :
    Identifies (sanitizeChars chars) := by
  cases chars with
  | nil => exact absurd rfl some
  | cons first rest =>
    have mapped : ∀ char ∈ rest.map (fun char => if isIdentifierPart char then char else '_'),
        isIdentifierPart char = true := by
      intro char member
      obtain ⟨original, -, rfl⟩ := mem_map.mp member
      split_ifs with isPart
      · exact isPart
      · rfl
    rw [sanitizeChars]
    split_ifs with start digit
    · exact ⟨start, mapped⟩
    · refine ⟨rfl, ?_⟩
      intro char member
      rcases mem_cons.mp member with rfl | later
      · rw [isIdentifierPart, digit, Bool.or_true]
      · exact mapped char later
    · exact ⟨rfl, mapped⟩

/-- What had to be changed has an underscore now. -/
theorem underscore_mem_sanitizeChars {chars : List Char} (some : chars ≠ [])
    (not : ¬ Identifies chars) : '_' ∈ sanitizeChars chars := by
  cases chars with
  | nil => exact absurd rfl some
  | cons first rest =>
    rw [sanitizeChars]
    split_ifs with start digit
    · obtain ⟨char, member, other⟩ : ∃ char ∈ rest, ¬ isIdentifierPart char = true := by
        by_contra all
        push Not at all
        exact not ⟨start, all⟩
      apply mem_append_right
      exact mem_map.mpr ⟨char, member, if_neg other⟩
    · exact mem_cons_self
    · exact mem_cons_self

/-- What is sanitised already: an identifier that is no reserved word but a readable one. -/
structure Sanitized (name : String) : Prop where
  valid : isValidIdentifier name = true
  unreserved : isReservedWord name = true → name ∈ readableWords

theorem sanitized_sanitizePlain (name : String) : Sanitized (sanitizePlain name) := by
  rw [sanitizePlain]
  split_ifs with valid reserved empty
  · have chars : ("_" ++ name).toList = '_' :: name.toList := String.toList_append
    refine ⟨?_, fun again => ?_⟩
    · rw [isValidIdentifier_iff, chars]
      exact identifies_underscore ((isValidIdentifier_iff name).mp valid)
    · rw [isReservedWord_of_underscore (chars ▸ mem_cons_self)] at again
      cases again
  · refine ⟨valid, fun again => ?_⟩
    simpa [again] using reserved
  · exact ⟨by decide, by decide⟩
  · have some : name.toList ≠ [] := by
      intro none
      rw [none] at empty
      exact empty rfl
    have changed := underscore_mem_sanitizeChars some ((isValidIdentifier_iff name).not.mp valid)
    refine ⟨(isValidIdentifier_ofList _).mpr (identifies_sanitizeChars some), fun again => ?_⟩
    rw [isReservedWord_of_underscore (String.toList_ofList.symm ▸ changed)] at again
    cases again

theorem sanitized_sanitizeIdentifier (name : String) : Sanitized (sanitizeIdentifier name) := by
  rw [sanitizeIdentifier]
  split
  · split_ifs
    · exact ⟨by decide, by decide⟩
    · exact ⟨by decide, by decide⟩
    · exact sanitized_sanitizePlain _
  · exact sanitized_sanitizePlain name

/-- What is sanitised stays. -/
theorem Sanitized.sanitizeIdentifier_eq {name : String} (sanitized : Sanitized name) :
    sanitizeIdentifier name = name := by
  have plain : sanitizePlain name = name := by
    rw [sanitizePlain, if_pos sanitized.valid, if_neg]
    rw [Bool.and_eq_true, not_and, Bool.not_eq_true', Bool.not_eq_false, contains_iff_mem]
    exact sanitized.unreserved
  rw [sanitizeIdentifier]
  split
  · rename_i symbol begins
    have identifies := (isValidIdentifier_iff name).mp sanitized.valid
    rw [begins] at identifies
    exact absurd identifies.1 (by decide)
  · exact plain

section Walk

variable (renames : String → Option String)

/-- A name as it is renamed. -/
def renamedTo (name : String) : String := (renames name).getD name

/-- A variable as it is renamed, in place. -/
def Var.renamedIn (name : Var) : Var := { name with name := renamedTo renames name.name }

mutual

/-- Rename the variables of an expression, where the walk looks. -/
def renameVariablesInExpr : Expression → Expression
  | .value (.binding (.variable name)) => .value (.binding (.variable (name.renamedIn renames)))
  | .binary op left right => .binary op (renameVariablesInExpr left) (renameVariablesInExpr right)
  | .unary op operand => .unary op (renameVariablesInExpr operand)
  | .call callee arguments => .call (renameVariablesInExpr callee) (renameVariablesInAll arguments)
  | .member object property optional =>
      .member (renameVariablesInExpr object) (renameVariablesInKey property) optional
  | .new callee arguments => .new (renameVariablesInExpr callee) (renameVariablesInAll arguments)
  | .conditional condition thenExpr elseExpr =>
      .conditional (renameVariablesInExpr condition) (renameVariablesInExpr thenExpr)
        (renameVariablesInExpr elseExpr)
  | .array elements => .array (renameVariablesInElements elements)
  | .object properties => .object (renameVariablesInProperties properties)
  | .assignment target value =>
      .assignment (renameVariablesInTarget target) (renameVariablesInExpr value)
  | expression => expression

def renameVariablesInAll : List Expression → List Expression
  | [] => []
  | first :: rest => renameVariablesInExpr first :: renameVariablesInAll rest

def renameVariablesInElements : List (Option Expression) → List (Option Expression)
  | [] => []
  | none :: rest => none :: renameVariablesInElements rest
  | some first :: rest => some (renameVariablesInExpr first) :: renameVariablesInElements rest

def renameVariablesInKey : PropertyKey → PropertyKey
  | .computed key => .computed (renameVariablesInExpr key)
  | key => key

def renameVariablesInProperties : List ObjectProperty → List ObjectProperty
  | [] => []
  | .mk key value :: rest =>
      .mk (renameVariablesInKey key) (renameVariablesInExpr value) ::
        renameVariablesInProperties rest

def renameVariablesInTarget : AssignTarget → AssignTarget
  | .binding (.variable name) => .binding (.variable (name.renamedIn renames))
  | .member object property => .member (renameVariablesInExpr object) property
  | .index object key => .index (renameVariablesInExpr object) (renameVariablesInExpr key)
  | target => target

end

mutual

/-- Rename the variables of a statement, where the walk looks. -/
def renameVariablesInStmt : Statement → Statement
  | .assign target value =>
      .assign (renameVariablesInTarget renames target) (renameVariablesInExpr renames value)
  | .delete target result => .delete (renameVariablesInExpr renames target) result
  | .letStmt name value kind =>
      .letStmt (match renames name.name with
        | some new => ⟨new, none⟩
        | none => name) (renameVariablesInExpr renames value) kind
  | .expr value => .expr (renameVariablesInExpr renames value)
  | .returnStmt (some value) => .returnStmt (some (renameVariablesInExpr renames value))
  | .throwStmt value => .throwStmt (renameVariablesInExpr renames value)
  | .ifStmt condition thenBody elseBody =>
      .ifStmt (renameVariablesInExpr renames condition) (renameVariablesInStmts thenBody)
        (renameVariablesInStmts elseBody)
  | .whileStmt condition body =>
      .whileStmt (renameVariablesInExpr renames condition) (renameVariablesInStmts body)
  | .doWhile body condition =>
      .doWhile (renameVariablesInStmts body) (renameVariablesInExpr renames condition)
  | .forStmt init condition update body =>
      .forStmt (renameVariablesInPart init) (condition.map (renameVariablesInExpr renames))
        (renameVariablesInPart update) (renameVariablesInStmts body)
  | .block body => .block (renameVariablesInStmts body)
  | .forOf name iterable body =>
      .forOf (renamedTo renames name) (renameVariablesInExpr renames iterable)
        (renameVariablesInStmts body)
  | .forIn name object body =>
      .forIn (renamedTo renames name) (renameVariablesInExpr renames object)
        (renameVariablesInStmts body)
  | .switch discriminant cases default =>
      .switch (renameVariablesInExpr renames discriminant) (renameVariablesInCases cases)
        (renameVariablesInDefault default)
  | .tryCatch tryBody catchParam catchBody finallyBody =>
      .tryCatch (renameVariablesInStmts tryBody) (catchParam.map (renamedTo renames))
        (renameVariablesInStmts catchBody) (renameVariablesInStmts finallyBody)
  | .classStmt name superClass constructor methods =>
      .classStmt name (superClass.map (renameVariablesInExpr renames))
        (renameVariablesInPart constructor) (renameVariablesInMethods methods)
  | statement => statement

def renameVariablesInStmts : List Statement → List Statement
  | [] => []
  | first :: rest => renameVariablesInStmt first :: renameVariablesInStmts rest

def renameVariablesInPart : Option Statement → Option Statement
  | none => none
  | some statement => some (renameVariablesInStmt statement)

def renameVariablesInDefault : Option (List Statement) → Option (List Statement)
  | none => none
  | some body => some (renameVariablesInStmts body)

def renameVariablesInCases : List (Expression × List Statement) → List (Expression × List Statement)
  | [] => []
  | (test, body) :: rest =>
      (renameVariablesInExpr renames test, renameVariablesInStmts body) ::
        renameVariablesInCases rest

def renameVariablesInMethods : List ClassMethod → List ClassMethod
  | [] => []
  | .mk key value body isStatic kind params :: rest =>
      .mk key (renameVariablesInExpr renames value) body isStatic kind params ::
        renameVariablesInMethods rest

end

end Walk

mutual

/-- The names of an expression where the walk does not look. -/
def namesPassedInExpr : Expression → List String
  | .value _ => []
  | .binary _ left right => namesPassedInExpr left ++ namesPassedInExpr right
  | .unary _ operand => namesPassedInExpr operand
  | .call callee arguments => namesPassedInExpr callee ++ namesPassedInAll arguments
  | .member object property _ => namesPassedInExpr object ++ namesPassedInKey property
  | .new callee arguments => namesPassedInExpr callee ++ namesPassedInAll arguments
  | .conditional condition thenExpr elseExpr =>
      namesPassedInExpr condition ++ (namesPassedInExpr thenExpr ++ namesPassedInExpr elseExpr)
  | .array elements => namesPassedInElements elements
  | .object properties => namesPassedInProperties properties
  | .assignment target value => namesPassedInTarget target ++ namesPassedInExpr value
  | expression => expression.names

def namesPassedInAll : List Expression → List String
  | [] => []
  | first :: rest => namesPassedInExpr first ++ namesPassedInAll rest

def namesPassedInElements : List (Option Expression) → List String
  | [] => []
  | none :: rest => namesPassedInElements rest
  | some first :: rest => namesPassedInExpr first ++ namesPassedInElements rest

def namesPassedInKey : PropertyKey → List String
  | .computed key => namesPassedInExpr key
  | _ => []

def namesPassedInProperties : List ObjectProperty → List String
  | [] => []
  | .mk key value :: rest =>
      namesPassedInKey key ++ (namesPassedInExpr value ++ namesPassedInProperties rest)

def namesPassedInTarget : AssignTarget → List String
  | .binding _ => []
  | .member object _ => namesPassedInExpr object
  | .index object key => namesPassedInExpr object ++ namesPassedInExpr key
  | target => target.names

end

/-- The names passed by in an expression that may be absent. -/
def namesPassedInOption : Option Expression → List String
  | none => []
  | some expression => namesPassedInExpr expression

mutual

/-- The names of a statement where the walk does not look. -/
def namesPassedInStmt : Statement → List String
  | .assign target value => namesPassedInTarget target ++ namesPassedInExpr value
  | .delete target _ => namesPassedInExpr target
  | .letStmt _ value _ => namesPassedInExpr value
  | .expr value => namesPassedInExpr value
  | .returnStmt value => namesPassedInOption value
  | .throwStmt value => namesPassedInExpr value
  | .ifStmt condition thenBody elseBody =>
      namesPassedInExpr condition ++ (namesPassedInStmts thenBody ++ namesPassedInStmts elseBody)
  | .whileStmt condition body => namesPassedInExpr condition ++ namesPassedInStmts body
  | .doWhile body condition => namesPassedInStmts body ++ namesPassedInExpr condition
  | .forStmt init condition update body =>
      namesPassedInPart init ++ (namesPassedInOption condition ++ (namesPassedInPart update ++
        namesPassedInStmts body))
  | .block body => namesPassedInStmts body
  | .forOf _ iterable body => namesPassedInExpr iterable ++ namesPassedInStmts body
  | .forIn _ object body => namesPassedInExpr object ++ namesPassedInStmts body
  | .switch discriminant cases default =>
      namesPassedInExpr discriminant ++ (namesPassedInCases cases ++ namesPassedInDefault default)
  | .tryCatch tryBody _ catchBody finallyBody =>
      namesPassedInStmts tryBody ++ (namesPassedInStmts catchBody ++ namesPassedInStmts finallyBody)
  | .classStmt name superClass constructor methods =>
      name :: (namesPassedInOption superClass ++ (namesPassedInPart constructor ++
        namesPassedInMethods methods))
  | statement => statement.names

def namesPassedInStmts : List Statement → List String
  | [] => []
  | first :: rest => namesPassedInStmt first ++ namesPassedInStmts rest

def namesPassedInPart : Option Statement → List String
  | none => []
  | some statement => namesPassedInStmt statement

def namesPassedInDefault : Option (List Statement) → List String
  | none => []
  | some body => namesPassedInStmts body

def namesPassedInCases : List (Expression × List Statement) → List String
  | [] => []
  | (test, body) :: rest =>
      namesPassedInExpr test ++ (namesPassedInStmts body ++ namesPassedInCases rest)

def namesPassedInMethods : List ClassMethod → List String
  | [] => []
  | .mk _ value body _ _ params :: rest =>
      params ++ (namesPassedInExpr value ++ (namesOfDefault body ++ namesPassedInMethods rest))

end

section Names

variable {renames : String → Option String}

/-- None of the names is renamed. -/
def Kept (renames : String → Option String) (names : List String) : Prop :=
  ∀ name ∈ names, renames name = none

theorem kept_append {names names' : List String} :
    Kept renames (names ++ names') ↔ Kept renames names ∧ Kept renames names' :=
  forall_mem_append

theorem kept_cons {name : String} {names : List String} :
    Kept renames (name :: names) ↔ renames name = none ∧ Kept renames names :=
  forall_mem_cons

theorem renamedTo_of_none {name : String} (kept : renames name = none) :
    renamedTo renames name = name := by
  rw [renamedTo, kept]
  rfl

/-- Names that are not renamed stay. -/
theorem Kept.map_eq {names : List String} (kept : Kept renames names) :
    names = names.map (renamedTo renames) := by
  rw [map_congr_left fun name member => renamedTo_of_none (kept name member), map_id']

mutual

/-- Where no name the walk passes by is renamed, every name is. -/
theorem names_renamedInExpr : ∀ expression : Expression,
    Kept renames (namesPassedInExpr expression) →
      (renameVariablesInExpr renames expression).names = expression.names.map (renamedTo renames)
  | .value (.binding (.variable _)), _ => rfl
  | .value (.binding (.register _)), _ | .value (.binding (.closureVar _ _)), _
  | .value (.constant _), _ | .value .this, _ | .value .global, _ | .value (.parameter _), _
  | .value .arguments, _ | .value .newTarget, _ | .value .super, _ => rfl
  | .binary _ left right, kept => by
    obtain ⟨inLeft, inRight⟩ := kept_append.mp kept
    have ofLeft := names_renamedInExpr left inLeft
    have ofRight := names_renamedInExpr right inRight
    simp [renameVariablesInExpr, Expression.names, ofLeft, ofRight]
  | .unary _ operand, kept => names_renamedInExpr operand kept
  | .call callee arguments, kept | .new callee arguments, kept => by
    obtain ⟨inCallee, inArguments⟩ := kept_append.mp kept
    have ofCallee := names_renamedInExpr callee inCallee
    have ofArguments := names_renamedInAll arguments inArguments
    simp [renameVariablesInExpr, Expression.names, ofCallee, ofArguments]
  | .member object property _, kept => by
    obtain ⟨inObject, inProperty⟩ := kept_append.mp kept
    have ofObject := names_renamedInExpr object inObject
    have ofProperty := names_renamedInKey property inProperty
    simp [renameVariablesInExpr, Expression.names, ofObject, ofProperty]
  | .conditional condition thenExpr elseExpr, kept => by
    obtain ⟨inCondition, inArms⟩ := kept_append.mp kept
    obtain ⟨inThen, inElse⟩ := kept_append.mp inArms
    have ofCondition := names_renamedInExpr condition inCondition
    have ofThen := names_renamedInExpr thenExpr inThen
    have ofElse := names_renamedInExpr elseExpr inElse
    simp [renameVariablesInExpr, Expression.names, ofCondition, ofThen, ofElse]
  | .array elements, kept => names_renamedInElements elements kept
  | .object properties, kept => names_renamedInProperties properties kept
  | .assignment target value, kept => by
    obtain ⟨inTarget, inValue⟩ := kept_append.mp kept
    have ofTarget := names_renamedInTarget target inTarget
    have ofValue := names_renamedInExpr value inValue
    simp [renameVariablesInExpr, Expression.names, ofTarget, ofValue]
  | .function .., kept | .spread _, kept | .templateLiteral .., kept | .regExp .., kept
  | .yield .., kept | .await _, kept | .jsxElement .., kept | .unknown .., kept => kept.map_eq

theorem names_renamedInAll : ∀ expressions, Kept renames (namesPassedInAll expressions) →
      namesOfAll (renameVariablesInAll renames expressions) =
        (namesOfAll expressions).map (renamedTo renames)
  | [], _ => rfl
  | first :: rest, kept => by
    obtain ⟨inFirst, inRest⟩ := kept_append.mp kept
    have ofFirst := names_renamedInExpr first inFirst
    have ofRest := names_renamedInAll rest inRest
    simp [renameVariablesInAll, namesOfAll, ofFirst, ofRest]

theorem names_renamedInElements : ∀ elements,
    Kept renames (namesPassedInElements elements) →
      namesOfElements (renameVariablesInElements renames elements) =
        (namesOfElements elements).map (renamedTo renames)
  | [], _ => rfl
  | none :: rest, kept => names_renamedInElements rest kept
  | some first :: rest, kept => by
    obtain ⟨inFirst, inRest⟩ := kept_append.mp kept
    have ofFirst := names_renamedInExpr first inFirst
    have ofRest := names_renamedInElements rest inRest
    simp [renameVariablesInElements, namesOfElements, ofFirst, ofRest]

theorem names_renamedInKey : ∀ key : PropertyKey,
    Kept renames (namesPassedInKey key) →
      (renameVariablesInKey renames key).names = key.names.map (renamedTo renames)
  | .computed key, kept => names_renamedInExpr key kept
  | .ident _, _ | .string _, _ | .index _, _ => rfl

theorem names_renamedInProperties : ∀ properties,
    Kept renames (namesPassedInProperties properties) →
      namesOfProperties (renameVariablesInProperties renames properties) =
        (namesOfProperties properties).map (renamedTo renames)
  | [], _ => rfl
  | .mk key value :: rest, kept => by
    obtain ⟨inKey, kept⟩ := kept_append.mp kept
    obtain ⟨inValue, inRest⟩ := kept_append.mp kept
    have ofKey := names_renamedInKey key inKey
    have ofValue := names_renamedInExpr value inValue
    have ofRest := names_renamedInProperties rest inRest
    simp [renameVariablesInProperties, namesOfProperties, ofKey, ofValue, ofRest]

theorem names_renamedInTarget : ∀ target : AssignTarget,
    Kept renames (namesPassedInTarget target) →
      (renameVariablesInTarget renames target).names = target.names.map (renamedTo renames)
  | .binding (.variable _), _ => rfl
  | .binding (.register _), _ | .binding (.closureVar _ _), _ => rfl
  | .member object _, kept => names_renamedInExpr object kept
  | .index object key, kept => by
    obtain ⟨inObject, inKey⟩ := kept_append.mp kept
    have ofObject := names_renamedInExpr object inObject
    have ofKey := names_renamedInExpr key inKey
    simp [renameVariablesInTarget, AssignTarget.names, ofObject, ofKey]
  | .destructuringArray _, kept | .destructuringArrayRest .., kept
  | .destructuringObject _, kept | .destructuringObjectRest .., kept | .rest _, kept => kept.map_eq

end

theorem names_renamedInOption (expression : Option Expression)
    (kept : Kept renames (namesPassedInOption expression)) :
    namesOfOption (expression.map (renameVariablesInExpr renames)) =
      (namesOfOption expression).map (renamedTo renames) := by
  cases expression with
  | none => rfl
  | some expression => exact names_renamedInExpr expression kept

mutual

theorem names_renamedInStmt : ∀ statement : Statement,
    Kept renames (namesPassedInStmt statement) →
      (renameVariablesInStmt renames statement).names = statement.names.map (renamedTo renames)
  | .assign target value, kept => by
    obtain ⟨inTarget, inValue⟩ := kept_append.mp kept
    have ofTarget := names_renamedInTarget target inTarget
    have ofValue := names_renamedInExpr value inValue
    simp [renameVariablesInStmt, Statement.names, ofTarget, ofValue]
  | .delete target _, kept => names_renamedInExpr target kept
  | .letStmt name value _, kept => by
    have ofValue := names_renamedInExpr value kept
    have ofName : (match renames name.name with
        | some new => (⟨new, none⟩ : Var)
        | none => name).name = renamedTo renames name.name := by
      rw [renamedTo]
      cases renames name.name <;> rfl
    simp [renameVariablesInStmt, Statement.names, ofValue, ofName]
  | .expr value, kept | .returnStmt (some value), kept | .throwStmt value, kept => names_renamedInExpr value kept
  | .returnStmt none, _ => rfl
  | .ifStmt condition thenBody elseBody, kept => by
    obtain ⟨inCondition, inBodies⟩ := kept_append.mp kept
    obtain ⟨inThen, inElse⟩ := kept_append.mp inBodies
    have ofCondition := names_renamedInExpr condition inCondition
    have ofThen := names_renamedInStmts thenBody inThen
    have ofElse := names_renamedInStmts elseBody inElse
    simp [renameVariablesInStmt, Statement.names, ofCondition, ofThen, ofElse]
  | .whileStmt condition body, kept => by
    obtain ⟨inCondition, inBody⟩ := kept_append.mp kept
    have ofCondition := names_renamedInExpr condition inCondition
    have ofBody := names_renamedInStmts body inBody
    simp [renameVariablesInStmt, Statement.names, ofCondition, ofBody]
  | .doWhile body condition, kept => by
    obtain ⟨inBody, inCondition⟩ := kept_append.mp kept
    have ofBody := names_renamedInStmts body inBody
    have ofCondition := names_renamedInExpr condition inCondition
    simp [renameVariablesInStmt, Statement.names, ofCondition, ofBody]
  | .forStmt init condition update body, kept => by
    obtain ⟨inInit, kept⟩ := kept_append.mp kept
    obtain ⟨inCondition, kept⟩ := kept_append.mp kept
    obtain ⟨inUpdate, inBody⟩ := kept_append.mp kept
    have ofInit := names_renamedInPart init inInit
    have ofCondition := names_renamedInOption condition inCondition
    have ofUpdate := names_renamedInPart update inUpdate
    have ofBody := names_renamedInStmts body inBody
    simp [renameVariablesInStmt, Statement.names, ofInit, ofCondition, ofUpdate, ofBody]
  | .block body, kept => names_renamedInStmts body kept
  | .forOf name iterable body, kept => by
    obtain ⟨inIterable, inBody⟩ := kept_append.mp kept
    have ofIterable := names_renamedInExpr iterable inIterable
    have ofBody := names_renamedInStmts body inBody
    simp [renameVariablesInStmt, Statement.names, ofIterable, ofBody]
  | .forIn name object body, kept => by
    obtain ⟨inObject, inBody⟩ := kept_append.mp kept
    have ofObject := names_renamedInExpr object inObject
    have ofBody := names_renamedInStmts body inBody
    simp [renameVariablesInStmt, Statement.names, ofObject, ofBody]
  | .switch discriminant cases default, kept => by
    obtain ⟨inDiscriminant, kept⟩ := kept_append.mp kept
    obtain ⟨inCases, inDefault⟩ := kept_append.mp kept
    have ofDiscriminant := names_renamedInExpr discriminant inDiscriminant
    have ofCases := names_renamedInCases cases inCases
    have ofDefault := names_renamedInDefault default inDefault
    simp [renameVariablesInStmt, Statement.names, ofDiscriminant, ofCases, ofDefault]
  | .tryCatch tryBody catchParam catchBody finallyBody, kept => by
    obtain ⟨inTry, kept⟩ := kept_append.mp kept
    obtain ⟨inCatch, inFinally⟩ := kept_append.mp kept
    have ofTry := names_renamedInStmts tryBody inTry
    have ofCatch := names_renamedInStmts catchBody inCatch
    have ofFinally := names_renamedInStmts finallyBody inFinally
    have ofParam : (catchParam.map (renamedTo renames)).toList =
        catchParam.toList.map (renamedTo renames) := by cases catchParam <;> rfl
    simp [renameVariablesInStmt, Statement.names, ofTry, ofCatch, ofFinally, ofParam]
  | .classStmt name superClass constructor methods, kept => by
    obtain ⟨ofName, kept⟩ := kept_cons.mp kept
    obtain ⟨inSuper, kept⟩ := kept_append.mp kept
    obtain ⟨inConstructor, inMethods⟩ := kept_append.mp kept
    have ofSuper := names_renamedInOption superClass inSuper
    have ofConstructor := names_renamedInPart constructor inConstructor
    have ofMethods := names_renamedInMethods methods inMethods
    simp [renameVariablesInStmt, Statement.names, ofSuper, ofConstructor, ofMethods,
      renamedTo_of_none ofName]
  | .debugger, kept | .comment _, kept | .breakStmt _, kept | .continueStmt _, kept
  | .goto _, kept | .condGoto .., kept => kept.map_eq

theorem names_renamedInStmts : ∀ statements, Kept renames (namesPassedInStmts statements) →
      namesOfStatements (renameVariablesInStmts renames statements) =
        (namesOfStatements statements).map (renamedTo renames)
  | [], _ => rfl
  | first :: rest, kept => by
    obtain ⟨inFirst, inRest⟩ := kept_append.mp kept
    have ofFirst := names_renamedInStmt first inFirst
    have ofRest := names_renamedInStmts rest inRest
    simp [renameVariablesInStmts, namesOfStatements, ofFirst, ofRest]

theorem names_renamedInPart : ∀ statement, Kept renames (namesPassedInPart statement) →
      namesOfStatement (renameVariablesInPart renames statement) =
        (namesOfStatement statement).map (renamedTo renames)
  | none, _ => rfl
  | some statement, kept => names_renamedInStmt statement kept

theorem names_renamedInDefault : ∀ default, Kept renames (namesPassedInDefault default) →
      namesOfDefault (renameVariablesInDefault renames default) =
        (namesOfDefault default).map (renamedTo renames)
  | none, _ => rfl
  | some body, kept => names_renamedInStmts body kept

theorem names_renamedInCases : ∀ cases, Kept renames (namesPassedInCases cases) →
      namesOfCases (renameVariablesInCases renames cases) =
        (namesOfCases cases).map (renamedTo renames)
  | [], _ => rfl
  | (test, body) :: rest, kept => by
    obtain ⟨inTest, kept⟩ := kept_append.mp kept
    obtain ⟨inBody, inRest⟩ := kept_append.mp kept
    have ofTest := names_renamedInExpr test inTest
    have ofBody := names_renamedInStmts body inBody
    have ofRest := names_renamedInCases rest inRest
    simp [renameVariablesInCases, namesOfCases, ofTest, ofBody, ofRest]

theorem names_renamedInMethods : ∀ methods, Kept renames (namesPassedInMethods methods) →
      namesOfMethods (renameVariablesInMethods renames methods) =
        (namesOfMethods methods).map (renamedTo renames)
  | [], _ => rfl
  | .mk _ value body _ _ params :: rest, kept => by
    obtain ⟨inParams, kept⟩ := kept_append.mp kept
    obtain ⟨inValue, kept⟩ := kept_append.mp kept
    obtain ⟨inBody, inRest⟩ := kept_append.mp kept
    have ofParams := inParams.map_eq
    have ofValue := names_renamedInExpr value inValue
    have ofBody := inBody.map_eq
    have ofRest := names_renamedInMethods rest inRest
    simp [renameVariablesInMethods, namesOfMethods, ofValue, ofRest, ← ofParams, ← ofBody]

end

end Names

/-- The name of a mention. -/
def Mention.name : Mention → String
  | declared name => name
  | written name => name
  | read name => name

/-- The names the visitor collects, in order. -/
def collectedNames (statements : List Statement) : List String :=
  (TreeSet.ofList ((mentionsOfStatements statements).map Mention.name)).toList

/-- Put a name with the others that have its sanitised form. -/
def addToGroup (groups : TreeMap String (List String)) (name : String) :
    TreeMap String (List String) :=
  groups.insert (sanitizeIdentifier name) ((groups[sanitizeIdentifier name]?).getD [] ++ [name])

/-- Names by their sanitised form. -/
def bySanitized (names : List String) : TreeMap String (List String) := names.foldl addToGroup ∅

/-- The names taken and the new names given so far. -/
structure Numbering where
  taken : List String
  renames : TreeMap String String

/-- Give a name a numbered form, unless it is spelled as the sanitised form already. -/
def numberName (sanitized : String) (state : Numbering) (name : String) : Numbering :=
  if name = sanitized then state
  else
    let fresh := Fresh.firstFree state.taken (fun number => sanitized ++ toString number) 2
    ⟨fresh :: state.taken, state.renames.insert name fresh⟩

/-- Give the names of a group numbered forms, unless there is only one. -/
def numberGroup (state : Numbering) (group : String × List String) : Numbering :=
  if group.2.length < 2 then state else group.2.foldl (numberName group.1) state

/-- The new names of the variables that would print as another one. -/
def sanitizedRenames (statements : List Statement) : TreeMap String String :=
  ((bySanitized (collectedNames statements)).toList.foldl numberGroup
    ⟨(bySanitized (collectedNames statements)).keys, ∅⟩).renames

def makeSanitizedNamesDistinct (statements : List Statement) : List Statement :=
  if (sanitizedRenames statements).isEmpty then statements
  else renameVariablesInStmts ((sanitizedRenames statements)[·]?) statements

theorem getElem?_foldl_addToGroup (sanitized : String) : ∀ (names : List String)
    (groups : TreeMap String (List String)),
    ((names.foldl addToGroup groups)[sanitized]?).getD [] =
      (groups[sanitized]?).getD [] ++ names.filter (sanitizeIdentifier · = sanitized) := by
  intro names
  induction names with
  | nil => exact fun groups => (append_nil _).symm
  | cons name rest ih =>
    intro groups
    rw [foldl_cons, ih, addToGroup, TreeMap.getElem?_insert]
    by_cases same : sanitizeIdentifier name = sanitized
    · subst same
      simp
    · have apart : compare (sanitizeIdentifier name) sanitized ≠ .eq :=
        fun equal => same (Std.compare_eq_iff_eq.mp equal)
      rw [if_neg apart, filter_cons_of_neg (by simpa using same)]

theorem mem_foldl_addToGroup (sanitized : String) : ∀ (names : List String)
    (groups : TreeMap String (List String)),
    sanitized ∈ names.foldl addToGroup groups ↔
      sanitized ∈ groups ∨ ∃ name ∈ names, sanitizeIdentifier name = sanitized := by
  intro names
  induction names with
  | nil => simp
  | cons name rest ih =>
    intro groups
    rw [foldl_cons, ih, addToGroup, TreeMap.mem_insert, Std.compare_eq_iff_eq]
    simp [or_comm, or_assoc]

theorem mem_keys_bySanitized {names : List String} {sanitized : String} :
    sanitized ∈ (bySanitized names).keys ↔ ∃ name ∈ names, sanitizeIdentifier name = sanitized := by
  rw [TreeMap.mem_keys, bySanitized, mem_foldl_addToGroup]
  simp

/-- A group has the names of a sanitised form. -/
theorem mem_toList_bySanitized {names : List String} {sanitized : String} {group : List String}
    (listed : (sanitized, group) ∈ (bySanitized names).toList) :
    group = names.filter (sanitizeIdentifier · = sanitized) := by
  have found := TreeMap.mem_toList_iff_getElem?_eq_some.mp listed
  have whole := getElem?_foldl_addToGroup sanitized names ∅
  rw [← bySanitized, found, TreeMap.getElem?_emptyc] at whole
  exact whole

theorem nodup_collectedNames (statements : List Statement) : (collectedNames statements).Nodup := by
  rw [collectedNames]
  refine TreeSet.distinct_toList.imp ?_
  exact fun apart same => apart (Std.compare_eq_iff_eq.mpr same)

theorem mem_collectedNames {statements : List Statement} {name : String} :
    name ∈ collectedNames statements ↔
      name ∈ (mentionsOfStatements statements).map Mention.name := by
  rw [collectedNames, TreeSet.mem_toList, TreeSet.mem_ofList, contains_iff_mem]

/-- A name shares its sanitised form with another one collected, and is not spelled as it. -/
def Shared (statements : List Statement) (name : String) : Prop :=
  name ∈ collectedNames statements ∧ name ≠ sanitizeIdentifier name ∧
    ∃ other ∈ collectedNames statements, other ≠ name ∧
      sanitizeIdentifier other = sanitizeIdentifier name

theorem toList_append_number (name : String) (number : Nat) :
    (name ++ toString number).toList = name.toList ++ Nat.toDigits 10 number := by
  rw [String.toList_append]
  congr 1
  exact String.toList_ofList

/-- A numbered sanitised name is sanitised. -/
theorem sanitized_append_number {name : String} (sanitized : Sanitized name) (number : Nat) :
    Sanitized (name ++ toString number) := by
  have digits : ∀ char ∈ Nat.toDigits 10 number, char.isDigit = true :=
    fun char => Nat.isDigit_of_mem_toDigits (by decide) (by decide)
  have identifies := (isValidIdentifier_iff name).mp sanitized.valid
  constructor
  · rw [isValidIdentifier_iff, toList_append_number]
    cases begins : name.toList with
    | nil =>
      rw [begins] at identifies
      exact identifies.elim
    | cons first rest =>
      rw [begins] at identifies
      refine ⟨identifies.1, fun char member => ?_⟩
      rcases mem_append.mp member with inRest | inDigits
      · exact identifies.2 char inRest
      · rw [isIdentifierPart, digits char inDigits, Bool.or_true]
  · intro reserved
    have none : (reservedWords.all fun word => word.toList.all fun char => !char.isDigit) = true := by
      decide
    obtain ⟨first, rest, begins⟩ := exists_cons_of_ne_nil
      (Nat.toDigits_ne_nil (n := number) (b := 10))
    have member : first ∈ Nat.toDigits 10 number := begins ▸ mem_cons_self
    have inName : first ∈ (name ++ toString number).toList :=
      toList_append_number name number ▸ mem_append_right _ member
    have noDigit := all_eq_true.mp
      (all_eq_true.mp none _ (contains_iff_mem.mp reserved)) first inName
    rw [digits first member] at noDigit
    cases noDigit

/-- What is known of the new names while they are given: they are taken, no sanitised form, numbered
and different. -/
structure Given (keys : List String) (state : Numbering) : Prop where
  held : ∀ key ∈ keys, key ∈ state.taken
  fresh : ∀ old new, state.renames[old]? = some new → new ∈ state.taken ∧ new ∉ keys ∧
    ∃ number : Nat, new = sanitizeIdentifier old ++ toString number
  separate : ∀ old old' new : String, state.renames[old]? = some new →
    state.renames[old']? = some new → old = old'

theorem given_numberName {keys : List String} {state : Numbering} (given : Given keys state)
    {sanitized name : String} (grouped : sanitizeIdentifier name = sanitized) :
    Given keys (numberName sanitized state name) := by
  rw [numberName]
  split_ifs with spelled
  · exact given
  · have free := Fresh.firstFree_notMem state.taken (Fresh.numbered_injective sanitized) 2
    obtain ⟨number, -, numbered⟩ := Fresh.firstFree_eq state.taken
      (fun number => sanitized ++ toString number) 2
    generalize Fresh.firstFree state.taken (fun number => sanitized ++ toString number) 2 = fresh
      at free numbered
    constructor
    case held => exact fun key member => mem_cons_of_mem _ (given.held key member)
    case fresh =>
      intro old new found
      rw [TreeMap.getElem?_insert] at found
      split_ifs at found with same
      · obtain rfl := Std.compare_eq_iff_eq.mp same
        cases found
        exact ⟨mem_cons_self, fun member => free (given.held _ member), number,
          grouped.symm ▸ numbered⟩
      · obtain ⟨taken, rest⟩ := given.fresh old new found
        exact ⟨mem_cons_of_mem _ taken, rest⟩
    case separate =>
      have other : ∀ {old new : String}, state.renames[old]? = some new → new ≠ fresh :=
        fun found same => free (same ▸ (given.fresh _ _ found).1)
      intro old old' new found found'
      rw [TreeMap.getElem?_insert] at found found'
      split_ifs at found found' with same same' same'
      · exact (Std.compare_eq_iff_eq.mp same).symm.trans (Std.compare_eq_iff_eq.mp same')
      · exact absurd (Option.some.inj found).symm (other found')
      · exact absurd (Option.some.inj found').symm (other found)
      · exact given.separate old old' new found found'

theorem renamed_numberName {sanitized name other : String} {state : Numbering} :
    other ∈ (numberName sanitized state name).renames ↔
      (other = name ∧ other ≠ sanitized) ∨ other ∈ state.renames := by
  rw [numberName]
  split_ifs with spelled
  · simp +contextual [spelled]
  · rw [TreeMap.mem_insert, Std.compare_eq_iff_eq]
    constructor
    · rintro (rfl | old)
      · exact .inl ⟨rfl, spelled⟩
      · exact .inr old
    · rintro (⟨rfl, -⟩ | old)
      · exact .inl rfl
      · exact .inr old

theorem given_foldl_numberName {keys : List String} {sanitized : String} :
    ∀ {names : List String} {state : Numbering}, Given keys state →
      (∀ name ∈ names, sanitizeIdentifier name = sanitized) →
      Given keys (names.foldl (numberName sanitized) state) ∧
        ∀ other, other ∈ (names.foldl (numberName sanitized) state).renames ↔
          (other ∈ names ∧ other ≠ sanitized) ∨ other ∈ state.renames := by
  intro names
  induction names with
  | nil => exact fun given _ => ⟨given, by simp⟩
  | cons name rest ih =>
    intro state given grouped
    obtain ⟨later, renamed⟩ := ih (given_numberName given (grouped name mem_cons_self))
      (fun other member => grouped other (mem_cons_of_mem _ member))
    refine ⟨later, fun other => ?_⟩
    rw [foldl_cons, renamed, renamed_numberName, mem_cons]
    tauto

theorem given_foldl_numberGroup {keys : List String} :
    ∀ {groups : List (String × List String)} {state : Numbering}, Given keys state →
      (∀ group ∈ groups, ∀ name ∈ group.2, sanitizeIdentifier name = group.1) →
      Given keys (groups.foldl numberGroup state) ∧
        ∀ other, other ∈ (groups.foldl numberGroup state).renames ↔
          (∃ group ∈ groups, 2 ≤ group.2.length ∧ other ∈ group.2 ∧ other ≠ group.1) ∨
            other ∈ state.renames := by
  intro groups
  induction groups with
  | nil => exact fun given _ => ⟨given, by simp⟩
  | cons group rest ih =>
    intro state given grouped
    have here : Given keys (numberGroup state group) ∧
        ∀ other, other ∈ (numberGroup state group).renames ↔
          (2 ≤ group.2.length ∧ other ∈ group.2 ∧ other ≠ group.1) ∨ other ∈ state.renames := by
      rw [numberGroup]
      split_ifs with small
      · refine ⟨given, fun other => ?_⟩
        rw [or_iff_right]
        exact fun many => Nat.not_le.mpr small many.1
      · have numbered := given_foldl_numberName given (grouped group mem_cons_self)
        refine ⟨numbered.1, fun other => (numbered.2 other).trans ?_⟩
        rw [and_iff_right (Nat.not_lt.mp small)]
    obtain ⟨later, renamed⟩ := ih here.1
      (fun other member => grouped other (mem_cons_of_mem _ member))
    refine ⟨later, fun other => ?_⟩
    rw [foldl_cons, renamed, here.2, exists_mem_cons_iff, or_assoc, or_left_comm]

/-- Two different names of a list without repetitions make it longer than one. -/
theorem two_le_length_iff {names : List String} (distinct : names.Nodup) {name : String}
    (member : name ∈ names) : 2 ≤ names.length ↔ ∃ other ∈ names, other ≠ name := by
  constructor
  · intro many
    by_contra only
    push Not at only
    have small : names.length ≤ [name].length :=
      (distinct.subperm fun other member => mem_singleton.mpr (only other member)).length_le
    rw [length_singleton] at small
    omega
  · rintro ⟨other, found, different⟩
    have pair : [other, name].Nodup := nodup_cons.mpr
      ⟨fun same => different (mem_singleton.mp same), nodup_singleton name⟩
    refine (pair.subperm ?_).length_le
    intro one isOne
    rcases mem_pair.mp isOne with rfl | rfl
    · exact found
    · exact member

/-- The names given are fresh, and exactly the shared names are given one. -/
theorem given_sanitizedRenames (statements : List Statement) :
    (∃ taken, Given (bySanitized (collectedNames statements)).keys
      ⟨taken, sanitizedRenames statements⟩) ∧
    ∀ name, name ∈ sanitizedRenames statements ↔ Shared statements name := by
  have grouped : ∀ group ∈ (bySanitized (collectedNames statements)).toList,
      ∀ name ∈ group.2, sanitizeIdentifier name = group.1 := by
    intro group listed name member
    rw [mem_toList_bySanitized listed] at member
    simpa using (mem_filter.mp member).2
  have start : Given (bySanitized (collectedNames statements)).keys
      ⟨(bySanitized (collectedNames statements)).keys, ∅⟩ := by
    refine ⟨fun _ => id, fun old new found => ?_, fun old old' new found => ?_⟩
    all_goals rw [TreeMap.getElem?_emptyc] at found
    all_goals cases found
  obtain ⟨given, renamed⟩ := given_foldl_numberGroup start grouped
  refine ⟨⟨_, given⟩, fun name => (renamed name).trans ?_⟩
  rw [or_iff_left TreeMap.not_mem_emptyc]
  have distinct := (nodup_collectedNames statements).filter
    (sanitizeIdentifier · = sanitizeIdentifier name)
  constructor
  · rintro ⟨⟨sanitized, group⟩, listed, many, member, different⟩
    obtain rfl := grouped _ listed name member
    obtain rfl := mem_toList_bySanitized listed
    obtain ⟨other, found, apart⟩ := (two_le_length_iff distinct member).mp many
    obtain ⟨inNames, same⟩ := mem_filter.mp found
    exact ⟨(mem_filter.mp member).1, different, other, inNames, apart, by simpa using same⟩
  · rintro ⟨collected, different, other, inNames, apart, same⟩
    have key : sanitizeIdentifier name ∈ bySanitized (collectedNames statements) :=
      TreeMap.mem_keys.mp (mem_keys_bySanitized.mpr ⟨name, collected, rfl⟩)
    obtain ⟨group, found⟩ := Option.isSome_iff_exists.mp (TreeMap.mem_iff_isSome_getElem?.mp key)
    have listed := TreeMap.mem_toList_iff_getElem?_eq_some.mpr found
    obtain rfl := mem_toList_bySanitized listed
    have member : name ∈ (collectedNames statements).filter
        (sanitizeIdentifier · = sanitizeIdentifier name) :=
      mem_filter.mpr ⟨collected, decide_eq_true rfl⟩
    refine ⟨_, listed, (two_le_length_iff distinct member).mpr ⟨other, ?_, apart⟩, member,
      different⟩
    exact mem_filter.mpr ⟨inNames, decide_eq_true same⟩

/-- Different names print as different identifiers, the new names do not occur already, and no two
names become one. -/
structure PrintedApart (statements : List Statement) : Prop where
  apart : ∀ name ∈ namesOfStatements (makeSanitizedNamesDistinct statements),
    ∀ name' ∈ namesOfStatements (makeSanitizedNamesDistinct statements),
      sanitizeIdentifier name = sanitizeIdentifier name' → name = name'
  fresh : ∀ old new : String, (sanitizedRenames statements)[old]? = some new →
    new ∉ namesOfStatements statements
  separate : ∀ old old' new : String, (sanitizedRenames statements)[old]? = some new →
    (sanitizedRenames statements)[old']? = some new → old = old'

/-- The visitor collects every name, and the walk looks wherever a shared name stands. -/
structure Reached (statements : List Statement) : Prop where
  collected : ∀ name ∈ namesOfStatements statements, name ∈ collectedNames statements
  walked : ∀ name ∈ namesPassedInStmts statements, ¬ Shared statements name

theorem names_makeSanitizedNamesDistinct {statements : List Statement}
    (walked : ∀ name ∈ namesPassedInStmts statements, ¬ Shared statements name) :
    namesOfStatements (makeSanitizedNamesDistinct statements) =
      (namesOfStatements statements).map (renamedTo ((sanitizedRenames statements)[·]?)) := by
  have unnamed : ∀ {name}, ¬ Shared statements name → (sanitizedRenames statements)[name]? = none :=
    fun other => TreeMap.getElem?_eq_none (((given_sanitizedRenames statements).2 _).not.mpr other)
  rw [makeSanitizedNamesDistinct]
  split_ifs with nothing
  · exact Kept.map_eq fun name _ => TreeMap.getElem?_of_isEmpty nothing
  · exact names_renamedInStmts statements fun name passed => unnamed (walked name passed)

/-- Every name is sanitised to an identifier that stays as it is and is no reserved word but a
readable one. Where the visitor and the walk look, different variables print as different
identifiers, under names that did not occur. -/
theorem sanitized_names_printedApart :
    (∀ name, Sanitized (sanitizeIdentifier name) ∧
      sanitizeIdentifier (sanitizeIdentifier name) = sanitizeIdentifier name) ∧
    ∀ statements, Reached statements → PrintedApart statements := by
  refine ⟨fun name => ⟨sanitized_sanitizeIdentifier name,
    (sanitized_sanitizeIdentifier name).sanitizeIdentifier_eq⟩, ?_⟩
  rintro statements ⟨collected, walked⟩
  obtain ⟨⟨taken, given⟩, renamed⟩ := given_sanitizedRenames statements
  have isKey : ∀ {name}, name ∈ namesOfStatements statements →
      sanitizeIdentifier name ∈ (bySanitized (collectedNames statements)).keys :=
    fun member => mem_keys_bySanitized.mpr ⟨_, collected _ member, rfl⟩
  have stays : ∀ {old new : String}, (sanitizedRenames statements)[old]? = some new →
      sanitizeIdentifier new = new := by
    intro old new found
    obtain ⟨-, -, number, rfl⟩ := given.fresh old new found
    exact (sanitized_append_number (sanitized_sanitizeIdentifier old) number).sanitizeIdentifier_eq
  have numbered : ∀ {old new name : String}, (sanitizedRenames statements)[old]? = some new →
      name ∈ namesOfStatements statements → sanitizeIdentifier new ≠ sanitizeIdentifier name := by
    intro old new name found member same
    have fresh := (given.fresh old new found).2.1
    rw [← stays found, same] at fresh
    exact fresh (isKey member)
  have unrenamed : ∀ {name}, (sanitizedRenames statements)[name]? = none →
      ¬ Shared statements name := by
    intro name absent shared
    have member := TreeMap.mem_iff_isSome_getElem?.mp ((renamed name).mpr shared)
    rw [absent] at member
    cases member
  constructor
  case apart =>
    intro name member name' member' same
    rw [names_makeSanitizedNamesDistinct walked] at member member'
    obtain ⟨old, inOld, rfl⟩ := mem_map.mp member
    obtain ⟨old', inOld', rfl⟩ := mem_map.mp member'
    rw [renamedTo, renamedTo] at same ⊢
    cases found : (sanitizedRenames statements)[old]? with
    | some new =>
      rw [found] at same
      cases found' : (sanitizedRenames statements)[old']? with
      | some new' =>
        rw [found'] at same
        exact (stays found).symm.trans (same.trans (stays found'))
      | none =>
        rw [found'] at same
        exact absurd same (numbered found inOld')
    | none =>
      rw [found] at same
      cases found' : (sanitizedRenames statements)[old']? with
      | some new' =>
        rw [found'] at same
        exact absurd same.symm (numbered found' inOld)
      | none =>
        rw [found'] at same
        by_contra different
        rw [Option.getD_none, Option.getD_none] at same different
        by_cases spelled : old = sanitizeIdentifier old
        · refine unrenamed found' ⟨collected _ inOld', ?_, old, collected _ inOld, different, same⟩
          intro spelled'
          exact different (spelled.trans (same.trans spelled'.symm))
        · exact unrenamed found ⟨collected _ inOld, spelled, old', collected _ inOld',
            fun equal => different equal.symm, same.symm⟩
  case fresh =>
    intro old new found member
    exact numbered found member rfl
  case separate => exact given.separate

/-- A module and its name spelled as an identifier. -/
def hyphenated : List Statement :=
  [.letStmt ⟨"react_native", none⟩ (.value (.constant (.integer 1))) .const,
    .assign (.binding (.variable ⟨"react-native", none⟩))
      (.value (.binding (.variable ⟨"react-native", none⟩)))]

/-- A hyphenated name no longer prints as an existing one. -/
theorem hyphenated_printedApart : PrintedApart hyphenated := by
  refine sanitized_names_printedApart.2 hyphenated ⟨?_, nofun⟩
  intro name member
  rw [mem_collectedNames]
  exact member

/-- A module and its name spelled as an identifier, the module in a template. -/
def hyphenatedInTemplate : List Statement :=
  [.letStmt ⟨"react_native", none⟩ (.value (.constant (.integer 1))) .const,
    .expr (.templateLiteral ["", ""] [.value (.binding (.variable ⟨"react-native", none⟩))])]

/-- A word stays reserved, and a name in a template keeps printing as another. -/
theorem hyphenatedInTemplate_printed :
    isReservedWord (sanitizeIdentifier "arguments") = true ∧
      ¬ PrintedApart hyphenatedInTemplate := by
  refine ⟨by decide, ?_⟩
  rintro ⟨apart, -, -⟩
  have spelled : (sanitizedRenames hyphenatedInTemplate)["react_native"]? = none := by
    refine TreeMap.getElem?_eq_none
      (((given_sanitizedRenames hyphenatedInTemplate).2 "react_native").not.mpr ?_)
    exact fun shared => shared.2.1 (by decide)
  have names : namesOfStatements (makeSanitizedNamesDistinct hyphenatedInTemplate) =
      ["react_native", "react-native"] := by
    rw [makeSanitizedNamesDistinct]
    split_ifs
    · rfl
    · simp only [hyphenatedInTemplate, renameVariablesInStmts, renameVariablesInStmt,
        renameVariablesInExpr, namesOfStatements, Statement.names, Expression.names, namesOfAll,
        Binding.names, append_nil, cons_append, nil_append] at spelled ⊢
      rw [spelled]
  rw [names] at apart
  have same := apart "react_native" mem_cons_self "react-native"
    (mem_cons_of_mem _ mem_cons_self) (by decide)
  exact absurd same (by decide)

end HermesDecomp.Ir
