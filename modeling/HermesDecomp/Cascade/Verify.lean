import HermesDecomp.Ir.Execution
import HermesDecomp.Ir.Names
import Std.Data.TreeMap

/-!
# Checking proposed names

A proposal claims what a function is. It is believed only when the body has the shape the
role calls for: nothing to do, one return of a parameter or of a constant, or a return of an
element of an array whose strings the file holds. The first three shapes decide every call.
That of a string decoder decides what the calls return that end in the return it looked at,
with the array as it is written.
-/

namespace HermesDecomp.Cascade

open Ir List
open Std (TreeMap)

/-- Identifies the bundle an artifact was made for. -/
structure BundleFingerprint where
  hbcVersion : Nat
  functionCount : Nat
  stringCount : Nat
  stringDigest : Nat
deriving DecidableEq, Repr

/-- What a proposal claims a function is. -/
inductive Role where
  | stringDecoder
  | constantReturner
  | identity
  | noop
deriving DecidableEq, Repr

structure Proposal where
  functionId : Nat
  name : String
  role : Role
deriving DecidableEq, Repr

structure Artifact where
  version : Nat
  bundle : BundleFingerprint
  proposals : List Proposal
deriving DecidableEq, Repr

/-- Why a proposal was not believed. -/
inductive Rejection where
  | artifactVersion (found : Nat)
  | wrongBundle
  | unknownFunction
  | nameNotAnIdentifier
  | nameIsReserved
  | roleNotConfirmed (observed : String)
  | stringsAbsentFromTable (missing checked : Nat)
deriving DecidableEq, Repr

/-- The confirmed names, and the proposals rejected. -/
structure VerifiedArtifact where
  names : TreeMap Nat String
  rejected : List (Proposal × Rejection)

/-- The version of the artifacts that are read. -/
def artifactVersion : Nat := 1

/-- Comments and empty blocks carry nothing. -/
def carries : Statement → Bool
  | .comment _ => false
  | .block inner => !inner.isEmpty
  | _ => true

/-- A body is judged on the statements that carry something. -/
def effectiveStatements (body : List Statement) : List Statement := body.filter carries

/-- What a body is, for a rejection. -/
def describe (body : List Statement) : String :=
  match effectiveStatements body with
  | [] => "empty"
  | [.returnStmt none] => "a bare return"
  | [.returnStmt (some _)] => "a single return of something else"
  | [_] => "a single statement of another kind"
  | _ => "more than one statement"

def confirmNoop (body : List Statement) : Except Rejection Unit :=
  match effectiveStatements body with
  | [] => .ok ()
  | [.returnStmt none] => .ok ()
  | [.returnStmt (some (.value (.constant .undefined)))] => .ok ()
  | _ => .error (.roleNotConfirmed (describe body))

def confirmIdentity (body : List Statement) : Except Rejection Unit :=
  match effectiveStatements body with
  | [.returnStmt (some (.value (.parameter _)))] => .ok ()
  | _ => .error (.roleNotConfirmed (describe body))

def confirmConstantReturner (body : List Statement) : Except Rejection Unit :=
  match effectiveStatements body with
  | [.returnStmt (some (.value (.constant _)))] => .ok ()
  | _ => .error (.roleNotConfirmed (describe body))

/-- The value a statement returns. -/
def returnedValue : Statement → Option Expression
  | .returnStmt value => value
  | _ => none

/-- The array a statement binds to a variable. -/
def arrayBoundTo (name : Var) : Statement → Option (List (Option Expression))
  | .letStmt name' (.array elements) _ => if name' == name then some elements else none
  | .assign (.binding (.variable name')) (.array elements) =>
      if name' == name then some elements else none
  | _ => none

/-- The array an expression is, or the one last bound to the variable it is. -/
def resolveArray (object : Expression) (statements : List Statement) :
    Option (List (Option Expression)) :=
  match object with
  | .array elements => some elements
  | .value (.binding (.variable name)) => statements.reverse.findSome? (arrayBoundTo name)
  | _ => none

/-- An element that is a string constant. -/
def stringElement : Option Expression → Option String
  | some (.value (.constant (.string text))) => some text
  | _ => none

/-- A key that indexes. A fixed property name is a field access. -/
def indexes : PropertyKey → Bool
  | .computed _ => true
  | .index _ => true
  | _ => false

/-- The strings a body of the shape of a decoder can return. -/
def decodedStrings (body : List Statement) : Option (List String) :=
  match (effectiveStatements body).reverse.findSome? returnedValue with
  | some (.member object property _) =>
      if indexes property then
        (resolveArray object (effectiveStatements body)).bind (·.mapM stringElement)
      else none
  | _ => none

def confirmStringDecoder (body : List Statement) (table : List String) : Except Rejection Unit :=
  match decodedStrings body with
  | none => .error (.roleNotConfirmed (describe body))
  | some strings =>
      if strings.isEmpty then .error (.roleNotConfirmed "an empty table")
      else
        let missing := strings.countP (· ∉ table)
        if 0 < missing then .error (.stringsAbsentFromTable missing strings.length) else .ok ()

/-- Check one proposal. -/
def check (proposal : Proposal) (bodies : TreeMap Nat (List Statement)) (table : List String) :
    Except Rejection Unit :=
  if !isValidIdentifier proposal.name then .error .nameNotAnIdentifier
  else if isReservedWord proposal.name then .error .nameIsReserved
  else
    match bodies[proposal.functionId]? with
    | none => .error .unknownFunction
    | some body =>
        match proposal.role with
        | .noop => confirmNoop body
        | .identity => confirmIdentity body
        | .constantReturner => confirmConstantReturner body
        | .stringDecoder => confirmStringDecoder body table

/-- Record the outcome of the check of one proposal. -/
def record (bodies : TreeMap Nat (List Statement)) (table : List String)
    (out : VerifiedArtifact) (proposal : Proposal) : VerifiedArtifact :=
  match check proposal bodies table with
  | .ok _ => { out with names := out.names.insert proposal.functionId proposal.name }
  | .error reason => { out with rejected := out.rejected ++ [(proposal, reason)] }

/-- Verify the proposals of an artifact. -/
def verify (artifact : Artifact) (fingerprint : BundleFingerprint) (table : List String)
    (bodies : TreeMap Nat (List Statement)) : VerifiedArtifact :=
  if artifact.version ≠ artifactVersion then
    ⟨∅, artifact.proposals.map (·, .artifactVersion artifact.version)⟩
  else if artifact.bundle ≠ fingerprint then ⟨∅, artifact.proposals.map (·, .wrongBundle)⟩
  else artifact.proposals.foldl (record bodies table) ⟨∅, []⟩

/-- A host that is left unchanged by a scope in which nothing happens. -/
structure Scoped (host : Host) : Prop where
  close_open : ∀ world, host.closeScope (host.openScope world) = world

/-- The value a call returns, if it returns. -/
def returned {host : Host} : Outcome (Exit host) PUnit → Option host.Val
  | .ok _ => some (host.constant .undefined)
  | .err (.returns value) => some (value.getD (host.constant .undefined))
  | _ => none

/-- Every call of a body returns a value, and does nothing else. -/
def OnlyReturns {host : Host} (body : List Statement) (value : host.Val) : Prop :=
  ∀ (fuel : Nat) (start : Machine host),
    returned (executeAll fuel none body start).1 = some value ∧
      (executeAll fuel none body start).2 = start

/-- Every call of a body that returns, returns a string of the table. -/
def ReturnsStrings (table : List String) (body : List Statement) : Prop :=
  ∀ host : Host, Scoped host → ∀ (fuel : Nat) (start : Machine host) (value : host.Val),
    returned (executeAll fuel none body start).1 = some value →
      ∃ text ∈ table, value = host.constant (.string text)

/-- An array literal of strings. -/
def literal (strings : List String) : List (Option Expression) :=
  strings.map fun text => some (.value (.constant (.string text)))

/-- An expression is an array literal, or a variable that is last bound to it among some
statements. -/
def Stands (object : Expression) (body : List Statement) (elements : List (Option Expression)) :
    Prop :=
  object = .array elements ∨
    ∃ name earlier statement later, object = .value (.binding (.variable name)) ∧
      body = earlier ++ statement :: later ∧ arrayBoundTo name statement = some elements ∧
        ∀ other ∈ later, arrayBoundTo name other = none

/-- An array has some strings as its first elements. -/
def Holds {host : Host} (world : host.World) (array : host.Val) (strings : List String) : Prop :=
  host.nullish array = false ∧ ∀ (position : Nat) (text : String),
    strings[position]? = some text →
      (host.getMember array (host.index position) world).1 = .ok (host.constant (.string text))

/-- The last return of a value among the statements of a body reads an array of strings of
the table: the calls that end in it return one of them, where the array still has the
elements written and the key is one of its indexes. -/
def ReadsTable (table : List String) (body : List Statement) : Prop :=
  ∃ before object property optional after strings,
    body = before ++ .returnStmt (some (.member object property optional)) :: after ∧
      (∀ statement ∈ after, returnedValue statement = none) ∧
      Stands object body (literal strings) ∧ strings ≠ [] ∧ (∀ text ∈ strings, text ∈ table) ∧
      ∀ (host : Host) (fuel : Nat) (start middle read keyed : Machine host) (array : host.Val)
        (position : Nat), executeAll fuel none before start = (.ok ⟨⟩, middle) →
          object.evaluate middle = (.ok array, read) →
          property.evaluate read = (.ok (host.index position), keyed) →
          Holds keyed.world array strings → position < strings.length →
            ∃ text ∈ table, returned (executeAll fuel none body start).1 =
              some (host.constant (.string text))

/-- What a role says of a body. -/
def Plays (table : List String) (body : List Statement) : Role → Prop
  | .noop => ∀ host : Host, Scoped host → OnlyReturns body (host.constant .undefined)
  | .identity => ∃ index, ∀ host : Host, Scoped host → OnlyReturns body (host.parameter index)
  | .constantReturner =>
      ∃ constant, ∀ host : Host, Scoped host → OnlyReturns body (host.constant constant)
  | .stringDecoder => ReadsTable table body

section Running

variable {host : Host}

/-- What carries nothing does nothing. -/
theorem execute_idle (balanced : Scoped host) {statement : Statement}
    (idle : carries statement = false) (fuel : Nat) (label : Option String)
    (machine : Machine host) : statement.execute fuel label machine = (.ok ⟨⟩, machine) := by
  cases statement
  case comment text => rfl
  case block inner =>
    cases inner with
    | nil =>
      change (Outcome.ok PUnit.unit, { machine with
        world := host.closeScope (host.openScope machine.world) }) = _
      rw [balanced.close_open]
    | cons first rest => cases idle
  all_goals cases idle

/-- Statements that run to their end are followed by what comes after them. -/
theorem executeAll_append {before : List Statement} (rest : List Statement) {fuel : Nat}
    {label : Option String} {start middle : Machine host}
    (ran : executeAll fuel label before start = (.ok ⟨⟩, middle)) :
    ∃ label', executeAll fuel label (before ++ rest) start =
      executeAll fuel label' rest middle := by
  induction before generalizing label start with
  | nil =>
    obtain rfl : start = middle := (Prod.mk.inj ran).2
    exact ⟨label, rfl⟩
  | cons first before ih =>
    rw [executeAll] at ran
    obtain ⟨_, next, step, continued⟩ := Action.bind_eq_ok.mp ran
    obtain ⟨label', same⟩ := ih continued
    refine ⟨label', ?_⟩
    rw [cons_append, executeAll, Action.bind_apply, step]
    exact same

/-- Statements that carry nothing run to their end and do nothing. -/
theorem executeAll_idle (balanced : Scoped host) {before : List Statement}
    (idle : ∀ statement ∈ before, carries statement = false) (fuel : Nat) (label : Option String)
    (machine : Machine host) : executeAll fuel label before machine = (.ok ⟨⟩, machine) := by
  induction before generalizing label with
  | nil => rfl
  | cons first before ih =>
    rw [executeAll]
    exact Action.bind_eq_ok.mpr ⟨⟨⟩, machine,
      execute_idle balanced (idle first mem_cons_self) fuel label machine,
      ih
        (fun statement member => idle statement (mem_cons_of_mem _ member)) _⟩

/-- A bare return ends a body. -/
theorem executeAll_return_none (after : List Statement) (fuel : Nat) (label : Option String)
    (machine : Machine host) :
    executeAll fuel label (.returnStmt none :: after) machine =
      (.err (.returns none), machine) := by
  rw [executeAll, Statement.execute]
  rfl

/-- The return of a value ends a body. -/
theorem executeAll_return_some {value : Expression} {result : host.Val}
    {machine final : Machine host} (evaluates : value.evaluate machine = (.ok result, final))
    (after : List Statement) (fuel : Nat) (label : Option String) :
    executeAll fuel label (.returnStmt (some value) :: after) machine =
      (.err (.returns (some result)), final) := by
  rw [executeAll, Statement.execute]
  simp [Action.bind_apply, evaluates, Action.fail_apply]

variable {body : List Statement}

/-- A body with nothing to do returns undefined. -/
theorem onlyReturns_idle (balanced : Scoped host) (empty : effectiveStatements body = [])
    : OnlyReturns body (host.constant .undefined):= by
  intro fuel start
  have idle : ∀ statement ∈ body, carries statement = false := by
    intro statement member
    rw [← Bool.not_eq_true]
    exact filter_eq_nil_iff.mp empty statement member
  rw [executeAll_idle balanced idle fuel none start]
  exact ⟨rfl, rfl⟩

/-- A return that is all there is to do is what every call comes to. -/
theorem executeAll_single (balanced : Scoped host) {value : Option Expression}
    (single : effectiveStatements body = [.returnStmt value]) (fuel : Nat) (start : Machine host) :
    ∃ label after, executeAll fuel none body start =
      executeAll fuel label (.returnStmt value :: after) start := by
  obtain ⟨before, after, rfl, idle, _, _⟩ := filter_eq_cons_iff.mp single
  obtain ⟨label, same⟩ := executeAll_append (.returnStmt value :: after)
    (executeAll_idle balanced
      (fun statement member => (Bool.not_eq_true _).mp (idle statement member)) fuel none
      start)
  exact ⟨label, after, same⟩

/-- A body with a bare return to do returns undefined. -/
theorem onlyReturns_none (balanced : Scoped host)
    (single : effectiveStatements body = [.returnStmt none]) :
    OnlyReturns body (host.constant .undefined) := by
  intro fuel start
  obtain ⟨label, after, same⟩ := executeAll_single balanced single fuel start
  rw [same, executeAll_return_none]
  exact ⟨rfl, rfl⟩

/-- A body with the return of a value to do returns that value, where computing it has no
effect. -/
theorem onlyReturns_some (balanced : Scoped host) {value : Expression} {result : host.Val}
    (single : effectiveStatements body = [.returnStmt (some value)])
    (quiet : ∀ machine : Machine host, value.evaluate machine = (.ok result, machine)) :
    OnlyReturns body result := by
  intro fuel start
  obtain ⟨label, after, same⟩ := executeAll_single balanced single fuel start
  rw [same, executeAll_return_some (quiet start)]
  exact ⟨rfl, rfl⟩

end Running

section Confirmations

variable {body : List Statement}

theorem plays_noop (confirmed : confirmNoop body = .ok ()) (table : List String) :
    Plays table body .noop := by
  intro host balanced
  unfold confirmNoop at confirmed
  split at confirmed
  · exact onlyReturns_idle balanced ‹_›
  · exact onlyReturns_none balanced ‹_›
  · exact onlyReturns_some balanced ‹_› fun machine => rfl
  · cases confirmed

theorem plays_identity (confirmed : confirmIdentity body = .ok ()) (table : List String) :
    Plays table body .identity := by
  unfold confirmIdentity at confirmed
  split at confirmed
  case h_1 index single =>
    exact ⟨index, fun host balanced => onlyReturns_some balanced single fun machine => rfl⟩
  case h_2 => cases confirmed

theorem plays_constantReturner (confirmed : confirmConstantReturner body = .ok ())
    (table : List String) : Plays table body .constantReturner := by
  unfold confirmConstantReturner at confirmed
  split at confirmed
  case h_1 constant single =>
    exact ⟨constant, fun host balanced => onlyReturns_some balanced single fun machine => rfl⟩
  case h_2 => cases confirmed

/-- The statements that carry nothing do not matter to a search that finds nothing there. -/
theorem findSome?_effectiveStatements {α : Type} {look : Statement → Option α}
    (idle : ∀ statement, carries statement = false → look statement = none)
    (body : List Statement) :
    (effectiveStatements body).reverse.findSome? look = body.reverse.findSome? look := by
  rw [effectiveStatements, ← filter_reverse]
  induction body.reverse with
  | nil => rfl
  | cons first rest ih =>
    rw [List.findSome?_cons]
    cases carried : carries first with
    | true => rw [filter_cons_of_pos carried, List.findSome?_cons, ih]
    | false =>
      rw [filter_cons_of_neg (by rw [carried]; exact Bool.false_ne_true), idle first carried]
      exact ih

/-- A search from the back finds the last statement that has something. -/
theorem last_of_findSome? {α : Type} {look : Statement → Option α} {found : α}
    (search : body.reverse.findSome? look = some found) :
    ∃ before statement after, body = before ++ statement :: after ∧
      look statement = some found ∧ ∀ other ∈ after, look other = none := by
  obtain ⟨after, statement, before, split, here, nothing⟩ := List.findSome?_eq_some_iff.mp search
  refine ⟨before.reverse, statement, after.reverse, ?_, here, ?_⟩
  · rw [← reverse_reverse body, split, reverse_append, reverse_cons, append_assoc]
    rfl
  · intro other member
    exact nothing other (mem_reverse.mp member)

theorem returnedValue_idle (statement : Statement) (idle : carries statement = false) :
    returnedValue statement = none := by
  cases statement
  case returnStmt => cases idle
  all_goals rfl

theorem arrayBoundTo_idle (name : Var) (statement : Statement)
    (idle : carries statement = false) : arrayBoundTo name statement = none := by
  cases statement
  case letStmt => cases idle
  case assign => cases idle
  all_goals rfl

/-- The last return of a value, if there is one. -/
theorem last_return {value : Expression}
    (search : (effectiveStatements body).reverse.findSome? returnedValue = some value) :
    ∃ before after, body = before ++ .returnStmt (some value) :: after ∧
      ∀ other ∈ after, returnedValue other = none := by
  rw [findSome?_effectiveStatements returnedValue_idle] at search
  obtain ⟨before, statement, after, split, here, nothing⟩ := last_of_findSome? search
  refine ⟨before, after, ?_, nothing⟩
  cases statement
  case returnStmt given =>
    obtain rfl : given = some value := here
    exact split
  all_goals cases here

/-- The array an expression resolves to is the one it stands for. -/
theorem stands_of_resolveArray {object : Expression} {elements : List (Option Expression)}
    (resolved : resolveArray object (effectiveStatements body) = some elements) :
    Stands object body elements := by
  unfold resolveArray at resolved
  split at resolved
  case h_1 written =>
    left
    rw [Option.some.inj resolved]
  case h_2 name =>
    right
    rw [findSome?_effectiveStatements (arrayBoundTo_idle name)] at resolved
    obtain ⟨earlier, statement, later, split, here, nothing⟩ := last_of_findSome? resolved
    exact ⟨name, earlier, statement, later, rfl, split, here, nothing⟩
  case h_3 => cases resolved

variable {strings : List String}

/-- An array of which every element is a string constant is an array literal of strings. -/
theorem literal_of_mapM {elements : List (Option Expression)}
    (decoded : elements.mapM stringElement = some strings) : elements = literal strings:= by
  induction elements generalizing strings with
  | nil =>
    obtain rfl : [] = strings := Option.some.inj decoded
    rfl
  | cons element elements ih =>
    rw [mapM_cons] at decoded
    obtain ⟨text, first, decoded⟩ := Option.bind_eq_some_iff.mp decoded
    obtain ⟨rest, others, joined⟩ := Option.bind_eq_some_iff.mp decoded
    obtain rfl : text :: rest = strings := Option.some.inj joined
    rw [ih others]
    unfold stringElement at first
    split at first
    · rw [Option.some.inj first]
      rfl
    · cases first

/-- What a body whose strings are decoded looks like. -/
theorem shape_of_decodedStrings (decoded : decodedStrings body = some strings) :
    ∃ before object property optional after,
      body = before ++ .returnStmt (some (.member object property optional)) :: after ∧
        (∀ statement ∈ after, returnedValue statement = none) ∧
          Stands object body (literal strings) := by
  unfold decodedStrings at decoded
  split at decoded
  case h_1 object property optional search =>
    obtain ⟨before, after, split, nothing⟩ := last_return search
    split at decoded
    · obtain ⟨elements, resolved, decoded⟩ := Option.bind_eq_some_iff.mp decoded
      rw [← literal_of_mapM decoded]
      exact ⟨before, object, property, optional, after, split, nothing,
        stands_of_resolveArray resolved⟩
    · cases decoded
  case h_2 => cases decoded

/-- An element of an array that has the strings is read by its index. -/
theorem evaluate_member {host : Host} {object : Expression} {property : PropertyKey}
    {start read keyed : Machine host} {array : host.Val} {position : Nat} {text : String}
    (optional : Bool) (evaluated : object.evaluate start = (.ok array, read))
    (indexed : property.evaluate read = (.ok (host.index position), keyed))
    (holds : Holds keyed.world array strings) (found : strings[position]? = some text) :
    ∃ final, (Expression.member object property optional).evaluate start =
      (.ok (host.constant (.string text)), final) := by
  have element := holds.2 position text found
  rcases got : host.getMember array (host.index position) keyed.world with ⟨outcome, world⟩
  obtain rfl : outcome = .ok (host.constant (.string text)) := by rw [got] at element; exact element
  refine ⟨{ keyed with world }, ?_⟩
  rw [Expression.evaluate, memberOf]
  simp [Action.bind_apply, evaluated, indexed, holds.1, perform, got]

theorem plays_stringDecoder {table : List String}
    (confirmed : confirmStringDecoder body table = .ok ()) : Plays table body .stringDecoder := by
  unfold confirmStringDecoder at confirmed
  split at confirmed
  case h_1 => cases confirmed
  case h_2 strings decoded =>
    split at confirmed
    case isTrue => cases confirmed
    case isFalse nonempty =>
      dsimp only at confirmed
      split at confirmed
      case isTrue => cases confirmed
      case isFalse covered =>
        have known : ∀ text ∈ strings, text ∈ table := by
          intro text member
          have absent := countP_eq_zero.mp (Nat.eq_zero_of_not_pos covered) text member
          simpa using absent
        obtain ⟨before, object, property, optional, after, split, nothing, stands⟩ :=
          shape_of_decodedStrings decoded
        refine ⟨before, object, property, optional, after, strings, split, nothing, stands,
          ?_, known, ?_⟩
        · rintro rfl
          exact nonempty rfl
        · intro host fuel start middle read keyed array position ran evaluated indexed holds inside
          have found := List.getElem?_eq_getElem inside
          refine ⟨_, known _ (getElem_mem inside), ?_⟩
          obtain ⟨final, element⟩ := evaluate_member optional evaluated indexed holds found
          obtain ⟨label, same⟩ := executeAll_append
            (.returnStmt (some (.member object property optional)) :: after) ran
          rw [split, same, executeAll_return_some element]
          rfl

end Confirmations

/-- What an accepted proposal says of its function. -/
structure Confirmed (bodies : TreeMap Nat (List Statement)) (table : List String)
    (proposal : Proposal) : Prop where
  valid : isValidIdentifier proposal.name = true
  unreserved : isReservedWord proposal.name = false
  plays : ∃ body, bodies[proposal.functionId]? = some body ∧ Plays table body proposal.role

/-- A proposal that passes the check is right. -/
theorem confirmed_of_check {proposal : Proposal} {bodies : TreeMap Nat (List Statement)}
    {table : List String} (passed : check proposal bodies table = .ok ()) :
    Confirmed bodies table proposal := by
  unfold check at passed
  split at passed
  case isTrue => cases passed
  case isFalse valid =>
    split at passed
    case isTrue => cases passed
    case isFalse unreserved =>
      refine ⟨by simpa using valid, by simpa using unreserved, ?_⟩
      split at passed
      case h_1 => cases passed
      case h_2 body found =>
        refine ⟨body, found, ?_⟩
        cases role : proposal.role
        case noop =>
          rw [role] at passed
          exact plays_noop passed table
        case identity =>
          rw [role] at passed
          exact plays_identity passed table
        case constantReturner =>
          rw [role] at passed
          exact plays_constantReturner passed table
        case stringDecoder =>
          rw [role] at passed
          exact plays_stringDecoder passed

/-- Each name was put there for a proposal that is right. -/
def Justified (bodies : TreeMap Nat (List Statement)) (table : List String)
    (proposals : List Proposal) (out : VerifiedArtifact) : Prop :=
  ∀ function name, out.names[function]? = some name →
    ∃ proposal ∈ proposals, proposal.functionId = function ∧ proposal.name = name ∧
      Confirmed bodies table proposal

section Names

variable {bodies : TreeMap Nat (List Statement)} {table : List String}

/-- Recording one more proposal keeps the names justified. -/
theorem Justified.record {proposals : List Proposal} {out : VerifiedArtifact}
    (justified : Justified bodies table proposals out) {proposal : Proposal}
    (member : proposal ∈ proposals) :
    Justified bodies table proposals (record bodies table out proposal) := by
  intro function name named
  unfold Cascade.record at named
  split at named
  case h_1 passed =>
    rw [Std.TreeMap.getElem?_insert] at named
    split at named
    case isTrue same =>
      exact ⟨proposal, member, Std.LawfulEqOrd.eq_of_compare same, Option.some.inj named,
        confirmed_of_check passed⟩
    case isFalse => exact justified function name named
  case h_2 => exact justified function name named

/-- Recording proposals in turn keeps the names justified. -/
theorem Justified.foldl {proposals : List Proposal} {out : VerifiedArtifact}
    (justified : Justified bodies table proposals out) {rest : List Proposal}
    (members : rest ⊆ proposals) :
    Justified bodies table proposals (rest.foldl (Cascade.record bodies table) out) := by
  induction rest generalizing out with
  | nil => exact justified
  | cons proposal rest ih =>
    rw [foldl_cons]
    refine ih (justified.record (members mem_cons_self)) ?_
    exact fun other member => members (mem_cons_of_mem _ member)

/-- A confirmed name is a valid identifier proposed for a function that plays the role, in
an artifact for this bundle. -/
theorem verify_plays {artifact : Artifact} {fingerprint : BundleFingerprint} {function : Nat}
    {name : String}
    (confirmed : (verify artifact fingerprint table bodies).names[function]? = some name) :
    artifact.version = artifactVersion ∧ artifact.bundle = fingerprint ∧
      isValidIdentifier name = true ∧ isReservedWord name = false ∧
        ∃ proposal ∈ artifact.proposals, proposal.functionId = function ∧
          proposal.name = name ∧ ∃ body, bodies[function]? = some body ∧
            Plays table body proposal.role := by
  unfold verify at confirmed
  split at confirmed
  case isTrue =>
    rw [Std.TreeMap.getElem?_emptyc] at confirmed
    cases confirmed
  case isFalse version =>
    split at confirmed
    case isTrue =>
      rw [Std.TreeMap.getElem?_emptyc] at confirmed
      cases confirmed
    case isFalse bundle =>
      have none_yet : Justified bodies table artifact.proposals ⟨∅, []⟩ := by
        intro function name named
        rw [Std.TreeMap.getElem?_emptyc] at named
        cases named
      obtain ⟨proposal, member, rfl, rfl, right⟩ :=
        none_yet.foldl (List.Subset.refl _) function name confirmed
      exact ⟨not_not.mp version, not_not.mp bundle, right.valid, right.unreserved, proposal,
        member, rfl, rfl, right.plays⟩

end Names

/-- A function that reads a table it binds by its first argument. -/
def decoderBody : List Statement :=
  [.letStmt ⟨"table", none⟩ (.array (literal ["alpha"])) .const,
    .returnStmt (some (.member (.value (.binding (.variable ⟨"table", none⟩)))
      (.computed (.value (.parameter 0))) false))]

/-- The fingerprint of a small bundle. -/
def smallBundle : BundleFingerprint := ⟨96, 10, 3, 42⟩

/-- A proposal that it is a decoder. -/
def decoderArtifact : Artifact := ⟨artifactVersion, smallBundle, [⟨7, "decodeName", .stringDecoder⟩]⟩

def decoderBodies : TreeMap Nat (List Statement) := .ofList [((7 : Nat), decoderBody)]

theorem decoderArtifact_plays :
    (verify decoderArtifact smallBundle ["alpha"] decoderBodies).names[7]? = some "decodeName" ∧
      ∃ proposal ∈ decoderArtifact.proposals, proposal.functionId = 7 ∧
        proposal.name = "decodeName" ∧ ∃ body, decoderBodies[7]? = some body ∧
          Plays ["alpha"] body proposal.role := by
  have named : (verify decoderArtifact smallBundle ["alpha"] decoderBodies).names[7]? =
      some "decodeName" := by decide +kernel
  exact ⟨named, (verify_plays named).2.2.2.2⟩

/-- The decoder is confirmed, and called without an argument it returns undefined, which is
no string. -/
theorem decoder_reads_beyond :
    (verify decoderArtifact smallBundle ["alpha"] decoderBodies).names[7]? = some "decodeName" ∧
      decoderBodies[7]? = some decoderBody ∧ ¬ ReturnsStrings ["alpha"] decoderBody := by
  refine ⟨by decide +kernel, rfl, ?_⟩
  intro strings
  have undefined := strings Tracing.host ⟨fun _ => rfl⟩ 0
    ⟨fun _ => none, Tracing.blank, .other ⟨0, 0⟩⟩ .undefined rfl
  obtain ⟨text, _, same⟩ := undefined
  cases same

end HermesDecomp.Cascade
