import HermesDecomp.Ir.Watching

/-!
# What an alias holds

A name that is replaced is stored to once, with what the other variable holds, and that variable
is never stored to in a form that is counted. Where neither is bound in another form, and no
other code changes them, every later read of the first sees what the second holds.
-/

namespace HermesDecomp.Ir

open List

/-- What a name has behind some text. -/
def behind (text name : String) : Option (List Char) :=
  if text.toList.isPrefixOf name.toList then some (name.toList.drop text.toList.length) else none

def areDigits (characters : List Char) : Bool := characters.all Char.isDigit

/-- Whether a name is some text and a number. -/
def isNumberedName (text name : String) : Bool :=
  (behind text name).any fun digits => !digits.isEmpty && areDigits digits

def isTmpOrRegister (name : String) : Bool :=
  name == "tmp" || (behind "tmp" name).any areDigits || isNumberedName "r" name

def genericRolePrefixes : List String :=
  ["num", "str", "obj", "fn", "arr", "bool", "length", "iter", "promise", "date", "err", "map",
    "set", "key", "val", "idx", "ref", "flag"]

def isGenericRoleName (name : String) : Bool :=
  genericRolePrefixes.any fun text => name == text || isNumberedName text name

def wrapperPrefixes : List String := ["_default", "_interop", "_extends"]

def intermediateSuffixes : List String :=
  ["Result", "Return", "Promise", "Callback", "Handler", "Wrapper"]

def isWrapperOrIntermediate (name : String) : Bool :=
  wrapperPrefixes.any (fun text => text.toList.isPrefixOf name.toList) ||
    intermediateSuffixes.any fun text => text.toList.isSuffixOf name.toList ||
      name.toList.tails.any text.toList.isPrefixOf

/-- Whether a name may be replaced. -/
def isInlinableName (name : String) : Bool :=
  isTmpOrRegister name || isGenericRoleName name || isWrapperOrIntermediate name

/-- The declarations and assignments of a store that the counter counts. -/
def Store.definition? : Store → Option (String × Expression)
  | .plain name value => some (name, value)
  | .other _ => none

/-- The declarations and assignments of variables in a list and its bodies, in the order of the
visitor. -/
def definitions (statements : List Statement) : List (String × Expression) :=
  (storesOfAll statements).filterMap Store.definition?

/-- How often the counter counts a definition of a name. -/
def defCount (statements : List Statement) (name : String) : Nat :=
  ((definitions statements).map Prod.fst).count name

/-- The alias a definition makes. -/
def aliasOf (count : String → Nat) : String × Expression → Option (String × String)
  | (name, .value (.binding (.variable other))) =>
      if other.name ≠ name ∧ isInlinableName name ∧ count name = 1 ∧ count other.name = 0 then
        some (name, other.name)
      else none
  | _ => none

/-- Collect the aliases among some definitions, the first of each name. -/
def collectAliases (count : String → Nat) :
    List (String × Expression) → List (String × String) → List (String × String)
  | [], renames => renames
  | definition :: rest, renames =>
      match aliasOf count definition with
      | some (name, other) =>
          if (renames.lookup name).isSome then collectAliases count rest renames
          else collectAliases count rest (renames ++ [(name, other)])
      | none => collectAliases count rest renames

def collectImmutableAliases (statements : List Statement) : List (String × String) :=
  collectAliases (defCount statements) (definitions statements) []

/-- Follow renames from a name, so many at most. -/
def followRenames (renames : List (String × String)) : Nat → String → String
  | 0, current => current
  | hops + 1, current =>
      match renames.lookup current with
      | some next => if next = current then current else followRenames renames hops next
      | none => current

def resolveTransitiveRenames (renames : List (String × String)) : List (String × String) :=
  renames.map fun (name, target) => (name, followRenames renames 33 target)

section Rename

variable (renames : List (String × String))

/-- A name as it is renamed. -/
def renamedName (name : String) : String := (renames.lookup name).getD name

/-- A variable as it is renamed, with the slot it stands for. -/
def Var.rename (name : Var) : Var := { name with name := renamedName renames name.name }

mutual

/-- Rename the variables of an expression, in the forms the renaming looks into. -/
def Expression.renameVariables : Expression → Expression
  | .value (.binding (.variable name)) => .value (.binding (.variable (name.rename renames)))
  | .binary op left right => .binary op left.renameVariables right.renameVariables
  | .unary op operand => .unary op operand.renameVariables
  | .call callee arguments => .call callee.renameVariables (renameInAll arguments)
  | .member object property optional =>
      .member object.renameVariables property.renameVariables optional
  | .new callee arguments => .new callee.renameVariables (renameInAll arguments)
  | .conditional condition thenExpr elseExpr =>
      .conditional condition.renameVariables thenExpr.renameVariables elseExpr.renameVariables
  | .array elements => .array (renameInElements elements)
  | .object properties => .object (renameInProperties properties)
  | .assignment target value => .assignment target.renameVariables value.renameVariables
  | expression => expression

def renameInAll : List Expression → List Expression
  | [] => []
  | first :: rest => first.renameVariables :: renameInAll rest

def renameInElements : List (Option Expression) → List (Option Expression)
  | [] => []
  | none :: rest => none :: renameInElements rest
  | some first :: rest => some first.renameVariables :: renameInElements rest

def PropertyKey.renameVariables : PropertyKey → PropertyKey
  | .computed key => .computed key.renameVariables
  | key => key

def renameInProperties : List ObjectProperty → List ObjectProperty
  | [] => []
  | .mk key value :: rest =>
      .mk key.renameVariables value.renameVariables :: renameInProperties rest

def AssignTarget.renameVariables : AssignTarget → AssignTarget
  | .binding (.variable name) => .binding (.variable (name.rename renames))
  | .member object property => .member object.renameVariables property
  | .index object key => .index object.renameVariables key.renameVariables
  | target => target

end

/-- The name of a declaration. A new name comes without a slot. -/
def renamedDeclaration (name : Var) : Var :=
  match renames.lookup name.name with
  | some new => ⟨new, none⟩
  | none => name

def ClassMethod.renameVariables : ClassMethod → ClassMethod
  | .mk key value body isStatic kind params =>
      .mk key (value.renameVariables renames) body isStatic kind params

mutual

/-- Rename the variables of a statement. -/
def Statement.renameVariables : Statement → Statement
  | .assign target value => .assign (target.renameVariables renames) (value.renameVariables renames)
  | .delete target result => .delete (target.renameVariables renames) result
  | .letStmt name value kind =>
      .letStmt (renamedDeclaration renames name) (value.renameVariables renames) kind
  | .expr expression => .expr (expression.renameVariables renames)
  | .returnStmt value => .returnStmt (value.map (·.renameVariables renames))
  | .throwStmt value => .throwStmt (value.renameVariables renames)
  | .ifStmt condition thenBody elseBody =>
      .ifStmt (condition.renameVariables renames) (renameVariables thenBody)
        (renameVariables elseBody)
  | .whileStmt condition body =>
      .whileStmt (condition.renameVariables renames) (renameVariables body)
  | .doWhile body condition => .doWhile (renameVariables body) (condition.renameVariables renames)
  | .forStmt init condition update body =>
      .forStmt (renameInStatement init) (condition.map (·.renameVariables renames))
        (renameInStatement update) (renameVariables body)
  | .block body => .block (renameVariables body)
  | .forOf name iterable body =>
      .forOf (renamedName renames name) (iterable.renameVariables renames) (renameVariables body)
  | .forIn name object body =>
      .forIn (renamedName renames name) (object.renameVariables renames) (renameVariables body)
  | .switch discriminant cases default =>
      .switch (discriminant.renameVariables renames) (renameInCases cases) (renameInDefault default)
  | .tryCatch tryBody catchParam catchBody finallyBody =>
      .tryCatch (renameVariables tryBody) (catchParam.map (renamedName renames))
        (renameVariables catchBody) (renameVariables finallyBody)
  | .classStmt name superClass constructor methods =>
      .classStmt name (superClass.map (·.renameVariables renames)) (renameInStatement constructor)
        (methods.map (·.renameVariables renames))
  | statement => statement

/-- Rename the variables of a list of statements. -/
def renameVariables : List Statement → List Statement
  | [] => []
  | first :: rest => first.renameVariables :: renameVariables rest

def renameInStatement : Option Statement → Option Statement
  | none => none
  | some statement => some statement.renameVariables

def renameInDefault : Option (List Statement) → Option (List Statement)
  | none => none
  | some body => some (renameVariables body)

def renameInCases : List (Expression × List Statement) → List (Expression × List Statement)
  | [] => []
  | (test, body) :: rest =>
      (test.renameVariables renames, renameVariables body) :: renameInCases rest

end

end Rename

/-- How often aliases are looked for. -/
def maxAliasPasses : Nat := 8

/-- The renames of one pass over a list. -/
def aliasRenames (statements : List Statement) : List (String × String) :=
  resolveTransitiveRenames (collectImmutableAliases statements)

/-- One pass over a list that has aliases. The clean-up that drops stores of a variable to itself
is the one of the inliner. -/
def eliminatePass (cleanupNoise : List Statement → List Statement) (statements : List Statement) :
    List Statement :=
  cleanupNoise (renameVariables (aliasRenames statements) statements)

variable {host : Host}

/-- What an alias is: one counted definition, of the variable's value, and none of the
variable. -/
structure IsAlias (count : String → Nat) (definitions : List (String × Expression))
    (name other : String) : Prop where
  different : other ≠ name
  once : count name = 1
  never : count other = 0
  defined : ∃ place : Var, place.name = other ∧
    (name, .value (.binding (.variable place))) ∈ definitions

variable {count : String → Nat} {name other : String}

theorem aliasOf_eq_some {definition : String × Expression}
    (found : aliasOf count definition = some (name, other)) :
    IsAlias count [definition] name other := by
  unfold aliasOf at found
  split at found
  case h_1 name' place =>
    obtain ⟨⟨different, _, once, never⟩, same⟩ := Option.ite_none_right_eq_some.mp found
    obtain ⟨rfl, rfl⟩ := Prod.mk.inj (Option.some.inj same)
    exact ⟨different, once, never, place, rfl, mem_singleton_self _⟩
  case h_2 => cases found

theorem IsAlias.mono {definitions definitions' : List (String × Expression)}
    (isAlias : IsAlias count definitions name other) (more : definitions ⊆ definitions')
    : IsAlias count definitions' name other:= by
  obtain ⟨place, named, member⟩ := isAlias.defined
  exact ⟨isAlias.different, isAlias.once, isAlias.never, place, named, more member⟩

/-- Every rename that is collected is an alias. -/
theorem isAlias_of_mem_collectAliases :
    ∀ (definitions : List (String × Expression)) (renames : List (String × String)),
      (name, other) ∈ collectAliases count definitions renames →
      (name, other) ∈ renames ∨ IsAlias count definitions name other
  | [], _, member => .inl member
  | definition :: rest, renames, member => by
    have later : ∀ renames, (name, other) ∈ collectAliases count rest renames →
        (name, other) ∈ renames ∨ IsAlias count (definition :: rest) name other := by
      intro renames member
      rcases isAlias_of_mem_collectAliases rest renames member with before | isAlias
      · exact .inl before
      · exact .inr (isAlias.mono (subset_cons_self _ _))
    rw [collectAliases] at member
    split at member
    case h_1 name' other' found =>
      split at member
      case isTrue => exact later _ member
      case isFalse =>
        rcases later _ member with before | isAlias
        · rcases mem_append.mp before with already | here
          · exact .inl already
          · obtain ⟨rfl, rfl⟩ := Prod.mk.inj (mem_singleton.mp here)
            have isAlias := aliasOf_eq_some found
            exact .inr (isAlias.mono (cons_subset_cons _ (nil_subset _)))
        · exact .inr isAlias
    case h_2 => exact later _ member

variable {statements : List Statement}

theorem isAlias_of_mem_collect (member : (name, other) ∈ collectImmutableAliases statements) :
    IsAlias (defCount statements) (definitions statements) name other := by
  rcases isAlias_of_mem_collectAliases _ _ member with before | isAlias
  · cases before
  · exact isAlias

/-- What an alias is renamed to is no alias itself, so there is no chain to follow. -/
theorem resolveTransitiveRenames_collect (statements : List Statement) :
    resolveTransitiveRenames (collectImmutableAliases statements) =
      collectImmutableAliases statements := by
  refine (map_congr_left ?_).trans (map_id _)
  rintro ⟨name, other⟩ member
  have isAlias := isAlias_of_mem_collect member
  have isEnd : (collectImmutableAliases statements).lookup other = none := by
    rw [lookup_eq_none_iff]
    rintro ⟨name', other'⟩ member'
    have once := (isAlias_of_mem_collect member').once
    have never := isAlias.never
    rw [bne_iff_ne]
    rintro rfl
    omega
  dsimp only [id]
  rw [followRenames, isEnd]

/-- The definitions that are counted once are one. -/
theorem eq_of_defCount_eq_one {name : String} {value value' : Expression}
    (once : defCount statements name = 1) (member : (name, value) ∈ definitions statements)
    (member' : (name, value') ∈ definitions statements) : value = value':= by
  rw [defCount, count_eq_countP, countP_map, countP_eq_length_filter, length_eq_one_iff] at once
  obtain ⟨only, isOnly⟩ := once
  have found : ∀ value, (name, value) ∈ definitions statements → (name, value) = only := by
    intro value member
    rw [← mem_singleton, ← isOnly, mem_filter]
    exact ⟨member, beq_self_eq_true name⟩
  exact (Prod.mk.inj ((found value member).trans (found value' member').symm)).2

theorem mem_definitions {name : String} {value : Expression} :
    (name, value) ∈ definitions statements ↔ .plain name value ∈ storesOfAll statements := by
  rw [definitions, mem_filterMap]
  constructor
  · rintro ⟨store, member, isDefinition⟩
    cases store with
    | plain name' value' =>
      obtain ⟨rfl, rfl⟩ := Prod.mk.inj (Option.some.inj isDefinition)
      exact member
    | other name' => cases isDefinition
  · intro member
    exact ⟨_, member, rfl⟩

/-- Neither of two variables is bound in a form that is not counted. -/
def OnlyPlain (statements : List Statement) (x v : String) : Prop :=
  ∀ name, .other name ∈ storesOfAll statements → name ≠ x ∧ name ≠ v

/-- The store of an alias may be made. -/
theorem kept_alias {x v : String} {place : Var} (isSecond : place.name = v) :
    (Store.plain x (.value (.binding (.variable place)))).Kept (host.watch x v)
      (Watch.Sound x v) (fun name => name ≠ x ∧ name ≠ v) := by
  have preserves := (host.watch_keeping x v).readVariable place
  have read : ∀ (watch : (host.watch x v).World) (value : (host.watch x v).Val),
      ((host.watch x v).readVariable place watch).1 = .ok value →
        @Watch.Held host v value ((host.watch x v).readVariable place watch).2 :=
    Watch.held_reading isSecond
  refine .inr fun target named => ⟨fun kind => ?_, ?_⟩
  · subst named
    refine retains_perform_bind preserves read fun value machine sound held => ?_
    rw [perform_world]
    exact Watch.sound_writing (host.declare kind target value) sound held
  · subst named
    refine retains_perform_bind preserves read fun value machine sound held => ?_
    rw [bind_pure_world, writeBinding, perform_world]
    exact Watch.sound_writing (host.setVariable target value) sound held

/-- All stores of a list with an alias may be made, where neither variable is bound in a form that
is not counted. -/
theorem allKept_alias {statements : List Statement} {x v : String}
    (isAlias : IsAlias (defCount statements) (definitions statements) x v)
    (onlyPlain : OnlyPlain statements x v) :
    AllKept (host.watch x v) (Watch.Sound x v) (fun name => name ≠ x ∧ name ≠ v)
      (storesOfAll statements) := by
  intro store member
  cases store with
  | other name => exact onlyPlain name member
  | plain name value =>
    have isDefinition := mem_definitions.mpr member
    by_cases isFirst : name = x
    · subst isFirst
      obtain ⟨place, isSecond, defined⟩ := isAlias.defined
      rw [eq_of_defCount_eq_one isAlias.once isDefinition defined]
      exact kept_alias isSecond
    · refine .inl ⟨isFirst, ?_⟩
      rintro rfl
      have counted : name ∈ (definitions statements).map Prod.fst := mem_map_of_mem isDefinition
      exact absurd isAlias.never (Nat.ne_of_gt (count_pos_iff.mpr counted))

/-- In one of the passes over a list the variable is renamed to another one. -/
inductive Replaces (cleanupNoise : List Statement → List Statement) (x v : String) :
    Nat → List Statement → List Statement → Prop
  | now (passes : Nat) (statements : List Statement) (renamed : (x, v) ∈ aliasRenames statements) :
      Replaces cleanupNoise x v (passes + 1) statements statements
  | later (passes : Nat) (statements input : List Statement)
      (goesOn : collectImmutableAliases statements ≠ [])
      (renamed : Replaces cleanupNoise x v passes (eliminatePass cleanupNoise statements) input) :
      Replaces cleanupNoise x v (passes + 1) statements input

theorem Replaces.isAlias {cleanupNoise : List Statement → List Statement} {x v : String}
    {passes : Nat} {statements input : List Statement}
    (replaces : Replaces cleanupNoise x v passes statements input) :
    IsAlias (defCount input) (definitions input) x v := by
  induction replaces with
  | now passes statements renamed =>
    rw [aliasRenames, resolveTransitiveRenames_collect] at renamed
    exact isAlias_of_mem_collect renamed
  | later passes statements input goesOn renamed ih => exact ih

/-- A machine at whose start nothing was recorded. -/
def Machine.watched (x v : String) (machine : Machine host) : Machine (host.watch x v) :=
  ⟨machine.registers, Watch.start machine.world, machine.writer⟩

/-- What is recorded of a run of a list. -/
@[irreducible] def watchRun (host : Host) (x v : String) (fuel : Nat) (pending : Option String)
    (statements : List Statement) (machine : Machine host) : Watch host :=
  (executeAll fuel pending statements (machine.watched x v)).2.world

/-- Where a variable is replaced by another one, neither is bound in a form that is not counted,
and both are plain in a run of the list that is rewritten, every read of the first after its store
sees what the second holds at the read. -/
theorem replaced_reads_agree (cleanupNoise : List Statement → List Statement) {x v : String}
    {statements input : List Statement}
    (replaces : Replaces cleanupNoise x v maxAliasPasses statements input)
    (onlyPlain : OnlyPlain input x v) (host : Host) (fuel : Nat) (pending : Option String)
    (machine : Machine host) (plain : (watchRun host x v fuel pending input machine).plain) :
    ∀ seen ∈ (watchRun host x v fuel pending input machine).reads,
      ∃ value, seen = (.ok value, .ok value) := by
  unfold watchRun at plain ⊢
  have kept := @allKept_alias host _ _ _ replaces.isAlias onlyPlain
  have sound := retains_executeAll (host.watch_keeping x v) fuel input pending kept
    (machine.watched x v) (Watch.start_sound machine.world)
  exact (sound plain).2

namespace Tracing

variable {x v : String}

theorem holds_iff {name : String} {value : Constant} {world : Trace} :
    Tracing.host.Holds name value world ↔ world.names name = value :=
  ⟨fun holds => Outcome.ok.inj (holds none), fun same _ => congrArg Outcome.ok same⟩

theorem leaves {world world' : Trace} (same : world'.names = world.names) :
    @Watch.Leaves Tracing.host x v world world' := by
  intro name _ value holds
  exact holds_iff.mpr ((congrFun same name).trans (holds_iff.mp holds))

theorem plain_elsewhere {α : Type} {operation : Action Trace Constant α}
    (same : ∀ world, (operation world).2.names = world.names) (watch : Watch Tracing.host)
    (plain : watch.plain) : (@Watch.elsewhere Tracing.host α x v operation watch).2.plain :=
  ⟨plain, leaves (same watch.world)⟩

theorem plain_reading (name : Var) (watch : Watch Tracing.host) (plain : watch.plain) :
    (Watch.reading x v name watch).2.plain := by
  refine ⟨plain, leaves rfl, ?_⟩
  rintro value rfl sees
  exact holds_iff.mpr (Outcome.ok.inj sees)

/-- A store to a variable in the recording engine. -/
def storing (name : String) (value : Constant) : Action Trace Constant PUnit := act fun world =>
  { world with names := Function.update world.names name value }

theorem holds_storing {name other : String} (apart : other ≠ name) (value content : Constant)
    (world : Trace) (held : Tracing.host.Holds other content world) :
    Tracing.host.Holds other content (storing name value world).2 :=
  holds_iff.mpr ((Function.update_of_ne apart _ _).trans (holds_iff.mp held))

theorem plain_writing (different : v ≠ x) (name : String) (value : Constant)
    (watch : Watch Tracing.host) (plain : watch.plain) :
    (@Watch.writing Tracing.host x v name value (storing name value) watch).2.plain := by
  unfold Watch.writing
  split
  case isTrue isFirst =>
    subst isFirst
    exact ⟨plain, holds_iff.mpr (Function.update_self ..),
      fun content => holds_storing different value content watch.world⟩
  case isFalse notFirst =>
    split
    case isTrue => exact plain
    case isFalse notSecond =>
      refine ⟨plain, ?_⟩
      rintro other (rfl | rfl) content held
      · exact holds_storing (Ne.symm notFirst) value content watch.world held
      · exact holds_storing (Ne.symm notSecond) value content watch.world held

theorem names_unary (op : UnaryOp) (value : Constant) (world : Trace) :
    (unary op value world).2.names = world.names := by
  unfold unary
  split <;> rfl

theorem names_binary (op : BinaryOp) (left right : Constant) (world : Trace) :
    (binary op left right world).2.names = world.names := by
  unfold binary
  split <;> rfl

/-- The variables of the recording engine are plain. -/
theorem watch_keeping (different : v ≠ x) :
    (Tracing.host.watch x v).Keeping (fun watch : Watch Tracing.host => watch.plain) (fun _ => True) where
  toKey _ := plain_elsewhere fun _ => rfl
  readVariable name := plain_reading name
  readClosureVar _ _ := plain_elsewhere fun _ => rfl
  setVariable name value _ := plain_writing different name.name value
  setClosureVar _ _ _ := plain_elsewhere fun _ => rfl
  declare _ name value _ := plain_writing different name.name value
  openScope _ plain := ⟨plain, leaves rfl⟩
  closeScope _ plain := ⟨plain, leaves rfl⟩
  unary op value := plain_elsewhere (names_unary op value)
  binary op left right := plain_elsewhere (names_binary op left right)
  getMember _ _ := plain_elsewhere fun _ => rfl
  setMember _ _ _ := plain_elsewhere fun _ => rfl
  deleteMember _ _ := plain_elsewhere fun _ => rfl
  deleteValue _ := plain_elsewhere fun _ => rfl
  call _ _ := plain_elsewhere fun _ => rfl
  construct _ _ := plain_elsewhere fun _ => rfl
  spread _ := plain_elsewhere fun _ => rfl
  newArray _ := plain_elsewhere fun _ => rfl
  newObject := plain_elsewhere fun _ => rfl
  define _ _ _ := plain_elsewhere fun _ => rfl
  function _ _ _ _ _ := plain_elsewhere fun _ => rfl
  toText _ := plain_elsewhere fun _ => rfl
  template _ _ := plain_elsewhere fun _ => rfl
  regExp _ _ := plain_elsewhere fun _ => rfl
  yield _ _ := plain_elsewhere fun _ => rfl
  await _ := plain_elsewhere fun _ => rfl
  jsx _ _ _ := plain_elsewhere fun _ => rfl
  unknown _ _ := plain_elsewhere fun _ => rfl
  requireObject _ := plain_elsewhere fun _ => rfl
  restOf _ _ := plain_elsewhere fun _ => rfl
  iterate _ := plain_elsewhere fun _ => rfl
  enumerate _ := plain_elsewhere fun _ => rfl
  advance _ := plain_elsewhere fun _ => rfl
  collect _ := plain_elsewhere fun _ => rfl
  close _ := plain_elsewhere fun _ => rfl
  debugger := plain_elsewhere fun _ => rfl
  defineClass _ _ _ _ _ := by
    intro watch plain
    change (Watch.defining x v _ _ watch).2.plain
    unfold Watch.defining
    split
    · exact plain
    · exact plain_elsewhere (fun _ => rfl) watch plain

/-- So they are in every run. -/
theorem watchRun_plain (different : v ≠ x) (fuel : Nat) (pending : Option String)
    (statements : List Statement) (machine : Machine Tracing.host) :
    (watchRun Tracing.host x v fuel pending statements machine).plain := by
  unfold watchRun
  refine retains_executeAll (watch_keeping different) fuel statements pending ?_ _ trivial
  intro store _
  cases store with
  | plain name value => exact .inl trivial
  | other name => exact trivial

end Tracing

/-- The value of a variable. -/
def valueOfName (name : String) : Expression := .value (.binding (.variable ⟨name, none⟩))

/-- A store of a variable's value to another variable. -/
def storeName (name other : String) : Statement :=
  .assign (.binding (.variable ⟨name, none⟩)) (valueOfName other)

/-- A call of one variable with another. -/
def callName (name other : String) : Statement :=
  .expr (.call (valueOfName name) [valueOfName other])

/-- An alias and a call with it. -/
def aliasing : List Statement := [storeName "tmp" "x", callName "f" "tmp"]

/-- A machine of the recording engine in which every variable holds its name. -/
def namedMachine : Machine Tracing.host :=
  ⟨fun _ => none, { Tracing.blank with names := .string }, .other ⟨0, 0⟩⟩

theorem aliasing_replaces : Replaces id "tmp" "x" maxAliasPasses aliasing aliasing :=
  .now _ _ (by decide +kernel)

theorem aliasing_onlyPlain : OnlyPlain aliasing "tmp" "x" := by
  intro name member
  have stores : storesOfAll aliasing = [.plain "tmp" (valueOfName "x")] := rfl
  rw [stores, mem_singleton] at member
  cases member

/-- What the reads of the alias see, with what the other variable holds. -/
def readsOf (statements : List Statement) :
    List (Outcome Constant Constant × Outcome Constant Constant) :=
  (watchRun Tracing.host "tmp" "x" 0 none statements namedMachine).reads

/-- The call sees what the other variable holds. -/
theorem aliasing_agrees :
    readsOf aliasing = [(.ok (.string "x"), .ok (.string "x"))] ∧
      ∀ seen ∈ (watchRun Tracing.host "tmp" "x" 0 none aliasing namedMachine).reads,
        ∃ value, seen = (.ok value, .ok value) :=
  ⟨by decide +kernel, replaced_reads_agree id aliasing_replaces aliasing_onlyPlain Tracing.host 0
    none namedMachine (Tracing.watchRun_plain (by decide) 0 none aliasing namedMachine)⟩

/-- A pattern that stores to the other variable between the alias and the call. -/
def destructuring : List Statement :=
  [storeName "tmp" "x",
    .assign (.destructuringArray [some (.binding (.variable ⟨"x", none⟩), none)]) (valueOfName "y"),
    callName "f" "tmp"]

theorem destructuring_replaces (cleanupNoise : List Statement → List Statement) :
    Replaces cleanupNoise "tmp" "x" maxAliasPasses destructuring destructuring :=
  .now _ _ (by decide +kernel)

theorem destructuring_reads :
    readsOf destructuring = [(.ok (.string "x"), .ok .undefined)] := by decide +kernel

theorem destructuring_disagrees :
    ¬ ∀ seen ∈ readsOf destructuring, ∃ value, seen = (.ok value, .ok value) := by
  intro agree
  rw [destructuring_reads] at agree
  obtain ⟨value, same⟩ := agree _ (mem_singleton_self _)
  obtain ⟨first, second⟩ := Prod.mk.inj same
  rw [← second] at first
  cases first

/-- The counter does not see the store in the pattern. -/
theorem replaced_reads_differ :
    ¬ (∀ (cleanupNoise : List Statement → List Statement) (x v : String)
      (statements input : List Statement),
      Replaces cleanupNoise x v maxAliasPasses statements input →
      ∀ (host : Host) (fuel : Nat) (pending : Option String) (machine : Machine host),
        (watchRun host x v fuel pending input machine).plain →
        ∀ seen ∈ (watchRun host x v fuel pending input machine).reads,
          ∃ value, seen = (.ok value, .ok value)) := by
  intro all
  have different : ("x" : String) ≠ "tmp" := by decide
  exact destructuring_disagrees (all id "tmp" "x" destructuring destructuring
    (destructuring_replaces id) Tracing.host 0 none namedMachine
    (Tracing.watchRun_plain different 0 none destructuring namedMachine))

end HermesDecomp.Ir
