import HermesDecomp.Ir.NestedBodies

/-!
# Where stores may become part of a literal

A store behind a literal runs its value when the variable already holds the object, and after all
parts of the literal. As a part of the literal the value runs before the variable is given
anything, and a repeated key or index keeps the place of the value it replaces.
-/

namespace HermesDecomp.Ir.Folding

open List

mutual

/-- An expression is seen to mention a variable. -/
def exprReferencesVar (variableName : String) : Expression → Bool
  | .value (.binding (.variable name)) => name.name == variableName
  | .binary _ left right =>
      exprReferencesVar variableName left || exprReferencesVar variableName right
  | .unary _ operand => exprReferencesVar variableName operand
  | .call callee arguments =>
      exprReferencesVar variableName callee || anyReferencesVar variableName arguments
  | .new callee arguments =>
      exprReferencesVar variableName callee || anyReferencesVar variableName arguments
  | .member object _ _ => exprReferencesVar variableName object
  | .conditional condition thenExpr elseExpr =>
      exprReferencesVar variableName condition || exprReferencesVar variableName thenExpr ||
        exprReferencesVar variableName elseExpr
  | .array elements => elementsReferenceVar variableName elements
  | .object properties => propertiesReferenceVar variableName properties
  | .assignment target value =>
      targetReferencesVar variableName target || exprReferencesVar variableName value
  | .spread inner => exprReferencesVar variableName inner
  | _ => false

def anyReferencesVar (variableName : String) : List Expression → Bool
  | [] => false
  | first :: rest => exprReferencesVar variableName first || anyReferencesVar variableName rest

def elementsReferenceVar (variableName : String) : List (Option Expression) → Bool
  | [] => false
  | none :: rest => elementsReferenceVar variableName rest
  | some first :: rest =>
      exprReferencesVar variableName first || elementsReferenceVar variableName rest

def propertiesReferenceVar (variableName : String) : List ObjectProperty → Bool
  | [] => false
  | .mk _ value :: rest =>
      exprReferencesVar variableName value || propertiesReferenceVar variableName rest

/-- The expressions of a target: objects, keys and defaults. -/
def targetReferencesVar (variableName : String) : AssignTarget → Bool
  | .binding _ => false
  | .member object _ => exprReferencesVar variableName object
  | .index object key => exprReferencesVar variableName object || exprReferencesVar variableName key
  | .destructuringArray elements => itemsReferenceVar variableName elements
  | .destructuringArrayRest elements rest =>
      itemsReferenceVar variableName elements || targetReferencesVar variableName rest
  | .destructuringObject properties => fieldsReferenceVar variableName properties
  | .destructuringObjectRest properties rest =>
      fieldsReferenceVar variableName properties || targetReferencesVar variableName rest
  | .rest target => targetReferencesVar variableName target

def itemsReferenceVar (variableName : String) :
    List (Option (AssignTarget × Option Expression)) → Bool
  | [] => false
  | none :: rest => itemsReferenceVar variableName rest
  | some (target, none) :: rest =>
      targetReferencesVar variableName target || itemsReferenceVar variableName rest
  | some (target, some fallback) :: rest =>
      targetReferencesVar variableName target || exprReferencesVar variableName fallback ||
        itemsReferenceVar variableName rest

def fieldsReferenceVar (variableName : String) :
    List (String × AssignTarget × Option Expression) → Bool
  | [] => false
  | (_, target, none) :: rest =>
      targetReferencesVar variableName target || fieldsReferenceVar variableName rest
  | (_, target, some fallback) :: rest =>
      targetReferencesVar variableName target || exprReferencesVar variableName fallback ||
        fieldsReferenceVar variableName rest

end

/-- The variable a statement gives a value, and the value. -/
def initialization : Statement → Option (Var × Expression)
  | .letStmt name value _ => some (name, value)
  | .assign (.binding (.variable name)) value => some (name, value)
  | _ => none

/-- The statement with another value. -/
def withValue (value : Expression) : Statement → Statement
  | .letStmt name _ kind => .letStmt name value kind
  | .assign target _ => .assign target value
  | statement => statement

/-- The value of the first property with a key is replaced, or the property comes last. -/
def putProperty (key : PropertyKey) (value : Expression) : List ObjectProperty → List ObjectProperty
  | [] => [.mk key value]
  | .mk existing old :: rest =>
      if existing.same key then .mk existing value :: rest
      else .mk existing old :: putProperty key value rest

/-- A store of a property behind an object literal, as a property of the literal. -/
def foldProperty (first next : Statement) : Option Statement :=
  match initialization first, next with
  | some (name, .object properties),
      .assign (.member (.value (.binding (.variable object))) property) value =>
      if object == name && !exprReferencesVar name.name value then
        some (withValue (.object (putProperty (.ident property) value properties)) first)
      else none
  | _, _ => none

/-- Fold the stores of properties in a list and in all nested bodies. -/
def foldObjectLiterals (statements : List Statement) : List Statement :=
  mergeRuns foldProperty (mapNestedAll (mergeRuns foldProperty) statements)

/-- A signed word as a vector index. -/
def asUsize (index : Int) : Nat := (index % 2 ^ 64).toNat

/-- Put something at a position of a list, behind holes where the list is too short. -/
def putAt {α : Type} (items : List (Option α)) (position : Nat) (item : α) : List (Option α) :=
  (items ++ List.replicate (position + 1 - items.length) none).set position (some item)

/-- A store at a constant index behind an array literal, as an element of the literal. -/
def foldElement (first next : Statement) : Option Statement :=
  match initialization first, next with
  | some (name, .array elements),
      .assign (.index (.value (.binding (.variable object)))
        (.value (.constant (.integer index)))) value =>
      if object == name && !exprReferencesVar name.name value then
        some (withValue (.array (putAt elements (asUsize index) value)) first)
      else none
  | _, _ => none

/-- Fold the stores at constant indices in a list and in all nested bodies. -/
def foldArrayLiterals (statements : List Statement) : List Statement :=
  mergeRuns foldElement (mapNestedAll (mergeRuns foldElement) statements)

open Action

variable {host : Host}

attribute [local simp] exprReferencesVar evaluateElements

theorem bind_unit (part : Exec host PUnit) : (part >>= fun _ => pure PUnit.unit) = part :=
  bind_pure part

/-- What an initialisation does with its value. -/
def storeIn : Statement → host.Val → Exec host PUnit
  | .letStmt name _ kind, content => perform (host.declare kind name content)
  | .assign (.binding place) _, content => writeBinding place content
  | _, _ => pure ⟨⟩

theorem execute_initialization {first : Statement} {name : Var} {value : Expression}
    (initializes : initialization first = some (name, value)) (fuel : Nat) (label : Option String)
    (value' : Expression) :
    ((withValue value' first).execute fuel label : Exec host PUnit) =
      value'.evaluate >>= storeIn first := by
  unfold initialization at initializes
  split at initializes
  case h_1 => rfl
  case h_2 =>
    rw [withValue, Statement.execute, AssignTarget.store, bind_assoc]
    refine congrArg (value'.evaluate >>= ·) (funext fun content => ?_)
    rw [bind_assoc]
    exact bind_pure _
  case h_3 => cases initializes

variable {first : Statement} {name : Var} {value : Expression}

theorem withValue_self (initializes : initialization first = some (name, value))
    : withValue value first = first := by
  unfold initialization at initializes
  split at initializes <;> cases initializes <;> rfl

theorem labelAfter_withValue (value : Expression) (first : Statement) (pending : Option String) :
    (withValue value first).labelAfter pending = first.labelAfter pending := by
  cases first <;> rfl

/-- An object has just been given the properties of a literal. -/
def Created (properties : List ObjectProperty) (object : host.Val) (after : Machine host) : Prop :=
  ∃ machine, (Expression.object properties).evaluate machine = (.ok object, after)

theorem defineAll_append (object : host.Val) (rest properties : List ObjectProperty) :
    (defineAll object (properties ++ rest) : Exec host PUnit) =
      defineAll object properties >>= fun _ => defineAll object rest := by
  induction properties with
  | nil => rfl
  | cons property properties ih =>
    cases property
    simp [defineAll, ih, bind_assoc]

/-- A literal with more properties. -/
theorem evaluate_object_append (properties rest : List ObjectProperty) :
    ((Expression.object (properties ++ rest)).evaluate : Exec host host.Val) = (do
      let object ← (Expression.object properties).evaluate
      defineAll object rest
      pure object) := by
  simp [Expression.evaluate, defineAll_append, bind_assoc]

/-- A store of a property behind a literal: reading the variable gives the object and nothing else
happens, the value does not notice whether the object is stored, and setting the property of the
stored object comes to defining it before. -/
structure StoresLate (host : Host) (first : Statement) (properties : List ObjectProperty)
    (variableName : Var) (property : String) (value : Expression) : Prop where
  plain : ∀ object (machine : Machine host), Created properties object machine →
    (storeIn first object >>= fun _ => readBinding (.variable variableName)) machine =
      (storeIn first object >>= fun _ => pure object) machine
  unnoticed : ∀ object (machine : Machine host), Created properties object machine →
    (storeIn first object >>= fun _ => value.evaluate) machine =
      (value.evaluate >>= fun content => storeIn first object >>= fun _ => pure content) machine
  defines : ∀ object (machine : Machine host) content after, Created properties object machine →
    value.evaluate machine = (.ok content, after) →
      (storeIn first object >>= fun _ =>
        perform (host.setMember object (host.name property) content)) after =
      (perform (host.define object (host.name property) content) >>= fun _ =>
        storeIn first object) after

/-- What two parts have done decides what may follow them. -/
theorem bind_congr_at {α β : Type} {part part' : Exec host α} {machine : Machine host}
    (same : part machine = part' machine) (next : α → Exec host β) :
    (part >>= next) machine = (part' >>= next) machine := by
  rw [bind_apply, bind_apply, same]

theorem bind_congr_after {α β : Type} {part : Exec host α} {next next' : α → Exec host β}
    {machine : Machine host}
    (same : ∀ value after, part machine = (.ok value, after) → next value after = next' value after) :
    (part >>= next) machine = (part >>= next') machine := by
  rw [bind_apply, bind_apply]
  rcases ran : part machine with ⟨value | _ | _, after⟩
  · exact same value after ran
  · rfl
  · rfl

/-- The store becomes the last property of the literal. -/
theorem StoresLate.execute {properties : List ObjectProperty} {variableName : Var}
    {property : String} (late : StoresLate host first properties variableName property value) :
    ((Expression.object (properties ++ [.mk (.ident property) value])).evaluate >>= storeIn first) =
      ((Expression.object properties).evaluate >>= fun object => do
        storeIn first object
        let holder ← readBinding (.variable variableName)
        let content ← value.evaluate
        perform (host.setMember holder (host.name property) content)) := by
  rw [evaluate_object_append, bind_assoc]
  funext machine
  refine bind_congr_after fun object created ran => ?_
  have isCreated : Created properties object created := ⟨machine, ran⟩
  symm
  calc (do
        storeIn first object
        let holder ← readBinding (.variable variableName)
        let content ← value.evaluate
        perform (host.setMember holder (host.name property) content) : Exec host PUnit) created
      = ((storeIn first object >>= fun _ => readBinding (.variable variableName)) >>= fun holder =>
          value.evaluate >>= fun content =>
            perform (host.setMember holder (host.name property) content)) created := by
        rw [bind_assoc]
    _ = ((storeIn first object >>= fun _ => value.evaluate) >>= fun content =>
          perform (host.setMember object (host.name property) content)) created := by
        rw [bind_congr_at (late.plain object created isCreated), bind_assoc, bind_assoc]
        rfl
    _ = (value.evaluate >>= fun content => storeIn first object >>= fun _ =>
          perform (host.setMember object (host.name property) content)) created := by
        rw [bind_congr_at (late.unnoticed object created isCreated), bind_assoc]
        refine bind_congr_after fun content after evaluated => ?_
        rw [bind_assoc]
        rfl
    _ = (value.evaluate >>= fun content =>
          perform (host.define object (host.name property) content) >>= fun _ =>
            storeIn first object) created :=
        bind_congr_after fun content after evaluated =>
          late.defines object created content after isCreated evaluated
    _ = ((defineAll object [.mk (.ident property) value] >>= fun _ => pure object) >>=
          storeIn first) created := by
        simp [defineAll, PropertyKey.evaluate, bind_assoc, pure_bind]

/-- A later value for a key of the literal: the value it replaces does nothing, and the later one
may be computed in its place, the key being defined once. -/
structure TakesPlace (host : Host) (before : List ObjectProperty) (property : String)
    (old : Expression) (rest : List ObjectProperty) (value : Expression) : Prop where
  idle : ∀ object (machine : Machine host), Created before object machine →
    ∃ content, old.evaluate machine = (.ok content, machine)
  moves : ∀ object (machine : Machine host) content, Created before object machine →
    old.evaluate machine = (.ok content, machine) →
      (do
        perform (host.define object (host.name property) content)
        defineAll object rest
        let content ← value.evaluate
        perform (host.define object (host.name property) content) : Exec host PUnit) machine =
      (do
        let content ← value.evaluate
        perform (host.define object (host.name property) content)
        defineAll object rest) machine

/-- The value for a key takes the place of an earlier one, if there is one. -/
def Replaces (host : Host) (property : String) (value : Expression) (before : List ObjectProperty) :
    List ObjectProperty → Prop
  | [] => True
  | .mk existing old :: rest =>
      if existing.same (.ident property) then TakesPlace host before property old rest value
      else Replaces host property value (before ++ [.mk existing old]) rest

theorem eq_of_same_ident {key : PropertyKey} {name : String}
    (same : key.same (.ident name) = true) : key = .ident name := by
  cases key with
  | ident name' =>
    have names : (name' == name) = true := same
    rw [eq_of_beq names]
  | computed | string | index => cases same

/-- The property in the place of an earlier one does what it does as the last one. -/
theorem evaluate_putProperty {property : String} :
    ∀ {rest before : List ObjectProperty}, Replaces host property value before rest →
      ((Expression.object (before ++ putProperty (.ident property) value rest)).evaluate :
          Exec host host.Val) =
        (Expression.object (before ++ (rest ++ [.mk (.ident property) value]))).evaluate
  | [], before, _ => rfl
  | .mk existing old :: rest, before, replaces => by
    rw [Replaces] at replaces
    rw [putProperty]
    split
    case isTrue same =>
      rw [if_pos same] at replaces
      obtain rfl := eq_of_same_ident same
      rw [evaluate_object_append, evaluate_object_append]
      funext machine
      refine bind_congr_after fun object created ran => ?_
      have isCreated : Created before object created := ⟨machine, ran⟩
      obtain ⟨content, evaluated⟩ := replaces.idle object created isCreated
      have moved := replaces.moves object created content isCreated evaluated
      have asLast : (defineAll object (.mk (.ident property) old :: rest ++
          [.mk (.ident property) value]) : Exec host PUnit) = (do
            let content ← old.evaluate
            perform (host.define object (host.name property) content)
            defineAll object rest
            let content ← value.evaluate
            perform (host.define object (host.name property) content)) := by
        rw [defineAll_append]
        simp [defineAll, PropertyKey.evaluate, bind_assoc, pure_bind]
      have inPlace : (defineAll object (.mk (.ident property) value :: rest) : Exec host PUnit) = (do
            let content ← value.evaluate
            perform (host.define object (host.name property) content)
            defineAll object rest) := by
        simp [defineAll, PropertyKey.evaluate, pure_bind]
      refine bind_congr_at ?_ fun _ => pure object
      rw [inPlace, asLast, bind_of_run evaluated]
      exact moved.symm
    case isFalse different =>
      rw [if_neg different] at replaces
      have inner := evaluate_putProperty replaces
      simpa using inner

/-- A store that is folded: it may come last in the literal, and then take the place of an earlier
property with its key. -/
def PropertySound (host : Host) (first next : Statement) : Prop :=
  ∀ name properties object property value,
    initialization first = some (name, .object properties) →
      next = .assign (.member (.value (.binding (.variable object))) property) value →
        StoresLate host first properties object property value ∧
          Replaces host property value [] properties

theorem foldProperty_eq_some {first next merged : Statement}
    (found : foldProperty first next = some merged) :
    ∃ name properties object property value,
      initialization first = some (name, .object properties) ∧
        next = .assign (.member (.value (.binding (.variable object))) property) value ∧
          merged = withValue (.object (putProperty (.ident property) value properties)) first := by
  unfold foldProperty at found
  split at found
  case h_1 name properties object property value initializes =>
    obtain ⟨-, made⟩ := Option.ite_none_right_eq_some.mp found
    exact ⟨name, properties, object, property, value, initializes, rfl, (Option.some.inj made).symm⟩
  case h_2 => cases found

theorem keepsPairs_foldProperty (fuel : Nat) :
    KeepsPairs host fuel foldProperty (PropertySound host) where
  execute {first next merged} pending found sound := by
    obtain ⟨name, properties, object, property, value, initializes, rfl, rfl⟩ :=
      foldProperty_eq_some found
    obtain ⟨late, replaces⟩ := sound name properties object property value initializes rfl
    have inPlace := evaluate_putProperty replaces
    rw [nil_append, nil_append] at inPlace
    have asFirst := @execute_initialization host _ _ _ initializes fuel pending (.object properties)
    rw [withValue_self initializes] at asFirst
    rw [execute_initialization initializes, inPlace, late.execute, asFirst, bind_assoc]
    refine congrArg ((Expression.object properties).evaluate >>= ·) (funext fun created => ?_)
    refine congrArg (storeIn first created >>= ·) (funext fun _ => ?_)
    simp only [Statement.execute, AssignTarget.store, bind_assoc, pure_bind, bind_unit]
    rfl
  label {first next merged} pending found := by
    obtain ⟨name, properties, object, property, value, initializes, rfl, rfl⟩ :=
      foldProperty_eq_some found
    rw [labelAfter_withValue]
    rfl

theorem putAt_of_le {α : Type} {items : List (Option α)} {position : Nat}
    (behind : items.length ≤ position) (item : α) :
    putAt items position item =
      items ++ (List.replicate (position - items.length) none ++ [some item]) := by
  have more : position + 1 - items.length = (position - items.length) + 1 := by omega
  rw [putAt, more, replicate_succ', set_append, if_neg (by omega), set_append]
  simp

theorem length_putAt {α : Type} (items : List (Option α)) (position : Nat) (item : α) :
    (putAt items position item).length = max items.length (position + 1) := by
  rw [putAt, length_set, length_append, length_replicate]
  omega

theorem evaluateElements_append (rest elements : List (Option Expression)) :
    (evaluateElements (elements ++ rest) : Exec host (List (Option host.Val))) = (do
      let values ← evaluateElements elements
      let others ← evaluateElements rest
      pure (values ++ others)) := by
  induction elements with
  | nil => simp
  | cons first elements ih =>
    cases first <;> simp [cons_append, evaluateElements, ih, bind_assoc]

theorem evaluateElements_replicate (count : Nat) :
    (evaluateElements (List.replicate count none) : Exec host (List (Option host.Val))) =
      pure (List.replicate count none) := by
  induction count with
  | zero => rfl
  | succ count hypothesis =>
    rw [replicate_succ, evaluateElements, hypothesis, pure_bind, replicate_succ]

/-- There is a value for each element. -/
theorem length_evaluateElements : ∀ {elements : List (Option Expression)}
    {machine after : Machine host} {values : List (Option host.Val)},
    evaluateElements elements machine = (.ok values, after) → values.length = elements.length
  | [], _, _, _, ran => by
    obtain rfl := Outcome.ok.inj (congrArg Prod.fst ran)
    rfl
  | none :: elements, _, _, _, ran => by
    obtain ⟨values, middle, evaluated, rest⟩ := bind_eq_ok.mp ran
    obtain rfl := Outcome.ok.inj (congrArg Prod.fst rest)
    rw [length_cons, length_cons, length_evaluateElements evaluated]
  | some first :: elements, _, _, _, ran => by
    obtain ⟨value, middle, _, later⟩ := bind_eq_ok.mp ran
    obtain ⟨values, middle, evaluated, rest⟩ := bind_eq_ok.mp later
    obtain rfl := Outcome.ok.inj (congrArg Prod.fst rest)
    rw [length_cons, length_cons, length_evaluateElements evaluated]

/-- The elements, then a value that is put among theirs. -/
def elementsThen (elements : List (Option Expression)) (position : Nat) (value : Expression) :
    Exec host (List (Option host.Val)) := do
  let values ← evaluateElements elements
  let content ← value.evaluate
  pure (putAt values position content)

variable {elements : List (Option Expression)}

/-- A value behind all elements is computed after them. -/
theorem evaluateElements_putAt {position : Nat} (behind : elements.length ≤ position)
    (value : Expression) :
    (evaluateElements (putAt elements position value) : Exec host (List (Option host.Val))) =
      elementsThen elements position value := by
  rw [putAt_of_le behind, evaluateElements_append, evaluateElements_append,
    evaluateElements_replicate, elementsThen]
  funext machine
  refine bind_congr_after fun values after evaluated => ?_
  have sameLength := length_evaluateElements evaluated
  simp only [evaluateElements, bind_assoc, pure_bind]
  refine bind_congr_after fun content ready _ => ?_
  rw [putAt_of_le (by omega), sameLength]

/-- The elements of an array have just been computed. -/
def Computed (elements : List (Option Expression)) (values : List (Option host.Val))
    (after : Machine host) : Prop :=
  ∃ machine, evaluateElements elements machine = (.ok values, after)

/-- A store at an index behind a literal: reading the variable gives the array and nothing else
happens, the value does not notice whether the array is made and stored, and setting the element
of the stored array comes to making the array with it. Among the elements of the literal the value
may be computed in its place. -/
structure ElementLate (host : Host) (first : Statement) (elements : List (Option Expression))
    (variableName : Var) (index : Int) (value : Expression) : Prop where
  plain : ∀ values (machine : Machine host) array ready, Computed elements values machine →
    perform (host.newArray values) machine = (.ok array, ready) →
      (storeIn first array >>= fun _ => readBinding (.variable variableName)) ready =
        (storeIn first array >>= fun _ => pure array) ready
  unnoticed : ∀ values (machine : Machine host), Computed elements values machine →
    (do
      let array ← perform (host.newArray values)
      storeIn first array
      let content ← value.evaluate
      pure (array, content) : Exec host (host.Val × host.Val)) machine =
    (do
      let content ← value.evaluate
      let array ← perform (host.newArray values)
      storeIn first array
      pure (array, content)) machine
  stores : ∀ values (machine : Machine host) content after, Computed elements values machine →
    value.evaluate machine = (.ok content, after) →
      (do
        let array ← perform (host.newArray values)
        storeIn first array
        let key ← perform (host.toKey (host.constant (.integer index)))
        perform (host.setMember array key content) : Exec host PUnit) after =
      (perform (host.newArray (putAt values (asUsize index) content)) >>= storeIn first) after
  inPlace : asUsize index < elements.length →
    (evaluateElements (putAt elements (asUsize index) value) :
        Exec host (List (Option host.Val))) = elementsThen elements (asUsize index) value

variable {index : Int}

/-- The store becomes an element of the literal. -/
theorem ElementLate.execute {variableName : Var}
    (late : ElementLate host first elements variableName index value) :
    ((Expression.array (putAt elements (asUsize index) value)).evaluate >>= storeIn first) =
      ((Expression.array elements).evaluate >>= fun array => do
        storeIn first array
        let holder ← readBinding (.variable variableName)
        let content ← value.evaluate
        let key ← perform (host.toKey (host.constant (.integer index)))
        perform (host.setMember holder key content)) := by
  have placed : (evaluateElements (putAt elements (asUsize index) value) :
      Exec host (List (Option host.Val))) = elementsThen elements (asUsize index) value :=
    (Nat.lt_or_ge (asUsize index) elements.length).elim late.inPlace fun behind =>
      evaluateElements_putAt behind value
  rw [Expression.evaluate, Expression.evaluate, andPerform, andPerform, placed, elementsThen,
    bind_assoc, bind_assoc, bind_assoc]
  funext machine
  refine bind_congr_after fun values computed ran => ?_
  have isComputed : Computed elements values computed := ⟨machine, ran⟩
  symm
  calc (do
        let array ← perform (host.newArray values)
        storeIn first array
        let holder ← readBinding (.variable variableName)
        let content ← value.evaluate
        let key ← perform (host.toKey (host.constant (.integer index)))
        perform (host.setMember holder key content) : Exec host PUnit) computed
      = (do
        let array ← perform (host.newArray values)
        storeIn first array
        let content ← value.evaluate
        let key ← perform (host.toKey (host.constant (.integer index)))
        perform (host.setMember array key content) : Exec host PUnit) computed := by
        refine bind_congr_after fun array ready made => ?_
        have read := late.plain values computed array ready isComputed made
        have behind := bind_congr_at read fun holder => (do
          let content ← value.evaluate
          let key ← perform (host.toKey (host.constant (.integer index)))
          perform (host.setMember holder key content) : Exec host PUnit)
        rwa [bind_assoc, bind_assoc] at behind
    _ = (do
        let content ← value.evaluate
        let array ← perform (host.newArray values)
        storeIn first array
        let key ← perform (host.toKey (host.constant (.integer index)))
        perform (host.setMember array key content) : Exec host PUnit) computed := by
        have behind := bind_congr_at (late.unnoticed values computed isComputed) fun both => (do
          let key ← perform (host.toKey (host.constant (.integer index)))
          perform (host.setMember both.1 key both.2) : Exec host PUnit)
        simpa only [bind_assoc, pure_bind] using behind
    _ = (value.evaluate >>= fun content =>
          perform (host.newArray (putAt values (asUsize index) content)) >>= storeIn first)
            computed :=
        bind_congr_after fun content after evaluated =>
          late.stores values computed content after isComputed evaluated
    _ = _ := by
        rw [bind_assoc]
        rfl

/-- A store that is folded may become an element of the literal. -/
def ElementSound (host : Host) (first next : Statement) : Prop :=
  ∀ name elements object index value, initialization first = some (name, .array elements) →
    next = .assign (.index (.value (.binding (.variable object)))
      (.value (.constant (.integer index)))) value →
      ElementLate host first elements object index value

theorem foldElement_eq_some {first next merged : Statement}
    (found : foldElement first next = some merged) :
    ∃ name elements object index value, initialization first = some (name, .array elements) ∧
      next = .assign (.index (.value (.binding (.variable object)))
        (.value (.constant (.integer index)))) value ∧
        merged = withValue (.array (putAt elements (asUsize index) value)) first := by
  unfold foldElement at found
  split at found
  case h_1 name elements object index value initializes =>
    obtain ⟨-, made⟩ := Option.ite_none_right_eq_some.mp found
    exact ⟨name, elements, object, index, value, initializes, rfl, (Option.some.inj made).symm⟩
  case h_2 => cases found

theorem keepsPairs_foldElement (fuel : Nat) :
    KeepsPairs host fuel foldElement (ElementSound host) where
  execute {first next merged} pending found sound := by
    obtain ⟨name, elements, object, index, value, initializes, rfl, rfl⟩ :=
      foldElement_eq_some found
    have late := sound name elements object index value initializes rfl
    have asFirst := @execute_initialization host _ _ _ initializes fuel pending (.array elements)
    rw [withValue_self initializes] at asFirst
    rw [execute_initialization initializes, late.execute, asFirst, bind_assoc]
    refine congrArg ((Expression.array elements).evaluate >>= ·) (funext fun array => ?_)
    refine congrArg (storeIn first array >>= ·) (funext fun _ => ?_)
    simp [Statement.execute, AssignTarget.store, Expression.evaluate, evaluateValue, pure_bind]
  label {first next merged} pending found := by
    obtain ⟨name, elements, object, index, value, initializes, rfl, rfl⟩ :=
      foldElement_eq_some found
    rw [labelAfter_withValue]
    rfl

/-- The length of the array that stores at constant indices leave: a negative index is no
element. -/
def builtLength (length : Nat) (indices : List Int) : Nat :=
  indices.foldl (fun length index => if 0 ≤ index then max length (index.toNat + 1) else length) length

/-- A signed 32-bit word. -/
def IsInt32 (index : Int) : Prop := -2 ^ 31 ≤ index ∧ index < 2 ^ 31

/-- The stores at constant indices of a variable. -/
def indexStores (name : Var) (stores : List (Int × Expression)) : List Statement :=
  stores.map fun (index, value) =>
    .assign (.index (.value (.binding (.variable name))) (.value (.constant (.integer index)))) value

/-- The elements after a run of stores. -/
def putAll (elements : List (Option Expression)) (stores : List (Int × Expression)) :
    List (Option Expression) :=
  stores.foldl (fun elements (index, value) => putAt elements (asUsize index) value) elements

theorem asUsize_of_nonneg (fits : IsInt32 index) (nonneg : 0 ≤ index) :
    asUsize index = index.toNat := by
  unfold IsInt32 at fits
  rw [asUsize, Int.emod_eq_of_lt nonneg (by omega)]

theorem asUsize_of_neg (fits : IsInt32 index) (negative : index < 0) :
    2 ^ 64 - 2 ^ 31 ≤ asUsize index := by
  unfold IsInt32 at fits
  unfold asUsize
  omega

theorem initialization_withValue (initializes : initialization first = some (name, value))
    (value' : Expression) : initialization (withValue value' first) = some (name, value') := by
  unfold initialization at initializes
  split at initializes <;> cases initializes <;> rfl

theorem withValue_withValue (value value' : Expression) (first : Statement) :
    withValue value (withValue value' first) = withValue value first := by
  cases first <;> rfl

/-- A run of stores that does not mention the variable is folded as a whole. -/
theorem mergeFrom_indexStores (stores : List (Int × Expression)) :
    ∀ {first : Statement} {elements : List (Option Expression)},
      initialization first = some (name, .array elements) →
        (∀ store ∈ stores, exprReferencesVar name.name store.2 = false) →
          mergeFrom foldElement first (indexStores name stores) =
            [withValue (.array (putAll elements stores)) first] := by
  induction stores with
  | nil =>
    intro first elements initializes _
    rw [putAll, foldl_nil, withValue_self initializes]
    rfl
  | cons store rest hypothesis =>
    intro first elements initializes unmentioned
    obtain ⟨index, value⟩ := store
    rw [forall_mem_cons] at unmentioned
    have merges : foldElement first (.assign (.index (.value (.binding (.variable name)))
        (.value (.constant (.integer index)))) value) =
          some (withValue (.array (putAt elements (asUsize index) value)) first) := by
      have same : (name == name) = true := beq_self_eq_true name.name
      simp [foldElement, initializes, same, unmentioned.1]
    have folded := hypothesis (initialization_withValue initializes
      (.array (putAt elements (asUsize index) value))) unmentioned.2
    rw [withValue_withValue] at folded
    rw [indexStores, map_cons, mergeFrom, merges]
    exact folded

/-- Where no index is negative, the vector is as long as the array. -/
theorem length_putAll (stores : List (Int × Expression)) :
    ∀ {elements : List (Option Expression)}, (∀ store ∈ stores, IsInt32 store.1) →
      (∀ store ∈ stores, 0 ≤ store.1) →
        (putAll elements stores).length = builtLength elements.length (stores.map Prod.fst) := by
  induction stores with
  | nil => intro elements _ _; rfl
  | cons store rest hypothesis =>
    intro elements fits nonneg
    obtain ⟨index, value⟩ := store
    rw [forall_mem_cons] at fits nonneg
    have position : asUsize index = index.toNat := asUsize_of_nonneg fits.1 nonneg.1
    have later := @hypothesis (putAt elements (asUsize index) value) fits.2 nonneg.2
    calc (putAll elements ((index, value) :: rest)).length
        = (putAll (putAt elements (asUsize index) value) rest).length := rfl
      _ = builtLength (max elements.length (index.toNat + 1)) (rest.map Prod.fst) := by
          rw [later, length_putAt, position]
      _ = builtLength elements.length (index :: rest.map Prod.fst) := by
          rw [builtLength, builtLength, foldl_cons, if_pos nonneg.1]

/-- No store makes the vector shorter. -/
theorem length_le_putAll (stores : List (Int × Expression)) :
    ∀ elements, elements.length ≤ (putAll elements stores).length := by
  induction stores with
  | nil => intro elements; exact Nat.le_refl _
  | cons store rest hypothesis =>
    intro elements
    have longer := hypothesis (putAt elements (asUsize store.1) store.2)
    rw [length_putAt] at longer
    exact Nat.le_trans (Nat.le_max_left _ _) longer

variable {stores : List (Int × Expression)}

/-- The vector has room for every index that was stored, as an unsigned word. -/
theorem lt_length_putAll {store : Int × Expression} (stored : store ∈ stores) :
    ∀ elements, asUsize store.1 < (putAll elements stores).length := by
  induction stores with
  | nil => cases stored
  | cons first rest hypothesis =>
    intro elements
    rcases mem_cons.mp stored with rfl | behind
    · have longer := length_le_putAll rest (putAt elements (asUsize store.1) store.2)
      rw [length_putAt] at longer
      exact Nat.lt_of_succ_le (Nat.le_trans (Nat.le_max_right _ _) longer)
    · exact hypothesis behind (putAt elements (asUsize first.1) first.2)

/-- Stores at signed words make no array of more than `2 ^ 31` elements. -/
theorem builtLength_le (indices : List Int) :
    ∀ length, (∀ index ∈ indices, IsInt32 index) →
      builtLength length indices ≤ max length (2 ^ 31) := by
  induction indices with
  | nil => intro length _; exact Nat.le_max_left _ _
  | cons index rest hypothesis =>
    intro length fits
    rw [forall_mem_cons] at fits
    have inside := fits.1
    unfold IsInt32 at inside
    rw [builtLength, foldl_cons, ← builtLength]
    split
    case isTrue nonneg =>
      have later := hypothesis (max length (index.toNat + 1)) fits.2
      omega
    case isFalse negative => exact hypothesis length fits.2

/-- The vector is no longer than the array exactly where no index is negative. -/
theorem length_putAll_le_iff (short : elements.length < 2 ^ 63)
    (fits : ∀ store ∈ stores, IsInt32 store.1) :
    (putAll elements stores).length ≤ builtLength elements.length (stores.map Prod.fst) ↔
      ∀ store ∈ stores, 0 ≤ store.1 := by
  constructor
  · intro enough store stored
    by_contra negative
    have room := lt_length_putAll stored elements
    have large := asUsize_of_neg (fits store stored) (by omega)
    have bound := builtLength_le (stores.map Prod.fst) elements.length (by
      rw [forall_mem_map]
      exact fits)
    omega
  · intro nonneg
    exact Nat.le_of_eq (length_putAll stores fits nonneg)

theorem mapNestedAll_indexStores (pass : List Statement → List Statement) (name : Var)
    (stores : List (Int × Expression)) :
    mapNestedAll pass (indexStores name stores) = indexStores name stores := by
  induction stores with
  | nil => rfl
  | cons store rest hypothesis =>
    calc mapNestedAll pass (indexStores name (store :: rest))
        = .assign (.index (.value (.binding (.variable name)))
            (.value (.constant (.integer store.1)))) store.2 ::
              mapNestedAll pass (indexStores name rest) := rfl
      _ = indexStores name (store :: rest) := by rw [hypothesis]; rfl

theorem mapNestedBodies_initialization (initializes : initialization first = some (name, value))
    (pass : List Statement → List Statement) : first.mapNestedBodies pass = first := by
  unfold initialization at initializes
  split at initializes <;> cases initializes <;> rfl

/-- A run of stores behind an array literal becomes one vector. -/
theorem foldArrayLiterals_indexStores
    (initializes : initialization first = some (name, .array elements))
    (unmentioned : ∀ store ∈ stores, exprReferencesVar name.name store.2 = false) :
    foldArrayLiterals (first :: indexStores name stores) =
      [withValue (.array (putAll elements stores)) first] := by
  rw [foldArrayLiterals, mapNestedAll, mapNestedBodies_initialization initializes,
    mapNestedAll_indexStores]
  exact mergeFrom_indexStores stores initializes unmentioned

/-- The passes keep what every list does if each store they absorb may run before the variable is
given its value, and if what it replaces does nothing and its own value may be computed in that
place. The vector of a run of stores is no longer than the array exactly where no index is
negative. -/
theorem folding_kept (fuel : Nat) (pending : Option String) :
    (∀ statements, PassSound (mergeRuns foldProperty)
        (RunsSound foldProperty (PropertySound host)) statements →
      (executeAll fuel pending (foldObjectLiterals statements) : Exec host PUnit) =
        executeAll fuel pending statements) ∧
    (∀ statements, PassSound (mergeRuns foldElement)
        (RunsSound foldElement (ElementSound host)) statements →
      (executeAll fuel pending (foldArrayLiterals statements) : Exec host PUnit) =
        executeAll fuel pending statements) ∧
    (∀ first name elements stores, initialization first = some (name, .array elements) →
      elements.length < 2 ^ 63 → (∀ store ∈ stores, IsInt32 store.1) →
        (∀ store ∈ stores, exprReferencesVar name.name store.2 = false) →
          ∃ vector, foldArrayLiterals (first :: indexStores name stores) =
              [withValue (.array vector) first] ∧
            (vector.length ≤ builtLength elements.length (stores.map Prod.fst) ↔
              ∀ store ∈ stores, 0 ≤ store.1)) := by
  refine ⟨?_, ?_, ?_⟩
  · intro statements isSound
    exact (keepsPairs_foldProperty fuel).keepsLists.executeAll_pass pending isSound
  · intro statements isSound
    exact (keepsPairs_foldElement fuel).keepsLists.executeAll_pass pending isSound
  · intro first name elements stores initializes short fits unmentioned
    exact ⟨putAll elements stores, foldArrayLiterals_indexStores initializes unmentioned,
      length_putAll_le_iff short fits⟩

/-- An engine in which an object is its properties, and setting one comes to defining it. -/
def building : Host :=
  { Tracing.host with
    setMember := Tracing.host.define
    newArray := fun elements world =>
      (.ok Constant.null, { world with
        properties := elements.zipIdx.foldl
          (fun properties element =>
            Function.update properties (toString (element.2 : Int)) (element.1.getD Constant.undefined))
          fun _ => .undefined }) }

/-- An object whose only property is stored twice. -/
def storedTwice : List Statement :=
  [.assign (.binding (.variable ⟨"a", none⟩)) (.object []),
    .assign (.member (.value (.binding (.variable ⟨"a", none⟩))) "x") (.value (.constant (.integer 1))),
    .assign (.member (.value (.binding (.variable ⟨"a", none⟩))) "x") (.value (.constant (.integer 2)))]

/-- An array whose only element is stored behind the literal. -/
def storedElement : List Statement :=
  [.assign (.binding (.variable ⟨"a", none⟩)) (.array []),
    .assign (.index (.value (.binding (.variable ⟨"a", none⟩))) (.value (.constant (.integer 0))))
      (.value (.constant (.integer 1)))]

theorem storesLate_building (properties : List ObjectProperty) (property : String)
    (constant : Constant) :
    StoresLate building (.assign (.binding (.variable ⟨"a", none⟩)) (.object properties)) properties
      ⟨"a", none⟩ property (.value (.constant constant)) where
  plain object machine _ := by
    have named : Function.update machine.world.names "a" object "a" = object :=
      Function.update_self ..
    exact congrArg (fun content => (Outcome.ok content, _)) named
  unnoticed object machine _ := rfl
  defines object machine content after _ evaluated := rfl

/-- Two constants for one property. -/
theorem takesPlace_building (property : String) (old new : Constant) :
    TakesPlace building [] property (.value (.constant old)) [] (.value (.constant new)) where
  idle _ _ _ := ⟨old, rfl⟩
  moves object machine content _ _ := by
    have twice : Function.update (Function.update machine.world.properties property content)
        property new = Function.update machine.world.properties property new :=
      Function.update_idem ..
    exact congrArg (fun properties => (Outcome.ok PUnit.unit,
      { machine with world := { machine.world with properties := properties } })) twice

theorem propertySound_first (property : String) (new : Constant) :
    PropertySound building (.assign (.binding (.variable ⟨"a", none⟩)) (.object []))
      (.assign (.member (.value (.binding (.variable ⟨"a", none⟩))) property)
        (.value (.constant new))) := by
  rintro name properties object property value initializes ⟨⟩
  cases initializes
  exact ⟨storesLate_building [] _ new, trivial⟩

theorem propertySound_second (old new : Constant) :
    PropertySound building (.assign (.binding (.variable ⟨"a", none⟩))
        (.object [.mk (.ident "x") (.value (.constant old))]))
      (.assign (.member (.value (.binding (.variable ⟨"a", none⟩))) "x")
        (.value (.constant new))) := by
  rintro name properties object property value initializes ⟨⟩
  cases initializes
  exact ⟨storesLate_building _ _ new, takesPlace_building "x" old new⟩

theorem elementSound_building (new : Constant) :
    ElementSound building (.assign (.binding (.variable ⟨"a", none⟩)) (.array []))
      (.assign (.index (.value (.binding (.variable ⟨"a", none⟩)))
        (.value (.constant (.integer 0)))) (.value (.constant new))) := by
  rintro name elements object index value initializes ⟨⟩
  cases initializes
  constructor
  case plain =>
    intro values machine array ready _ _
    have named : Function.update ready.world.names "a" array "a" = array := Function.update_self ..
    exact congrArg (fun content => (Outcome.ok content, _)) named
  case unnoticed => intro values machine _; rfl
  case stores =>
    rintro values machine content after ⟨before, computed⟩ evaluated
    obtain rfl := Outcome.ok.inj (congrArg Prod.fst computed)
    rfl
  case inPlace => intro inside; cases inside

theorem folding_kept_building :
    ((executeAll 0 none (foldObjectLiterals storedTwice) : Exec building PUnit) =
        executeAll 0 none storedTwice) ∧
      ((executeAll 0 none (foldArrayLiterals storedElement) : Exec building PUnit) =
        executeAll 0 none storedElement) ∧
      ∃ vector, foldArrayLiterals storedElement =
          [.assign (.binding (.variable ⟨"a", none⟩)) (.array vector)] ∧
        (vector.length ≤ 1 ↔ ∀ store ∈ [((0 : Int), Expression.value (.constant (.integer 1)))],
          0 ≤ store.1) := by
  refine ⟨(folding_kept 0 none).1 storedTwice ?_, (folding_kept 0 none).2.1 storedElement ?_,
    (@folding_kept building 0 none).2.2 _ ⟨"a", none⟩ []
      [(0, .value (.constant (.integer 1)))] rfl (by decide) ?_ ?_⟩
  · exact ⟨⟨trivial, trivial, trivial, trivial⟩, propertySound_first "x" (.integer 1),
      propertySound_second (.integer 1) (.integer 2), trivial⟩
  · exact ⟨⟨trivial, trivial, trivial⟩, elementSound_building (.integer 1), trivial⟩
  · simp [IsInt32]
  · simp

/-- A negative index behind an array literal. -/
def storedBefore : List Statement := indexStores ⟨"a", none⟩ [(-1, .value (.constant (.integer 5)))]

/-- Two calls whose values are stored from the back. -/
def storedBackwards : List Statement :=
  [.assign (.binding (.variable ⟨"a", none⟩)) (.array []),
    .assign (.index (.value (.binding (.variable ⟨"a", none⟩))) (.value (.constant (.integer 1))))
      (.call (.register 0) [.value (.constant (.integer 1))]),
    .assign (.index (.value (.binding (.variable ⟨"a", none⟩))) (.value (.constant (.integer 0))))
      (.call (.register 0) [.value (.constant (.integer 2))])]

/-- The vector for an array without elements has `2 ^ 64` of them, and the calls are made in the
order of the indices. -/
theorem folding_changes :
    (∃ vector, foldArrayLiterals (.assign (.binding (.variable ⟨"a", none⟩)) (.array []) ::
          storedBefore) = [.assign (.binding (.variable ⟨"a", none⟩)) (.array vector)] ∧
        vector.length = 2 ^ 64 ∧ builtLength 0 [-1] = 0) ∧
      ¬ (∀ host : Host, ∀ (fuel : Nat) (pending : Option String) (statements : List Statement),
        (executeAll fuel pending (foldArrayLiterals statements) : Exec host PUnit) =
          executeAll fuel pending statements) := by
  constructor
  · refine ⟨putAll [] [(-1, .value (.constant (.integer 5)))],
      foldArrayLiterals_indexStores rfl ?_, ?_, rfl⟩
    · simp
    · have position : asUsize (-1) = 2 ^ 64 - 1 := by decide
      rw [putAll, foldl_cons, foldl_nil, length_putAt, position]
      rfl
  · intro all
    have contents : [("call", [Constant.undefined, .integer 2]),
        ("call", [Constant.undefined, .integer 1])] =
          [("call", [Constant.undefined, .integer 1]), ("call", [Constant.undefined, .integer 2])] :=
      congrArg (fun code : Exec building PUnit =>
        (code ⟨fun _ => none, Tracing.blank, .other ⟨0, 0⟩⟩).2.world.log)
        (all building 0 none storedBackwards)
    exact absurd contents (by decide)

end HermesDecomp.Ir.Folding
