import HermesDecomp.Ir.Steps
import HermesDecomp.Transforms.Phases

/-!
# Substitution keeps the meaning

A relation of machines may hold only until the first operation, as what is said about a
variable does, and weaken then. Where each read finds its value in its phase, the copy
that replaces a read does in its phase what the read does, and the writes of the code
keep the relation, code with copies substituted agrees with the original. A computed key
that becomes an index names the same property.
-/

namespace HermesDecomp.Ir

open Action List

variable {host : Host} {copies : Nat → Option Expression}

/-- Relations of machines for before any operation (`true`) and for after one. What is
related before is related after, and reading a variable is not an operation. -/
structure Phases (related : Bool → Machine host → Machine host → Prop) : Prop where
  compatible : Compatible (related false)
  weakens : ∀ {machine machine'}, related true machine machine' → related false machine machine'
  place : ∀ place : Binding, place.register? = none →
    Agree (related true) (readBinding place) (readBinding place)

section Phases

variable {related : Bool → Machine host → Machine host → Prop} (phases : Phases related)
  {early late : Bool} {α : Type}

include phases

theorem Phases.dropped {machine machine' : Machine host} (start : related early machine machine') :
    related false machine machine' := by
  cases early with
  | true => exact phases.weakens start
  | false => exact start

theorem Phases.lower (order : late = true → early = true) {machine machine' : Machine host}
    (start : related early machine machine') : related late machine machine' := by
  cases late with
  | true =>
    rw [order rfl] at start
    exact start
  | false => exact phases.dropped start

theorem Phases.operation (operation : Action host.World host.Val α) :
    AgreeTo (related early) (related false) (perform operation) (perform operation) :=
  AgreeTo.mono (agree_perform phases.compatible operation)
    (fun _ _ => phases.dropped) (fun _ _ finish => finish)

/-- Code that agrees after an operation may start before one. -/
theorem Phases.settled {left right : Exec host α} (agree : Agree (related false) left right) :
    AgreeTo (related early) (related false) left right :=
  AgreeTo.mono agree (fun _ _ => phases.dropped)
    (fun _ _ finish => finish)

theorem Phases.value (value : α) (order : late = true → early = true) :
    AgreeTo (related early) (related late) (pure value : Exec host α) (pure value) :=
  AgreeTo.mono (agree_pure value) (fun _ _ start => start) fun _ _ => phases.lower order

theorem Phases.ended (value : α) :
    AgreeTo (related early) (related false) (pure value : Exec host α) (pure value) :=
  phases.settled (agree_pure value)

theorem Phases.next {β : Type} {middle : Bool} {left right : Exec host α}
    {next next' : α → Exec host β} (order : late = true → middle = true)
    (first : AgreeTo (related early) (related middle) left right)
    (rest : ∀ value, AgreeTo (related middle) (related late) (next value) (next' value)) :
    AgreeTo (related early) (related late) (left >>= next) (right >>= next') :=
  agreeTo_bind (fun _ _ => phases.lower order) first rest

theorem Phases.followed {β : Type} {middle : Bool} {left right : Exec host α}
    {next next' : α → Exec host β} (first : AgreeTo (related early) (related middle) left right)
    (rest : ∀ value, AgreeTo (related middle) (related false) (next value) (next' value)) :
    AgreeTo (related early) (related false) (left >>= next) (right >>= next') :=
  agreeTo_bind (fun _ _ => phases.dropped) first rest

theorem Phases.andPerform {β : Type} {middle : Bool} {part part' : Exec host α}
    (first : AgreeTo (related early) (related middle) part part')
    (operation : α → Action host.World host.Val β) :
    AgreeTo (related early) (related false) (Ir.andPerform part operation)
      (Ir.andPerform part' operation) :=
  phases.followed first fun _ => phases.operation _

theorem Phases.thenPerform {β γ : Type} {middle last : Bool} {first first' : Exec host α}
    {second second' : Exec host β} (onFirst : AgreeTo (related early) (related middle) first first')
    (onSecond : AgreeTo (related middle) (related last) second second')
    (operation : α → β → Action host.World host.Val γ) :
    AgreeTo (related early) (related false) (Ir.thenPerform first second operation)
      (Ir.thenPerform first' second' operation) :=
  phases.followed onFirst fun _ => phases.followed onSecond fun _ => phases.operation _

theorem Phases.binaryOf (op : BinaryOp) {quiet quiet' : Bool} {left left' right right' : Exec host host.Val}
    (onLeft : AgreeTo (related early) (related (early && quiet)) left left')
    (onRight : AgreeTo (related (early && quiet)) (related (early && quiet && quiet')) right right') :
    AgreeTo (related early) (related (early && (op.isQuiet && (quiet && quiet'))))
      (Ir.binaryOf op left right) (Ir.binaryOf op left' right') := by
  have order : (early && (op.isQuiet && (quiet && quiet'))) = true → (early && quiet) = true := by
    cases early <;> cases quiet <;> simp
  apply phases.next order onLeft
  intro value
  have whole : ∀ quietly : op.isQuiet = true,
      AgreeTo (related (early && quiet)) (related (early && (op.isQuiet && (quiet && quiet'))))
        right right' := by
    intro quietly
    rw [quietly, Bool.true_and, ← Bool.and_assoc]
    exact onRight
  have operation : ∀ noisy : op.isQuiet = false,
      AgreeTo (related (early && quiet)) (related (early && (op.isQuiet && (quiet && quiet'))))
        (do let other ← right; perform (host.binary op value other))
        (do let other ← right'; perform (host.binary op value other)) := by
    intro noisy
    rw [noisy, Bool.false_and, Bool.and_false]
    exact phases.followed onRight fun _ => phases.operation _
  have kept : AgreeTo (related (early && quiet))
      (related (early && (op.isQuiet && (quiet && quiet')))) (pure value : Exec host host.Val)
      (pure value) := phases.value value order
  cases op
  case and | logicalAnd => exact agreeTo_ite (whole rfl) kept
  case or | logicalOr => exact agreeTo_ite kept (whole rfl)
  case nullishCoalesce => exact agreeTo_ite (whole rfl) kept
  all_goals exact operation rfl

end Phases

/-- Related machines under which the copies stand for the reads they replace, in the
phase of each read. -/
structure Phased (related : Bool → Machine host → Machine host → Prop)
    (copies : Nat → Option Expression) (reads writes : List Nat) (spots : List (Bool × Nat))
    (keys : List Expression) : Prop extends Phases related where
  read : ∀ register ∈ reads, ∀ {machine machine'}, related false machine machine' →
    machine.read register = machine'.read register
  write : ∀ register ∈ writes, ∀ (early : Bool) value {machine machine'},
    related early machine machine' →
      related early (machine.write register value) (machine'.write register value)
  copy : ∀ spot ∈ spots, ∀ expression, copies spot.2 = some expression →
    Agree (related spot.1) (readRegister spot.2) expression.evaluate
  fits : ∀ key ∈ keys, FitsKey (key.substitute copies)

section Phased

variable {related : Bool → Machine host → Machine host → Prop}

theorem Phased.append {reads reads' writes writes' : List Nat} {spots spots' : List (Bool × Nat)}
    {keys keys' : List Expression}
    (phased : Phased related copies (reads ++ reads') (writes ++ writes') (spots ++ spots')
      (keys ++ keys')) :
    Phased related copies reads writes spots keys ∧
      Phased related copies reads' writes' spots' keys' := by
  constructor
  · exact ⟨phased.toPhases,
      fun register member => phased.read register (mem_append_left _ member),
      fun register member => phased.write register (mem_append_left _ member),
      fun spot member => phased.copy spot (mem_append_left _ member),
      fun key member => phased.fits key (mem_append_left _ member)⟩
  · exact ⟨phased.toPhases,
      fun register member => phased.read register (mem_append_right _ member),
      fun register member => phased.write register (mem_append_right _ member),
      fun spot member => phased.copy spot (mem_append_right _ member),
      fun key member => phased.fits key (mem_append_right _ member)⟩

/-- Where nothing is substituted, the reads keep their registers. -/
theorem Phased.renames {reads writes : List Nat} {spots : List (Bool × Nat)}
    {keys : List Expression} (phased : Phased related copies reads writes spots keys) :
    Renames (related false) id reads writes :=
  ⟨phased.compatible, phased.read, fun register member => phased.write register member false⟩

/-- What is asked of a part, by the walks that collect its places. -/
abbrev PhasedFor (related : Bool → Machine host → Machine host → Prop)
    (copies : Nat → Option Expression) (visit : Visitor Nat → List Nat) (spots : List (Bool × Nat))
    (keys : List Expression) : Prop :=
  Phased related copies (visit readVisitor) (visit writeVisitor) spots keys

theorem Phased.readRegister {register : Nat} {reads writes : List Nat} {early : Bool}
    (phased : Phased related copies reads writes [(early, register)] [])
    (member : register ∈ reads) :
    AgreeTo (related early) (related early) (Ir.readRegister register)
      (standIn copies register).evaluate := by
  cases copied : copies register with
  | none =>
    have same : standIn copies register = .register register := by
      rw [standIn, copied]
      rfl
    rw [same]
    intro machine machine' start
    have equal := phased.read register member (phased.dropped start)
    exact ⟨congrArg Outcome.ok equal, start⟩
  | some expression =>
    have same : standIn copies register = expression := by
      rw [standIn, copied]
      rfl
    rw [same]
    exact phased.copy (early, register) (mem_singleton_self _) expression copied

/-- A pattern evaluates the value to store before anything else. -/
theorem agreeTo_storePattern {target : AssignTarget} {early : Bool}
    (valueFirst : ∀ value : Exec host host.Val,
      target.store value = value >>= fun content => target.store (pure content))
    (phases : Phases related)
    (agree : ∀ content, Agree (related false) (target.store (pure content))
      (target.store (pure content)))
    {value value' : Exec host host.Val} (onValue : AgreeTo (related early) (related false) value value') :
    AgreeTo (related early) (related false) (target.store value) (target.store value') := by
  rw [valueFirst value, valueFirst value']
  exact phases.followed onValue agree

end Phased

/-- An operation that only returns a value does nothing to the world. -/
theorem perform_pure {α : Type} (value : α) :
    (perform (pure value) : Exec host α) = pure value := rfl

/-- A computed key and the index it becomes name the same property. -/
theorem evaluate_indexKey (lawful : host.Lawful) {key : Expression} (fits : FitsKey key) :
    ((indexKey key).evaluate : Exec host host.Key) = andPerform key.evaluate host.toKey := by
  unfold indexKey
  split
  · rename_i value
    change _ = perform (host.toKey (host.constant (.integer value)))
    rw [lawful.integer_key, perform_pure]
    rfl
  · rename_i number
    split
    · rename_i value isInteger
      change _ = perform (host.toKey (host.constant (.number number)))
      rw [lawful.number_key number value isInteger, perform_pure, fits value isInteger]
      rfl
    · rfl
  · rfl

section Mutual

variable {related : Bool → Machine host → Machine host → Prop}

/-- An expression that is not quiet ends after an operation. -/
theorem agreeTo_noisy {α : Type} {early : Bool} {left right : Exec host α}
    (agree : AgreeTo (related early) (related false) left right) :
    AgreeTo (related early) (related (early && false)) left right := by
  rw [Bool.and_false]
  exact agree

section

variable (lawful : host.Lawful)

include lawful

set_option linter.unusedSectionVars false in
mutual

/-- An expression with copies substituted agrees with the original, before and after its
operations. -/
theorem Expression.agreeTo_substitute :
    ∀ (early : Bool) (expression : Expression),
      PhasedFor related copies expression.visit (expression.phased early)
        (expression.reached keySpots) →
      AgreeTo (related early) (related (early && expression.isQuiet)) expression.evaluate
        (expression.substitute copies).evaluate
  | early, .value value, phased => by
    have stays : AgreeTo (related early) (related early) (Expression.value value).evaluate
        ((Expression.value value).substitute copies).evaluate := by
      cases value with
      | binding place =>
        have quiet : ∀ place : Binding, place.register? = none → AgreeTo (related early)
            (related early) (readBinding place : Exec host host.Val) (readBinding place) := by
          intro place notRegister
          cases early with
          | true => exact phased.place place notRegister
          | false =>
            cases place with
            | register register => exact absurd notRegister (Option.some_ne_none _)
            | «variable» name => exact agree_perform phased.compatible _
            | closureVar level slot => exact agree_perform phased.compatible _
        cases place with
        | register register => exact phased.readRegister (mem_singleton_self _)
        | «variable» name => exact quiet (.variable name) rfl
        | closureVar level slot => exact quiet (.closureVar level slot) rfl
      | constant | this | global | parameter | arguments | newTarget | super =>
        exact fun _ _ start => ⟨rfl, start⟩
    exact stays.mono (fun _ _ start => start) fun _ _ finish =>
      phased.lower (fun both => (Bool.and_eq_true_iff.mp both).1) finish
  | early, .binary op left right, phased => by
    obtain ⟨onLeft, onRight⟩ := phased.append
    exact phased.binaryOf op (left.agreeTo_substitute early onLeft)
      (right.agreeTo_substitute _ onRight)
  | early, .unary op operand, phased | early, .spread operand, phased =>
    agreeTo_noisy (phased.andPerform (operand.agreeTo_substitute early phased) _)
  | early, .conditional condition thenExpr elseExpr, phased => by
    obtain ⟨onCondition, onArms⟩ := phased.append
    obtain ⟨onThen, onElse⟩ := onArms.append
    apply phased.next _ (condition.agreeTo_substitute early onCondition)
    · intro value
      apply agreeTo_ite
      · apply (thenExpr.agreeTo_substitute _ onThen).mono (fun _ _ start => start)
        intro _ _ finish
        apply phased.lower _ finish
        simp only [Expression.isQuiet, Bool.and_eq_true]
        rintro ⟨isEarly, quiet, quietThen, _⟩
        exact ⟨⟨isEarly, quiet⟩, quietThen⟩
      · apply (elseExpr.agreeTo_substitute _ onElse).mono (fun _ _ start => start)
        intro _ _ finish
        apply phased.lower _ finish
        simp only [Expression.isQuiet, Bool.and_eq_true]
        rintro ⟨isEarly, quiet, _, quietElse⟩
        exact ⟨⟨isEarly, quiet⟩, quietElse⟩
    · simp only [Expression.isQuiet, Bool.and_eq_true]
      rintro ⟨isEarly, quiet, _⟩
      exact ⟨isEarly, quiet⟩
  | early, .member object property optional, phased => by
    obtain ⟨onObject, onProperty⟩ := phased.append
    apply agreeTo_noisy
    apply phased.followed (object.agreeTo_substitute early onObject)
    intro value
    apply agreeTo_ite (phased.ended _)
    exact phased.followed
      (property.agreeTo_substitute _ onProperty) fun _ => phased.operation _
  | early, .call callee arguments, phased | early, .new callee arguments, phased => by
    obtain ⟨onCallee, onArguments⟩ := phased.append
    exact agreeTo_noisy (phased.thenPerform (callee.agreeTo_substitute early onCallee)
      (agreeTo_substituteAll _ arguments onArguments) _)
  | early, .array elements, phased =>
    agreeTo_noisy (phased.andPerform (agreeTo_substituteElements early elements phased) _)
  | early, .object properties, phased => by
    apply agreeTo_noisy
    apply phased.followed (phased.operation _)
    intro object
    exact phased.followed (agreeTo_substituteProperties object properties phased)
      fun _ => phased.ended _
  | _, .function .., phased | _, .regExp .., phased | _, .unknown .., phased => agreeTo_noisy (phased.operation _)
  | early, .assignment target content, phased => by
    obtain ⟨onTarget, onValue⟩ := phased.append
    have onContent := content.agreeTo_substitute (early && target.isQuiet) onValue
    have stored := target.agreeTo_substitute early onTarget
      (onContent.mono (fun _ _ start => start)
        fun _ _ finish => phased.dropped finish)
    cases target with
    | binding place =>
      cases place with
      | register register =>
        rw [show AssignTarget.isQuiet (.binding (.register register)) = true from rfl,
          Bool.and_true] at onContent
        apply phased.next (fun both => both) onContent
        intro value machine machine' start
        exact ⟨rfl, phased.write register mem_cons_self _ value start⟩
      | «variable» | closureVar => exact agreeTo_noisy stored
    | _ => exact agreeTo_noisy stored
  | _, .templateLiteral quasis expressions, phased => agreeTo_noisy (phased.settled
    ((Expression.templateLiteral quasis expressions).agree_self phased.renames))
  | _, .yield value delegate, phased =>
    agreeTo_noisy (phased.settled ((Expression.yield value delegate).agree_self phased.renames))
  | _, .await operand, phased =>
    agreeTo_noisy (phased.settled ((Expression.await operand).agree_self phased.renames))
  | _, .jsxElement tag attributes children, phased => agreeTo_noisy (phased.settled
    ((Expression.jsxElement tag attributes children).agree_self phased.renames))

theorem agreeTo_substituteAll :
    ∀ (early : Bool) (expressions : List Expression),
      PhasedFor related copies (fun visitor => visitAll visitor expressions)
        (phasedAll early expressions) (reachedAll keySpots expressions) →
      AgreeTo (related early) (related false) (evaluateAll expressions)
        (evaluateAll (substituteAll copies expressions))
  | _, [], phased => phased.ended _
  | early, first :: rest, phased => by
    obtain ⟨onFirst, onRest⟩ := phased.append
    apply phased.followed (first.agreeTo_substitute early onFirst)
    intro value
    exact phased.followed (agreeTo_substituteAll _ rest onRest)
      fun _ => phased.ended _

theorem agreeTo_substituteElements :
    ∀ (early : Bool) (elements : List (Option Expression)),
      PhasedFor related copies (fun visitor => visitElements visitor elements)
        (phasedElements early elements) (reachedElements keySpots elements) →
      AgreeTo (related early) (related false) (evaluateElements elements)
        (evaluateElements (substituteElements copies elements))
  | _, [], phased => phased.ended _
  | early, none :: rest, phased =>
    phased.followed (agreeTo_substituteElements early rest phased)
      fun _ => phased.ended _
  | early, some first :: rest, phased => by
    obtain ⟨onFirst, onRest⟩ := phased.append
    apply phased.followed (first.agreeTo_substitute early onFirst)
    intro value
    exact phased.followed (agreeTo_substituteElements _ rest onRest)
      fun _ => phased.ended _

theorem PropertyKey.agreeTo_substitute :
    ∀ (early : Bool) (key : PropertyKey),
      PhasedFor related copies key.visit (key.phased early) (key.reached keySpots) →
      AgreeTo (related early) (related false) key.evaluate (key.substitute copies).evaluate
  | _, .ident _, phased | _, .string _, phased | _, .index _, phased => phased.ended _
  | early, .computed key, phased => by
    have fits := phased.fits key mem_cons_self
    have onKey : PhasedFor related copies key.visit (key.phased early) (key.reached keySpots) :=
      ⟨phased.toPhases, phased.read, phased.write, phased.copy,
        fun inner member => phased.fits inner (mem_cons_of_mem _ member)⟩
    have computed := phased.andPerform (key.agreeTo_substitute early onKey) host.toKey
    rw [show (PropertyKey.computed key).substitute copies = indexKey (key.substitute copies) from rfl,
      evaluate_indexKey lawful fits]
    exact computed

theorem agreeTo_substituteProperties (object : host.Val) :
    ∀ properties, PhasedFor related copies (fun visitor => visitProperties visitor properties)
        (phasedProperties properties) (reachedProperties keySpots properties) →
      AgreeTo (related false) (related false) (defineAll object properties)
        (defineAll object (substituteProperties copies properties))
  | [], _ => agree_pure _
  | .mk key value :: rest, phased => by
    obtain ⟨onKey, onTail⟩ := phased.append
    obtain ⟨onValue, onRest⟩ := onTail.append
    apply phased.followed (key.agreeTo_substitute false onKey)
    intro property
    apply phased.followed (value.agreeTo_substitute false onValue)
    intro content
    apply phased.followed (phased.operation _)
    intro _
    exact agreeTo_substituteProperties object rest onRest

theorem AssignTarget.agreeTo_substitute :
    ∀ (early : Bool) (target : AssignTarget),
      PhasedFor related copies target.visit (target.phased early) (target.reached keySpots) →
      ∀ {value value' : Exec host host.Val},
        AgreeTo (related (early && target.isQuiet)) (related false) value value' →
        AgreeTo (related early) (related false) (target.store value)
          ((target.substitute copies).store value')
  | early, .binding place, phased, value, value', agree => by
    rw [show AssignTarget.isQuiet (.binding place) = true from rfl, Bool.and_true] at agree
    exact agreeTo_storePattern (fun _ => rfl) phased.toPhases
      (fun content => (AssignTarget.binding place).agree_self phased.renames (agree_pure content)) agree
  | early, .member object property, phased, _, _, agree => by
    apply phased.followed (object.agreeTo_substitute early phased)
    intro holder
    apply phased.followed agree
    intro content
    exact phased.followed (phased.operation _)
      fun _ => agree_pure _
  | early, .index object key, phased, _, _, agree => by
    obtain ⟨onObject, onKey⟩ := phased.append
    rw [show AssignTarget.isQuiet (.index object key) = (object.isQuiet && key.isQuiet) from rfl,
      ← Bool.and_assoc] at agree
    apply phased.followed (object.agreeTo_substitute early onObject)
    intro holder
    apply phased.followed (key.agreeTo_substitute _ onKey)
    intro position
    apply phased.followed agree
    intro content
    apply phased.followed (phased.operation _)
    intro property
    exact phased.followed (phased.operation _)
      fun _ => agree_pure _
  | early, .destructuringArray elements, phased, _, _, agree => by
    rw [show AssignTarget.isQuiet (.destructuringArray elements) = true from rfl,
      Bool.and_true] at agree
    exact agreeTo_storePattern (fun _ => rfl) phased.toPhases (fun content =>
      (AssignTarget.destructuringArray elements).agree_self phased.renames (agree_pure content)) agree
  | early, .destructuringArrayRest elements rest, phased, _, _, agree => by
    rw [show AssignTarget.isQuiet (.destructuringArrayRest elements rest) = true from rfl,
      Bool.and_true] at agree
    exact agreeTo_storePattern (fun _ => rfl) phased.toPhases (fun content =>
      (AssignTarget.destructuringArrayRest elements rest).agree_self phased.renames
        (agree_pure content)) agree
  | early, .destructuringObject properties, phased, _, _, agree => by
    rw [show AssignTarget.isQuiet (.destructuringObject properties) = true from rfl,
      Bool.and_true] at agree
    exact agreeTo_storePattern (fun _ => rfl) phased.toPhases (fun content =>
      (AssignTarget.destructuringObject properties).agree_self phased.renames
        (agree_pure content)) agree
  | early, .destructuringObjectRest properties rest, phased, _, _, agree => by
    rw [show AssignTarget.isQuiet (.destructuringObjectRest properties rest) = true from rfl,
      Bool.and_true] at agree
    exact agreeTo_storePattern (fun _ => rfl) phased.toPhases (fun content =>
      (AssignTarget.destructuringObjectRest properties rest).agree_self phased.renames
        (agree_pure content)) agree
  | early, .rest target, phased, _, _, agree => by
    rw [show AssignTarget.isQuiet (.rest target) = false from rfl, Bool.and_false] at agree
    exact phased.settled ((AssignTarget.rest target).agree_self phased.renames agree)

end

end

/-- A statement with copies substituted agrees with the original. -/
theorem Statement.agreeTo_substitute (lawful : host.Lawful) (fuel : Nat) (statement : Statement)
    (label : Option String)
    (phased : PhasedFor related copies statement.visit statement.phased
      (statement.reached keySpots)) :
    AgreeTo (related true) (related false) (statement.execute fuel label)
      ((statement.substitute copies).execute fuel label) := by
  cases statement with
  | expr expression =>
    exact phased.followed (expression.agreeTo_substitute lawful true phased)
      fun _ => phased.ended _
  | letStmt name value kind =>
    exact phased.andPerform (value.agreeTo_substitute lawful true phased) _
  | assign target value =>
    obtain ⟨onTarget, onValue⟩ := phased.append
    have content := (value.agreeTo_substitute lawful target.isQuiet onValue).mono
      (fun _ _ start => start) fun _ _ finish => phased.dropped finish
    exact phased.followed
      (target.agreeTo_substitute lawful true onTarget content) fun _ => agree_pure _
  | returnStmt value =>
    cases value with
    | none => exact phased.settled (agree_fail _)
    | some value =>
      exact phased.followed
        (value.agreeTo_substitute lawful true phased) fun _ => phased.settled (agree_fail _)
  | throwStmt value =>
    exact phased.followed
      (value.agreeTo_substitute lawful true phased) fun _ => phased.settled (agree_fail _)
  | _ => exact phased.settled (Statement.agree_self fuel _ label phased.renames)

theorem agreeTo_selectCase (lawful : host.Lawful) (value : host.Val) (default : BlockId) :
    ∀ (early : Bool) (cases : List (Expression × BlockId)),
      Phased related copies (cases.flatMap fun test => test.1.reads)
        (cases.flatMap fun test => test.1.writes) (phasedCases early cases)
        (cases.flatMap fun test => test.1.reached keySpots) →
      AgreeTo (related early) (related false) (selectCase value default cases)
        (selectCase value default (cases.map fun test => (test.1.substitute copies, test.2)))
  | _, [], phased => phased.ended _
  | early, (test, target) :: rest, phased => by
    obtain ⟨onTest, onRest⟩ := phased.append
    apply phased.followed (test.agreeTo_substitute lawful early onTest)
    intro candidate
    apply agreeTo_ite (phased.ended _)
    exact agreeTo_selectCase lawful value default _ rest onRest

/-- A terminator with copies substituted agrees with the original. -/
theorem Terminator.agreeTo_substitute (lawful : host.Lawful) (terminator : Terminator)
    (phased : Phased related copies terminator.reads terminator.writes terminator.phased
      (terminator.reached keySpots)) :
    AgreeTo (related true) (related false) (Terminator.execute terminator)
      (Terminator.execute (terminator.substitute copies)) := by
  cases terminator with
  | jump target => exact phased.settled (agree_pure _)
  | branch condition trueTarget falseTarget =>
    have onCondition : PhasedFor related copies condition.visit
        (condition.phased true) (condition.reached keySpots) :=
      ⟨phased.toPhases,
        fun register member => phased.read register (mem_append_left _ member),
        phased.write, phased.copy, phased.fits⟩
    apply phased.followed (condition.agreeTo_substitute lawful true onCondition)
    intro value
    exact agreeTo_ite (phased.ended _) (phased.ended _)
  | returnTerm value =>
    cases value with
    | none => exact phased.settled (agree_fail _)
    | some value =>
      have onValue : PhasedFor related copies value.visit
          (value.phased true) (value.reached keySpots) :=
        ⟨phased.toPhases,
          fun register member => phased.read register (mem_append_left _ member),
          phased.write, phased.copy, phased.fits⟩
      exact phased.followed
        (value.agreeTo_substitute lawful true onValue) fun _ => phased.settled (agree_fail _)
  | throwTerm value =>
    have onValue : PhasedFor related copies value.visit
        (value.phased true) (value.reached keySpots) :=
      ⟨phased.toPhases,
        fun register member => phased.read register (mem_append_left _ member),
        phased.write, phased.copy, phased.fits⟩
    exact phased.followed
      (value.agreeTo_substitute lawful true onValue) fun _ => phased.settled (agree_fail _)
  | switch value cases default =>
    obtain ⟨onValue, onCases⟩ := phased.append
    apply phased.followed (value.agreeTo_substitute lawful true onValue)
    intro discriminant
    exact agreeTo_selectCase lawful discriminant default _ cases onCases
  | none => exact phased.settled (agree_fail _)

end Mutual

theorem Statement.substitute_assignReg (register : Nat) (value : Expression) :
    (Statement.assignReg register value).substitute copies =
      .assignReg register (value.substitute copies) := rfl

theorem Statement.definition?_substitute (statement : Statement) :
    (statement.substitute copies).definition? = statement.definition? := by
  unfold Statement.substitute
  split
  · rfl
  · rfl
  · rename_i target value
    cases target with
    | binding place => cases place <;> rfl
    | _ => rfl
  · rfl
  · rfl
  · rfl

/-- Where related machines are equal, a statement with copies substituted does what the
original does. -/
theorem Statement.executeAt_phased {related : Bool → Machine host → Machine host → Prop}
    (lawful : host.Lawful) (fuel : Nat) (point : Point) (statement : Statement)
    (identical : ∀ {machine machine'}, related false machine machine' → machine = machine')
    (phased : Phased related copies statement.reads statement.innerWrites statement.phased
      (statement.reached keySpots)) {machine : Machine host}
    (start : related true { machine with writer := .other point }
      { machine with writer := .other point }) :
    (statement.substitute copies).executeAt fuel point machine =
      statement.executeAt fuel point machine := by
  cases made : statement.definition? with
  | some register =>
    obtain ⟨value, rfl⟩ := Statement.eq_assignReg made
    obtain ⟨same, finish⟩ := value.agreeTo_substitute lawful true phased _ _ start
    have equal : (value.substitute copies).evaluate { machine with writer := .other point } =
        value.evaluate { machine with writer := .other point } :=
      Prod.ext same.symm (identical (phased.dropped finish)).symm
    rw [Statement.substitute_assignReg, Statement.executeAt_assignReg,
      Statement.executeAt_assignReg, bind_apply, bind_apply, equal]
  | none =>
    have made' : (statement.substitute copies).definition? = none := by
      rw [Statement.definition?_substitute, made]
    rw [Statement.executeAt_of_none made, Statement.executeAt_of_none made']
    by_cases isDelete : ∃ target result, statement = .delete target result
    · obtain ⟨target, result, rfl⟩ := isDelete
      rfl
    · have notDelete : ∀ target result, statement ≠ .delete target result :=
        fun target result same => isDelete ⟨target, result, same⟩
      rw [Statement.innerWrites_of_none made notDelete] at phased
      obtain ⟨same, finish⟩ := statement.agreeTo_substitute lawful fuel none phased _ _ start
      exact Prod.ext same.symm (identical finish).symm

namespace Cfg

variable (graph : Cfg)

/-- The registers whose reads at a point a substitution reaches. -/
def reachedAt (point : Point) : List Nat :=
  match graph.statementAt point with
  | some statement => statement.reached copiedSpots
  | none => (graph.terminator point.block).reached copiedSpots

/-- The computed keys at a point that a substitution reaches. -/
def keysAt (point : Point) : List Expression :=
  match graph.statementAt point with
  | some statement => statement.reached keySpots
  | none => (graph.terminator point.block).reached keySpots

/-- The reads at a point that a substitution reaches, each with whether no operation was
performed there before it. -/
def phasedAt (point : Point) : List (Bool × Nat) :=
  match graph.statementAt point with
  | some statement => statement.phased
  | none => (graph.terminator point.block).phased

theorem map_phasedAt (point : Point) :
    (graph.phasedAt point).map Prod.snd = graph.reachedAt point := by
  unfold phasedAt reachedAt
  cases graph.statementAt point with
  | some statement => exact statement.map_phased
  | none => exact (graph.terminator point.block).map_phased

/-- A graph in which the copies of each point are substituted. -/
structure Substituted (graph' : Cfg) (copiesAt : Point → Nat → Option Expression) : Prop where
  entry : graph'.entry = graph.entry
  handlers : graph'.exceptionHandlers = graph.exceptionHandlers
  missing : ∀ {id}, graph.get id = none → graph'.get id = none
  blocks : ∀ {id block}, graph.get id = some block → ∃ block', graph'.get id = some block' ∧
    (∀ index : Nat, block'.statements[index]? = block.statements[index]?.map fun statement =>
      statement.substitute (copiesAt ⟨id, index⟩)) ∧
    block'.terminator = block.terminator.substitute (copiesAt ⟨id, block.statements.length⟩)

variable {graph}

/-- What stands at a point does with copies substituted what it did. -/
theorem perform_substituted {graph' : Cfg} {copiesAt : Point → Nat → Option Expression}
    {related : Bool → Machine host → Machine host → Prop}
    (substituted : graph.Substituted graph' copiesAt) (lawful : host.Lawful) (fuel : Nat)
    {point : Point} {machine : Machine host}
    (inside : point.index ≤ (graph.statements point.block).length)
    (identical : ∀ {machine machine'}, related false machine machine' → machine = machine')
    (phased : Phased related (copiesAt point) (graph.readsAt point) (graph.innerWritesAt point)
      (graph.phasedAt point) (graph.keysAt point))
    (start : related true { machine with writer := .other point }
      { machine with writer := .other point }) :
    graph'.perform fuel point machine = graph.perform fuel point machine := by
  have dispatched : graph'.dispatch point.block = (graph.dispatch point.block :
      Machine host → Exit host → Status host × Machine host) := by
    funext machine exit
    unfold dispatch
    rw [substituted.handlers]
  have proceeds : ∀ {α : Type} (next : α → Point), (graph'.proceed point.block next :
      Outcome (Exit host) α × Machine host → Status host × Machine host) =
        graph.proceed point.block next := by
    intro α next
    funext ended
    unfold proceed
    rw [dispatched]
  unfold perform
  cases found : graph.get point.block with
  | none => rw [substituted.missing found]
  | some block =>
    obtain ⟨block', found', statements, terminators⟩ := substituted.blocks found
    have here := statementAt_of_get found
    rw [found']
    dsimp only
    rw [statements, proceeds, proceeds]
    unfold readsAt innerWritesAt phasedAt keysAt at phased
    cases present : block.statements[point.index]? with
    | some statement =>
      rw [present] at here
      rw [here] at phased
      dsimp only [Option.map_some]
      rw [statement.executeAt_phased lawful fuel point identical phased start]
    | none =>
      rw [present] at here
      have sameTerminator : graph.terminator point.block = block.terminator := by
        rw [terminator, found]
      rw [here, sameTerminator] at phased
      have isLast := index_eq_length inside here
      have sameLength : graph.statements point.block = block.statements := by
        rw [Cfg.statements, found]
      have samePoint : (⟨point.block, block.statements.length⟩ : Point) = point := by
        rw [← sameLength, ← isLast]
      rw [samePoint] at terminators
      dsimp only [Option.map_none]
      obtain ⟨same, finish⟩ := block.terminator.agreeTo_substitute lawful phased _ _ start
      have equal : Terminator.execute (block.terminator.substitute (copiesAt point))
            { machine with writer := .other point } =
          Terminator.execute block.terminator { machine with writer := .other point } :=
        Prod.ext same.symm (identical finish).symm
      rw [terminators, bind_apply, bind_apply]
      dsimp only [setWriter]
      rw [equal]

end Cfg

end HermesDecomp.Ir

namespace HermesDecomp.Ir

open Action List

variable {host : Host} {related : Machine host → Machine host → Prop}
  {copies : Nat → Option Expression}

mutual

/-- A substitution reaches reads only. -/
theorem Expression.reached_subset : ∀ expression : Expression,
    expression.reached copiedSpots ⊆ expression.visit readVisitor
  | .value value => by
    cases value with
    | binding place => cases place <;> exact List.Subset.refl _
    | constant | this | global | parameter | arguments | newTarget | super =>
      exact List.Subset.refl _
  | .binary _ left right => append_subset left.reached_subset right.reached_subset
  | .unary _ operand | .spread operand => operand.reached_subset
  | .conditional condition thenExpr elseExpr =>
    append_subset condition.reached_subset
      (append_subset thenExpr.reached_subset elseExpr.reached_subset)
  | .member object property _ => append_subset object.reached_subset property.reached_subset
  | .call callee arguments | .new callee arguments => append_subset callee.reached_subset (reachedAll_subset arguments)
  | .array elements => reachedElements_subset elements
  | .object properties => reachedProperties_subset properties
  | .assignment target value => append_subset target.reached_subset value.reached_subset
  | .function .. | .templateLiteral .. | .regExp .. | .yield .. | .jsxElement .. | .unknown .. => nil_subset _
  | .await _ => nil_subset _

theorem reachedAll_subset : ∀ expressions,
    reachedAll copiedSpots expressions ⊆ visitAll readVisitor expressions
  | [] => nil_subset _
  | first :: rest => append_subset first.reached_subset (reachedAll_subset rest)

theorem reachedElements_subset : ∀ elements,
    reachedElements copiedSpots elements ⊆ visitElements readVisitor elements
  | [] => nil_subset _
  | none :: rest => reachedElements_subset rest
  | some first :: rest => append_subset first.reached_subset (reachedElements_subset rest)

theorem PropertyKey.reached_subset : ∀ key : PropertyKey,
    key.reached copiedSpots ⊆ key.visit readVisitor
  | .ident _ | .string _ | .index _ => nil_subset _
  | .computed key => key.reached_subset

theorem reachedProperties_subset : ∀ properties,
    reachedProperties copiedSpots properties ⊆ visitProperties readVisitor properties
  | [] => nil_subset _
  | .mk key value :: rest => append_subset key.reached_subset
      (append_subset value.reached_subset (reachedProperties_subset rest))

theorem AssignTarget.reached_subset : ∀ target : AssignTarget,
    target.reached copiedSpots ⊆ target.visit readVisitor
  | .binding _ | .destructuringArray _ | .destructuringArrayRest _ _ | .destructuringObject _
  | .destructuringObjectRest _ _ | .rest _ => nil_subset _
  | .member object _ => object.reached_subset
  | .index object key => append_subset object.reached_subset key.reached_subset

end

theorem Statement.reached_subset (statement : Statement) :
    statement.reached copiedSpots ⊆ statement.reads := by
  unfold Statement.reached
  split
  · exact Expression.reached_subset _
  · exact Expression.reached_subset _
  · exact append_subset (AssignTarget.reached_subset _) (Expression.reached_subset _)
  · exact Expression.reached_subset _
  · exact Expression.reached_subset _
  · exact nil_subset _

theorem Terminator.reached_subset (terminator : Terminator) :
    terminator.reached copiedSpots ⊆ terminator.reads := by
  unfold Terminator.reached Terminator.reads
  split
  · exact subset_append_of_subset_left _ (Expression.reached_subset _)
  · exact subset_append_of_subset_left _ (Expression.reached_subset _)
  · exact subset_append_of_subset_left _ (Expression.reached_subset _)
  · apply append_subset (Expression.reached_subset _)
    intro register member
    obtain ⟨test, listed, reached⟩ := mem_flatMap.mp member
    exact mem_flatMap.mpr ⟨test, listed, test.1.reached_subset reached⟩
  · exact nil_subset _

/-- A relation under which the copies stand for the reads they replace. -/
structure Substitutes (related : Machine host → Machine host → Prop)
    (copies : Nat → Option Expression) (reads writes copied : List Nat) (keys : List Expression) :
    Prop extends Compatible related where
  read : ∀ register ∈ reads, ∀ {machine machine'}, related machine machine' →
    machine.read register = machine'.read register
  write : ∀ register ∈ writes, ∀ value {machine machine'}, related machine machine' →
    related (machine.write register value) (machine'.write register value)
  copy : ∀ register ∈ copied, ∀ expression, copies register = some expression →
    Agree related (readRegister register) expression.evaluate
  fits : ∀ key ∈ keys, FitsKey (key.substitute copies)

/-- What holds under one relation holds before and after every operation. -/
theorem Substitutes.phased {reads writes copied : List Nat} {keys : List Expression}
    {spots : List (Bool × Nat)} (same : spots.map Prod.snd = copied)
    (substitutes : Substitutes related copies reads writes copied keys) :
    Phased (fun _ => related) copies reads writes spots keys where
  compatible := substitutes.toCompatible
  weakens start := start
  place place notRegister := by
    cases place with
    | register register => exact absurd notRegister (Option.some_ne_none _)
    | «variable» name => exact agree_perform substitutes.toCompatible _
    | closureVar level slot => exact agree_perform substitutes.toCompatible _
  read := substitutes.read
  write register member _ := substitutes.write register member
  copy spot member := substitutes.copy spot.2 (same ▸ mem_map_of_mem member)
  fits := substitutes.fits

theorem Statement.executeAt_substitute (lawful : host.Lawful) (fuel : Nat) (point : Point)
    (statement : Statement)
    (identical : ∀ machine machine', related machine machine' → machine = machine')
    (substitutes : Substitutes related copies statement.reads statement.innerWrites
      (statement.reached copiedSpots) (statement.reached keySpots)) {machine : Machine host}
    (start : related { machine with writer := .other point } { machine with writer := .other point }) :
    (statement.substitute copies).executeAt fuel point machine =
      statement.executeAt fuel point machine :=
  statement.executeAt_phased lawful fuel point (fun start => identical _ _ start)
    (substitutes.phased statement.map_phased) start

theorem Terminator.agree_substitute (lawful : host.Lawful) (terminator : Terminator)
    (substitutes : Substitutes related copies terminator.reads terminator.writes
      (terminator.reached copiedSpots) (terminator.reached keySpots)) :
    Agree related (Terminator.execute terminator)
      (Terminator.execute (terminator.substitute copies)) :=
  terminator.agreeTo_substitute lawful (substitutes.phased terminator.map_phased)

theorem Cfg.reachedAt_subset (graph : Cfg) (point : Point) : graph.reachedAt point ⊆ graph.readsAt point := by
  unfold Cfg.reachedAt Cfg.readsAt
  cases graph.statementAt point with
  | some statement => exact statement.reached_subset
  | none => exact (graph.terminator point.block).reached_subset

end HermesDecomp.Ir
