import HermesDecomp.Ir.Execution
import HermesDecomp.Ir.Mentions

/-!
# What a body keeps true of the world

A property of the world that the operations of the engine keep is kept by a body, when the names
that the body binds may be bound, and each plain store to another name keeps it on its own.
-/

namespace HermesDecomp.Ir

open Action

variable {host : Host} {α β γ : Type}

/-- An operation of the engine keeps a property of the world. -/
def Preserves (holds : host.World → Prop) (operation : Action host.World host.Val α) : Prop :=
  ∀ world, holds world → holds (operation world).2

/-- The operations of an engine keep a property of the world. A binding is asked to do so only
where its name is free to be bound. -/
structure Host.Keeping (host : Host) (holds : host.World → Prop) (free : String → Prop) :
    Prop where
  toKey : ∀ value, Preserves holds (host.toKey value)
  readVariable : ∀ name, Preserves holds (host.readVariable name)
  readClosureVar : ∀ level slot, Preserves holds (host.readClosureVar level slot)
  setVariable : ∀ name value, free name.name → Preserves holds (host.setVariable name value)
  setClosureVar : ∀ level slot value, Preserves holds (host.setClosureVar level slot value)
  declare : ∀ kind name value, free name.name → Preserves holds (host.declare kind name value)
  openScope : ∀ world, holds world → holds (host.openScope world)
  closeScope : ∀ world, holds world → holds (host.closeScope world)
  unary : ∀ op value, Preserves holds (host.unary op value)
  binary : ∀ op left right, Preserves holds (host.binary op left right)
  getMember : ∀ object key, Preserves holds (host.getMember object key)
  setMember : ∀ object key value, Preserves holds (host.setMember object key value)
  deleteMember : ∀ object key, Preserves holds (host.deleteMember object key)
  deleteValue : ∀ value, Preserves holds (host.deleteValue value)
  call : ∀ callee arguments, Preserves holds (host.call callee arguments)
  construct : ∀ callee arguments, Preserves holds (host.construct callee arguments)
  spread : ∀ value, Preserves holds (host.spread value)
  newArray : ∀ elements, Preserves holds (host.newArray elements)
  newObject : Preserves holds host.newObject
  define : ∀ object key value, Preserves holds (host.define object key value)
  function : ∀ id name isArrow isAsync isGenerator,
    Preserves holds (host.function id name isArrow isAsync isGenerator)
  toText : ∀ value, Preserves holds (host.toText value)
  template : ∀ quasis values, Preserves holds (host.template quasis values)
  regExp : ∀ pattern flags, Preserves holds (host.regExp pattern flags)
  yield : ∀ delegate value, Preserves holds (host.yield delegate value)
  await : ∀ value, Preserves holds (host.await value)
  jsx : ∀ tag attributes children, Preserves holds (host.jsx tag attributes children)
  unknown : ∀ opcode operands, Preserves holds (host.unknown opcode operands)
  requireObject : ∀ value, Preserves holds (host.requireObject value)
  restOf : ∀ value keys, Preserves holds (host.restOf value keys)
  iterate : ∀ value, Preserves holds (host.iterate value)
  enumerate : ∀ value, Preserves holds (host.enumerate value)
  advance : ∀ iterator, Preserves holds (host.advance iterator)
  collect : ∀ iterator, Preserves holds (host.collect iterator)
  close : ∀ iterator, Preserves holds (host.close iterator)
  debugger : Preserves holds host.debugger
  defineClass : ∀ name base constructor methods, free name →
    Preserves holds (host.defineClass name base constructor methods)

/-- Some code keeps a property of the world, however it ends. -/
def Retains (holds : host.World → Prop) (code : Exec host α) : Prop :=
  ∀ machine, holds machine.world → holds (code machine).2.world

variable {holds : host.World → Prop} {free : String → Prop}

theorem retains_of_still {code : Exec host α} (still : ∀ machine, (code machine).2.world =
    machine.world) : Retains holds code := by
  intro machine before
  rw [still]
  exact before

theorem retains_pure (value : α) : Retains holds (pure value : Exec host α) :=
  retains_of_still fun _ => rfl

theorem retains_fail (exit : Exit host) : Retains holds (Action.fail exit : Exec host α) :=
  retains_of_still fun _ => rfl

theorem perform_world (operation : Action host.World host.Val α) (machine : Machine host) :
    (perform operation machine).2.world = (operation machine.world).2 := by
  unfold perform
  rcases operation machine.world with ⟨_ | _ | _, world⟩
  · rfl
  · rfl
  · rfl

theorem retains_perform {operation : Action host.World host.Val α}
    (preserves : Preserves holds operation) : Retains holds (perform operation) := by
  intro machine before
  rw [perform_world]
  exact preserves machine.world before

theorem retains_bind {part : Exec host α} {next : α → Exec host β} (first : Retains holds part)
    (rest : ∀ value, Retains holds (next value)) : Retains holds (part >>= next) := by
  intro machine before
  have middle := first machine before
  rw [bind_apply]
  rcases ran : part machine with ⟨value | _ | _, between⟩ <;> rw [ran] at middle
  · exact rest value between middle
  · exact middle
  · exact middle

theorem bind_pure_world (part : Exec host α) (value : β) (machine : Machine host) :
    ((part >>= fun _ => pure value) machine).2.world = (part machine).2.world := by
  rw [bind_apply]
  rcases part machine with ⟨_ | _ | _, middle⟩
  · rfl
  · rfl
  · rfl

/-- An operation and what follows it, where more is known of the value it ends with. -/
theorem retains_perform_bind {operation : Action host.World host.Val α} {next : α → Exec host β}
    {post : α → host.World → Prop} (preserves : Preserves holds operation)
    (ends : ∀ world value, (operation world).1 = .ok value → post value (operation world).2)
    (rest : ∀ value machine, holds machine.world → post value machine.world →
      holds (next value machine).2.world) : Retains holds (perform operation >>= next) := by
  intro machine before
  have middle := preserves machine.world before
  have known := ends machine.world
  rw [bind_apply, perform]
  rcases ran : operation machine.world with ⟨value | _ | _, world⟩ <;> rw [ran] at middle known
  · exact rest value _ middle (known value rfl)
  · exact middle
  · exact middle

theorem retains_ite {condition : Prop} [Decidable condition] {yes no : Exec host α}
    (whenTrue : Retains holds yes) (whenFalse : Retains holds no) :
    Retains holds (if condition then yes else no) := by
  split
  · exact whenTrue
  · exact whenFalse

theorem retains_andPerform {part : Exec host α} {operation : α → Action host.World host.Val β}
    (onPart : Retains holds part) (preserves : ∀ value, Preserves holds (operation value)) :
    Retains holds (andPerform part operation) :=
  retains_bind onPart fun value => retains_perform (preserves value)

theorem retains_thenPerform {first : Exec host α} {second : Exec host β}
    {operation : α → β → Action host.World host.Val γ} (onFirst : Retains holds first)
    (onSecond : Retains holds second)
    (preserves : ∀ value other, Preserves holds (operation value other)) :
    Retains holds (thenPerform first second operation) :=
  retains_bind onFirst fun value => retains_bind onSecond fun other =>
    retains_perform (preserves value other)

theorem retains_onExit {part : Exec host α} {handler : Exit host → Exec host α}
    (onPart : Retains holds part) (onHandler : ∀ exit, Retains holds (handler exit)) :
    Retains holds (onExit part handler) := by
  intro machine before
  have middle := onPart machine before
  unfold onExit
  rcases ran : part machine with ⟨_ | exit | _, between⟩ <;> rw [ran] at middle
  · exact middle
  · exact onHandler exit between middle
  · exact middle

theorem retains_iterate {iteration : Exec host Bool} (onIteration : Retains holds iteration)
    (fuel : Nat) : Retains holds (iterate iteration fuel) := by
  induction fuel with
  | zero => exact retains_of_still fun _ => rfl
  | succ fuel ih => exact retains_bind onIteration fun _ => retains_ite ih (retains_pure _)

theorem retains_catchContinue (label : Option String) {body : Exec host PUnit}
    (onBody : Retains holds body) : Retains holds (catchContinue label body) := by
  apply retains_onExit onBody
  intro exit
  cases exit with
  | continues jump => exact retains_ite (retains_pure _) (retains_fail _)
  | throws | returns | breaks | jumps => exact retains_fail _

theorem retains_catchBreak (label : Option String) {loop : Exec host PUnit}
    (onLoop : Retains holds loop) : Retains holds (catchBreak label loop) := by
  apply retains_onExit onLoop
  intro exit
  cases exit with
  | breaks jump => exact retains_ite (retains_pure _) (retains_fail _)
  | throws | returns | continues | jumps => exact retains_fail _

theorem retains_handling {body : Exec host PUnit} {handler : host.Val → Exec host PUnit}
    (onBody : Retains holds body) (onHandler : ∀ value, Retains holds (handler value)) :
    Retains holds (handling body handler) := by
  apply retains_onExit onBody
  intro exit
  cases exit with
  | throws value => exact onHandler value
  | returns | breaks | continues | jumps => exact retains_fail _

theorem retains_finallyDo {body final : Exec host PUnit} (onBody : Retains holds body)
    (onFinal : Retains holds final) : Retains holds (finallyDo body final) := by
  apply retains_bind _ fun _ => onFinal
  exact retains_onExit onBody fun _ => retains_bind onFinal fun _ => retains_fail _

/-- The names that some mentions bind are free. -/
def Frees (free : String → Prop) (mentions : List Mention) : Prop :=
  ∀ mention ∈ mentions, ∀ name, mention.bound? = some name → free name

theorem Frees.append {mentions mentions' : List Mention}
    (frees : Frees free (mentions ++ mentions')) : Frees free mentions ∧ Frees free mentions' :=
  List.forall_mem_append.mp frees

namespace Host.Keeping

variable (keeping : host.Keeping holds free)

include keeping

theorem readBinding (place : Binding) : Retains holds (readBinding place : Exec host host.Val) := by
  cases place with
  | register number => exact retains_of_still fun _ => rfl
  | «variable» name => exact retains_perform (keeping.readVariable name)
  | closureVar level slot => exact retains_perform (keeping.readClosureVar level slot)

theorem writeBinding (place : Binding) (frees : Frees free place.writes) (value : host.Val) :
    Retains holds (writeBinding place value) := by
  cases place with
  | register number => exact retains_of_still fun _ => rfl
  | «variable» name =>
    have isFree : free name.name := frees _ (List.mem_singleton_self _) _ rfl
    exact retains_perform (keeping.setVariable name value isFree)
  | closureVar level slot => exact retains_perform (keeping.setClosureVar level slot value)

theorem binaryOf (op : BinaryOp) {left right : Exec host host.Val} (onLeft : Retains holds left)
    (onRight : Retains holds right) : Retains holds (binaryOf op left right) := by
  apply retains_bind onLeft
  intro value
  have plain : Retains holds (right >>= fun other => perform (host.binary op value other)) :=
    retains_bind onRight fun other => retains_perform (keeping.binary op value other)
  cases op
  case and | logicalAnd => exact retains_ite onRight (retains_pure value)
  case or | logicalOr => exact retains_ite (retains_pure value) onRight
  case nullishCoalesce => exact retains_ite onRight (retains_pure value)
  all_goals exact plain

theorem memberOf (optional : Bool) {object : Exec host host.Val} {key : Exec host host.Key}
    (onObject : Retains holds object) (onKey : Retains holds key) :
    Retains holds (memberOf optional object key) := by
  apply retains_bind onObject
  intro value
  refine retains_ite (retains_pure _) ?_
  exact retains_bind onKey fun property => retains_perform (keeping.getMember value property)

theorem nextElement (iterator : host.Val) : Retains holds (nextElement iterator) :=
  retains_bind (retains_perform (keeping.advance iterator)) retains_pure

theorem inScope {body : Exec host α} (onBody : Retains holds body) : Retains holds (inScope body) := by
  intro machine before
  exact keeping.closeScope _ (onBody _ (keeping.openScope _ before))

theorem bindName (name : String) (isFree : free name) (value : host.Val) :
    Retains holds (bindName name value) := by
  unfold HermesDecomp.Ir.bindName
  split
  · exact retains_of_still fun _ => rfl
  · exact retains_perform (keeping.declare .let ⟨name, none⟩ value isFree)

end Host.Keeping

theorem retains_withDefault {fallback value : Exec host host.Val} (onFallback : Retains holds fallback)
    (onValue : Retains holds value) : Retains holds (withDefault fallback value) :=
  retains_bind onValue fun _ => retains_ite onFallback (retains_pure _)

section

variable (keeping : host.Keeping holds free)

include keeping

set_option linter.unusedSectionVars false in
mutual

/-- An expression whose names are free keeps the property. -/
theorem Expression.retains : ∀ expression : Expression,
    Frees free expression.mentions → Retains holds (expression.evaluate : Exec host host.Val)
  | .value (.binding place), _ => keeping.readBinding place
  | .value (.constant _), _ | .value .this, _ | .value .global, _ | .value (.parameter _), _
  | .value .arguments, _ | .value .newTarget, _ | .value .super, _ => retains_pure _
  | .binary op left right, frees =>
    keeping.binaryOf op (left.retains frees.append.1) (right.retains frees.append.2)
  | .unary op operand, frees => retains_andPerform (operand.retains frees) (keeping.unary op)
  | .conditional condition thenExpr elseExpr, frees => by
    obtain ⟨onCondition, onArms⟩ := frees.append
    obtain ⟨onThen, onElse⟩ := onArms.append
    apply retains_bind (condition.retains onCondition)
    intro value
    exact retains_ite (thenExpr.retains onThen) (elseExpr.retains onElse)
  | .member object property optional, frees =>
    keeping.memberOf optional (object.retains frees.append.1) (property.retains frees.append.2)
  | .call callee arguments, frees =>
    retains_thenPerform (callee.retains frees.append.1)
      (retains_evaluateAll arguments frees.append.2) keeping.call
  | .new callee arguments, frees =>
    retains_thenPerform (callee.retains frees.append.1)
      (retains_evaluateAll arguments frees.append.2) keeping.construct
  | .array elements, frees =>
    retains_andPerform (retains_evaluateElements elements frees) keeping.newArray
  | .object properties, frees => by
    apply retains_bind (retains_perform keeping.newObject)
    intro object
    exact retains_bind (retains_defineAll object properties frees) retains_pure
  | .function id name isArrow isAsync isGenerator, _ =>
    retains_perform (keeping.function id name isArrow isAsync isGenerator)
  | .assignment target value, frees => target.retains frees.append.1 (value.retains frees.append.2)
  | .spread operand, frees => retains_andPerform (operand.retains frees) keeping.spread
  | .templateLiteral quasis expressions, frees =>
    retains_andPerform (retains_evaluateTexts expressions frees) (keeping.template quasis)
  | .regExp pattern flags, _ => retains_perform (keeping.regExp pattern flags)
  | .yield value delegate, frees =>
    retains_andPerform (value.retains frees) (keeping.yield delegate)
  | .await operand, frees => retains_andPerform (operand.retains frees) keeping.await
  | .jsxElement tag attributes children, frees =>
    retains_thenPerform (retains_evaluateAttributes attributes frees.append.1)
      (retains_evaluateAll children frees.append.2) (keeping.jsx tag)
  | .unknown opcode operands, _ => retains_perform (keeping.unknown opcode operands)

theorem retains_evaluateAll : ∀ expressions,
    Frees free (mentionsOfAll expressions) →
      Retains holds (evaluateAll expressions : Exec host (List host.Val))
  | [], _ => retains_pure _
  | first :: rest, frees => by
    obtain ⟨onFirst, onRest⟩ := frees.append
    apply retains_bind (first.retains onFirst)
    intro value
    exact retains_bind (retains_evaluateAll rest onRest) retains_pure

theorem retains_evaluateElements :
    ∀ elements, Frees free (mentionsOfElements elements) →
      Retains holds (evaluateElements elements : Exec host (List (Option host.Val)))
  | [], _ => retains_pure _
  | none :: rest, frees => retains_bind (retains_evaluateElements rest frees) retains_pure
  | some first :: rest, frees => by
    obtain ⟨onFirst, onRest⟩ := frees.append
    apply retains_bind (first.retains onFirst)
    intro value
    exact retains_bind (retains_evaluateElements rest onRest) retains_pure

theorem retains_evaluateAttributes :
    ∀ attributes, Frees free (mentionsOfAttributes attributes) →
      Retains holds (evaluateAttributes attributes : Exec host (List (String × host.Val)))
  | [], _ => retains_pure _
  | (_, first) :: rest, frees => by
    obtain ⟨onFirst, onRest⟩ := frees.append
    apply retains_bind (first.retains onFirst)
    intro value
    exact retains_bind (retains_evaluateAttributes rest onRest) retains_pure

theorem retains_evaluateTexts : ∀ expressions,
    Frees free (mentionsOfAll expressions) →
      Retains holds (evaluateTexts expressions : Exec host (List host.Val))
  | [], _ => retains_pure _
  | first :: rest, frees => by
    obtain ⟨onFirst, onRest⟩ := frees.append
    apply retains_bind (first.retains onFirst)
    intro value
    apply retains_bind (retains_perform (keeping.toText value))
    intro text
    exact retains_bind (retains_evaluateTexts rest onRest) retains_pure

theorem PropertyKey.retains : ∀ key : PropertyKey,
    Frees free key.mentions → Retains holds (key.evaluate : Exec host host.Key)
  | .computed key, frees => retains_andPerform (key.retains frees) keeping.toKey
  | .ident _, _ | .string _, _ | .index _, _ => retains_pure _

theorem retains_defineAll (object : host.Val) :
    ∀ properties, Frees free (mentionsOfProperties properties) →
      Retains holds (defineAll object properties : Exec host PUnit)
  | [], _ => retains_pure _
  | .mk key value :: rest, frees => by
    obtain ⟨onKey, onTail⟩ := frees.append
    obtain ⟨onValue, onRest⟩ := onTail.append
    apply retains_bind (key.retains onKey)
    intro property
    apply retains_bind (value.retains onValue)
    intro content
    apply retains_bind (retains_perform (keeping.define object property content))
    intro _
    exact retains_defineAll object rest onRest

/-- So does a store of what keeps it. -/
theorem AssignTarget.retains : ∀ target : AssignTarget,
    Frees free target.mentions → ∀ {value : Exec host host.Val}, Retains holds value →
      Retains holds (target.store value)
  | .binding place, frees, _, onValue => by
    apply retains_bind onValue
    intro content
    exact retains_bind (keeping.writeBinding place frees content) retains_pure
  | .member object property, frees, _, onValue => by
    apply retains_bind (object.retains frees)
    intro holder
    apply retains_bind onValue
    intro content
    exact retains_bind (retains_perform (keeping.setMember holder _ content)) retains_pure
  | .index object key, frees, _, onValue => by
    obtain ⟨onObject, onKey⟩ := frees.append
    apply retains_bind (object.retains onObject)
    intro holder
    apply retains_bind (key.retains onKey)
    intro position
    apply retains_bind onValue
    intro content
    apply retains_bind (retains_perform (keeping.toKey position))
    intro property
    exact retains_bind (retains_perform (keeping.setMember holder property content)) fun _ =>
      retains_pure _
  | .destructuringArray elements, frees, _, onValue => by
    apply retains_bind onValue
    intro content
    apply retains_bind (retains_perform (keeping.iterate content))
    intro iterator
    apply retains_bind (retains_storeItems iterator elements frees)
    intro _
    exact retains_bind (retains_perform (keeping.close iterator)) retains_pure
  | .destructuringArrayRest elements rest, frees, _, onValue => by
    obtain ⟨onElements, onRest⟩ := frees.append
    apply retains_bind onValue
    intro content
    apply retains_bind (retains_perform (keeping.iterate content))
    intro iterator
    apply retains_bind (retains_storeItems iterator elements onElements)
    intro _
    exact retains_bind (rest.retains onRest (retains_perform (keeping.collect iterator)))
      retains_pure
  | .destructuringObject properties, frees, _, onValue => by
    apply retains_bind onValue
    intro content
    apply retains_bind (retains_perform (keeping.requireObject content))
    intro _
    exact retains_bind (retains_storeFields content properties frees) retains_pure
  | .destructuringObjectRest properties rest, frees, _, onValue => by
    obtain ⟨onProperties, onRest⟩ := frees.append
    apply retains_bind onValue
    intro content
    apply retains_bind (retains_perform (keeping.requireObject content))
    intro _
    apply retains_bind (retains_storeFields content properties onProperties)
    intro _
    exact retains_bind (rest.retains onRest (retains_perform (keeping.restOf content _)))
      retains_pure
  | .rest target, frees, _, onValue => target.retains frees onValue

theorem retains_storeItems (iterator : host.Val) : ∀ items,
      Frees free (mentionsOfItems items) → Retains holds (storeItems iterator items : Exec host PUnit)
  | [], _ => retains_pure _
  | none :: rest, frees =>
    retains_bind (keeping.nextElement iterator) fun _ => retains_storeItems iterator rest frees
  | some (target, none) :: rest, frees =>
    retains_bind (target.retains frees.append.1 (keeping.nextElement iterator)) fun _ =>
      retains_storeItems iterator rest frees.append.2
  | some (target, some fallback) :: rest, frees => by
    obtain ⟨onTarget, onTail⟩ := frees.append
    obtain ⟨onFallback, onRest⟩ := onTail.append
    exact retains_bind (target.retains onTarget (retains_withDefault
      (fallback.retains onFallback) (keeping.nextElement iterator))) fun _ =>
        retains_storeItems iterator rest onRest

theorem retains_storeFields (object : host.Val) : ∀ fields,
      Frees free (mentionsOfFields fields) → Retains holds (storeFields object fields : Exec host PUnit)
  | [], _ => retains_pure _
  | (_, target, none) :: rest, frees =>
    retains_bind (target.retains frees.append.1 (retains_perform (keeping.getMember object _)))
      fun _ => retains_storeFields object rest frees.append.2
  | (_, target, some fallback) :: rest, frees => by
    obtain ⟨onTarget, onTail⟩ := frees.append
    obtain ⟨onFallback, onRest⟩ := onTail.append
    exact retains_bind (target.retains onTarget (retains_withDefault
      (fallback.retains onFallback) (retains_perform (keeping.getMember object _)))) fun _ =>
        retains_storeFields object rest onRest

end

end

/-- A store may be made: its name is free, or the store keeps the property on its own. -/
def Store.Kept (host : Host) (holds : host.World → Prop) (free : String → Prop) : Store → Prop
  | .other name => free name
  | .plain name value => free name ∨ ∀ place : Var, place.name = name →
      (∀ kind, Retains holds (andPerform value.evaluate (host.declare kind place))) ∧
        Retains holds ((AssignTarget.binding (.variable place)).store value.evaluate)

/-- All of some stores may be made. -/
def AllKept (host : Host) (holds : host.World → Prop) (free : String → Prop)
    (stores : List Store) : Prop :=
  ∀ store ∈ stores, store.Kept host holds free

theorem AllKept.append {stores stores' : List Store}
    (kept : AllKept host holds free (stores ++ stores')) :
    AllKept host holds free stores ∧ AllKept host holds free stores' :=
  List.forall_mem_append.mp kept

theorem AllKept.cons {store : Store} {stores : List Store}
    (kept : AllKept host holds free (store :: stores)) :
    store.Kept host holds free ∧ AllKept host holds free stores :=
  List.forall_mem_cons.mp kept

theorem AllKept.frees {mentions : List Mention}
    (kept : AllKept host holds free ((mentions.filterMap Mention.bound?).map .other)) :
    Frees free mentions := by
  intro mention member name binds
  exact kept (.other name) (List.mem_map_of_mem (List.mem_filterMap.mpr ⟨mention, member, binds⟩))

namespace Host.Keeping

variable (keeping : host.Keeping holds free)

include keeping

theorem evaluate {expression : Expression} (kept : AllKept host holds free expression.stores) :
    Retains holds (expression.evaluate : Exec host host.Val) :=
  expression.retains keeping kept.frees

theorem evaluateOption {condition : Option Expression}
    (kept : AllKept host holds free (storesOfOption condition)) :
    Retains holds (evaluateOption condition : Exec host host.Val) := by
  cases condition with
  | none => exact retains_pure _
  | some condition => exact keeping.evaluate kept

theorem delete {target : Expression} (kept : AllKept host holds free target.stores) :
    Retains holds (target.delete : Exec host host.Val) := by
  have onTarget := keeping.evaluate kept
  have frees := kept.frees
  unfold Expression.delete
  split
  case h_1 base property optional =>
    obtain ⟨onBase, onProperty⟩ := frees.append
    apply retains_bind (base.retains keeping onBase)
    intro holder
    apply retains_bind (property.retains keeping onProperty)
    intro key
    exact retains_perform (keeping.deleteMember holder key)
  case h_2 => exact retains_andPerform onTarget keeping.deleteValue

theorem assign {target : AssignTarget} {value : Expression}
    (kept : AllKept host holds free (target.stores value ++ value.stores)) :
    Retains holds (target.store value.evaluate : Exec host host.Val) := by
  obtain ⟨onTarget, onValue⟩ := kept.append
  have evaluated := keeping.evaluate onValue
  unfold AssignTarget.stores at onTarget
  split at onTarget
  case h_1 name =>
    obtain ⟨isPlain, _⟩ := onTarget.cons
    rcases isPlain with isFree | onStore
    · apply retains_bind evaluated
      intro content
      exact retains_bind (retains_perform (keeping.setVariable name content isFree)) fun _ =>
        retains_pure _
    · exact (onStore name rfl).2
  case h_2 => exact target.retains keeping onTarget.frees evaluated

theorem letStmt {name : Var} {value : Expression} (kind : VarKind)
    (kept : AllKept host holds free (.plain name.name value :: value.stores)) :
    Retains holds (andPerform value.evaluate (host.declare kind name)) := by
  obtain ⟨isPlain, onValue⟩ := kept.cons
  rcases isPlain with isFree | onStore
  · exact retains_andPerform (keeping.evaluate onValue) fun content =>
      keeping.declare kind name content isFree
  · exact (onStore name rfl).1 kind

theorem testFirst (label : Option String) {condition : Exec host host.Val}
    {body update : Exec host PUnit} (onCondition : Retains holds condition)
    (onBody : Retains holds body) (onUpdate : Retains holds update) :
    Retains holds (testFirst label condition body update) := by
  apply retains_bind onCondition
  intro value
  refine retains_ite ?_ (retains_pure _)
  apply retains_bind (retains_catchContinue label (keeping.inScope onBody))
  intro _
  exact retains_bind onUpdate retains_pure

theorem testLast (label : Option String) {body : Exec host PUnit}
    {condition : Exec host host.Val} (onBody : Retains holds body)
    (onCondition : Retains holds condition) : Retains holds (testLast label body condition) := by
  apply retains_bind (retains_catchContinue label (keeping.inScope onBody))
  intro _
  exact retains_bind onCondition retains_pure

theorem forEach (label : Option String) (iterator : host.Val) {name : String}
    {body : Exec host PUnit} (isFree : free name) (onBody : Retains holds body) :
    Retains holds (forEach label iterator name body) := by
  apply retains_bind (retains_perform (keeping.advance iterator))
  intro element
  cases element with
  | none => exact retains_pure _
  | some value =>
    have onIteration : Retains holds (HermesDecomp.Ir.bindName name value >>= fun _ => body) :=
      retains_bind (keeping.bindName name isFree value) fun _ => onBody
    exact retains_bind (retains_catchContinue label (keeping.inScope onIteration)) fun _ =>
      retains_pure _

theorem closing (iterator : host.Val) {loop : Exec host PUnit} (onLoop : Retains holds loop) :
    Retains holds (closing iterator loop) := by
  apply retains_onExit onLoop
  intro exit
  exact retains_bind (retains_perform (keeping.close iterator)) fun _ => retains_fail _

end Host.Keeping

section

variable (keeping : host.Keeping holds free) (fuel : Nat)

include keeping

set_option linter.unusedSectionVars false in
mutual

/-- A statement whose stores may all be made keeps the property, however it ends. -/
theorem Statement.retains :
    ∀ (statement : Statement) (label : Option String), AllKept host holds free statement.stores →
      Retains holds (statement.execute fuel label : Exec host PUnit)
  | .expr _, _, kept => retains_bind (keeping.evaluate kept) retains_pure
  | .letStmt _ _ kind, _, kept => keeping.letStmt kind kept
  | .assign _ _, _, kept => retains_bind (keeping.assign kept) retains_pure
  | .delete _ none, _, kept => retains_bind (keeping.delete kept) retains_pure
  | .delete _ (some _), _, kept =>
    retains_bind (keeping.delete kept) fun _ => retains_of_still fun _ => rfl
  | .returnStmt none, _, _ => retains_fail _
  | .returnStmt (some _), _, kept | .throwStmt _, _, kept => retains_bind (keeping.evaluate kept) fun _ => retains_fail _
  | .debugger, _, _ => retains_perform keeping.debugger
  | .comment _, _, _ => retains_pure _
  | .breakStmt _, _, _ | .continueStmt _, _, _ | .goto _, _, _ => retains_fail _
  | .condGoto .., _, kept =>
    retains_bind (keeping.evaluate kept) fun _ => retains_ite (retains_fail _) (retains_fail _)
  | .ifStmt condition thenBody elseBody, _, kept => by
    obtain ⟨onCondition, onArms⟩ := kept.append
    obtain ⟨onThen, onElse⟩ := onArms.append
    apply retains_bind (keeping.evaluate onCondition)
    intro value
    exact retains_ite (keeping.inScope (retains_executeAll thenBody none onThen))
      (keeping.inScope (retains_executeAll elseBody none onElse))
  | .whileStmt condition body, label, kept => by
    obtain ⟨onCondition, onBody⟩ := kept.append
    exact retains_catchBreak label (retains_iterate (keeping.testFirst label
      (keeping.evaluate onCondition) (retains_executeAll body none onBody)
      (retains_pure _)) fuel)
  | .doWhile body condition, label, kept => by
    obtain ⟨onBody, onCondition⟩ := kept.append
    exact retains_catchBreak label (retains_iterate (keeping.testLast label
      (retains_executeAll body none onBody) (keeping.evaluate onCondition)) fuel)
  | .forStmt init condition update body, label, kept => by
    obtain ⟨onInit, onLoop⟩ := kept.append
    obtain ⟨onCondition, onTail⟩ := onLoop.append
    obtain ⟨onUpdate, onBody⟩ := onTail.append
    rw [Statement.execute]
    apply keeping.inScope
    apply retains_bind (retains_executeOption init onInit)
    intro _
    exact retains_catchBreak label (retains_iterate (keeping.testFirst label
      (keeping.evaluateOption onCondition) (retains_executeAll body none onBody)
      (retains_executeOption update onUpdate)) fuel)
  | .switch discriminant cases default, _, kept => by
    obtain ⟨onDiscriminant, onBodies⟩ := kept.append
    obtain ⟨onCases, onDefault⟩ := onBodies.append
    apply retains_bind (keeping.evaluate onDiscriminant)
    intro value
    exact retains_catchBreak none (keeping.inScope (retains_executeCases value
      (retains_executeDefault default onDefault) cases onCases))
  | .forOf name iterable body, label, kept => by
    obtain ⟨isFree, onLoop⟩ := kept.cons
    obtain ⟨onIterable, onBody⟩ := onLoop.append
    apply retains_bind (keeping.evaluate onIterable)
    intro source
    apply retains_bind (retains_perform (keeping.iterate source))
    intro iterator
    exact retains_catchBreak label (keeping.closing iterator (retains_iterate (keeping.forEach label
      iterator isFree (retains_executeAll body none onBody)) fuel))
  | .forIn name object body, label, kept => by
    obtain ⟨isFree, onLoop⟩ := kept.cons
    obtain ⟨onObject, onBody⟩ := onLoop.append
    apply retains_bind (keeping.evaluate onObject)
    intro source
    apply retains_bind (retains_perform (keeping.enumerate source))
    intro iterator
    exact retains_catchBreak label (retains_iterate (keeping.forEach label
      iterator isFree (retains_executeAll body none onBody)) fuel)
  | .tryCatch tryBody catchParam catchBody finallyBody, _, kept => by
    obtain ⟨onTry, onHandlers⟩ := kept.append
    obtain ⟨onParam, onBodies⟩ := onHandlers.append
    obtain ⟨onCatch, onFinally⟩ := onBodies.append
    have tried := keeping.inScope (retains_executeAll tryBody none onTry)
    refine retains_finallyDo ?_ (keeping.inScope (retains_executeAll finallyBody none onFinally))
    unfold storesOfCatch at onParam
    split
    · exact tried
    case isFalse binds =>
      rw [if_neg binds] at onParam
      apply retains_handling tried
      intro thrown
      apply keeping.inScope
      exact retains_bind (keeping.bindName _ onParam.cons.1 thrown) fun _ =>
        retains_executeAll catchBody none onCatch
  | .block body, _, kept => keeping.inScope (retains_executeAll body none kept)
  | .classStmt name none constructor methods, _, kept =>
    retains_perform (keeping.defineClass name none constructor methods kept.cons.1)
  | .classStmt name (some superClass) constructor methods, _, kept => by
    obtain ⟨isFree, onSuper⟩ := kept.cons
    apply retains_bind (keeping.evaluate onSuper)
    intro base
    exact retains_perform (keeping.defineClass name (some base) constructor methods isFree)

theorem retains_executeAll :
    ∀ (statements : List Statement) (pending : Option String),
      AllKept host holds free (storesOfAll statements) →
      Retains holds (executeAll fuel pending statements : Exec host PUnit)
  | [], _, _ => retains_pure _
  | first :: rest, pending, kept => by
    obtain ⟨onFirst, onRest⟩ := kept.append
    exact retains_bind (first.retains pending onFirst) fun _ => retains_executeAll rest _ onRest

theorem retains_executeOption :
    ∀ statement, AllKept host holds free (storesOfStatement statement) →
      Retains holds (executeOption fuel statement : Exec host PUnit)
  | none, _ => retains_pure _
  | some statement, kept => statement.retains none kept

theorem retains_executeDefault :
    ∀ default, AllKept host holds free (storesOfDefault default) →
      Retains holds (executeDefault fuel default : Exec host PUnit)
  | none, _ => retains_pure _
  | some body, kept => retains_executeAll body none kept

theorem retains_executeCases (value : host.Val) {otherwise : Exec host PUnit}
    (onOtherwise : Retains holds otherwise) :
    ∀ cases, AllKept host holds free (storesOfCases cases) →
      Retains holds (executeCases fuel value otherwise cases)
  | [], _ => onOtherwise
  | (test, body) :: rest, kept => by
    obtain ⟨onTest, onBodies⟩ := kept.append
    obtain ⟨onBody, onRest⟩ := onBodies.append
    apply retains_bind (keeping.evaluate onTest)
    intro candidate
    exact retains_ite (retains_executeAll body none onBody)
      (retains_executeCases value onOtherwise rest onRest)

end

end

end HermesDecomp.Ir
