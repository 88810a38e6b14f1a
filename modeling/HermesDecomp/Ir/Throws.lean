import HermesDecomp.Ir.Execution

/-!
# How expressions exit

An expression has no jump in it. What stops it before it has a value is a value thrown by an
operation of the engine.
-/

namespace HermesDecomp.Ir

open Action

variable {host : Host} {α β γ : Type}

/-- Some code exits only by a thrown value. -/
def ThrowsOnly (code : Exec host α) : Prop :=
  ∀ machine exit, (code machine).1 = .err exit → ∃ value, exit = .throws value

theorem throwsOnly_pure (value : α) : ThrowsOnly (pure value : Exec host α) := by
  intro machine exit exits
  cases exits

theorem throwsOnly_perform (operation : Action host.World host.Val α) :
    ThrowsOnly (perform operation) := by
  intro machine exit exits
  unfold perform at exits
  rcases ran : operation machine.world with ⟨_ | thrown | _, world⟩ <;> rw [ran] at exits
  · cases exits
  · exact ⟨thrown, (Outcome.err.inj exits).symm⟩
  · cases exits

theorem throwsOnly_writeBinding (place : Binding) (value : host.Val) :
    ThrowsOnly (writeBinding place value) := by
  cases place with
  | register number =>
    intro machine exit exits
    cases exits
  | «variable» | closureVar => exact throwsOnly_perform _

theorem throwsOnly_bind {part : Exec host α} {next : α → Exec host β} (first : ThrowsOnly part)
    (rest : ∀ value, ThrowsOnly (next value)) : ThrowsOnly (part >>= next) := by
  intro machine exit exits
  have onFirst := first machine
  rw [bind_apply] at exits
  rcases ran : part machine with ⟨value | thrown | _, middle⟩ <;> rw [ran] at exits onFirst
  · exact rest value middle exit exits
  · exact onFirst exit (congrArg Outcome.err (Outcome.err.inj exits))
  · cases exits

theorem throwsOnly_ite {condition : Prop} [Decidable condition] {yes no : Exec host α}
    (whenTrue : ThrowsOnly yes) (whenFalse : ThrowsOnly no) :
    ThrowsOnly (if condition then yes else no) := by
  split
  · exact whenTrue
  · exact whenFalse

theorem throwsOnly_andPerform {part : Exec host α} (throws : ThrowsOnly part)
    (operation : α → Action host.World host.Val β) : ThrowsOnly (andPerform part operation) :=
  throwsOnly_bind throws fun _ => throwsOnly_perform _

theorem throwsOnly_thenPerform {first : Exec host α} {second : Exec host β}
    (onFirst : ThrowsOnly first) (onSecond : ThrowsOnly second)
    (operation : α → β → Action host.World host.Val γ) :
    ThrowsOnly (thenPerform first second operation) :=
  throwsOnly_bind onFirst fun _ => throwsOnly_bind onSecond fun _ => throwsOnly_perform _

theorem throwsOnly_binaryOf (op : BinaryOp) {left right : Exec host host.Val}
    (onLeft : ThrowsOnly left) (onRight : ThrowsOnly right) :
    ThrowsOnly (binaryOf op left right) := by
  apply throwsOnly_bind onLeft
  intro value
  have plain : ThrowsOnly (right >>= fun other => perform (host.binary op value other)) :=
    throwsOnly_bind onRight fun _ => throwsOnly_perform _
  cases op
  case and | logicalAnd => exact throwsOnly_ite onRight (throwsOnly_pure value)
  case or | logicalOr => exact throwsOnly_ite (throwsOnly_pure value) onRight
  case nullishCoalesce => exact throwsOnly_ite onRight (throwsOnly_pure value)
  all_goals exact plain

theorem throwsOnly_memberOf (optional : Bool) {object : Exec host host.Val}
    {key : Exec host host.Key} (onObject : ThrowsOnly object) (onKey : ThrowsOnly key) :
    ThrowsOnly (memberOf optional object key) := by
  apply throwsOnly_bind onObject
  intro value
  apply throwsOnly_ite (throwsOnly_pure _)
  exact throwsOnly_bind onKey fun _ => throwsOnly_perform _

theorem throwsOnly_nextElement (iterator : host.Val) : ThrowsOnly (nextElement iterator) :=
  throwsOnly_bind (throwsOnly_perform _) fun _ => throwsOnly_pure _

theorem throwsOnly_withDefault {fallback value : Exec host host.Val}
    (onFallback : ThrowsOnly fallback) (onValue : ThrowsOnly value) :
    ThrowsOnly (withDefault fallback value) :=
  throwsOnly_bind onValue fun _ => throwsOnly_ite onFallback (throwsOnly_pure _)

mutual

/-- An expression exits only by a thrown value. -/
theorem Expression.throwsOnly : ∀ expression : Expression,
    ThrowsOnly (expression.evaluate : Exec host host.Val)
  | .value (.binding (.register number)) => by
    intro machine exit exits
    cases exits
  | .value (.binding (.variable _)) | .value (.binding (.closureVar _ _)) => throwsOnly_perform _
  | .value (.constant _) | .value .this | .value .global | .value (.parameter _)
  | .value .arguments | .value .newTarget | .value .super => throwsOnly_pure _
  | .binary op left right => throwsOnly_binaryOf op left.throwsOnly right.throwsOnly
  | .unary _ operand => throwsOnly_andPerform operand.throwsOnly _
  | .conditional condition thenExpr elseExpr =>
    throwsOnly_bind condition.throwsOnly fun _ =>
      throwsOnly_ite thenExpr.throwsOnly elseExpr.throwsOnly
  | .member object property optional =>
    throwsOnly_memberOf optional object.throwsOnly property.throwsOnly
  | .call callee arguments | .new callee arguments =>
    throwsOnly_thenPerform callee.throwsOnly (throwsOnly_evaluateAll arguments) _
  | .array elements => throwsOnly_andPerform (throwsOnly_evaluateElements elements) _
  | .object properties => by
    apply throwsOnly_bind (throwsOnly_perform _)
    intro object
    exact throwsOnly_bind (throwsOnly_defineAll object properties) fun _ => throwsOnly_pure _
  | .function .. | .regExp .. | .unknown .. => throwsOnly_perform _
  | .assignment target value => target.throwsOnly value.throwsOnly
  | .spread operand | .await operand => throwsOnly_andPerform operand.throwsOnly _
  | .templateLiteral _ expressions => throwsOnly_andPerform (throwsOnly_evaluateTexts expressions) _
  | .yield value _ => throwsOnly_andPerform value.throwsOnly _
  | .jsxElement _ attributes children =>
    throwsOnly_thenPerform (throwsOnly_evaluateAttributes attributes)
      (throwsOnly_evaluateAll children) _

theorem throwsOnly_evaluateAll : ∀ expressions,
    ThrowsOnly (evaluateAll expressions : Exec host (List host.Val))
  | [] => throwsOnly_pure _
  | first :: rest => by
    apply throwsOnly_bind first.throwsOnly
    intro value
    exact throwsOnly_bind (throwsOnly_evaluateAll rest) fun _ => throwsOnly_pure _

theorem throwsOnly_evaluateElements : ∀ elements,
    ThrowsOnly (evaluateElements elements : Exec host (List (Option host.Val)))
  | [] => throwsOnly_pure _
  | none :: rest => throwsOnly_bind (throwsOnly_evaluateElements rest) fun _ => throwsOnly_pure _
  | some first :: rest => by
    apply throwsOnly_bind first.throwsOnly
    intro value
    exact throwsOnly_bind (throwsOnly_evaluateElements rest) fun _ => throwsOnly_pure _

theorem throwsOnly_evaluateAttributes : ∀ attributes,
    ThrowsOnly (evaluateAttributes attributes : Exec host (List (String × host.Val)))
  | [] => throwsOnly_pure _
  | (_, first) :: rest => by
    apply throwsOnly_bind first.throwsOnly
    intro value
    exact throwsOnly_bind (throwsOnly_evaluateAttributes rest) fun _ => throwsOnly_pure _

theorem throwsOnly_evaluateTexts : ∀ expressions,
    ThrowsOnly (evaluateTexts expressions : Exec host (List host.Val))
  | [] => throwsOnly_pure _
  | first :: rest => by
    apply throwsOnly_bind first.throwsOnly
    intro value
    apply throwsOnly_bind (throwsOnly_perform _)
    intro text
    exact throwsOnly_bind (throwsOnly_evaluateTexts rest) fun _ => throwsOnly_pure _

theorem PropertyKey.throwsOnly : ∀ key : PropertyKey, ThrowsOnly (key.evaluate : Exec host host.Key)
  | .computed key => throwsOnly_andPerform key.throwsOnly _
  | .ident _ | .string _ | .index _ => throwsOnly_pure _

theorem throwsOnly_defineAll (object : host.Val) : ∀ properties,
    ThrowsOnly (defineAll object properties : Exec host PUnit)
  | [] => throwsOnly_pure _
  | .mk key value :: rest => by
    apply throwsOnly_bind key.throwsOnly
    intro property
    apply throwsOnly_bind value.throwsOnly
    intro content
    exact throwsOnly_bind (throwsOnly_perform _) fun _ => throwsOnly_defineAll object rest

/-- So does a store of what exits in this way only. -/
theorem AssignTarget.throwsOnly : ∀ target : AssignTarget,
    ∀ {value : Exec host host.Val}, ThrowsOnly value → ThrowsOnly (target.store value)
  | .binding place, _, onValue => by
    apply throwsOnly_bind onValue
    intro content
    exact throwsOnly_bind (throwsOnly_writeBinding place content) fun _ => throwsOnly_pure _
  | .member object _, _, onValue => by
    apply throwsOnly_bind object.throwsOnly
    intro holder
    apply throwsOnly_bind onValue
    intro content
    exact throwsOnly_bind (throwsOnly_perform _) fun _ => throwsOnly_pure _
  | .index object key, _, onValue => by
    apply throwsOnly_bind object.throwsOnly
    intro holder
    apply throwsOnly_bind key.throwsOnly
    intro position
    apply throwsOnly_bind onValue
    intro content
    apply throwsOnly_bind (throwsOnly_perform _)
    intro property
    exact throwsOnly_bind (throwsOnly_perform _) fun _ => throwsOnly_pure _
  | .destructuringArray elements, _, onValue => by
    apply throwsOnly_bind onValue
    intro content
    apply throwsOnly_bind (throwsOnly_perform _)
    intro iterator
    apply throwsOnly_bind (throwsOnly_storeItems iterator elements)
    intro _
    exact throwsOnly_bind (throwsOnly_perform _) fun _ => throwsOnly_pure _
  | .destructuringArrayRest elements rest, _, onValue => by
    apply throwsOnly_bind onValue
    intro content
    apply throwsOnly_bind (throwsOnly_perform _)
    intro iterator
    apply throwsOnly_bind (throwsOnly_storeItems iterator elements)
    intro _
    exact throwsOnly_bind (rest.throwsOnly (throwsOnly_perform _)) fun _ => throwsOnly_pure _
  | .destructuringObject properties, _, onValue => by
    apply throwsOnly_bind onValue
    intro content
    apply throwsOnly_bind (throwsOnly_perform _)
    intro _
    exact throwsOnly_bind (throwsOnly_storeFields content properties) fun _ => throwsOnly_pure _
  | .destructuringObjectRest properties rest, _, onValue => by
    apply throwsOnly_bind onValue
    intro content
    apply throwsOnly_bind (throwsOnly_perform _)
    intro _
    apply throwsOnly_bind (throwsOnly_storeFields content properties)
    intro _
    exact throwsOnly_bind (rest.throwsOnly (throwsOnly_perform _)) fun _ => throwsOnly_pure _
  | .rest target, _, onValue => target.throwsOnly onValue

theorem throwsOnly_storeItems (iterator : host.Val) :
    ∀ items, ThrowsOnly (storeItems iterator items : Exec host PUnit)
  | [] => throwsOnly_pure _
  | none :: rest =>
    throwsOnly_bind (throwsOnly_nextElement iterator) fun _ => throwsOnly_storeItems iterator rest
  | some (target, none) :: rest =>
    throwsOnly_bind (target.throwsOnly (throwsOnly_nextElement iterator)) fun _ =>
      throwsOnly_storeItems iterator rest
  | some (target, some fallback) :: rest =>
    throwsOnly_bind (target.throwsOnly (throwsOnly_withDefault fallback.throwsOnly
      (throwsOnly_nextElement iterator))) fun _ => throwsOnly_storeItems iterator rest

theorem throwsOnly_storeFields (object : host.Val) :
    ∀ fields, ThrowsOnly (storeFields object fields : Exec host PUnit)
  | [] => throwsOnly_pure _
  | (_, target, none) :: rest =>
    throwsOnly_bind (target.throwsOnly (throwsOnly_perform _)) fun _ =>
      throwsOnly_storeFields object rest
  | (_, target, some fallback) :: rest =>
    throwsOnly_bind (target.throwsOnly (throwsOnly_withDefault fallback.throwsOnly
      (throwsOnly_perform _))) fun _ => throwsOnly_storeFields object rest

end

end HermesDecomp.Ir
