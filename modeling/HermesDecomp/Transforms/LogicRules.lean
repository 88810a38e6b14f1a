import HermesDecomp.Transforms.LogicSimplify
import HermesDecomp.Transforms.SimplifyRules

/-!
# Where rewrites of logic are right

The rewrites come from the algebra of booleans, and operands may hold anything. A negation may
drop another one around a boolean, a comparison may be turned around when its operands are
ordered, and an operand may be absorbed when its evaluation does nothing and its value is the
boolean that stands for it.
-/

namespace HermesDecomp.Ir.Logic

open Action

variable {host : Host}

/-- The boolean negation of what a part evaluates to. -/
def negationOf (part : Exec host host.Val) : Exec host host.Val := do
  let value ← part
  pure (host.constant (.bool (!host.truthy value)))

theorem evaluate_not (branching : host.Branching) (operand : Expression) :
    ((Expression.unary .not operand).evaluate : Exec host host.Val) = negationOf operand.evaluate := by
  have answered : host.unary .not = fun value => pure (host.constant (.bool !host.truthy value)) :=
    funext branching.negation
  rw [Expression.evaluate, answered]
  rfl

/-- A negated negation is the boolean of the same truth. -/
theorem negationOf_negationOf (branching : host.Branching) (part : Exec host host.Val) :
    negationOf (negationOf part) =
      part >>= fun value => pure (host.constant (.bool (host.truthy value))) := by
  rw [negationOf, negationOf, bind_assoc]
  refine congrArg (part >>= ·) (funext fun value => ?_)
  change (pure (host.constant (.bool (!host.truthy (host.constant (.bool _))))) :
    Exec host host.Val) = _
  rw [branching.truthy_bool, Bool.not_not]

/-- A part whose value may be replaced by another one is a part whose values are those. -/
theorem eq_bind_pure_iff {part : Exec host host.Val} {change : host.Val → host.Val} :
    (part = part >>= fun value => pure (change value)) ↔
      Returns part fun value => value = change value := by
  constructor
  · intro same machine value ran
    have applied := congrArg Prod.fst (congrFun same machine)
    rw [bind_apply] at applied
    rcases run : part machine with ⟨outcome, middle⟩
    rw [run] at ran applied
    obtain rfl : outcome = .ok value := ran
    exact Outcome.ok.inj applied
  · intro returned
    calc part = part >>= fun value => pure value := (bind_pure part).symm
      _ = part >>= fun value => pure (change value) :=
        bind_of_returns returned fun value same => congrArg pure same

theorem isBool_iff (branching : host.Branching) {value : host.Val} :
    host.IsBool value ↔ value = host.constant (.bool (host.truthy value)) := by
  constructor
  · rintro ⟨flag, rfl⟩
    rw [branching.truthy_bool]
  · exact fun same => ⟨_, same⟩

/-- The orderings. -/
def isOrdering : BinaryOp → Bool
  | .lt | .le | .gt | .ge => true
  | _ => false

/-- An operation on the values of two parts is the opposite of another one exactly when it is
on all values the parts come to. -/
theorem thenPerform_opposite_iff {left right : Exec host host.Val}
    {operation opposed : host.Val → host.Val → Action host.World host.Val host.Val} :
    thenPerform left right opposed = negationOf (thenPerform left right operation) ↔
      ∀ machine value middle other final, left machine = (.ok value, middle) →
        right middle = (.ok other, final) →
          opposed value other final.world = host.opposite (operation value other) final.world := by
  have performed : ∀ (value other : host.Val) (final : Machine host),
      (perform (opposed value other) : Exec host host.Val) final =
          negationOf (perform (operation value other)) final ↔
        opposed value other final.world = host.opposite (operation value other) final.world := by
    intro value other final
    rw [negationOf, bind_apply, Host.opposite, bind_apply, perform, perform]
    rcases operation value other final.world with ⟨_ | _ | _, world⟩ <;>
      rcases opposed value other final.world with ⟨_ | _ | _, world'⟩ <;> simp
  constructor
  · intro same machine value middle other final ranLeft ranRight
    have applied := congrFun same machine
    rw [thenPerform, thenPerform, negationOf, bind_assoc, bind_of_run ranLeft, bind_of_run ranLeft,
      bind_assoc, bind_of_run ranRight, bind_of_run ranRight] at applied
    exact (performed value other final).mp applied
  · intro same
    rw [thenPerform, thenPerform, negationOf, bind_assoc]
    funext machine
    rw [bind_apply, bind_apply]
    rcases ranLeft : left machine with ⟨value | _ | _, middle⟩
    · dsimp only
      rw [bind_assoc, bind_apply, bind_apply]
      rcases ranRight : right middle with ⟨other | _ | _, final⟩
      · exact (performed value other final).mpr (same machine value middle other final ranLeft ranRight)
      · rfl
      · rfl
    · rfl
    · rfl

theorem opposite_opposite (branching : host.Branching)
    {operation : Action host.World host.Val host.Val} (returned : Returns operation host.IsBool) :
    host.opposite (host.opposite operation) = operation := by
  funext world
  have isBool := returned world
  rw [Host.opposite, Host.opposite, bind_assoc, bind_apply]
  rcases ran : operation world with ⟨value | _ | _, world'⟩
  · rw [ran] at isBool
    obtain ⟨flag, rfl⟩ := isBool value rfl
    change (Outcome.ok (host.constant (.bool (!host.truthy (host.constant (.bool _))))), world') = _
    rw [branching.truthy_bool, branching.truthy_bool, Bool.not_not]
  · rfl
  · rfl

section

variable (comparison : Comparison host)

include comparison in
theorem true_ne_false : host.constant (.bool true) ≠ host.constant (.bool false) := by
  intro same
  have truths := congrArg host.truthy same
  rw [comparison.branching.truthy_bool, comparison.branching.truthy_bool] at truths
  cases truths

variable {op negated : BinaryOp}

/-- With operands that are not ordered, no ordering answers the opposite of another one. -/
theorem not_opposite_of_unordered {value other : host.Val} {world : host.World}
    (ordering : isOrdering op = true) (ordering' : isOrdering negated = true)
    (unordered : comparison.unordered value other world) :
    host.binary negated value other world ≠ host.opposite (host.binary op value other) world := by
  obtain ⟨world', answered⟩ := comparison.nothing value other world unordered
  have listed : ∀ {op}, isOrdering op = true → op = .lt ∨ op = .le ∨ op = .gt ∨ op = .ge := by
    intro op isOrdering
    cases op <;> simp [Logic.isOrdering] at isOrdering ⊢
  rw [Host.opposite, bind_apply, answered op (listed ordering), answered negated (listed ordering')]
  intro same
  have values := Outcome.ok.inj (congrArg Prod.fst same)
  rw [comparison.branching.truthy_bool] at values
  exact true_ne_false comparison values.symm

/-- The comparison that a negation turns into answers the opposite on operands that are ordered,
and only there. -/
theorem opposite_iff (turns : negatedOp op = some negated) (value other : host.Val)
    (world : host.World) :
    host.binary negated value other world = host.opposite (host.binary op value other) world ↔
      (isOrdering op = true → ¬ comparison.unordered value other world) := by
  have branching := comparison.branching
  have negative : isOrdering op = true → isOrdering negated = true →
      host.binary negated value other world = host.opposite (host.binary op value other) world →
        ¬ comparison.unordered value other world := fun ordering ordering' same unordered =>
    not_opposite_of_unordered comparison ordering ordering' unordered same
  cases op <;> simp only [negatedOp, Option.some.injEq, reduceCtorEq] at turns <;> subst turns
  case eq => simp [isOrdering, comparison.neq]
  case neq =>
    simp [isOrdering, comparison.neq, opposite_opposite branching (comparison.equality value other)]
  case strictEq => simp [isOrdering, comparison.strictNeq]
  case strictNeq =>
    simp [isOrdering, comparison.strictNeq,
      opposite_opposite branching (comparison.strictEquality value other)]
  case lt => exact ⟨fun same _ => negative rfl rfl same, fun ordered => comparison.ge _ _ _ (ordered rfl)⟩
  case le => exact ⟨fun same _ => negative rfl rfl same, fun ordered => comparison.gt _ _ _ (ordered rfl)⟩
  case gt =>
    refine ⟨fun same _ => negative rfl rfl same, fun ordered => ?_⟩
    rw [Host.opposite, bind_apply, comparison.gt _ _ _ (ordered rfl), ← bind_apply, ← Host.opposite,
      opposite_opposite branching (comparison.lessEqual value other)]
  case ge =>
    refine ⟨fun same _ => negative rfl rfl same, fun ordered => ?_⟩
    rw [Host.opposite, bind_apply, comparison.ge _ _ _ (ordered rfl), ← bind_apply, ← Host.opposite,
      opposite_opposite branching (comparison.less value other)]

/-- The operands of a comparison are ordered whenever both have values. -/
def Ordered (left right : Expression) : Prop :=
  ∀ machine value middle other final, left.evaluate machine = (.ok value, middle) →
    right.evaluate middle = (.ok other, final) → ¬ comparison.unordered value other final.world

/-- A negation is right where the truth of its result matters: it drops another negation only
around booleans, and turns an ordering around only for ordered operands. -/
def NegationSound (matters : Bool → Prop) : Expression → Prop
  | .unary .not operand => Returns (operand.evaluate : Exec host host.Val) fun value =>
      matters (host.truthy value) → value = host.constant (.bool (host.truthy value))
  | .binary op left right => isOrdering op = true → Ordered comparison left right
  | _ => True

theorem evaluate_negated_iff (turns : negatedOp op = some negated) (left right : Expression) :
    ((Expression.binary negated left right).evaluate : Exec host host.Val) =
        negationOf (Expression.binary op left right).evaluate ↔
      (isOrdering op = true → Ordered comparison left right) := by
  have plain : ((Expression.binary negated left right).evaluate : Exec host host.Val) =
      thenPerform left.evaluate right.evaluate (host.binary negated) ∧
      ((Expression.binary op left right).evaluate : Exec host host.Val) =
        thenPerform left.evaluate right.evaluate (host.binary op) := by
    cases op <;> simp only [negatedOp, Option.some.injEq, reduceCtorEq] at turns <;> subst turns <;>
      exact ⟨rfl, rfl⟩
  rw [plain.1, plain.2, thenPerform_opposite_iff]
  constructor
  · intro opposed ordering machine value middle other final ranLeft ranRight
    exact (opposite_iff comparison turns value other final.world).mp
      (opposed machine value middle other final ranLeft ranRight) ordering
  · intro ordered machine value middle other final ranLeft ranRight
    exact (opposite_iff comparison turns value other final.world).mpr fun ordering =>
      ordered ordering machine value middle other final ranLeft ranRight

theorem isOrdering_of_kept {op : BinaryOp} (kept : negatedOp op = none) : isOrdering op = false := by
  cases op <;> first | rfl | exact nomatch kept

/-- The negation of an expression evaluates to the boolean negation exactly where it is right for
every truth of its result. -/
theorem negation_iff (expression : Expression) :
    ((negateExpr expression).evaluate : Exec host host.Val) = negationOf expression.evaluate ↔
      NegationSound comparison (fun _ => True) expression := by
  have branching := comparison.branching
  unfold negateExpr
  split
  case h_1 operand =>
    rw [evaluate_not branching, negationOf_negationOf branching, eq_bind_pure_iff]
    simp [NegationSound]
  case h_2 op left right =>
    split
    case h_1 negated turns => exact evaluate_negated_iff comparison turns left right
    case h_2 kept =>
      rw [evaluate_not branching]
      simp [NegationSound, isOrdering_of_kept kept]
  case h_3 flag =>
    have turned : ((Expression.value (.constant (.bool !flag))).evaluate : Exec host host.Val) =
        negationOf (Expression.value (.constant (.bool flag))).evaluate := by
      change pure _ = (pure (host.constant (.bool !host.truthy (host.constant (.bool flag)))) :
        Exec host host.Val)
      rw [branching.truthy_bool]
    simp [NegationSound, turned]
  case h_4 notNegated notBinary _ =>
    rw [evaluate_not branching]
    unfold NegationSound
    split
    · exact absurd rfl (notNegated _)
    · exact absurd rfl (notBinary _ _ _)
    · simp

variable {expression : Expression}

/-- Unless an expression is itself a negation, its negation is right for one truth exactly where
it is for both. -/
theorem negation_of_sound {matters : Bool → Prop}
    (sound : NegationSound comparison matters expression) :
    (∃ operand, expression = .unary .not operand) ∨
      ((negateExpr expression).evaluate : Exec host host.Val) = negationOf expression.evaluate := by
  by_cases negated : ∃ operand, expression = .unary .not operand
  · exact .inl negated
  · refine .inr ((negation_iff comparison expression).mpr ?_)
    unfold NegationSound at sound ⊢
    split at sound
    · exact absurd ⟨_, rfl⟩ negated
    · exact sound
    · trivial

/-- A negation whose `false` is right decides a conjunction as the expression decides the opposite
way. -/
theorem and_negateExpr (sound : NegationSound comparison (· = false) expression)
    (other : Exec host host.Val) :
    binaryOf .and (negateExpr expression).evaluate other =
      choiceOf expression.evaluate (pure (host.constant (.bool false))) other := by
  have branching := comparison.branching
  rcases negation_of_sound comparison sound with ⟨operand, rfl⟩ | same
  · rw [choiceOf_not branching]
    refine bind_of_returns sound fun value isFalse => ?_
    change (if host.truthy value = true then other else pure value) = _
    cases truth : host.truthy value
    · rw [isFalse truth, truth]
    · rfl
  · rw [same, binaryOf, negationOf, bind_assoc]
    refine congrArg (expression.evaluate >>= ·) (funext fun value => ?_)
    change (if host.truthy (host.constant (.bool (!host.truthy value))) = true then other
      else pure (host.constant (.bool (!host.truthy value)))) = _
    rw [branching.truthy_bool]
    cases host.truthy value <;> rfl

/-- A negation whose `true` is right decides a disjunction likewise. -/
theorem or_negateExpr (sound : NegationSound comparison (· = true) expression)
    (other : Exec host host.Val) :
    binaryOf .or (negateExpr expression).evaluate other =
      choiceOf expression.evaluate other (pure (host.constant (.bool true))) := by
  have branching := comparison.branching
  rcases negation_of_sound comparison sound with ⟨operand, rfl⟩ | same
  · rw [choiceOf_not branching]
    refine bind_of_returns sound fun value isTrue => ?_
    change (if host.truthy value = true then pure value else other) = _
    cases truth : host.truthy value
    · rfl
    · rw [isTrue truth, truth]
  · rw [same, binaryOf, negationOf, bind_assoc]
    refine congrArg (expression.evaluate >>= ·) (funext fun value => ?_)
    change (if host.truthy (host.constant (.bool (!host.truthy value))) = true then
      pure (host.constant (.bool (!host.truthy value))) else other) = _
    rw [branching.truthy_bool]
    cases host.truthy value <;> rfl

/-- A rewrite of a negation is right: two negations cancel around a boolean, and a negation that
moves into an operator is right for the truths it passes on. -/
def NotSound : Expression → Prop
  | .unary .not inner =>
      isBooleanExpr inner = true → Returns (inner.evaluate : Exec host host.Val) host.IsBool
  | .binary .or left right =>
      NegationSound comparison (· = false) left ∧ NegationSound comparison (fun _ => True) right
  | .binary .and left right =>
      NegationSound comparison (· = true) left ∧ NegationSound comparison (fun _ => True) right
  | _ => True

theorem negationOf_or (left right : Exec host host.Val) :
    negationOf (binaryOf .or left right) =
      choiceOf left (pure (host.constant (.bool false))) (negationOf right) := by
  rw [negationOf, binaryOf, bind_assoc]
  refine congrArg (left >>= ·) (funext fun value => ?_)
  cases truth : host.truthy value
  · simp [negationOf]
  · simp [truth]

theorem negationOf_and (left right : Exec host host.Val) :
    negationOf (binaryOf .and left right) =
      choiceOf left (negationOf right) (pure (host.constant (.bool true))) := by
  rw [negationOf, binaryOf, bind_assoc]
  refine congrArg (left >>= ·) (funext fun value => ?_)
  cases truth : host.truthy value
  · simp [truth]
  · simp [negationOf]

theorem evaluate_simplifyUnaryNot {operand : Expression} (sound : NotSound comparison operand) :
    ((simplifyUnaryNot operand).evaluate : Exec host host.Val) = negationOf operand.evaluate := by
  have branching := comparison.branching
  unfold simplifyUnaryNot
  split
  case h_1 inner =>
    split
    case isTrue boolean =>
      rw [evaluate_not branching, negationOf_negationOf branching, eq_bind_pure_iff]
      exact fun machine value ran => (isBool_iff branching).mp (sound boolean machine value ran)
    case isFalse => exact evaluate_not branching _
  case h_2 left right =>
    have onRight := (negation_iff comparison right).mpr sound.2
    have joined := and_negateExpr comparison sound.1 (negateExpr right).evaluate
    rw [onRight, ← negationOf_or] at joined
    rw [Expression.evaluate, onRight]
    exact joined
  case h_3 left right =>
    have onRight := (negation_iff comparison right).mpr sound.2
    have joined := or_negateExpr comparison sound.1 (negateExpr right).evaluate
    rw [onRight, ← negationOf_and] at joined
    rw [Expression.evaluate, onRight]
    exact joined
  case h_4 flag => exact (negation_iff comparison (.value (.constant (.bool flag)))).mpr trivial
  case h_5 => exact evaluate_not branching _

/-- A right operand that repeats the left one comes to the same value without an effect. -/
def Repeats (host : Host) (truth : Bool) (left right : Expression) : Prop :=
  ∀ (machine : Machine host) value middle, left.evaluate machine = (.ok value, middle) →
    host.truthy value = truth → right.evaluate middle = (.ok value, middle)

/-- Two operands come to one value that is no NaN, and do nothing. -/
def Identical (left right : Expression) : Prop :=
  ∀ machine, ∃ value, left.evaluate machine = (.ok value, machine) ∧
    right.evaluate machine = (.ok value, machine) ∧ ¬ comparison.isNan value

/-- A rewrite of a binary operator is right: an absorbed operand does nothing, and where it would
decide its value is the one that is left. -/
def BinarySound (op : BinaryOp) (left right : Expression) : Prop :=
  match op with
  | .or =>
      if isFalsy right then
        Returns (left.evaluate : Exec host host.Val) fun value => host.truthy value = false →
          Settles (right.evaluate : Exec host host.Val) (· = value)
      else if isFalsy left then True
      else if isTruthy right then
        Settles (left.evaluate : Exec host host.Val) fun value => host.truthy value = true →
          value = host.constant (.bool true)
      else if isTruthy left then True
      else exprsEqual left right = true → Repeats host false left right
  | .and =>
      if isTruthy right then
        Returns (left.evaluate : Exec host host.Val) fun value => host.truthy value = true →
          value = host.constant (.bool true)
      else if isTruthy left then True
      else if isFalsy left then
        Settles (left.evaluate : Exec host host.Val) (· = host.constant (.bool false))
      else if isFalsy right then
        Settles (left.evaluate : Exec host host.Val) fun value =>
          if host.truthy value then
            Settles (right.evaluate : Exec host host.Val) (· = host.constant (.bool false))
          else value = host.constant (.bool false)
      else exprsEqual left right = true → Repeats host true left right
  | .strictEq | .strictNeq =>
      isSimpleValue left = true → exprsEqual left right = true → Identical comparison left right
  | _ => True

/-- A rewrite of a conditional is right: a condition that is dropped does nothing, and arms that
are dropped hold the boolean that the condition has or loses. -/
def ConditionalSound (condition thenExpr elseExpr : Expression) : Prop :=
  if isTruthy condition then True
  else if isFalsy condition then True
  else if exprsEqual thenExpr elseExpr then
    ∀ machine : Machine host, ∃ value, condition.evaluate machine = (.ok value, machine) ∧
      (host.truthy value = false →
        (elseExpr.evaluate machine : Outcome (Exit host) host.Val × Machine host) =
          thenExpr.evaluate machine)
  else if isTruthy thenExpr && isFalsy elseExpr && isBooleanExpr condition then
    Returns (condition.evaluate : Exec host host.Val) fun value =>
      if host.truthy value then value = host.constant (.bool true)
      else Settles (elseExpr.evaluate : Exec host host.Val) (· = value)
  else if isFalsy thenExpr && isTruthy elseExpr then
    NegationSound comparison (fun _ => True) condition ∧
      Returns (condition.evaluate : Exec host host.Val) fun value => host.truthy value = true →
        Settles (thenExpr.evaluate : Exec host host.Val) (· = host.constant (.bool false))
  else True

theorem isTruthy_eq_true (truthy : isTruthy expression = true) :
    expression = .value (.constant (.bool true)) := by
  unfold isTruthy at truthy
  split at truthy
  · rfl
  · cases truthy

include comparison in
theorem isFalsy_eq_true (falsy : isFalsy expression = true) :
    ∃ constant, expression = .value (.constant constant) ∧
      host.truthy (host.constant constant) = false := by
  unfold isFalsy at falsy
  split at falsy
  · exact ⟨_, rfl, comparison.branching.truthy_bool false⟩
  · exact ⟨_, rfl, comparison.truthy_nothing.2.1⟩
  · exact ⟨_, rfl, comparison.truthy_nothing.1⟩
  · exact ⟨_, rfl, comparison.truthy_nothing.2.2⟩
  · cases falsy

variable {value : host.Val}

/-- What settles on one value is that value. -/
theorem eq_pure_of_settles {part : Exec host host.Val} (settles : Settles part (· = value))
    : part = pure value:= by
  funext machine
  obtain ⟨_, ran, rfl⟩ := settles machine
  exact ran

variable {left right : Expression}

/-- An operator that takes its left operand unless its truth is `flag`. -/
theorem bind_repeats {flag : Bool} (repeats : Repeats host flag left right) :
    (left.evaluate >>= fun value =>
      if host.truthy value = flag then right.evaluate else pure value) =
        (left.evaluate : Exec host host.Val) := by
  funext machine
  rw [bind_apply]
  rcases ran : left.evaluate machine with ⟨value | _ | _, middle⟩
  · dsimp only
    split
    case isTrue truth => exact repeats machine value middle ran truth
    case isFalse => rfl
  · rfl
  · rfl

theorem binaryOf_or (left right : Exec host host.Val) :
    binaryOf .or left right = left >>= fun value =>
      if host.truthy value = false then right else pure value := by
  refine congrArg (left >>= ·) (funext fun value => ?_)
  cases host.truthy value <;> simp

theorem binaryOf_and (left right : Exec host host.Val) :
    binaryOf .and left right = left >>= fun value =>
      if host.truthy value = true then right else pure value := rfl

/-- A falsy right operand of `||` is what falsy values of the left one are. -/
theorem or_falsy (absorbed : Returns (left.evaluate : Exec host host.Val) fun value =>
      host.truthy value = false → Settles (right.evaluate : Exec host host.Val) (· = value)) :
    (left.evaluate : Exec host host.Val) = binaryOf .or left.evaluate right.evaluate := by
  rw [binaryOf_or]
  refine (bind_pure _).symm.trans (bind_of_returns absorbed fun value settles => ?_)
  split
  case isTrue falsy => exact (eq_pure_of_settles (settles falsy)).symm
  case isFalse => rfl

/-- A left operand that decides. -/
theorem pure_or_falsy (falsy : host.truthy value = false) (right : Exec host host.Val)
    : right = binaryOf .or (pure value) right:= by
  change right = if host.truthy value = true then pure value else right
  rw [falsy]
  rfl

theorem pure_or_truthy (truthy : host.truthy value = true) (right : Exec host host.Val)
    : pure value = binaryOf .or (pure value) right:= by
  change pure value = if host.truthy value = true then pure value else right
  rw [truthy]
  rfl

theorem pure_and_truthy (truthy : host.truthy value = true) (right : Exec host host.Val)
    : right = binaryOf .and (pure value) right:= by
  change right = if host.truthy value = true then right else pure value
  rw [truthy]
  rfl

theorem pure_and_falsy (falsy : host.truthy value = false) (right : Exec host host.Val)
    : pure value = binaryOf .and (pure value) right:= by
  change pure value = if host.truthy value = true then right else pure value
  rw [falsy]
  rfl

theorem evaluate_simplifyOr (sound : BinarySound comparison .or left right) :
    (simplifyBinary .or left right).evaluate =
      (binaryOf .or left.evaluate right.evaluate : Exec host host.Val) := by
  have truthy_true := comparison.branching.truthy_bool true
  unfold BinarySound at sound
  unfold simplifyBinary
  dsimp only at sound ⊢
  split at sound
  case isTrue falsy =>
    rw [if_pos falsy]
    exact or_falsy sound
  case isFalse notFalsy =>
    rw [if_neg notFalsy]
    split at sound
    case isTrue falsy =>
      rw [if_pos falsy]
      obtain ⟨constant, rfl, isFalse⟩ := isFalsy_eq_true comparison falsy
      exact pure_or_falsy isFalse right.evaluate
    case isFalse notFalsy' =>
      rw [if_neg notFalsy']
      split at sound
      case isTrue truthy =>
        obtain rfl := isTruthy_eq_true truthy
        rw [if_pos (by rfl)]
        refine (bind_of_settles sound fun value isTrue => ?_).symm
        change (if host.truthy value = true then pure value else _) = _
        split
        case isTrue truth =>
          rw [isTrue truth]
          rfl
        case isFalse => rfl
      case isFalse notTruthy =>
        split at sound
        case isTrue truthy =>
          rw [if_pos (by rw [truthy, Bool.or_true])]
          obtain rfl := isTruthy_eq_true truthy
          exact pure_or_truthy truthy_true right.evaluate
        case isFalse notTruthy' =>
          rw [if_neg (by simp [notTruthy, notTruthy'])]
          split
          case isTrue equal =>
            rw [binaryOf_or]
            exact (bind_repeats (sound equal)).symm
          case isFalse => rfl

theorem evaluate_simplifyAnd (sound : BinarySound comparison .and left right) :
    (simplifyBinary .and left right).evaluate =
      (binaryOf .and left.evaluate right.evaluate : Exec host host.Val) := by
  have truthy_true := comparison.branching.truthy_bool true
  unfold BinarySound at sound
  unfold simplifyBinary
  dsimp only at sound ⊢
  split at sound
  case isTrue truthy =>
    obtain rfl := isTruthy_eq_true truthy
    refine (bind_pure _).symm.trans (bind_of_returns sound fun value isTrue => ?_)
    change _ = if host.truthy value = true then _ else pure value
    split
    case isTrue truth =>
      rw [isTrue truth]
      rfl
    case isFalse => rfl
  case isFalse notTruthy =>
    rw [if_neg notTruthy]
    split at sound
    case isTrue truthy =>
      rw [if_pos truthy]
      obtain rfl := isTruthy_eq_true truthy
      exact pure_and_truthy truthy_true right.evaluate
    case isFalse notTruthy' =>
      rw [if_neg notTruthy']
      split at sound
      case isTrue falsy =>
        rw [if_pos (by rw [falsy, Bool.or_true]), eq_pure_of_settles sound]
        exact pure_and_falsy (comparison.branching.truthy_bool false) right.evaluate
      case isFalse notFalsy =>
        split at sound
        case isTrue falsy =>
          rw [if_pos (by rw [falsy, Bool.true_or])]
          refine (bind_of_settles sound fun value isFalse => ?_).symm
          change (if host.truthy value = true then right.evaluate else pure value) = _
          split at isFalse
          case isTrue truth =>
            rw [if_pos truth]
            exact eq_pure_of_settles isFalse
          case isFalse truth =>
            rw [if_neg truth, isFalse]
            rfl
        case isFalse notFalsy' =>
          rw [if_neg (by simp [notFalsy, notFalsy'])]
          split
          case isTrue equal =>
            rw [binaryOf_and]
            exact (bind_repeats (sound equal)).symm
          case isFalse => rfl

/-- A strict comparison of identical operands. -/
theorem thenPerform_identical (identical : Identical comparison left right)
    {operation : host.Val → host.Val → Action host.World host.Val host.Val} {answer : host.Val}
    (answered : ∀ value, ¬ comparison.isNan value → operation value value = pure answer) :
    thenPerform left.evaluate right.evaluate operation = pure answer := by
  funext machine
  obtain ⟨value, ranLeft, ranRight, notNan⟩ := identical machine
  rw [thenPerform, bind_of_run ranLeft, bind_of_run ranRight, answered value notNan]
  rfl

theorem strictNeq_self (notNan : ¬ comparison.isNan value) :
    host.binary .strictNeq value value = pure (host.constant (.bool false)) := by
  rw [comparison.strictNeq, comparison.strictEq_self value notNan]
  change (pure (host.constant (.bool (!host.truthy (host.constant (.bool true))))) :
    Action host.World host.Val host.Val) = _
  rw [comparison.branching.truthy_bool]
  rfl

/-- A rewritten binary operator does what the operator does. -/
theorem evaluate_simplifyBinary {op : BinaryOp} (sound : BinarySound comparison op left right) :
    (simplifyBinary op left right).evaluate =
      (binaryOf op left.evaluate right.evaluate : Exec host host.Val) := by
  cases op with
  | or => exact evaluate_simplifyOr comparison sound
  | and => exact evaluate_simplifyAnd comparison sound
  | strictEq =>
    rw [simplifyBinary]
    split
    case isTrue equal =>
      obtain ⟨simple, equal⟩ := Bool.and_eq_true_iff.mp equal
      exact (thenPerform_identical comparison (sound simple equal) fun value notNan =>
        comparison.strictEq_self value notNan).symm
    case isFalse => rfl
  | strictNeq =>
    rw [simplifyBinary]
    split
    case isTrue equal =>
      obtain ⟨simple, equal⟩ := Bool.and_eq_true_iff.mp equal
      exact (thenPerform_identical comparison (sound simple equal) fun value notNan =>
        strictNeq_self comparison notNan).symm
    case isFalse => rfl
  | add | sub | mul | div | mod | bitAnd | bitOr | bitXor | shl | shr | uShr | eq | neq | lt | le
  | gt | ge | isIn | instanceOf | nullishCoalesce | logicalAnd | logicalOr | exp => rfl

/-- A conditional whose arms are dropped. -/
theorem choiceOf_same {condition thenExpr elseExpr : Expression}
    (same : ∀ machine : Machine host, ∃ value,
      condition.evaluate machine = (.ok value, machine) ∧ (host.truthy value = false →
        (elseExpr.evaluate machine : Outcome (Exit host) host.Val × Machine host) =
          thenExpr.evaluate machine)) :
    thenExpr.evaluate =
      (choiceOf condition.evaluate thenExpr.evaluate elseExpr.evaluate : Exec host host.Val) := by
  funext machine
  obtain ⟨value, ran, equal⟩ := same machine
  rw [choiceOf, bind_of_run ran]
  split
  case isTrue => rfl
  case isFalse falsy => exact (equal (Bool.eq_false_iff.mpr falsy)).symm

/-- A rewritten conditional does what the conditional does. -/
theorem evaluate_simplifyConditional {condition thenExpr elseExpr : Expression}
    (sound : ConditionalSound comparison condition thenExpr elseExpr) :
    (simplifyConditional condition thenExpr elseExpr).evaluate =
      (choiceOf condition.evaluate thenExpr.evaluate elseExpr.evaluate : Exec host host.Val) := by
  have truthy_true := comparison.branching.truthy_bool true
  unfold ConditionalSound at sound
  unfold simplifyConditional
  by_cases truthy : isTruthy condition = true
  · rw [if_pos truthy]
    obtain rfl := isTruthy_eq_true truthy
    change _ = if host.truthy (host.constant (.bool true)) = true then _ else _
    rw [if_pos truthy_true]
  rw [if_neg truthy] at sound ⊢
  by_cases falsy : isFalsy condition = true
  · rw [if_pos falsy]
    obtain ⟨constant, rfl, isFalse⟩ := isFalsy_eq_true comparison falsy
    change _ = if host.truthy (host.constant constant) = true then _ else _
    rw [isFalse]
    rfl
  rw [if_neg falsy] at sound ⊢
  split at sound
  case isTrue equal =>
    rw [if_pos equal]
    exact choiceOf_same sound
  case isFalse different =>
    rw [if_neg different]
    split at sound
    case isTrue booleans =>
      rw [if_pos booleans]
      simp only [Bool.and_eq_true] at booleans
      obtain rfl := isTruthy_eq_true booleans.1.1
      refine (bind_pure _).symm.trans (bind_of_returns sound fun value held => ?_)
      split at held
      case isTrue truth =>
        rw [if_pos truth, held]
        rfl
      case isFalse truth =>
        rw [if_neg truth]
        exact (eq_pure_of_settles held).symm
    case isFalse notBooleans =>
      rw [if_neg notBooleans]
      split
      case isTrue booleans =>
        rw [if_pos booleans] at sound
        obtain rfl := isTruthy_eq_true (Bool.and_eq_true_iff.mp booleans).2
        rw [(negation_iff comparison condition).mpr sound.1]
        refine bind_of_returns sound.2 fun value held => ?_
        cases truth : host.truthy value
        · rfl
        · exact (eq_pure_of_settles (held truth)).symm
      case isFalse => rfl

end

end HermesDecomp.Ir.Logic
