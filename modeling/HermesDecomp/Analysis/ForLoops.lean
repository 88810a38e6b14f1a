import HermesDecomp.Ir.Execution

/-!
# Structures and their statements

The tree that structure recovery makes of a graph, and the statements it turns into. A loop with
one back edge has its update, the block the edge leaves, split off the end of its body. It
becomes a `for` loop when the update is one plain statement, and otherwise a `while` loop again,
the update put back behind the rest.
-/

namespace HermesDecomp.Ir

/-- A structure recovered from a graph. -/
inductive Structure where
  | block (id : BlockId) (statements : List Statement)
  | sequence (parts : List Structure)
  | ifElse (condition : Expression) (thenPart elsePart : Structure)
  | whileLoop (condition : Expression) (body : Structure)
  | doWhile (body : Structure) (condition : Expression)
  | forLoop (init : Structure) (condition : Expression) (update body : Structure)
  | switch (discriminant : Expression) (cases : List (Expression × Structure)) (default : Structure)
  | tryCatch (tryBody : Structure) (catchParam : Option String) (catchBody : Structure)
  | returnExit (value : Option Expression)
  | breakExit (jump : Option String)
  | continueExit (jump : Option String)
  | label (name : String) (body : Structure)

namespace Structure

/-- An update that may stand in the head of a `for` loop. -/
def canBeForUpdate : List Statement → Bool
  | [.assign ..] | [.expr _] => true
  | _ => false

/-- An initialisation that may stand in the head of a `for` loop. -/
def canBeForInit : List Statement → Bool
  | [] | [.letStmt ..] | [.assign ..] => true
  | _ => false

/-- The `for` loop of statements that fit in its head, or else a `while` loop. -/
def forStatements (init : List Statement) (condition : Expression)
    (update body : List Statement) : List Statement :=
  if canBeForUpdate update && canBeForInit init then
    [.forStmt init.head? (some condition) update.head? body]
  else init ++ [.whileStmt condition (body ++ update)]

mutual

/-- The statements of a structure. -/
def toStatements : Structure → List Statement
  | .block _ statements => statements
  | .sequence parts => toStatementsAll parts
  | .ifElse condition thenPart elsePart =>
      [.ifStmt condition thenPart.toStatements elsePart.toStatements]
  | .whileLoop condition body => [.whileStmt condition body.toStatements]
  | .doWhile body condition => [.doWhile body.toStatements condition]
  | .forLoop init condition update body =>
      forStatements init.toStatements condition update.toStatements body.toStatements
  | .switch discriminant cases default =>
      [.switch discriminant (toStatementsCases cases)
        (if default.toStatements.isEmpty then none else some default.toStatements)]
  | .tryCatch tryBody catchParam catchBody =>
      [.tryCatch tryBody.toStatements catchParam catchBody.toStatements []]
  | .returnExit value => [.returnStmt value]
  | .breakExit jump => [.breakStmt jump]
  | .continueExit jump => [.continueStmt jump]
  | .label name body => .comment (name ++ ":") :: body.toStatements

def toStatementsAll : List Structure → List Statement
  | [] => []
  | first :: rest => first.toStatements ++ toStatementsAll rest

def toStatementsCases : List (Expression × Structure) → List (Expression × List Statement)
  | [] => []
  | (test, body) :: rest => (test, body.toStatements) :: toStatementsCases rest

end

/-- Whether a structure is the block with a number. -/
def isBlock (id : BlockId) : Structure → Bool
  | .block other _ => other == id
  | _ => false

/-- The parts of a sequence that loses its last one. -/
def ofParts : List Structure → Structure
  | [part] => part
  | parts => .sequence parts

mutual

/-- Split the block of an update off the end of a body. -/
def splitUpdateFromBody (updateId : BlockId) : Structure → Option (Structure × Structure)
  | .sequence parts =>
      match splitLast updateId parts with
      | some (none, update) => some (ofParts parts.dropLast, update)
      | some (some newLast, update) => some (.sequence (parts.dropLast ++ [newLast]), update)
      | none => none
  | .block id statements =>
      if id == updateId then some (.block 0 [], .block id statements) else none
  | _ => none

/-- What the last of some parts leaves when it loses the update, if it leaves a part at all. -/
def splitLast (updateId : BlockId) : List Structure → Option (Option Structure × Structure)
  | [] => none
  | [last] =>
      if last.isBlock updateId then some (none, last)
      else
        match splitUpdateFromBody updateId last with
        | some (newLast, update) => some (some newLast, update)
        | none => none
  | _ :: second :: rest => splitLast updateId (second :: rest)

end

/-- The loop around a body, with the block of its update if it has a single back edge. -/
def makeLoop (labelName : String) (updateBlock : Option BlockId) (body : Structure)
    (condition : Expression) : Structure :=
  .label labelName
    (match updateBlock with
    | some updateId =>
        match splitUpdateFromBody updateId body with
        | some (newBody, update) => .forLoop (.block 0 []) condition update newBody
        | none => .whileLoop condition body
    | none => .whileLoop condition body)

theorem toStatementsAll_append : ∀ parts parts' : List Structure,
    toStatementsAll (parts ++ parts') = toStatementsAll parts ++ toStatementsAll parts'
  | [], _ => rfl
  | first :: rest, parts' => by
    rw [List.cons_append, toStatementsAll, toStatementsAll, toStatementsAll_append rest parts',
      List.append_assoc]

theorem toStatements_ofParts (parts : List Structure) :
    (ofParts parts).toStatements = toStatementsAll parts := by
  unfold ofParts
  split
  · exact (List.append_nil _).symm
  · rfl

mutual

/-- The rest of a body and its update are, one after the other, the body. -/
theorem toStatements_split (updateId : BlockId) : ∀ {body newBody update : Structure},
    splitUpdateFromBody updateId body = some (newBody, update) →
      body.toStatements = newBody.toStatements ++ update.toStatements
  | .sequence parts, newBody, update, found => by
    rw [splitUpdateFromBody] at found
    split at found
    case h_1 last splits =>
      obtain ⟨rfl, rfl⟩ := Prod.mk.inj (Option.some.inj found)
      have kept := toStatements_splitLast updateId splits
      rw [Option.toList_none, toStatementsAll, List.append_nil] at kept
      rw [toStatements_ofParts]
      exact kept
    case h_2 newLast last splits =>
      obtain ⟨rfl, rfl⟩ := Prod.mk.inj (Option.some.inj found)
      rw [toStatements, toStatements, toStatementsAll_append]
      exact toStatements_splitLast updateId splits
    case h_3 => cases found
  | .block id statements, newBody, update, found => by
    obtain ⟨_, split⟩ := Option.ite_none_right_eq_some.mp found
    obtain ⟨rfl, rfl⟩ := Prod.mk.inj (Option.some.inj split)
    rfl

theorem toStatements_splitLast (updateId : BlockId) : ∀ {parts : List Structure}
    {newLast : Option Structure} {update : Structure},
    splitLast updateId parts = some (newLast, update) →
      toStatementsAll parts = toStatementsAll parts.dropLast ++
        toStatementsAll newLast.toList ++ update.toStatements
  | [last], newLast, update, found => by
    have alone : toStatementsAll [last] = last.toStatements := List.append_nil _
    rw [splitLast] at found
    split at found
    case isTrue =>
      obtain ⟨rfl, rfl⟩ := Prod.mk.inj (Option.some.inj found)
      exact alone
    case isFalse =>
      split at found
      case h_1 splits =>
        obtain ⟨rfl, rfl⟩ := Prod.mk.inj (Option.some.inj found)
        rw [alone, toStatements_split updateId splits, Option.toList_some, List.dropLast_singleton,
          toStatementsAll, toStatementsAll, toStatementsAll, List.append_nil, List.nil_append]
      case h_2 => cases found
  | first :: second :: rest, newLast, update, found => by
    rw [splitLast] at found
    rw [toStatementsAll, toStatements_splitLast updateId found, List.dropLast_cons_cons,
      toStatementsAll, List.append_assoc, List.append_assoc, List.append_assoc]

end

end Structure

open Action

/-- An engine in which a block opens no scope, so that a run shows which statements are performed
and in which order. -/
def Host.unscoped (host : Host) : Host := { host with openScope := id, closeScope := id }

variable {host : Host}

/-- No run of some code ends with a `continue` of a loop. -/
def NeverContinues (label : Option String) (code : Exec host PUnit) : Prop :=
  ∀ machine jump final, code machine = (.err (.continues jump), final) → ¬ Names jump label

theorem catchContinue_of_never {label : Option String} {code : Exec host PUnit}
    (never : NeverContinues label code) : catchContinue label code = code := by
  funext machine
  have elsewhere := never machine
  rw [catchContinue, onExit]
  rcases ran : code machine with ⟨_ | exit | _, final⟩
  · rfl
  · cases exit with
    | continues jump => exact congrFun (if_neg (elsewhere jump final ran)) final
    | throws | returns | breaks | jumps => rfl
  · rfl

/-- The first part of code that never continues a loop does not either. -/
theorem NeverContinues.first {label : Option String} {code : Exec host PUnit}
    {next : PUnit → Exec host PUnit} (never : NeverContinues label (code >>= next)) :
    NeverContinues label code := by
  intro machine jump final ran
  refine never machine jump final ?_
  rw [bind_apply, ran]

/-- An update behind a body that never continues the loop may stand in the head of the loop. -/
theorem testFirst_update {label : Option String} (condition : Exec host.unscoped host.unscoped.Val)
    {body update : Exec host.unscoped PUnit}
    (never : NeverContinues label (body >>= fun _ => update)) :
    testFirst label condition body update =
      testFirst label condition (body >>= fun _ => update) (pure ⟨⟩) := by
  have onBody : catchContinue label (inScope body) = body := catchContinue_of_never never.first
  have onBoth : catchContinue label (inScope (body >>= fun _ => update)) =
      body >>= fun _ => update := catchContinue_of_never never
  refine congrArg (condition >>= ·) (funext fun value => ?_)
  rw [onBody, onBoth, bind_assoc]
  rfl

/-- The label for the next loop after some statements. -/
def labelBehind (pending : Option String) (statements : List Statement) : Option String :=
  statements.foldl Statement.labelAfter pending

theorem executeAll_concat (fuel : Nat) (last : Statement) : ∀ (statements : List Statement)
    (pending : Option String),
    (executeAll fuel pending (statements ++ [last]) : Exec host PUnit) =
      executeAll fuel pending statements >>= fun _ =>
        last.execute fuel (labelBehind pending statements)
  | [], pending => by
    rw [List.nil_append, executeAll, executeAll]
    exact bind_pure _
  | first :: rest, pending => by
    rw [List.cons_append, executeAll, executeAll, executeAll_concat fuel last rest, bind_assoc]
    rfl

namespace Structure

/-- An update that may stand in the head of a loop takes no label. -/
theorem canBeForUpdate_eq_true {update : List Statement} (fits : canBeForUpdate update = true) :
    ∃ statement : Statement, update = [statement] ∧ ∀ fuel label,
      (statement.execute fuel label : Exec host PUnit) = statement.execute fuel none := by
  unfold canBeForUpdate at fits
  split at fits
  · exact ⟨_, rfl, fun _ _ => rfl⟩
  · exact ⟨_, rfl, fun _ _ => rfl⟩
  · cases fits

/-- A `for` loop performs what the `while` loop with the update in its body performs. -/
theorem execute_forStatements (fuel : Nat) (pending : Option String) (condition : Expression)
    {update body : List Statement}
    (never : canBeForUpdate update = true →
      NeverContinues pending (executeAll fuel none (body ++ update) : Exec host.unscoped PUnit)) :
    (executeAll fuel pending (forStatements [] condition update body) : Exec host.unscoped PUnit) =
      executeAll fuel pending [.whileStmt condition (body ++ update)] := by
  unfold forStatements
  split
  case isTrue fits =>
    have plain : canBeForUpdate update = true := (Bool.and_eq_true_iff.mp fits).1
    obtain ⟨statement, rfl, unlabelled⟩ := @canBeForUpdate_eq_true host.unscoped _ plain
    have whole := never plain
    rw [executeAll_concat, unlabelled] at whole
    have iterations := testFirst_update condition.evaluate whole
    rw [executeAll, executeAll, executeAll, executeAll, Statement.execute, Statement.execute,
      executeAll_concat, unlabelled, ← iterations]
    rfl
  case isFalse => rfl

/-- A loop around a body turns into a `for` loop. -/
def BecomesFor (updateBlock : Option BlockId) (body : Structure) : Prop :=
  ∃ updateId newBody update, updateBlock = some updateId ∧
    splitUpdateFromBody updateId body = some (newBody, update) ∧
    canBeForUpdate update.toStatements = true

/-- The label that a loop behind the comment of a name takes. -/
def labelOf (pending : Option String) (labelName : String) : Option String :=
  (Statement.comment (labelName ++ ":")).labelAfter pending

theorem executeAll_label (fuel : Nat) (pending : Option String) (labelName : String)
    (loop : Structure) :
    (executeAll fuel pending (label labelName loop).toStatements : Exec host PUnit) =
      executeAll fuel (labelOf pending labelName) loop.toStatements := rfl

/-- The loop that is made of a body performs what a `while` loop around the whole body performs,
its update as often and at the same points, unless it turns into a `for` loop and a run of the
body continues it. -/
theorem makeLoop_performs (fuel : Nat) (pending : Option String) (labelName : String)
    (updateBlock : Option BlockId) (body : Structure) (condition : Expression)
    (never : BecomesFor updateBlock body →
      NeverContinues (labelOf pending labelName)
        (executeAll fuel none body.toStatements : Exec host.unscoped PUnit)) :
    (executeAll fuel pending (makeLoop labelName updateBlock body condition).toStatements :
        Exec host.unscoped PUnit) =
      executeAll fuel pending (label labelName (.whileLoop condition body)).toStatements := by
  unfold makeLoop
  split
  case h_1 updateId =>
    split
    case h_1 newBody update splits =>
      have whole := toStatements_split updateId splits
      rw [whole] at never
      have performed := execute_forStatements fuel (labelOf pending labelName) condition fun fits =>
        never ⟨updateId, newBody, update, rfl, splits, fits⟩
      rw [executeAll_label, executeAll_label, toStatements, toStatements, whole]
      exact performed
    case h_2 => rfl
  case h_2 => rfl

/-- A body that counts one register up, continues for one of its values, and else counts
another one up. -/
def skipping : Structure :=
  .sequence
    [.block 1 [.assign (.binding (.register 0))
      (.binary .add (.register 0) (.value (.constant (.integer 1))))],
    .ifElse (.binary .strictEq (.register 0) (.value (.constant (.integer 2))))
      (.continueExit none) (.block 0 []),
    .block 7 [.assign (.binding (.register 1))
      (.binary .add (.register 1) (.value (.constant (.integer 1))))]]

/-- A body that ends its loop. -/
def settling : Structure :=
  .block 7 [.assign (.binding (.register 0)) (.value (.constant (.bool true)))]

theorem settling_never : NeverContinues (labelOf none "label0")
    (executeAll 3 none settling.toStatements : Exec Tracing.host.unscoped PUnit) := by
  intro machine jump final ran
  cases ran

theorem settling_performs :
    (executeAll 3 none
        (makeLoop "label0" (some 7) settling (.unary .not (.register 0))).toStatements :
        Exec Tracing.host.unscoped PUnit) =
      executeAll 3 none
        (label "label0" (.whileLoop (.unary .not (.register 0)) settling)).toStatements :=
  makeLoop_performs 3 none "label0" (some 7) settling _ fun _ => settling_never

/-- The value of the second register after a loop around the body, from registers that hold
zero. -/
def counted (statements : List Statement) : Option Constant :=
  (((executeAll 4 none statements : Exec Tracing.host.unscoped PUnit)
    ⟨fun _ => some ⟨.integer 0, .other ⟨0, 0⟩⟩, Tracing.blank, .other ⟨0, 0⟩⟩).2.registers 1).map
      Cell.value

/-- The `continue` of the body reaches the update in the head of the `for` loop. -/
theorem makeLoop_repeats :
    ¬ (∀ (host : Host) (fuel : Nat) (pending : Option String) (labelName : String)
      (updateBlock : Option BlockId) (body : Structure) (condition : Expression),
      (executeAll fuel pending (makeLoop labelName updateBlock body condition).toStatements :
          Exec host.unscoped PUnit) =
        executeAll fuel pending (label labelName (.whileLoop condition body)).toStatements) := by
  intro all
  have kept := all Tracing.host 4 none "label0" (some 7) skipping
    (.binary .lt (.register 0) (.value (.constant (.integer 3))))
  have original : counted (label "label0" (.whileLoop
      (.binary .lt (.register 0) (.value (.constant (.integer 3)))) skipping)).toStatements =
      some (.integer 2) := by decide +kernel
  have recovered : counted (makeLoop "label0" (some 7) skipping
      (.binary .lt (.register 0) (.value (.constant (.integer 3))))).toStatements =
      some (.integer 3) := by decide +kernel
  unfold counted at original recovered
  rw [kept, original] at recovered
  cases recovered

end Structure

end HermesDecomp.Ir
