import HermesDecomp.Ir.Execution

/-!
# Passes over lists and their nested bodies

A pass over one list is applied to every body inside the statements of a list, from the inside
out. Where it keeps what each of these lists does, the whole list keeps what it does. A pass that
merges a statement with the one behind it, as long as they merge, is right when every merge is.
-/

namespace HermesDecomp.Ir

section

variable (pass : List Statement → List Statement)

mutual

/-- Apply a pass to the bodies of a statement. -/
def Statement.mapNestedBodies : Statement → Statement
  | .ifStmt condition thenBody elseBody =>
      .ifStmt condition (pass (mapNestedAll thenBody)) (pass (mapNestedAll elseBody))
  | .whileStmt condition body => .whileStmt condition (pass (mapNestedAll body))
  | .doWhile body condition => .doWhile (pass (mapNestedAll body)) condition
  | .forStmt init condition update body => .forStmt init condition update (pass (mapNestedAll body))
  | .forIn name object body => .forIn name object (pass (mapNestedAll body))
  | .forOf name iterable body => .forOf name iterable (pass (mapNestedAll body))
  | .block body => .block (pass (mapNestedAll body))
  | .tryCatch tryBody catchParam catchBody finallyBody =>
      .tryCatch (pass (mapNestedAll tryBody)) catchParam (pass (mapNestedAll catchBody))
        (pass (mapNestedAll finallyBody))
  | .switch discriminant cases default =>
      .switch discriminant (mapNestedCases cases) (mapNestedDefault default)
  | statement => statement

def mapNestedAll : List Statement → List Statement
  | [] => []
  | first :: rest => first.mapNestedBodies :: mapNestedAll rest

def mapNestedCases : List (Expression × List Statement) → List (Expression × List Statement)
  | [] => []
  | (test, body) :: rest => (test, pass (mapNestedAll body)) :: mapNestedCases rest

def mapNestedDefault : Option (List Statement) → Option (List Statement)
  | none => none
  | some body => some (pass (mapNestedAll body))

end

variable (sound : List Statement → Prop)

mutual

/-- A property of every list inside a statement that the pass is applied to. -/
def Statement.BodiesSound : Statement → Prop
  | .ifStmt _ thenBody elseBody =>
      (AllBodiesSound thenBody ∧ sound (mapNestedAll pass thenBody)) ∧
        AllBodiesSound elseBody ∧ sound (mapNestedAll pass elseBody)
  | .whileStmt _ body => AllBodiesSound body ∧ sound (mapNestedAll pass body)
  | .doWhile body _ => AllBodiesSound body ∧ sound (mapNestedAll pass body)
  | .forStmt _ _ _ body => AllBodiesSound body ∧ sound (mapNestedAll pass body)
  | .forIn _ _ body => AllBodiesSound body ∧ sound (mapNestedAll pass body)
  | .forOf _ _ body => AllBodiesSound body ∧ sound (mapNestedAll pass body)
  | .block body => AllBodiesSound body ∧ sound (mapNestedAll pass body)
  | .tryCatch tryBody _ catchBody finallyBody =>
      (AllBodiesSound tryBody ∧ sound (mapNestedAll pass tryBody)) ∧
        (AllBodiesSound catchBody ∧ sound (mapNestedAll pass catchBody)) ∧
          AllBodiesSound finallyBody ∧ sound (mapNestedAll pass finallyBody)
  | .switch _ cases default => CasesBodiesSound cases ∧ DefaultBodiesSound default
  | _ => True

def AllBodiesSound : List Statement → Prop
  | [] => True
  | first :: rest => first.BodiesSound ∧ AllBodiesSound rest

def CasesBodiesSound : List (Expression × List Statement) → Prop
  | [] => True
  | (_, body) :: rest =>
      (AllBodiesSound body ∧ sound (mapNestedAll pass body)) ∧ CasesBodiesSound rest

def DefaultBodiesSound : Option (List Statement) → Prop
  | none => True
  | some body => AllBodiesSound body ∧ sound (mapNestedAll pass body)

end

/-- A property of every list the pass is applied to, the outermost one among them. -/
def PassSound (statements : List Statement) : Prop :=
  AllBodiesSound pass sound statements ∧ sound (mapNestedAll pass statements)

end

/-- A pass keeps what sound lists do, and makes no list empty. -/
structure KeepsLists (host : Host) (fuel : Nat) (pass : List Statement → List Statement)
    (sound : List Statement → Prop) : Prop where
  execute : ∀ pending {statements}, sound statements →
    (executeAll fuel pending (pass statements) : Exec host PUnit) = executeAll fuel pending statements
  isEmpty : ∀ statements, (pass statements).isEmpty = statements.isEmpty

theorem Statement.labelAfter_mapNestedBodies (pass : List Statement → List Statement)
    (pending : Option String) (statement : Statement) :
    (statement.mapNestedBodies pass).labelAfter pending = statement.labelAfter pending := by
  cases statement <;> rfl

section

variable {host : Host} {fuel : Nat} {pass : List Statement → List Statement}
  {sound : List Statement → Prop}

theorem KeepsLists.nested (keeps : KeepsLists host fuel pass sound) {pending : Option String}
    {body : List Statement}
    (inner : (executeAll fuel pending (mapNestedAll pass body) : Exec host PUnit) =
      executeAll fuel pending body) (isSound : sound (mapNestedAll pass body)) :
    (executeAll fuel pending (pass (mapNestedAll pass body)) : Exec host PUnit) =
      executeAll fuel pending body :=
  (keeps.execute pending isSound).trans inner

theorem KeepsLists.isEmpty_nested (keeps : KeepsLists host fuel pass sound)
    (body : List Statement) : (pass (mapNestedAll pass body)).isEmpty = body.isEmpty := by
  rw [keeps.isEmpty]
  cases body <;> rfl

mutual

/-- A statement with sound bodies keeps what it does. -/
theorem KeepsLists.execute_mapNestedBodies (keeps : KeepsLists host fuel pass sound) :
    ∀ {statement : Statement} (label : Option String), statement.BodiesSound pass sound →
      ((statement.mapNestedBodies pass).execute fuel label : Exec host PUnit) =
        statement.execute fuel label
  | .ifStmt condition thenBody elseBody, label, ⟨⟨thenAll, onThen⟩, elseAll, onElse⟩ => by
    simp [Statement.mapNestedBodies, Statement.execute,
      keeps.nested (keeps.executeAll_mapNestedAll none thenAll) onThen,
      keeps.nested (keeps.executeAll_mapNestedAll none elseAll) onElse]
  | .whileStmt condition body, label, ⟨bodyAll, onBody⟩
  | .doWhile body condition, label, ⟨bodyAll, onBody⟩
  | .forStmt init condition update body, label, ⟨bodyAll, onBody⟩
  | .forIn name object body, label, ⟨bodyAll, onBody⟩
  | .forOf name iterable body, label, ⟨bodyAll, onBody⟩
  | .block body, label, ⟨bodyAll, onBody⟩ => by
    simp [Statement.mapNestedBodies, Statement.execute,
      keeps.nested (keeps.executeAll_mapNestedAll none bodyAll) onBody]
  | .tryCatch tryBody catchParam catchBody finallyBody, label,
      ⟨⟨tryAll, onTry⟩, ⟨catchAll, onCatch⟩, finallyAll, onFinally⟩ => by
    simp [Statement.mapNestedBodies, Statement.execute, keeps.isEmpty_nested,
      keeps.nested (keeps.executeAll_mapNestedAll none tryAll) onTry,
      keeps.nested (keeps.executeAll_mapNestedAll none catchAll) onCatch,
      keeps.nested (keeps.executeAll_mapNestedAll none finallyAll) onFinally]
  | .switch discriminant cases default, label, ⟨onCases, onDefault⟩ => by
    simp [Statement.mapNestedBodies, Statement.execute,
      keeps.executeDefault_mapNestedDefault onDefault,
      keeps.executeCases_mapNestedCases _ _ onCases]
  | .expr _, _, _ | .letStmt .., _, _ | .assign .., _, _ | .delete .., _, _ | .returnStmt _, _, _
  | .throwStmt _, _, _ | .debugger, _, _ | .comment _, _, _ | .breakStmt _, _, _
  | .continueStmt _, _, _ | .goto _, _, _ | .condGoto .., _, _ | .classStmt .., _, _ => rfl

theorem KeepsLists.executeAll_mapNestedAll (keeps : KeepsLists host fuel pass sound) :
    ∀ {statements : List Statement} (pending : Option String),
      AllBodiesSound pass sound statements →
        (executeAll fuel pending (mapNestedAll pass statements) : Exec host PUnit) =
          executeAll fuel pending statements
  | [], _, _ => rfl
  | first :: rest, pending, ⟨onFirst, onRest⟩ => by
    rw [mapNestedAll, executeAll, keeps.execute_mapNestedBodies pending onFirst,
      Statement.labelAfter_mapNestedBodies, keeps.executeAll_mapNestedAll _ onRest, executeAll]

theorem KeepsLists.executeCases_mapNestedCases (keeps : KeepsLists host fuel pass sound)
    (value : host.Val) (otherwise : Exec host PUnit) :
    ∀ {cases : List (Expression × List Statement)}, CasesBodiesSound pass sound cases →
      executeCases fuel value otherwise (mapNestedCases pass cases) =
        executeCases fuel value otherwise cases
  | [], _ => rfl
  | (test, body) :: rest, ⟨⟨bodyAll, onBody⟩, onRest⟩ => by
    simp [mapNestedCases, executeCases,
      keeps.nested (keeps.executeAll_mapNestedAll none bodyAll) onBody,
      keeps.executeCases_mapNestedCases value otherwise onRest]

theorem KeepsLists.executeDefault_mapNestedDefault (keeps : KeepsLists host fuel pass sound) :
    ∀ {default : Option (List Statement)}, DefaultBodiesSound pass sound default →
      (executeDefault fuel (mapNestedDefault pass default) : Exec host PUnit) =
        executeDefault fuel default
  | none, _ => rfl
  | some _, ⟨bodyAll, onBody⟩ => keeps.nested (keeps.executeAll_mapNestedAll none bodyAll) onBody

end

/-- The pass keeps what a list does when all lists it sees are sound. -/
theorem KeepsLists.executeAll_pass (keeps : KeepsLists host fuel pass sound)
    (pending : Option String) {statements : List Statement} (isSound : PassSound pass sound statements) :
    (executeAll fuel pending (pass (mapNestedAll pass statements)) : Exec host PUnit) =
      executeAll fuel pending statements :=
  keeps.nested (keeps.executeAll_mapNestedAll pending isSound.1) isSound.2

end

section

variable (merge : Statement → Statement → Option Statement)

/-- Merge a statement with those behind it, as long as they merge, and go on. -/
def mergeFrom (first : Statement) : List Statement → List Statement
  | [] => [first]
  | next :: rest =>
      match merge first next with
      | some merged => mergeFrom merged rest
      | none => first :: mergeFrom next rest

/-- Merge the neighbours of a list. -/
def mergeRuns : List Statement → List Statement
  | [] => []
  | first :: rest => mergeFrom merge first rest

variable (sound : Statement → Statement → Prop)

/-- A property of every pair that is merged. -/
def MergesSound (first : Statement) : List Statement → Prop
  | [] => True
  | next :: rest =>
      match merge first next with
      | some merged => sound first next ∧ MergesSound merged rest
      | none => MergesSound next rest

def RunsSound : List Statement → Prop
  | [] => True
  | first :: rest => MergesSound merge sound first rest

end

/-- A merged statement does what the pair does, when the pair is sound, and leaves the label as
the pair does. -/
structure KeepsPairs (host : Host) (fuel : Nat) (merge : Statement → Statement → Option Statement)
    (sound : Statement → Statement → Prop) : Prop where
  execute : ∀ {first next merged} pending, merge first next = some merged → sound first next →
    (merged.execute fuel pending : Exec host PUnit) =
      first.execute fuel pending >>= fun _ => next.execute fuel (first.labelAfter pending)
  label : ∀ {first next merged} pending, merge first next = some merged →
    merged.labelAfter pending = next.labelAfter (first.labelAfter pending)

section

variable {host : Host} {fuel : Nat} {merge : Statement → Statement → Option Statement}
  {sound : Statement → Statement → Prop}

theorem KeepsPairs.executeAll_mergeFrom (keeps : KeepsPairs host fuel merge sound)
    (rest : List Statement) :
    ∀ {first : Statement} (pending : Option String), MergesSound merge sound first rest →
      (executeAll fuel pending (mergeFrom merge first rest) : Exec host PUnit) =
        executeAll fuel pending (first :: rest) := by
  induction rest with
  | nil => intro first pending _; rfl
  | cons next rest hypothesis =>
    intro first pending isSound
    rw [mergeFrom]
    rw [MergesSound] at isSound
    cases found : merge first next with
    | some merged =>
      rw [found] at isSound
      dsimp only
      rw [hypothesis pending isSound.2, executeAll, keeps.execute pending found isSound.1,
        keeps.label pending found, executeAll, executeAll, bind_assoc]
    | none =>
      rw [found] at isSound
      dsimp only
      rw [executeAll, hypothesis _ isSound]
      rfl

/-- Merging neighbours keeps what a list does when every merge is sound. -/
theorem KeepsPairs.keepsLists (keeps : KeepsPairs host fuel merge sound) :
    KeepsLists host fuel (mergeRuns merge) (RunsSound merge sound) where
  execute pending statements isSound := by
    cases statements with
    | nil => rfl
    | cons first rest => exact keeps.executeAll_mergeFrom rest pending isSound
  isEmpty statements := by
    cases statements with
    | nil => rfl
    | cons first rest =>
      have inhabited : ∀ first, (mergeFrom merge first rest).isEmpty = false := by
        induction rest with
        | nil => intro first; rfl
        | cons next rest hypothesis =>
          intro first
          rw [mergeFrom]
          split
          · exact hypothesis _
          · rfl
      exact inhabited first

end

end HermesDecomp.Ir
