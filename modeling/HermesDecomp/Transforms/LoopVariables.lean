import HermesDecomp.Library.JsText
import HermesDecomp.Library.WholeWords

/-!
# Renamed loop variables

A for-of, a for-in and a catch clause whose variable is a bare register is printed with a fixed
name in its place: the body is printed first, and the register is then replaced in its text as a
whole word. A body is given here by what its printing consists of: names of variables, other text,
and the statements that rename. The body comes out with exactly its references renamed when the
register stands alone nowhere else in the text, and the fixed name is free when no variable of the
body and none of an enclosing statement is printed with it.
-/

namespace HermesDecomp.Codegen.LoopVariables

open JsText WholeWords List

/-- An identifier character, as the whole-word replacement tests the byte beside a word. -/
def isIdentByte (c : Char) : Bool := c.isAlphanum || c == '_' || c == '$'

/-- A register's name: the letter and nothing but digits. -/
def isBareRegister : Text → Bool
  | 'r' :: digits => digits.all Char.isDigit
  | _ => false

/-- The name a loop variable is printed with. -/
def sanitizeLoopVar (name fallback : Text) : Text := if isBareRegister name then fallback else name

/-- A piece of printed text: the name of a variable, or text that names none. -/
inductive Piece where
  | inert (text : Text)
  | ref (name : Text)
deriving DecidableEq, Repr

def Piece.text : Piece → Text
  | inert text => text
  | ref name => name

/-- The text that pieces make. -/
def textOf (pieces : List Piece) : Text := pieces.flatMap Piece.text

inductive LoopKind where
  | forOf
  | forIn
deriving DecidableEq, Repr

def LoopKind.fallback : LoopKind → Text
  | forOf => "item".toList
  | forIn => "key".toList

def LoopKind.keyword : LoopKind → Text
  | forOf => " of ".toList
  | forIn => " in ".toList

/-- What a body prints: text of statements that rename nothing, the declarations of the body
itself, with what stands for each when its name is declared already, and the statements that
rename. -/
inductive Code where
  | plain (pieces : List Piece)
  | letStmt (name : Text) (declared : List Piece) (assigned : Option (List Piece))
  | loop (kind : LoopKind) (indent name : Text) (iterated : List Piece) (body : List Code)
  | tryCatch (indent : Text) (tryBody : List Code) (catchParam : Option Text)
      (catchBody finallyBody : List Code)

/-- The variable of a catch clause. -/
def catchName (catchParam : Option Text) : Text := catchParam.getD "e".toList

/-- The name a catch clause is printed with. -/
def catchPrinted (catchParam : Option Text) : Text :=
  sanitizeLoopVar (catchName catchParam) "err".toList

/-- The printed body of a statement whose variable may have been renamed. -/
def renameBody (name printed body : Text) : Text :=
  if printed ≠ name then replaceWholeWord isIdentByte name printed body else body

mutual

/-- The text of a statement. In the body of a catch clause, what declares the parameter again is
printed undeclared. -/
def generate (undeclared : Option Text) : Code → Text
  | .plain pieces => textOf pieces
  | .letStmt name declared assigned =>
      if undeclared = some name then textOf (assigned.getD []) else textOf declared
  | .loop kind indent name iterated body =>
      let printed := sanitizeLoopVar name kind.fallback
      indent ++ "for (const ".toList ++ printed ++ kind.keyword ++ textOf iterated ++
        ") \x7b\n".toList ++ renameBody name printed (generateAll none body) ++
        indent ++ "\x7d\n".toList
  | .tryCatch indent tryBody catchParam catchBody finallyBody =>
      indent ++ "try \x7b\n".toList ++ generateAll none tryBody ++
        (if !catchBody.isEmpty || catchParam.isSome then
          indent ++ "\x7d catch (".toList ++ catchPrinted catchParam ++ ") \x7b\n".toList ++
            renameBody (catchName catchParam) (catchPrinted catchParam)
              (generateAll (some (catchName catchParam)) catchBody)
        else []) ++
        (if !finallyBody.isEmpty then
          indent ++ "\x7d finally \x7b\n".toList ++ generateAll none finallyBody
        else []) ++
        indent ++ "\x7d\n".toList

/-- The text of a body. -/
def generateAll (undeclared : Option Text) : List Code → Text
  | [] => []
  | code :: rest => generate undeclared code ++ generateAll undeclared rest

end

/-- The pieces with the references to a variable renamed. -/
def renamePieces (name printed : Text) (pieces : List Piece) : List Piece :=
  pieces.map fun piece => if piece = .ref name then .ref printed else piece

mutual

/-- The pieces of a statement whose variables are renamed reference by reference. -/
def pieces (undeclared : Option Text) : Code → List Piece
  | .plain pieces => pieces
  | .letStmt name declared assigned => if undeclared = some name then assigned.getD [] else declared
  | .loop kind indent name iterated body =>
      let printed := sanitizeLoopVar name kind.fallback
      .inert (indent ++ "for (const ".toList) :: .ref printed :: .inert kind.keyword ::
        (iterated ++ .inert ") \x7b\n".toList :: (renamePieces name printed (piecesAll none body) ++
          [.inert (indent ++ "\x7d\n".toList)]))
  | .tryCatch indent tryBody catchParam catchBody finallyBody =>
      .inert (indent ++ "try \x7b\n".toList) :: (piecesAll none tryBody ++
        ((if !catchBody.isEmpty || catchParam.isSome then
          .inert (indent ++ "\x7d catch (".toList) :: .ref (catchPrinted catchParam) ::
            .inert ") \x7b\n".toList ::
              renamePieces (catchName catchParam) (catchPrinted catchParam)
                (piecesAll (some (catchName catchParam)) catchBody)
        else []) ++
        ((if !finallyBody.isEmpty then
          .inert (indent ++ "\x7d finally \x7b\n".toList) :: piecesAll none finallyBody
        else []) ++
        [.inert (indent ++ "\x7d\n".toList)])))

/-- The pieces of a body. -/
def piecesAll (undeclared : Option Text) : List Code → List Piece
  | [] => []
  | code :: rest => pieces undeclared code ++ piecesAll undeclared rest

end

/-- A statement that renames its variable. -/
structure Binder where
  /-- The names the enclosing statements are printed with. -/
  enclosing : List Text
  name : Text
  fallback : Text
  undeclared : Option Text
  body : List Code

/-- The statement, when its variable is a bare register. -/
def renamings (enclosing : List Text) (name fallback : Text) (undeclared : Option Text)
    (body : List Code) : List Binder :=
  if isBareRegister name then [⟨enclosing, name, fallback, undeclared, body⟩] else []

mutual

/-- The statements in a statement that rename their variables. -/
def binders (enclosing : List Text) : Code → List Binder
  | .plain _ | .letStmt .. => []
  | .loop kind _ name _ body =>
      bindersAll (sanitizeLoopVar name kind.fallback :: enclosing) body ++
        renamings enclosing name kind.fallback none body
  | .tryCatch _ tryBody catchParam catchBody finallyBody =>
      bindersAll enclosing tryBody ++
        ((bindersAll (catchPrinted catchParam :: enclosing) catchBody ++
          renamings enclosing (catchName catchParam) "err".toList (some (catchName catchParam))
            catchBody) ++
        bindersAll enclosing finallyBody)

/-- The statements in a body that rename their variables. -/
def bindersAll (enclosing : List Text) : List Code → List Binder
  | [] => []
  | code :: rest => binders enclosing code ++ bindersAll enclosing rest

end

namespace Binder

variable (binder : Binder)

/-- The pieces of the body before its variable is renamed. -/
def pieces : List Piece := piecesAll binder.undeclared binder.body

/-- The printed body. -/
def printed : Text :=
  renameBody binder.name (sanitizeLoopVar binder.name binder.fallback)
    (generateAll binder.undeclared binder.body)

/-- Exactly the references are renamed, to a name no other variable is printed with. -/
structure Alpha : Prop where
  text : binder.printed = textOf (renamePieces binder.name binder.fallback binder.pieces)
  unused : .ref binder.fallback ∉ binder.pieces
  apart : binder.fallback ∉ binder.enclosing

end Binder

/-- Every reference to a variable has no identifier character beside it. -/
def spaced (name lead : Text) : List Piece → Bool
  | [] => true
  | .inert text :: rest => spaced name (lead ++ text) rest
  | .ref other :: rest =>
      (decide (other ≠ name) || leftOk isIdentByte lead && rightOk isIdentByte (textOf rest)) &&
      spaced name (lead ++ other) rest

/-- The text in front of the first reference to a variable, and behind each. -/
def segments (name : Text) : List Piece → Text × List Text
  | [] => ([], [])
  | piece :: rest =>
      if piece = .ref name then ([], (segments name rest).1 :: (segments name rest).2)
      else (piece.text ++ (segments name rest).1, (segments name rest).2)

/-- The references to a variable stand between the segments. -/
theorem textOf_renamePieces (name printed : Text) : ∀ pieces,
    textOf (renamePieces name printed pieces) =
      interleave printed (segments name pieces).1 (segments name pieces).2
  | [] => rfl
  | piece :: rest => by
    have later := textOf_renamePieces name printed rest
    rw [textOf, renamePieces] at later ⊢
    rw [map_cons, flatMap_cons, later, segments]
    by_cases same : piece = .ref name
    · rw [if_pos same, if_pos same]
      rfl
    · rw [if_neg same, if_neg same]
      cases (segments name rest).2 with
      | nil => rfl
      | cons next others => exact (append_assoc ..).symm

theorem renamePieces_self (name : Text) (pieces : List Piece) :
    renamePieces name name pieces = pieces := by
  have same : (fun piece : Piece => if piece = .ref name then .ref name else piece) = id := by
    funext piece
    split_ifs with here
    · exact here.symm
    · rfl
  rw [renamePieces, same, map_id]

theorem textOf_eq_interleave (name : Text) (pieces : List Piece) :
    textOf pieces = interleave name (segments name pieces).1 (segments name pieces).2 := by
  rw [← textOf_renamePieces, renamePieces_self]

theorem bounded_of_spaced (name : Text) : ∀ (pieces : List Piece) (lead : Text),
    spaced name lead pieces = true →
      Bounded isIdentByte name (lead ++ (segments name pieces).1) (segments name pieces).2
  | [], _, _ => trivial
  | .inert text :: rest, lead, apart => by
    have later := bounded_of_spaced name rest (lead ++ text) apart
    rw [segments]
    simpa [Piece.text] using later
  | .ref other :: rest, lead, apart => by
    rw [spaced, Bool.and_eq_true] at apart
    have later := bounded_of_spaced name rest (lead ++ other) apart.2
    rw [segments]
    by_cases same : other = name
    · obtain ⟨left, right⟩ : leftOk isIdentByte lead = true ∧
          rightOk isIdentByte (textOf rest) = true := by
        simpa [same] using apart.1
      rw [if_pos (congrArg Piece.ref same), append_nil]
      exact ⟨left, textOf_eq_interleave name rest ▸ right, later.of_append⟩
    · simpa [Piece.text, same] using later

theorem isBareRegister_iff {name : Text} :
    isBareRegister name = true ↔
      ∃ digits, name = 'r' :: digits ∧ digits.all Char.isDigit = true := by
  constructor
  · intro bare
    unfold isBareRegister at bare
    split at bare
    case h_1 digits => exact ⟨digits, rfl, bare⟩
    case h_2 => cases bare
  · rintro ⟨digits, rfl, all⟩
    exact all

theorem solid_of_isBareRegister {name : Text} (bare : isBareRegister name = true) :
    Solid isIdentByte name := by
  obtain ⟨digits, rfl, all⟩ := isBareRegister_iff.mp bare
  rw [all_eq_true] at all
  refine ⟨cons_ne_nil _ _, ?_, ?_⟩
  · rw [forall_mem_cons]
    refine ⟨rfl, fun digit inside => ?_⟩
    simp [isIdentByte, Char.isAlphanum, all digit inside]
  · rintro first rest same inside
    cases same
    exact absurd (all 'r' inside) (by decide)

theorem sanitizeLoopVar_of_bare {name : Text} (bare : isBareRegister name = true)
    (fallback : Text) : sanitizeLoopVar name fallback = fallback := if_pos bare

theorem sanitizeLoopVar_of_not_bare {name : Text} (other : ¬ isBareRegister name = true)
    (fallback : Text) : sanitizeLoopVar name fallback = name := if_neg other

theorem LoopKind.fallback_not_bare (kind : LoopKind) : isBareRegister kind.fallback = false := by
  cases kind <;> decide

mutual

/-- A variable is printed with a name: it is called so, or it is renamed to it. -/
def Uses (printed : Text) (undeclared : Option Text) : Code → Prop
  | .plain pieces => .ref printed ∈ pieces
  | .letStmt name declared assigned =>
      .ref printed ∈ if undeclared = some name then assigned.getD [] else declared
  | .loop kind _ name iterated body =>
      sanitizeLoopVar name kind.fallback = printed ∨ .ref printed ∈ iterated ∨
        UsesAll printed none body
  | .tryCatch _ tryBody catchParam catchBody finallyBody =>
      UsesAll printed none tryBody ∨
        (((!catchBody.isEmpty || catchParam.isSome) = true ∧
          (catchPrinted catchParam = printed ∨
            UsesAll printed (some (catchName catchParam)) catchBody)) ∨
        UsesAll printed none finallyBody)

def UsesAll (printed : Text) (undeclared : Option Text) : List Code → Prop
  | [] => False
  | code :: rest => Uses printed undeclared code ∨ UsesAll printed undeclared rest

end

/-- Renaming a register takes no other name away. -/
theorem mem_renamePieces {printed name fallback : Text} (notBare : isBareRegister printed = false)
    (pieces : List Piece) :
    .ref (sanitizeLoopVar name fallback) = Piece.ref printed ∨
        .ref printed ∈ renamePieces name (sanitizeLoopVar name fallback) pieces ↔
      sanitizeLoopVar name fallback = printed ∨ .ref printed ∈ pieces := by
  by_cases bare : isBareRegister name = true
  · have other : printed ≠ name := by
      rintro rfl
      rw [bare] at notBare
      cases notBare
    rw [sanitizeLoopVar_of_bare bare, Piece.ref.injEq]
    refine or_congr_right' fun free => ?_
    rw [renamePieces, mem_map]
    constructor
    · rintro ⟨piece, inside, same⟩
      split_ifs at same with here
      · exact absurd (Piece.ref.inj same) free
      · exact same ▸ inside
    · intro inside
      exact ⟨_, inside, if_neg fun same => other (Piece.ref.inj same)⟩
  · rw [sanitizeLoopVar_of_not_bare bare, renamePieces_self, Piece.ref.injEq]

mutual

theorem mem_pieces {printed : Text} (notBare : isBareRegister printed = false)
    (undeclared : Option Text) : ∀ code,
      .ref printed ∈ pieces undeclared code ↔ Uses printed undeclared code
  | .plain .. | .letStmt .. => Iff.rfl
  | .loop kind indent name iterated body => by
    have inner := mem_piecesAll notBare none body
    have renamed := @mem_renamePieces printed name kind.fallback notBare (piecesAll none body)
    rw [Uses, ← inner, pieces]
    simp only [mem_cons, mem_append, reduceCtorEq, false_or, not_mem_nil, or_false]
    rw [or_left_comm, eq_comm, renamed]
    tauto
  | .tryCatch indent tryBody catchParam catchBody finallyBody => by
    have first := mem_piecesAll notBare none tryBody
    have inner := mem_piecesAll notBare (some (catchName catchParam)) catchBody
    have last := mem_piecesAll notBare none finallyBody
    have renamed := @mem_renamePieces printed (catchName catchParam) "err".toList notBare
      (piecesAll (some (catchName catchParam)) catchBody)
    have finals : Piece.ref printed ∈ (if !finallyBody.isEmpty then
        .inert (indent ++ "\x7d finally \x7b\n".toList) :: piecesAll none finallyBody else []) ↔
          Piece.ref printed ∈ piecesAll none finallyBody := by
      cases finallyBody with
      | nil => simp [piecesAll]
      | cons => simp
    rw [Uses, ← first, ← inner, ← last, pieces]
    simp only [mem_cons, mem_append, reduceCtorEq, false_or, not_mem_nil, or_false, finals]
    refine or_congr_right (or_congr_left ?_)
    split_ifs with shown
    · simp only [mem_cons, reduceCtorEq, false_or, shown, true_and]
      exact (or_congr_left eq_comm).trans renamed
    · simp [shown]

theorem mem_piecesAll {printed : Text} (notBare : isBareRegister printed = false)
    (undeclared : Option Text) : ∀ body,
      .ref printed ∈ piecesAll undeclared body ↔ UsesAll printed undeclared body
  | [] => by simp [piecesAll, UsesAll]
  | code :: rest => by
    rw [piecesAll, UsesAll, mem_append, mem_pieces notBare undeclared code,
      mem_piecesAll notBare undeclared rest]

end

namespace Binder

variable (binder : Binder)

/-- The variable's register stands alone only where it is referred to, and the fixed name is
free. -/
structure Clear : Prop where
  text : ∀ text ∈ (segments binder.name binder.pieces).1 :: (segments binder.name binder.pieces).2,
    ¬ Standalone isIdentByte binder.name text
  unused : ¬ UsesAll binder.fallback binder.undeclared binder.body
  apart : binder.fallback ∉ binder.enclosing

/-- The references to the variable end where identifiers end. -/
def Spaced : Prop := spaced binder.name [] binder.pieces = true

/-- A body that is printed well is renamed well exactly when it is clear. -/
theorem alpha_iff_clear {binder : Binder} (bare : isBareRegister binder.name = true)
    (fallback : isBareRegister binder.fallback = false) (apart : binder.Spaced)
    (body : generateAll binder.undeclared binder.body = textOf binder.pieces) :
    binder.Alpha ↔ binder.Clear := by
  have different : binder.fallback ≠ binder.name := by
    intro same
    rw [same, bare] at fallback
    cases fallback
  have bounded := bounded_of_spaced binder.name binder.pieces [] apart
  have texts : binder.printed = textOf (renamePieces binder.name binder.fallback binder.pieces) ↔
      ∀ text ∈ (segments binder.name binder.pieces).1 :: (segments binder.name binder.pieces).2,
        ¬ Standalone isIdentByte binder.name text := by
    rw [printed, sanitizeLoopVar_of_bare bare, renameBody, if_pos different, body,
      textOf_renamePieces, textOf_eq_interleave binder.name binder.pieces]
    exact (solid_of_isBareRegister bare).replaceWholeWord_interleave_iff different bounded
  have names : .ref binder.fallback ∈ binder.pieces ↔
      UsesAll binder.fallback binder.undeclared binder.body :=
    mem_piecesAll fallback binder.undeclared binder.body
  exact ⟨fun alpha => ⟨texts.mp alpha.text, fun used => alpha.unused (names.mpr used), alpha.apart⟩,
    fun clear => ⟨texts.mpr clear.text, fun used => clear.unused (names.mp used), clear.apart⟩⟩

end Binder

/-- A body whose variable is renamed well prints its renamed pieces. -/
theorem renameBody_eq {enclosing : List Text} {name fallback : Text} {undeclared : Option Text}
    {body : List Code} (inner : generateAll undeclared body = textOf (piecesAll undeclared body))
    (alpha : ∀ binder ∈ renamings enclosing name fallback undeclared body, binder.Alpha) :
    renameBody name (sanitizeLoopVar name fallback) (generateAll undeclared body) =
      textOf (renamePieces name (sanitizeLoopVar name fallback) (piecesAll undeclared body)) := by
  by_cases bare : isBareRegister name = true
  · have inside : ⟨enclosing, name, fallback, undeclared, body⟩ ∈
        renamings enclosing name fallback undeclared body := by simp [renamings, bare]
    have self := (alpha _ inside).text
    rw [Binder.printed] at self
    rw [self, sanitizeLoopVar_of_bare bare]
    rfl
  · rw [sanitizeLoopVar_of_not_bare bare, renamePieces_self, renameBody, if_neg (not_not.mpr rfl),
      inner]

mutual

/-- Where every variable is renamed well, the text is that of the renamed pieces. -/
theorem generate_eq (undeclared : Option Text) (enclosing : List Text) : ∀ code,
    (∀ binder ∈ binders enclosing code, binder.Alpha) →
      generate undeclared code = textOf (pieces undeclared code)
  | .plain _, _ => rfl
  | .letStmt name declared assigned, _ => by
    rw [generate, pieces]
    split_ifs <;> rfl
  | .loop kind indent name iterated body, alpha => by
    rw [binders, forall_mem_append] at alpha
    have inner := generateAll_eq none _ body alpha.1
    have renamed := renameBody_eq inner alpha.2
    rw [generate, pieces, renamed]
    simp [textOf, Piece.text]
  | .tryCatch indent tryBody catchParam catchBody finallyBody, alpha => by
    rw [binders, forall_mem_append, forall_mem_append, forall_mem_append] at alpha
    obtain ⟨tries, ⟨catches, self⟩, finals⟩ := alpha
    have renamed := renameBody_eq (generateAll_eq (some (catchName catchParam)) _ catchBody catches)
      self
    rw [generate, pieces, generateAll_eq none _ tryBody tries,
      generateAll_eq none _ finallyBody finals, catchPrinted, renamed]
    split_ifs <;> simp [textOf, Piece.text]

theorem generateAll_eq (undeclared : Option Text) (enclosing : List Text) : ∀ body,
    (∀ binder ∈ bindersAll enclosing body, binder.Alpha) →
      generateAll undeclared body = textOf (piecesAll undeclared body)
  | [], _ => rfl
  | code :: rest, alpha => by
    rw [bindersAll, forall_mem_append] at alpha
    rw [generateAll, piecesAll, generate_eq undeclared enclosing code alpha.1,
      generateAll_eq undeclared enclosing rest alpha.2]
    exact flatMap_append.symm

end

/-- Over a body whose statements rename well exactly when they are clear, a statement does. -/
theorem renamings_iff {inside enclosing : List Text} {name fallback : Text}
    {undeclared : Option Text} {body : List Code} (notBare : isBareRegister fallback = false)
    (apart : ∀ binder ∈ renamings enclosing name fallback undeclared body, binder.Spaced)
    (inner : (∀ binder ∈ bindersAll inside body, binder.Alpha) ↔
      ∀ binder ∈ bindersAll inside body, binder.Clear) :
    (∀ binder ∈ bindersAll inside body ++ renamings enclosing name fallback undeclared body,
        binder.Alpha) ↔
      ∀ binder ∈ bindersAll inside body ++ renamings enclosing name fallback undeclared body,
        binder.Clear := by
  rw [forall_mem_append, forall_mem_append, inner]
  refine and_congr_right fun clear => ?_
  by_cases bare : isBareRegister name = true
  · rw [renamings, if_pos bare, forall_mem_singleton] at apart ⊢
    rw [forall_mem_singleton]
    exact Binder.alpha_iff_clear bare notBare apart
      (generateAll_eq undeclared inside body (inner.mpr clear))
  · rw [renamings, if_neg bare]
    simp

mutual

theorem alpha_iff_clear_code (enclosing : List Text) : ∀ code,
    (∀ binder ∈ binders enclosing code, binder.Spaced) →
      ((∀ binder ∈ binders enclosing code, binder.Alpha) ↔
        ∀ binder ∈ binders enclosing code, binder.Clear)
  | .plain _, _ | .letStmt .., _ => by simp [binders]
  | .loop kind indent name iterated body, apart => by
    rw [binders, forall_mem_append] at apart
    exact renamings_iff kind.fallback_not_bare apart.2 (alpha_iff_clear_body _ body apart.1)
  | .tryCatch indent tryBody catchParam catchBody finallyBody, apart => by
    rw [binders, forall_mem_append, forall_mem_append, forall_mem_append] at apart
    obtain ⟨tries, ⟨catches, self⟩, finals⟩ := apart
    have caught := renamings_iff (by decide) self (alpha_iff_clear_body _ catchBody catches)
    have whole := and_congr (alpha_iff_clear_body enclosing tryBody tries)
      (and_congr caught (alpha_iff_clear_body enclosing finallyBody finals))
    simpa only [binders, forall_mem_append] using whole

theorem alpha_iff_clear_body (enclosing : List Text) : ∀ body,
    (∀ binder ∈ bindersAll enclosing body, binder.Spaced) →
      ((∀ binder ∈ bindersAll enclosing body, binder.Alpha) ↔
        ∀ binder ∈ bindersAll enclosing body, binder.Clear)
  | [], _ => by simp [bindersAll]
  | code :: rest, apart => by
    rw [bindersAll, forall_mem_append] at apart
    rw [bindersAll, forall_mem_append, forall_mem_append,
      alpha_iff_clear_code enclosing code apart.1, alpha_iff_clear_body enclosing rest apart.2]

end

end HermesDecomp.Codegen.LoopVariables
