import SqlOutline.Clause.Heading
import SqlOutline.Statement.Passage

/-!
# Sections of a statement

A statement is cut at every heading that stands outside parentheses. Each section is a
heading with the pieces up to the next one; the first section is what comes before the
first heading.
-/

namespace SqlOutline

/-- A clause whose nested passages are not read yet. -/
structure Section where
  kind : ClauseKind
  head : List Token
  body : List Piece
  deriving DecidableEq, Repr

namespace Piece

/-- Length of the shortest initial part with `count` significant pieces. -/
def reach : Nat → List Piece → Nat
  | 0, _ => 0
  | _ + 1, [] => 0
  | count + 1, piece :: pieces =>
    if piece.isTrivia then reach (count + 1) pieces + 1 else reach count pieces + 1

end Piece

namespace Section

def tokens (part : Section) : List Token :=
  part.head ++ part.body.flatMap Piece.tokens

/-- The pieces before the first heading, and the sections from there on. `previous` is
the kind of the last significant token before the pieces. -/
def cut (traits : StatementTraits) (previous : Option TokenKind) :
    List Piece → List Piece × List Section
  | [] => ([], [])
  | piece :: pieces =>
    match Heading.at? traits previous piece pieces with
    | some heading =>
      let length := Piece.reach (heading.words - 1) pieces
      let head := (piece :: pieces.take length).flatMap Piece.tokens
      let (body, later) :=
        cut traits (head.getLast?.map (·.kind)) (pieces.drop length)
      ([], ⟨heading.clause, head, body⟩ :: later)
    | none =>
      let (body, later) :=
        cut traits (if piece.isTrivia then previous else some piece.lastKind) pieces
      (piece :: body, later)
termination_by pieces => pieces.length
decreasing_by
  · simp only [List.length_drop, List.length_cons]; omega
  · simp

def passages (part : Section) : List Passage :=
  Passage.ofPieces part.kind (part.head.getLast?.map (·.kind)) part.body

def toClause {σ : Type} (part : Section) (nested : List σ) : Clause σ :=
  ⟨part.kind, part.head, part.body.flatMap Piece.tokens, nested⟩

/-- Cutting at headings loses no token. -/
theorem flatMap_tokens_cut (traits : StatementTraits) (previous : Option TokenKind)
    (pieces : List Piece) :
    (cut traits previous pieces).1.flatMap Piece.tokens ++
        (cut traits previous pieces).2.flatMap tokens =
      pieces.flatMap Piece.tokens := by
  fun_induction cut traits previous pieces with
  | case1 => rfl
  | case2 previous piece pieces heading hheading length head body later hcut ih =>
    rw [hcut] at ih
    calc
      [] ++ (⟨heading.clause, head, body⟩ :: later : List Section).flatMap tokens
        = head ++ (body.flatMap Piece.tokens ++ later.flatMap tokens) := by
          simp [tokens]
      _ = head ++ (pieces.drop length).flatMap Piece.tokens := by rw [ih]
      _ = (piece :: pieces.take length ++ pieces.drop length).flatMap
            Piece.tokens := by
          rw [List.flatMap_append]
      _ = (piece :: pieces).flatMap Piece.tokens := by
          rw [List.cons_append, List.take_append_drop]
  | case3 previous piece pieces hheading body later hcut ih =>
    rw [hcut] at ih
    rw [List.flatMap_cons, List.append_assoc, ih, List.flatMap_cons]

end Section

namespace Passage

/-- The clause that a passage is in before its first heading. Where a table is
expected that is a list of tables, unless the passage begins with a keyword. -/
def openingClause (passage : Passage) : ClauseKind :=
  match (significant passage.tokens).head? with
  | some first =>
    if passage.relation && first.keyword?.isNone then .from else .leading
  | none => .leading

/-- The sections of a passage. White space and comments before the first heading are
no section. -/
def sections (passage : Passage) : List Section :=
  let pieces := Piece.ofTokens passage.tokens
  let (body, later) :=
    Section.cut (StatementTraits.ofTokens passage.tokens) none pieces
  let first : Section := ⟨passage.openingClause, [], body⟩
  if first.kind == .leading && body.all Piece.isTrivia then later else first :: later

end Passage

end SqlOutline
