import Mathlib.Data.List.TakeWhile
import Mathlib.Tactic.SplitIfs
import SqlOutline.Clause.Heading

/-!
# The words of a heading

Every word that a heading takes in is a keyword that is there, and one of those few
that go on with a heading. So a heading is as long as it says, and no parenthesis and
no other keyword is part of it.
-/

namespace SqlOutline

def Keyword.continuesHeading : Keyword → Bool
  | .all | .distinct | .by | .recursive | .join => true
  | keyword => keyword.modifiesJoin

namespace Heading

/-- The words of the heading after the first one are keywords at the beginning of
`following` that go on with a heading. -/
def Spans (heading : Heading) (following : List Piece) : Prop :=
  heading.words - 1 ≤ following.length ∧
    ∀ piece ∈ following.take (heading.words - 1),
      ∃ keyword, piece.keyword? = some keyword ∧ keyword.continuesHeading = true

private theorem spans_one (clause : ClauseKind) (following : List Piece) :
    Spans ⟨clause, 1⟩ following := by
  simp [Spans]

private theorem spans_two {clause : ClauseKind} {following : List Piece}
    {keyword : Keyword} (h : following.head?.bind Piece.keyword? = some keyword)
    (hcontinues : keyword.continuesHeading = true) : Spans ⟨clause, 2⟩ following := by
  cases following with
  | nil => simp at h
  | cons piece following =>
    have hpiece : piece.keyword? = some keyword := h
    simp [Spans, hpiece, hcontinues]

theorem spans_of_word {clause : ClauseKind} {following : List Piece}
    {heading : Heading} (h : word clause = some heading) :
    heading.Spans following := by
  rw [word, Option.some_inj] at h
  rw [← h]
  exact spans_one clause following

theorem spans_of_wordAnd {clause : ClauseKind} {more : Keyword → Bool}
    {following : List Piece} {heading : Heading}
    (hmore : ∀ keyword, more keyword = true → keyword.continuesHeading = true)
    (h : wordAnd clause more following = some heading) : heading.Spans following := by
  rw [wordAnd] at h
  split at h
  · next hnext =>
    obtain ⟨keyword, hkeyword, htakes⟩ := (Option.any_eq_true _ _).1 hnext
    rw [Option.some_inj] at h
    rw [← h]
    exact spans_two hkeyword (hmore keyword htakes)
  · rw [Option.some_inj] at h
    rw [← h]
    exact spans_one clause following

theorem spans_of_wordBy {clause : ClauseKind} {following : List Piece}
    {heading : Heading} (h : wordBy clause following = some heading) :
    heading.Spans following := by
  rw [wordBy] at h
  split at h
  · next hby =>
    rw [Option.some_inj] at h
    rw [← h]
    exact spans_two hby rfl
  · simp at h

theorem continuesHeading_of_modifiesJoin {keyword : Keyword}
    (h : keyword.modifiesJoin = true) : keyword.continuesHeading = true := by
  cases keyword <;> first | rfl | exact absurd h (by decide)

theorem continuesHeading_of_all_or_distinct (keyword : Keyword)
    (h : (keyword == .all || keyword == .distinct) = true) :
    keyword.continuesHeading = true := by
  rw [Bool.or_eq_true, beq_iff_eq, beq_iff_eq] at h
  rcases h with rfl | rfl <;> rfl

theorem continuesHeading_of_recursive (keyword : Keyword)
    (h : (keyword == .recursive) = true) : keyword.continuesHeading = true := by
  rw [beq_iff_eq.1 h]
  rfl

theorem spans_of_joinAfterModifier {following : List Piece} {heading : Heading}
    (h : joinAfterModifier following = some heading) : heading.Spans following := by
  rw [joinAfterModifier] at h
  generalize hmodifies : (fun piece : Piece =>
      piece.keyword?.any Keyword.modifiesJoin) = modifies at h
  have hmem : ∀ piece ∈ following.takeWhile modifies,
      ∃ keyword, piece.keyword? = some keyword ∧ keyword.continuesHeading = true := by
    intro piece hpiece
    have hpieceModifies := List.mem_takeWhile_imp hpiece
    rw [← hmodifies] at hpieceModifies
    obtain ⟨keyword, hkeyword, hkeywordModifies⟩ :=
      (Option.any_eq_true _ _).1 hpieceModifies
    exact ⟨keyword, hkeyword, continuesHeading_of_modifiesJoin hkeywordModifies⟩
  split at h
  · next hjoin =>
    obtain ⟨piece, hpiece, hkeyword⟩ := Option.bind_eq_some_iff.1 hjoin
    rw [Option.some_inj] at h
    obtain ⟨hlt, hget⟩ := List.getElem?_eq_some_iff.1 hpiece
    rw [← h, Spans, Nat.add_succ_sub_one]
    refine ⟨hlt, fun next hnext => ?_⟩
    rw [List.take_succ_eq_append_getElem hlt, hget, List.mem_append,
      List.mem_singleton] at hnext
    rcases hnext with hmodifier | rfl
    · rw [← List.prefix_iff_eq_take.1 (List.takeWhile_prefix modifies)] at hmodifier
      exact hmem next hmodifier
    · exact ⟨.join, hkeyword, rfl⟩
  · simp at h

theorem spans_of_ofKeyword? {traits : StatementTraits} {previous : Option TokenKind}
    {keyword : Keyword} {following : List Piece} {heading : Heading}
    (h : ofKeyword? traits previous keyword following = some heading) :
    heading.Spans following := by
  simp only [ofKeyword?] at h
  split at h
  all_goals try split_ifs at h
  all_goals
    first
    | exact spans_of_word h
    | exact spans_of_wordAnd continuesHeading_of_all_or_distinct h
    | exact spans_of_wordAnd continuesHeading_of_recursive h
    | exact spans_of_wordBy h
    | exact spans_of_joinAfterModifier h
    | simp at h

end Heading

end SqlOutline
