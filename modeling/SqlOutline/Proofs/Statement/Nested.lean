import SqlOutline.Proofs.Statement.Section
import SqlOutline.Statement.Basic

/-!
# Nested statements

The tokens of a passage that is nested in another one stand side by side in it: they
are what a group holds, or a part of that. The statements on the levels below a
statement are read from such passages, with as many levels left to read as the top
statement had more.
-/

namespace SqlOutline

/-! ## Passages -/

theorem isInfix_of_mem_queriesWithin {tokens query : List Token}
    (h : query ∈ queriesWithin tokens) : query <:+: tokens := by
  induction tokens using queriesWithin.induct with
  | case1 => simp [queriesWithin] at h
  | case2 token tokens hopens hquery length ih =>
    rw [queriesWithin, if_pos hopens, if_pos hquery] at h
    rcases List.mem_cons.1 h with rfl | h
    · exact (List.take_prefix _ _).isInfix.trans
        (List.suffix_cons token tokens).isInfix
    · exact ((ih h).trans (List.drop_suffix _ _).isInfix).trans
        (List.suffix_cons token tokens).isInfix
  | case3 token tokens hopens hquery ih =>
    rw [queriesWithin, if_pos hopens, if_neg hquery] at h
    exact ((ih h).trans (List.dropWhile_suffix _).isInfix).trans
      (List.suffix_cons token tokens).isInfix
  | case4 token tokens hopens ih =>
    rw [queriesWithin, if_neg hopens] at h
    exact (ih h).trans (List.suffix_cons token tokens).isInfix

namespace Passage

theorem isInfix_of_mem_ofGroup {clause : ClauseKind} {previous : Option TokenKind}
    {inner : List Token} {passage : Passage}
    (h : passage ∈ ofGroup clause previous inner) : passage.tokens <:+: inner := by
  have hwhole : ∀ relation, passage ∈ [(⟨relation, inner⟩ : Passage)] →
      passage.tokens <:+: inner := by
    intro relation hmem
    obtain rfl := List.mem_singleton.1 hmem
    exact List.infix_refl inner
  have hqueries : passage ∈ (queriesWithin inner).map (⟨false, ·⟩) →
      passage.tokens <:+: inner := by
    intro hmem
    obtain ⟨query, hquery, rfl⟩ := List.mem_map.1 hmem
    exact isInfix_of_mem_queriesWithin hquery
  rw [ofGroup] at h
  split_ifs at h
  · exact hwhole false h
  · exact hqueries h
  · exact hwhole true h
  · exact hwhole false h
  · exact hqueries h

theorem exists_group_of_mem_ofPieces {clause : ClauseKind}
    {previous : Option TokenKind} {pieces : List Piece} {passage : Passage}
    (h : passage ∈ ofPieces clause previous pieces) :
    ∃ opening inner closing, .group opening inner closing ∈ pieces ∧
      passage.tokens <:+: inner := by
  induction pieces generalizing previous with
  | nil => exact absurd h List.not_mem_nil
  | cons piece pieces ih =>
    have hlater : ∀ previous', passage ∈ ofPieces clause previous' pieces →
        ∃ opening inner closing, .group opening inner closing ∈ piece :: pieces ∧
          passage.tokens <:+: inner := by
      intro previous' hmem
      obtain ⟨opening, inner, closing, hgroup, hstretch⟩ := ih hmem
      exact ⟨opening, inner, closing, List.mem_cons_of_mem piece hgroup, hstretch⟩
    cases piece with
    | single token => exact hlater _ h
    | group opening inner closing =>
      rw [ofPieces] at h
      rcases List.mem_append.1 h with h | h
      · exact ⟨opening, inner, closing, List.mem_cons_self ..,
          isInfix_of_mem_ofGroup h⟩
      · exact hlater _ h

theorem isInfix_of_mem_ofPieces {clause : ClauseKind} {previous : Option TokenKind}
    {pieces : List Piece} {passage : Passage}
    (h : passage ∈ ofPieces clause previous pieces) :
    passage.tokens <:+: pieces.flatMap Piece.tokens := by
  obtain ⟨opening, inner, closing, hgroup, hheld⟩ := exists_group_of_mem_ofPieces h
  obtain ⟨before, after, rfl⟩ := List.append_of_mem hgroup
  have hinner : inner <:+: (Piece.group opening inner closing).tokens :=
    ⟨[opening], closing.toList, rfl⟩
  rw [List.flatMap_append, List.flatMap_cons]
  exact ((hheld.trans hinner).trans (List.prefix_append _ _).isInfix).trans
    (List.suffix_append _ _).isInfix

theorem isInfix_of_mem_sections {passage : Passage} {part : Section}
    (h : part ∈ passage.sections) : part.tokens <:+: passage.tokens := by
  obtain ⟨before, after, hsplit⟩ := List.append_of_mem h
  have htokens := passage.margin_append_flatMap_sections
  rw [hsplit, List.flatMap_append, List.flatMap_cons, ← List.append_assoc] at htokens
  exact ⟨_, _, by rw [← htokens, List.append_assoc, List.append_assoc]⟩

theorem isInfix_of_mem_passages {passage inner : Passage} {part : Section}
    (h : part ∈ passage.sections) (hinner : inner ∈ part.passages) :
    inner.tokens <:+: passage.tokens :=
  ((isInfix_of_mem_ofPieces hinner).trans (List.suffix_append _ _).isInfix).trans
    (isInfix_of_mem_sections h)

end Passage

/-! ## Levels -/

namespace Statement

/-- The statements that lie some levels below a top statement. -/
inductive LiesBelow (top : Statement) : Nat → Statement → Prop
  | top : LiesBelow top 0 top
  | nested {level : Nat} {statement inner : Statement} {clause : Clause Statement}
      (h : LiesBelow top level statement) (hclause : clause ∈ statement.clauses)
      (hinner : inner ∈ clause.nested) : LiesBelow top (level + 1) inner

theorem tokens_ofPassage (levels : Nat) (passage : Passage) :
    (ofPassage levels passage).tokens = passage.tokens := by
  cases levels <;> rfl

/-- The clauses of a statement are the sections of its passage. -/
theorem exists_nested_of_ofPassage (levels : Nat) (passage : Passage) :
    ∃ nested : Section → List Statement,
      (ofPassage levels passage).clauses =
        passage.sections.map fun part => part.toClause (nested part) := by
  cases levels with
  | zero => exact ⟨fun _ => [], rfl⟩
  | succ levels => exact ⟨fun part => part.passages.map (ofPassage levels), rfl⟩

/-- A nested statement is read from a passage of a section, with one level less to
read. -/
theorem exists_passage_of_mem_nested {levels : Nat} {passage : Passage}
    {inner : Statement} {clause : Clause Statement}
    (hclause : clause ∈ (ofPassage levels passage).clauses)
    (hinner : inner ∈ clause.nested) :
    ∃ levels', levels = levels' + 1 ∧
      ∃ part ∈ passage.sections,
        ∃ passage' ∈ part.passages, inner = ofPassage levels' passage' := by
  cases levels with
  | zero =>
    obtain ⟨part, -, rfl⟩ := List.mem_map.1 hclause
    exact absurd hinner List.not_mem_nil
  | succ levels =>
    obtain ⟨part, hpart, rfl⟩ := List.mem_map.1 hclause
    obtain ⟨passage', hpassage, rfl⟩ := List.mem_map.1 hinner
    exact ⟨levels, rfl, part, hpart, passage', hpassage, rfl⟩

/-- All statements below one that is read from a passage are read from passages. -/
theorem LiesBelow.exists_ofPassage {levels level : Nat} {passage : Passage}
    {statement : Statement}
    (h : LiesBelow (ofPassage levels passage) level statement) :
    level ≤ levels ∧ ∃ passage', statement = ofPassage (levels - level) passage' := by
  induction h with
  | top => exact ⟨Nat.zero_le levels, passage, rfl⟩
  | nested h hclause hinner ih =>
    obtain ⟨hlevel, outer, rfl⟩ := ih
    obtain ⟨levels', hlevels, -, -, passage', -, rfl⟩ :=
      exists_passage_of_mem_nested hclause hinner
    refine ⟨by omega, passage', ?_⟩
    congr 1
    omega

end Statement

end SqlOutline
