import SqlOutline.Proofs.Statement.Subquery

/-!
# The body of a clause

The body of a section is a stretch of the pieces of its passage, right after the words
that open the section. So the groups in the body of a clause are groups of the
statement.
-/

namespace SqlOutline

namespace Section

theorem exists_pieces_of_cut (traits : StatementTraits) (previous : Option TokenKind)
    (pieces : List Piece) :
    (∃ later, pieces = (cut traits previous pieces).1 ++ later) ∧
      ∀ (before : List Section) (part : Section) (after : List Section),
        (cut traits previous pieces).2 = before ++ part :: after →
        ∃ earlier later, pieces = earlier ++ (part.body ++ later) ∧
          earlier.flatMap Piece.tokens =
            (cut traits previous pieces).1.flatMap Piece.tokens ++
              (before.flatMap Section.tokens ++ part.head) := by
  fun_induction cut traits previous pieces with
  | case1 => simp
  | case2 previous piece pieces heading hheading length head body later hcut ih =>
    rw [hcut] at ih
    obtain ⟨⟨rest, hrest⟩, hparts⟩ := ih
    refine ⟨⟨piece :: pieces, rfl⟩, fun before part after hsections => ?_⟩
    cases before with
    | nil =>
      obtain ⟨rfl, -⟩ := List.cons.inj hsections
      refine ⟨piece :: pieces.take length, rest, ?_, rfl⟩
      rw [← hrest, List.cons_append, List.take_append_drop]
    | cons first before =>
      obtain ⟨rfl, hlater⟩ := List.cons.inj hsections
      obtain ⟨earlier, others, hpieces, hearlier⟩ := hparts before part after hlater
      refine ⟨piece :: pieces.take length ++ earlier, others, ?_, ?_⟩
      · rw [List.append_assoc, ← hpieces, List.cons_append, List.take_append_drop]
      · rw [List.flatMap_append, hearlier]
        simp [Section.tokens, head]
  | case3 previous piece pieces hheading body later hcut ih =>
    rw [hcut] at ih
    obtain ⟨⟨rest, hrest⟩, hparts⟩ := ih
    refine ⟨⟨rest, by rw [List.cons_append, ← hrest]⟩,
      fun before part after hsections => ?_⟩
    obtain ⟨earlier, others, hpieces, hearlier⟩ := hparts before part after hsections
    refine ⟨piece :: earlier, others, by rw [List.cons_append, ← hpieces], ?_⟩
    rw [List.flatMap_cons, hearlier, List.flatMap_cons, List.append_assoc]

end Section

namespace Passage

theorem exists_pieces_of_sections_eq {passage : Passage} {before after : List Section}
    {part : Section} (h : passage.sections = before ++ part :: after) :
    ∃ earlier later, Piece.ofTokens passage.tokens = earlier ++ (part.body ++ later) ∧
      earlier.flatMap Piece.tokens =
        passage.margin ++ (before.flatMap Section.tokens ++ part.head) := by
  obtain ⟨⟨rest, hrest⟩, hparts⟩ := Section.exists_pieces_of_cut
    (StatementTraits.ofTokens passage.tokens) none (Piece.ofTokens passage.tokens)
  rw [← opening, ← headed] at hparts
  rcases opening_or_headed_of_sections_eq h with ⟨rfl, rfl, hmargin⟩ |
    ⟨earlier, hheaded, htokens⟩
  · rw [hmargin]
    exact ⟨[], rest, hrest, rfl⟩
  · rw [← List.append_assoc, htokens, List.append_assoc]
    exact hparts earlier part after hheaded

/-- The body of a section is cut into pieces alike with and without the rest of the
passage. -/
theorem ofTokens_body {passage : Passage} {part : Section}
    (h : part ∈ passage.sections) :
    Piece.ofTokens (part.body.flatMap Piece.tokens) = part.body := by
  obtain ⟨before, after, hsplit⟩ := List.append_of_mem h
  obtain ⟨earlier, later, hpieces, -⟩ := exists_pieces_of_sections_eq hsplit
  exact Piece.ofTokens_flatMap_of_stretch hpieces

private theorem groups_passages {passage : Passage} {part : Section}
    (h : part ∈ passage.sections) :
    Groups (part.body.flatMap Piece.tokens) (part.passages.map Passage.tokens) := by
  have hgroups := groups_ofPieces part.kind (part.head.getLast?.map (·.kind))
    (part.body.flatMap Piece.tokens)
  rwa [ofTokens_body h] at hgroups

private theorem exists_tokens_of_sections_eq {passage : Passage}
    {before after : List Section} {part : Section}
    (h : passage.sections = before ++ part :: after) :
    ∃ rest,
      passage.tokens =
        passage.margin ++ (before.flatMap Section.tokens ++ part.head) ++
          (part.body.flatMap Piece.tokens ++ rest) ∧
      (rest = [] ∨ depth (part.body.flatMap Piece.tokens) = 0) := by
  obtain ⟨earlier, later, hpieces, hearlier⟩ := exists_pieces_of_sections_eq h
  refine ⟨later.flatMap Piece.tokens, ?_, ?_⟩
  · rw [← hearlier, ← List.flatMap_append, ← List.flatMap_append, ← hpieces,
      Piece.flatMap_tokens_ofTokens]
  · cases later with
    | nil => exact Or.inl rfl
    | cons piece later => exact Or.inr (Piece.depth_flatMap_of_stretch hpieces)

end Passage

namespace Statement

theorem map_tokens_ofPassage (levels : Nat) (passages : List Passage) :
    (passages.map (ofPassage levels)).map tokens = passages.map Passage.tokens := by
  rw [List.map_map]
  exact List.map_congr_left fun passage _ => tokens_ofPassage levels passage

/-- The statements nested in a clause are what some groups of its body hold. -/
theorem groups_nested {levels : Nat} {passage : Passage} {clause : Clause Statement}
    (h : clause ∈ (ofPassage levels passage).clauses) :
    Groups clause.body (clause.nested.map tokens) := by
  cases levels with
  | zero =>
    obtain ⟨part, -, rfl⟩ := List.mem_map.1 h
    exact Groups.nil _
  | succ levels =>
    obtain ⟨part, hpart, rfl⟩ := List.mem_map.1 h
    rw [Section.toClause, map_tokens_ofPassage]
    exact Passage.groups_passages hpart

/-- A clause lies in the statement after the clauses before it. -/
theorem exists_tokens_of_clauses_eq {levels : Nat} {passage : Passage}
    {before after : List (Clause Statement)} {clause : Clause Statement}
    (h : (ofPassage levels passage).clauses = before ++ clause :: after) :
    ∃ rest,
      passage.tokens =
        passage.margin ++ (before.flatMap Clause.tokens ++ clause.head) ++
          (clause.body ++ rest) ∧
      (rest = [] ∨ depth clause.body = 0) := by
  obtain ⟨nested, hclauses⟩ := exists_nested_of_ofPassage levels passage
  rw [hclauses] at h
  obtain ⟨parts, others, hsections, rfl, hothers⟩ := List.map_eq_append_iff.1 h
  obtain ⟨part, later, rfl, rfl, rfl⟩ := List.map_eq_cons_iff.1 hothers
  rw [List.flatMap_map]
  exact Passage.exists_tokens_of_sections_eq hsections

/-- The nested statements of a clause have places in its body where the statement has
groups. -/
theorem exists_spans_of_clauses_eq {levels : Nat} {passage : Passage}
    {before after : List (Clause Statement)} {clause : Clause Statement}
    (h : (ofPassage levels passage).clauses = before ++ clause :: after) :
    let start :=
      (passage.margin ++ (before.flatMap Clause.tokens ++ clause.head)).length
    ∃ spans, GroupSpans passage.tokens spans ∧
      (∀ span ∈ spans, start ≤ span.1 ∧ span.1 < start + clause.body.length) ∧
      clause.nested.map tokens = contentsOf passage.tokens spans := by
  intro start
  have hmem : clause ∈ (ofPassage levels passage).clauses := by simp [h]
  obtain ⟨spans, hspans, hcontents⟩ := (groups_nested hmem).exists_spans
  obtain ⟨rest, htokens, hrest⟩ := exists_tokens_of_clauses_eq h
  have hclosed : (∀ span ∈ spans, span.2 < clause.body.length) ∨ rest = [] := by
    rcases hrest with hnil | hdepth
    · exact Or.inr hnil
    · exact Or.inl fun span hspan =>
        (hspans.groupAt span hspan).closed_lt_length hdepth
  refine ⟨spans.map (shiftSpan start), ?_, fun span hspan => ?_, ?_⟩
  · rw [htokens]
    exact hspans.append _ hclosed
  · obtain ⟨inner, hinner, rfl⟩ := List.mem_map.1 hspan
    have hlt := (hspans.groupAt inner hinner).lt
    have hle := (hspans.groupAt inner hinner).le_length
    simp only [shiftSpan]
    omega
  · rw [hcontents, htokens, contentsOf_append hspans]

end Statement

end SqlOutline
