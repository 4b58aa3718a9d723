import SqlOutline.Proofs.Clause.Heading
import SqlOutline.Proofs.Token.Significant
import SqlOutline.Statement.Section

/-!
# Where sections begin

A section after the first one begins at a piece that is a keyword, and its head is
made of keywords with white space and comments among them. The first section may have
no head. Between them the sections of a passage hold all of its tokens, save white
space and comments at its beginning.
-/

namespace SqlOutline

namespace Piece

/-- The initial part that reaches over `count` significant pieces holds just these. -/
theorem significant_take_reach (count : Nat) (pieces : List Piece) :
    significant (pieces.take (reach count pieces)) =
      (significant pieces).take count := by
  induction pieces generalizing count with
  | nil => simp [significant]
  | cons piece pieces ih =>
    cases count with
    | zero => simp [reach, significant]
    | succ count =>
      rw [reach]
      by_cases htrivia : piece.isTrivia = true
      · simpa [significant, htrivia] using ih (count + 1)
      · simpa [significant, htrivia] using ih count

private theorem getLast?_take_reach {count : Nat} {pieces : List Piece}
    (hpos : 0 < count) (h : count ≤ (significant pieces).length) :
    ∃ piece, (pieces.take (reach count pieces)).getLast? = some piece ∧
      piece.isTrivia = false := by
  induction pieces generalizing count with
  | nil =>
    rw [significant, List.filter_nil, List.length_nil] at h
    omega
  | cons piece pieces ih =>
    obtain ⟨count, rfl⟩ := Nat.exists_eq_succ_of_ne_zero (Nat.ne_of_gt hpos)
    rw [reach]
    by_cases htrivia : piece.isTrivia = true
    · rw [if_pos htrivia, List.take_succ_cons, List.getLast?_cons]
      obtain ⟨last, hlast, hsignificant⟩ :=
        ih hpos (by simpa [significant, htrivia] using h)
      exact ⟨last, by rw [hlast]; rfl, hsignificant⟩
    · rw [if_neg htrivia, List.take_succ_cons, List.getLast?_cons]
      cases count with
      | zero => exact ⟨piece, by rw [reach]; rfl, by simpa using htrivia⟩
      | succ count =>
        obtain ⟨last, hlast, hsignificant⟩ :=
          ih (Nat.succ_pos count) (by simpa [significant, htrivia] using h)
        exact ⟨last, by rw [hlast]; rfl, hsignificant⟩

theorem exists_single_of_keyword? {piece : Piece} (h : piece.keyword?.isSome = true) :
    ∃ token, piece = .single token ∧ token.keyword?.isSome = true := by
  cases piece with
  | single token => exact ⟨token, rfl, h⟩
  | group opening inner closing => simp [keyword?] at h

end Piece

def Section.headOf (words : Nat) (piece : Piece) (rest : List Piece) : List Token :=
  (piece :: rest.take (Piece.reach (words - 1) rest)).flatMap Piece.tokens

namespace Heading

theorem at?_select {token : Token} (h : token.isKeyword .select = true)
    (traits : StatementTraits) (previous : Option TokenKind) (rest : List Piece) :
    at? traits previous (.single token) rest = some ⟨.select, 1⟩ := by
  rw [Lexeme.isKeyword, beq_iff_eq] at h
  rw [at?, Piece.keyword?, Lexeme.keyword?, h]
  rfl

theorem at?_single_of_keyword?_eq_none {token : Token} (h : token.keyword? = none)
    (traits : StatementTraits) (previous : Option TokenKind) (rest : List Piece) :
    at? traits previous (.single token) rest = none := by
  rw [at?, Piece.keyword?, h, Option.bind_none]

theorem keyword?_of_at? {traits : StatementTraits} {previous : Option TokenKind}
    {piece : Piece} {rest : List Piece} {heading : Heading}
    (h : at? traits previous piece rest = some heading) :
    piece.keyword?.isSome = true ∧ heading.Spans (Piece.significant rest) := by
  obtain ⟨keyword, hkeyword, hheading⟩ := Option.bind_eq_some_iff.1 h
  rw [hkeyword]
  exact ⟨rfl, spans_of_ofKeyword? hheading⟩

theorem exists_single_of_mem_take {heading : Heading} {rest : List Piece}
    {piece : Piece} (h : heading.Spans (Piece.significant rest))
    (hpiece : piece ∈ rest.take (Piece.reach (heading.words - 1) rest)) :
    ∃ token, piece = .single token ∧
      (token.keyword?.isSome = true ∨ token.isTrivia = true) := by
  by_cases htrivia : piece.isTrivia = true
  · cases piece with
    | single token => exact ⟨token, rfl, Or.inr htrivia⟩
    | group opening inner closing => simp [Piece.isTrivia] at htrivia
  · have hsignificant : piece ∈
        Piece.significant (rest.take (Piece.reach (heading.words - 1) rest)) :=
      List.mem_filter.2 ⟨hpiece, by simpa using htrivia⟩
    rw [Piece.significant_take_reach] at hsignificant
    obtain ⟨keyword, hkeyword, -⟩ := h.2 piece hsignificant
    obtain ⟨token, rfl, htoken⟩ :=
      Piece.exists_single_of_keyword? (by rw [hkeyword]; rfl)
    exact ⟨token, rfl, Or.inl htoken⟩

theorem keyword?_or_isTrivia_of_mem {heading : Heading} {rest : List Piece}
    {token : Token} (h : heading.Spans (Piece.significant rest))
    (htoken : token ∈
      (rest.take (Piece.reach (heading.words - 1) rest)).flatMap Piece.tokens) :
    token.keyword?.isSome = true ∨ token.isTrivia = true := by
  obtain ⟨piece, hpiece, htokenPiece⟩ := List.mem_flatMap.1 htoken
  obtain ⟨other, rfl, hother⟩ := exists_single_of_mem_take h hpiece
  rw [Piece.tokens, List.mem_singleton] at htokenPiece
  rwa [htokenPiece]

/-- The last token of a heading is its last word. -/
theorem exists_getLast?_of_at? {traits : StatementTraits}
    {previous : Option TokenKind} {piece : Piece} {rest : List Piece}
    {heading : Heading} (h : at? traits previous piece rest = some heading) :
    ∃ last, (Section.headOf heading.words piece rest).getLast? = some last ∧
      last.keyword?.isSome = true := by
  rw [Section.headOf]
  obtain ⟨hkeyword, hlength, hwords⟩ := keyword?_of_at? h
  obtain ⟨first, rfl, hfirst⟩ := Piece.exists_single_of_keyword? hkeyword
  cases hcount : heading.words - 1 with
  | zero =>
    rw [Piece.reach, List.take_zero]
    exact ⟨first, rfl, hfirst⟩
  | succ count =>
    rw [hcount] at hlength hwords
    obtain ⟨last, hlast, htrivia⟩ :=
      Piece.getLast?_take_reach (Nat.succ_pos count) hlength
    have hmem : last ∈ Piece.significant (rest.take (Piece.reach (count + 1) rest)) :=
      List.mem_filter.2 ⟨List.mem_of_getLast? hlast, by simpa using htrivia⟩
    rw [Piece.significant_take_reach] at hmem
    obtain ⟨keyword, hlastKeyword, -⟩ := hwords last hmem
    obtain ⟨token, rfl, htoken⟩ :=
      Piece.exists_single_of_keyword? (by rw [hlastKeyword]; rfl)
    obtain ⟨init, hinit⟩ := List.getLast?_eq_some_iff.1 hlast
    refine ⟨token, ?_, htoken⟩
    rw [hinit, List.flatMap_cons, List.flatMap_append, ← List.append_assoc]
    exact List.getLast?_concat

end Heading

namespace Section

theorem cut_cons_of_heading {traits : StatementTraits} {previous : Option TokenKind}
    {piece : Piece} {pieces : List Piece} {heading : Heading}
    {parts : List Piece × List Section}
    (h : Heading.at? traits previous piece pieces = some heading)
    (hparts : cut traits ((headOf heading.words piece pieces).getLast?.map (·.kind))
        (pieces.drop (Piece.reach (heading.words - 1) pieces)) = parts) :
    cut traits previous (piece :: pieces) =
      ([], ⟨heading.clause, headOf heading.words piece pieces, parts.1⟩ ::
        parts.2) := by
  rw [cut, h, ← hparts]
  rfl

theorem cut_cons_of_none {traits : StatementTraits} {previous : Option TokenKind}
    {piece : Piece} {pieces : List Piece} {parts : List Piece × List Section}
    (h : Heading.at? traits previous piece pieces = none)
    (hparts : cut traits (if piece.isTrivia then previous else some piece.lastKind)
        pieces = parts) :
    cut traits previous (piece :: pieces) = (piece :: parts.1, parts.2) := by
  rw [cut, h, ← hparts]

/-- A word that is a heading alone opens a clause of what stands behind it. -/
theorem cut_word {traits : StatementTraits} {previous : Option TokenKind}
    {token : Token} {rest : List Piece} {clause : ClauseKind}
    (h : Heading.at? traits previous (.single token) rest = some ⟨clause, 1⟩) :
    cut traits previous (.single token :: rest) =
      ([], ⟨clause, [token], (cut traits (some token.kind) rest).1⟩ ::
        (cut traits (some token.kind) rest).2) := by
  have hhead : headOf 1 (.single token) rest = [token] := by
    rw [headOf, Piece.reach, List.take_zero]
    rfl
  have hrest : cut traits ((headOf 1 (.single token) rest).getLast?.map (·.kind))
      (rest.drop (Piece.reach (1 - 1) rest)) = cut traits (some token.kind) rest := by
    rw [hhead, Piece.reach, List.drop_zero, List.getLast?_singleton, Option.map_some]
  rw [cut_cons_of_heading h hrest, hhead]

/-- A `SELECT` opens a clause of its own, whatever stands before it. -/
theorem cut_select {token : Token} (h : token.isKeyword .select = true)
    (traits : StatementTraits) (previous : Option TokenKind) (rest : List Piece) :
    cut traits previous (.single token :: rest) =
      ([], ⟨.select, [token], (cut traits (some (.keyword .select)) rest).1⟩ ::
        (cut traits (some (.keyword .select)) rest).2) := by
  have hkind : token.kind = .keyword .select := by
    rwa [Lexeme.isKeyword, beq_iff_eq] at h
  rw [cut_word (Heading.at?_select h traits previous rest), hkind]

def OpensAt (part : Section) (token : Token) : Prop :=
  token.keyword?.isSome = true ∧ ∃ words, part.head = token :: words ∧
    ∀ word ∈ words, word.keyword?.isSome = true ∨ word.isTrivia = true

private theorem exists_of_cut_eq (traits : StatementTraits)
    (previous : Option TokenKind) (pieces : List Piece) :
    ∀ (before : List Section) (part : Section) (after : List Section),
      (cut traits previous pieces).2 = before ++ part :: after →
      ∃ earlier token later, pieces = earlier ++ .single token :: later ∧
        earlier.flatMap Piece.tokens =
          (cut traits previous pieces).1.flatMap Piece.tokens ++
            before.flatMap Section.tokens ∧
        part.OpensAt token := by
  fun_induction cut traits previous pieces with
  | case1 => simp
  | case2 previous piece pieces heading hheading length head body later hcut ih =>
    intro before part after hparts
    rw [hcut] at ih
    obtain ⟨hkeyword, hspans⟩ := Heading.keyword?_of_at? hheading
    cases before with
    | nil =>
      obtain ⟨token, rfl, htoken⟩ := Piece.exists_single_of_keyword? hkeyword
      refine ⟨[], token, pieces, rfl, rfl, htoken,
        (pieces.take length).flatMap Piece.tokens, ?_, fun word hword => ?_⟩
      · rw [← (List.cons.inj hparts).1]
        rfl
      · exact Heading.keyword?_or_isTrivia_of_mem hspans hword
    -- the pieces of the head come before those that the induction splits
    | cons first before =>
      obtain ⟨rfl, hlater⟩ := List.cons.inj hparts
      obtain ⟨earlier, token, rest, hpieces, hearlier, hopens⟩ :=
        ih before part after hlater
      refine ⟨piece :: pieces.take length ++ earlier, token, rest, ?_, ?_, hopens⟩
      · rw [List.append_assoc, ← hpieces, List.cons_append, List.take_append_drop]
      · rw [List.flatMap_append, hearlier]
        simp [Section.tokens, head]
  | case3 previous piece pieces hheading body later hcut ih =>
    intro before part after hparts
    rw [hcut] at ih
    obtain ⟨earlier, token, rest, hpieces, hearlier, hopens⟩ :=
      ih before part after hparts
    refine ⟨piece :: earlier, token, rest, ?_, ?_, hopens⟩
    · rw [hpieces, List.cons_append]
    · rw [List.flatMap_cons, hearlier, List.flatMap_cons, List.append_assoc]

theorem exists_getLast?_of_mem_cut {traits : StatementTraits}
    {previous : Option TokenKind} {pieces : List Piece} {part : Section}
    (h : part ∈ (cut traits previous pieces).2) :
    ∃ last, part.head.getLast? = some last ∧ last.keyword?.isSome = true := by
  fun_induction cut traits previous pieces with
  | case1 => simp at h
  | case2 previous piece pieces heading hheading length head body later hcut ih =>
    rw [hcut] at ih
    rcases List.mem_cons.1 h with rfl | h
    · exact Heading.exists_getLast?_of_at? hheading
    · exact ih h
  | case3 previous piece pieces hheading body later hcut ih =>
    rw [hcut] at ih
    exact ih h

theorem mem_of_mem_cut (traits : StatementTraits) (previous : Option TokenKind)
    (pieces : List Piece) :
    (∀ piece ∈ (cut traits previous pieces).1, piece ∈ pieces) ∧
      ∀ part ∈ (cut traits previous pieces).2, ∀ piece ∈ part.body,
        piece ∈ pieces := by
  fun_induction cut traits previous pieces with
  | case1 => simp
  | case2 previous piece pieces heading hheading length head body later hcut ih =>
    rw [hcut] at ih
    have hdrop : ∀ other ∈ pieces.drop length, other ∈ piece :: pieces :=
      fun other hother => List.mem_cons_of_mem piece (List.mem_of_mem_drop hother)
    refine ⟨by simp, fun part hpart other hother => ?_⟩
    rcases List.mem_cons.1 hpart with rfl | hpart
    · exact hdrop other (ih.1 other hother)
    · exact hdrop other (ih.2 part hpart other hother)
  | case3 previous piece pieces hheading body later hcut ih =>
    rw [hcut] at ih
    refine ⟨fun other hother => ?_, fun part hpart other hother => ?_⟩
    · rcases List.mem_cons.1 hother with rfl | hother
      · exact List.mem_cons_self ..
      · exact List.mem_cons_of_mem piece (ih.1 other hother)
    · exact List.mem_cons_of_mem piece (ih.2 part hpart other hother)

end Section

namespace Passage

def opening (passage : Passage) : List Piece :=
  (Section.cut (StatementTraits.ofTokens passage.tokens) none
    (Piece.ofTokens passage.tokens)).1

def headed (passage : Passage) : List Section :=
  (Section.cut (StatementTraits.ofTokens passage.tokens) none
    (Piece.ofTokens passage.tokens)).2

def margin (passage : Passage) : List Token :=
  if passage.openingClause == .leading && passage.opening.all Piece.isTrivia then
    passage.opening.flatMap Piece.tokens
  else []

theorem sections_eq (passage : Passage) :
    passage.sections =
      if passage.openingClause == .leading && passage.opening.all Piece.isTrivia then
        passage.headed
      else ⟨passage.openingClause, [], passage.opening⟩ :: passage.headed := rfl

theorem isTrivia_of_mem_margin {passage : Passage} {token : Token}
    (h : token ∈ passage.margin) : token.isTrivia = true := by
  rw [margin] at h
  split at h
  · next hmargin =>
    rw [Bool.and_eq_true, List.all_eq_true] at hmargin
    obtain ⟨piece, hpiece, htoken⟩ := List.mem_flatMap.1 h
    have htrivia := hmargin.2 piece hpiece
    cases piece with
    | single other =>
      rw [Piece.tokens, List.mem_singleton] at htoken
      rw [htoken]
      exact htrivia
    | group opening inner closing => simp [Piece.isTrivia] at htrivia
  · simp at h

/-- The sections of a passage hold all of its tokens after the margin. -/
theorem margin_append_flatMap_sections (passage : Passage) :
    passage.margin ++ passage.sections.flatMap Section.tokens = passage.tokens := by
  have hcut := Section.flatMap_tokens_cut (StatementTraits.ofTokens passage.tokens)
    none (Piece.ofTokens passage.tokens)
  rw [Piece.flatMap_tokens_ofTokens, ← opening, ← headed] at hcut
  rw [margin, sections_eq]
  split
  · exact hcut
  · rw [List.nil_append, List.flatMap_cons, Section.tokens, List.nil_append]
    exact hcut

theorem openingClause_eq (passage : Passage) :
    passage.openingClause = .leading ∨ passage.openingClause = .from := by
  rw [openingClause]
  split
  · split
    · exact Or.inr rfl
    · exact Or.inl rfl
  · exact Or.inl rfl

theorem openingClause_of_not_relation {passage : Passage}
    (h : passage.relation = false) : passage.openingClause = .leading := by
  rw [openingClause, h]
  split <;> rfl

/-- A section of a passage is what comes before the first heading, or begins with a
heading. -/
theorem eq_or_mem_headed {passage : Passage} {part : Section}
    (h : part ∈ passage.sections) :
    part = ⟨passage.openingClause, [], passage.opening⟩ ∨ part ∈ passage.headed := by
  rw [sections_eq] at h
  split at h
  · exact Or.inr h
  · exact List.mem_cons.1 h

/-- Where a section stands among those that begin with a heading, unless it is the one
before them. -/
theorem opening_or_headed_of_sections_eq {passage : Passage}
    {before after : List Section} {part : Section}
    (h : passage.sections = before ++ part :: after) :
    (before = [] ∧ part = ⟨passage.openingClause, [], passage.opening⟩ ∧
        passage.margin = []) ∨
      ∃ earlier, passage.headed = earlier ++ part :: after ∧
        passage.margin ++ before.flatMap Section.tokens =
          passage.opening.flatMap Piece.tokens ++ earlier.flatMap Section.tokens := by
  rw [sections_eq] at h
  rw [margin]
  split at h
  · next hmargin =>
    rw [if_pos hmargin]
    exact Or.inr ⟨before, h, rfl⟩
  · next hmargin =>
    rw [if_neg hmargin, List.nil_append]
    cases before with
    | nil => exact Or.inl ⟨rfl, (List.cons.inj h).1.symm, rfl⟩
    | cons first before =>
      obtain ⟨rfl, hheaded⟩ := List.cons.inj h
      refine Or.inr ⟨before, hheaded, ?_⟩
      rw [List.flatMap_cons, Section.tokens, List.nil_append]

theorem head_of_mem_sections {passage : Passage} {part : Section}
    (h : part ∈ passage.sections) :
    part.head = [] ∨
      ∃ last, part.head.getLast? = some last ∧ last.keyword?.isSome = true := by
  rcases eq_or_mem_headed h with rfl | hheaded
  · exact Or.inl rfl
  · exact Or.inr (Section.exists_getLast?_of_mem_cut hheaded)

theorem mem_ofTokens_of_mem_body {passage : Passage} {part : Section} {piece : Piece}
    (h : part ∈ passage.sections) (hpiece : piece ∈ part.body) :
    piece ∈ Piece.ofTokens passage.tokens := by
  obtain ⟨hopening, hcut⟩ := Section.mem_of_mem_cut
    (StatementTraits.ofTokens passage.tokens) none (Piece.ofTokens passage.tokens)
  rcases eq_or_mem_headed h with rfl | hheaded
  · exact hopening piece hpiece
  · exact hcut part hheaded piece hpiece

/-- A section of a passage is the first one and has no head, or it opens at a
piece. -/
theorem exists_of_sections_eq {passage : Passage} {before after : List Section}
    {part : Section} (h : passage.sections = before ++ part :: after) :
    (before = [] ∧ part.head = [] ∧ (part.kind = .leading ∨ part.kind = .from)) ∨
      ∃ earlier token later,
        Piece.ofTokens passage.tokens = earlier ++ .single token :: later ∧
        earlier.flatMap Piece.tokens =
          passage.margin ++ before.flatMap Section.tokens ∧
        part.OpensAt token := by
  have hcut := Section.exists_of_cut_eq (StatementTraits.ofTokens passage.tokens) none
    (Piece.ofTokens passage.tokens)
  rw [← opening, ← headed] at hcut
  rcases opening_or_headed_of_sections_eq h with ⟨rfl, rfl, -⟩ |
    ⟨earlier, hheaded, htokens⟩
  · exact Or.inl ⟨rfl, rfl, passage.openingClause_eq⟩
  · rw [htokens]
    exact Or.inr (hcut earlier part after hheaded)

end Passage

end SqlOutline
