import SqlOutline.Proofs.Piece.Spans
import SqlOutline.Proofs.Piece.Stretch
import SqlOutline.Proofs.Statement.Nested

/-!
# Subqueries

The passages nested in a list of pieces are what some of its groups hold, one group
after another (`groups_ofPieces`). No subquery is left out: a group that begins with a
query is one of these passages, unless its `(` lies in one of them
(`groupContents_mem_ofPieces`).
-/

namespace SqlOutline

/-! ## Where a query begins -/

theorem beginsQuery_groupContents (tokens : List Token) :
    beginsQuery (groupContents tokens) = beginsQuery tokens := by
  induction tokens with
  | nil => rfl
  | cons token tokens ih =>
    rw [groupContents] at ih ⊢
    rcases token.opens_closes_cases with ⟨hopens, -⟩ | ⟨hopens, hcloses⟩ |
      ⟨hopens, hcloses⟩
    · have htrivia := Lexeme.isTrivia_of_opens hopens
      simp [groupLength, hopens, beginsQuery, significant_cons _ htrivia]
    · have htrivia := Lexeme.isTrivia_of_closes hcloses
      have hkind : token.kind = .parenClose := by simpa [Lexeme.closes] using hcloses
      simp [groupLength, hopens, hcloses, beginsQuery, significant_cons _ htrivia,
        Lexeme.startsQuery, Lexeme.isKeyword, hkind]
    · by_cases htrivia : token.isTrivia = true
      · simpa [groupLength, hopens, hcloses, beginsQuery,
          significant_cons_of_isTrivia _ htrivia] using ih
      · have hsignificant : token.isTrivia = false := by simpa using htrivia
        simp [groupLength, hopens, hcloses, beginsQuery,
          significant_cons _ hsignificant]

theorem opens_eq_false_of_startsQuery {lexeme : Lexeme}
    (h : lexeme.startsQuery = true) : lexeme.opens = false := by
  rw [Lexeme.startsQuery, Bool.or_eq_true, Lexeme.isKeyword, Lexeme.isKeyword,
    beq_iff_eq, beq_iff_eq] at h
  rcases h with h | h <;> rw [Lexeme.opens, h] <;> rfl

theorem opensQuery_append {before : List Token}
    (h : ∀ token ∈ before, token.isTrivia = true ∨ token.opens = true)
    (rest : List Token) : opensQuery (before ++ rest) = opensQuery rest := by
  rw [opensQuery, leading?, List.dropWhile_append_of_pos fun token htoken => by
    simpa using h token htoken]
  rfl

theorem opensQuery_of_beginsQuery {tokens : List Token}
    (h : beginsQuery tokens = true) : opensQuery tokens = true := by
  induction tokens with
  | nil => simp [beginsQuery] at h
  | cons token tokens ih =>
    by_cases htrivia : token.isTrivia = true
    · rw [beginsQuery, significant_cons_of_isTrivia _ htrivia] at h
      rw [← List.singleton_append, opensQuery_append (by simp [htrivia])]
      exact ih h
    · have hsignificant : token.isTrivia = false := by simpa using htrivia
      rw [beginsQuery, significant_cons _ hsignificant] at h
      have hstarts : token.startsQuery = true := h
      simp [opensQuery, leading?, hsignificant, opens_eq_false_of_startsQuery hstarts,
        hstarts]

private theorem inside_or_after_group (before rest : List Token) {opening : Token}
    (hopens : opening.opens = true) :
    (∃ rest', groupContents (before ++ opening :: rest) = before ++ opening :: rest' ∧
        groupContents rest' = groupContents rest) ∨
      ∃ before',
        (before ++ opening :: rest).drop
            (groupLength 0 (before ++ opening :: rest) + 1) =
          before' ++ opening :: rest := by
  generalize hlength : groupLength 0 (before ++ opening :: rest) = length
  rcases Nat.lt_trichotomy before.length length with hlt | heq | hgt
  · left
    have hcontents : groupContents (before ++ opening :: rest) =
        before ++ opening :: rest.take (length - before.length - 1) := by
      rw [groupContents, hlength, List.take_append,
        List.take_of_length_le (Nat.le_of_lt hlt), List.take_cons (by omega)]
    refine ⟨_, hcontents, ?_⟩
    have hdrop := @groupContents_drop_take 0 (before.length + 1)
      (before ++ opening :: rest) (by omega)
    rw [← groupContents, hcontents] at hdrop
    simpa using hdrop
  · have hclosing : (before ++ opening :: rest)[groupLength 0
          (before ++ opening :: rest)]? = some opening := by
      rw [hlength, ← heq, List.getElem?_append_right (Nat.le_refl _), Nat.sub_self]
      rfl
    have hcloses := closes_of_getElem?_groupLength hclosing
    rw [Lexeme.closes_eq_false_of_opens hopens] at hcloses
    exact Bool.noConfusion hcloses
  · right
    exact ⟨before.drop (length + 1), List.drop_append_of_le_length hgt⟩

/-! ## Queries within a group -/

private theorem groups_queriesWithin (tokens : List Token) :
    Groups tokens (queriesWithin tokens) := by
  induction tokens using queriesWithin.induct with
  | case1 =>
    rw [queriesWithin]
    exact Groups.nil []
  | case2 token tokens hopens hquery length ih =>
    rw [queriesWithin, if_pos hopens, if_pos hquery]
    exact Groups.group hopens ih
  | case3 token tokens hopens hquery ih =>
    rw [queriesWithin, if_pos hopens, if_neg hquery]
    exact Groups.skip token (ih.of_isSuffix (List.dropWhile_suffix _))
  | case4 token tokens hopens ih =>
    rw [queriesWithin, if_neg hopens]
    exact Groups.skip token ih

private theorem groupContents_mem_queriesWithin {opening : Token} {rest : List Token}
    (hopens : opening.opens = true) (hquery : beginsQuery rest = true)
    (tokens : List Token) :
    ∀ before, tokens = before ++ opening :: rest →
      (∀ query ∈ queriesWithin tokens, opening ∉ query) →
      groupContents rest ∈ queriesWithin tokens := by
  induction tokens using queriesWithin.induct with
  | case1 => simp
  | case2 token tokens htoken htokenQuery length ih =>
    intro before htokens houtside
    rw [queriesWithin, if_pos htoken, if_pos htokenQuery] at houtside ⊢
    cases before with
    | nil =>
      rw [(List.cons.inj htokens).2]
      exact List.mem_cons_self ..
    | cons first before =>
      rw [List.cons_append] at htokens
      obtain ⟨rfl, rfl⟩ := List.cons.inj htokens
      rcases inside_or_after_group before rest hopens with ⟨rest', hinside, -⟩ |
        ⟨before', hafter⟩
      · have hmem : opening ∈ groupContents (before ++ opening :: rest) := by
          simp [hinside]
        exact absurd hmem (houtside _ (List.mem_cons_self ..))
      · exact List.mem_cons_of_mem _ (ih before' hafter fun query hmem =>
          houtside query (List.mem_cons_of_mem _ hmem))
  | case3 token tokens htoken htokenQuery ih =>
    intro before htokens houtside
    rw [queriesWithin, if_pos htoken, if_neg htokenQuery] at houtside ⊢
    have hleads : opensQuery (opening :: rest) = true := by
      rw [← List.singleton_append, opensQuery_append (by simp [hopens])]
      exact opensQuery_of_beginsQuery hquery
    have hrow : ∀ skipped, tokens = skipped ++ opening :: rest →
        ∃ other ∈ skipped, (other.isTrivia || other.opens) = false := by
      rintro skipped rfl
      by_contra hnone
      simp only [not_exists, not_and, Bool.not_eq_false, Bool.or_eq_true] at hnone
      rw [opensQuery_append hnone] at htokenQuery
      exact htokenQuery hleads
    cases before with
    | nil =>
      obtain ⟨rfl, rfl⟩ := List.cons.inj htokens
      exact absurd (opensQuery_of_beginsQuery hquery) htokenQuery
    | cons first before =>
      rw [List.cons_append] at htokens
      obtain ⟨rfl, rfl⟩ := List.cons.inj htokens
      obtain ⟨other, hother, hstops⟩ := hrow before rfl
      have hne :
          before.dropWhile (fun token => token.isTrivia || token.opens) ≠ [] := by
        rw [Ne, List.dropWhile_eq_nil_iff]
        intro hall
        simp [hall other hother] at hstops
      apply ih (before.dropWhile fun token => token.isTrivia || token.opens) _
        houtside
      rw [List.dropWhile_append, if_neg (by simpa using hne)]
  | case4 token tokens htoken ih =>
    intro before htokens houtside
    rw [queriesWithin, if_neg htoken] at houtside ⊢
    cases before with
    | nil => exact absurd ((List.cons.inj htokens).1 ▸ hopens) htoken
    | cons first before => exact ih before (List.cons.inj htokens).2 houtside

namespace Passage

/-! ## Groups of a clause -/

theorem map_tokens_ofGroup (clause : ClauseKind) (previous : Option TokenKind)
    (inner : List Token) :
    (ofGroup clause previous inner).map Passage.tokens = [inner] ∨
      (ofGroup clause previous inner).map Passage.tokens = queriesWithin inner := by
  have hqueries : ((queriesWithin inner).map (⟨false, ·⟩)).map Passage.tokens =
      queriesWithin inner := by
    rw [List.map_map]
    exact List.map_id' _
  rw [ofGroup]
  split_ifs
  · exact Or.inl rfl
  · exact Or.inr hqueries
  · exact Or.inl rfl
  · exact Or.inl rfl
  · exact Or.inr hqueries

theorem map_tokens_ofGroup_of_beginsQuery (clause : ClauseKind)
    (previous : Option TokenKind) {inner : List Token}
    (h : beginsQuery inner = true) :
    (ofGroup clause previous inner).map Passage.tokens = [inner] := by
  rw [ofGroup, if_pos h, if_pos (opensQuery_of_beginsQuery h)]
  split_ifs <;> rfl

theorem groups_ofGroup (clause : ClauseKind) (previous : Option TokenKind)
    {opening : Token} {tokens : List Token} {contents : List (List Token)}
    (hopens : opening.opens = true)
    (h : Groups (tokens.drop (groupLength 0 tokens + 1)) contents) :
    Groups (opening :: tokens) ((ofGroup clause previous (groupContents tokens)).map
        Passage.tokens ++ contents) := by
  rcases map_tokens_ofGroup clause previous (groupContents tokens) with hwhole |
    hqueries
  · rw [hwhole]
    exact Groups.group hopens h
  · rw [hqueries]
    exact Groups.skip opening (Groups.append (groups_queriesWithin _) h)

theorem groups_ofPieces (clause : ClauseKind) (previous : Option TokenKind)
    (tokens : List Token) :
    Groups tokens
      ((ofPieces clause previous (Piece.ofTokens tokens)).map Passage.tokens) := by
  induction tokens using Piece.induction_ofTokens generalizing previous with
  | nil =>
    rw [Piece.ofTokens_nil]
    exact Groups.nil []
  | group token tokens hopens ih =>
    rw [Piece.ofTokens_cons_of_opens tokens hopens, ofPieces, List.map_append]
    exact groups_ofGroup clause previous hopens (ih _)
  | single token tokens hopens ih =>
    rw [Piece.ofTokens_cons_of_not_opens tokens hopens, ofPieces]
    exact Groups.skip token (ih _)

theorem groupContents_mem_ofGroup (clause : ClauseKind) (previous : Option TokenKind)
    {opening : Token} {before rest : List Token} (hopens : opening.opens = true)
    (hquery : beginsQuery rest = true)
    (houtside : ∀ contents ∈
      (ofGroup clause previous (before ++ opening :: rest)).map Passage.tokens,
        opening ∉ contents) :
    groupContents rest ∈
      (ofGroup clause previous (before ++ opening :: rest)).map Passage.tokens := by
  rcases map_tokens_ofGroup clause previous (before ++ opening :: rest) with hwhole |
    hqueries
  · rw [hwhole] at houtside
    exact absurd (by simp) (houtside _ (List.mem_singleton_self _))
  · rw [hqueries] at houtside ⊢
    exact groupContents_mem_queriesWithin hopens hquery _ before rfl houtside

/-- A group that begins with a query is a passage, unless its `(` lies in a
passage. -/
theorem groupContents_mem_ofPieces (clause : ClauseKind) {opening : Token}
    {rest : List Token} (hopens : opening.opens = true)
    (hquery : beginsQuery rest = true) (tokens : List Token) :
    ∀ previous before, tokens = before ++ opening :: rest →
      (∀ contents ∈ (ofPieces clause previous (Piece.ofTokens tokens)).map
          Passage.tokens, opening ∉ contents) →
      groupContents rest ∈
        (ofPieces clause previous (Piece.ofTokens tokens)).map Passage.tokens := by
  induction tokens using Piece.induction_ofTokens with
  | nil => simp
  | group token tokens htoken ih =>
    intro previous before htokens houtside
    rw [Piece.ofTokens_cons_of_opens tokens htoken, ofPieces,
      List.map_append] at houtside ⊢
    cases before with
    | nil =>
      obtain ⟨rfl, rfl⟩ := List.cons.inj htokens
      rw [← beginsQuery_groupContents] at hquery
      rw [map_tokens_ofGroup_of_beginsQuery clause previous hquery]
      exact List.mem_append_left _ (List.mem_singleton_self _)
    | cons first before =>
      rw [List.cons_append] at htokens
      obtain ⟨rfl, rfl⟩ := List.cons.inj htokens
      rcases inside_or_after_group before rest hopens with ⟨rest', hinside, hsame⟩ |
        ⟨before', hafter⟩
      · have hquery' : beginsQuery rest' = true := by
          rw [← beginsQuery_groupContents, hsame, beginsQuery_groupContents, hquery]
        rw [hinside] at houtside ⊢
        rw [← hsame]
        exact List.mem_append_left _
          (groupContents_mem_ofGroup clause previous hopens hquery'
            fun contents hmem => houtside contents (List.mem_append_left _ hmem))
      · exact List.mem_append_right _ (ih _ before' hafter
          fun contents hmem => houtside contents (List.mem_append_right _ hmem))
  | single token tokens htoken ih =>
    intro previous before htokens houtside
    rw [Piece.ofTokens_cons_of_not_opens tokens htoken, ofPieces] at houtside ⊢
    cases before with
    | nil =>
      rw [← (List.cons.inj htokens).1, htoken] at hopens
      exact Bool.noConfusion hopens
    | cons first before => exact ih _ before (List.cons.inj htokens).2 houtside

end Passage

end SqlOutline
