import Mathlib.Data.List.Flatten
import Mathlib.Data.List.Nodup
import SqlOutline.Proofs.Statement.Body
import SqlOutline.Proofs.Statement.Partition
import SqlOutline.Proofs.Token.Tiling

/-!
# The nesting of statements

On every level the statements nested in a clause are what groups of its body hold,
each group after the end of the one before (`nesting_of_liesBelow`). Read backwards, a
group that begins with a query is a nested statement, unless its `(` lies in one
(`existsUnique_nested_of_query`).

Both are about places, and so they need that no token occurs twice in a text.
-/

namespace SqlOutline

theorem index_eq_of_nodup_flatMap {α β : Type} {f : α → List β} {l : List α}
    {index other : Nat} {a b : α} {x : β} (h : (l.flatMap f).Nodup)
    (ha : l[index]? = some a) (hb : l[other]? = some b) (hxa : x ∈ f a)
    (hxb : x ∈ f b) : index = other := by
  obtain ⟨hindex, rfl⟩ := List.getElem?_eq_some_iff.1 ha
  obtain ⟨hother, rfl⟩ := List.getElem?_eq_some_iff.1 hb
  have hdisjoint := List.pairwise_iff_getElem.1 (List.nodup_flatMap.1 h).2
  rcases Nat.lt_trichotomy index other with hlt | heq | hgt
  · exact absurd hxb (hdisjoint index other hindex hother hlt hxa)
  · exact heq
  · exact absurd hxa (hdisjoint other index hother hindex hgt hxb)

namespace Token

/-! ## Stretches of a text -/

theorem toList_textOf_of_isInfix {text : String} {tokens : List Token}
    {first last : Token} (h : tokens <:+: tokenize text)
    (hfirst : tokens.head? = some first) (hlast : tokens.getLast? = some last) :
    (textOf tokens).toList = (text.toList.take last.stop).drop first.start := by
  obtain ⟨before, after, hsplit⟩ := h
  obtain ⟨later, hlater⟩ := List.head?_eq_some_iff.1 hfirst
  obtain ⟨init, hinit⟩ := List.getLast?_eq_some_iff.1 hlast
  have hstart : first.start = (textOf before).toList.length + 0 := by
    have htokens : tokenize text = before ++ first :: (later ++ after) := by
      rw [← hsplit, hlater, List.append_assoc, List.cons_append]
    rw [(place_of_tokenize_eq htokens).2.1, String.length_toList, Nat.add_zero]
  have hstop : last.stop =
      (textOf before).toList.length + (textOf tokens).toList.length := by
    have htokens : tokenize text = (before ++ init) ++ last :: after := by
      rw [← hsplit, hinit, List.append_assoc, List.append_assoc, List.append_assoc,
        List.singleton_append]
    obtain ⟨-, hlastStart, hlastStop⟩ := place_of_tokenize_eq htokens
    rw [hlastStop, hlastStart, hinit, textOf_append, textOf_append,
      String.length_toList, String.length_toList, String.length_append,
      String.length_append, Nat.add_assoc]
    simp [textOf]
  have htext : text.toList = (textOf before).toList ++
      ((textOf tokens).toList ++ (textOf after).toList) := by
    rw [← String.toList_append, ← String.toList_append, ← textOf_append,
      ← textOf_append, ← List.append_assoc, hsplit, textOf_tokenize]
  rw [hstart, hstop, htext, drop_take_append _ _ 0 (Nat.le_refl _), List.take_length,
    List.drop_zero]

end Token

namespace Statement

theorem isInfix_of_mem_nested {levels : Nat} {passage : Passage} {inner : Statement}
    {clause : Clause Statement}
    (hclause : clause ∈ (ofPassage levels passage).clauses)
    (hinner : inner ∈ clause.nested) : inner.tokens <:+: passage.tokens := by
  obtain ⟨levels', rfl, part, hpart, passage', hpassage, rfl⟩ :=
    exists_passage_of_mem_nested hclause hinner
  rw [tokens_ofPassage]
  exact Passage.isInfix_of_mem_passages hpart hpassage

theorem LiesBelow.of_mem_nested {top statement inner : Statement} {level : Nat}
    (h : LiesBelow top level statement) (hinner : inner ∈ statement.nested) :
    LiesBelow top (level + 1) inner := by
  obtain ⟨clause, hclause, hmem⟩ := List.mem_flatMap.1 hinner
  exact nested h hclause hmem

theorem LiesBelow.isInfix {levels level : Nat} {passage : Passage}
    {statement : Statement}
    (h : LiesBelow (ofPassage levels passage) level statement) :
    statement.tokens <:+: passage.tokens := by
  induction h with
  | top => exact ⟨[], [], by rw [List.nil_append, List.append_nil, tokens_ofPassage]⟩
  | nested h hclause hinner ih =>
    obtain ⟨-, outer, rfl⟩ := h.exists_ofPassage
    rw [tokens_ofPassage] at ih
    exact (isInfix_of_mem_nested hclause hinner).trans ih

theorem exists_passage_of_liesBelow {text : String} {top statement : Statement}
    {level : Nat} (htop : top ∈ Script.statements text)
    (h : LiesBelow top level statement) :
    level ≤ nestingLimit ∧
      ∃ passage, statement = ofPassage (nestingLimit - level) passage ∧
        passage.tokens <:+: Token.tokenize text := by
  have hstretch := Script.isInfix_of_mem_statements htop
  obtain ⟨tokens, -, rfl⟩ := List.mem_map.1 htop
  obtain ⟨hlevel, passage, rfl⟩ := h.exists_ofPassage
  have hbelow := h.isInfix
  rw [tokens_ofPassage] at hbelow
  rw [ofTokens, tokens_ofPassage] at hstretch
  exact ⟨hlevel, passage, rfl, hbelow.trans hstretch⟩

/-! ## Nested statements are groups -/

end Statement

/-- The statements nested in a clause are what groups hold, each group after the end
of the one before. Their opening parentheses lie in the body of the clause, which
begins at `start`. -/
def Clause.NestsGroups (clause : Clause Statement) (tokens : List Token)
    (start : Nat) : Prop :=
  ∃ spans, GroupSpans tokens spans ∧
    (∀ span ∈ spans, start ≤ span.1 ∧ span.1 < start + clause.body.length) ∧
    clause.nested.map Statement.tokens = contentsOf tokens spans

namespace Statement

/-- How a statement that lies on some level holds other ones, and what it holds of the
text. -/
structure Nesting (text : String) (level : Nat) (statement : Statement) : Prop where
  level_le : level ≤ 256
  nestsGroups : ∃ margin,
    statement.tokens = margin ++ statement.clauses.flatMap Clause.tokens ∧
    ∀ before clause after, statement.clauses = before ++ clause :: after →
      clause.NestsGroups statement.tokens
        (margin ++ (before.flatMap Clause.tokens ++ clause.head)).length
  toList_text : statement.tokens ≠ [] →
    ∃ start stop, statement.span? = some (start, stop) ∧
      statement.text.toList = (text.toList.take stop).drop start

/-- Nested statements are groups, on every level, and every statement is a stretch of
the text. -/
theorem nesting_of_liesBelow {text : String} {top statement : Statement} {level : Nat}
    (htop : top ∈ Script.statements text) (h : LiesBelow top level statement) :
    statement.Nesting text level := by
  obtain ⟨hlevel, passage, rfl, hstretch⟩ := exists_passage_of_liesBelow htop h
  refine ⟨hlevel, ⟨passage.margin, (partition_ofPassage _ passage).tokens_eq, ?_⟩,
    fun hne => ?_⟩
  · intro before clause after hclauses
    rw [tokens_ofPassage]
    exact exists_spans_of_clauses_eq hclauses
  · rw [tokens_ofPassage] at hne
    have hfirst := List.head?_eq_some_head hne
    have hlast := List.getLast?_eq_some_getLast hne
    refine ⟨(passage.tokens.head hne).start, (passage.tokens.getLast hne).stop, ?_,
      ?_⟩
    · rw [span?, tokens_ofPassage, hfirst, hlast]
      rfl
    · rw [Statement.text, tokens_ofPassage]
      exact Token.toList_textOf_of_isInfix hstretch hfirst hlast

def openSubqueryScript : String := "select a, (select b), (select c from (t"

theorem ofTokens_mem_statements_openSubqueryScript :
    ofTokens (Token.tokenize openSubqueryScript) ∈
      Script.statements openSubqueryScript := by
  rw [Script.statements_eq_singleton (by decide +kernel)]
  exact List.mem_singleton_self _

theorem nesting_of_liesBelow_openSubqueryScript :
    ∃ top ∈ Script.statements openSubqueryScript,
      ∃ statement, LiesBelow top 2 statement ∧ statement.text = "t" ∧
        statement.Nesting openSubqueryScript 2 := by
  have hinner : ((ofTokens (Token.tokenize openSubqueryScript)).nested[1]?.bind
        fun outer => outer.nested[0]?).map Statement.text = some "t" := by
    decide +kernel
  obtain ⟨inner, hbind, htext⟩ := Option.map_eq_some_iff.1 hinner
  obtain ⟨outer, houter, hinner⟩ := Option.bind_eq_some_iff.1 hbind
  have htop := ofTokens_mem_statements_openSubqueryScript
  have hbelow := (LiesBelow.top.of_mem_nested
    (List.mem_of_getElem? houter)).of_mem_nested (List.mem_of_getElem? hinner)
  exact ⟨_, htop, inner, hbelow, htext, nesting_of_liesBelow htop hbelow⟩

/-! ## No subquery is lost -/

theorem Partition.exists_body_of_opens {statement : Statement} {margin : List Token}
    (h : statement.Partition margin) {opening : Token}
    (hmem : opening ∈ statement.tokens) (hopens : opening.opens = true) :
    ∃ clause ∈ statement.clauses, opening ∈ clause.body := by
  have hnot : ¬ (opening.keyword?.isSome = true ∨ opening.isTrivia = true) :=
    fun hother => Bool.noConfusion
      (hopens.symm.trans (opens_eq_false_of_keyword?_or_isTrivia hother).1)
  rw [h.tokens_eq] at hmem
  rcases List.mem_append.1 hmem with hmargin | hclauses
  · exact absurd (Or.inr (h.isTrivia opening hmargin)) hnot
  · obtain ⟨clause, hclause, hopening⟩ := List.mem_flatMap.1 hclauses
    refine ⟨clause, hclause, ?_⟩
    rcases List.mem_append.1 hopening with hhead | hbody
    · obtain ⟨before, after, hsplit⟩ := List.append_of_mem hclause
      rcases (h.clause before clause after hsplit).2.2 with ⟨-, hempty, -⟩ | hheaded
      · rw [hempty] at hhead
        exact absurd hhead List.not_mem_nil
      · exact absurd (hheaded.words opening hhead) hnot
    · exact hbody

theorem exists_body_append {levels : Nat} {passage : Passage}
    {before rest : List Token} {opening : Token} (hnodup : passage.tokens.Nodup)
    (htokens : passage.tokens = before ++ opening :: rest)
    (hopens : opening.opens = true) :
    ∃ clause ∈ (ofPassage levels passage).clauses,
      ∃ inner held, clause.body = inner ++ opening :: held ∧
        groupContents rest = groupContents held := by
  have hmem : opening ∈ (ofPassage levels passage).tokens := by
    rw [tokens_ofPassage, htokens]
    exact List.mem_append_right _ (List.mem_cons_self ..)
  obtain ⟨clause, hclause, hbody⟩ :=
    (partition_ofPassage levels passage).exists_body_of_opens hmem hopens
  obtain ⟨inner, held, hbody⟩ := List.append_of_mem hbody
  obtain ⟨earlier, later, hsplit⟩ := List.append_of_mem hclause
  obtain ⟨after, hafter, hclosed⟩ := exists_tokens_of_clauses_eq hsplit
  refine ⟨clause, hclause, inner, held, hbody, ?_⟩
  -- the `(` occurs once, so the tokens after it are the same ones
  have hrest : rest = held ++ after := by
    rw [htokens] at hnodup hafter
    obtain ⟨hfresh, -⟩ := List.nodup_cons.1 (List.nodup_middle.1 hnodup)
    rw [List.mem_append, not_or] at hfresh
    rw [hbody, List.append_assoc inner, List.cons_append,
      ← List.append_assoc] at hafter
    exact ((List.append_cons_inj_of_notMem hfresh.1 hfresh.2).1 hafter).2.2
  have hgroup : groupLength 0 held < held.length ∨ after = [] := by
    rcases hclosed with hnil | hdepth
    · exact Or.inr hnil
    · have hget : clause.body[inner.length]? = some opening := by
        rw [hbody, List.getElem?_append_right (Nat.le_refl _), Nat.sub_self]
        rfl
      have hlt := (groupAt_groupLength hget hopens).closed_lt_length hdepth
      have hdrop : clause.body.drop (inner.length + 1) = held := by
        rw [hbody, List.drop_length_add_append]
        rfl
      rw [hdrop, hbody, List.length_append, List.length_cons] at hlt
      exact Or.inl (by omega)
  rw [hrest, groupContents_append hgroup]

theorem flatMap_tokens_nested_sublist (levels : Nat) (passage : Passage) :
    ((ofPassage levels passage).nested.flatMap tokens).Sublist passage.tokens := by
  have hclauses : ∀ clause ∈ (ofPassage levels passage).clauses,
      (clause.nested.flatMap tokens).Sublist clause.tokens := fun clause hclause =>
    (groups_nested hclause).flatten_sublist.trans (List.sublist_append_right _ _)
  have hall := List.Sublist.flatMap_right (ofPassage levels passage).clauses hclauses
  have htokens := (partition_ofPassage levels passage).tokens_eq
  rw [tokens_ofPassage] at htokens
  rw [nested, List.flatMap_assoc, htokens]
  exact hall.trans (List.sublist_append_right _ _)

/-- A group that begins with a query is nested, unless its `(` lies in a nested
statement. -/
theorem exists_mem_nested_of_beginsQuery {levels : Nat} {passage : Passage}
    {before rest : List Token} {opening : Token} (hnodup : passage.tokens.Nodup)
    (htokens : passage.tokens = before ++ opening :: rest)
    (hopens : opening.opens = true) (hquery : beginsQuery rest = true)
    (houtside : ∀ inner ∈ (ofPassage (levels + 1) passage).nested, opening ∉
      inner.tokens) :
    ∃ inner ∈ (ofPassage (levels + 1) passage).nested, inner.tokens =
      groupContents rest := by
  obtain ⟨clause, hclause, inner, held, hbody, hcontents⟩ :=
    @exists_body_append (levels + 1) passage before rest opening hnodup htokens hopens
  have hheld : beginsQuery held = true := by
    rw [← beginsQuery_groupContents, ← hcontents, beginsQuery_groupContents, hquery]
  obtain ⟨part, hpart, rfl⟩ := List.mem_map.1 hclause
  have hmem : ∀ passage' ∈ part.passages,
      ofPassage levels passage' ∈ (ofPassage (levels + 1) passage).nested :=
    fun passage' hpassage =>
      List.mem_flatMap.2 ⟨_, hclause, List.mem_map_of_mem hpassage⟩
  have hfound := Passage.groupContents_mem_ofPieces part.kind hopens hheld
    (part.body.flatMap Piece.tokens) (part.head.getLast?.map (·.kind)) inner hbody
  rw [Passage.ofTokens_body hpart] at hfound
  have hpassages := hfound fun contents hmemContents => by
    obtain ⟨passage', hpassage, rfl⟩ := List.mem_map.1 hmemContents
    have hinner := houtside _ (hmem passage' hpassage)
    rwa [tokens_ofPassage] at hinner
  obtain ⟨passage', hpassage, hsame⟩ := List.mem_map.1 hpassages
  refine ⟨_, hmem passage' hpassage, ?_⟩
  rw [tokens_ofPassage, hsame, hcontents]

/-- No subquery is lost: a group of a statement that begins with a query, and whose
`(` lies in no nested statement, is exactly one of the nested statements. -/
theorem existsUnique_nested_of_query {text : String} {top statement : Statement}
    {level : Nat} (htop : top ∈ Script.statements text)
    (h : LiesBelow top level statement) (hlevel : level < 256) {opened : Nat}
    {opening next : Token} (hopening : statement.tokens[opened]? = some opening)
    (hopens : opening.opens = true)
    (houtside : ∀ inner ∈ statement.nested, opening ∉ inner.tokens)
    (hnext : (significant (statement.tokens.drop (opened + 1))).head? = some next)
    (hquery : next.isKeyword .select = true ∨ next.isKeyword .with = true) :
    ∃ closed, GroupAt statement.tokens opened closed ∧
      ∃! index : Nat, statement.nested[index]?.map tokens =
        some (between statement.tokens opened closed) := by
  obtain ⟨-, passage, rfl, hstretch⟩ := exists_passage_of_liesBelow htop h
  obtain ⟨levels, hlevels⟩ : ∃ levels, nestingLimit - level = levels + 1 :=
    Nat.exists_eq_succ_of_ne_zero (Nat.sub_ne_zero_of_lt hlevel)
  rw [hlevels] at houtside ⊢
  rw [tokens_ofPassage] at hopening hnext ⊢
  have hnodup := hstretch.sublist.nodup (Token.nodup_tokenize text)
  have hbegins : beginsQuery (passage.tokens.drop (opened + 1)) = true := by
    rw [beginsQuery, hnext]
    simpa [Lexeme.startsQuery] using hquery
  obtain ⟨hlt, hget⟩ := List.getElem?_eq_some_iff.1 hopening
  have htokens : passage.tokens = passage.tokens.take opened ++
      opening :: passage.tokens.drop (opened + 1) := by
    rw [← hget, ← List.drop_eq_getElem_cons hlt, List.take_append_drop]
  have hgroup := groupAt_groupLength hopening hopens
  obtain ⟨inner, hinner, hcontents⟩ :=
    exists_mem_nested_of_beginsQuery hnodup htokens hopens hbegins houtside
  obtain ⟨index, hindex, rfl⟩ := List.getElem_of_mem hinner
  refine ⟨_, hgroup, index, ?_, fun other hother => ?_⟩
  · dsimp only
    rw [hgroup.between_eq, ← hcontents, List.getElem?_eq_getElem hindex,
      Option.map_some]
  -- two nested statements with these tokens would share a token
  · rw [hgroup.between_eq, ← hcontents] at hother
    obtain ⟨same, hsame, htokensSame⟩ := Option.map_eq_some_iff.1 hother
    have hne : groupContents (passage.tokens.drop (opened + 1)) ≠ [] := by
      intro hnil
      rw [← beginsQuery_groupContents, hnil] at hbegins
      exact Bool.noConfusion hbegins
    obtain ⟨word, hword⟩ := List.exists_mem_of_ne_nil _ hne
    rw [← hcontents] at hword
    have hnested := (flatMap_tokens_nested_sublist (levels + 1) passage).nodup hnodup
    exact index_eq_of_nodup_flatMap hnested hsame (List.getElem?_eq_getElem hindex)
      (htokensSame ▸ hword) hword

theorem existsUnique_nested_of_query_openSubqueryScript :
    ∃ top ∈ Script.statements openSubqueryScript,
      ∃ closed, GroupAt top.tokens 12 closed ∧
        ∃! index : Nat, top.nested[index]?.map tokens =
          some (between top.tokens 12 closed) := by
  have hopening : (ofTokens (Token.tokenize openSubqueryScript)).tokens[12]? =
      some ⟨⟨.parenOpen, "("⟩, 0, 22, 23⟩ := by decide +kernel
  have houtside : ∀ inner ∈ (ofTokens (Token.tokenize openSubqueryScript)).nested,
      (⟨⟨.parenOpen, "("⟩, 0, 22, 23⟩ : Token) ∉ inner.tokens := by
    have hall : (ofTokens (Token.tokenize openSubqueryScript)).nested.all
          (fun inner =>
            decide ((⟨⟨.parenOpen, "("⟩, 0, 22, 23⟩ : Token) ∉ inner.tokens)) =
        true := by
      decide +kernel
    simpa using hall
  have hnext : (significant
        ((ofTokens (Token.tokenize openSubqueryScript)).tokens.drop 13)).head? =
      some ⟨⟨.keyword .select, "select"⟩, 0, 23, 29⟩ := by
    decide +kernel
  have htop := ofTokens_mem_statements_openSubqueryScript
  exact ⟨_, htop,
    existsUnique_nested_of_query htop .top (by decide) hopening rfl houtside hnext
      (Or.inl rfl)⟩

end Statement

end SqlOutline
