import SqlOutline.Proofs.Lineage.Scope
import SqlOutline.Proofs.Statement.Nesting

/-!
# Where a name is written

A name of a table is written at the end of one path only (`Writes.unique`): the
clauses of a statement share no token, no more do the items of a list of tables, and
what is nested in a clause lies in groups, apart from the items around them. So a
mention tells the path of its name.
-/

namespace SqlOutline

/-! ## Lists without repetitions -/

private theorem eq_of_nodup_flatMap {α β : Type} {f : α → List β} {l : List α}
    {a b : α} {x : β} (h : (l.flatMap f).Nodup) (ha : a ∈ l) (hb : b ∈ l)
    (hxa : x ∈ f a) (hxb : x ∈ f b) : a = b := by
  obtain ⟨index, hindex⟩ := List.getElem?_of_mem ha
  obtain ⟨other, hother⟩ := List.getElem?_of_mem hb
  have hsame := index_eq_of_nodup_flatMap h hindex hother hxa hxb
  rw [hsame, hother, Option.some_inj] at hindex
  exact hindex.symm

theorem flatten_splitOnP_sublist {α : Type} (p : α → Bool) (l : List α) :
    (l.splitOnP p).flatten.Sublist l := by
  induction l with
  | nil => simp
  | cons x l ih =>
    rw [List.splitOnP_cons_eq_if_modifyHead]
    split
    · rw [List.flatten_cons, List.nil_append]
      exact ih.cons x
    · obtain ⟨first, parts, hparts⟩ :=
        List.exists_cons_of_ne_nil (List.splitOnP_ne_nil p l)
      rw [hparts, List.flatten_cons] at ih
      rw [hparts, List.modifyHead_cons, List.flatten_cons, List.cons_append]
      exact ih.cons_cons x

namespace Piece

theorem mem_of_mem_commaItems {pieces item : List Piece} {piece : Piece}
    (h : item ∈ commaItems pieces) (hpiece : piece ∈ item) :
    piece ∈ pieces ∧ piece.isTrivia = false := by
  have hmem := (Script.isInfix_of_mem_splitOnP h).mem hpiece
  obtain ⟨hpieces, hsignificant⟩ := List.mem_filter.1 hmem
  exact ⟨hpieces, by simpa using hsignificant⟩

theorem mem_of_single_mem_ofTokens {tokens : List Token} {token : Token}
    (h : .single token ∈ ofTokens tokens) : token ∈ tokens := by
  rw [← flatMap_tokens_ofTokens tokens]
  exact List.mem_flatMap.2 ⟨.single token, h, List.mem_singleton_self token⟩

private theorem eq_of_mem_commaItems {tokens : List Token} (hnodup : tokens.Nodup)
    {item other : List Piece} {token : Token}
    (hitem : item ∈ commaItems (ofTokens tokens))
    (hother : other ∈ commaItems (ofTokens tokens)) (hmem : .single token ∈ item)
    (hmemOther : .single token ∈ other) : item = other := by
  have hsublist : ((commaItems (ofTokens tokens)).flatMap fun item =>
      item.flatMap Piece.tokens).Sublist tokens := by
    have hpieces := (flatten_splitOnP_sublist (isKind .comma)
      (significant (ofTokens tokens))).trans List.filter_sublist
    have htokens := hpieces.flatMap Piece.tokens
    rw [flatMap_tokens_ofTokens] at htokens
    rw [← List.flatMap_id, List.flatMap_assoc] at htokens
    exact htokens
  exact eq_of_nodup_flatMap (hsublist.nodup hnodup) hitem hother
    (List.mem_flatMap.2 ⟨_, hmem, List.mem_singleton_self token⟩)
    (List.mem_flatMap.2 ⟨_, hmemOther, List.mem_singleton_self token⟩)

private theorem not_mem_of_single_mem {tokens : List Token} (hnodup : tokens.Nodup)
    {token opening : Token} {inner : List Token} {closing : Option Token}
    (hsingle : .single token ∈ ofTokens tokens)
    (hgroup : .group opening inner closing ∈ ofTokens tokens) : token ∉ inner := by
  intro hmem
  rw [← flatMap_tokens_ofTokens tokens] at hnodup
  have hmemGroup : token ∈ (group opening inner closing).tokens :=
    List.mem_append_left _ (List.mem_cons_of_mem opening hmem)
  have hsame := eq_of_nodup_flatMap hnodup hsingle hgroup
    (List.mem_singleton_self token) hmemGroup
  exact Piece.noConfusion hsame

end Piece

theorem TableName.single_first_mem {item : List Piece} {name : TableName}
    (h : ofItem? item = some name) : .single name.first ∈ item := by
  rw [ofItem?] at h
  split at h
  · next first pieces hdrop =>
    have hfirst : .single first ∈ item := by
      have hmem := List.mem_cons_self (a := Piece.single first) (l := pieces)
      rw [← hdrop] at hmem
      exact (List.dropWhile_suffix _).mem hmem
    dsimp only at h
    split at h
    · rw [← Option.some_inj.1 h]
      exact hfirst
    · simp at h
  · simp at h

namespace Statement

/-! ## Statements that are read from tokens -/

def IsParsed (statement : Statement) : Prop :=
  ∃ levels passage, statement = ofPassage levels passage

namespace IsParsed

variable {statement inner : Statement} {clause : Clause Statement}

theorem of_mem_nested (h : statement.IsParsed) (hclause : clause ∈ statement.clauses)
    (hinner : inner ∈ clause.nested) :
    inner.IsParsed ∧ inner.tokens <:+: statement.tokens := by
  obtain ⟨levels, passage, rfl⟩ := h
  have hstretch := isInfix_of_mem_nested hclause hinner
  obtain ⟨levels', -, -, -, passage', -, rfl⟩ :=
    exists_passage_of_mem_nested hclause hinner
  rw [tokens_ofPassage levels passage]
  exact ⟨⟨levels', passage', rfl⟩, hstretch⟩

theorem flatMap_tokens_sublist (h : statement.IsParsed) :
    (statement.clauses.flatMap Clause.tokens).Sublist statement.tokens := by
  obtain ⟨levels, passage, rfl⟩ := h
  rw [(partition_ofPassage levels passage).tokens_eq]
  exact List.sublist_append_right _ _

theorem flatMap_nested_sublist (h : statement.IsParsed)
    (hclause : clause ∈ statement.clauses) :
    (clause.nested.flatMap tokens).Sublist clause.body := by
  obtain ⟨levels, passage, rfl⟩ := h
  exact (groups_nested hclause).flatten_sublist

theorem exists_group (h : statement.IsParsed) (hclause : clause ∈ statement.clauses)
    (hinner : inner ∈ clause.nested) :
    ∃ opening held closing, .group opening held closing ∈ Piece.ofTokens clause.body ∧
      inner.tokens <:+: held := by
  obtain ⟨levels, passage, rfl⟩ := h
  cases levels with
  | zero =>
    obtain ⟨part, -, rfl⟩ := List.mem_map.1 hclause
    exact absurd hinner List.not_mem_nil
  | succ levels =>
    obtain ⟨part, hpart, rfl⟩ := List.mem_map.1 hclause
    obtain ⟨passage', hpassage, rfl⟩ := List.mem_map.1 hinner
    rw [tokens_ofPassage, Section.toClause, Passage.ofTokens_body hpart]
    exact Passage.exists_group_of_mem_ofPieces hpassage

theorem nodup_body (h : statement.IsParsed) (hnodup : statement.tokens.Nodup)
    (hclause : clause ∈ statement.clauses) : clause.body.Nodup := by
  have hclauses := h.flatMap_tokens_sublist.nodup hnodup
  exact (List.sublist_append_right _ _).nodup
    ((List.nodup_flatMap.1 hclauses).1 clause hclause)

theorem clause_eq {other : Clause Statement} {token : Token} (h : statement.IsParsed)
    (hnodup : statement.tokens.Nodup) (hclause : clause ∈ statement.clauses)
    (hother : other ∈ statement.clauses) (hmem : token ∈ clause.body)
    (hmemOther : token ∈ other.body) : clause = other :=
  eq_of_nodup_flatMap (h.flatMap_tokens_sublist.nodup hnodup) hclause hother
    (List.mem_append_right _ hmem) (List.mem_append_right _ hmemOther)

theorem mem_body_of_mem_nested {token : Token} (h : statement.IsParsed)
    (hclause : clause ∈ statement.clauses) (hinner : inner ∈ clause.nested)
    (hmem : token ∈ inner.tokens) : token ∈ clause.body :=
  (h.flatMap_nested_sublist hclause).mem (List.mem_flatMap.2 ⟨inner, hinner, hmem⟩)

theorem not_mem_nested {token : Token} (h : statement.IsParsed)
    (hnodup : statement.tokens.Nodup) (hclause : clause ∈ statement.clauses)
    (hinner : inner ∈ clause.nested)
    (hsingle : .single token ∈ Piece.ofTokens clause.body) :
    token ∉ inner.tokens := by
  obtain ⟨opening, held, closing, hgroup, hstretch⟩ := h.exists_group hclause hinner
  intro hmem
  exact Piece.not_mem_of_single_mem (h.nodup_body hnodup hclause) hsingle hgroup
    (hstretch.mem hmem)

end IsParsed

namespace Writes

/-- A name of a table is written with tokens of the statement. -/
theorem first_mem {statement : Statement} {frames : List Frame} {name : TableName}
    (h : statement.Writes frames name) (hparsed : statement.IsParsed) :
    name.first ∈ statement.tokens := by
  induction h with
  | @own statement clause item name hclause hlists hitem hname =>
    obtain ⟨hpiece, -⟩ :=
      Piece.mem_of_mem_commaItems hitem (TableName.single_first_mem hname)
    have hbody : name.first ∈ clause.tokens :=
      List.mem_append_right _ (Piece.mem_of_single_mem_ofTokens hpiece)
    exact hparsed.flatMap_tokens_sublist.mem (List.mem_flatMap.2 ⟨_, hclause, hbody⟩)
  | nested hclause hinner h ih =>
    obtain ⟨hinnerParsed, hstretch⟩ :=
      hparsed.of_mem_nested hclause (List.mem_of_getElem? hinner)
    exact hstretch.mem (ih hinnerParsed)

theorem isTrivia_first {statement : Statement} {frames : List Frame}
    {name : TableName} (h : statement.Writes frames name) :
    name.first.isTrivia = false := by
  induction h with
  | own hclause hlists hitem hname =>
    exact (Piece.mem_of_mem_commaItems hitem (TableName.single_first_mem hname)).2
  | nested hclause hinner h ih => exact ih

/-- A name of a table is written at the end of one path only. -/
theorem unique {statement : Statement} {frames others : List Frame}
    {name other : TableName} (h : statement.Writes frames name)
    (hparsed : statement.IsParsed) (hnodup : statement.tokens.Nodup)
    (hother : statement.Writes others other) (hfirst : name.first = other.first) :
    frames = others ∧ name = other := by
  induction h generalizing others with
  | @own statement clause item name hclause hlists hitem hname =>
    have hsingle := TableName.single_first_mem hname
    have hpiece := (Piece.mem_of_mem_commaItems hitem hsingle).1
    have hbody := Piece.mem_of_single_mem_ofTokens hpiece
    cases hother with
    | own hclause' hlists' hitem' hname' =>
      have hsingle' := TableName.single_first_mem hname'
      rw [← hfirst] at hsingle'
      have hpiece' := (Piece.mem_of_mem_commaItems hitem' hsingle').1
      obtain rfl := hparsed.clause_eq hnodup hclause hclause' hbody
        (Piece.mem_of_single_mem_ofTokens hpiece')
      obtain rfl := Piece.eq_of_mem_commaItems (hparsed.nodup_body hnodup hclause)
        hitem hitem' hsingle hsingle'
      exact ⟨rfl, Option.some_inj.1 (hname.symm.trans hname')⟩
    | nested hclause' hinner' h' =>
      have hmem' := List.mem_of_getElem? hinner'
      have hnested := h'.first_mem (hparsed.of_mem_nested hclause' hmem').1
      rw [← hfirst] at hnested
      obtain rfl := hparsed.clause_eq hnodup hclause hclause' hbody
        (hparsed.mem_body_of_mem_nested hclause' hmem' hnested)
      exact absurd hnested (hparsed.not_mem_nested hnodup hclause hmem' hpiece)
  | @nested statement inner clause index frames name hclause hinner h ih =>
    have hmem := List.mem_of_getElem? hinner
    obtain ⟨hinnerParsed, hstretch⟩ := hparsed.of_mem_nested hclause hmem
    have hnested := h.first_mem hinnerParsed
    have hbody := hparsed.mem_body_of_mem_nested hclause hmem hnested
    cases hother with
    | own hclause' hlists' hitem' hname' =>
      have hpiece' :=
        (Piece.mem_of_mem_commaItems hitem' (TableName.single_first_mem hname')).1
      rw [← hfirst] at hpiece'
      obtain rfl := hparsed.clause_eq hnodup hclause hclause' hbody
        (Piece.mem_of_single_mem_ofTokens hpiece')
      exact absurd hnested (hparsed.not_mem_nested hnodup hclause hmem hpiece')
    | nested hclause' hinner' h' =>
      have hmem' := List.mem_of_getElem? hinner'
      have hnested' := h'.first_mem (hparsed.of_mem_nested hclause' hmem').1
      rw [← hfirst] at hnested'
      obtain rfl := hparsed.clause_eq hnodup hclause hclause' hbody
        (hparsed.mem_body_of_mem_nested hclause' hmem' hnested')
      obtain rfl := index_eq_of_nodup_flatMap
        ((hparsed.flatMap_nested_sublist hclause).nodup
          (hparsed.nodup_body hnodup hclause)) hinner hinner' hnested hnested'
      obtain rfl := Option.some_inj.1 (hinner.symm.trans hinner')
      obtain ⟨rfl, rfl⟩ := ih hinnerParsed (hstretch.sublist.nodup hnodup) h' hfirst
      exact ⟨rfl, rfl⟩

end Writes

end Statement

end SqlOutline
