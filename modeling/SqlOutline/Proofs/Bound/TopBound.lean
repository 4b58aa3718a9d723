import SqlOutline.Proofs.Bound.Inserted
import SqlOutline.Proofs.Bound.SelectClause

/-!
# The bound of `TOP` in an unbounded query

With `TOP` and a number written behind a `SELECT` outside parentheses, an unbounded
query that combines nothing is a query that combines nothing still, and has the bound
that the number gives (`WritesTop.boundIn_of_not_isBounded`).
-/

namespace SqlOutline

open Token

theorem Statement.mainKind_ofTokens (tokens : List Token) :
    (ofTokens tokens).mainKind = if StatementKind.ofTokens tokens = .with then
      (((⟨false, tokens⟩ : Passage).sections.map Section.kind).find? fun kind =>
        kind != .with && kind != .leading).elim .unknown ClauseKind.statementKind
      else StatementKind.ofTokens tokens := by
  obtain ⟨nested, hclauses⟩ := exists_nested_of_ofPassage nestingLimit ⟨false, tokens⟩
  have hfind : (ofTokens tokens).clauses.find?
        (fun clause => clause.kind != .with && clause.kind != .leading) =
      ((⟨false, tokens⟩ : Passage).sections.find? fun part =>
        part.kind != .with && part.kind != .leading).map fun part =>
        part.toClause (nested part) := by
    rw [ofTokens, hclauses, List.find?_map]
    rfl
  have hkind : (((⟨false, tokens⟩ : Passage).sections.map Section.kind).find?
        fun kind => kind != .with && kind != .leading) =
      ((⟨false, tokens⟩ : Passage).sections.find? fun part =>
        part.kind != .with && part.kind != .leading).map Section.kind := by
    rw [List.find?_map]
    rfl
  rw [mainKind, kind_ofTokens, hfind, hkind]
  cases (⟨false, tokens⟩ : Passage).sections.find? fun part =>
    part.kind != .with && part.kind != .leading <;> rfl

namespace WritesTop

variable {quantifiers : List Token} {top number : Token}
  (h : WritesTop quantifiers top number) {before rest : List Token} {select : Token}
  (hdepth : depth before = 0) (hselect : select.isKeyword .select = true)

section Kind

include hselect

theorem kind_append_select (rest : List Token) :
    StatementKind.ofTokens (before ++ select :: rest) =
      StatementKind.ofTokens (before ++ [select]) := by
  rw [← List.singleton_append, ← List.append_assoc]
  apply StatementKind.ofTokens_append
  exact leading?_isSome_of_mem (List.mem_append_right _ (List.mem_singleton_self _))
    (Lexeme.isTrivia_of_isKeyword _ hselect)
    (Lexeme.isInner_of_keyword?
      (Option.isSome_of_mem (Lexeme.isKeyword_iff.1 hselect))).2.1

include h

theorem traits_eq :
    StatementTraits.ofTokens
        (before ++ select :: (quantifiers ++ [top, number] ++ rest)) =
      StatementTraits.ofTokens (before ++ select :: (quantifiers ++ rest)) := by
  have htop : top.isKeyword .update = false := by
    rw [h.toLexeme_top]
    rfl
  have hnumber : number.isKeyword .update = false := by
    rw [Lexeme.isKeyword, h.kind_number]
    rfl
  simp only [StatementTraits.ofTokens, kind_append_select hselect, List.any_append,
    List.any_cons, List.any_nil, htop, hnumber, Bool.or_false]

end Kind

include h hdepth hselect

theorem isCombined_eq :
    (Statement.ofTokens
        (before ++ select :: (quantifiers ++ [top, number] ++ rest))).isCombined =
      (Statement.ofTokens
        (before ++ select :: (quantifiers ++ rest))).isCombined := by
  have hopens := (Lexeme.isInner_of_keyword?
    (Option.isSome_of_mem (Lexeme.isKeyword_iff.1 hselect))).2.1
  have hoperand : (Piece.single select).IsOperand := by
    intro keyword hkeyword
    rw [Piece.keyword?, Lexeme.isKeyword_iff.1 hselect,
      Option.mem_some_iff] at hkeyword
    rw [← hkeyword]
    rfl
  have hquantifier : ∀ token : Token, token.isQuantifier = true →
      (Piece.single token).IsOperand := by
    intro token htoken keyword hkeyword
    rcases Lexeme.keyword?_of_isQuantifier htoken with hword | hword <;>
      rw [Option.some.inj (hkeyword.symm.trans hword)] <;> rfl
  have hinner : ∀ token ∈ quantifiers ++ [top, number],
      token.opens = false ∧ (Piece.single token).IsOperand := by
    intro token htoken
    refine ⟨(h.isInner token htoken).2.1, ?_⟩
    refine h.forall_mem (p := fun token => (Piece.single token).IsOperand) hquantifier
      ?_ ?_ token htoken
    · exact Piece.isOperand_of_keyword?_eq_none
        (by rw [Piece.keyword?, h.toLexeme_top]; rfl)
    · exact Piece.isOperand_of_keyword?_eq_none
        (by rw [Piece.keyword?, Lexeme.keyword?, h.kind_number]; rfl)
  have htrivia := Lexeme.isTrivia_of_isKeyword _ hselect
  rw [Statement.isCombined_ofTokens, Statement.isCombined_ofTokens,
    Script.combines_splice hdepth hoperand htrivia hopens hinner,
    Script.combines_splice hdepth hoperand htrivia hopens fun token htoken =>
      hinner token (List.mem_append_left _ htoken)]

section Query

variable (hquery : (Statement.ofTokens
    (before ++ select :: (quantifiers ++ rest))).isQuery = true)

include hquery

omit h hdepth in
theorem kind_ne (more : List Token) :
    StatementKind.ofTokens (before ++ select :: more) ≠ .insert ∧
      StatementKind.ofTokens (before ++ select :: more) ≠ .create := by
  have hkind := Statement.kind_of_isQuery hquery
  rw [Statement.kind_ofTokens, kind_append_select hselect] at hkind
  rw [kind_append_select hselect]
  rcases hkind with hkind | hkind <;> rw [hkind] <;> decide

theorem isQuery_eq_true :
    (Statement.ofTokens
        (before ++ select :: (quantifiers ++ [top, number] ++ rest))).isQuery =
      true := by
  have hkind := kind_ne hselect hquery
  rw [Statement.isQuery, Statement.mainKind_ofTokens, kind_append_select hselect,
    Passage.sections_of_select hdepth hselect rfl (hkind _).1 (hkind _).2,
    List.map_append, List.map_cons, List.find?_append,
    List.find?_cons_of_pos rfl] at hquery ⊢
  rw [h.traits_eq hselect]
  exact hquery

/-- With these words behind a `SELECT`, and no bound anywhere else, a query that
combines nothing has the bound that the number gives. -/
theorem boundIn_of_not_isBounded
    (hcombined : (Statement.ofTokens
        (before ++ select :: (quantifiers ++ rest))).isCombined = false)
    (hbounded : (Statement.ofTokens
        (before ++ select :: (quantifiers ++ rest))).isBounded = false) {count : Nat}
    (hnumber : RowBound.literal? number = some count)
    (hpercent : ∀ next ∈ (significant rest).head?, next.isWord "percent" = false)
    {reads : BoundForm → Bool} (hreads : reads .top = true) :
    (Statement.ofTokens
        (before ++ select :: (quantifiers ++ [top, number] ++ rest))).boundIn reads =
      .rows count := by
  have hkind := kind_ne hselect hquery
  have hinsert : (StatementTraits.ofTokens
        (before ++ select :: (quantifiers ++ rest))).kind ≠ .insert := (hkind _).1
  have hcreate : (StatementTraits.ofTokens
        (before ++ select :: (quantifiers ++ rest))).kind ≠ .create := (hkind _).2
  have habsent : ∀ part ∈
        (⟨false, before ++ select :: (quantifiers ++ rest)⟩ : Passage).sections,
      part.bound reads = .absent :=
    Statement.bound_eq_absent_of_not_isBounded hcombined hbounded
  have hnew := (h.isCombined_eq hdepth hselect).trans hcombined
  have hopens : ∀ token ∈ quantifiers, token.opens = false := fun token htoken =>
    (h.isInner token (List.mem_append_left _ htoken)).2.1
  have hpieces : Piece.ofTokens (quantifiers ++ rest) =
      quantifiers.map Piece.single ++ Piece.ofTokens rest := by
    rw [Piece.ofTokens_append _ (depth_of_not_opens hopens),
      Piece.ofTokens_of_not_opens hopens]
  obtain ⟨last, hcut⟩ :=
    Section.exists_cut_append (.keyword .select) (Piece.ofTokens rest)
      (List.forall_mem_map.2 fun token htoken =>
        Heading.at?_of_isQuantifier (h.isQuantifier token htoken)
          (StatementTraits.ofTokens (before ++ select :: (quantifiers ++ rest))))
  rw [Passage.sections_of_select hdepth hselect rfl hinsert hcreate,
    List.forall_mem_append, List.forall_mem_cons, hpieces, hcut] at habsent
  obtain ⟨hearlier, -, hlater⟩ := habsent
  apply h.boundIn_eq hdepth hselect rfl (hkind _).1 (hkind _).2 hnew hnumber hpercent
    hreads
  · rwa [h.traits_eq hselect]
  · intro previous part hpart
    rw [h.traits_eq hselect] at hpart
    rcases Section.mem_cut_of_mem_cut hinsert hcreate previous last hpart with hfrom |
      hmem
    · exact Section.bound_of_not_writesBound (by rw [hfrom]; rfl)
    · exact hlater part hmem

end Query

end WritesTop

end SqlOutline
