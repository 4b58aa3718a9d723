import SqlOutline.Proofs.Bound.Unbounded
import SqlOutline.Proofs.Script.Entry
import SqlOutline.Proofs.Statement.Combination

/-!
# A bound after `SELECT`

A query in which a `SELECT` outside parentheses is followed by `TOP` and a number is
bounded, unless it combines queries (`WritesTop.isBounded`).
-/

namespace SqlOutline

namespace Section

/-- Behind a token, pieces that open no clause stay together at the beginning of a
body. -/
theorem exists_cut_append {traits : StatementTraits} (previous : TokenKind)
    {first : List Piece} (rest : List Piece)
    (h : ∀ piece ∈ first,
      ∀ previous rest, Heading.at? traits previous piece rest = none) :
    ∃ last, cut traits (some previous) (first ++ rest) =
      (first ++ (cut traits (some last) rest).1,
        (cut traits (some last) rest).2) := by
  induction first generalizing previous with
  | nil => exact ⟨previous, rfl⟩
  | cons piece first ih =>
    obtain ⟨last, hlast⟩ := ih (if piece.isTrivia then previous else piece.lastKind)
      fun other hother => h other (List.mem_cons_of_mem piece hother)
    rw [apply_ite some] at hlast
    exact ⟨last,
      cut_cons_of_none (h piece (List.mem_cons_self ..) (some previous) _) hlast⟩

theorem cut_append_select {token : Token} (h : token.isKeyword .select = true)
    {traits : StatementTraits} (hinsert : traits.kind ≠ .insert)
    (hcreate : traits.kind ≠ .create) (previous : Option TokenKind)
    (first rest : List Piece) :
    cut traits previous (first ++ .single token :: rest) =
      ((cut traits previous first).1,
        (cut traits previous first).2 ++
          ⟨.select, [token], (cut traits (some (.keyword .select)) rest).1⟩ ::
            (cut traits (some (.keyword .select)) rest).2) := by
  have hends : (Piece.single token).EndsHeading := by
    rw [Lexeme.isKeyword, beq_iff_eq] at h
    intro keyword hkeyword
    rw [Piece.keyword?, Lexeme.keyword?, h, TokenKind.keyword?,
      Option.mem_some_iff] at hkeyword
    rw [← hkeyword]
    rfl
  exact cut_append previous first hends (Lexeme.isTrivia_of_isKeyword _ h) rfl hinsert
    hcreate fun previous => cut_select h traits previous rest

private theorem mem_cut_select {token : Token} (h : token.isKeyword .select = true)
    {traits : StatementTraits} (hinsert : traits.kind ≠ .insert)
    (hcreate : traits.kind ≠ .create) (previous : Option TokenKind)
    (first rest : List Piece) :
    ⟨.select, [token], (cut traits (some (.keyword .select)) rest).1⟩ ∈
      (cut traits previous (first ++ .single token :: rest)).2 := by
  rw [cut_append_select h hinsert hcreate]
  exact List.mem_append_right _ (List.mem_cons_self ..)

end Section

theorem Passage.mem_sections_of_mem_headed (passage : Passage) {part : Section}
    (h : part ∈ passage.headed) : part ∈ passage.sections := by
  rw [sections_eq]
  split
  · exact h
  · exact List.mem_cons_of_mem _ h

def Lexeme.isQuantifier (lexeme : Lexeme) : Bool :=
  lexeme.isKeyword .distinct || lexeme.isKeyword .all

theorem Lexeme.keyword?_of_isQuantifier {lexeme : Lexeme}
    (h : lexeme.isQuantifier = true) :
    lexeme.keyword? = some .distinct ∨ lexeme.keyword? = some .all := by
  rwa [isQuantifier, Bool.or_eq_true, isKeyword_iff, isKeyword_iff] at h

theorem Lexeme.keyword?_isSome_of_isQuantifier {lexeme : Lexeme}
    (h : lexeme.isQuantifier = true) : lexeme.keyword?.isSome = true := by
  rcases keyword?_of_isQuantifier h with hkeyword | hkeyword <;> rw [hkeyword] <;> rfl

theorem Heading.at?_of_isQuantifier {token : Token} (h : token.isQuantifier = true)
    (traits : StatementTraits) (previous : Option TokenKind) (rest : List Piece) :
    at? traits previous (.single token) rest = none := by
  rw [at?, Piece.keyword?]
  rcases Lexeme.keyword?_of_isQuantifier h with hkeyword | hkeyword <;>
    rw [hkeyword] <;> rfl

/-- The words of a bound after `SELECT`: perhaps `DISTINCT` or `ALL`, then `TOP` and a
number. -/
structure WritesTop (quantifiers : List Token) (top number : Token) : Prop where
  isQuantifier : ∀ token ∈ quantifiers, token.isQuantifier = true
  toLexeme_top : top.toLexeme = ⟨.identifier, "top"⟩
  kind_number : number.kind = .number

namespace WritesTop

variable {quantifiers : List Token} {top number : Token}

theorem forall_mem {p : Token → Prop} (h : WritesTop quantifiers top number)
    (hquantifier : ∀ token, token.isQuantifier = true → p token) (htop : p top)
    (hnumber : p number) : ∀ token ∈ quantifiers ++ [top, number], p token := by
  rw [List.forall_mem_append, List.forall_mem_cons, List.forall_mem_singleton]
  exact ⟨fun token htoken => hquantifier token (h.isQuantifier token htoken), htop,
    hnumber⟩

theorem isInner (h : WritesTop quantifiers top number) :
    ∀ token ∈ quantifiers ++ [top, number], token.IsInner := by
  refine h.forall_mem (fun token hquantifier => ?_) ?_ ?_
  · exact Lexeme.isInner_of_keyword?
      (Lexeme.keyword?_isSome_of_isQuantifier hquantifier)
  · rw [h.toLexeme_top]
    simp [Lexeme.IsInner, Lexeme.opens, Lexeme.closes]
  · simp [Lexeme.IsInner, Lexeme.opens, Lexeme.closes, h.kind_number]

theorem isTrivia_eq_false (h : WritesTop quantifiers top number) :
    ∀ token ∈ quantifiers ++ [top, number], token.isTrivia = false := by
  refine h.forall_mem (fun token hquantifier => ?_) ?_ ?_
  · exact Lexeme.isTrivia_of_keyword?
      (Lexeme.keyword?_isSome_of_isQuantifier hquantifier)
  · rw [h.toLexeme_top]
    rfl
  · rw [Lexeme.isTrivia, h.kind_number]
    rfl

theorem at?_eq_none (h : WritesTop quantifiers top number)
    (traits : StatementTraits) :
    ∀ token ∈ quantifiers ++ [top, number],
      ∀ previous rest, Heading.at? traits previous (.single token) rest = none := by
  refine h.forall_mem (fun token hquantifier => ?_) ?_ ?_
  · exact Heading.at?_of_isQuantifier hquantifier traits
  · intro previous rest
    exact Heading.at?_single_of_keyword?_eq_none (by rw [h.toLexeme_top]; rfl) _ _ _
  · intro previous rest
    exact Heading.at?_single_of_keyword?_eq_none
      (by rw [Lexeme.keyword?, h.kind_number]; rfl) _ _ _

theorem significant_eq (h : WritesTop quantifiers top number) (more : List Token) :
    significant (quantifiers ++ [top, number] ++ more) =
      quantifiers ++ top :: number :: significant more := by
  have hwords : significant (quantifiers ++ [top, number]) =
      quantifiers ++ [top, number] :=
    List.filter_eq_self.2 fun token htoken =>
      by simpa using h.isTrivia_eq_false token htoken
  rw [significant_append, hwords, List.append_assoc]
  rfl

theorem ofTokens_eq (h : WritesTop quantifiers top number) (more : List Token) :
    Piece.ofTokens (quantifiers ++ [top, number] ++ more) =
      (quantifiers ++ [top, number]).map Piece.single ++ Piece.ofTokens more := by
  rw [Piece.ofTokens_append _ (depth_of_isInner h.isInner),
    Piece.ofTokens_of_not_opens fun token htoken => (h.isInner token htoken).2.1]

theorem ofCount_ne_absent (count : Token) (more : List Token) :
    RowBound.ofCount count more ≠ .absent := by
  unfold RowBound.ofCount
  split
  · split <;> simp
  · simp

/-- A `SELECT` clause that begins with these words has the bound that the number
gives. -/
theorem ofSelect_eq (h : WritesTop quantifiers top number) (more : List Token) :
    RowBound.ofSelect (quantifiers ++ top :: number :: more) =
      RowBound.ofCount number more := by
  have htop : top.isQuantifier = false := by
    rw [h.toLexeme_top]
    rfl
  have hdrop : (quantifiers ++ top :: number :: more).dropWhile (fun token =>
      token.isQuantifier) = top :: number :: more := by
    rw [List.dropWhile_append_of_pos h.isQuantifier,
      List.dropWhile_cons_of_neg (by simp [htop])]
  have hword : top.isWord "top" = true := by
    rw [h.toLexeme_top]
    decide
  have hopens : number.opens = false := by
    rw [Lexeme.opens, h.kind_number]
    rfl
  unfold Lexeme.isQuantifier at hdrop
  rw [RowBound.ofSelect, hdrop]
  simp only [hword, h.kind_number, hopens, Bool.not_true, Bool.false_or, reduceCtorEq,
    decide_false, Bool.false_eq_true, if_false]

theorem ofSelect_ne_absent (h : WritesTop quantifiers top number)
    (more : List Token) :
    RowBound.ofSelect (quantifiers ++ top :: number :: more) ≠ .absent := by
  rw [h.ofSelect_eq]
  exact ofCount_ne_absent number more

theorem exists_mem_sections (h : WritesTop quantifiers top number)
    {before : List Token} {select : Token} (hdepth : depth before = 0)
    (hselect : select.isKeyword .select = true) {tokens more : List Token}
    (htokens : tokens = before ++ select :: (quantifiers ++ [top, number] ++ more))
    (hinsert : StatementKind.ofTokens tokens ≠ .insert)
    (hcreate : StatementKind.ofTokens tokens ≠ .create) :
    ∃ part ∈ (⟨false, tokens⟩ : Passage).sections, part.kind = .select ∧
      ∃ rest, part.body.flatMap Piece.tokens =
        quantifiers ++ [top, number] ++ rest := by
  have hopens : select.opens = false := by
    rw [Lexeme.isKeyword, beq_iff_eq] at hselect
    rw [Lexeme.opens, hselect]
    rfl
  have hpieces : Piece.ofTokens tokens =
      Piece.ofTokens before ++
        .single select ::
          ((quantifiers ++ [top, number]).map Piece.single ++
            Piece.ofTokens more) := by
    rw [htokens, Piece.ofTokens_append _ hdepth,
      Piece.ofTokens_cons_of_not_opens _ hopens, h.ofTokens_eq]
  obtain ⟨last, hlast⟩ :=
    Section.exists_cut_append (.keyword .select) (Piece.ofTokens more)
      (List.forall_mem_map.2 (h.at?_eq_none (StatementTraits.ofTokens tokens)))
  have hmem := Section.mem_cut_select hselect
    (show (StatementTraits.ofTokens tokens).kind ≠ .insert from hinsert) hcreate none
    (Piece.ofTokens before)
    ((quantifiers ++ [top, number]).map Piece.single ++ Piece.ofTokens more)
  rw [← hpieces, hlast] at hmem
  refine ⟨_, Passage.mem_sections_of_mem_headed ⟨false, tokens⟩ hmem, rfl,
    (Section.cut (StatementTraits.ofTokens tokens) (some last)
      (Piece.ofTokens more)).1.flatMap Piece.tokens, ?_⟩
  rw [List.flatMap_append, Piece.flatMap_tokens_map_single]

/-- A query with these words after a `SELECT` outside parentheses is bounded, if no
set operator stands outside parentheses. -/
theorem isBounded (h : WritesTop quantifiers top number) {before : List Token}
    {select : Token} (hdepth : depth before = 0)
    (hselect : select.isKeyword .select = true) {tokens more : List Token}
    (htokens : tokens = before ++ select :: (quantifiers ++ [top, number] ++ more))
    (hinsert : StatementKind.ofTokens tokens ≠ .insert)
    (hcreate : StatementKind.ofTokens tokens ≠ .create)
    (hcombines : Piece.combines (Piece.ofTokens tokens) = false) :
    (Statement.ofTokens tokens).isBounded = true := by
  obtain ⟨part, hpart, hkind, rest, hbody⟩ :=
    h.exists_mem_sections hdepth hselect htokens hinsert hcreate
  have hcombined : (Statement.ofTokens tokens).isCombined = false :=
    (Statement.isCombined_ofTokens tokens).trans hcombines
  obtain ⟨nested, hclauses⟩ :=
    Statement.exists_nested_of_ofPassage Statement.nestingLimit ⟨false, tokens⟩
  have hmem : part.toClause (nested part) ∈ (Statement.ofTokens tokens).clauses := by
    rw [Statement.ofTokens, hclauses]
    exact List.mem_map_of_mem hpart
  have hsignificant : (part.toClause (nested part)).significantBody =
      quantifiers ++ top :: number :: significant rest := by
    rw [Clause.significantBody, Section.toClause, hbody, h.significant_eq]
  rw [Statement.isBounded, bne_iff_ne]
  intro habsent
  rw [Statement.boundIn_eq_absent_iff] at habsent
  have hclauseKind : (part.toClause (nested part)).kind = .select := hkind
  rw [Statement.lastBranch_eq_clauses hcombined] at habsent
  have hnone := habsent _ hmem
  rw [RowBound.ofClause, hclauseKind, hcombined, hsignificant] at hnone
  exact h.ofSelect_ne_absent (significant rest) hnone

end WritesTop

end SqlOutline
