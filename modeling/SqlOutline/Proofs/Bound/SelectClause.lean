import SqlOutline.Proofs.Bound.Top

/-!
# A bound in the clause of a `SELECT`

A `SELECT` outside parentheses cuts a query in two: what stands before it is read
alone, and so is what stands behind its words, except that a `FROM` behind `DISTINCT`
opens no clause. With `TOP` and a number behind a `SELECT`, and no bound anywhere
else, the query has the bound that the number gives (`WritesTop.boundIn_eq`).
-/

namespace SqlOutline

def Keyword.writesBound : Keyword → Bool
  | .select | .limit | .fetch => true
  | _ => false

def ClauseKind.writesBound : ClauseKind → Bool
  | .select | .limit | .fetch => true
  | _ => false

theorem RowBound.ofClause_of_not_writesBound {σ : Type} {reads : BoundForm → Bool}
    {combined : Bool} {clause : Clause σ} (h : clause.kind.writesBound = false) :
    ofClause reads combined clause = .absent := by
  unfold ofClause
  split <;> simp_all [ClauseKind.writesBound]

namespace Heading

theorem any_writesBound_ofKeyword? (traits : StatementTraits)
    (previous : Option TokenKind) (keyword : Keyword) (following : List Piece) :
    (ofKeyword? traits previous keyword following).any
        (fun heading => heading.clause.writesBound) =
      keyword.writesBound := by
  have hclause : ∀ clause : ClauseKind,
      clause.isConditional = true → clause.writesBound = false := by
    rintro ⟨⟩ <;> simp [ClauseKind.isConditional, ClauseKind.writesBound]
  rw [any_clause_ofKeyword? hclause]
  cases keyword <;> rfl

/-- In a query, what stands before a word counts only at the very beginning and for a
`FROM`. -/
theorem at?_eq_of_ne_from {traits : StatementTraits} (hinsert : traits.kind ≠ .insert)
    (hcreate : traits.kind ≠ .create) (first second : TokenKind) {piece : Piece}
    (rest : List Piece) (h : piece.keyword? ≠ some .from) :
    at? traits (some first) piece rest = at? traits (some second) piece rest := by
  unfold at?
  cases hkeyword : piece.keyword? with
  | none => rfl
  | some keyword =>
    rw [hkeyword] at h
    rw [Option.bind_some, Option.bind_some]
    unfold ofKeyword?
    cases keyword
    case «from» => exact absurd rfl h
    case «with» => simp only [opensDefinitions_eq_false hinsert hcreate]
    all_goals rfl

theorem at?_from {piece : Piece} (h : piece.keyword? = some .from)
    (traits : StatementTraits) (previous : Option TokenKind) (rest : List Piece) :
    at? traits previous piece rest =
      if previous = some (.keyword .distinct) then none else some ⟨.from, 1⟩ := by
  rw [at?, h]
  rfl

end Heading

namespace Section

theorem exists_at?_of_mem_cut {traits : StatementTraits} {previous : Option TokenKind}
    {pieces : List Piece} {part : Section}
    (h : part ∈ (cut traits previous pieces).2) :
    ∃ previous',
      ∃ piece ∈ pieces,
        ∃ rest heading, Heading.at? traits previous' piece rest = some heading ∧
          heading.clause = part.kind := by
  induction previous, pieces using Section.cut.induct traits with
  | case1 previous => simp [cut] at h
  | case2 previous piece rest heading hheading length head body more hcut ih =>
    rw [hcut] at ih
    rw [cut_cons_of_heading hheading hcut] at h
    rcases List.mem_cons.1 h with rfl | h
    · exact ⟨previous, piece, List.mem_cons_self .., rest, heading, hheading, rfl⟩
    · obtain ⟨previous', other, hother, hat⟩ := ih h
      exact ⟨previous', other, List.mem_cons_of_mem _ (List.mem_of_mem_drop hother),
        hat⟩
  | case3 previous piece rest hheading body more hcut ih =>
    rw [dite_eq_ite] at hcut ih
    rw [hcut] at ih
    rw [cut_cons_of_none hheading hcut] at h
    obtain ⟨previous', other, hother, hat⟩ := ih h
    exact ⟨previous', other, List.mem_cons_of_mem _ hother, hat⟩

theorem kind_ne_select_of_mem_cut {traits : StatementTraits}
    {previous : Option TokenKind} {pieces : List Piece}
    (h : ∀ piece ∈ pieces, piece.keyword? ≠ some .select) {part : Section}
    (hpart : part ∈ (cut traits previous pieces).2) : part.kind ≠ .select := by
  intro hkind
  obtain ⟨previous', piece, hpiece, rest, heading, hat, hclause⟩ :=
    exists_at?_of_mem_cut hpart
  obtain ⟨token, rfl, hselect, -⟩ :=
    Heading.eq_select_of_at? hat (hclause.trans hkind)
  exact h _ hpiece (Lexeme.isKeyword_iff.1 hselect)

theorem writesBound_of_mem_cut {traits : StatementTraits}
    {previous : Option TokenKind} {pieces : List Piece}
    (h : ∀ piece ∈ pieces, piece.keyword?.any Keyword.writesBound = false)
    {part : Section} (hpart : part ∈ (cut traits previous pieces).2) :
    part.kind.writesBound = false := by
  obtain ⟨previous', piece, hpiece, rest, heading, hat, hclause⟩ :=
    exists_at?_of_mem_cut hpart
  obtain ⟨keyword, hkeyword, hheading⟩ := Option.bind_eq_some_iff.1 hat
  have hwrites := Heading.any_writesBound_ofKeyword? traits previous' keyword
    (Piece.significant rest)
  have hnot := h piece hpiece
  rw [hheading, Option.any_some, hclause] at hwrites
  rw [hkeyword, Option.any_some] at hnot
  rw [hwrites, hnot]

theorem at?_eq_none_of_isTrivia {piece : Piece} (h : piece.isTrivia = true)
    (traits : StatementTraits) (previous : Option TokenKind) (rest : List Piece) :
    Heading.at? traits previous piece rest = none := by
  cases hat : Heading.at? traits previous piece rest with
  | none => rfl
  | some heading =>
    obtain ⟨token, rfl, hkeyword⟩ :=
      Piece.exists_single_of_keyword? (Heading.keyword?_of_at? hat).1
    rw [Piece.isTrivia, Lexeme.isTrivia_of_keyword? hkeyword] at h
    exact Bool.noConfusion h

section From

variable {token : Token} (h : token.keyword? = some .from) (traits : StatementTraits)
  (rest : List Piece)

include h

theorem kind_of_from : token.kind = .keyword .from := by
  simpa [Lexeme.isKeyword] using Lexeme.isKeyword_iff.2 h

/-- A `FROM` opens a clause, except behind `DISTINCT`. -/
theorem cut_from {previous : TokenKind} (hprevious : previous ≠ .keyword .distinct) :
    cut traits (some previous) (.single token :: rest) =
      ([], ⟨.from, [token], (cut traits (some (.keyword .from)) rest).1⟩ ::
        (cut traits (some (.keyword .from)) rest).2) := by
  have hkeyword : (Piece.single token).keyword? = some .from := h
  have hat := Heading.at?_from hkeyword traits (some previous) rest
  rw [if_neg (by simpa using hprevious)] at hat
  rw [cut_word hat, kind_of_from h]

private theorem cut_from_of_distinct :
    cut traits (some (.keyword .distinct)) (.single token :: rest) =
      (.single token :: (cut traits (some (.keyword .from)) rest).1,
        (cut traits (some (.keyword .from)) rest).2) := by
  have hkeyword : (Piece.single token).keyword? = some .from := h
  have hat := Heading.at?_from hkeyword traits (some (.keyword .distinct)) rest
  rw [if_pos rfl] at hat
  have htrivia : token.isTrivia = false :=
    Lexeme.isTrivia_of_keyword? (by rw [h]; rfl)
  rw [cut_cons_of_none hat rfl, Piece.isTrivia, htrivia, Piece.lastKind,
    kind_of_from h]
  rfl

end From

/-- Whatever stands before the pieces of a query, they make the same sections, except
for a `FROM`. -/
theorem mem_cut_of_mem_cut {traits : StatementTraits}
    (hinsert : traits.kind ≠ .insert) (hcreate : traits.kind ≠ .create)
    (first second : TokenKind) {pieces : List Piece} {part : Section}
    (h : part ∈ (cut traits (some first) pieces).2) :
    part.kind = .from ∨ part ∈ (cut traits (some second) pieces).2 := by
  induction pieces with
  | nil => simp [cut] at h
  | cons piece rest ih =>
    by_cases htrivia : piece.isTrivia = true
    · have hnone :=
        fun previous => at?_eq_none_of_isTrivia htrivia traits previous rest
      rw [cut_cons_of_none (hnone _) rfl, if_pos htrivia] at h ⊢
      exact ih h
    by_cases hfrom : piece.keyword? = some .from
    · obtain ⟨token, rfl, -⟩ :=
        Piece.exists_single_of_keyword? (Option.isSome_of_mem hfrom)
      -- behind the `FROM` the two readings are one
      have hlater : part.kind = .from ∨
          part ∈ (cut traits (some (.keyword .from)) rest).2 := by
        by_cases hfirst : first = .keyword .distinct
        · rw [hfirst, cut_from_of_distinct hfrom] at h
          exact Or.inr h
        · rw [cut_from hfrom traits rest hfirst] at h
          rcases List.mem_cons.1 h with rfl | h
          · exact Or.inl rfl
          · exact Or.inr h
      refine hlater.imp_right fun hmem => ?_
      by_cases hsecond : second = .keyword .distinct
      · rw [hsecond, cut_from_of_distinct hfrom]
        exact hmem
      · rw [cut_from hfrom traits rest hsecond]
        exact List.mem_cons_of_mem _ hmem
    · have hat := Heading.at?_eq_of_ne_from hinsert hcreate first second rest hfrom
      right
      cases hheading : Heading.at? traits (some first) piece rest with
      | some heading =>
        rw [cut_cons_of_heading hheading rfl] at h
        rwa [cut_cons_of_heading (hat.symm.trans hheading) rfl]
      | none =>
        rw [cut_cons_of_none hheading rfl, if_neg htrivia] at h
        rwa [cut_cons_of_none (hat.symm.trans hheading) rfl, if_neg htrivia]

end Section

/-! ## The sections of a query -/

def Section.earlier (traits : StatementTraits) (pieces : List Piece) : List Section :=
  if (cut traits none pieces).1.all Piece.isTrivia then (cut traits none pieces).2
  else ⟨.leading, [], (cut traits none pieces).1⟩ :: (cut traits none pieces).2

private theorem Section.kind_ne_select_of_mem_earlier {traits : StatementTraits}
    {pieces : List Piece} (h : ∀ piece ∈ pieces, piece.keyword? ≠ some .select)
    {part : Section} (hpart : part ∈ earlier traits pieces) :
    part.kind ≠ .select := by
  rw [earlier] at hpart
  split at hpart
  · exact kind_ne_select_of_mem_cut h hpart
  · rcases List.mem_cons.1 hpart with rfl | hpart
    · exact nofun
    · exact kind_ne_select_of_mem_cut h hpart

section Select

variable {tokens before rest : List Token} {select : Token}
  (hdepth : depth before = 0) (hselect : select.isKeyword .select = true)
  (htokens : tokens = before ++ select :: rest)
  (hinsert : StatementKind.ofTokens tokens ≠ .insert)
  (hcreate : StatementKind.ofTokens tokens ≠ .create)

include hdepth hselect htokens hinsert hcreate

theorem Passage.sections_of_select :
    (⟨false, tokens⟩ : Passage).sections =
      Section.earlier (StatementTraits.ofTokens tokens) (Piece.ofTokens before) ++
        ⟨.select, [select], (Section.cut (StatementTraits.ofTokens tokens)
          (some (.keyword .select)) (Piece.ofTokens rest)).1⟩ ::
        (Section.cut (StatementTraits.ofTokens tokens) (some (.keyword .select))
          (Piece.ofTokens rest)).2 := by
  have hopens : select.opens = false :=
    (Lexeme.isInner_of_keyword?
      (Option.isSome_of_mem (Lexeme.isKeyword_iff.1 hselect))).2.1
  have hpieces : Piece.ofTokens tokens =
      Piece.ofTokens before ++ .single select :: Piece.ofTokens rest := by
    rw [htokens, Piece.ofTokens_append _ hdepth,
      Piece.ofTokens_cons_of_not_opens _ hopens]
  have hcut := Section.cut_append_select hselect
    (show (StatementTraits.ofTokens tokens).kind ≠ .insert from hinsert) hcreate none
    (Piece.ofTokens before) (Piece.ofTokens rest)
  rw [← hpieces] at hcut
  have hclause : (⟨false, tokens⟩ : Passage).openingClause = .leading := by
    rw [Passage.openingClause]
    split <;> simp
  rw [Passage.sections, hcut, hclause, Section.earlier]
  simp only [beq_self_eq_true, Bool.true_and]
  split <;> rfl

theorem Statement.exists_clause?_select
    (hfirst : ∀ piece ∈ Piece.ofTokens before, piece.keyword? ≠ some .select) :
    ∃ clause, (Statement.ofTokens tokens).clause? .select = some clause ∧
      clause.head = [select] ∧
      clause.body =
        (Section.cut (StatementTraits.ofTokens tokens) (some (.keyword .select))
          (Piece.ofTokens rest)).1.flatMap Piece.tokens := by
  obtain ⟨nested, hclauses⟩ := exists_nested_of_ofPassage nestingLimit ⟨false, tokens⟩
  rw [Passage.sections_of_select hdepth hselect htokens hinsert hcreate,
    List.map_append, List.map_cons] at hclauses
  have hnone : ((Section.earlier (StatementTraits.ofTokens tokens)
        (Piece.ofTokens before)).map fun part => part.toClause (nested part)).find?
        (fun clause => clause.kind == .select) = none := by
    rw [List.find?_eq_none, List.forall_mem_map]
    intro part hpart
    simpa [Section.toClause] using Section.kind_ne_select_of_mem_earlier hfirst hpart
  let part : Section := ⟨.select, [select],
    (Section.cut (StatementTraits.ofTokens tokens) (some (.keyword .select))
      (Piece.ofTokens rest)).1⟩
  refine ⟨part.toClause (nested part), ?_, rfl, rfl⟩
  rw [clause?, Statement.ofTokens, hclauses, List.find?_append, hnone, Option.none_or,
    List.find?_cons_of_pos (by simp [Section.toClause])]

end Select

/-! ## The bound of a query -/

def Section.bound (reads : BoundForm → Bool) (part : Section) : RowBound :=
  RowBound.ofClause reads false (part.toClause ([] : List Statement))

theorem Section.bound_of_not_writesBound {reads : BoundForm → Bool} {part : Section}
    (h : part.kind.writesBound = false) : part.bound reads = .absent :=
  RowBound.ofClause_of_not_writesBound h

namespace Statement

variable {tokens : List Token} {reads : BoundForm → Bool}

private theorem lastBranch_map_ofClause
    (h : (Statement.ofTokens tokens).isCombined = false) :
    (Statement.ofTokens tokens).lastBranch.map
        (RowBound.ofClause reads (Statement.ofTokens tokens).isCombined) =
      (⟨false, tokens⟩ : Passage).sections.map (Section.bound reads) := by
  obtain ⟨nested, hclauses⟩ := exists_nested_of_ofPassage nestingLimit ⟨false, tokens⟩
  rw [lastBranch_eq_clauses h, h, Statement.ofTokens, hclauses, List.map_map]
  rfl

theorem boundIn_of_sections_eq (h : (Statement.ofTokens tokens).isCombined = false)
    {earlier later : List Section} {part : Section}
    (hsections : (⟨false, tokens⟩ : Passage).sections = earlier ++ part :: later)
    (hbound : part.bound reads ≠ .absent)
    (hearlier : ∀ other ∈ earlier, other.bound reads = .absent)
    (hlater : ∀ other ∈ later, other.bound reads = .absent) :
    (Statement.ofTokens tokens).boundIn reads = part.bound reads := by
  have hnone : ∀ parts : List Section,
      (∀ other ∈ parts, other.bound reads = .absent) →
      (parts.map (Section.bound reads)).filter (· != .absent) = [] := by
    intro parts hparts
    rw [List.filter_eq_nil_iff, List.forall_mem_map]
    exact fun other hother => by simp [hparts other hother]
  rw [boundIn, lastBranch_map_ofClause h, hsections, List.map_append, List.map_cons,
    List.filter_append, List.filter_cons_of_pos (by simpa using hbound),
    hnone earlier hearlier, hnone later hlater]
  rfl

/-- Without a bound in any form, no section of a query that combines nothing writes
one. -/
theorem bound_eq_absent_of_not_isBounded
    (h : (Statement.ofTokens tokens).isCombined = false)
    (hbounded : (Statement.ofTokens tokens).isBounded = false) :
    ∀ part ∈ (⟨false, tokens⟩ : Passage).sections, part.bound reads = .absent := by
  have habsent : (Statement.ofTokens tokens).boundIn (fun _ => true) = .absent := by
    simpa [isBounded] using hbounded
  rw [boundIn_eq_absent_iff] at habsent
  obtain ⟨nested, hclauses⟩ := exists_nested_of_ofPassage nestingLimit ⟨false, tokens⟩
  rw [lastBranch_eq_clauses h, h, Statement.ofTokens, hclauses,
    List.forall_mem_map] at habsent
  intro part hpart
  exact ofClause_eq_absent (habsent part hpart)

end Statement

theorem WritesTop.bound_eq {quantifiers : List Token} {top number : Token}
    (h : WritesTop quantifiers top number) {count : Nat}
    (hnumber : RowBound.literal? number = some count) {body : List Piece}
    (hpercent : ∀ next ∈ (significant (body.flatMap Piece.tokens)).head?,
      next.isWord "percent" = false)
    {reads : BoundForm → Bool} (hreads : reads .top = true) (heading : List Token) :
    (⟨.select, heading, (quantifiers ++ [top, number]).map Piece.single ++ body⟩ :
      Section).bound reads = .rows count := by
  have hnext : (significant (body.flatMap Piece.tokens)).head?.any
        (·.isWord "percent") = false := by
    rw [Option.any_eq_false]
    intro next hnext
    simp [hpercent next hnext]
  rw [Section.bound, RowBound.ofClause, Section.toClause, Clause.significantBody]
  simp only [hreads, Bool.not_false, Bool.and_self, if_true]
  rw [List.flatMap_append, Piece.flatMap_tokens_map_single, h.significant_eq,
    h.ofSelect_eq, RowBound.ofCount, hnumber]
  simp only [hnext, Bool.false_eq_true, if_false]

/-- A query with `TOP` and a number behind a `SELECT` outside parentheses, and no
bound anywhere else, has the bound that the number gives. -/
theorem WritesTop.boundIn_eq {quantifiers : List Token} {top number : Token}
    (h : WritesTop quantifiers top number) {tokens before rest : List Token}
    {select : Token} (hdepth : depth before = 0)
    (hselect : select.isKeyword .select = true)
    (htokens : tokens = before ++ select :: (quantifiers ++ [top, number] ++ rest))
    (hinsert : StatementKind.ofTokens tokens ≠ .insert)
    (hcreate : StatementKind.ofTokens tokens ≠ .create)
    (hcombined : (Statement.ofTokens tokens).isCombined = false) {count : Nat}
    (hnumber : RowBound.literal? number = some count)
    (hpercent : ∀ next ∈ (significant rest).head?, next.isWord "percent" = false)
    {reads : BoundForm → Bool} (hreads : reads .top = true)
    (hearlier : ∀ part ∈ Section.earlier (StatementTraits.ofTokens tokens)
        (Piece.ofTokens before), part.bound reads = .absent)
    (hlater : ∀ previous,
      ∀ part ∈ (Section.cut (StatementTraits.ofTokens tokens) (some previous)
          (Piece.ofTokens rest)).2, part.bound reads = .absent) :
    (Statement.ofTokens tokens).boundIn reads = .rows count := by
  have hsections := Passage.sections_of_select hdepth hselect htokens hinsert hcreate
  obtain ⟨last, hcut⟩ :=
    Section.exists_cut_append (.keyword .select) (Piece.ofTokens rest)
      (List.forall_mem_map.2 (h.at?_eq_none (StatementTraits.ofTokens tokens)))
  rw [h.ofTokens_eq, hcut] at hsections
  generalize hmore : Section.cut (StatementTraits.ofTokens tokens) (some last)
      (Piece.ofTokens rest) =
    more at hsections
  -- the body goes on as the query does, or ends
  have hnext : ∀ next ∈ (significant (more.1.flatMap Piece.tokens)).head?,
      next.isWord "percent" = false := by
    have hflat := Section.flatMap_tokens_cut (StatementTraits.ofTokens tokens)
      (some last) (Piece.ofTokens rest)
    rw [hmore, Piece.flatMap_tokens_ofTokens] at hflat
    intro next hhead
    apply hpercent
    rw [← hflat, significant_append, List.head?_append, hhead]
    rfl
  have hbound := h.bound_eq hnumber hnext hreads [select]
  rw [Statement.boundIn_of_sections_eq hcombined hsections (by rw [hbound]; simp)
      hearlier, hbound]
  rw [← hmore]
  exact hlater last

end SqlOutline
