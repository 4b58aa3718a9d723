import SqlOutline.Proofs.Clause.Extension
import SqlOutline.Proofs.Script.Separation

/-!
# A clause at the end of a statement

A clause of plain words written behind a query becomes its last clause, and changes
none of the clauses before it (`clauses_ofTokens_append`). A statement that inserts or
creates is no query, and there the words could change the reading of a `WITH`.
-/

namespace SqlOutline

namespace Piece

private theorem reach_le_length (count : Nat) (pieces : List Piece) :
    reach count pieces ≤ pieces.length := by
  induction pieces generalizing count with
  | nil => cases count <;> simp [reach]
  | cons piece pieces ih =>
    cases count with
    | zero => simp [reach]
    | succ count =>
      rw [reach, List.length_cons]
      split
      · exact Nat.succ_le_succ (ih (count + 1))
      · exact Nat.succ_le_succ (ih count)

private theorem reach_append {count : Nat} {pieces : List Piece} (more : List Piece)
    (h : count ≤ (significant pieces).length) :
    reach count (pieces ++ more) = reach count pieces := by
  induction pieces generalizing count with
  | nil =>
    rw [significant, List.filter_nil, List.length_nil, Nat.le_zero] at h
    rw [h, reach, reach]
  | cons piece pieces ih =>
    cases count with
    | zero => rw [reach, reach]
    | succ count =>
      rw [List.cons_append, reach, reach]
      by_cases htrivia : piece.isTrivia = true
      · have hcount : count + 1 ≤ (significant pieces).length := by
          simpa [significant, htrivia] using h
        rw [if_pos htrivia, if_pos htrivia, ih hcount]
      · have hcount : count ≤ (significant pieces).length := by
          simpa [significant, htrivia] using h
        rw [if_neg htrivia, if_neg htrivia, ih hcount]

end Piece

namespace Section

theorem cut_append {traits : StatementTraits} (previous : Option TokenKind)
    (pieces : List Piece) {piece : Piece} {later : List Piece} {parts : List Section}
    (hends : piece.EndsHeading) (htrivia : piece.isTrivia = false)
    (hgroup : piece.isGroup = false) (hinsert : traits.kind ≠ .insert)
    (hcreate : traits.kind ≠ .create)
    (hparts : ∀ previous, cut traits previous (piece :: later) = ([], parts)) :
    cut traits previous (pieces ++ piece :: later) =
      ((cut traits previous pieces).1, (cut traits previous pieces).2 ++ parts) := by
  have hat : ∀ previous first rest,
      Heading.at? traits previous first (rest ++ piece :: later) =
        Heading.at? traits previous first rest := fun previous first rest =>
    Heading.at?_append later previous first rest hends htrivia hgroup hinsert hcreate
  induction previous, pieces using Section.cut.induct traits with
  | case1 previous => simp [cut, hparts]
  | case2 previous first rest heading hheading length head body more hcut ih =>
    have hwhole := (hat previous first rest).trans hheading
    have hwords : heading.words - 1 ≤ (Piece.significant rest).length := by
      have hspans := (Heading.keyword?_of_at? hwhole).2
      rw [Piece.significant_append_cons rest later htrivia] at hspans
      exact Heading.words_le_of_spans _ _ hends hspans
    have hreach := Piece.reach_append (piece :: later) hwords
    have hle := Piece.reach_le_length (heading.words - 1) rest
    have hhead : headOf heading.words first (rest ++ piece :: later) =
        headOf heading.words first rest := by
      rw [headOf, headOf, hreach, List.take_append_of_le_length hle]
    have hrest : cut traits ((headOf heading.words first
          (rest ++ piece :: later)).getLast?.map (·.kind))
          ((rest ++ piece :: later).drop
            (Piece.reach (heading.words - 1) (rest ++ piece :: later))) =
        (body, more ++ parts) := by
      rw [hcut] at ih
      rw [hhead, hreach, List.drop_append_of_le_length hle]
      exact ih
    rw [List.cons_append, cut_cons_of_heading hheading hcut,
      cut_cons_of_heading hwhole hrest, hhead]
    rfl
  | case3 previous first rest hheading body more hcut ih =>
    rw [dite_eq_ite] at hcut ih
    rw [hcut] at ih
    rw [List.cons_append, cut_cons_of_none hheading hcut]
    exact cut_cons_of_none ((hat previous first rest).trans hheading) ih

theorem cut_of_at?_eq_none {traits : StatementTraits} (previous : TokenKind)
    {pieces : List Piece}
    (h : ∀ piece ∈ pieces,
      ∀ previous rest, Heading.at? traits (some previous) piece rest = none) :
    cut traits (some previous) pieces = (pieces, []) := by
  induction pieces generalizing previous with
  | nil => rw [cut]
  | cons piece pieces ih =>
    have hrest := ih (if piece.isTrivia then previous else piece.lastKind)
      fun other hother => h other (List.mem_cons_of_mem piece hother)
    rw [apply_ite some] at hrest
    exact cut_cons_of_none (h piece (List.mem_cons_self ..) previous pieces) hrest

end Section

/-- Behind a word that always opens a clause, the sections of a statement go on with
the same ones whatever comes before. -/
theorem Passage.sections_append {tokens : List Token} {word : Token}
    {rest : List Token} {parts : List Section} (hdepth : depth tokens = 0)
    (htraits : StatementTraits.ofTokens (tokens ++ word :: rest) =
      StatementTraits.ofTokens tokens)
    (hinsert : StatementKind.ofTokens tokens ≠ .insert)
    (hcreate : StatementKind.ofTokens tokens ≠ .create)
    (hends : (Piece.single word).EndsHeading) (hkeyword : word.keyword?.isSome = true)
    (hparts : ∀ previous,
      Section.cut (StatementTraits.ofTokens tokens) previous
          (Piece.ofTokens (word :: rest)) = ([], parts)) :
    (⟨false, tokens ++ word :: rest⟩ : Passage).sections =
      (⟨false, tokens⟩ : Passage).sections ++ parts := by
  have hword : Piece.ofTokens (word :: rest) = .single word :: Piece.ofTokens rest :=
    Piece.ofTokens_cons_of_not_opens rest (Lexeme.opens_of_keyword? hkeyword)
  rw [hword] at hparts
  have hcut := Section.cut_append none (Piece.ofTokens tokens) hends
    (Lexeme.isTrivia_of_keyword? hkeyword) rfl hinsert hcreate hparts
  have hpieces : Piece.ofTokens (tokens ++ word :: rest) =
      Piece.ofTokens tokens ++ .single word :: Piece.ofTokens rest := by
    rw [Piece.ofTokens_append _ hdepth, hword]
  have hopening : (⟨false, tokens ++ word :: rest⟩ : Passage).opening =
      (⟨false, tokens⟩ : Passage).opening := by
    simp only [Passage.opening, hpieces, htraits, hcut]
  have hheaded : (⟨false, tokens ++ word :: rest⟩ : Passage).headed =
      (⟨false, tokens⟩ : Passage).headed ++ parts := by
    simp only [Passage.headed, hpieces, htraits, hcut]
  rw [Passage.sections_eq, Passage.sections_eq, hopening, hheaded,
    Passage.openingClause_of_not_relation rfl,
    Passage.openingClause_of_not_relation rfl]
  split <;> rfl

def Section.topClause (part : Section) : Clause Statement :=
  part.toClause (part.passages.map (Statement.ofPassage (Statement.nestingLimit - 1)))

theorem Statement.clauses_ofTokens (tokens : List Token) :
    (ofTokens tokens).clauses =
      (⟨false, tokens⟩ : Passage).sections.map Section.topClause := rfl

/-- A clause that can be written behind a query: a word that always opens it, and
tokens that are neither parentheses nor keywords, but for a `WITH`. -/
structure PlainClause (kind : ClauseKind) (word : Token) (body : List Token) :
    Prop where
  opens : ∀ traits previous rest,
    Heading.at? traits previous (.single word) rest = some ⟨kind, 1⟩
  ends : (Piece.single word).EndsHeading
  not_update : word.isKeyword .update = false
  body_plain : ∀ token ∈ body,
    (token.keyword? = none ∨ token.keyword? = some .with) ∧ token.opens = false

theorem leading?_append {first : List Token} (second : List Token)
    (h : (leading? first).isSome = true) :
    leading? (first ++ second) = leading? first := by
  rw [leading?] at h
  rw [leading?, leading?, List.dropWhile_append]
  cases hdrop : first.dropWhile fun token => token.isTrivia || token.opens with
  | nil => simp [hdrop] at h
  | cons token rest => rfl

theorem leading?_isSome_of_mem {tokens : List Token} {token : Token}
    (h : token ∈ tokens) (htrivia : token.isTrivia = false)
    (hopens : token.opens = false) : (leading? tokens).isSome = true := by
  rw [leading?, Option.isSome_iff_ne_none, ne_eq, List.head?_eq_none_iff,
    List.dropWhile_eq_nil_iff]
  intro hall
  have htoken := hall token h
  rw [htrivia, hopens] at htoken
  exact Bool.noConfusion htoken

theorem StatementKind.ofTokens_append {first : List Token} (second : List Token)
    (h : (leading? first).isSome = true) :
    StatementKind.ofTokens (first ++ second) = StatementKind.ofTokens first := by
  rw [StatementKind.ofTokens, StatementKind.ofTokens, leading?_append second h]

namespace PlainClause

variable {kind : ClauseKind} {word : Token} {body : List Token}

/-- A keyword that opens a clause wherever it stands, and is no part of longer
headings. -/
theorem of_keyword {keyword : Keyword} (hword : word.keyword? = some keyword)
    (hopens : ∀ traits previous following,
      Heading.ofKeyword? traits previous keyword following = some ⟨kind, 1⟩)
    (hends : keyword.continuesHeading = false) (hupdate : keyword ≠ .update)
    (hbody : ∀ token ∈ body,
      (token.keyword? = none ∨ token.keyword? = some .with) ∧ token.opens = false) :
    PlainClause kind word body where
  opens traits previous rest := by
    rw [Heading.at?, Piece.keyword?, hword, Option.bind_some, hopens]
  ends other hother := by
    rw [Piece.keyword?, hword, Option.mem_some_iff] at hother
    rwa [← hother]
  not_update := by
    rw [Bool.eq_false_iff, ne_eq, Lexeme.isKeyword_iff, hword, Option.some_inj]
    exact hupdate
  body_plain := hbody

theorem keyword?_isSome (h : PlainClause kind word body) :
    word.keyword?.isSome = true := by
  have hopens := h.opens ⟨.select, false⟩ none []
  exact (Heading.keyword?_of_at? hopens).1

theorem opens_eq_false (h : PlainClause kind word body) :
    ∀ token ∈ word :: body, token.opens = false := by
  intro token htoken
  rcases List.mem_cons.1 htoken with rfl | htoken
  · exact Lexeme.opens_of_keyword? h.keyword?_isSome
  · exact (h.body_plain token htoken).2

theorem at?_eq_none (h : PlainClause kind word body) {traits : StatementTraits}
    (hinsert : traits.kind ≠ .insert) (hcreate : traits.kind ≠ .create) :
    ∀ piece ∈ body.map Piece.single, ∀ previous rest,
      Heading.at? traits (some previous) piece rest = none := by
  rw [List.forall_mem_map]
  intro token htoken previous rest
  rw [Heading.at?, Piece.keyword?]
  rcases (h.body_plain token htoken).1 with hkeyword | hkeyword
  · rw [hkeyword, Option.bind_none]
  · rw [hkeyword, Option.bind_some, Heading.ofKeyword?,
      Heading.opensDefinitions_eq_false hinsert hcreate]
    rfl

theorem cut (h : PlainClause kind word body) {traits : StatementTraits}
    (hinsert : traits.kind ≠ .insert) (hcreate : traits.kind ≠ .create)
    (previous : Option TokenKind) :
    Section.cut traits previous ((word :: body).map Piece.single) =
      ([], [⟨kind, [word], body.map Piece.single⟩]) := by
  have hhead : Section.headOf 1 (.single word) (body.map Piece.single) = [word] := by
    rw [Section.headOf, Piece.reach, List.take_zero]
    rfl
  have hrest : Section.cut traits ((Section.headOf 1 (.single word)
        (body.map Piece.single)).getLast?.map (·.kind))
        ((body.map Piece.single).drop (Piece.reach (1 - 1) (body.map Piece.single))) =
      (body.map Piece.single, []) := by
    rw [hhead, Piece.reach, List.drop_zero]
    exact Section.cut_of_at?_eq_none word.kind (h.at?_eq_none hinsert hcreate)
  have hcut := Section.cut_cons_of_heading
    (h.opens traits previous (body.map Piece.single)) hrest
  rw [hhead] at hcut
  exact hcut

theorem passages (kind : ClauseKind) (word : Token) (body : List Token) :
    (⟨kind, [word], body.map Piece.single⟩ : Section).passages = [] := by
  have hnone : ∀ previous,
      Passage.ofPieces kind previous (body.map Piece.single) = [] := by
    induction body with
    | nil => intro previous; rfl
    | cons token body ih =>
      intro previous
      rw [List.map_cons, Passage.ofPieces]
      exact ih _
  exact hnone _

theorem traits_append (h : PlainClause kind word body) {tokens : List Token}
    (hleading : (leading? tokens).isSome = true) :
    StatementTraits.ofTokens (tokens ++ word :: body) =
      StatementTraits.ofTokens tokens := by
  have hfirst := leading?_append (word :: body) hleading
  have hupdate :
      ((word :: body).any fun token => token.isKeyword .update) = false := by
    rw [List.any_cons, h.not_update, Bool.false_or, List.any_eq_false]
    intro token htoken hkeyword
    have hplain := (h.body_plain token htoken).1
    rw [Lexeme.isKeyword_iff.1 hkeyword] at hplain
    simp at hplain
  simp only [StatementTraits.ofTokens, StatementKind.ofTokens, hfirst,
    List.any_append, hupdate, Bool.or_false]

theorem sections_append (h : PlainClause kind word body) {tokens : List Token}
    (hdepth : depth tokens = 0) (hleading : (leading? tokens).isSome = true)
    (hinsert : StatementKind.ofTokens tokens ≠ .insert)
    (hcreate : StatementKind.ofTokens tokens ≠ .create) :
    (⟨false, tokens ++ word :: body⟩ : Passage).sections =
      (⟨false, tokens⟩ : Passage).sections ++
        [⟨kind, [word], body.map Piece.single⟩] := by
  apply Passage.sections_append hdepth (h.traits_append hleading) hinsert hcreate
    h.ends h.keyword?_isSome
  intro previous
  rw [Piece.ofTokens_of_not_opens h.opens_eq_false]
  exact h.cut hinsert hcreate previous

/-- The clause is the last one of the statement that it is written behind, and the
others stay. -/
theorem clauses_ofTokens_append (h : PlainClause kind word body) {tokens : List Token}
    (hdepth : depth tokens = 0) (hleading : (leading? tokens).isSome = true)
    (hinsert : StatementKind.ofTokens tokens ≠ .insert)
    (hcreate : StatementKind.ofTokens tokens ≠ .create) :
    (Statement.ofTokens (tokens ++ word :: body)).clauses =
      (Statement.ofTokens tokens).clauses ++ [⟨kind, [word], body, []⟩] := by
  have hclause : Section.topClause ⟨kind, [word], body.map Piece.single⟩ =
      ⟨kind, [word], body, []⟩ := by
    rw [Section.topClause, passages, List.map_nil, Section.toClause,
      Piece.flatMap_tokens_map_single]
  rw [Statement.clauses_ofTokens, h.sections_append hdepth hleading hinsert hcreate,
    List.map_append, List.map_singleton, hclause]
  rfl

end PlainClause

end SqlOutline
