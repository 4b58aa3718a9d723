import Mathlib.Data.Option.Basic
import SqlOutline.Proofs.Bound.Suffix
import SqlOutline.Proofs.Bound.Top
import SqlOutline.Proofs.Statement.Body
import SqlOutline.Proofs.Statement.Content
import SqlOutline.Proofs.Token.Splice

/-!
# The text of a bound after `SELECT`

`TOP` and a count are written into an entry behind the first `SELECT` outside
parentheses. What comes out is an entry again, and a query that is bounded.
-/

namespace SqlOutline

open Token

namespace Script

/-- A place in the tokens of a query where `TOP` can be written: behind a `SELECT`
outside parentheses, and behind a `DISTINCT` or `ALL` that follows it. -/
structure TopPlace (tokens front : List Token) (word : Token) (later : List Token) :
    Prop where
  tokens_eq : tokens = front ++ word :: later
  depth_eq : depth front = 0
  isWord : word.isKeyword .select = true ∨ word.isQuantifier = true
  exists_select : ∃ before select quantifiers,
    Relayout.stripping.tokens (front ++ [word]) = before ++ select :: quantifiers ∧
      depth before = 0 ∧ select.isKeyword .select = true ∧
      ∀ token ∈ quantifiers, token.isQuantifier = true

theorem IsEntry.statements_eq {entry : String} (h : IsEntry entry) :
    statements entry = [Statement.ofTokens (tokenize entry)] := by
  apply statements_eq_singleton
  apply parts_eq_singleton
  · have hundivided := h.isUndivided
    rwa [unplaced_lexemes, Relayout.isUndivided_tokens_iff] at hundivided
  · rw [← h.any_significant, ← map_toLexeme_tokenize, List.any_map]
    rfl

private theorem exists_of_mem_clauses {tokens : List Token}
    {clause : Clause Statement} (h : clause ∈ (Statement.ofTokens tokens).clauses)
    (hkind : clause.kind = .select) :
    ∃ before select rest, tokens = before ++ select :: (clause.body ++ rest) ∧
      depth before = 0 ∧ select.isKeyword .select = true ∧
      clause.head = [select] := by
  obtain ⟨nested, hclauses⟩ :=
    Statement.exists_nested_of_ofPassage Statement.nestingLimit ⟨false, tokens⟩
  have hhead : ∃ select, clause.head = [select] ∧
      select.isKeyword .select = true := by
    rw [Statement.ofTokens, hclauses] at h
    obtain ⟨part, hpart, rfl⟩ := List.mem_map.1 h
    exact Passage.exists_head_of_select hpart hkind
  obtain ⟨select, hselect, hkeyword⟩ := hhead
  obtain ⟨before, after, hsplit⟩ := List.append_of_mem h
  obtain ⟨rest, htokens, -⟩ := Statement.exists_tokens_of_clauses_eq hsplit
  obtain ⟨-, -, hheaded⟩ := (Statement.partition_ofPassage Statement.nestingLimit
    ⟨false, tokens⟩).clause before clause after hsplit
  generalize hearlier : (⟨false, tokens⟩ : Passage).margin ++
      before.flatMap Clause.tokens =
    earlier at hheaded
  have hwhole : tokens = earlier ++ select :: (clause.body ++ rest) := by
    simpa [hselect, ← hearlier] using htokens
  refine ⟨earlier, select, rest, hwhole, ?_, hkeyword, hselect⟩
  rcases hheaded with ⟨-, hnil, -⟩ | hheaded
  · rw [hselect] at hnil
    exact absurd hnil (List.cons_ne_nil _ _)
  · have hfirst := hheaded.depth 0 (by rw [hselect]; exact Nat.one_pos)
    have htake : tokens.take earlier.length = earlier := by
      rw [hwhole]
      exact List.take_left
    rwa [Statement.tokens_ofPassage, Nat.add_zero, htake] at hfirst

section TopPlace

variable {tokens before gap rest : List Token} {select quantifier : Token}

theorem topPlace_select (htokens : tokens = before ++ select :: rest)
    (hdepth : depth before = 0) (hselect : select.isKeyword .select = true) :
    TopPlace tokens before select rest := by
  refine ⟨htokens, hdepth, Or.inl hselect, Relayout.stripping.tokens before,
    Relayout.stripping.token select, [], ?_, ?_, ?_, by simp⟩
  · rw [Relayout.tokens_append,
      Relayout.tokens_cons_of_significant _ []
        (Lexeme.isTrivia_of_isKeyword _ hselect), Relayout.tokens_nil]
  · rw [Relayout.depth_tokens, hdepth]
  · rw [Relayout.isKeyword_token, hselect]

theorem topPlace_quantifier
    (htokens : tokens = before ++ select :: (gap ++ quantifier :: rest))
    (hdepth : depth before = 0) (hselect : select.isKeyword .select = true)
    (hgap : ∀ token ∈ gap, token.isTrivia = true)
    (hquantifier : quantifier.isQuantifier = true) :
    TopPlace tokens (before ++ select :: gap) quantifier rest := by
  have hselectTrivia := Lexeme.isTrivia_of_isKeyword _ hselect
  have hquantifierTrivia :=
    Lexeme.isTrivia_of_keyword? (Lexeme.keyword?_isSome_of_isQuantifier hquantifier)
  constructor
  · rw [htokens, List.append_assoc, List.cons_append]
  · rw [depth_append _ hdepth]
    apply foldl_depthStep_eq_self
    intro token htoken
    rcases List.mem_cons.1 htoken with rfl | htoken
    · exact Or.inl (Option.isSome_of_mem (Lexeme.isKeyword_iff.1 hselect))
    · exact Or.inr (hgap token htoken)
  · exact Or.inr hquantifier
  · refine ⟨Relayout.stripping.tokens before, Relayout.stripping.token select,
      [Relayout.stripping.token quantifier], ?_, ?_, ?_, ?_⟩
    · have hnone : Relayout.stripping.tokens gap = [] := by
        rw [Relayout.tokens, List.map_eq_nil_iff, List.filter_eq_nil_iff]
        intro token htoken
        simp [Relayout.stripping, hgap token htoken]
      rw [List.append_assoc, List.cons_append, Relayout.tokens_append,
        Relayout.tokens_cons_of_significant _ _ hselectTrivia, Relayout.tokens_append,
        hnone, Relayout.tokens_cons_of_significant _ _ hquantifierTrivia,
        Relayout.tokens_nil]
      rfl
    · rw [Relayout.depth_tokens, hdepth]
    · rw [Relayout.isKeyword_token, hselect]
    · simpa [Lexeme.isQuantifier] using hquantifier

end TopPlace

theorem IsEntry.exists_topPlace {entry : String} (h : IsEntry entry) {offset : Nat}
    (hoffset : topOffset? entry = some offset) :
    (Statement.ofTokens (tokenize entry)).isCombined = false ∧
      ∃ front word later, TopPlace (tokenize entry) front word later ∧
        word.stop = offset := by
  rw [topOffset?, h.statements_eq] at hoffset
  simp only [List.head?_cons, Option.bind_eq_bind, Option.bind_some] at hoffset
  cases hcombined : (Statement.ofTokens (tokenize entry)).isCombined with
  | true =>
    rw [hcombined] at hoffset
    have hnone : none = some offset := hoffset
    cases hnone
  | false =>
    refine ⟨rfl, ?_⟩
    simp only [Option.bind_eq_some_iff, Option.pure_def, Option.some_inj] at hoffset
    obtain ⟨-, -, clause, hclause, word, hword, hstop⟩ := hoffset
    have hkind : clause.kind = .select := by simpa using List.find?_some hclause
    obtain ⟨before, select, rest, htokens, hdepth, hselect, hhead⟩ :=
      exists_of_mem_clauses (List.mem_of_find?_eq_some hclause) hkind
    cases hquantifier : clause.significantBody.head?.filter fun token =>
        token.isKeyword .distinct || token.isKeyword .all with
    | none =>
      rw [hquantifier, Option.none_or, hhead, List.getLast?_singleton,
        Option.some_inj] at hword
      subst hword
      exact ⟨before, select, clause.body ++ rest,
        topPlace_select htokens hdepth hselect, hstop⟩
    | some quantifier =>
      rw [hquantifier, Option.some_or, Option.some_inj] at hword
      subst hword
      rw [Option.filter_eq_some_iff] at hquantifier
      obtain ⟨hfirst, hkeyword⟩ := hquantifier
      obtain ⟨more, hbody⟩ := List.head?_eq_some_iff.1 hfirst
      obtain ⟨gap, later, hsplit, hgap, -, -⟩ := List.filter_eq_cons_iff.1 hbody
      rw [hsplit, List.append_assoc, List.cons_append] at htokens
      exact ⟨before ++ select :: gap, quantifier, later ++ rest,
        topPlace_quantifier htokens hdepth hselect (by simpa using hgap) hkeyword,
        hstop⟩

/-! ## The text -/

theorem TopPlace.keyword?_isSome {tokens front later : List Token} {word : Token}
    (h : TopPlace tokens front word later) : word.keyword?.isSome = true := by
  rcases h.isWord with hselect | hquantifier
  · exact Option.isSome_of_mem (Lexeme.isKeyword_iff.1 hselect)
  · exact Lexeme.keyword?_isSome_of_isQuantifier hquantifier

theorem TopPlace.isOperand {tokens front later : List Token} {word : Token}
    (h : TopPlace tokens front word later) : (Piece.single word).IsOperand := by
  intro keyword hkeyword
  rcases h.isWord with hselect | hquantifier
  · have hsame := hkeyword.symm.trans (Lexeme.isKeyword_iff.1 hselect)
    rw [Option.some.inj hsame]
    rfl
  · rcases Lexeme.keyword?_of_isQuantifier hquantifier with hword | hword <;>
      rw [Option.some.inj (hkeyword.symm.trans hword)] <;> rfl

private theorem TopPlace.exists_chars {entry : String} (hentry : IsEntry entry)
    {front later : List Token} {word : Token}
    (h : TopPlace (tokenize entry) front word later) :
    ∃ before after, entry.toList = before ++ after ∧ before.length = word.stop ∧
      (∀ c ∈ after.head?, continuesWord c = false) ∧
      lexemes after = later.map Token.toLexeme ∧
      ∀ rest : List Char, (∀ c ∈ rest.head?, Text.isBreak c = true) →
        lexemes (before ++ rest) =
          (front ++ [word]).map Token.toLexeme ++ lexemes rest := by
  have hread : lexemes entry.toList =
      front.map Token.toLexeme ++ word.toLexeme :: later.map Token.toLexeme := by
    rw [← map_toLexeme_tokenize, h.tokens_eq, List.map_append, List.map_cons]
  have hcomment : ∀ lexeme ∈ front.map Token.toLexeme, lexeme.isComment = false :=
    fun lexeme hmem =>
      hentry.isComment_eq_false lexeme (hread ▸ List.mem_append_left _ hmem)
  obtain ⟨before, after, hchars, -, -, hhead, hafter, hsplice⟩ :=
    exists_splice hread h.keyword?_isSome hcomment
  have hsplice' : ∀ rest : List Char, (∀ c ∈ rest.head?, Text.isBreak c = true) →
      lexemes (before ++ rest) =
        (front ++ [word]).map Token.toLexeme ++ lexemes rest := by
    intro rest hrest
    rw [hsplice rest hrest, List.map_append, List.append_assoc]
    rfl
  refine ⟨before, after, hchars, ?_, hhead, hafter, hsplice'⟩
  have hwhole := hsplice' [] (by simp)
  have hbefore := flatMap_toList_lexemes before
  rw [List.append_nil, lexemes_nil, List.append_nil] at hwhole
  rw [hwhole, ← toList_textOf_eq_flatMap, textOf_append,
    String.toList_append] at hbefore
  obtain ⟨-, hstart, hstop⟩ := place_of_tokenize_eq h.tokens_eq
  have hword : (textOf [word]).length = word.text.length := by simp [textOf]
  rw [← hbefore, List.length_append, String.length_toList, String.length_toList,
    hstop, hstart, hword]

theorem isFigure_isInner {lexeme : Lexeme} (h : IsFigure lexeme) :
    lexeme.IsInner ∧ lexeme.isTrivia = false ∧ lexeme.isComment = false ∧
      lexeme.isQuoted = false := by
  rcases h with hkind | hkind <;>
    simp [Lexeme.IsInner, Lexeme.opens, Lexeme.closes, Lexeme.isTrivia,
      TokenKind.isTrivia, Lexeme.isComment, TokenKind.isComment, Lexeme.isQuoted,
      hkind]

private theorem lexemes_space_top : lexemes " top".toList =
    [BoundForm.space] ++ [⟨.identifier, "top"⟩] := by
  decide +kernel

theorem toList_insertTop_of_offset {entry : String} {before after : List Char}
    (hchars : entry.toList = before ++ after)
    (hoffset : topOffset? entry = some before.length) (count : Nat) :
    (insertTop entry count).toList =
      before ++ (" top".toList ++ ' ' :: (digitsOf count ++ after)) := by
  have hinsert : insertTop entry count =
      String.ofList (entry.toList.take before.length) ++
        (" top " ++ toString count) ++
        String.ofList (entry.toList.drop before.length) := by
    rw [insertTop, hoffset]
    rfl
  have hspace : " top ".toList = " top".toList ++ [' '] := by decide
  rw [hinsert, String.toList_append, String.toList_append, String.toList_append,
    hspace, String.toList_ofList, String.toList_ofList, hchars, List.take_left,
    List.drop_left]
  simp [digitsOf]

section Text

variable {entry : String} (hentry : IsEntry entry) {front later : List Token}
  {word : Token} (h : TopPlace (tokenize entry) front word later)
  (hoffset : topOffset? entry = some word.stop) (count : Nat)

include hentry h hoffset

/-- The characters of an entry on both sides of the place, and its lexemes with `TOP`
and a count written there. The count takes in a fraction that it comes to stand
before. -/
theorem TopPlace.exists_chars_insertTop :
    ∃ before after, entry.toList = before ++ after ∧
      lexemes before = (front ++ [word]).map Token.toLexeme ∧
      lexemes after = later.map Token.toLexeme ∧ exponentLength after = 0 ∧
      lexemes (insertTop entry count).toList =
        (front ++ [word]).map Token.toLexeme ++
          ([BoundForm.space, ⟨.identifier, "top"⟩, BoundForm.space,
              ⟨.number,
                String.ofList (digitsOf count ++ after.take (tailLength after))⟩] ++
            lexemes (after.drop (tailLength after))) := by
  obtain ⟨before, after, hchars, hlength, hhead, hafter, hsplice⟩ :=
    h.exists_chars hentry
  obtain ⟨hdigit, hexponent⟩ := exponentLength_eq_zero_of_head? hhead
  refine ⟨before, after, hchars, by simpa using hsplice [] (by simp), hafter,
    hexponent, ?_⟩
  have htop : Sealed " top".toList := sealed_of_lexemes_eq lexemes_space_top rfl rfl
  rw [toList_insertTop_of_offset hchars (hlength ▸ hoffset),
    hsplice _ (Text.isBreak_of_head?_eq rfl (by decide)),
    htop _ (Text.isBreak_of_head?_eq rfl (by decide)), lexemes_space_top,
    lexemes_space_digitsOf_append count hdigit]
  rfl

/-- The lexemes of an entry before and after `TOP` and a count are written into it.
Behind the count numbers and points may have come together otherwise. -/
theorem TopPlace.exists_lexemes_insertTop :
    ∃ (alone fused : List Lexeme) (number : Lexeme) (rest : List Lexeme),
      lexemes entry.toList = (front ++ [word]).map Token.toLexeme ++ (alone ++ rest) ∧
      lexemes (insertTop entry count).toList =
        (front ++ [word]).map Token.toLexeme ++
          ([BoundForm.space, ⟨.identifier, "top"⟩, BoundForm.space, number] ++
            fused ++ rest) ∧
      number.kind = .number ∧ (∀ lexeme ∈ alone, IsFigure lexeme) ∧
      ∀ lexeme ∈ fused, IsFigure lexeme := by
  obtain ⟨before, after, -, -, hafter, hexponent, htext⟩ :=
    h.exists_chars_insertTop hentry hoffset count
  obtain ⟨alone, fused, rest, halone, hfused, haloneFigure, hfusedFigure⟩ :=
    exists_lexemes_drop_tailLength hexponent
  refine ⟨alone, fused,
    ⟨.number, String.ofList (digitsOf count ++ after.take (tailLength after))⟩,
    lexemes rest, ?_, ?_, rfl, haloneFigure, hfusedFigure⟩
  · rw [← map_toLexeme_tokenize, h.tokens_eq, ← halone, hafter, List.map_append,
      List.map_append, List.append_assoc]
    rfl
  · rw [htext, hfused, List.append_assoc]

end Text

/-! ## The query -/

/-- Tokens outside parentheses that combine nothing change nothing about set operators
behind a word that is none. -/
theorem combines_splice {front inner rest : List Token} {word : Token}
    (hdepth : depth front = 0) (hword : (Piece.single word).IsOperand)
    (htrivia : word.isTrivia = false) (hopens : word.opens = false)
    (hinner : ∀ token ∈ inner, token.opens = false ∧ (Piece.single token).IsOperand) :
    Piece.combines (Piece.ofTokens (front ++ word :: (inner ++ rest))) =
      (Piece.combines (Piece.ofTokens front) ||
        Piece.combines (Piece.ofTokens rest)) := by
  have hinnerOpens : ∀ token ∈ inner, token.opens = false := fun token htoken =>
    (hinner token htoken).1
  have hpieces : Piece.ofTokens (inner ++ rest) =
      inner.map Piece.single ++ Piece.ofTokens rest := by
    rw [Piece.ofTokens_append _ (depth_of_not_opens hinnerOpens),
      Piece.ofTokens_of_not_opens hinnerOpens]
  have hoperand : ∀ piece ∈ .single word :: inner.map Piece.single,
      piece.IsOperand := by
    rw [List.forall_mem_cons, List.forall_mem_map]
    exact ⟨hword, fun token htoken => (hinner token htoken).2⟩
  have hsingle : (Piece.single word).isTrivia = false := htrivia
  rw [Piece.ofTokens_append _ hdepth, Piece.ofTokens_cons_of_not_opens _ hopens,
    hpieces, Piece.combines_append_cons _ _ hsingle rfl, ← List.cons_append,
    Piece.combines_append_of_isOperand _ hoperand]

private theorem unplaced_isInner {ls : List Lexeme}
    (h : ∀ lexeme ∈ ls, IsFigure lexeme) :
    ∀ token ∈ unplaced ls, token.IsInner ∧ token.keyword? = none := by
  refine forall_mem_unplaced.2 ?_
  intro lexeme hlexeme
  refine ⟨(isFigure_isInner (h lexeme hlexeme)).1, ?_⟩
  rcases h lexeme hlexeme with hkind | hkind <;> rw [Lexeme.keyword?, hkind] <;> rfl

section Stripped

variable {tokens front later : List Token} {word : Token}
  (h : TopPlace tokens front word later)

include h

theorem TopPlace.combines_stripped {inner : List Token}
    (hinner : ∀ token ∈ inner, token.IsInner ∧ token.keyword? = none)
    (rest : List Token) :
    Piece.combines
        (Piece.ofTokens
          (Relayout.stripping.tokens (front ++ [word]) ++ (inner ++ rest))) =
      (Piece.combines (Piece.ofTokens (Relayout.stripping.tokens front)) ||
        Piece.combines (Piece.ofTokens rest)) := by
  have hkeyword := h.keyword?_isSome
  rw [Relayout.tokens_append,
    Relayout.tokens_cons_of_significant _ [] (Lexeme.isTrivia_of_keyword? hkeyword),
    Relayout.tokens_nil, List.append_assoc, List.singleton_append]
  apply combines_splice
  · rw [Relayout.depth_tokens, h.depth_eq]
  · exact h.isOperand
  · exact Lexeme.isTrivia_of_keyword? hkeyword
  · exact (Lexeme.isInner_of_keyword? hkeyword).2.1
  · exact fun token htoken => ⟨(hinner token htoken).1.2.1,
      Piece.isOperand_of_keyword?_eq_none (hinner token htoken).2⟩

theorem TopPlace.kind_stripped (rest : List Token) :
    StatementKind.ofTokens (Relayout.stripping.tokens (front ++ [word]) ++ rest) =
      StatementKind.ofTokens (Relayout.stripping.tokens (front ++ [word])) := by
  have hkeyword := h.keyword?_isSome
  apply StatementKind.ofTokens_append
  rw [Relayout.tokens_append,
    Relayout.tokens_cons_of_significant _ [] (Lexeme.isTrivia_of_keyword? hkeyword)]
  exact leading?_isSome_of_mem (List.mem_append_right _ (List.mem_cons_self ..))
    (Lexeme.isTrivia_of_keyword? hkeyword) (Lexeme.isInner_of_keyword? hkeyword).2.1

theorem TopPlace.isBounded {tokens' : List Token}
    (hquery : (Statement.ofTokens tokens).isQuery = true)
    (hcombined : (Statement.ofTokens tokens).isCombined = false)
    {alone fused rest : List Lexeme} {number : Lexeme}
    (hold : (significant tokens).map Token.toLexeme =
      (significant (front ++ [word])).map Token.toLexeme ++ (alone ++ rest))
    (hnew : (significant tokens').map Token.toLexeme =
      (significant (front ++ [word])).map Token.toLexeme ++
        (⟨.identifier, "top"⟩ :: number :: fused ++ rest))
    (hnumber : number.kind = .number) (halone : ∀ lexeme ∈ alone, IsFigure lexeme)
    (hfused : ∀ lexeme ∈ fused, IsFigure lexeme) :
    (Statement.ofTokens tokens').isBounded = true := by
  have hfront := Relayout.tokens_stripping (front ++ [word])
  have hkind := Statement.kind_of_isQuery hquery
  rw [Statement.eq_unplaced (F := Statement.kind) (by simp) hold, unplaced_append,
    unplaced_append, ← hfront, Statement.kind_ofTokens, h.kind_stripped] at hkind
  rw [Statement.eq_unplaced (F := Statement.isCombined) (by simp) hold,
    unplaced_append, unplaced_append, ← hfront, Statement.isCombined_ofTokens,
    h.combines_stripped (unplaced_isInner halone)] at hcombined
  rw [Statement.eq_unplaced (F := Statement.isBounded) (by simp [Statement.isBounded])
      hnew, unplaced_append, ← hfront]
  have hinner : ∀ token ∈ unplaced (⟨.identifier, "top"⟩ :: number :: fused),
      token.IsInner ∧ token.keyword? = none := by
    rw [unplaced_cons, unplaced_cons, List.forall_mem_cons, List.forall_mem_cons]
    refine ⟨?_, ?_, unplaced_isInner hfused⟩
    · simp [Lexeme.IsInner, Lexeme.opens, Lexeme.closes, Lexeme.keyword?,
        TokenKind.keyword?]
    · simp [Lexeme.IsInner, Lexeme.opens, Lexeme.closes, Lexeme.keyword?,
        TokenKind.keyword?, hnumber]
  obtain ⟨before, select, quantifiers, hselects, hbefore, hselect, hquantifiers⟩ :=
    h.exists_select
  have hwrites :
      WritesTop quantifiers ⟨⟨.identifier, "top"⟩, 0, 0, 0⟩ ⟨number, 0, 0, 0⟩ :=
    ⟨hquantifiers, rfl, hnumber⟩
  have hwhole : Relayout.stripping.tokens (front ++ [word]) ++
        unplaced (⟨.identifier, "top"⟩ :: number :: fused ++ rest) =
      before ++
        select ::
          (quantifiers ++ [⟨⟨.identifier, "top"⟩, 0, 0, 0⟩, ⟨number, 0, 0, 0⟩] ++
            unplaced (fused ++ rest)) := by
    rw [hselects]
    simp
  apply hwrites.isBounded hbefore hselect hwhole
  · rw [h.kind_stripped]
    rcases hkind with hkind | hkind <;> rw [hkind] <;> decide
  · rw [h.kind_stripped]
    rcases hkind with hkind | hkind <;> rw [hkind] <;> decide
  · rw [unplaced_append, h.combines_stripped hinner, hcombined]

end Stripped

section Inserted

variable {number : Lexeme} {fused : List Lexeme}

private theorem isInner_inserted (hnumber : number.kind = .number)
    (hfused : ∀ lexeme ∈ fused, IsFigure lexeme) :
    ∀ lexeme ∈ [BoundForm.space, ⟨.identifier, "top"⟩, BoundForm.space, number] ++
        fused, lexeme.IsInner ∧ lexeme.isComment = false := by
  intro lexeme hlexeme
  rcases List.mem_append.1 hlexeme with hlexeme | hlexeme
  · simp only [List.mem_cons, List.not_mem_nil, or_false] at hlexeme
    rcases hlexeme with rfl | rfl | rfl | rfl
    · exact ⟨by simp [Lexeme.IsInner, BoundForm.space, Lexeme.opens, Lexeme.closes],
        rfl⟩
    · exact ⟨by simp [Lexeme.IsInner, Lexeme.opens, Lexeme.closes], rfl⟩
    · exact ⟨by simp [Lexeme.IsInner, BoundForm.space, Lexeme.opens, Lexeme.closes],
        rfl⟩
    · have hinner := isFigure_isInner (Or.inl hnumber)
      exact ⟨hinner.1, hinner.2.2.1⟩
  · have hinner := isFigure_isInner (hfused lexeme hlexeme)
    exact ⟨hinner.1, hinner.2.2.1⟩

private theorem exists_inserted_eq (hnumber : number.kind = .number)
    (hfused : ∀ lexeme ∈ fused, IsFigure lexeme) :
    ∃ init last,
      [BoundForm.space, ⟨.identifier, "top"⟩, BoundForm.space, number] ++ fused =
        init ++ [last] ∧
      last.isTrivia = false ∧ last.isQuoted = false := by
  rcases List.eq_nil_or_concat' fused with rfl | ⟨init, last, rfl⟩
  · have hfigure := isFigure_isInner (Or.inl hnumber)
    exact ⟨[BoundForm.space, ⟨.identifier, "top"⟩, BoundForm.space], number, rfl,
      hfigure.2.1, hfigure.2.2.2⟩
  · have hfigure := isFigure_isInner (hfused last (by simp))
    exact ⟨_, last, (List.append_assoc _ init [last]).symm, hfigure.2.1,
      hfigure.2.2.2⟩

end Inserted

/-- An entry with `TOP` and a count in its place is an entry, and a bounded query. -/
theorem IsEntry.insertTop_of_offset {entry : String} (h : IsEntry entry)
    {offset : Nat} (hoffset : topOffset? entry = some offset) (count : Nat)
    (hquery : (Statement.ofTokens (tokenize entry)).isQuery = true) :
    IsEntry (insertTop entry count) ∧
      (Statement.ofTokens (tokenize (insertTop entry count))).isBounded = true := by
  obtain ⟨hcombined, front, word, later, hplace, rfl⟩ := h.exists_topPlace hoffset
  obtain ⟨alone, fused, number, rest, hentry, htext, hnumber, halone, hfused⟩ :=
    hplace.exists_lexemes_insertTop h hoffset count
  constructor
  · apply h.splice hentry htext (by simp)
    · rw [← Relayout.tokens_unplacing, Relayout.depth_tokens,
        depth_append _ hplace.depth_eq]
      apply depth_of_isInner
      simpa using Lexeme.isInner_of_keyword? hplace.keyword?_isSome
    · exact fun lexeme hlexeme => (isFigure_isInner (halone lexeme hlexeme)).1
    · exact isInner_inserted hnumber hfused
    · exact exists_inserted_eq hnumber hfused
  · have hfilter : ∀ ls : List Lexeme, (∀ lexeme ∈ ls, IsFigure lexeme) →
        (ls.filter fun lexeme => !lexeme.isTrivia) = ls := by
      intro ls hls
      rw [List.filter_eq_self]
      exact fun lexeme hlexeme =>
        by simp [(isFigure_isInner (hls lexeme hlexeme)).2.1]
    have hold : (significant (tokenize entry)).map Token.toLexeme =
        (significant (front ++ [word])).map Token.toLexeme ++
          (alone ++ rest.filter fun lexeme => !lexeme.isTrivia) := by
      rw [map_toLexeme_significant_eq, map_toLexeme_significant_eq,
        map_toLexeme_tokenize, hentry, List.filter_append, List.filter_append,
        hfilter alone halone]
    have hnew : (significant (tokenize (insertTop entry count))).map Token.toLexeme =
        (significant (front ++ [word])).map Token.toLexeme ++
          (⟨.identifier, "top"⟩ :: number :: fused ++
            rest.filter fun lexeme => !lexeme.isTrivia) := by
      have htrivia : number.isTrivia = false :=
        (isFigure_isInner (Or.inl hnumber)).2.1
      rw [map_toLexeme_significant_eq, map_toLexeme_significant_eq,
        map_toLexeme_tokenize, htext, List.filter_append, List.filter_append,
        List.filter_append, hfilter fused hfused]
      simp [BoundForm.space, Lexeme.isTrivia, TokenKind.isTrivia, hnumber]
    exact hplace.isBounded hquery hcombined hold hnew hnumber halone hfused

end Script

end SqlOutline
