import SqlOutline.Proofs.Piece.Outside
import SqlOutline.Proofs.Script.Separation

/-!
# Clauses and what stands outside parentheses

Headings are keywords outside parentheses, found by the pieces around them. So a
statement that begins with `SELECT` is cut alike whatever its groups hold, if only
`EXCEPT` is followed by the same kind of group.
-/

namespace SqlOutline

/-! ## Headings -/

namespace Piece.AlikeOutside

variable {previous : Option Lexeme} {pieces pieces' : List Piece}

theorem getElem?_bind_keyword?_eq (h : AlikeOutside previous pieces pieces')
    (index : Nat) : pieces[index]?.bind keyword? = pieces'[index]?.bind keyword? := by
  have hwords := congrArg (fun words => words[index]?.bind id) h.map_keyword?_eq
  simpa only [List.getElem?_map, Option.bind_map, Function.id_comp] using hwords

theorem head?_bind_keyword?_eq (h : AlikeOutside previous pieces pieces') :
    pieces.head?.bind keyword? = pieces'.head?.bind keyword? := by
  rw [List.head?_eq_getElem?, List.head?_eq_getElem?]
  exact h.getElem?_bind_keyword?_eq 0

theorem exists_cons {piece : Piece}
    (h : AlikeOutside previous (piece :: pieces) pieces') :
    ∃ piece' rest', pieces' = piece' :: rest' := by
  cases h <;> exact ⟨_, _, rfl⟩

theorem head?_any_isGroup_eq (h : AlikeOutside previous pieces pieces') :
    pieces.head?.any (!·.isGroup) = pieces'.head?.any (!·.isGroup) := by
  cases h <;> rfl

theorem joinAfterModifier_eq (h : AlikeOutside previous pieces pieces') :
    Heading.joinAfterModifier pieces = Heading.joinAfterModifier pieces' := by
  have hmodifiers : (pieces.takeWhile fun piece =>
        piece.keyword?.any Keyword.modifiesJoin).length =
      (pieces'.takeWhile fun piece =>
        piece.keyword?.any Keyword.modifiesJoin).length := by
    have hwords :=
      congrArg (fun words => (words.takeWhile (·.any Keyword.modifiesJoin)).length)
        h.map_keyword?_eq
    simpa only [List.takeWhile_map, List.length_map, Function.comp_def] using hwords
  simp only [Heading.joinAfterModifier]
  rw [hmodifiers, h.getElem?_bind_keyword?_eq]

theorem removesColumns_eq (h : AlikeOutside previous pieces pieces')
    (hexcept : previous.any (·.isKeyword .except) = true) :
    Heading.removesColumns pieces = Heading.removesColumns pieces' := by
  cases h with
  | nil => rfl
  | single hopens htoken hrest => rfl
  | group hopens hopening hclosing hinner htop hrest =>
    simp only [Heading.removesColumns, List.head?_cons, hinner hexcept]

theorem at?_eq {piece piece' : Piece}
    (h : AlikeOutside previous (piece :: pieces) (piece' :: pieces'))
    (traits : StatementTraits) (before : Option TokenKind) :
    Heading.at? traits before piece pieces =
      Heading.at? traits before piece' pieces' := by
  cases h with
  | group => rfl
  | @single _ token token' _ _ hopens htoken hrest =>
    rw [Heading.at?, Heading.at?, keyword?, keyword?, ← htoken]
    cases hkeyword : token.keyword? with
    | none => rfl
    | some keyword =>
      have htrivia : token.isTrivia = false :=
        Lexeme.isTrivia_of_keyword? (by rw [hkeyword]; rfl)
      rw [htrivia] at hrest
      have hsignificant := hrest.significant
      have hremoves : keyword = .except →
          Heading.removesColumns (Piece.significant pieces) =
            Heading.removesColumns (Piece.significant pieces') := by
        rintro rfl
        exact hsignificant.removesColumns_eq (Lexeme.isKeyword_iff.2 hkeyword)
      simp only [Option.bind_some, Heading.ofKeyword?, Heading.wordAnd,
        Heading.wordBy, Heading.opensDefinitions, hsignificant.head?_bind_keyword?_eq,
        hsignificant.head?_any_isGroup_eq, hsignificant.joinAfterModifier_eq]
      split <;> first | rfl | rw [hremoves rfl]

end Piece.AlikeOutside

/-! ## Sections -/

def Section.AlikeOutside (part part' : Section) : Prop :=
  part.kind = part'.kind ∧
    ∃ previous, Piece.AlikeOutside previous part.body part'.body

theorem Piece.reach_eq {pieces pieces' : List Piece}
    (h : pieces.map isTrivia = pieces'.map isTrivia) (count : Nat) :
    reach count pieces = reach count pieces' := by
  induction pieces generalizing pieces' count with
  | nil =>
    rw [List.map_nil, eq_comm, List.map_eq_nil_iff] at h
    rw [h]
  | cons piece pieces ih =>
    cases pieces' with
    | nil => simp at h
    | cons piece' pieces' =>
      obtain ⟨hpiece, hrest⟩ := List.cons.inj h
      cases count with
      | zero => rfl
      | succ count => rw [reach, reach, hpiece, ih hrest, ih hrest]

theorem Heading.isGroup_eq_false_of_at? {traits : StatementTraits}
    {previous : Option TokenKind} {piece : Piece} {rest : List Piece}
    {heading : Heading} (h : at? traits previous piece rest = some heading) :
    ∀ other ∈ piece :: rest.take (Piece.reach (heading.words - 1) rest),
      other.isGroup = false := by
  obtain ⟨hkeyword, hspans⟩ := keyword?_of_at? h
  intro other hother
  rcases List.mem_cons.1 hother with rfl | hother
  · obtain ⟨token, rfl, -⟩ := Piece.exists_single_of_keyword? hkeyword
    rfl
  · obtain ⟨token, rfl, -⟩ := exists_single_of_mem_take hspans hother
    rfl

namespace Section

variable {previous : Option Lexeme}

theorem headOf_eq {piece piece' : Piece} {pieces pieces' : List Piece}
    {traits : StatementTraits} {before : Option TokenKind} {heading : Heading}
    (h : Piece.AlikeOutside previous (piece :: pieces) (piece' :: pieces'))
    (hheading : Heading.at? traits before piece pieces = some heading) :
    (headOf heading.words piece pieces).map Token.toLexeme =
      (headOf heading.words piece' pieces').map Token.toLexeme := by
  have hreach :=
    Piece.reach_eq (List.cons.inj h.map_isTrivia_eq).2 (heading.words - 1)
  rw [headOf, headOf, ← hreach]
  exact (h.take (Piece.reach (heading.words - 1) pieces + 1)).map_toLexeme_eq
    (Heading.isGroup_eq_false_of_at? hheading)

/-- Pieces that are alike outside parentheses are cut into sections that are. -/
theorem cut_alikeOutside (traits : StatementTraits) (before : Option TokenKind)
    (pieces : List Piece) :
    ∀ (previous : Option Lexeme) (pieces' : List Piece),
      Piece.AlikeOutside previous pieces pieces' →
      Piece.AlikeOutside previous (cut traits before pieces).1
          (cut traits before pieces').1 ∧
        List.Forall₂ AlikeOutside (cut traits before pieces).2
          (cut traits before pieces').2 := by
  induction before, pieces using Section.cut.induct traits with
  | case1 before =>
    intro previous pieces' h
    cases h
    simpa [cut] using Piece.AlikeOutside.nil previous
  | case2 before piece pieces heading hheading length head body later hcut ih =>
    intro previous pieces' h
    obtain ⟨piece', rest', rfl⟩ := h.exists_cons
    have hheading' := (h.at?_eq traits before).symm.trans hheading
    have hreach :=
      Piece.reach_eq (List.cons.inj h.map_isTrivia_eq).2 (heading.words - 1)
    have hkind : (headOf heading.words piece pieces).getLast?.map (·.kind) =
        (headOf heading.words piece' rest').getLast?.map (·.kind) := by
      have hlast := congrArg (fun lexemes => lexemes.getLast?.map Lexeme.kind)
        (headOf_eq h hheading)
      simpa only [List.getLast?_map, Option.map_map, Function.comp_def] using hlast
    -- the reading goes on after the last word of the heading
    obtain ⟨last, hdrop⟩ := h.exists_drop (Piece.reach (heading.words - 1) pieces + 1)
    rw [List.drop_succ_cons, List.drop_succ_cons] at hdrop
    obtain ⟨hbody, hlater⟩ := ih _ _ hdrop
    rw [cut_cons_of_heading hheading rfl, cut_cons_of_heading hheading' rfl, ← hkind,
      ← hreach]
    exact ⟨.nil previous, .cons ⟨rfl, last, hbody⟩ hlater⟩
  | case3 before piece pieces hheading body later hcut ih =>
    intro previous pieces' h
    rw [dite_eq_ite] at ih
    have hheading' := hheading
    obtain ⟨piece', rest', rfl⟩ := h.exists_cons
    rw [h.at?_eq traits before] at hheading'
    rw [cut_cons_of_none hheading rfl, cut_cons_of_none hheading' rfl]
    cases h with
    | @single _ token token' _ _ hopens htoken hrest =>
      obtain ⟨hbody, hlater⟩ := ih _ _ hrest
      have htrivia : (Piece.single token').isTrivia =
          (Piece.single token).isTrivia := by
        rw [Piece.isTrivia, Piece.isTrivia, htoken]
      have hkind : (Piece.single token').lastKind =
          (Piece.single token).lastKind := by
        rw [Piece.lastKind, Piece.lastKind, htoken]
      rw [htrivia, hkind]
      exact ⟨.single hopens htoken hbody, hlater⟩
    | group hopens hopening hclosing hexcept htop hrest =>
      obtain ⟨hbody, hlater⟩ := ih _ _ hrest
      exact ⟨.group hopens hopening hclosing hexcept htop hbody, hlater⟩

end Section

/-! ## Statements -/

/-- Passages of one kind of statement that are alike outside parentheses have alike
sections. -/
theorem Passage.forall₂_sections {tokens tokens' : List Token}
    {previous : Option Lexeme}
    (h : Piece.AlikeOutside previous (Piece.ofTokens tokens) (Piece.ofTokens tokens'))
    (htraits : StatementTraits.ofTokens tokens = StatementTraits.ofTokens tokens') :
    List.Forall₂ Section.AlikeOutside (sections ⟨false, tokens⟩)
      (sections ⟨false, tokens'⟩) := by
  obtain ⟨hopening, hheaded⟩ :=
    Section.cut_alikeOutside (StatementTraits.ofTokens tokens) none _ _ _ h
  have hall : (opening ⟨false, tokens⟩).all Piece.isTrivia =
      (opening ⟨false, tokens'⟩).all Piece.isTrivia := by
    have htrivia := congrArg (fun trivia => trivia.all id) hopening.map_isTrivia_eq
    rw [opening, opening, ← htraits]
    simpa only [List.all_map, Function.id_comp] using htrivia
  rw [sections_eq, sections_eq, openingClause_of_not_relation rfl,
    openingClause_of_not_relation rfl, hall]
  rw [headed, headed, opening, opening, ← htraits]
  split
  · exact hheaded
  · exact .cons ⟨rfl, previous, hopening⟩ hheaded

/-! ## Parts of a script -/

theorem Piece.AlikeOutside.exists_splitOnP {previous : Option Lexeme}
    {pieces pieces' : List Piece} (h : AlikeOutside previous pieces pieces') :
    ∃ first rest first' rest', pieces.splitOnP (isKind .semicolon) = first :: rest ∧
      pieces'.splitOnP (isKind .semicolon) = first' :: rest' ∧
      AlikeOutside previous first first' ∧
      List.Forall₂ (fun part part' => ∃ last, AlikeOutside last part part') rest
        rest' := by
  induction h with
  | nil previous => exact ⟨[], [], [], [], by simp, by simp, .nil previous, .nil⟩
  | @single previous token token' pieces pieces' hopens htoken hrest ih =>
    obtain ⟨first, rest, first', rest', hsplit, hsplit', hfirst, hparts⟩ := ih
    have hkind : (Piece.single token').isKind .semicolon =
        (Piece.single token).isKind .semicolon := by
      rw [isKind, isKind, htoken]
    rw [List.splitOnP_cons_eq_if_modifyHead, List.splitOnP_cons_eq_if_modifyHead,
      hsplit, hsplit', hkind]
    split
    · exact ⟨[], _, [], _, rfl, rfl, .nil previous, .cons ⟨_, hfirst⟩ hparts⟩
    · exact ⟨_, rest, _, rest', rfl, rfl, .single hopens htoken hfirst, hparts⟩
  | group hopens hopening hclosing hexcept htop hrest ih =>
    obtain ⟨first, rest, first', rest', hsplit, hsplit', hfirst, hparts⟩ := ih
    rw [List.splitOnP_cons_eq_if_modifyHead, List.splitOnP_cons_eq_if_modifyHead,
      hsplit, hsplit']
    exact ⟨_, rest, _, rest', rfl, rfl,
      .group hopens hopening hclosing hexcept htop hfirst, hparts⟩

theorem Piece.AlikeOutside.any_significant_eq {previous : Option Lexeme}
    {pieces pieces' : List Piece} (h : AlikeOutside previous pieces pieces') :
    (pieces.flatMap Piece.tokens).any (!·.isTrivia) =
      (pieces'.flatMap Piece.tokens).any (!·.isTrivia) := by
  induction h with
  | nil => rfl
  | single hopens htoken hrest ih =>
    simp only [List.flatMap_cons, tokens, List.any_append, ih, htoken, List.any_cons,
      List.any_nil]
  | @group _ opening opening' _ _ _ _ _ _ hopens hopening hclosing hexcept htop hrest
      ih =>
    have htrivia : opening.isTrivia = false := Lexeme.isTrivia_of_opens hopens
    have htrivia' : opening'.isTrivia = false := by rwa [← hopening]
    simp [tokens, htrivia, htrivia']

namespace Script

private theorem filter_splitOnP_eq_of_parts {tokens part : List Token}
    (h : parts tokens = [part]) :
    ((Piece.ofTokens tokens).splitOnP (Piece.isKind .semicolon)).filter
        (fun part => (part.flatMap Piece.tokens).any (!·.isTrivia)) =
      [Piece.ofTokens part] := by
  rw [parts, List.filter_map, List.map_eq_singleton_iff] at h
  obtain ⟨stretch, hstretch, rfl⟩ := h
  have hmem := (List.mem_filter.1 (hstretch ▸ List.mem_singleton_self stretch)).1
  obtain ⟨earlier, later, hsplit⟩ := isInfix_of_mem_splitOnP hmem
  rw [List.append_assoc] at hsplit
  rw [Piece.ofTokens_flatMap_of_stretch hsplit.symm]
  exact hstretch

/-- The statements of two scripts of one statement each are alike outside parentheses
if the scripts are. -/
theorem exists_alikeOutside_of_parts {first second part part' : List Token}
    (h : Piece.AlikeOutside none (Piece.ofTokens first) (Piece.ofTokens second))
    (hpart : parts first = [part]) (hpart' : parts second = [part']) :
    ∃ last, Piece.AlikeOutside last (Piece.ofTokens part) (Piece.ofTokens part') := by
  obtain ⟨_, _, _, _, hsplit, hsplit', hhead, hrest⟩ := h.exists_splitOnP
  have hall := List.rel_filter
    (R := fun part part' => ∃ last, Piece.AlikeOutside last part part')
    (p := fun part => (part.flatMap Piece.tokens).any (!·.isTrivia))
    (q := fun part => (part.flatMap Piece.tokens).any (!·.isTrivia))
    (fun _ _ ⟨_, halike⟩ => Bool.eq_iff_iff.1 halike.any_significant_eq)
    (List.Forall₂.cons ⟨none, hhead⟩ hrest)
  rw [← hsplit, ← hsplit', filter_splitOnP_eq_of_parts hpart,
    filter_splitOnP_eq_of_parts hpart'] at hall
  exact (List.forall₂_cons.1 hall).1

private theorem eq_or_exists_of_splitOnP {α : Type} {p : α → Bool} {l first : List α}
    {rest : List (List α)} (h : l.splitOnP p = first :: rest) :
    l = first ∨ ∃ x later, l = first ++ x :: later ∧ p x = true := by
  induction l generalizing first rest with
  | nil =>
    rw [List.splitOnP_nil] at h
    exact Or.inl (List.cons.inj h).1
  | cons x l ih =>
    rw [List.splitOnP_cons_eq_if_modifyHead] at h
    split at h
    · next hx =>
      obtain ⟨rfl, -⟩ := List.cons.inj h
      exact Or.inr ⟨x, l, rfl, hx⟩
    · obtain ⟨part, parts, hparts⟩ :=
        List.exists_cons_of_ne_nil (List.splitOnP_ne_nil p l)
      rw [hparts, List.modifyHead_cons] at h
      obtain ⟨rfl, -⟩ := List.cons.inj h
      rcases ih hparts with rfl | ⟨y, later, rfl, hy⟩
      · exact Or.inl rfl
      · exact Or.inr ⟨y, later, rfl, hy⟩

private theorem head?_significant_of_parts {tokens part : List Token} {token : Token}
    (hparts : parts tokens = [part])
    (htoken : (significant tokens).head? = some token)
    (hkind : token.kind ≠ .semicolon) : (significant part).head? = some token := by
  obtain ⟨first, rest, hsplit⟩ := List.exists_cons_of_ne_nil
    (List.splitOnP_ne_nil (Piece.isKind .semicolon) (Piece.ofTokens tokens))
  have htokens := Piece.flatMap_tokens_ofTokens tokens
  by_cases hsignificant : (first.flatMap Piece.tokens).any (!·.isTrivia) = true
  · rw [parts, hsplit, List.map_cons, List.filter_cons, if_pos hsignificant] at hparts
    obtain ⟨rfl, -⟩ := List.cons.inj hparts
    obtain ⟨other, hother, htrivia⟩ := List.any_eq_true.1 hsignificant
    have hne : significant (first.flatMap Piece.tokens) ≠ [] :=
      List.ne_nil_of_mem (mem_significant.2 ⟨hother, by simpa using htrivia⟩)
    obtain ⟨later, hlater⟩ : first <+: Piece.ofTokens tokens :=
      isPrefix_of_head?_splitOnP (p := Piece.isKind .semicolon) (by rw [hsplit]; rfl)
    rw [← htokens, ← hlater, List.flatMap_append, significant_append,
      List.head?_append_of_ne_nil _ hne] at htoken
    exact htoken
  -- otherwise the script would begin with the semicolon behind this part
  · have hnone : significant (first.flatMap Piece.tokens) = [] := by
      rw [Bool.not_eq_true, List.any_eq_false] at hsignificant
      rw [significant, List.filter_eq_nil_iff]
      exact hsignificant
    rcases eq_or_exists_of_splitOnP hsplit with hpieces |
      ⟨piece, later, hpieces, hsemicolon⟩
    · rw [← htokens, hpieces, hnone] at htoken
      simp at htoken
    · cases piece with
      | group opening inner closing => simp [Piece.isKind] at hsemicolon
      | single semicolon =>
        have hsemicolon : semicolon.kind = .semicolon := beq_iff_eq.1 hsemicolon
        have htrivia : semicolon.isTrivia = false := by
          rw [Lexeme.isTrivia, hsemicolon]
          rfl
        rw [← htokens, hpieces, List.flatMap_append, significant_append, hnone,
          List.nil_append, List.flatMap_cons, Piece.tokens, List.singleton_append,
          significant_cons _ htrivia, List.head?_cons, Option.some_inj] at htoken
        exact absurd (htoken ▸ hsemicolon) hkind

end Script

private theorem leading?_of_head?_significant {tokens : List Token} {token : Token}
    (h : (significant tokens).head? = some token) (hopens : token.opens = false) :
    leading? tokens = some token := by
  induction tokens with
  | nil => simp at h
  | cons first tokens ih =>
    by_cases htrivia : first.isTrivia = true
    · rw [significant_cons_of_isTrivia _ htrivia] at h
      rw [leading?, List.dropWhile_cons_of_pos (by simp [htrivia]), ← leading?, ih h]
    · rw [significant_cons _ (by simpa using htrivia), List.head?_cons,
        Option.some_inj] at h
      subst h
      rw [leading?, List.dropWhile_cons_of_neg (by simp [htrivia, hopens]),
        List.head?_cons]

theorem StatementTraits.ofTokens_of_select {tokens : List Token} {token : Token}
    (h : (significant tokens).head? = some token)
    (hselect : token.isKeyword .select = true) :
    ofTokens tokens = ⟨.select, false⟩ := by
  have hkind : token.kind = .keyword .select := beq_iff_eq.1 hselect
  have hopens : token.opens = false := by
    rw [Lexeme.opens, hkind]
    rfl
  have hstatement : StatementKind.ofTokens tokens = .select := by
    rw [StatementKind.ofTokens, leading?_of_head?_significant h hopens,
      Option.bind_some, Lexeme.isKeyword_iff.1 hselect]
    rfl
  rw [ofTokens, hstatement]
  rfl

theorem StatementTraits.ofTokens_of_parts {tokens part : List Token}
    (hparts : Script.parts tokens = [part])
    (hselect : (significant tokens).head?.any (·.isKeyword .select) = true) :
    ofTokens part = ⟨.select, false⟩ := by
  obtain ⟨token, htoken, hkeyword⟩ := (Option.any_eq_true _ _).1 hselect
  have hkind : token.kind ≠ .semicolon := by
    rw [beq_iff_eq.1 hkeyword]
    exact TokenKind.noConfusion
  exact ofTokens_of_select (Script.head?_significant_of_parts hparts htoken hkind)
    hkeyword

end SqlOutline
