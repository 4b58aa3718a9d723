import Mathlib.Tactic.ByContra
import SqlOutline.Proofs.Token.Significant
import SqlOutline.Statement.Passage

/-!
# Changes of layout

A change of layout leaves out white space and comments, moves what is left to other
places, and may write a token with another text. It changes no kind, so the readings
of a text that have no regard to white space, comments and places commute with it as
far as they look at kinds alone. Here are those of token lists, pieces and groups.
-/

namespace SqlOutline

/-- Which tokens a change of layout keeps, how it writes them, and where it puts
them. -/
structure Relayout where
  keeps : Token → Bool
  text : Token → String := fun token => token.text
  line : Nat → Nat
  start : Nat → Nat
  stop : Nat → Nat
  /-- Only white space and comments are left out. -/
  keeps_of_isTrivia : ∀ token : Token, token.isTrivia = false → keeps token = true

theorem Token.not_isTrivia_eq_true (token : Token) (h : token.isTrivia = false) :
    (!token.isTrivia) = true := by
  rw [h]
  rfl

def Piece.IsProper : Piece → Prop
  | .single _ => True
  | .group opening _ closing =>
    opening.opens = true ∧ ∀ token ∈ closing, token.closes = true

theorem Piece.isProper_of_mem_ofTokens {tokens : List Token} {piece : Piece}
    (h : piece ∈ Piece.ofTokens tokens) : piece.IsProper := by
  induction tokens using Piece.ofTokens.induct with
  | case1 => simp [ofTokens] at h
  | case2 token tokens hopens length ih =>
    rw [ofTokens, if_pos hopens] at h
    rcases List.mem_cons.1 h with rfl | h
    · exact ⟨hopens, fun closing hclosing => closes_of_getElem?_groupLength hclosing⟩
    · exact ih h
  | case3 token tokens hopens ih =>
    rw [ofTokens, if_neg hopens] at h
    rcases List.mem_cons.1 h with rfl | h
    · trivial
    · exact ih h

/-- Elements that are left out by `keeps` separate no parts. -/
theorem splitOnP_map_filter {α β : Type} {p : β → Bool} {q : α → Bool} {f : α → β}
    (keeps : α → Bool) (hp : ∀ x, p (f x) = q x)
    (hkeeps : ∀ x, q x = true → keeps x = true) (l : List α) :
    ((l.filter keeps).map f).splitOnP p =
      (l.splitOnP q).map fun part => (part.filter keeps).map f := by
  induction l with
  | nil => simp
  | cons x l ih =>
    obtain ⟨first, parts, hparts⟩ :=
      List.exists_cons_of_ne_nil (List.splitOnP_ne_nil q l)
    rw [hparts, List.map_cons] at ih
    rw [List.splitOnP_cons_eq_if_modifyHead]
    by_cases hcut : q x = true
    · rw [if_pos hcut, List.filter_cons_of_pos (hkeeps x hcut), List.map_cons,
        List.splitOnP_cons_eq_if_modifyHead, hp, if_pos hcut, ih, hparts]
      rfl
    · rw [if_neg hcut, hparts, List.modifyHead_cons, List.map_cons]
      by_cases hx : keeps x = true
      · rw [List.filter_cons_of_pos hx, List.filter_cons_of_pos hx, List.map_cons,
          List.map_cons, List.splitOnP_cons_eq_if_modifyHead, hp, if_neg hcut, ih,
          List.modifyHead_cons]
      · rw [List.filter_cons_of_neg hx, List.filter_cons_of_neg hx, ih]

namespace Relayout

variable (ρ : Relayout)

def token (token : Token) : Token :=
  ⟨⟨token.kind, ρ.text token⟩, ρ.line token.line, ρ.start token.start,
    ρ.stop token.stop⟩

def tokens (tokens : List Token) : List Token :=
  (tokens.filter ρ.keeps).map ρ.token

def keepsPiece : Piece → Bool
  | .single token => ρ.keeps token
  | .group _ _ _ => true

def piece : Piece → Piece
  | .single token => .single (ρ.token token)
  | .group opening inner closing =>
    .group (ρ.token opening) (ρ.tokens inner) (closing.map ρ.token)

def pieces (pieces : List Piece) : List Piece :=
  (pieces.filter ρ.keepsPiece).map ρ.piece

/-- Whether a change of layout writes every token as it was. -/
class Verbatim : Prop where
  text_eq : ∀ token, ρ.text token = token.text

theorem toLexeme_token [h : ρ.Verbatim] (token : Token) :
    (ρ.token token).toLexeme = token.toLexeme := by
  rw [Relayout.token, h.text_eq]

@[simp] theorem kind_token (token : Token) : (ρ.token token).kind = token.kind := rfl

@[simp] theorem isTrivia_token (token : Token) :
    (ρ.token token).isTrivia = token.isTrivia := rfl

@[simp] theorem opens_token (token : Token) : (ρ.token token).opens = token.opens :=
  rfl

@[simp] theorem closes_token (token : Token) :
    (ρ.token token).closes = token.closes := rfl

@[simp] theorem isKeyword_token (token : Token) (keyword : Keyword) :
    (ρ.token token).isKeyword keyword = token.isKeyword keyword := rfl

/-! ## Tokens -/

@[simp] theorem tokens_nil : ρ.tokens [] = [] := rfl

theorem tokens_cons_of_keeps {token : Token} (tokens : List Token)
    (h : ρ.keeps token = true) :
    ρ.tokens (token :: tokens) = ρ.token token :: ρ.tokens tokens := by
  simp [Relayout.tokens, h]

theorem tokens_cons_of_not_keeps {token : Token} (tokens : List Token)
    (h : ρ.keeps token = false) : ρ.tokens (token :: tokens) = ρ.tokens tokens := by
  simp [Relayout.tokens, h]

theorem tokens_cons_of_significant {token : Token} (tokens : List Token)
    (h : token.isTrivia = false) :
    ρ.tokens (token :: tokens) = ρ.token token :: ρ.tokens tokens :=
  ρ.tokens_cons_of_keeps tokens (ρ.keeps_of_isTrivia token h)

@[simp] theorem tokens_append (first second : List Token) :
    ρ.tokens (first ++ second) = ρ.tokens first ++ ρ.tokens second := by
  simp [Relayout.tokens]

theorem isTrivia_of_not_keeps {token : Token} (h : ρ.keeps token = false) :
    token.isTrivia = true := by
  by_contra hsignificant
  rw [ρ.keeps_of_isTrivia token (by simpa using hsignificant)] at h
  exact Bool.noConfusion h

theorem keeps_of_opens {token : Token} (h : token.opens = true) :
    ρ.keeps token = true :=
  ρ.keeps_of_isTrivia token (Lexeme.isTrivia_of_opens h)

theorem keeps_of_closes {token : Token} (h : token.closes = true) :
    ρ.keeps token = true :=
  ρ.keeps_of_isTrivia token (Lexeme.isTrivia_of_closes h)

@[simp] theorem significant_tokens (tokens : List Token) :
    significant (ρ.tokens tokens) = (significant tokens).map ρ.token := by
  induction tokens with
  | nil => rfl
  | cons token tokens ih =>
    by_cases htrivia : token.isTrivia = true
    · rw [significant_cons_of_isTrivia tokens htrivia, ← ih]
      by_cases hkeeps : ρ.keeps token = true
      · rw [tokens_cons_of_keeps ρ tokens hkeeps]
        exact significant_cons_of_isTrivia _ htrivia
      · rw [tokens_cons_of_not_keeps ρ tokens (by simpa using hkeeps)]
    · rw [Bool.not_eq_true] at htrivia
      rw [tokens_cons_of_significant ρ tokens htrivia,
        significant_cons tokens htrivia, List.map_cons, ← ih]
      exact significant_cons _ htrivia

/-- A condition that no white space and no comment satisfies. -/
theorem any_tokens {p : Lexeme → Bool}
    (hkind : ∀ token, p (ρ.token token).toLexeme = p token.toLexeme)
    (hp : ∀ lexeme, p lexeme = true → lexeme.isTrivia = false) (tokens : List Token) :
    ((ρ.tokens tokens).any fun token => p token.toLexeme) =
      tokens.any fun token => p token.toLexeme := by
  induction tokens with
  | nil => rfl
  | cons token tokens ih =>
    by_cases hkeeps : ρ.keeps token = true
    · rw [tokens_cons_of_keeps ρ tokens hkeeps, List.any_cons, List.any_cons, ih,
        hkind]
    · have hnot : p token.toLexeme = false := by
        by_contra htoken
        exact hkeeps (ρ.keeps_of_isTrivia token (hp _ (by simpa using htoken)))
      rw [tokens_cons_of_not_keeps ρ tokens (by simpa using hkeeps), List.any_cons,
        hnot, ih, Bool.false_or]

theorem tokens_dropWhile (tokens : List Token) :
    ρ.tokens (tokens.dropWhile fun token => token.isTrivia || token.opens) =
      (ρ.tokens tokens).dropWhile fun token => token.isTrivia || token.opens := by
  induction tokens with
  | nil => rfl
  | cons token tokens ih =>
    rw [List.dropWhile_cons]
    split
    · next hskip =>
      by_cases hkeeps : ρ.keeps token = true
      · rw [ih, tokens_cons_of_keeps ρ tokens hkeeps, List.dropWhile_cons,
          isTrivia_token, opens_token, if_pos hskip]
      · rw [ih, tokens_cons_of_not_keeps ρ tokens (by simpa using hkeeps)]
    · next hskip =>
      have htrivia : token.isTrivia = false := by
        rw [Bool.not_eq_true, Bool.or_eq_false_iff] at hskip
        exact hskip.1
      rw [tokens_cons_of_significant ρ tokens htrivia, List.dropWhile_cons,
        isTrivia_token, opens_token, if_neg hskip]

@[simp] theorem leading?_tokens (tokens : List Token) :
    leading? (ρ.tokens tokens) = (leading? tokens).map ρ.token := by
  unfold leading?
  rw [← tokens_dropWhile]
  cases hdrop : tokens.dropWhile fun token => token.isTrivia || token.opens with
  | nil => rfl
  | cons token rest =>
    have hstops := List.head?_dropWhile_not
      (fun token : Token => token.isTrivia || token.opens) tokens
    rw [hdrop, List.head?_cons] at hstops
    rw [tokens_cons_of_significant ρ rest (Bool.or_eq_false_iff.1 hstops).1]
    rfl

@[simp] theorem opensQuery_tokens (tokens : List Token) :
    opensQuery (ρ.tokens tokens) = opensQuery tokens := by
  unfold opensQuery
  rw [leading?_tokens, Option.any_map]
  rfl

@[simp] theorem beginsQuery_tokens (tokens : List Token) :
    beginsQuery (ρ.tokens tokens) = beginsQuery tokens := by
  unfold beginsQuery
  rw [significant_tokens, List.head?_map, Option.any_map]
  rfl

/-! ## Groups -/

theorem tokens_splitAt_groupLength (depth : Nat) (tokens : List Token) :
    ρ.tokens (tokens.take (groupLength depth tokens)) =
        (ρ.tokens tokens).take (groupLength depth (ρ.tokens tokens)) ∧
      ρ.tokens (tokens.drop (groupLength depth tokens)) =
        (ρ.tokens tokens).drop (groupLength depth (ρ.tokens tokens)) := by
  induction tokens generalizing depth with
  | nil => exact ⟨rfl, rfl⟩
  | cons token tokens ih =>
    by_cases hkeeps : ρ.keeps token = true
    · rw [tokens_cons_of_keeps ρ tokens hkeeps, groupLength, groupLength, opens_token,
        closes_token]
      split
      · simpa [tokens_cons_of_keeps ρ _ hkeeps] using ih (depth + 1)
      · split
        · split
          · exact ⟨rfl, tokens_cons_of_keeps ρ tokens hkeeps⟩
          · simpa [tokens_cons_of_keeps ρ _ hkeeps] using ih (depth - 1)
        · simpa [tokens_cons_of_keeps ρ _ hkeeps] using ih depth
    · have hopens : ¬ token.opens = true := fun h => hkeeps (ρ.keeps_of_opens h)
      have hcloses : ¬ token.closes = true := fun h => hkeeps (ρ.keeps_of_closes h)
      rw [Bool.not_eq_true] at hkeeps
      rw [tokens_cons_of_not_keeps ρ tokens hkeeps, groupLength, if_neg hopens,
        if_neg hcloses, List.take_succ_cons, List.drop_succ_cons,
        tokens_cons_of_not_keeps ρ _ hkeeps]
      exact ih depth

theorem tokens_take_groupLength (depth : Nat) (tokens : List Token) :
    (ρ.tokens tokens).take (groupLength depth (ρ.tokens tokens)) =
      ρ.tokens (tokens.take (groupLength depth tokens)) :=
  (ρ.tokens_splitAt_groupLength depth tokens).1.symm

/-- The `)` of a group and what follows it. -/
theorem tokens_closing (depth : Nat) (tokens : List Token) :
    (ρ.tokens tokens)[groupLength depth (ρ.tokens tokens)]? =
        tokens[groupLength depth tokens]?.map ρ.token ∧
      (ρ.tokens tokens).drop (groupLength depth (ρ.tokens tokens) + 1) =
        ρ.tokens (tokens.drop (groupLength depth tokens + 1)) := by
  have hdrop := (ρ.tokens_splitAt_groupLength depth tokens).2
  rw [← List.head?_drop, ← List.head?_drop, ← List.tail_drop, ← List.tail_drop,
    ← hdrop]
  cases hrest : tokens.drop (groupLength depth tokens) with
  | nil => exact ⟨rfl, rfl⟩
  | cons closing rest =>
    have hcloses : closing.closes = true := by
      have hclosing : tokens[groupLength depth tokens]? = some closing := by
        rw [← List.head?_drop, hrest, List.head?_cons]
      exact closes_of_getElem?_groupLength hclosing
    rw [tokens_cons_of_keeps ρ rest (ρ.keeps_of_closes hcloses)]
    exact ⟨rfl, rfl⟩

theorem queriesWithin_tokens (tokens : List Token) :
    queriesWithin (ρ.tokens tokens) = (queriesWithin tokens).map ρ.tokens := by
  induction tokens using queriesWithin.induct with
  | case1 => simp [queriesWithin]
  | case2 token tokens hopens hquery length ih =>
    rw [tokens_cons_of_keeps ρ tokens (ρ.keeps_of_opens hopens)]
    simp only [queriesWithin, opens_token, hopens, hquery, opensQuery_tokens, if_true,
      List.map_cons]
    rw [tokens_take_groupLength, (ρ.tokens_closing 0 tokens).2, ih]
  | case3 token tokens hopens hquery ih =>
    rw [tokens_cons_of_keeps ρ tokens (ρ.keeps_of_opens hopens), queriesWithin,
      queriesWithin, opens_token, if_pos hopens, if_pos hopens, opensQuery_tokens,
      if_neg hquery, if_neg hquery, ← tokens_dropWhile, ih]
  | case4 token tokens hopens ih =>
    rw [queriesWithin, if_neg hopens, ← ih]
    by_cases hkeeps : ρ.keeps token = true
    · rw [tokens_cons_of_keeps ρ tokens hkeeps, queriesWithin, opens_token,
        if_neg hopens]
    · rw [tokens_cons_of_not_keeps ρ tokens (by simpa using hkeeps)]

/-! ## Pieces -/

@[simp] theorem pieces_nil : ρ.pieces [] = [] := rfl

theorem pieces_cons_of_keepsPiece {piece : Piece} (pieces : List Piece)
    (h : ρ.keepsPiece piece = true) :
    ρ.pieces (piece :: pieces) = ρ.piece piece :: ρ.pieces pieces := by
  simp [Relayout.pieces, h]

theorem pieces_cons_of_not_keepsPiece {piece : Piece} (pieces : List Piece)
    (h : ρ.keepsPiece piece = false) :
    ρ.pieces (piece :: pieces) = ρ.pieces pieces := by
  simp [Relayout.pieces, h]

theorem pieces_single_cons_of_keeps {token : Token} (pieces : List Piece)
    (h : ρ.keeps token = true) :
    ρ.pieces (.single token :: pieces) = .single (ρ.token token) :: ρ.pieces pieces :=
  ρ.pieces_cons_of_keepsPiece pieces h

theorem pieces_single_cons_of_not_keeps {token : Token} (pieces : List Piece)
    (h : ρ.keeps token = false) :
    ρ.pieces (.single token :: pieces) = ρ.pieces pieces :=
  ρ.pieces_cons_of_not_keepsPiece pieces h

theorem keepsPiece_of_isTrivia {piece : Piece} (h : piece.isTrivia = false) :
    ρ.keepsPiece piece = true := by
  cases piece with
  | single token => exact ρ.keeps_of_isTrivia token h
  | group opening inner closing => rfl

theorem isTrivia_of_not_keepsPiece {piece : Piece} (h : ρ.keepsPiece piece = false) :
    piece.isTrivia = true := by
  by_contra hsignificant
  rw [ρ.keepsPiece_of_isTrivia (by simpa using hsignificant)] at h
  exact Bool.noConfusion h

@[simp] theorem isTrivia_piece (piece : Piece) :
    (ρ.piece piece).isTrivia = piece.isTrivia := by
  cases piece <;> rfl

@[simp] theorem isGroup_piece (piece : Piece) :
    (ρ.piece piece).isGroup = piece.isGroup := by
  cases piece <;> rfl

@[simp] theorem keyword?_piece (piece : Piece) :
    (ρ.piece piece).keyword? = piece.keyword? := by
  cases piece <;> rfl

@[simp] theorem lastKind_piece (piece : Piece) :
    (ρ.piece piece).lastKind = piece.lastKind := by
  cases piece <;> rfl

@[simp] theorem isKind_piece (kind : TokenKind) (piece : Piece) :
    (ρ.piece piece).isKind kind = piece.isKind kind := by
  cases piece <;> rfl

/-- Tokens are cut into the same pieces in both layouts. -/
theorem ofTokens_tokens (tokens : List Token) :
    Piece.ofTokens (ρ.tokens tokens) = ρ.pieces (Piece.ofTokens tokens) := by
  induction tokens using Piece.ofTokens.induct with
  | case1 => simp [Piece.ofTokens]
  | case2 token tokens hopens length ih =>
    rw [tokens_cons_of_keeps ρ tokens (ρ.keeps_of_opens hopens)]
    simp only [Piece.ofTokens, opens_token, hopens, if_true]
    rw [tokens_take_groupLength, (ρ.tokens_closing 0 tokens).1,
      (ρ.tokens_closing 0 tokens).2, ih, pieces_cons_of_keepsPiece ρ _ rfl,
      Relayout.piece]
  | case3 token tokens hopens ih =>
    rw [Piece.ofTokens, if_neg hopens]
    by_cases hkeeps : ρ.keeps token = true
    · rw [tokens_cons_of_keeps ρ tokens hkeeps, Piece.ofTokens, opens_token,
        if_neg hopens, ih, pieces_single_cons_of_keeps ρ _ hkeeps]
    · rw [Bool.not_eq_true] at hkeeps
      rw [tokens_cons_of_not_keeps ρ tokens hkeeps, ih,
        pieces_single_cons_of_not_keeps ρ _ hkeeps]

@[simp] theorem significant_pieces (pieces : List Piece) :
    Piece.significant (ρ.pieces pieces) = (Piece.significant pieces).map ρ.piece := by
  unfold Piece.significant
  rw [Relayout.pieces, List.filter_map, List.filter_filter]
  congr 1
  apply List.filter_congr
  intro piece _
  cases htrivia : piece.isTrivia with
  | false => simp [htrivia, ρ.keepsPiece_of_isTrivia htrivia]
  | true => simp [htrivia]

theorem commaItems_pieces (pieces : List Piece) :
    Piece.commaItems (ρ.pieces pieces) =
      (Piece.commaItems pieces).map (List.map ρ.piece) := by
  have hsplit := splitOnP_map_filter (fun _ => true) (ρ.isKind_piece .comma)
    (fun _ _ => rfl) (Piece.significant pieces)
  have hall : ∀ part : List Piece, (part.filter fun _ => true) = part :=
    fun part => List.filter_eq_self.2 fun _ _ => rfl
  simpa only [Piece.commaItems, significant_pieces, hall] using hsplit

/-! ## The tokens of pieces -/

theorem tokens_piece {piece : Piece} (h : piece.IsProper)
    (hkeeps : ρ.keepsPiece piece = true) :
    (ρ.piece piece).tokens = ρ.tokens piece.tokens := by
  cases piece with
  | single token =>
    have htoken : ρ.keeps token = true := hkeeps
    rw [Piece.tokens, tokens_cons_of_keeps ρ [] htoken]
    rfl
  | group opening inner closing =>
    obtain ⟨hopens, hcloses⟩ := h
    rw [Piece.tokens, List.cons_append,
      tokens_cons_of_keeps ρ _ (ρ.keeps_of_opens hopens), tokens_append]
    cases closing with
    | none => simp [Relayout.piece, Piece.tokens]
    | some closing =>
      have hclosing := ρ.keeps_of_closes (hcloses closing rfl)
      simp [Relayout.piece, Piece.tokens, tokens_cons_of_keeps ρ [] hclosing]

/-- Written one after another, the pieces give the same tokens in both layouts. -/
theorem flatMap_tokens_pieces {pieces : List Piece}
    (h : ∀ piece ∈ pieces, piece.IsProper) :
    (ρ.pieces pieces).flatMap Piece.tokens =
      ρ.tokens (pieces.flatMap Piece.tokens) := by
  induction pieces with
  | nil => rfl
  | cons piece pieces ih =>
    have htail := ih fun other hother => h other (List.mem_cons_of_mem piece hother)
    rw [List.flatMap_cons, tokens_append, ← htail]
    by_cases hkeeps : ρ.keepsPiece piece = true
    · rw [pieces_cons_of_keepsPiece ρ pieces hkeeps, List.flatMap_cons,
        ρ.tokens_piece (h piece (List.mem_cons_self ..)) hkeeps]
    · rw [Bool.not_eq_true] at hkeeps
      rw [pieces_cons_of_not_keepsPiece ρ pieces hkeeps]
      cases piece with
      | single token =>
        have htoken : ρ.keeps token = false := hkeeps
        rw [Piece.tokens, tokens_cons_of_not_keeps ρ [] htoken, tokens_nil,
          List.nil_append]
      | group opening inner closing => exact absurd hkeeps (by simp [keepsPiece])

end Relayout

end SqlOutline
