import SqlOutline.Proofs.Piece.Stretch

/-!
# Cuts outside parentheses

Tokens are cut at a separator in one pass that keeps the depth. The cuts are those of
the pieces (`cutAt_eq_splitOnP`), and each part is made of its own pieces.
-/

namespace SqlOutline

/-- The tokens between those of a given kind at depth 0, where `outer` is the depth
before them. A `)` that closes nothing leaves the depth at 0. -/
def cutAt (kind : TokenKind) : Nat → List Token → List (List Token)
  | _, [] => [[]]
  | outer, token :: tokens =>
    if outer = 0 ∧ token.kind = kind then [] :: cutAt kind 0 tokens
    else (cutAt kind (depthStep outer token) tokens).modifyHead (token :: ·)

section CutAt

variable {kind : TokenKind}

private theorem cutAt_cons_of_kind {separator : Token} (tokens : List Token)
    (h : separator.kind = kind) :
    cutAt kind 0 (separator :: tokens) = [] :: cutAt kind 0 tokens := by
  rw [cutAt, if_pos ⟨rfl, h⟩]

private theorem cutAt_append (kind : TokenKind) {outer : Nat} {inner : List Token}
    (later : List Token)
    (h : ∀ length < inner.length, 0 < (inner.take length).foldl depthStep outer) :
    cutAt kind outer (inner ++ later) =
      (cutAt kind (inner.foldl depthStep outer) later).modifyHead (inner ++ ·) := by
  induction inner generalizing outer with
  | nil => exact (congrFun List.modifyHead_id _).symm
  | cons token inner ih =>
    have houter : outer ≠ 0 := Nat.ne_of_gt (h 0 (Nat.zero_lt_succ _))
    have hinner := ih fun length hlength => h (length + 1) (Nat.succ_lt_succ hlength)
    rw [List.cons_append, cutAt, if_neg fun hzero => houter hzero.1, hinner,
      List.modifyHead_modifyHead, List.foldl_cons]
    rfl

private theorem cutAt_cons_of_opens (hparen : kind ≠ .parenOpen) {opening : Token}
    (tokens : List Token) (hopens : opening.opens = true) :
    cutAt kind 0 (opening :: tokens) =
      (cutAt kind 0 (tokens.drop (groupLength 0 tokens + 1))).modifyHead
        ((Piece.group opening (groupContents tokens)
            tokens[groupLength 0 tokens]?).tokens ++ ·) := by
  have hkind : opening.kind ≠ kind := by
    rw [beq_iff_eq.1 hopens]
    exact hparen.symm
  have hgroup : (Piece.group opening (groupContents tokens)
        tokens[groupLength 0 tokens]?).tokens =
      opening :: tokens.take (groupLength 0 tokens + 1) := by
    rw [List.take_add_one]
    rfl
  have hstep : depthStep 0 opening = 1 := by
    rw [depthStep, if_pos hopens]
  have hinner : ∀ length < (tokens.take (groupLength 0 tokens + 1)).length, 0 <
      ((tokens.take (groupLength 0 tokens + 1)).take length).foldl depthStep 1 := by
    intro length hlength
    have hle : length ≤ groupLength 0 tokens :=
      Nat.le_of_lt_succ (Nat.lt_of_lt_of_le hlength (List.length_take_le _ _))
    rw [List.take_take, Nat.min_eq_left (Nat.le_succ_of_le hle)]
    exact lt_foldl_depthStep 0 hle
  -- either the group ends with its `)`, or nothing follows
  have hlater : cutAt kind
        ((tokens.take (groupLength 0 tokens + 1)).foldl depthStep 1)
        (tokens.drop (groupLength 0 tokens + 1)) =
      cutAt kind 0 (tokens.drop (groupLength 0 tokens + 1)) := by
    rcases Nat.lt_or_eq_of_le (groupLength_le_length 0 tokens) with hlt | heq
    · have hdepth := depth_group hopens hlt
      rw [← groupContents, hgroup, depth, List.foldl_cons, hstep] at hdepth
      rw [hdepth]
    · rw [List.drop_of_length_le (by omega)]
      rfl
  have happend := cutAt_append kind (tokens.drop (groupLength 0 tokens + 1)) hinner
  rw [List.take_append_drop, hlater] at happend
  rw [cutAt, if_neg fun h => hkind h.2, hstep, happend, List.modifyHead_modifyHead,
    hgroup]
  rfl

private theorem map_flatMap_modifyHead (piece : Piece) (parts : List (List Piece)) :
    ((parts.modifyHead (piece :: ·)).map fun pieces => pieces.flatMap Piece.tokens) =
      (parts.map fun pieces => pieces.flatMap Piece.tokens).modifyHead
        (piece.tokens ++ ·) := by
  cases parts with
  | nil => rfl
  | cons first parts =>
    rw [List.modifyHead_cons, List.map_cons, List.flatMap_cons]
    rfl

/-- Cutting the tokens in one pass is cutting the pieces. -/
theorem cutAt_eq_splitOnP (hparen : kind ≠ .parenOpen) (tokens : List Token) :
    cutAt kind 0 tokens = ((Piece.ofTokens tokens).splitOnP (Piece.isKind kind)).map
      fun pieces => pieces.flatMap Piece.tokens := by
  induction tokens using Piece.induction_ofTokens with
  | nil =>
    rw [Piece.ofTokens_nil]
    rfl
  | group token tokens hopens ih =>
    rw [Piece.ofTokens_cons_of_opens tokens hopens,
      List.splitOnP_cons_eq_if_modifyHead, if_neg (by simp [Piece.isKind]),
      cutAt_cons_of_opens hparen tokens hopens, ih, map_flatMap_modifyHead]
  | single token tokens hopens ih =>
    rw [Piece.ofTokens_cons_of_not_opens tokens hopens,
      List.splitOnP_cons_eq_if_modifyHead]
    by_cases hkind : token.kind = kind
    · have hseparator : (Piece.single token).isKind kind = true := beq_iff_eq.2 hkind
      rw [cutAt_cons_of_kind tokens hkind, ih, if_pos hseparator]
      rfl
    · have hseparator : ¬ (Piece.single token).isKind kind = true := by
        rwa [Piece.isKind, beq_iff_eq]
      rw [cutAt, if_neg fun h => hkind h.2, depthStep_zero_of_not_opens hopens, ih,
        if_neg hseparator, map_flatMap_modifyHead]
      rfl

end CutAt

end SqlOutline
