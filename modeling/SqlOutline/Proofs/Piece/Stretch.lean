import SqlOutline.Proofs.Piece.Group

/-!
# Stretches of pieces

Pieces that stand side by side among those of some tokens are the pieces of their own
tokens, and all that was opened in them is closed before another piece follows.
-/

namespace SqlOutline

namespace Piece

theorem ofTokens_nil : ofTokens [] = [] := by
  rw [ofTokens]

theorem ofTokens_cons_of_opens {token : Token} (tokens : List Token)
    (h : token.opens = true) :
    ofTokens (token :: tokens) =
      .group token (groupContents tokens) tokens[groupLength 0 tokens]? ::
        ofTokens (tokens.drop (groupLength 0 tokens + 1)) := by
  rw [ofTokens, if_pos h]
  rfl

theorem ofTokens_cons_of_not_opens {token : Token} (tokens : List Token)
    (h : token.opens = false) :
    ofTokens (token :: tokens) = .single token :: ofTokens tokens := by
  rw [ofTokens, if_neg (by simp [h])]

/-- Tokens none of which is a `(` are pieces of their own. -/
theorem ofTokens_of_not_opens {tokens : List Token}
    (h : ∀ token ∈ tokens, token.opens = false) :
    ofTokens tokens = tokens.map single := by
  induction tokens with
  | nil => exact ofTokens_nil
  | cons token tokens ih =>
    rw [ofTokens_cons_of_not_opens tokens (h token (List.mem_cons_self ..)),
      ih fun other hother => h other (List.mem_cons_of_mem token hother),
      List.map_cons]

theorem flatMap_tokens_map_single (tokens : List Token) :
    (tokens.map Piece.single).flatMap Piece.tokens = tokens := by
  rw [List.flatMap_map]
  exact List.flatMap_singleton' tokens

/-- Tokens are read piece by piece. -/
theorem induction_ofTokens {motive : List Token → Prop} (nil : motive [])
    (group : ∀ (token : Token) (tokens : List Token), token.opens = true →
      motive (tokens.drop (groupLength 0 tokens + 1)) → motive (token :: tokens))
    (single : ∀ (token : Token) (tokens : List Token), token.opens = false →
      motive tokens → motive (token :: tokens))
    (tokens : List Token) : motive tokens := by
  induction tokens using ofTokens.induct with
  | case1 => exact nil
  | case2 token tokens hopens length ih => exact group token tokens hopens ih
  | case3 token tokens hopens ih =>
    exact single token tokens (by simpa using hopens) ih

theorem ofTokens_flatMap_of_append {tokens : List Token} {earlier later : List Piece}
    (h : ofTokens tokens = earlier ++ later) :
    ofTokens (later.flatMap Piece.tokens) = later := by
  induction tokens using induction_ofTokens generalizing earlier with
  | nil =>
    rw [ofTokens_nil] at h
    rw [(List.nil_eq_append_iff.1 h).2, List.flatMap_nil, ofTokens_nil]
  | group token tokens hopens ih =>
    cases earlier with
    | nil => rw [← (show _ = later from h), flatMap_tokens_ofTokens]
    | cons first earlier =>
      rw [ofTokens_cons_of_opens tokens hopens] at h
      exact ih (List.cons.inj h).2
  | single token tokens hopens ih =>
    cases earlier with
    | nil => rw [← (show _ = later from h), flatMap_tokens_ofTokens]
    | cons first earlier =>
      rw [ofTokens_cons_of_not_opens tokens hopens] at h
      exact ih (List.cons.inj h).2

private theorem length_tokens_group {opening : Token} {tokens : List Token}
    (h : groupLength 0 tokens < tokens.length) :
    (group opening (groupContents tokens)
        tokens[groupLength 0 tokens]?).tokens.length =
      groupLength 0 tokens + 1 + 1 := by
  rw [Piece.tokens, List.getElem?_eq_getElem h, groupContents, List.cons_append,
    List.length_cons, List.length_append, List.length_take,
    Nat.min_eq_left (Nat.le_of_lt h)]
  rfl

theorem ofTokens_take_of_append {tokens : List Token} {earlier later : List Piece}
    (h : ofTokens tokens = earlier ++ later) :
    ofTokens (tokens.take (earlier.flatMap Piece.tokens).length) = earlier := by
  induction tokens using induction_ofTokens generalizing earlier with
  | nil =>
    rw [ofTokens_nil] at h
    rw [(List.nil_eq_append_iff.1 h).1, List.take_nil, ofTokens_nil]
  | group token tokens hopens ih =>
    cases earlier with
    | nil => rw [List.flatMap_nil, List.length_nil, List.take_zero, ofTokens_nil]
    | cons first earlier =>
      rw [ofTokens_cons_of_opens tokens hopens] at h
      obtain ⟨rfl, hrest⟩ := List.cons.inj h
      rcases Nat.lt_or_eq_of_le (groupLength_le_length 0 tokens) with hlt | heq
      · generalize hcount : (earlier.flatMap Piece.tokens).length = count at ih
        have hgroup : groupLength 0 (tokens.take (groupLength 0 tokens + 1 + count)) =
            groupLength 0 tokens := by
          rw [groupLength_take]
          omega
        rw [List.flatMap_cons, List.length_append, length_tokens_group hlt, hcount,
          Nat.add_right_comm, List.take_succ_cons, ofTokens_cons_of_opens _ hopens,
          groupContents, hgroup, List.take_take, Nat.min_eq_left (by omega),
          List.getElem?_take_of_lt (by omega), List.drop_take,
          Nat.add_sub_cancel_left, ← hcount, ih hrest]
        rfl
      -- a group that is not closed is the last piece
      · rw [List.drop_of_length_le (by omega), ofTokens_nil] at hrest
        obtain ⟨rfl, rfl⟩ := List.nil_eq_append_iff.1 hrest
        rw [List.take_of_length_le (by simp [Piece.tokens, groupContents, heq]),
          ofTokens_cons_of_opens tokens hopens, List.drop_of_length_le (by omega),
          ofTokens_nil]
  | single token tokens hopens ih =>
    cases earlier with
    | nil => rw [List.flatMap_nil, List.length_nil, List.take_zero, ofTokens_nil]
    | cons first earlier =>
      rw [ofTokens_cons_of_not_opens tokens hopens] at h
      obtain ⟨rfl, hrest⟩ := List.cons.inj h
      rw [List.flatMap_cons, Piece.tokens, List.singleton_append, List.length_cons,
        List.take_succ_cons, ofTokens_cons_of_not_opens _ hopens, ih hrest]

/-- A stretch of pieces is what its own tokens are cut into. -/
theorem ofTokens_flatMap_of_stretch {tokens : List Token}
    {earlier stretch later : List Piece}
    (h : ofTokens tokens = earlier ++ (stretch ++ later)) :
    ofTokens (stretch.flatMap Piece.tokens) = stretch := by
  have hlast := ofTokens_flatMap_of_append h
  have hfirst := ofTokens_take_of_append hlast
  rwa [List.flatMap_append, List.take_left] at hfirst

/-- A stretch that is not at the end leaves no parenthesis open. -/
theorem depth_flatMap_of_stretch {tokens : List Token}
    {earlier stretch later : List Piece} {piece : Piece}
    (h : ofTokens tokens = earlier ++ (stretch ++ piece :: later)) :
    depth (stretch.flatMap Piece.tokens) = 0 :=
  depth_of_ofTokens_eq (ofTokens_flatMap_of_append h)

end Piece

/-- Where no parenthesis is left open every group is closed. -/
theorem GroupAt.closed_lt_length {tokens : List Token} {opened closed : Nat}
    (h : GroupAt tokens opened closed) (hdepth : depth tokens = 0) :
    closed < tokens.length := by
  obtain ⟨opening, hopening, hopens⟩ := h.opens
  obtain ⟨hlt, rfl⟩ := List.getElem?_eq_some_iff.1 hopening
  apply Nat.lt_of_le_of_ne h.le_length
  intro hunclosed
  have hlength : groupLength 0 (tokens.drop (opened + 1)) =
      (tokens.drop (opened + 1)).length := by
    have hclosed := h.closed_eq
    rw [List.length_drop]
    omega
  have hdeeper :=
    lt_foldl_depthStep (depth (tokens.take opened)) (Nat.le_of_eq hlength.symm)
  rw [List.take_length, Nat.add_zero] at hdeeper
  have hsplit := List.take_append_drop opened tokens
  rw [List.drop_eq_getElem_cons hlt] at hsplit
  rw [← hsplit, depth, List.foldl_append, List.foldl_cons, ← depth, depthStep,
    if_pos hopens] at hdepth
  omega

end SqlOutline
