import SqlOutline.Proofs.Script.Separation

/-!
# Behind a `)` that closes nothing

Tokens that are put into parentheses stay together, unless a `)` among them closes
nothing: it ends the group then, and what follows it hangs over
(`exists_overhang_append`). With no such `)` they are one group
(`Piece.ofTokens_parentheses`).
-/

namespace SqlOutline

def overhang (tokens : List Token) : List Token :=
  tokens.drop (groupLength 0 tokens + 1)

private theorem depth_cons_of_closes {token : Token} (tokens : List Token)
    (h : token.closes = true) : depth (token :: tokens) = depth tokens :=
  depth_cons_of_not_opens tokens (opens_eq_false_of_closes h)

theorem exists_of_groupLength_lt {tokens : List Token}
    (h : groupLength 0 tokens < tokens.length) :
    ∃ before closing, tokens = before ++ closing :: overhang tokens ∧
      closing.closes = true ∧ depth before = 0 := by
  have hclosing := List.getElem?_eq_getElem h
  have hdepth : depth (tokens.take (groupLength 0 tokens)) = 0 :=
    foldl_depthStep_groupLength 0 h
  refine ⟨_, _, ?_, closes_of_getElem?_groupLength hclosing, hdepth⟩
  rw [overhang, ← List.drop_eq_getElem_cons h, List.take_append_drop]

theorem overhang_eq_nil {tokens : List Token}
    (h : tokens.length ≤ groupLength 0 tokens) : overhang tokens = [] :=
  List.drop_of_length_le (Nat.le_succ_of_le h)

theorem depth_overhang {tokens : List Token} (h : depth tokens = 0) :
    depth (overhang tokens) = 0 := by
  rcases Nat.lt_or_ge (groupLength 0 tokens) tokens.length with hlt | hge
  · obtain ⟨before, closing, hsplit, hcloses, hbefore⟩ := exists_of_groupLength_lt hlt
    rw [hsplit, depth_append _ hbefore, depth_cons_of_closes _ hcloses] at h
    exact h
  · rw [overhang_eq_nil hge]
    rfl

theorem mem_ofTokens_of_mem_overhang {tokens : List Token} {piece : Piece}
    (h : piece ∈ Piece.ofTokens (overhang tokens)) :
    piece ∈ Piece.ofTokens tokens := by
  rcases Nat.lt_or_ge (groupLength 0 tokens) tokens.length with hlt | hge
  · obtain ⟨before, closing, hsplit, hcloses, hbefore⟩ := exists_of_groupLength_lt hlt
    rw [hsplit, Piece.ofTokens_append _ hbefore,
      Piece.ofTokens_cons_of_not_opens _ (opens_eq_false_of_closes hcloses)]
    exact List.mem_append_right _ (List.mem_cons_of_mem _ h)
  · rw [overhang_eq_nil hge, Piece.ofTokens_nil] at h
    exact absurd h (List.not_mem_nil)

/-- A `)` behind tokens that close all they open, and no more, is the one that ends
the group. -/
theorem groupLength_append_cons {inner : Nat} {tokens : List Token} {closing : Token}
    (later : List Token) (hcloses : closing.closes = true)
    (h : tokens.length ≤ groupLength inner tokens)
    (hdepth : tokens.foldl depthStep inner = 0) :
    groupLength inner (tokens ++ closing :: later) = tokens.length := by
  induction tokens generalizing inner with
  | nil =>
    rw [List.foldl_nil] at hdepth
    rw [List.nil_append, groupLength, opens_eq_false_of_closes hcloses, hcloses,
      hdepth]
    rfl
  | cons token tokens ih =>
    rw [groupLength, List.length_cons] at h
    rw [List.foldl_cons, depthStep] at hdepth
    rw [List.cons_append, groupLength, List.length_cons]
    split
    · next hopens =>
      rw [if_pos hopens] at h hdepth
      rw [ih (Nat.le_of_succ_le_succ h) hdepth]
    · next hopens =>
      rw [if_neg hopens] at h hdepth
      split
      · next hclosesToken =>
        rw [if_pos hclosesToken] at h hdepth
        split
        · next hinner =>
          rw [if_pos hinner] at h
          exact absurd h (Nat.not_succ_le_zero _)
        · next hinner =>
          rw [if_neg hinner] at h
          rw [ih (Nat.le_of_succ_le_succ h) hdepth]
      · next hclosesToken =>
        rw [if_neg hclosesToken] at h hdepth
        rw [ih (Nat.le_of_succ_le_succ h) hdepth]

/-- What is left behind the group that some tokens are put into: what hangs over, with
the `)` that was to end the group if it did not, and what follows that. -/
theorem exists_overhang_append {tokens : List Token} {closing : Token}
    (later : List Token) (hcloses : closing.closes = true)
    (hdepth : depth tokens = 0) :
    groupLength 0 (tokens ++ closing :: later) < (tokens ++ closing :: later).length ∧
      ∃ rest, rest ⊆ closing :: later ∧ (rest = [] → later = []) ∧
        overhang (tokens ++ closing :: later) = overhang tokens ++ rest := by
  rw [List.length_append, List.length_cons]
  rcases Nat.lt_or_ge (groupLength 0 tokens) tokens.length with hlt | hge
  · have hsame := groupLength_append (closing :: later) hlt
    refine ⟨by omega, closing :: later, List.Subset.refl _, by simp, ?_⟩
    rw [overhang, hsame, List.drop_append_of_le_length (Nat.succ_le_of_lt hlt),
      overhang]
  · have hwhole := groupLength_append_cons later hcloses hge hdepth
    refine ⟨by omega, later, List.subset_cons_self closing later, id, ?_⟩
    rw [overhang, hwhole, overhang_eq_nil hge, List.nil_append,
      List.drop_length_add_append]
    rfl

/-! ## Matched parentheses -/

/-- Whether each `)` closes a parenthesis that is opened before it. -/
def IsMatched (tokens : List Token) : Prop :=
  ∀ piece ∈ Piece.ofTokens tokens, piece.isKind .parenClose = false

instance (tokens : List Token) : Decidable (IsMatched tokens) :=
  inferInstanceAs
    (Decidable (∀ piece ∈ Piece.ofTokens tokens, piece.isKind .parenClose = false))

theorem IsMatched.length_le_groupLength {tokens : List Token} (h : IsMatched tokens) :
    tokens.length ≤ groupLength 0 tokens := by
  by_contra hlt
  obtain ⟨before, closing, hsplit, hcloses, hdepth⟩ :=
    exists_of_groupLength_lt (Nat.lt_of_not_le hlt)
  rw [hsplit, IsMatched, Piece.ofTokens_append _ hdepth,
    Piece.ofTokens_cons_of_not_opens _ (opens_eq_false_of_closes hcloses)] at h
  have hclosing :=
    h (.single closing) (List.mem_append_right _ (List.mem_cons_self ..))
  rw [Lexeme.closes] at hcloses
  rw [Piece.isKind, hcloses] at hclosing
  exact Bool.noConfusion hclosing

theorem isMatched_append_iff {first : List Token} (second : List Token)
    (h : depth first = 0) :
    IsMatched (first ++ second) ↔ IsMatched first ∧ IsMatched second := by
  rw [IsMatched, Piece.ofTokens_append second h, List.forall_mem_append]
  rfl

/-- Tokens that close all they open, and no more, are one group in parentheses. -/
theorem Piece.ofTokens_parentheses {inner : List Token} {opening closing : Token}
    (hopens : opening.opens = true) (hcloses : closing.closes = true)
    (hdepth : depth inner = 0) (hmatched : IsMatched inner) :
    Piece.ofTokens (opening :: (inner ++ [closing])) =
      [.group opening inner (some closing)] := by
  have hlength :=
    groupLength_append_cons [] hcloses hmatched.length_le_groupLength hdepth
  rw [Piece.ofTokens_cons_of_opens _ hopens, groupContents, hlength]
  simp [Piece.ofTokens_nil]

end SqlOutline
