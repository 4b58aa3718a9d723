import SqlOutline.Piece

/-!
# Depth of parentheses

The depth counts the parentheses that are open, and ignores a `)` that closes nothing.
Cutting tokens into pieces keeps to it: every piece but the first begins where no
parenthesis is open (`depth_of_ofTokens_eq`), and all of a group after its `(` lies
deeper than that.
-/

namespace SqlOutline

def depthStep (depth : Nat) (token : Token) : Nat :=
  if token.opens then depth + 1 else if token.closes then depth - 1 else depth

/-- Number of parentheses that are open after some tokens. -/
def depth (tokens : List Token) : Nat :=
  tokens.foldl depthStep 0

/-- Whether the token at an index belongs to a parenthesized group, from its `(` to
the matching `)`, or to the end if there is none. -/
def InGroup (tokens : List Token) (index : Nat) : Prop :=
  ∃ opened opening, tokens[opened]? = some opening ∧ opening.opens = true ∧
    opened ≤ index ∧ index ≤ opened + 1 + groupLength 0 (tokens.drop (opened + 1))

theorem opens_eq_false_of_closes {lexeme : Lexeme} (h : lexeme.closes = true) :
    lexeme.opens = false := by
  rw [Lexeme.closes, beq_iff_eq] at h
  rw [Lexeme.opens, h]
  rfl

theorem opens_eq_false_of_semicolon {lexeme : Lexeme} (h : lexeme.kind = .semicolon) :
    lexeme.opens = false := by
  rw [Lexeme.opens, h]
  rfl

/-- Where no parenthesis is open only a `(` changes the depth. -/
theorem depthStep_zero_of_not_opens {token : Token} (h : token.opens = false) :
    depthStep 0 token = 0 := by
  rw [depthStep, h]
  simp

/-! ## Inside a group -/

/-- Up to the `)` that ends it, a group lies deeper than its `(`. -/
theorem lt_foldl_depthStep (outer : Nat) {inner length : Nat} {tokens : List Token}
    (h : length ≤ groupLength inner tokens) :
    outer < (tokens.take length).foldl depthStep (outer + inner + 1) := by
  induction tokens generalizing inner length with
  | nil =>
    rw [List.take_nil, List.foldl_nil]
    omega
  | cons token tokens ih =>
    cases length with
    | zero =>
      rw [List.take_zero, List.foldl_nil]
      omega
    | succ length =>
      rw [groupLength] at h
      rw [List.take_succ_cons, List.foldl_cons, depthStep]
      split
      · next hopens =>
        rw [if_pos hopens] at h
        have hlength : length ≤ groupLength (inner + 1) tokens := by omega
        exact ih hlength
      · next hopens =>
        rw [if_neg hopens] at h
        split
        · next hcloses =>
          rw [if_pos hcloses] at h
          -- with nothing open inside, this `)` would end the group
          cases inner with
          | zero => simp at h
          | succ inner =>
            have hlength : length ≤ groupLength inner tokens := by simpa using h
            exact ih hlength
        · next hcloses =>
          rw [if_neg hcloses] at h
          exact ih (by omega)

/-- Just before the `)` that ends a group, all that was opened in the group is
closed. -/
theorem foldl_depthStep_groupLength (outer : Nat) {inner : Nat} {tokens : List Token}
    (h : groupLength inner tokens < tokens.length) :
    (tokens.take (groupLength inner tokens)).foldl depthStep (outer + inner) =
      outer := by
  induction tokens generalizing inner with
  | nil => simp at h
  | cons token tokens ih =>
    rw [groupLength] at h ⊢
    split
    · next hopens =>
      rw [if_pos hopens, List.length_cons] at h
      rw [List.take_succ_cons, List.foldl_cons, depthStep, if_pos hopens]
      have hlength : groupLength (inner + 1) tokens < tokens.length := by omega
      exact ih hlength
    · next hopens =>
      rw [if_neg hopens] at h
      split
      · next hcloses =>
        rw [if_pos hcloses] at h
        cases inner with
        | zero => rfl
        | succ inner =>
          rw [if_neg (Nat.succ_ne_zero inner), List.length_cons] at h
          rw [if_neg (Nat.succ_ne_zero inner), List.take_succ_cons, List.foldl_cons,
            depthStep, if_neg hopens, if_pos hcloses]
          have hlength : groupLength inner tokens < tokens.length := by simpa using h
          exact ih hlength
      · next hcloses =>
        rw [if_neg hcloses, List.length_cons] at h
        rw [List.take_succ_cons, List.foldl_cons, depthStep, if_neg hopens,
          if_neg hcloses]
        exact ih (by omega)

/-- No token of a group stands where no parenthesis is open, apart from the `(`
itself. -/
theorem not_inGroup_of_depth_eq_zero {tokens : List Token} {index : Nat}
    {token : Token} (htoken : tokens[index]? = some token)
    (hopens : token.opens = false) (hdepth : depth (tokens.take index) = 0) :
    ¬ InGroup tokens index := by
  rintro ⟨opened, opening, hopening, hopeningOpens, hle, hindex⟩
  have hne : opened ≠ index := by
    rintro rfl
    rw [htoken, Option.some_inj] at hopening
    rw [← hopening, hopens] at hopeningOpens
    exact Bool.noConfusion hopeningOpens
  obtain ⟨length, rfl⟩ := Nat.exists_eq_add_of_lt (Nat.lt_of_le_of_ne hle hne)
  have hsplit : tokens.take (opened + length + 1) =
      tokens.take opened ++ opening :: (tokens.drop (opened + 1)).take length := by
    obtain ⟨hlt, rfl⟩ := List.getElem?_eq_some_iff.1 hopening
    rw [Nat.add_assoc, List.take_add, List.drop_eq_getElem_cons hlt,
      List.take_succ_cons]
  have hlength : length ≤ groupLength 0 (tokens.drop (opened + 1)) := by omega
  have hdeeper := lt_foldl_depthStep (depth (tokens.take opened)) hlength
  rw [depth, hsplit, List.foldl_append, List.foldl_cons, ← depth, depthStep,
    if_pos hopeningOpens] at hdepth
  rw [Nat.add_zero] at hdeeper
  omega

/-! ## Between pieces -/

/-- A group that ends with its `)` leaves no parenthesis open. -/
theorem depth_group {opening : Token} {tokens : List Token}
    (hopens : opening.opens = true) (h : groupLength 0 tokens < tokens.length) :
    depth (Piece.group opening (tokens.take (groupLength 0 tokens))
        tokens[groupLength 0 tokens]?).tokens = 0 := by
  have hinner := foldl_depthStep_groupLength 1 h
  have hclosing := List.getElem?_eq_getElem h
  have hcloses := closes_of_getElem?_groupLength hclosing
  rw [Piece.tokens, depth, hclosing, Option.toList_some, List.cons_append,
    List.foldl_cons, depthStep, if_pos hopens, List.foldl_append, hinner,
    List.foldl_cons, List.foldl_nil, depthStep,
    if_neg (by simp [opens_eq_false_of_closes hcloses]), if_pos hcloses]

/-- A piece that is not the last one leaves no parenthesis open. -/
theorem depth_of_ofTokens_eq {tokens : List Token} {before after : List Piece}
    {piece : Piece} (h : Piece.ofTokens tokens = before ++ piece :: after) :
    depth (before.flatMap Piece.tokens) = 0 := by
  induction tokens using Piece.ofTokens.induct generalizing before with
  | case1 => simp [Piece.ofTokens] at h
  | case2 token tokens hopens length =>
    rename_i ih
    rw [Piece.ofTokens, if_pos hopens] at h
    cases before with
    | nil => rfl
    | cons first before =>
      obtain ⟨rfl, hlater⟩ := List.cons.inj h
      have hlength : groupLength 0 tokens < tokens.length := by
        apply Nat.lt_of_not_le
        intro hle
        rw [List.drop_of_length_le (Nat.le_succ_of_le hle), Piece.ofTokens] at hlater
        simp at hlater
      rw [List.flatMap_cons, depth, List.foldl_append, ← depth,
        depth_group hopens hlength]
      exact ih hlater
  | case3 token tokens hopens ih =>
    rw [Piece.ofTokens, if_neg hopens] at h
    cases before with
    | nil => rfl
    | cons first before =>
      obtain ⟨rfl, hlater⟩ := List.cons.inj h
      rw [List.flatMap_cons, Piece.tokens, depth, List.foldl_append, List.foldl_cons,
        depthStep_zero_of_not_opens (by simpa using hopens)]
      exact ih hlater

end SqlOutline
