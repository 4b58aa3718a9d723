import Mathlib.Order.Basic
import SqlOutline.Proofs.Piece.Depth

/-!
# Matching parentheses

The `)` that matches a `(` is the first token up to which as many parentheses are
closed as are opened. `groupLength` finds it (`groupAt_groupLength`), and a group has
no other end (`GroupAt.closed_eq`). A `(` inside a group has the same partner whether
the group is looked at alone or in its place (`groupContents_drop_take`).
-/

namespace SqlOutline

def IsBalanced (tokens : List Token) : Prop :=
  tokens.countP (·.opens) = tokens.countP (·.closes)

/-- The group that begins with the `(` at one index ends with the matching `)` at
another one. If the `(` is never closed, the group ends with the last token, and the
second index is the number of tokens. -/
structure GroupAt (tokens : List Token) (opened closed : Nat) : Prop where
  opens : ∃ opening, tokens[opened]? = some opening ∧ opening.opens = true
  lt : opened < closed
  le_length : closed ≤ tokens.length
  unbalanced : ∀ index, opened ≤ index → index < closed →
    ¬ IsBalanced ((tokens.take (index + 1)).drop opened)
  balanced : closed < tokens.length →
    IsBalanced ((tokens.take (closed + 1)).drop opened)
  closes : ∀ closing, tokens[closed]? = some closing → closing.closes = true

def between (tokens : List Token) (opened closed : Nat) : List Token :=
  (tokens.take closed).drop (opened + 1)

theorem Lexeme.opens_closes_cases (lexeme : Lexeme) :
    (lexeme.opens = true ∧ lexeme.closes = false) ∨
      (lexeme.opens = false ∧ lexeme.closes = true) ∨
      (lexeme.opens = false ∧ lexeme.closes = false) := by
  cases hkind : lexeme.kind <;> simp [opens, closes, hkind]

theorem Lexeme.closes_eq_false_of_opens {lexeme : Lexeme} (h : lexeme.opens = true) :
    lexeme.closes = false := by
  rcases lexeme.opens_closes_cases with ⟨-, hcloses⟩ | ⟨hopens, -⟩ | ⟨-, hcloses⟩
  · exact hcloses
  · rw [h] at hopens
    exact Bool.noConfusion hopens
  · exact hcloses

/-! ## Counting parentheses -/

private theorem isBalanced_cons_iff {opening : Token} (h : opening.opens = true)
    (tokens : List Token) :
    IsBalanced (opening :: tokens) ↔
      tokens.countP (·.opens) + 1 = tokens.countP (·.closes) := by
  simp [IsBalanced, h, Lexeme.closes_eq_false_of_opens h]

private theorem countP_closes_le {depth length : Nat} {tokens : List Token}
    (h : length ≤ groupLength depth tokens) :
    (tokens.take length).countP (·.closes) ≤
      depth + (tokens.take length).countP (·.opens) := by
  induction tokens generalizing depth length with
  | nil => simp
  | cons token tokens ih =>
    cases length with
    | zero => simp
    | succ length =>
      rw [List.take_succ_cons, List.countP_cons, List.countP_cons]
      rcases token.opens_closes_cases with ⟨hopens, hcloses⟩ | ⟨hopens, hcloses⟩ |
        ⟨hopens, hcloses⟩
      · have hrest := @ih (depth + 1) length (by simpa [groupLength, hopens] using h)
        simp only [hopens, hcloses, Bool.false_eq_true, if_true, if_false]
        omega
      · cases depth with
        | zero => simp [groupLength, hopens, hcloses] at h
        | succ depth =>
          have hrest :=
            @ih depth length (by simpa [groupLength, hopens, hcloses] using h)
          simp only [hopens, hcloses, Bool.false_eq_true, if_true, if_false]
          omega
      · have hrest :=
          @ih depth length (by simpa [groupLength, hopens, hcloses] using h)
        simpa [hopens, hcloses] using hrest

/-- With the `)` that ends a group one more parenthesis is closed than was open. -/
theorem countP_closes_groupLength {depth : Nat} {tokens : List Token}
    (h : groupLength depth tokens < tokens.length) :
    (tokens.take (groupLength depth tokens + 1)).countP (·.closes) =
      depth + 1 + (tokens.take (groupLength depth tokens + 1)).countP (·.opens) := by
  induction tokens generalizing depth with
  | nil => simp at h
  | cons token tokens ih =>
    rw [List.take_succ_cons, List.countP_cons, List.countP_cons]
    rcases token.opens_closes_cases with ⟨hopens, hcloses⟩ | ⟨hopens, hcloses⟩ |
      ⟨hopens, hcloses⟩
    · have hrest := @ih (depth + 1) (by simpa [groupLength, hopens] using h)
      simp only [groupLength, hopens, hcloses, Bool.false_eq_true, if_true, if_false]
      omega
    · cases depth with
      | zero => simp [groupLength, hopens, hcloses]
      | succ depth =>
        have hrest := @ih depth (by simpa [groupLength, hopens, hcloses] using h)
        simp only [groupLength, hopens, hcloses, Bool.false_eq_true, if_true,
          if_false, Nat.succ_ne_zero, Nat.add_sub_cancel]
        omega
    · have hrest := @ih depth (by simpa [groupLength, hopens, hcloses] using h)
      simpa [groupLength, hopens, hcloses] using hrest

/-! ## The end of a group -/

private theorem drop_take_succ_of_getElem? {tokens : List Token} {opened length : Nat}
    {opening : Token} (h : tokens[opened]? = some opening) :
    (tokens.take (opened + 1 + length)).drop opened =
      opening :: (tokens.drop (opened + 1)).take length := by
  obtain ⟨hlt, rfl⟩ := List.getElem?_eq_some_iff.1 h
  rw [List.drop_take, List.drop_eq_getElem_cons hlt, Nat.add_assoc,
    Nat.add_sub_cancel_left, Nat.add_comm 1, List.take_succ_cons]

/-- The group that begins at an index ends where `groupLength` says. -/
theorem groupAt_groupLength {tokens : List Token} {opened : Nat} {opening : Token}
    (h : tokens[opened]? = some opening) (hopens : opening.opens = true) :
    GroupAt tokens opened
      (opened + 1 + groupLength 0 (tokens.drop (opened + 1))) := by
  have hlt := (List.getElem?_eq_some_iff.1 h).1
  have hle := groupLength_le_length 0 (tokens.drop (opened + 1))
  rw [List.length_drop] at hle
  refine ⟨⟨opening, h, hopens⟩, by omega, by omega,
    fun index hindex hbefore hbalanced => ?_, fun hclosed => ?_,
    fun closing hclosing => ?_⟩
  · obtain ⟨length, rfl⟩ := Nat.exists_eq_add_of_le hindex
    have hcount := @countP_closes_le 0 length (tokens.drop (opened + 1)) (by omega)
    rw [Nat.add_right_comm, drop_take_succ_of_getElem? h,
      isBalanced_cons_iff hopens] at hbalanced
    omega
  · have hcount := @countP_closes_groupLength 0 (tokens.drop (opened + 1))
      (by rw [List.length_drop]; omega)
    rw [Nat.add_assoc, drop_take_succ_of_getElem? h, isBalanced_cons_iff hopens,
      hcount]
    omega
  · rw [← List.getElem?_drop] at hclosing
    exact closes_of_getElem?_groupLength hclosing

theorem GroupAt.closed_unique {tokens : List Token} {opened closed closed' : Nat}
    (h : GroupAt tokens opened closed) (h' : GroupAt tokens opened closed') :
    closed = closed' := by
  -- the earlier of two ends would be balanced, which the later one forbids
  have hle : ∀ {first second : Nat}, GroupAt tokens opened first →
      GroupAt tokens opened second → second ≤ first := by
    intro first second hfirst hsecond
    by_contra hlt
    have hbefore : first < second := Nat.lt_of_not_le hlt
    exact hsecond.unbalanced first (Nat.le_of_lt hfirst.lt) hbefore
      (hfirst.balanced (Nat.lt_of_lt_of_le hbefore hsecond.le_length))
  exact Nat.le_antisymm (hle h' h) (hle h h')

theorem GroupAt.closed_eq {tokens : List Token} {opened closed : Nat}
    (h : GroupAt tokens opened closed) :
    closed = opened + 1 + groupLength 0 (tokens.drop (opened + 1)) := by
  obtain ⟨opening, hopening, hopens⟩ := h.opens
  exact h.closed_unique (groupAt_groupLength hopening hopens)

/-! ## Groups in their places -/

/-- In the first tokens a group ends where it does in all of them, or with the last
one. -/
theorem groupLength_take (depth length : Nat) (tokens : List Token) :
    groupLength depth (tokens.take length) =
      min length (groupLength depth tokens) := by
  induction tokens generalizing depth length with
  | nil => simp [groupLength]
  | cons token tokens ih =>
    cases length with
    | zero => simp [groupLength]
    | succ length =>
      rw [List.take_succ_cons]
      rcases token.opens_closes_cases with ⟨hopens, hcloses⟩ | ⟨hopens, hcloses⟩ |
        ⟨hopens, hcloses⟩
      · simp [groupLength, hopens, ih]
      · cases depth with
        | zero => simp [groupLength, hopens, hcloses]
        | succ depth => simp [groupLength, hopens, hcloses, ih]
      · simp [groupLength, hopens, hcloses, ih]

/-- The more groups are open, the later the surrounding one ends. -/
theorem groupLength_le_of_le {inner outer : Nat} (h : inner ≤ outer)
    (tokens : List Token) : groupLength inner tokens ≤ groupLength outer tokens := by
  induction tokens generalizing inner outer with
  | nil => exact Nat.le_refl _
  | cons token tokens ih =>
    rcases token.opens_closes_cases with ⟨hopens, hcloses⟩ | ⟨hopens, hcloses⟩ |
      ⟨hopens, hcloses⟩
    · simpa [groupLength, hopens] using ih (Nat.succ_le_succ h)
    · cases inner with
      | zero => simp [groupLength, hopens, hcloses]
      | succ inner =>
        obtain ⟨outer, rfl⟩ := Nat.exists_eq_succ_of_ne_zero
          (Nat.ne_of_gt (Nat.lt_of_lt_of_le (Nat.succ_pos inner) h))
        simpa [groupLength, hopens, hcloses] using ih (Nat.le_of_succ_le_succ h)
    · simpa [groupLength, hopens, hcloses] using ih h

/-- Seen from a place inside a group, the rest of it is a group with some others open
in it. -/
theorem exists_groupLength_drop {depth length : Nat} {tokens : List Token}
    (h : length ≤ groupLength depth tokens) :
    ∃ depth', groupLength depth tokens =
      length + groupLength depth' (tokens.drop length) := by
  induction tokens generalizing depth length with
  | nil =>
    have hlength : length = 0 := by simpa [groupLength] using h
    exact ⟨depth, by simp [groupLength, hlength]⟩
  | cons token tokens ih =>
    cases length with
    | zero => exact ⟨depth, by simp⟩
    | succ length =>
      rw [List.drop_succ_cons]
      rcases token.opens_closes_cases with ⟨hopens, hcloses⟩ | ⟨hopens, hcloses⟩ |
        ⟨hopens, hcloses⟩
      · obtain ⟨depth', hdepth⟩ :=
          @ih (depth + 1) length (by simpa [groupLength, hopens] using h)
        exact ⟨depth', by simp only [groupLength, hopens, if_true]; omega⟩
      · cases depth with
        | zero => simp [groupLength, hopens, hcloses] at h
        | succ depth =>
          obtain ⟨depth', hdepth⟩ :=
            @ih depth length (by simpa [groupLength, hopens, hcloses] using h)
          refine ⟨depth', ?_⟩
          simp only [groupLength, hopens, hcloses, Bool.false_eq_true, if_true,
            if_false, Nat.succ_ne_zero, Nat.add_sub_cancel]
          omega
      · obtain ⟨depth', hdepth⟩ :=
          @ih depth length (by simpa [groupLength, hopens, hcloses] using h)
        refine ⟨depth', ?_⟩
        simp only [groupLength, hopens, hcloses, Bool.false_eq_true, if_false]
        omega

/-- The tokens that a group holds, read from the tokens after its `(`. -/
def groupContents (tokens : List Token) : List Token :=
  tokens.take (groupLength 0 tokens)

theorem GroupAt.between_eq {tokens : List Token} {opened closed : Nat}
    (h : GroupAt tokens opened closed) :
    between tokens opened closed = groupContents (tokens.drop (opened + 1)) := by
  rw [between, h.closed_eq, List.drop_take, Nat.add_sub_cancel_left, groupContents]

/-- A `(` in a group opens the same group there as it does in its place. -/
theorem groupContents_drop_take {depth length : Nat} {tokens : List Token}
    (h : length ≤ groupLength depth tokens) :
    groupContents ((tokens.take (groupLength depth tokens)).drop length) =
      groupContents (tokens.drop length) := by
  obtain ⟨depth', hdepth⟩ := exists_groupLength_drop h
  have hle := groupLength_le_of_le (Nat.zero_le depth') (tokens.drop length)
  rw [List.drop_take, hdepth, Nat.add_sub_cancel_left, groupContents,
    groupLength_take, Nat.min_eq_right hle, List.take_take, Nat.min_eq_left hle,
    groupContents]

/-- Tokens after a group do not matter for it, provided that it is closed. -/
theorem groupContents_append {tokens after : List Token}
    (h : groupLength 0 tokens < tokens.length ∨ after = []) :
    groupContents (tokens ++ after) = groupContents tokens := by
  rcases h with hclosed | rfl
  · have hlength := groupLength_take 0 tokens.length (tokens ++ after)
    rw [List.take_left] at hlength
    have heq : groupLength 0 (tokens ++ after) = groupLength 0 tokens := by omega
    rw [groupContents, heq, List.take_append_of_le_length (Nat.le_of_lt hclosed),
      groupContents]
  · rw [List.append_nil]

/-! ## Groups among more tokens -/

theorem drop_take_append {α : Type} (before after : List α) {l : List α} (start : Nat)
    {stop : Nat} (h : stop ≤ l.length) :
    ((before ++ (l ++ after)).take (before.length + stop)).drop
        (before.length + start) =
      (l.take stop).drop start := by
  rw [List.take_length_add_append, List.take_append_of_le_length h,
    List.drop_length_add_append]

/-- A group is the same among more tokens, provided that it is closed or nothing
follows. -/
theorem GroupAt.append {before tokens after : List Token} {opened closed : Nat}
    (h : GroupAt tokens opened closed)
    (hafter : closed < tokens.length ∨ after = []) :
    GroupAt (before ++ (tokens ++ after)) (before.length + opened)
      (before.length + closed) := by
  have hle := h.le_length
  obtain ⟨opening, hopening, hopens⟩ := h.opens
  have hopened := (List.getElem?_eq_some_iff.1 hopening).1
  refine ⟨⟨opening, ?_, hopens⟩, Nat.add_lt_add_left h.lt _, ?_,
    fun index hindex hbefore => ?_, fun hclosed => ?_, fun closing hclosing => ?_⟩
  · rw [List.getElem?_append_right (Nat.le_add_right ..), Nat.add_sub_cancel_left,
      List.getElem?_append_left hopened, hopening]
  · rw [List.length_append, List.length_append]
    omega
  · obtain ⟨offset, rfl⟩ :=
      Nat.exists_eq_add_of_le (Nat.le_trans (Nat.le_add_right ..) hindex)
    rw [Nat.add_assoc, drop_take_append before after opened (by omega)]
    exact h.unbalanced offset (by omega) (by omega)
  · have hinside : closed < tokens.length := by
      rcases hafter with hinside | rfl
      · exact hinside
      · simpa using hclosed
    rw [Nat.add_assoc, drop_take_append before after opened hinside]
    exact h.balanced hinside
  · have hinside : closed < tokens.length := by
      rcases hafter with hinside | rfl
      · exact hinside
      · simpa using (List.getElem?_eq_some_iff.1 hclosing).1
    rw [List.getElem?_append_right (Nat.le_add_right ..), Nat.add_sub_cancel_left,
      List.getElem?_append_left hinside] at hclosing
    exact h.closes closing hclosing

theorem between_append (before after : List Token) {tokens : List Token}
    {opened closed : Nat} (h : GroupAt tokens opened closed) :
    between (before ++ (tokens ++ after)) (before.length + opened)
        (before.length + closed) =
      between tokens opened closed :=
  drop_take_append before after (opened + 1) h.le_length

end SqlOutline
