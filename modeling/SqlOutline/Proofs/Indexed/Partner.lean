import Mathlib.Order.Bounds.Basic
import SqlOutline.Proofs.Indexed.Search
import SqlOutline.Token.Lexer

/-!
# Partners of parentheses

The partner of a `(` is said by counting (`IsPartner`), without a word about groups.
The search for the end of a group finds it. Parentheses nest: what is opened between a
`(` and its partner is closed there. So a search among the contents of a group alone
finds the partners that a search among all tokens does (`matchingClose_eq_partner`).
-/

namespace SqlOutline

def balancedEnds (tokens : List Token) (opened : Nat) : Set Nat :=
  {closed | opened < closed ∧ closed < tokens.length ∧
    IsBalanced ((tokens.take (closed + 1)).drop opened)}

/-- The partner of the `(` at an index: the least index up to which the parentheses
are balanced, or the number of tokens if there is none. -/
def IsPartner (tokens : List Token) (opened partner : Nat) : Prop :=
  IsLeast (balancedEnds tokens opened) partner ∨
    balancedEnds tokens opened = ∅ ∧ partner = tokens.length

variable {tokens : List Token} {opened closed index : Nat} {opening token : Token}

theorem GroupAt.isPartner (h : GroupAt tokens opened closed) :
    IsPartner tokens opened closed := by
  have hbound : ∀ other ∈ balancedEnds tokens opened, closed ≤ other := by
    rintro other ⟨hlt, -, hbalanced⟩
    by_contra hbefore
    exact h.unbalanced other (Nat.le_of_lt hlt) (Nat.lt_of_not_le hbefore) hbalanced
  rcases Nat.lt_or_eq_of_le h.le_length with hlt | heq
  · exact Or.inl ⟨⟨h.lt, hlt, h.balanced hlt⟩, hbound⟩
  · refine Or.inr ⟨Set.eq_empty_of_forall_notMem fun other hother => ?_, heq⟩
    have hle := hbound other hother
    have hlength := hother.2.1
    omega

private theorem groupLength_lt_of_lt {inner outer : Nat} (h : inner < outer)
    (hclosed : groupLength inner tokens < tokens.length) :
    groupLength inner tokens < groupLength outer tokens := by
  refine Nat.lt_of_le_of_ne (groupLength_le_of_le (Nat.le_of_lt h) tokens)
    fun heq => ?_
  -- one end for both would close two different numbers of parentheses
  have hinner := countP_closes_groupLength hclosed
  have houter := countP_closes_groupLength (heq ▸ hclosed)
  rw [← heq] at houter
  omega

namespace Indexed

/-! ## Groups inside a group -/

section Inside

variable (h : opened < index) (hindex : index < closeOf tokens opened)
  (htoken : tokens[index]? = some token) (hopens : token.opens = true)

include h hindex htoken hopens

theorem exists_closeOf_eq :
    ∃ depth, closeOf tokens opened =
      index + 1 + groupLength (depth + 1) (tokens.drop (index + 1)) := by
  obtain ⟨length, rfl⟩ := Nat.exists_eq_add_of_lt h
  rw [closeOf] at hindex ⊢
  obtain ⟨depth, hdepth⟩ :=
    @exists_groupLength_drop 0 length (tokens.drop (opened + 1)) (by omega)
  rw [List.drop_drop, Nat.add_right_comm, drop_eq_cons htoken, groupLength,
    if_pos hopens] at hdepth
  exact ⟨depth, by omega⟩

private theorem closeOf_le_closeOf :
    closeOf tokens index ≤ closeOf tokens opened := by
  obtain ⟨depth, hclose⟩ := exists_closeOf_eq h hindex htoken hopens
  have hle := groupLength_le_of_le (Nat.zero_le (depth + 1)) (tokens.drop (index + 1))
  rw [hclose, closeOf]
  omega

private theorem closeOf_lt_closeOf (hclosed : closeOf tokens opened < tokens.length) :
    closeOf tokens index < closeOf tokens opened := by
  obtain ⟨depth, hclose⟩ := exists_closeOf_eq h hindex htoken hopens
  have hle := closeOf_le_closeOf h hindex htoken hopens
  have hinside : groupLength 0 (tokens.drop (index + 1)) <
      (tokens.drop (index + 1)).length := by
    rw [closeOf] at hle
    rw [List.length_drop]
    omega
  have hlt := groupLength_lt_of_lt (Nat.add_one_pos depth) hinside
  rw [hclose, closeOf]
  omega

end Inside

/-! ## The tokens between two indexes -/

private theorem length_between (h : opened < closed) (hle : closed ≤ tokens.length) :
    opened + 1 + (between tokens opened closed).length = closed := by
  rw [between, List.length_drop, List.length_take]
  omega

private theorem getElem?_between {place : Nat} (h : opened + 1 + place < closed) :
    (between tokens opened closed)[place]? = tokens[opened + 1 + place]? := by
  rw [between, List.getElem?_drop, List.getElem?_take_of_lt h]

theorem closeOf_between {place : Nat} (h : opened + 1 + place < closed) :
    opened + 1 + closeOf (between tokens opened closed) place =
      min closed (closeOf tokens (opened + 1 + place)) := by
  rw [between, closeOf, closeOf, List.drop_drop, List.drop_take, groupLength_take,
    ← Nat.add_assoc (opened + 1) place 1]
  omega

/-! ## The search -/

/-- How the searches for the partner of the `(` at an index inside a group end, at
`partner` among all tokens and at `inner` among those between the ends of the
group. -/
structure PartnersAgree (tokens contents : List Token)
    (opened closed index partner inner : Nat) : Prop where
  outer_eq : matchingClose tokens index = .ok partner
  inner_eq : matchingClose contents (index - (opened + 1)) = .ok inner
  isPartner : IsPartner tokens index partner
  /-- If the group is closed, the partner lies between its parentheses. -/
  isBetween : closed < tokens.length → index < partner ∧ partner < closed
  place_eq : partner = opened + 1 + inner
  /-- Both searches end at one token, or both behind the last one. -/
  same : (∃ closing, tokens[partner]? = some closing ∧
      contents[inner]? = some closing) ∨
    partner = tokens.length ∧ inner = contents.length

theorem partnersAgree_closeOf (hopened : opened < tokens.length) (h : opened < index)
    (hindex : index < closeOf tokens opened) (htoken : tokens[index]? = some token)
    (hopens : token.opens = true) :
    PartnersAgree tokens (between tokens opened (closeOf tokens opened)) opened
      (closeOf tokens opened) index (closeOf tokens index)
      (closeOf (between tokens opened (closeOf tokens opened))
        (index - (opened + 1))) := by
  have hgroup : GroupAt tokens index (closeOf tokens index) :=
    groupAt_groupLength htoken hopens
  have hlength := closeOf_le_length hopened
  have hle := closeOf_le_closeOf h hindex htoken hopens
  have hlt := closeOf_lt_closeOf h hindex htoken hopens
  obtain ⟨place, rfl⟩ := Nat.exists_eq_add_of_le (show opened + 1 ≤ index from h)
  have hplace := @closeOf_between tokens _ _ _ hindex
  rw [Nat.min_eq_right hle] at hplace
  have hinner := (getElem?_between hindex).trans htoken
  rw [Nat.add_sub_cancel_left]
  refine ⟨matchingClose_eq_ok htoken hopens, ?_, hgroup.isPartner,
    fun hclosed => ⟨hgroup.lt, hlt hclosed⟩, hplace.symm, ?_⟩
  · rw [Nat.add_sub_cancel_left]
    exact matchingClose_eq_ok hinner hopens
  rcases Nat.lt_or_eq_of_le hle with hbefore | heq
  · have hclosing := List.getElem?_eq_getElem (Nat.lt_of_lt_of_le hbefore hlength)
    have hsame := @getElem?_between tokens _ _ _ (hplace ▸ hbefore)
    rw [hplace, hclosing] at hsame
    exact Or.inl ⟨_, hclosing, hsame⟩
  -- two groups end together only if neither is closed
  · have hunclosed : closeOf tokens opened = tokens.length :=
      Nat.le_antisymm hlength
        (Nat.le_of_not_lt fun hclosed => Nat.ne_of_lt (hlt hclosed) heq)
    have hcontents := length_between (Nat.lt_trans h hindex) hlength
    exact Or.inr ⟨heq.trans hunclosed, by omega⟩

/-- The search for the end of a group finds the partner of its `(`. If that is a `)`,
what is opened between them has its partner there; and whether it is or not, a search
among the contents of the group finds the same partners as one among all tokens. -/
theorem matchingClose_eq_partner (hopening : tokens[opened]? = some opening)
    (hopens : opening.opens = true) :
    ∃ closed contents, matchingClose tokens opened = .ok closed ∧
      closed = closeOf tokens opened ∧ IsPartner tokens opened closed ∧
      slice tokens (opened + 1) closed = .ok contents ∧
      ∀ index token, opened < index → index < closed → tokens[index]? = some token →
        token.opens = true →
        ∃ partner inner,
          PartnersAgree tokens contents opened closed index partner inner := by
  have hopened := (List.getElem?_eq_some_iff.1 hopening).1
  have hgroup : GroupAt tokens opened (closeOf tokens opened) :=
    groupAt_groupLength hopening hopens
  refine ⟨_, between tokens opened (closeOf tokens opened),
    matchingClose_eq_ok hopening hopens, rfl, hgroup.isPartner,
    if_pos ⟨hgroup.lt, hgroup.le_length⟩, ?_⟩
  intro index token h hindex htoken hopens
  exact ⟨_, _, partnersAgree_closeOf hopened h hindex htoken hopens⟩

def halfClosedText : String := "(a (b)) (c (d"

theorem matchingClose_eq_partner_halfClosedText :
    (∃ contents partner inner,
        matchingClose (Token.tokenize halfClosedText) 0 = .ok 6 ∧
        IsPartner (Token.tokenize halfClosedText) 0 6 ∧
        slice (Token.tokenize halfClosedText) 1 6 = .ok contents ∧
        PartnersAgree (Token.tokenize halfClosedText) contents 0 6 3 partner inner) ∧
      ∃ contents partner inner,
        matchingClose (Token.tokenize halfClosedText) 8 = .ok 13 ∧
        IsPartner (Token.tokenize halfClosedText) 8 13 ∧
        slice (Token.tokenize halfClosedText) 9 13 = .ok contents ∧
        PartnersAgree (Token.tokenize halfClosedText) contents 8 13 11 partner
          inner := by
  have hfirst : closeOf (Token.tokenize halfClosedText) 0 = 6 := by decide +kernel
  have hsecond : closeOf (Token.tokenize halfClosedText) 8 = 13 := by decide +kernel
  have houter : (Token.tokenize halfClosedText)[0]? =
      some ⟨⟨.parenOpen, "("⟩, 0, 0, 1⟩ := by
    decide +kernel
  have hinner : (Token.tokenize halfClosedText)[3]? =
      some ⟨⟨.parenOpen, "("⟩, 0, 3, 4⟩ := by
    decide +kernel
  have houterOpen : (Token.tokenize halfClosedText)[8]? =
      some ⟨⟨.parenOpen, "("⟩, 0, 8, 9⟩ := by
    decide +kernel
  have hinnerOpen :
      (Token.tokenize halfClosedText)[11]? = some ⟨⟨.parenOpen, "("⟩, 0, 11, 12⟩ := by
    decide +kernel
  constructor
  · obtain ⟨closed, contents, hclose, hclosed, hpartner, hslice, hwithin⟩ :=
      matchingClose_eq_partner houter rfl
    obtain rfl : closed = 6 := hclosed.trans hfirst
    obtain ⟨partner, inner, hagree⟩ := hwithin 3 _ (by decide) (by decide) hinner rfl
    exact ⟨contents, partner, inner, hclose, hpartner, hslice, hagree⟩
  · obtain ⟨closed, contents, hclose, hclosed, hpartner, hslice, hwithin⟩ :=
      matchingClose_eq_partner houterOpen rfl
    obtain rfl : closed = 13 := hclosed.trans hsecond
    obtain ⟨partner, inner, hagree⟩ :=
      hwithin 11 _ (by decide) (by decide) hinnerOpen rfl
    exact ⟨contents, partner, inner, hclose, hpartner, hslice, hagree⟩

end Indexed

end SqlOutline
