import SqlOutline.Proofs.Indexed.Basic
import SqlOutline.Proofs.Statement.Subquery

/-!
# Searches by index

The searches that all readings are made of: for the next significant token, for the
end of a group, for the token behind a row of parentheses, and for the queries within
a group.
-/

namespace SqlOutline.Indexed

/-! ## The next significant token -/

/-- The index of the first significant token from an index on. -/
def nextSignificant (tokens : List Token) (start : Nat) : Checked (Option Nat) :=
  loop tokens.length
    (fun index (_ : Unit) => do
      let token ← element tokens index
      if token.isTrivia then .ok (.next (index + 1) ()) else .ok (.stop (some index)))
    (fun _ _ => none) start ()

/-- What the search may find from `start` on: nothing if white space and comments are
all there is, or the place of a significant token with these alone before it. -/
inductive NextIs (tokens : List Token) (start : Nat) : Option Nat → Prop
  | none (h : ∀ token ∈ tokens.drop start, token.isTrivia = true) :
      NextIs tokens start none
  | some {index : Nat} {token : Token} {blank : List Token} (hle : start ≤ index)
      (htoken : tokens[index]? = some token) (htrivia : token.isTrivia = false)
      (hsplit : tokens.drop start = blank ++ tokens.drop index)
      (hblank : ∀ token ∈ blank, token.isTrivia = true) :
      NextIs tokens start (some index)

theorem exists_nextSignificant_eq_ok (tokens : List Token) (start : Nat) :
    ∃ next, nextSignificant tokens start = .ok next ∧ NextIs tokens start next := by
  refine exists_loop_eq_ok
    (fun index _ => start ≤ index ∧
      ∃ blank, tokens.drop start = blank ++ tokens.drop index ∧
        ∀ token ∈ blank, token.isTrivia = true) ?_ ?_ start ()
    ⟨Nat.le_refl _, [], rfl, by simp⟩
  · rintro index state hlength ⟨-, blank, hsplit, hblank⟩
    rw [List.drop_eq_nil_of_le hlength, List.append_nil] at hsplit
    exact .none (hsplit ▸ hblank)
  · rintro index state hlt ⟨hle, blank, hsplit, hblank⟩
    have htoken := List.getElem?_eq_getElem hlt
    rw [element_eq_ok htoken, ok_bind]
    split
    · next htrivia =>
      refine ⟨_, rfl, Nat.lt_succ_self _, by omega, blank ++ [tokens[index]], ?_, ?_⟩
      · rw [hsplit, drop_eq_cons htoken, List.append_assoc, List.singleton_append]
      · simpa [htrivia, or_imp, forall_and] using hblank
    · next htrivia =>
      exact ⟨_, rfl, .some hle htoken (by simpa using htrivia) hsplit hblank⟩

private theorem significant_eq_nil {tokens : List Token}
    (h : ∀ token ∈ tokens, token.isTrivia = true) : significant tokens = [] :=
  List.filter_eq_nil_iff.2 (by simpa using h)

theorem head?_significant {tokens : List Token} {next : Option Nat}
    (h : NextIs tokens 0 next) :
    (significant tokens).head? = next.bind fun index => tokens[index]? := by
  rcases h with hblank | @⟨index, token, blank, -, htoken, htrivia, hsplit, hblank⟩
  · rw [List.drop_zero] at hblank
    rw [significant_eq_nil hblank]
    rfl
  · rw [List.drop_zero] at hsplit
    rw [Option.bind_some, htoken, hsplit, significant_append,
      significant_eq_nil hblank, List.nil_append, drop_eq_cons htoken,
      significant_cons _ htrivia, List.head?_cons]

/-! ## The end of a group -/

/-- The index of the `)` that matches the `(` at an index, or the number of tokens if
there is none. -/
def matchingClose (tokens : List Token) (opened : Nat) : Checked Nat := do
  let opening ← element tokens opened
  if opening.opens then
    loop tokens.length
      (fun index depth => do
        let token ← element tokens index
        if token.opens then .ok (.next (index + 1) (depth + 1))
        else if token.closes then do
          let depth ← minus depth 1
          if depth = 0 then .ok (.stop index) else .ok (.next (index + 1) depth)
        else .ok (.next (index + 1) depth))
      (fun _ _ => tokens.length) opened 0
  else
    .error .unopened

def closeOf (tokens : List Token) (opened : Nat) : Nat :=
  opened + 1 + groupLength 0 (tokens.drop (opened + 1))

theorem closeOf_le_length {tokens : List Token} {opened : Nat}
    (h : opened < tokens.length) : closeOf tokens opened ≤ tokens.length := by
  have hle := groupLength_le_length 0 (tokens.drop (opened + 1))
  rw [List.length_drop] at hle
  rw [closeOf]
  omega

theorem drop_closeOf_succ (tokens : List Token) (opened : Nat) :
    tokens.drop (closeOf tokens opened + 1) =
      (tokens.drop (opened + 1)).drop
        (groupLength 0 (tokens.drop (opened + 1)) + 1) := by
  rw [List.drop_drop, closeOf, Nat.add_assoc (opened + 1)]

/-- The depth is at least one wherever a `)` may be met, and the `)` that is looked
for is as far away as the depth says. -/
theorem matchingClose_eq_ok {tokens : List Token} {opened : Nat} {opening : Token}
    (h : tokens[opened]? = some opening) (hopens : opening.opens = true) :
    matchingClose tokens opened = .ok (closeOf tokens opened) := by
  rw [matchingClose, element_eq_ok h, ok_bind, if_pos hopens]
  have hopened := (List.getElem?_eq_some_iff.1 h).1
  refine loop_eq_ok (fun index depth => (index = opened ∧ depth = 0) ∨
    0 < depth ∧ index ≤ tokens.length ∧
      index + groupLength (depth - 1) (tokens.drop index) = closeOf tokens opened)
    ?_ ?_ (Or.inl ⟨rfl, rfl⟩)
  · rintro index depth hlength (⟨rfl, rfl⟩ | ⟨-, hle, hclose⟩)
    · omega
    · rw [List.drop_eq_nil_of_le hlength, groupLength] at hclose
      omega
  · rintro index depth hlt hinv
    have htoken := List.getElem?_eq_getElem hlt
    rw [element_eq_ok htoken, ok_bind]
    rcases hinv with ⟨rfl, rfl⟩ | ⟨hpos, -, hclose⟩
    · obtain rfl : tokens[index] = opening := Option.some.inj (htoken.symm.trans h)
      rw [if_pos hopens]
      exact ⟨_, rfl, Nat.lt_succ_self _, Or.inr ⟨Nat.one_pos, hlt, rfl⟩⟩
    · obtain ⟨depth, rfl⟩ := Nat.exists_eq_succ_of_ne_zero hpos.ne'
      rw [drop_eq_cons htoken, groupLength, Nat.succ_sub_one] at hclose
      split at hclose
      · next hopensToken =>
        rw [if_pos hopensToken]
        exact ⟨_, rfl, Nat.lt_succ_self _,
          Or.inr ⟨Nat.succ_pos _, hlt, by simpa using by omega⟩⟩
      · next hopensToken =>
        rw [if_neg hopensToken]
        split at hclose
        · next hcloses =>
          rw [if_pos hcloses, minus_eq_ok hpos, ok_bind, Nat.succ_sub_one]
          split at hclose
          · next hzero =>
            rw [if_pos hzero]
            exact ⟨_, rfl, hclose⟩
          · next hzero =>
            rw [if_neg hzero]
            exact ⟨_, rfl, Nat.lt_succ_self _,
              Or.inr ⟨Nat.pos_of_ne_zero hzero, hlt, by omega⟩⟩
        · next hcloses =>
          rw [if_neg hcloses]
          exact ⟨_, rfl, Nat.lt_succ_self _,
            Or.inr ⟨hpos, hlt, by simpa using by omega⟩⟩

/-- What stands in a group, cut out by the ends of the group. -/
theorem slice_closeOf {tokens : List Token} {opened : Nat}
    (h : opened < tokens.length) :
    slice tokens (opened + 1) (closeOf tokens opened) =
      .ok (groupContents (tokens.drop (opened + 1))) := by
  rw [slice_eq_ok (by rw [closeOf]; omega) (closeOf_le_length h), closeOf,
    Nat.add_sub_cancel_left, groupContents]

/-! ## The token behind a row of parentheses -/

def leadingQuery (tokens : List Token) (start : Nat) : Checked (Nat × Bool) :=
  loop tokens.length
    (fun index (_ : Unit) => do
      match ← nextSignificant tokens index with
      | none => .ok (.stop (tokens.length, false))
      | some next =>
        let token ← element tokens next
        if token.opens then .ok (.next (next + 1) ())
        else .ok (.stop (next, token.startsQuery)))
    (fun _ _ => (tokens.length, false)) start ()

def statementKind (tokens : List Token) : Checked StatementKind :=
  loop tokens.length
    (fun index (_ : Unit) => do
      match ← nextSignificant tokens index with
      | none => .ok (.stop .unknown)
      | some next =>
        let token ← element tokens next
        if token.opens then .ok (.next (next + 1) ())
        else match token.keyword? with
          | some keyword => .ok (.stop (.ofKeyword keyword))
          | none => .ok (.stop .unknown))
    (fun _ _ => .unknown) 0 ()

def lead (tokens : List Token) : List Token :=
  tokens.dropWhile fun token => token.isTrivia || token.opens

theorem lead_append {blank : List Token} (h : ∀ token ∈ blank, token.isTrivia = true)
    (tokens : List Token) : lead (blank ++ tokens) = lead tokens :=
  List.dropWhile_append_of_pos fun token htoken => by simp [h token htoken]

theorem lead_cons_of_opens {token : Token} (tokens : List Token)
    (h : token.opens = true) : lead (token :: tokens) = lead tokens :=
  List.dropWhile_cons_of_pos (by simp [h])

theorem lead_cons {token : Token} (tokens : List Token)
    (htrivia : token.isTrivia = false) (hopens : token.opens = false) :
    lead (token :: tokens) = token :: tokens :=
  List.dropWhile_cons_of_neg (by simp [htrivia, hopens])

private theorem lead_eq_nil {tokens : List Token}
    (h : ∀ token ∈ tokens, token.isTrivia = true) : lead tokens = [] := by
  rw [← List.append_nil tokens, lead_append h, lead, List.dropWhile_nil]

theorem lead_drop {tokens blank : List Token} {start index : Nat} {token : Token}
    (htoken : tokens[index]? = some token) (htrivia : token.isTrivia = false)
    (hsplit : tokens.drop start = blank ++ tokens.drop index)
    (hblank : ∀ token ∈ blank, token.isTrivia = true) :
    lead (tokens.drop start) =
      if token.opens then lead (tokens.drop (index + 1)) else tokens.drop index := by
  rw [hsplit, lead_append hblank, drop_eq_cons htoken]
  split
  · next hopens => exact lead_cons_of_opens _ hopens
  · next hopens => exact lead_cons _ htrivia (by simpa using hopens)

theorem exists_leadingQuery_eq_ok (tokens : List Token) (start : Nat) :
    ∃ first, leadingQuery tokens start = .ok (first, opensQuery (tokens.drop start)) ∧
      tokens.drop first = lead (tokens.drop start) ∧
      min start tokens.length ≤ first := by
  suffices hloop : ∃ found, leadingQuery tokens start = .ok found ∧
      found.2 = opensQuery (tokens.drop start) ∧
      tokens.drop found.1 = lead (tokens.drop start) ∧
      min start tokens.length ≤ found.1 by
    obtain ⟨⟨first, isQuery⟩, hfound, rfl, hrest⟩ := hloop
    exact ⟨first, hfound, hrest⟩
  have hnone (h : lead (tokens.drop start) = []) : false =
        opensQuery (tokens.drop start) ∧
      tokens.drop tokens.length = lead (tokens.drop start) ∧
      min start tokens.length ≤ tokens.length := by
    rw [opensQuery, leading?, ← lead, h]
    exact ⟨rfl, List.drop_length, Nat.min_le_right _ _⟩
  refine exists_loop_eq_ok
    (fun index _ =>
      start ≤ index ∧ lead (tokens.drop index) = lead (tokens.drop start)) ?_ ?_ start
    () ⟨Nat.le_refl _, rfl⟩
  · rintro index state hlength ⟨-, hlead⟩
    rw [List.drop_eq_nil_of_le hlength] at hlead
    exact hnone hlead.symm
  · rintro index state hlt ⟨hle, hlead⟩
    obtain ⟨_, hnext,
      hblank | @⟨next, token, blank, hindex, htoken, htrivia, hsplit, hblank⟩⟩ :=
      exists_nextSignificant_eq_ok tokens index
    · rw [hnext]
      exact ⟨_, rfl, hnone (hlead.symm.trans (lead_eq_nil hblank))⟩
    · have hnextLead := lead_drop htoken htrivia hsplit hblank
      simp only [hnext, element_eq_ok htoken, ok_bind]
      split
      · next hopens =>
        rw [if_pos hopens] at hnextLead
        exact ⟨_, rfl, by omega, by omega, hnextLead.symm.trans hlead⟩
      · next hopens =>
        rw [if_neg hopens] at hnextLead
        refine ⟨_, rfl, ?_, hnextLead.symm.trans hlead, by omega⟩
        rw [opensQuery, leading?, ← lead, ← hlead, hnextLead, drop_eq_cons htoken]
        rfl

theorem statementKind_eq_ok (tokens : List Token) :
    statementKind tokens = .ok (.ofTokens tokens) := by
  refine loop_eq_ok (fun index _ => lead (tokens.drop index) = lead tokens) ?_ ?_ rfl
  · rintro index state hlength hlead
    rw [List.drop_eq_nil_of_le hlength] at hlead
    rw [StatementKind.ofTokens, leading?, ← lead, ← hlead]
    rfl
  · rintro index state hlt hlead
    obtain ⟨_, hnext,
      hblank | @⟨next, token, blank, hindex, htoken, htrivia, hsplit, hblank⟩⟩ :=
      exists_nextSignificant_eq_ok tokens index
    · rw [hnext]
      refine ⟨_, rfl, ?_⟩
      rw [Turn.Keeps, StatementKind.ofTokens, leading?, ← lead, ← hlead,
        lead_eq_nil hblank]
      rfl
    · have hnextLead := lead_drop htoken htrivia hsplit hblank
      simp only [hnext, element_eq_ok htoken, ok_bind]
      split
      · next hopens =>
        rw [if_pos hopens] at hnextLead
        exact ⟨_, rfl, by omega, hnextLead.symm.trans hlead⟩
      · next hopens =>
        rw [if_neg hopens] at hnextLead
        have hleading : leading? tokens = some token := by
          rw [leading?, ← lead, ← hlead, hnextLead, drop_eq_cons htoken,
            List.head?_cons]
        split
        · next keyword hkeyword =>
          refine ⟨_, rfl, ?_⟩
          rw [Turn.Keeps, StatementKind.ofTokens, hleading, Option.bind_some,
            hkeyword]
        · next hkeyword =>
          refine ⟨_, rfl, ?_⟩
          rw [Turn.Keeps, StatementKind.ofTokens, hleading, Option.bind_some,
            hkeyword]

/-- A group begins with a query if the token behind its parentheses is the first of
its significant tokens and begins one. -/
theorem beginsQuery_eq {tokens : List Token} {first : Nat} {next : Option Nat}
    (hfirst : tokens.drop first = lead tokens) (hnext : NextIs tokens 0 next) :
    beginsQuery tokens = (opensQuery tokens && next == some first) := by
  rw [beginsQuery, head?_significant hnext]
  rcases hnext with hblank |
    @⟨next, token, blank, hle, htoken, htrivia, hsplit, hblank⟩
  · simp
  · have hlead := lead_drop htoken htrivia hsplit hblank
    have hlt := (List.getElem?_eq_some_iff.1 htoken).1
    rw [List.drop_zero] at hlead
    rw [Option.bind_some, htoken, Option.any_some]
    by_cases hopens : token.opens = true
    · have hstarts : token.startsQuery = false := by
        rw [← Bool.not_eq_true]
        intro hstarts
        rw [opens_eq_false_of_startsQuery hstarts] at hopens
        exact Bool.noConfusion hopens
      have hne : (some next == some first) = false := by
        rw [beq_eq_false_iff_ne, Ne, Option.some_inj]
        rintro rfl
        have hhead := List.head?_dropWhile_not
          (fun token : Token => token.isTrivia || token.opens) tokens
        rw [← lead, ← hfirst, drop_eq_cons htoken] at hhead
        simp [hopens] at hhead
      rw [hstarts, hne, Bool.and_false]
    · rw [if_neg hopens, ← hfirst] at hlead
      have hlength := congrArg List.length hlead
      rw [List.length_drop, List.length_drop] at hlength
      obtain rfl : first = next := by omega
      rw [opensQuery, leading?, ← lead, ← hfirst, drop_eq_cons htoken]
      simp

/-! ## Queries within a group -/

variable {σ : Type}

def subqueriesWithin (read : List Token → Checked σ) (inner : List Token) :
    Checked (List σ) :=
  loop inner.length
    (fun index found => do
      let token ← element inner index
      if token.opens then do
        let (first, isQuery) ← leadingQuery inner (index + 1)
        if isQuery then do
          let close ← matchingClose inner index
          let body ← slice inner (index + 1) close
          let statement ← read body
          .ok (.next (close + 1) (found ++ [statement]))
        else .ok (.next first found)
      else .ok (.next (index + 1) found))
    (fun _ found => found) 0 []

theorem subqueriesWithin_eq_ok {read : List Token → Checked σ} {inner : List Token}
    {f : List Token → σ}
    (hread : ∀ body, body.length < inner.length → read body = .ok (f body)) :
    subqueriesWithin read inner = .ok ((queriesWithin inner).map f) := by
  refine loop_eq_ok (fun index found =>
    found ++ (queriesWithin (inner.drop index)).map f = (queriesWithin inner).map f)
    ?_ ?_ rfl
  · rintro index found hlength hinv
    rwa [List.drop_eq_nil_of_le hlength, queriesWithin, List.map_nil,
      List.append_nil] at hinv
  · rintro index found hlt hinv
    have htoken := List.getElem?_eq_getElem hlt
    rw [drop_eq_cons htoken, queriesWithin] at hinv
    rw [element_eq_ok htoken, ok_bind]
    split at hinv
    · next hopens =>
      obtain ⟨first, hleading, hfirst, hle⟩ :=
        exists_leadingQuery_eq_ok inner (index + 1)
      rw [if_pos hopens, hleading, ok_bind]
      split at hinv
      · next hquery =>
        have hbody : (groupContents (inner.drop (index + 1))).length <
            inner.length := by
          rw [groupContents, List.length_take, List.length_drop]
          omega
        simp only [hquery, ↓reduceIte, matchingClose_eq_ok htoken hopens,
          slice_closeOf hlt, hread _ hbody, ok_bind]
        refine ⟨_, rfl, by rw [closeOf]; omega, ?_⟩
        simpa only [drop_closeOf_succ, groupContents, List.append_assoc,
          List.singleton_append, List.map_cons] using hinv
      · next hquery =>
        simp only [hquery, Bool.false_eq_true, ↓reduceIte]
        exact ⟨_, rfl, by omega, by simpa only [hfirst, lead] using hinv⟩
    · next hopens =>
      rw [if_neg hopens]
      exact ⟨_, rfl, Nat.lt_succ_self _, hinv⟩

end SqlOutline.Indexed
