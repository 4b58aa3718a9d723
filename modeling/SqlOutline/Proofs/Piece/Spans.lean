import SqlOutline.Proofs.Piece.Group

/-!
# Groups one after another

A list of token lists that are the contents of groups, each group after the end of the
one before. Read from the left, such a list is found one group at a time (`Groups`);
seen as a whole, it has a list of places (`GroupSpans`).
-/

namespace SqlOutline

/-! ## Places -/

structure GroupSpans (tokens : List Token) (spans : List (Nat × Nat)) : Prop where
  groupAt : ∀ span ∈ spans, GroupAt tokens span.1 span.2
  /-- Each group ends before the next one begins. -/
  ordered : spans.Pairwise fun span later => span.2 < later.1

def contentsOf (tokens : List Token) (spans : List (Nat × Nat)) : List (List Token) :=
  spans.map fun span => between tokens span.1 span.2

private theorem contentsOf_cons (tokens : List Token) (span : Nat × Nat)
    (spans : List (Nat × Nat)) :
    contentsOf tokens (span :: spans) =
      between tokens span.1 span.2 :: contentsOf tokens spans :=
  rfl

def shiftSpan (offset : Nat) (span : Nat × Nat) : Nat × Nat :=
  (offset + span.1, offset + span.2)

theorem GroupSpans.append {tokens : List Token} {spans : List (Nat × Nat)}
    (h : GroupSpans tokens spans) (before : List Token) {after : List Token}
    (hafter : (∀ span ∈ spans, span.2 < tokens.length) ∨ after = []) :
    GroupSpans (before ++ (tokens ++ after))
      (spans.map (shiftSpan before.length)) := by
  refine ⟨fun span hspan => ?_, ?_⟩
  · obtain ⟨inner, hinner, rfl⟩ := List.mem_map.1 hspan
    exact (h.groupAt inner hinner).append
      (hafter.imp_left fun hinside => hinside inner hinner)
  · rw [List.pairwise_map]
    exact h.ordered.imp fun hlt => Nat.add_lt_add_left hlt before.length

theorem contentsOf_append {tokens : List Token} {spans : List (Nat × Nat)}
    (h : GroupSpans tokens spans) (before after : List Token) :
    contentsOf (before ++ (tokens ++ after)) (spans.map (shiftSpan before.length)) =
      contentsOf tokens spans := by
  rw [contentsOf, List.map_map]
  apply List.map_congr_left
  intro span hspan
  exact between_append before after (h.groupAt span hspan)

/-! ## Reading from the left -/

/-- Lists of tokens that are the contents of groups, one group after another. -/
inductive Groups : List Token → List (List Token) → Prop
  | nil (tokens : List Token) : Groups tokens []
  | skip {tokens : List Token} {contents : List (List Token)} (token : Token)
      (h : Groups tokens contents) : Groups (token :: tokens) contents
  | group {opening : Token} {tokens : List Token} {contents : List (List Token)}
      (hopens : opening.opens = true)
      (h : Groups (tokens.drop (groupLength 0 tokens + 1)) contents) :
      Groups (opening :: tokens) (groupContents tokens :: contents)

namespace Groups

theorem eq_nil {contents : List (List Token)} (h : Groups [] contents) :
    contents = [] := by
  cases h
  rfl

theorem append_left {tokens : List Token} {contents : List (List Token)}
    (before : List Token) (h : Groups tokens contents) :
    Groups (before ++ tokens) contents := by
  induction before with
  | nil => exact h
  | cons token before ih => exact skip token ih

theorem of_isSuffix {tokens later : List Token} {contents : List (List Token)}
    (hsuffix : later <:+ tokens) (h : Groups later contents) :
    Groups tokens contents := by
  obtain ⟨before, rfl⟩ := hsuffix
  exact h.append_left before

theorem exists_of_take_groupLength_eq_cons {depth : Nat} {tokens rest : List Token}
    {token : Token} (h : tokens.take (groupLength depth tokens) = token :: rest) :
    ∃ depth' tokens', tokens = token :: tokens' ∧
      groupLength depth tokens = groupLength depth' tokens' + 1 ∧
      tokens'.take (groupLength depth' tokens') = rest := by
  cases tokens with
  | nil => simp at h
  | cons first tokens =>
    have hpos : 1 ≤ groupLength depth (first :: tokens) := by
      rw [Nat.one_le_iff_ne_zero]
      intro hzero
      simp [hzero] at h
    obtain ⟨depth', hdepth⟩ := exists_groupLength_drop hpos
    rw [List.drop_succ_cons, List.drop_zero, Nat.add_comm] at hdepth
    rw [hdepth, List.take_succ_cons] at h
    obtain ⟨rfl, hrest⟩ := List.cons.inj h
    exact ⟨depth', tokens, rfl, hdepth, hrest⟩

theorem append {depth : Nat} {tokens : List Token} {inner later : List (List Token)}
    (hinner : Groups (tokens.take (groupLength depth tokens)) inner)
    (hlater : Groups (tokens.drop (groupLength depth tokens + 1)) later) :
    Groups tokens (inner ++ later) := by
  generalize htake : tokens.take (groupLength depth tokens) = held at hinner
  induction hinner generalizing depth tokens with
  | nil => exact hlater.of_isSuffix (List.drop_suffix _ _)
  | skip token h ih =>
    obtain ⟨depth', tokens', rfl, hlength, hrest⟩ :=
      exists_of_take_groupLength_eq_cons htake
    rw [hlength, List.drop_succ_cons] at hlater
    exact skip token (ih hlater hrest)
  | @group opening held contents hopens h ih =>
    obtain ⟨depth', tokens', rfl, hlength, hrest⟩ :=
      exists_of_take_groupLength_eq_cons htake
    rw [hlength, List.drop_succ_cons] at hlater
    have hle := groupLength_le_of_le (Nat.zero_le depth') tokens'
    have hcontents : groupContents held = groupContents tokens' := by
      rw [← hrest]
      exact groupContents_drop_take (Nat.zero_le _)
    rw [← hrest, groupLength_take, Nat.min_eq_right hle] at h ih
    rw [hcontents, List.cons_append]
    apply group hopens
    rcases Nat.lt_or_eq_of_le hle with hlt | heq
    · obtain ⟨depth'', hdepth⟩ := exists_groupLength_drop (Nat.succ_le_of_lt hlt)
      rw [hdepth, Nat.add_assoc, ← List.drop_drop] at hlater
      apply ih hlater
      rw [List.drop_take, hdepth, Nat.add_sub_cancel_left]
    -- the inner group is not closed, and so nothing follows it
    · rw [heq, List.drop_take, Nat.sub_eq_zero_of_le (Nat.le_succ _),
        List.take_zero] at h
      rw [h.eq_nil, heq]
      exact hlater

theorem flatten_sublist {tokens : List Token} {contents : List (List Token)}
    (h : Groups tokens contents) : contents.flatten.Sublist tokens := by
  induction h with
  | nil tokens => exact List.nil_sublist tokens
  | skip token h ih => exact ih.cons token
  | @group opening tokens contents hopens h ih =>
    rw [List.flatten_cons, groupContents]
    have hrest := ih.trans
      (List.drop_sublist_drop_left tokens (Nat.le_succ (groupLength 0 tokens)))
    have hall := (List.Sublist.refl (tokens.take (groupLength 0 tokens))).append hrest
    rw [List.take_append_drop] at hall
    exact hall.cons opening

theorem exists_spans {tokens : List Token} {contents : List (List Token)}
    (h : Groups tokens contents) :
    ∃ spans, GroupSpans tokens spans ∧ contents = contentsOf tokens spans := by
  induction h with
  | nil tokens => exact ⟨[], ⟨by simp, List.Pairwise.nil⟩, rfl⟩
  | @skip tokens contents token h ih =>
    obtain ⟨spans, hspans, rfl⟩ := ih
    have happend := hspans.append [token] (Or.inr rfl)
    have hcontents := contentsOf_append hspans [token] []
    rw [List.append_nil] at happend hcontents
    exact ⟨_, happend, hcontents.symm⟩
  | @group opening tokens contents hopens h ih =>
    obtain ⟨spans, hspans, rfl⟩ := ih
    have hfirst : GroupAt (opening :: tokens) 0 (0 + 1 + groupLength 0 tokens) :=
      groupAt_groupLength rfl hopens
    have happend :=
      hspans.append (opening :: tokens.take (groupLength 0 tokens + 1)) (Or.inr rfl)
    have hcontents :=
      contentsOf_append hspans (opening :: tokens.take (groupLength 0 tokens + 1)) []
    rw [List.append_nil, List.cons_append, List.take_append_drop] at happend hcontents
    refine ⟨(0, 0 + 1 + groupLength 0 tokens) :: _,
      ⟨?_, List.pairwise_cons.2 ⟨?_, happend.ordered⟩⟩, ?_⟩
    · intro span hspan
      rcases List.mem_cons.1 hspan with rfl | hspan
      · exact hfirst
      · exact happend.groupAt span hspan
    · intro span hspan
      obtain ⟨inner, hinner, rfl⟩ := List.mem_map.1 hspan
      have hlt := (hspans.groupAt inner hinner).lt
      have hle := (hspans.groupAt inner hinner).le_length
      simp only [shiftSpan, List.length_cons, List.length_take,
        List.length_drop] at hle ⊢
      omega
    · rw [contentsOf_cons, hcontents, hfirst.between_eq]
      rfl

end Groups

end SqlOutline
