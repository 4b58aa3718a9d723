import SqlOutline.Proofs.Piece.Stretch
import SqlOutline.Proofs.Script.Parts

/-!
# The separation of statements

A semicolon separates what is before it from what is after it, provided that no
parenthesis is open there (`parts_append_cons`). A part of a script is one part when
it is looked at alone (`parts_of_mem_parts`).
-/

namespace SqlOutline

theorem depth_append {first : List Token} (second : List Token)
    (h : depth first = 0) : depth (first ++ second) = depth second := by
  rw [depth, List.foldl_append, ← depth, h]
  rfl

private theorem groupLength_lt_of_depth {opening : Token} {tokens : List Token}
    (hopens : opening.opens = true) (h : depth (opening :: tokens) = 0) :
    groupLength 0 tokens < tokens.length := by
  apply Nat.lt_of_le_of_ne (groupLength_le_length 0 tokens)
  intro hlength
  have hdeeper := lt_foldl_depthStep 0 (Nat.le_of_eq hlength.symm)
  rw [List.take_length] at hdeeper
  rw [depth, List.foldl_cons, depthStep, if_pos hopens] at h
  exact absurd h (Nat.ne_of_gt hdeeper)

/-- What follows a closed group is as deep as the whole. -/
theorem depth_drop_groupLength {opening : Token} {tokens : List Token}
    (hopens : opening.opens = true) (h : groupLength 0 tokens < tokens.length) :
    depth (tokens.drop (groupLength 0 tokens + 1)) = depth (opening :: tokens) := by
  have hpieces := Piece.flatMap_tokens_ofTokens (opening :: tokens)
  rw [Piece.ofTokens_cons_of_opens tokens hopens, List.flatMap_cons,
    Piece.flatMap_tokens_ofTokens] at hpieces
  rw [← hpieces, groupContents, depth_append _ (depth_group hopens h)]

theorem groupLength_append {depth : Nat} {tokens : List Token} (later : List Token)
    (h : groupLength depth tokens < tokens.length) :
    groupLength depth (tokens ++ later) = groupLength depth tokens := by
  have hlength := groupLength_take depth tokens.length (tokens ++ later)
  rw [List.take_left] at hlength
  omega

theorem depth_cons_of_not_opens {token : Token} (tokens : List Token)
    (h : token.opens = false) : depth (token :: tokens) = depth tokens := by
  rw [depth, List.foldl_cons, depthStep_zero_of_not_opens h, ← depth]

theorem depth_of_not_opens {tokens : List Token}
    (h : ∀ token ∈ tokens, token.opens = false) : depth tokens = 0 := by
  induction tokens with
  | nil => rfl
  | cons token tokens ih =>
    rw [depth_cons_of_not_opens tokens (h token (List.mem_cons_self ..))]
    exact ih fun other hother => h other (List.mem_cons_of_mem token hother)

namespace Piece

/-- Tokens after which no parenthesis is open are cut apart from what follows. -/
theorem ofTokens_append {first : List Token} (second : List Token)
    (h : depth first = 0) :
    ofTokens (first ++ second) = ofTokens first ++ ofTokens second := by
  induction first using induction_ofTokens with
  | nil => rw [ofTokens_nil, List.nil_append, List.nil_append]
  | group token tokens hopens ih =>
    have hclosed := groupLength_lt_of_depth hopens h
    have hsame := groupLength_append second hclosed
    rw [← depth_drop_groupLength hopens hclosed] at h
    rw [List.cons_append, ofTokens_cons_of_opens _ hopens,
      ofTokens_cons_of_opens _ hopens, hsame, groupContents_append (Or.inl hclosed),
      List.getElem?_append_left hclosed,
      List.drop_append_of_le_length (Nat.succ_le_of_lt hclosed), ih h,
      List.cons_append]
  | single token tokens hopens ih =>
    rw [depth_cons_of_not_opens tokens hopens] at h
    rw [List.cons_append, ofTokens_cons_of_not_opens _ hopens,
      ofTokens_cons_of_not_opens _ hopens, ih h, List.cons_append]

end Piece

namespace Script

private theorem eq_false_of_mem_splitOnP {α : Type} {p : α → Bool} {l part : List α}
    (h : part ∈ l.splitOnP p) : ∀ x ∈ part, p x = false := by
  induction l generalizing part with
  | nil =>
    rw [List.splitOnP_nil, List.mem_singleton] at h
    simp [h]
  | cons x l ih =>
    rw [List.splitOnP_cons_eq_if_modifyHead] at h
    split at h
    · rcases List.mem_cons.1 h with rfl | h
      · simp
      · exact ih h
    · next hx =>
      obtain ⟨first, parts, hparts⟩ :=
        List.exists_cons_of_ne_nil (List.splitOnP_ne_nil p l)
      rw [hparts, List.modifyHead_cons] at h
      rw [hparts] at ih
      rcases List.mem_cons.1 h with rfl | h
      · intro y hy
        rcases List.mem_cons.1 hy with rfl | hy
        · simpa using hx
        · exact ih (List.mem_cons_self ..) y hy
      · exact ih (List.mem_cons_of_mem first h)

/-- A part is a stretch of the pieces of the whole, and no semicolon stands in it
outside parentheses. -/
theorem exists_stretch_of_mem_parts {tokens part : List Token}
    (h : part ∈ parts tokens) :
    ∃ earlier stretch later, Piece.ofTokens tokens = earlier ++ (stretch ++ later) ∧
      part = stretch.flatMap Piece.tokens ∧ Piece.ofTokens part = stretch ∧
      ∀ piece ∈ stretch, piece.isKind .semicolon = false := by
  obtain ⟨hmem, -⟩ := List.mem_filter.1 h
  obtain ⟨stretch, hstretch, rfl⟩ := List.mem_map.1 hmem
  obtain ⟨earlier, later, hsplit⟩ := isInfix_of_mem_splitOnP hstretch
  rw [List.append_assoc] at hsplit
  exact ⟨earlier, stretch, later, hsplit.symm, rfl,
    Piece.ofTokens_flatMap_of_stretch hsplit.symm, eq_false_of_mem_splitOnP hstretch⟩

/-- Tokens with no semicolon outside parentheses are one part, if one of them is
significant. -/
theorem parts_eq_singleton {tokens : List Token}
    (hpieces : ∀ piece ∈ Piece.ofTokens tokens, piece.isKind .semicolon = false)
    (hsignificant : tokens.any (!·.isTrivia) = true) : parts tokens = [tokens] := by
  rw [parts, List.splitOnP_eq_singleton hpieces, List.map_singleton,
    Piece.flatMap_tokens_ofTokens, List.filter_eq_self, List.forall_mem_singleton]
  exact hsignificant

theorem parts_of_mem_parts {tokens part : List Token} (h : part ∈ parts tokens) :
    parts part = [part] := by
  obtain ⟨-, stretch, -, -, -, hpieces, hsemicolon⟩ := exists_stretch_of_mem_parts h
  exact parts_eq_singleton (hpieces ▸ hsemicolon) (List.mem_filter.1 h).2

/-- Where all parentheses are closed in the whole, they are in every part. -/
theorem depth_of_mem_parts {tokens part : List Token} (h : part ∈ parts tokens)
    (hdepth : depth tokens = 0) : depth part = 0 := by
  obtain ⟨earlier, stretch, later, hpieces, rfl, -, -⟩ :=
    exists_stretch_of_mem_parts h
  cases later with
  | cons piece later => exact Piece.depth_flatMap_of_stretch hpieces
  | nil =>
    cases stretch with
    | nil => rfl
    | cons piece stretch =>
      rw [List.append_nil] at hpieces
      have hearlier := depth_of_ofTokens_eq hpieces
      rw [← Piece.flatMap_tokens_ofTokens tokens, hpieces, List.flatMap_append,
        depth_append _ hearlier] at hdepth
      exact hdepth

/-- A semicolon outside parentheses separates the parts before it from those after
it. -/
theorem parts_append_cons {first : List Token} {semicolon : Token}
    (second : List Token) (hdepth : depth first = 0)
    (hkind : semicolon.kind = .semicolon) :
    parts (first ++ semicolon :: second) = parts first ++ parts second := by
  have hopens : semicolon.opens = false := opens_eq_false_of_semicolon hkind
  have hsemicolon : (Piece.single semicolon).isKind .semicolon = true := by
    rw [Piece.isKind, hkind]
    rfl
  rw [parts, Piece.ofTokens_append _ hdepth,
    Piece.ofTokens_cons_of_not_opens _ hopens,
    List.splitOnP_append_cons _ _ hsemicolon, List.map_append, List.filter_append,
    parts, parts]

end Script

end SqlOutline
