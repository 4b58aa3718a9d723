import Mathlib.Data.List.TakeWhile
import SqlOutline.Proofs.Token.Tiling
import SqlOutline.Token.Cover

/-!
# The token at an offset

Tokens lie side by side, so those that end before an offset come first, and binary
search over their ends finds the first one of the others. That is the only token that
can cover the offset (`at?_tokenize`).
-/

namespace SqlOutline.Token

theorem at?_append {before after : List Token} {offset : Nat}
    (hbefore : ∀ token ∈ before, token.stop ≤ offset)
    (hafter : ∀ token ∈ after, offset < token.stop) :
    at? (before ++ after) offset = after.head?.filter (·.contains offset) := by
  have hlength : before.length ≤ (before ++ after).toArray.size := by simp
  have hboundary : boundary
        (fun i => (before ++ after).toArray[i]?.any (·.stop ≤ offset)) 0
        (before ++ after).toArray.size = before.length := by
    apply boundary_eq (Nat.zero_le _) hlength
    intro i _ hi
    rw [List.getElem?_toArray]
    by_cases hlt : i < before.length
    · have hstop := hbefore before[i] (List.getElem_mem hlt)
      rw [List.getElem?_append_left hlt, List.getElem?_eq_getElem hlt]
      simp [hstop, hlt]
    · have hrest : i - before.length < after.length := by
        rw [List.size_toArray, List.length_append] at hi
        omega
      have hstop := hafter after[i - before.length] (List.getElem_mem hrest)
      rw [List.getElem?_append_right (Nat.le_of_not_lt hlt),
        List.getElem?_eq_getElem hrest]
      simp [Nat.not_le_of_lt hstop, hlt]
  rw [at?, hboundary, List.getElem?_toArray,
    List.getElem?_append_right (Nat.le_refl _), Nat.sub_self, List.head?_eq_getElem?]

section Text

variable (text : String) (offset : Nat)

theorem pairwise_tokenize :
    (tokenize text).Pairwise fun token later => token.stop ≤ later.start :=
  pairwise_place 0 0 (lexemes text.toList)

theorem exists_tokenize_eq_append :
    ∃ before after, tokenize text = before ++ after ∧
      (∀ token ∈ before, token.stop ≤ offset) ∧
      ∀ token ∈ after, offset < token.stop := by
  refine ⟨(tokenize text).takeWhile (·.stop ≤ offset),
    (tokenize text).dropWhile (·.stop ≤ offset),
    (List.takeWhile_append_dropWhile ..).symm, ?_, ?_⟩
  · intro token htoken
    simpa using List.mem_takeWhile_imp htoken
  · intro token htoken
    have hordered :=
      (pairwise_tokenize text).sublist (List.dropWhile_sublist (·.stop ≤ offset))
    have hmem := (List.dropWhile_sublist _).subset htoken
    cases hrest : (tokenize text).dropWhile (·.stop ≤ offset) with
    | nil => simp [hrest] at htoken
    | cons first later =>
      have hfirst : offset < first.stop := by
        have hhead := List.head?_dropWhile_not
          (fun token : Token => decide (token.stop ≤ offset)) (tokenize text)
        simpa [hrest] using hhead
      rw [hrest] at htoken hordered
      rcases List.mem_cons.1 htoken with rfl | hlater
      · exact hfirst
      · have hstart := (List.pairwise_cons.1 hordered).1 token hlater
        have hlt := start_lt_stop_of_mem_tokenize hmem
        omega

theorem at?_tokenize_eq_some_iff (token : Token) :
    at? (tokenize text) offset = some token ↔
      token ∈ tokenize text ∧ token.start ≤ offset ∧ offset < token.stop := by
  obtain ⟨before, after, htokens, hbefore, hafter⟩ :=
    exists_tokenize_eq_append text offset
  have hsearch : at? (tokenize text) offset =
      after.head?.filter (·.contains offset) := by
    rw [htokens, at?_append hbefore hafter]
  rw [hsearch, Option.filter_eq_some_iff, contains_eq_true_iff]
  constructor
  · rintro ⟨hhead, hcovers⟩
    refine ⟨?_, hcovers⟩
    rw [htokens]
    exact List.mem_append_right before (List.mem_of_mem_head? hhead)
  · rintro ⟨hmem, hcovers⟩
    refine ⟨?_, hcovers⟩
    rw [htokens, List.mem_append] at hmem
    have hlater : token ∈ after := hmem.resolve_left fun h =>
      absurd (hbefore token h) (Nat.not_le_of_lt hcovers.2)
    -- a token before it among the others would end behind the offset, and yet before
    -- it starts
    cases after with
    | nil => simp at hlater
    | cons first after =>
      have hordered := pairwise_tokenize text
      rw [htokens] at hordered
      rcases List.mem_cons.1 hlater with rfl | hlater
      · rfl
      · have hstart :=
          (List.pairwise_cons.1 (List.pairwise_append.1 hordered).2.1).1 token hlater
        have hfirst := hafter first (List.mem_cons_self ..)
        omega

private theorem exists_covers_iff :
    (∃ token ∈ tokenize text, token.start ≤ offset ∧ offset < token.stop) ↔
      offset < text.length := by
  constructor
  · rintro ⟨token, htoken, -, hlt⟩
    obtain ⟨before, after, hsplit⟩ := List.append_of_mem htoken
    obtain ⟨-, hstart, hstop⟩ := place_of_tokenize_eq hsplit
    rw [text_eq_of_tokenize_eq hsplit, String.length_append, String.length_append]
    omega
  · intro hlt
    obtain ⟨before, after, htokens, hbefore, hafter⟩ :=
      exists_tokenize_eq_append text offset
    have hlength : (textOf before).length ≤ offset := by
      rcases List.eq_nil_or_concat' before with rfl | ⟨earlier, last, rfl⟩
      · exact Nat.zero_le _
      · have hsplit : tokenize text = earlier ++ last :: after := by
          simpa using htokens
        obtain ⟨-, hstart, hstop⟩ := place_of_tokenize_eq hsplit
        have hlast := hbefore last (by simp)
        have hnone : (textOf []).length = 0 := rfl
        rw [textOf_append, textOf_cons, String.length_append, String.length_append]
        omega
    cases after with
    | nil =>
      rw [List.append_nil] at htokens
      rw [← textOf_tokenize text, htokens] at hlt
      omega
    | cons first after =>
      obtain ⟨-, hstart, -⟩ := place_of_tokenize_eq htokens
      refine ⟨first, ?_, ?_, hafter first (List.mem_cons_self ..)⟩
      · rw [htokens]
        exact List.mem_append_right before (List.mem_cons_self ..)
      · omega

private theorem eq_of_covers {text : String} {offset : Nat} {token other : Token}
    (htoken : token ∈ tokenize text ∧ token.start ≤ offset ∧ offset < token.stop)
    (hother : other ∈ tokenize text ∧ other.start ≤ offset ∧ offset < other.stop) :
    token = other := by
  have hfirst := (at?_tokenize_eq_some_iff text offset token).2 htoken
  have hsecond := (at?_tokenize_eq_some_iff text offset other).2 hother
  rw [hfirst] at hsecond
  exact Option.some.inj hsecond

/-- At every offset the search finds what going through all tokens finds: the token
that covers the offset, of which there is one and no other within the text, and
nothing behind the text. -/
theorem at?_tokenize :
    at? (tokenize text) offset =
        (tokenize text).find? (fun token => token.contains offset) ∧
      (∀ token, at? (tokenize text) offset = some token ↔
        token ∈ tokenize text ∧ token.start ≤ offset ∧ offset < token.stop) ∧
      ((∃! token, token ∈ tokenize text ∧ token.start ≤ offset ∧
          offset < token.stop) ↔
        offset < text.length) ∧
      (at? (tokenize text) offset = none ↔ text.length ≤ offset) := by
  have hsearch := at?_tokenize_eq_some_iff text offset
  have hexists := exists_covers_iff text offset
  have hfound : ∀ token,
      (tokenize text).find? (fun token => token.contains offset) = some token →
      token ∈ tokenize text ∧ token.start ≤ offset ∧ offset < token.stop := by
    intro token hfind
    have hcontains : token.contains offset = true := by
      simpa using List.find?_some hfind
    exact ⟨List.mem_of_find?_eq_some hfind,
      (contains_eq_true_iff token offset).1 hcontains⟩
  refine ⟨?_, hsearch, ?_, ?_⟩
  · apply Option.ext
    intro token
    rw [hsearch]
    constructor
    · intro hcovers
      have hsome : ((tokenize text).find?
            (fun token => token.contains offset)).isSome = true :=
        List.find?_isSome.2
          ⟨token, hcovers.1, (contains_eq_true_iff token offset).2 hcovers.2⟩
      obtain ⟨other, hother⟩ := Option.isSome_iff_exists.1 hsome
      rw [hother, eq_of_covers hcovers (hfound other hother)]
    · exact hfound token
  · rw [← hexists]
    constructor
    · rintro ⟨token, ⟨htoken, hcovers⟩, -⟩
      exact ⟨token, htoken, hcovers⟩
    · rintro ⟨token, htoken, hcovers⟩
      exact ⟨token, ⟨htoken, hcovers⟩,
        fun other hother => eq_of_covers hother ⟨htoken, hcovers⟩⟩
  · rw [← Nat.not_lt, ← hexists, Option.eq_none_iff_forall_ne_some]
    simp only [ne_eq, hsearch]
    simp

end Text

end SqlOutline.Token
