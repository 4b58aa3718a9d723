import SqlOutline.Proofs.Layout.Moved
import SqlOutline.Proofs.Statement.PlainText

/-!
# Ranges of tokens

A lexeme depends on what follows it only as far as that could go on with it, so it
stays as it is where the text is cut behind it. Any tokens side by side are therefore
read again from their own text, at places counted from the first of them
(`tokenize_textOf_extract`).

The one lexeme that ends before others without a change of character class is an
operator before a comment. It keeps its end because the comment is in the range as a
whole or not at all.
-/

namespace SqlOutline

open Token

/-! ## What a cut leaves as it was -/

private theorem Token.runLength_append_left {p : Char → Bool} {w kept cut : List Char}
    (h : runLength p (w ++ (kept ++ cut)) = w.length) :
    runLength p (w ++ kept) = w.length := by
  obtain ⟨hw, hrest⟩ := runLength_append_eq_iff.1 h
  refine runLength_append_eq_iff.2 ⟨hw, fun c hc => hrest c ?_⟩
  rw [List.head?_append, Option.mem_def.1 hc]
  rfl

namespace IsRead

variable {tokens later : List Token}

theorem operatorLength_eq_zero (h : IsRead (tokens ++ later))
    (hstops : operatorLength (textOf (tokens ++ later)).toList = 0) :
    operatorLength (textOf tokens).toList = 0 := by
  cases tokens with
  | nil => rfl
  | cons token tokens =>
    have hall : IsRead (token :: (tokens ++ later)) := h
    obtain ⟨c, w, form, htext, hform, hlength, -, -⟩ := hall.exists_form
    rw [List.cons_append, textOf_cons, String.toList_append, htext, List.cons_append,
      operatorLength_cons_eq_zero_iff] at hstops
    rw [textOf_cons, String.toList_append, htext, List.cons_append,
      operatorLength_cons_eq_zero_iff]
    intro hop
    have hopens := hstops hop
    have hlooks : form.looksAhead = true := by
      rcases isComment_of_opensComment hopens with hline | hblock
      · rw [← hform, hline]
        rfl
      · rw [← hform, hblock]
        rfl
    have hpos : 0 < w.length := by
      rw [← hlength, ← hform]
      exact Form.length_pos_of_looksAhead (by rwa [hform])
    have hw : w ≠ [] := List.ne_nil_of_length_pos hpos
    rwa [List.head?_append_of_ne_nil _ hw] at hopens ⊢

theorem of_append_left (h : IsRead (tokens ++ later)) : IsRead tokens := by
  induction tokens with
  | nil =>
    rw [IsRead, List.map_nil]
    exact lexemes_nil
  | cons token tokens ih =>
    have hall : IsRead (token :: (tokens ++ later)) := h
    obtain ⟨c, w, form, htext, hform, hlength, hkind, hrest⟩ := hall.exists_form
    have hafter : (textOf (tokens ++ later)).toList =
        (textOf tokens).toList ++ (textOf later).toList := by
      rw [textOf_append, String.toList_append]
    have hcut : Cut (textOf (tokens ++ later)).toList (textOf tokens).toList := by
      rw [hafter]
      exact Cut.append_right _ _
    have hform' := (Form.ofChars_append_of_cut (by rwa [hform]) hcut).trans hform
    have hlength' : form.length (w ++ (textOf tokens).toList) = w.length := by
      by_cases hblanks : form = .blanks
      · subst hblanks
        rw [hafter] at hlength
        exact runLength_append_left hlength
      by_cases hline : form = .lineComment
      · subst hline
        rw [hafter] at hlength
        exact runLength_append_left hlength
      refine Form.length_append_of_cut hform hblanks hline hlength hcut
        hrest.operatorLength_eq_zero ?_
      intro hend
      left
      rw [hafter] at hend
      exact (List.append_eq_nil_iff.1 hend).1
    rw [IsRead, textOf_cons, String.toList_append, htext, List.cons_append,
      lexemes_cons_append hform' hlength', ← hkind, ← htext, String.ofList_toList,
      ih hrest, List.map_cons]

theorem of_isInfix {range : List Token} (h : IsRead tokens)
    (hrange : range <:+: tokens) : IsRead range := by
  obtain ⟨before, after, rfl⟩ := hrange
  exact h.of_append_left.of_append

end IsRead

/-! ## Places counted from the first token -/

namespace Token

def relativeTo (origin token : Token) : Token :=
  ⟨token.toLexeme, token.line - origin.line, token.start - origin.start,
    token.stop - origin.start⟩

def rebased : List Token → List Token
  | [] => []
  | first :: tokens => (first :: tokens).map (relativeTo first)

private theorem relativeTo_moved {origin : Token} {lines offset : Nat}
    (hline : origin.line = lines) (hstart : origin.start = offset) (token : Token) :
    relativeTo origin (token.moved lines offset) = token := by
  rw [relativeTo, moved, hline, hstart]
  simp only [Nat.add_sub_cancel]

theorem rebased_place (line start : Nat) (ls : List Lexeme) :
    rebased (place line start ls) = place 0 0 ls := by
  have hmoved := place_moved line start 0 0 ls
  rw [Nat.zero_add, Nat.zero_add] at hmoved
  cases ls with
  | nil => rfl
  | cons lexeme ls =>
    rw [hmoved, place, List.map_cons, rebased, ← List.map_cons, List.map_map, ← place]
    have hself : relativeTo
            (moved line start ⟨lexeme, 0, 0, 0 + lexeme.text.length⟩) ∘
          moved line start = id := by
      funext token
      exact relativeTo_moved (Nat.zero_add line) (Nat.zero_add start) token
    rw [hself, List.map_id]

theorem map_moved_rebased {line start : Nat} {ls : List Lexeme} {first : Token}
    (h : (place line start ls).head? = some first) :
    (rebased (place line start ls)).map (moved first.line first.start) =
      place line start ls := by
  have hfirst : first.line = line ∧ first.start = start := by
    cases ls with
    | nil => simp [place] at h
    | cons lexeme ls =>
      rw [place, List.head?_cons, Option.some_inj] at h
      rw [← h]
      exact ⟨rfl, rfl⟩
  have hmoved := place_moved line start 0 0 ls
  rw [Nat.zero_add, Nat.zero_add] at hmoved
  rw [rebased_place, hfirst.1, hfirst.2, hmoved]

private theorem exists_place_of_isInfix {text : String} {range : List Token}
    (h : range <:+: tokenize text) :
    ∃ line start, range = place line start (range.map toLexeme) := by
  obtain ⟨before, after, hsplit⟩ := h
  have hlexemes : lexemes text.toList =
      before.map toLexeme ++ (range.map toLexeme ++ after.map toLexeme) := by
    rw [← map_toLexeme_tokenize, ← hsplit, List.map_append, List.map_append,
      List.append_assoc]
  rw [tokenize, hlexemes, place_append, place_append, List.append_assoc] at hsplit
  have hlength : ∀ line start (tokens : List Token),
      tokens.length = (place line start (tokens.map toLexeme)).length := by
    intro line start tokens
    have hmap :=
      congrArg List.length (map_toLexeme_place line start (tokens.map toLexeme))
    rw [List.length_map, List.length_map] at hmap
    exact hmap.symm
  obtain ⟨-, hrest⟩ := List.append_inj hsplit (hlength 0 0 before)
  obtain ⟨hrange, -⟩ := List.append_inj hrest (hlength _ _ range)
  exact ⟨_, _, hrange⟩

/-- Any tokens side by side are read again from their own text, at places counted from
the first of them: what stands around them has no part in how they are read. Counted
on from that first token, the places are those in the whole text. -/
theorem tokenize_textOf_extract (text : String) (i j : Nat) :
    tokenize (textOf ((tokenize text).extract i j)) =
        rebased ((tokenize text).extract i j) ∧
      ∀ first ∈ ((tokenize text).extract i j).head?,
        (tokenize (textOf ((tokenize text).extract i j))).map
            (moved first.line first.start) =
          (tokenize text).extract i j := by
  have hinfix : (tokenize text).extract i j <:+: tokenize text := by
    rw [List.extract_eq_take_drop]
    exact (List.take_prefix _ _).isInfix.trans (List.drop_suffix i _).isInfix
  generalize (tokenize text).extract i j = range at hinfix
  have hread := (isRead_tokenize text).of_isInfix hinfix
  obtain ⟨line, start, hplace⟩ := exists_place_of_isInfix hinfix
  have htokens : tokenize (textOf range) = rebased range := by
    rw [tokenize, hread, hplace, rebased_place, map_toLexeme_place]
  refine ⟨htokens, fun first hfirst => ?_⟩
  rw [htokens]
  rw [hplace] at hfirst ⊢
  exact map_moved_rebased hfirst

end Token

end SqlOutline
