import SqlOutline.Proofs.Script.Entry
import SqlOutline.Proofs.Statement.Reread

/-!
# Plain texts as scripts

The plain text of a statement is one statement with nothing around it, even if the
statement leaves a literal or a parenthesis open at the end of its script
(`isPlain_plainText`). It is its own plain text (`IsPlain.plainTexts_eq`), and an
entry unless it leaves something open (`IsPlain.isEntry`).
-/

namespace SqlOutline

open Token

private theorem Text.trim_trim (text : String) : trim (trim text) = trim text := by
  have hchars : trimBlanks (trimBlanks text.toList) = trimBlanks text.toList := by
    rw [trimBlanks_eq text.toList]
    generalize hbegin : text.toList.dropWhile isBlank = cs
    have hhead : ∀ c ∈ (cs.rdropWhile isBlank).head?, isBlank c = false := by
      intro c hc
      have hne : cs.rdropWhile isBlank ≠ [] := by
        rintro hnil
        simp [hnil] at hc
      rw [head?_rdropWhile hne, ← hbegin] at hc
      have hstops := List.head?_dropWhile_not isBlank text.toList
      rw [Option.mem_def.1 hc] at hstops
      exact hstops
    have hdrop : (cs.rdropWhile isBlank).dropWhile isBlank =
        cs.rdropWhile isBlank := by
      cases hrest : cs.rdropWhile isBlank with
      | nil => rfl
      | cons c rest =>
        rw [hrest] at hhead
        exact List.dropWhile_cons_of_neg (by simpa using hhead c rfl)
    rw [trimBlanks_eq, hdrop, List.rdropWhile_idempotent]
  rw [trim, toList_trim, hchars, trim]

namespace Script

/-- A text that is one statement without comments and begins and ends with it. -/
structure IsPlain (text : String) : Prop where
  trim_eq : Text.trim text = text
  isComment_eq_false : ∀ lexeme ∈ lexemes text.toList, lexeme.isComment = false
  isUndivided : IsUndivided (unplaced (lexemes text.toList))
  any_significant : ((lexemes text.toList).any fun lexeme => !lexeme.isTrivia) = true

theorem IsEntry.isPlain {text : String} (h : IsEntry text) : IsPlain text :=
  ⟨h.trim_eq, h.isComment_eq_false, h.isUndivided, h.any_significant⟩

/-! ## The ends of a trimmed text -/

theorem isBlank_of_mem_lexemes {cs : List Char} {lexeme : Lexeme}
    (h : lexeme ∈ lexemes cs) (hkind : lexeme.kind = .whitespace) :
    ∀ b ∈ lexeme.text.toList, Text.isBlank b = true := by
  induction cs using induction_lexemes with
  | nil => simp at h
  | cons c w rest form hform hlength ih =>
    rw [lexemes_cons_append hform hlength] at h
    rcases List.mem_cons.1 h with rfl | h
    · have hblanks := (kind_eq_whitespace_iff (c :: w) hform).1 hkind
      subst hblanks
      rw [String.toList_ofList]
      exact isBlank_of_length_blanks hform hlength
    · exact ih h

private theorem kind_ne_whitespace_of_head? {entry : String}
    (htrim : Text.trim entry = entry) {first : Lexeme}
    (h : (lexemes entry.toList).head? = some first) : first.kind ≠ .whitespace := by
  intro hkind
  cases hchars : entry.toList with
  | nil => simp [hchars] at h
  | cons c cs =>
    obtain ⟨w, rest, rfl, hlength⟩ := exists_append_of_cons c cs
    rw [hchars, lexemes_cons_append rfl hlength, List.head?_cons,
      Option.some_inj] at h
    have hblank : Text.isBlank c = true := by
      rw [← ofChars_eq_blanks_iff, ← kind_eq_whitespace_iff (c :: w) rfl]
      rw [← h] at hkind
      exact hkind
    have hbegin := congrArg (fun text => text.toList.length) htrim
    simp only [Text.toList_trim, Text.trimBlanks_eq, hchars,
      List.length_cons] at hbegin
    rw [List.dropWhile_cons_of_pos hblank] at hbegin
    have hle := (List.rdropWhile_prefix Text.isBlank
      ((w ++ rest).dropWhile Text.isBlank)).length_le
    have hdrop := (List.dropWhile_sublist Text.isBlank (l := w ++ rest)).length_le
    omega

private theorem kind_ne_whitespace_of_getLast? {entry : String}
    (htrim : Text.trim entry = entry) {last : Lexeme}
    (h : (lexemes entry.toList).getLast? = some last) : last.kind ≠ .whitespace := by
  intro hkind
  obtain ⟨init, hinit⟩ := List.getLast?_eq_some_iff.1 h
  have hmem : last ∈ lexemes entry.toList := List.mem_of_getLast? h
  have hchars := flatMap_toList_lexemes entry.toList
  rw [hinit, List.flatMap_append, List.flatMap_singleton] at hchars
  have hne : last.text.toList ≠ [] := by
    rw [ne_eq, String.toList_eq_nil_iff]
    exact text_ne_empty_of_mem_lexemes hmem
  obtain ⟨front, b, hlast⟩ := (List.eq_nil_or_concat' _).resolve_left hne
  have hb : Text.isBlank b = true :=
    isBlank_of_mem_lexemes hmem hkind b
      (hlast ▸ List.mem_append_right _ (List.mem_singleton_self b))
  have hend := congrArg String.toList htrim
  rw [Text.toList_trim, Text.trimBlanks_eq] at hend
  -- a text that was trimmed at its end does not end in a blank
  have hself : entry.toList.rdropWhile Text.isBlank = entry.toList := by
    rw [← hend, List.rdropWhile_idempotent]
  rw [← hchars, hlast, ← List.append_assoc,
    List.rdropWhile_concat_pos _ _ _ hb] at hself
  have hle := (List.rdropWhile_prefix Text.isBlank
    (init.flatMap (fun lexeme => lexeme.text.toList) ++ front)).length_le
  rw [hself, List.length_append, List.length_singleton] at hle
  omega

/-! ## The plain texts of statements -/

theorem withoutComments_of_forall {tokens : List Token} (last : Option Char)
    (h : ∀ token ∈ tokens, token.isComment = false) :
    withoutComments last false tokens =
      tokens.flatMap fun token => token.text.toList := by
  induction tokens generalizing last with
  | nil => rfl
  | cons token tokens ih =>
    have hrest := fun last =>
      ih last fun other hother => h other (List.mem_cons_of_mem token hother)
    rw [withoutComments, h token (List.mem_cons_self ..)]
    simp only [Bool.false_eq_true, if_false, Bool.false_and, hrest, List.flatMap_cons]

section PlainText

variable {text : String}

/-- A text that is one statement already is its own plain text. -/
theorem IsPlain.plainTexts_eq (h : IsPlain text) : plainTexts text = [text] := by
  have hcomment : ∀ token ∈ tokenize text, token.isComment = false := by
    intro token htoken
    apply h.isComment_eq_false
    rw [← map_toLexeme_tokenize]
    exact List.mem_map_of_mem htoken
  have hundivided := h.isUndivided
  rw [unplaced_lexemes, Relayout.isUndivided_tokens_iff] at hundivided
  have hsignificant := h.any_significant
  rw [← map_toLexeme_tokenize, List.any_map] at hsignificant
  have hstatements :=
    statements_eq_singleton (parts_eq_singleton hundivided hsignificant)
  rw [plainTexts_eq_map, hstatements, List.map_singleton, Statement.plainText,
    Statement.ofTokens, Statement.tokens_ofPassage,
    withoutComments_of_forall none hcomment, ← toList_textOf, textOf_tokenize,
    String.ofList_toList, h.trim_eq]

/-- A plain text that leaves nothing open is an entry. -/
theorem IsPlain.isEntry (h : IsPlain text)
    (hterminated : ∀ lexeme ∈ lexemes text.toList, ¬ lexeme.IsUnterminated)
    (hdepth : depth (unplaced (lexemes text.toList)) = 0) : IsEntry text where
  ne_nil := by
    obtain ⟨lexeme, hlexeme, -⟩ := List.any_eq_true.1 h.any_significant
    exact List.ne_nil_of_mem hlexeme
  head_significant first hfirst := Lexeme.isTrivia_eq_false_iff.2
    ⟨kind_ne_whitespace_of_head? h.trim_eq hfirst,
      h.isComment_eq_false first (List.mem_of_mem_head? hfirst)⟩
  last_significant last hlast := Lexeme.isTrivia_eq_false_iff.2
    ⟨kind_ne_whitespace_of_getLast? h.trim_eq hlast,
      h.isComment_eq_false last (List.mem_of_getLast? hlast)⟩
  last_terminated last hlast := hterminated last (List.mem_of_getLast? hlast)
  isComment_eq_false := h.isComment_eq_false
  isUndivided := h.isUndivided
  depth_eq := hdepth

variable {statement : Statement}

/-- The plain text of a statement is one statement with nothing around it. -/
theorem isPlain_plainText (h : statement ∈ statements text) :
    IsPlain statement.plainText := by
  have hbare := Statement.tokens_bare_plainText h
  obtain ⟨init, last, hsplit⟩ := Statement.exists_significant_eq h
  obtain ⟨hsolid, -⟩ := Statement.solid_lexemes_plainText h hsplit
  have htrivia := Statement.isTrivia_eq_false_of_mem_solid hsplit
  rw [← hsolid] at htrivia
  constructor
  · exact Text.trim_trim _
  · intro lexeme hlexeme
    by_cases hkind : lexeme.kind = .whitespace
    · rw [Lexeme.isComment, hkind]
      rfl
    · have hmem := htrivia lexeme (mem_solid.2 ⟨hlexeme, hkind⟩)
      exact (Lexeme.isTrivia_eq_false_iff.1 hmem).2
  · have hpart := tokens_mem_parts_of_mem_statements h
    obtain ⟨-, stretch, -, -, -, hpieces, hsemicolon⟩ :=
      exists_stretch_of_mem_parts hpart
    have hundivided : IsUndivided statement.tokens := fun piece hpiece =>
      hsemicolon piece (hpieces ▸ hpiece)
    rw [unplaced_lexemes, Relayout.isUndivided_tokens_iff,
      ← Relayout.bare.isUndivided_tokens_iff, hbare, Relayout.isUndivided_tokens_iff]
    exact hundivided
  · have hlast :
        last.toLexeme.trimEnd ∈ solid (lexemes statement.plainText.toList) := by
      rw [hsolid]
      exact List.mem_append_right _ (List.mem_singleton_self _)
    apply List.any_eq_true.2
    exact ⟨_, (mem_solid.1 hlast).1, by rw [htrivia _ hlast]; rfl⟩

/-- The lexemes of the plain text of a statement that leaves no span open are those of
the statement that are significant, but for white space. -/
theorem solid_lexemes_plainText_of_terminated (h : statement ∈ statements text)
    (hterminated : ∀ token ∈ statement.tokens, ¬ token.toLexeme.IsUnterminated) :
    solid (lexemes statement.plainText.toList) =
      (significant statement.tokens).map Token.toLexeme := by
  obtain ⟨init, last, hsplit⟩ := Statement.exists_significant_eq h
  obtain ⟨hsolid, htrim⟩ := Statement.solid_lexemes_plainText h hsplit
  have hmem : last ∈ significant statement.tokens := by
    rw [hsplit]
    exact List.mem_append_right _ (List.mem_singleton_self last)
  have hlast : last.toLexeme.trimEnd = last.toLexeme := by
    by_contra hne
    exact hterminated last (mem_significant.1 hmem).1 (htrim hne)
  rw [hsolid, hlast, hsplit, List.map_append, List.map_singleton]

/-- The plain text of a statement that leaves nothing open is an entry. -/
theorem isEntry_plainText (h : statement ∈ statements text)
    (hterminated : ∀ token ∈ statement.tokens, ¬ token.toLexeme.IsUnterminated)
    (hdepth : depth statement.tokens = 0) : IsEntry statement.plainText := by
  have hsolid := solid_lexemes_plainText_of_terminated h hterminated
  have hbare := Statement.tokens_bare_plainText h
  apply (isPlain_plainText h).isEntry
  · intro lexeme hlexeme hunterminated
    have hkind : lexeme.kind ≠ .whitespace := by
      intro hblank
      have hquoted := hunterminated.1
      simp [hblank] at hquoted
    have hmem := mem_solid.2 ⟨hlexeme, hkind⟩
    rw [hsolid] at hmem
    obtain ⟨token, htoken, rfl⟩ := List.mem_map.1 hmem
    exact hterminated token (mem_significant.1 htoken).1 hunterminated
  · rw [unplaced_lexemes, Relayout.depth_tokens, ← Relayout.bare.depth_tokens, hbare,
      Relayout.depth_tokens]
    exact hdepth

end PlainText

end Script

end SqlOutline
