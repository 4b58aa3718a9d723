import SqlOutline.Proofs.Script.Blanks
import SqlOutline.Proofs.Script.Closed
import SqlOutline.Proofs.Token.Count
import SqlOutline.Proofs.Token.Splice

/-!
# What stands directly behind a word

In the plain text of a statement a word is followed by what followed it in the
statement, unless that is a comment, which leaves a blank or nothing. So a point and
digits stand directly behind a word in the plain text only if they did so in the
statement (`beginsFraction_of_plainText`).
-/

namespace SqlOutline

open Token

/-- Whether some tokens begin with a point and a number, one directly behind the
other. -/
def beginsFraction : List Token → Bool
  | point :: number :: _ => point.kind == .dot && number.kind == .number
  | _ => false

/-! ## Beginnings of a text -/

private theorem eq_nil_of_filter_append_eq {α : Type} {p : α → Bool}
    {first more : List α} (h : (first ++ more).filter p = first.filter p)
    (hlast : ∀ x ∈ (first ++ more).getLast?, p x = true) : more = [] := by
  rcases List.eq_nil_or_concat' more with rfl | ⟨init, last, rfl⟩
  · rfl
  · rw [List.filter_append, List.append_right_eq_self, List.filter_eq_nil_iff] at h
    rw [← List.append_assoc, List.getLast?_concat] at hlast
    exact absurd (hlast last rfl) (h last (by simp))

private theorem eq_of_append_eq_append {α : Type} {p : α → Bool}
    {first second rest rest' : List α} (h : first ++ rest = second ++ rest')
    (hfilter : first.filter p = second.filter p)
    (hfirst : ∀ x ∈ first.getLast?, p x = true)
    (hsecond : ∀ x ∈ second.getLast?, p x = true) : first = second := by
  rcases List.append_eq_append_iff.1 h with ⟨more, rfl, -⟩ | ⟨more, rfl, -⟩
  · rw [eq_nil_of_filter_append_eq hfilter.symm hsecond, List.append_nil]
  · rw [eq_nil_of_filter_append_eq hfilter hfirst, List.append_nil]

private theorem filter_isBlank_eq (cs : List Char) :
    cs.filter (!Text.isBlank ·) =
      ((solid (lexemes cs)).flatMap fun lexeme => lexeme.text.toList).filter
        (!Text.isBlank ·) := by
  have hlexemes : ∀ ls : List Lexeme, (∀ lexeme ∈ ls, lexeme ∈ lexemes cs) →
      (ls.flatMap fun lexeme => lexeme.text.toList).filter (!Text.isBlank ·) =
        ((solid ls).flatMap fun lexeme => lexeme.text.toList).filter
          (!Text.isBlank ·) := by
    intro ls hls
    induction ls with
    | nil => rfl
    | cons lexeme ls ih =>
      have hrest :=
        ih fun other hother => hls other (List.mem_cons_of_mem lexeme hother)
      rw [List.flatMap_cons, List.filter_append, hrest]
      by_cases hkind : lexeme.kind = .whitespace
      · have hblank :=
          Script.isBlank_of_mem_lexemes (hls lexeme (List.mem_cons_self ..)) hkind
        have hnone : lexeme.text.toList.filter (!Text.isBlank ·) = [] := by
          rw [List.filter_eq_nil_iff]
          exact fun c hc => by simp [hblank c hc]
        rw [hnone, List.nil_append, solid_cons_of_whitespace ls hkind]
      · rw [solid_cons ls hkind, List.flatMap_cons, List.filter_append]
  rw [← hlexemes _ fun _ => id, flatMap_toList_lexemes]

theorem isBlank_of_keyword? {cs : List Char} {lexeme : Lexeme}
    (h : lexeme ∈ lexemes cs) (hkeyword : lexeme.keyword?.isSome = true) :
    ∀ c ∈ lexeme.text.toList, Text.isBlank c = false := by
  induction cs using induction_lexemes with
  | nil => simp at h
  | cons c w rest form hform hlength ih =>
    rw [lexemes_cons_append hform hlength] at h
    rcases List.mem_cons.1 h with rfl | h
    · have hword := form_eq_word_of_keyword? hform hkeyword
      subst hword
      intro d hd
      rw [String.toList_ofList] at hd
      by_contra hblank
      rw [Bool.not_eq_false] at hblank
      rcases List.mem_cons.1 hd with rfl | hd
      · exact absurd (hform.symm.trans (ofChars_eq_blanks_iff.2 hblank)) (by decide)
      · have hcontinues := (runLength_append_eq_iff.1 hlength).1 d hd
        rw [Text.continuesWord_of_isBlank hblank] at hcontinues
        exact Bool.noConfusion hcontinues
    · exact ih h

theorem isBlank_of_getLast?_of_keyword? {cs : List Char} {ls : List Lexeme}
    {word : Lexeme} (h : lexemes cs = ls ++ [word])
    (hkeyword : word.keyword?.isSome = true) :
    ∀ c ∈ cs.getLast?, Text.isBlank c = false := by
  have hmem : word ∈ lexemes cs :=
    h ▸ List.mem_append_right _ (List.mem_singleton_self word)
  have hne : word.text.toList ≠ [] := by
    rw [ne_eq, String.toList_eq_nil_iff]
    exact text_ne_empty_of_mem_lexemes hmem
  rw [← flatMap_toList_lexemes cs, h, List.flatMap_append, List.flatMap_singleton,
    List.getLast?_append_of_ne_nil _ hne]
  exact fun c hc => isBlank_of_keyword? hmem hkeyword c (List.mem_of_getLast? hc)

theorem solid_of_isComment_eq_false {ls : List Lexeme}
    (h : ∀ lexeme ∈ ls, lexeme.isComment = false) :
    solid ls = ls.filter fun lexeme => !lexeme.isTrivia := by
  rw [solid]
  apply List.filter_congr
  intro lexeme hlexeme
  rw [Lexeme.isTrivia, TokenKind.isTrivia_eq_or, ← Lexeme.isComment, h lexeme hlexeme,
    Bool.or_false]
  rfl

/-! ## Without comments -/

theorem exists_withoutComments_append_cons (last : Option Char) (skipped : Bool)
    (front : List Token) {word : Token} (hword : word.isComment = false) {d : Char}
    (hd : word.text.toList.getLast? = some d) :
    ∃ init, ∀ later, withoutComments last skipped (front ++ word :: later) =
      init ++ (word.text.toList ++ withoutComments (some d) false later) := by
  induction front generalizing last skipped with
  | nil =>
    exact ⟨gapBefore last skipped word,
      fun later => withoutComments_cons _ _ later hword hd⟩
  | cons token front ih =>
    by_cases hcomment : token.isComment = true
    · obtain ⟨init, hinit⟩ := ih last true
      refine ⟨init, fun later => ?_⟩
      rw [List.cons_append, withoutComments_cons_of_isComment _ _ _ hcomment, hinit]
    · have hstep : ∃ chars last',
          ∀ tokens, withoutComments last skipped (token :: tokens) =
            chars ++ withoutComments last' false tokens :=
        ⟨_, _, fun tokens => by rw [withoutComments, if_neg hcomment]⟩
      obtain ⟨chars, last', hchars⟩ := hstep
      obtain ⟨init, hinit⟩ := ih last' false
      refine ⟨chars ++ init, fun later => ?_⟩
      rw [List.cons_append, hchars, hinit, List.append_assoc]

section Next

variable {token : Token} {tokens later : List Token}

theorem exists_of_withoutComments_eq_cons (h : IsRead (token :: (tokens ++ later)))
    (htoken : token.isTrivia = false) {d : Char}
    (hd : token.text.toList.getLast? = some d) {c : Char} {cs : List Char}
    (hcs : withoutComments (some d) false tokens = c :: cs)
    (hc : Text.isBlank c = false) {form : Form}
    (hform : ∀ next, Form.ofChars c next = form) :
    ∃ next tokens' w e, tokens = next :: tokens' ∧ next.isTrivia = false ∧
      next.kind = form.kind (c :: w) ∧ next.text.toList.getLast? = some e ∧
      form.length (w ++ (textOf (tokens' ++ later)).toList) = w.length ∧
      cs = w ++ withoutComments (some e) false tokens' := by
  cases tokens with
  | nil => simp [withoutComments] at hcs
  | cons next tokens =>
    have hdblank := h.isBlank_of_getLast? htoken (List.cons_ne_nil _ _) hd
    obtain ⟨b, w, form', htext, hform', hlength, hkind, -⟩ := h.tail.exists_form
    obtain ⟨e, he⟩ := exists_getLast?_of_eq_cons htext
    by_cases hcomment : next.isComment = true
    -- the comment leaves a blank
    · have hblank := isBlank_of_head?_withoutComments h.tail.tail hdblank
      rw [withoutComments_cons_of_isComment _ _ tokens hcomment] at hcs
      rw [hcs, List.head?_cons] at hblank
      rw [hblank c rfl] at hc
      exact Bool.noConfusion hc
    rw [Bool.not_eq_true] at hcomment
    rw [withoutComments_cons _ _ tokens hcomment he, gapBefore_false, List.nil_append,
      htext, List.cons_append] at hcs
    obtain ⟨rfl, hrest⟩ := List.cons.inj hcs
    have hsame : form' = form := hform'.symm.trans (hform _)
    subst hsame
    have hblank : next.kind ≠ .whitespace := by
      intro hwhite
      rw [h.tail.isBlank_of_whitespace hwhite b (htext ▸ List.mem_cons_self ..)] at hc
      exact Bool.noConfusion hc
    exact ⟨next, tokens, w, e, rfl, Lexeme.isTrivia_eq_false_iff.2 ⟨hblank, hcomment⟩,
      hkind, he, hlength, hrest.symm⟩

private theorem ofChars_point (next : Option Char) :
    Form.ofChars '.' next = .single .dot :=
  Form.ofChars_eq_of_alone (by decide) (by decide) next

private theorem beginsFraction_of_withoutComments
    (h : IsRead (token :: (tokens ++ later))) (htoken : token.isTrivia = false)
    {d : Char} (hd : token.text.toList.getLast? = some d) {c : Char} {cs : List Char}
    (hcs : withoutComments (some d) false tokens = '.' :: c :: cs)
    (hc : c.isDigit = true) : beginsFraction tokens = true := by
  obtain ⟨point, tokens', w, e, rfl, hpoint, hpointKind, he, hlength, hrest⟩ :=
    exists_of_withoutComments_eq_cons h htoken hd hcs (by decide) ofChars_point
  have hw : w = [] := List.length_eq_zero_iff.1 hlength.symm
  subst hw
  have hcblank : Text.isBlank c = false := by
    by_contra hblank
    rw [Text.isDigit_of_isBlank (by simpa using hblank)] at hc
    exact Bool.noConfusion hc
  obtain ⟨number, tokens'', w, -, rfl, -, hnumberKind, -⟩ :=
    exists_of_withoutComments_eq_cons h.tail hpoint he hrest.symm hcblank
      (Form.ofChars_of_isDigit hc)
  simp [beginsFraction, hpointKind, hnumberKind, Form.kind]

end Next

/-! ## In the plain text -/

private theorem trim_append_cons (init cs : List Char) {d : Char}
    (hd : Text.isBlank d = false) :
    ((init ++ d :: cs).dropWhile Text.isBlank).rdropWhile Text.isBlank =
      (init ++ [d]).dropWhile Text.isBlank ++ cs.rdropWhile Text.isBlank := by
  have hend : ∀ front : List Char, (front ++ d :: cs).rdropWhile Text.isBlank =
      front ++ [d] ++ cs.rdropWhile Text.isBlank := by
    intro front
    rw [rdropWhile_append, rdropWhile_cons_of_neg cs hd,
      if_neg (List.cons_ne_nil _ _), List.append_assoc]
    rfl
  induction init with
  | nil =>
    rw [List.nil_append, List.nil_append, List.dropWhile_cons_of_neg (by simp [hd]),
      List.dropWhile_cons_of_neg (by simp [hd])]
    exact hend []
  | cons c init ih =>
    by_cases hc : Text.isBlank c = true
    · rw [List.cons_append, List.cons_append, List.dropWhile_cons_of_pos hc,
        List.dropWhile_cons_of_pos hc, ih]
    · rw [List.cons_append, List.cons_append, List.dropWhile_cons_of_neg hc,
        List.dropWhile_cons_of_neg hc]
      exact hend (c :: init)

private theorem getLast?_dropWhile_concat (init : List Char) {d : Char}
    (hd : Text.isBlank d = false) :
    ((init ++ [d]).dropWhile Text.isBlank).getLast? = some d := by
  induction init with
  | nil => simp [hd]
  | cons c init ih =>
    by_cases hc : Text.isBlank c = true
    · rwa [List.cons_append, List.dropWhile_cons_of_pos hc]
    · rw [List.cons_append, List.dropWhile_cons_of_neg hc, ← List.cons_append,
        List.getLast?_concat]

/-- A point and a digit stand behind a keyword in the plain text of a statement only
where a point and a number stand directly behind it in the statement. -/
theorem beginsFraction_of_plainText {text : String} {statement : Statement}
    (h : statement ∈ Script.statements text) {front later : List Token} {word : Token}
    (htokens : statement.tokens = front ++ word :: later)
    (hkeyword : word.keyword?.isSome = true) {before after : List Char}
    (hchars : statement.plainText.toList = before ++ after)
    (hbefore : solid (lexemes before) =
      (significant (front ++ [word])).map Token.toLexeme)
    (hlast : ∀ c ∈ before.getLast?, Text.isBlank c = false)
    (hfraction : fractionLength after ≠ 0) : beginsFraction later = true := by
  obtain ⟨earlier, rest, htext⟩ := Script.isInfix_of_mem_statements h
  have hread : IsRead (front ++ word :: (later ++ rest)) := by
    have hwhole := isRead_tokenize text
    rw [← htext, htokens, List.append_assoc] at hwhole
    have hlater : IsRead (front ++ word :: later ++ rest) := hwhole.of_append
    rwa [List.append_assoc] at hlater
  have hword : IsRead (word :: (later ++ rest)) := hread.of_append
  have htrivia := Lexeme.isTrivia_of_keyword? hkeyword
  have hcomment := (Lexeme.isTrivia_eq_false_iff.1 htrivia).2
  obtain ⟨c, w, -, hwordText, -⟩ := hword.exists_form
  obtain ⟨d, hd⟩ := exists_getLast?_of_eq_cons hwordText
  have hdblank : Text.isBlank d = false := by
    have hmem : word.toLexeme ∈ lexemes text.toList := by
      rw [← map_toLexeme_tokenize, ← htext, htokens]
      simp
    exact isBlank_of_keyword? hmem hkeyword d (List.mem_of_getLast? hd)
  obtain ⟨init, hinit⟩ :=
    exists_withoutComments_append_cons none false front hcomment hd
  obtain ⟨letters, hletters⟩ := List.getLast?_eq_some_iff.1 hd
  -- the plain text up to the word, and from there on
  have hsplit : before ++ after = (init ++ letters ++ [d]).dropWhile Text.isBlank ++
      (withoutComments (some d) false later).rdropWhile Text.isBlank := by
    rw [← hchars, Statement.toList_plainText, htokens, hinit, hletters,
      ← trim_append_cons _ _ hdblank]
    simp
  have hsolid : solid (lexemes ((init ++ letters ++ [d]).dropWhile Text.isBlank)) =
      (significant (front ++ [word])).map Token.toLexeme := by
    have hfront : IsRead ((front ++ [word]) ++ (later ++ rest)) := by
      simpa using hread
    rw [solid_lexemes_dropWhile, ← solid_lexemes_withoutComments hfront none false,
      hinit, hletters]
    simp [withoutComments]
  have hfirst : before = (init ++ letters ++ [d]).dropWhile Text.isBlank := by
    apply eq_of_append_eq_append (p := fun c => !Text.isBlank c) hsplit
    · rw [filter_isBlank_eq before,
        filter_isBlank_eq ((init ++ letters ++ [d]).dropWhile _), hbefore, hsolid]
    · simpa using hlast
    · rw [getLast?_dropWhile_concat _ hdblank]
      simpa using hdblank
  rw [hfirst, List.append_cancel_left_eq] at hsplit
  obtain ⟨digits, more, hafter, hne, hdigits, -⟩ :=
    exists_of_fractionLength_ne_zero hfraction
  obtain ⟨c, digits, rfl⟩ := List.exists_cons_of_ne_nil hne
  obtain ⟨blanks, hblanks⟩ :=
    List.rdropWhile_prefix Text.isBlank (withoutComments (some d) false later)
  rw [← hsplit, hafter] at hblanks
  exact beginsFraction_of_withoutComments hword htrivia hd hblanks.symm
    (hdigits c (List.mem_cons_self ..))

end SqlOutline
