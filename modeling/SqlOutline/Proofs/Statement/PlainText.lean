import SqlOutline.Proofs.Script.Parts
import SqlOutline.Proofs.Token.Seam

/-!
# Reading a statement again from its plain text

Leaving out the comments of a statement and trimming it changes none of its
significant tokens: the plain text is read as the same lexemes again.

The tokens of a statement are known by one equation (`IsRead`): reading their text
gives them back. The proof goes along the tokens. What follows a token in the plain
text is what followed it in the statement up to the first comment, and there it ends
or has a blank (`cut_withoutComments`), so no token can run into another one.
-/

namespace SqlOutline

open Token

/-- Reading the text of the tokens gives their lexemes back. -/
def IsRead (tokens : List Token) : Prop :=
  lexemes (textOf tokens).toList = tokens.map Token.toLexeme

theorem isRead_tokenize (text : String) : IsRead (tokenize text) := by
  rw [IsRead, textOf_tokenize, map_toLexeme_tokenize]

/-- The first of some tokens that are read is a character with as many others as its
form says, and the later ones are read from what follows. -/
theorem IsRead.exists_form {token : Token} {tokens : List Token}
    (h : IsRead (token :: tokens)) :
    ∃ (c : Char) (w : List Char) (form : Form), token.text.toList = c :: w ∧
      Form.ofChars c (w ++ (textOf tokens).toList).head? = form ∧
      form.length (w ++ (textOf tokens).toList) = w.length ∧
      token.kind = form.kind (c :: w) ∧ IsRead tokens := by
  rw [IsRead, List.map_cons] at h
  cases hchars : (textOf (token :: tokens)).toList with
  | nil =>
    rw [hchars, lexemes_nil] at h
    simp at h
  | cons c cs =>
    obtain ⟨w, rest, rfl, hlength⟩ := exists_append_of_cons c cs
    rw [hchars, lexemes_cons_append rfl hlength] at h
    obtain ⟨hfirst, hrest⟩ := List.cons.inj h
    have htext : token.text.toList = c :: w := by rw [← hfirst, String.toList_ofList]
    rw [textOf_cons, String.toList_append, htext, List.cons_append] at hchars
    have hafter := List.append_cancel_left (List.cons.inj hchars).2
    rw [← hafter] at hrest hlength
    exact ⟨c, w, _, htext, rfl, hlength, by rw [← hfirst, hafter], hrest⟩

theorem IsRead.tail {token : Token} {tokens : List Token}
    (h : IsRead (token :: tokens)) : IsRead tokens := by
  obtain ⟨-, -, -, -, -, -, -, hrest⟩ := h.exists_form
  exact hrest

theorem IsRead.of_append {before after : List Token} (h : IsRead (before ++ after)) :
    IsRead after := by
  induction before with
  | nil => exact h
  | cons token before ih => exact ih h.tail

theorem IsRead.eq_nil {tokens : List Token} (h : IsRead tokens)
    (hempty : (textOf tokens).toList = []) : tokens = [] := by
  rw [IsRead, hempty, lexemes_nil] at h
  exact List.map_eq_nil_iff.1 h.symm

/-! ## Text without comments -/

def gapBefore (last : Option Char) (skipped : Bool) (token : Token) : List Char :=
  if skipped && token.kind != .whitespace && last.any (!Text.isBlank ·) then [' ']
  else []

theorem withoutComments_cons_of_isComment (last : Option Char) (skipped : Bool)
    {token : Token} (tokens : List Token) (h : token.isComment = true) :
    withoutComments last skipped (token :: tokens) =
      withoutComments last true tokens := by
  simp [withoutComments, h]

theorem withoutComments_cons (last : Option Char) (skipped : Bool) {token : Token}
    (tokens : List Token) (h : token.isComment = false) {d : Char}
    (hd : token.text.toList.getLast? = some d) :
    withoutComments last skipped (token :: tokens) =
      gapBefore last skipped token ++
        (token.text.toList ++ withoutComments (some d) false tokens) := by
  rw [withoutComments, gapBefore, h]
  simp only [Bool.false_eq_true, if_false]
  split
  · rw [List.getLast?_cons, hd, List.cons_append]
    rfl
  · rw [hd, List.nil_append]
    rfl

private theorem isBlank_of_mem_gapBefore {last : Option Char} {skipped : Bool}
    {token : Token} {b : Char} (h : b ∈ gapBefore last skipped token) :
    Text.isBlank b = true := by
  rw [gapBefore] at h
  split at h
  · rw [List.mem_singleton.1 h]
    decide
  · simp at h

@[simp] theorem gapBefore_false (last : Option Char) (token : Token) :
    gapBefore last false token = [] := by
  simp [gapBefore]

private theorem gapBefore_true {c : Char} {token : Token}
    (hc : Text.isBlank c = false) (htoken : token.kind ≠ .whitespace) :
    gapBefore (some c) true token = [' '] := by
  simp [gapBefore, hc, htoken]

private theorem gapBefore_of_whitespace (last : Option Char) (skipped : Bool)
    {token : Token} (htoken : token.kind = .whitespace) :
    gapBefore last skipped token = [] := by
  simp [gapBefore, htoken]

theorem exists_getLast?_of_eq_cons {c : Char} {w : List Char} {token : Token}
    (h : token.text.toList = c :: w) : ∃ d, token.text.toList.getLast? = some d := by
  rw [h, List.getLast?_cons]
  exact ⟨_, rfl⟩

theorem IsRead.isBlank_of_whitespace {token : Token} {tokens : List Token}
    (h : IsRead (token :: tokens)) (hkind : token.kind = .whitespace) :
    ∀ b ∈ token.text.toList, Text.isBlank b = true := by
  obtain ⟨c, w, form, htext, hform, hlength, hkindEq, -⟩ := h.exists_form
  have hblanks := (kind_eq_whitespace_iff (c :: w) hform).1 (hkindEq ▸ hkind)
  subst hblanks
  rw [htext]
  exact isBlank_of_length_blanks hform hlength

theorem isComment_kind_iff {form : Form} (chars : List Char) (c : Char)
    {next : Option Char} (hform : Form.ofChars c next = form) :
    (form.kind chars).isComment = true ↔
      form = .lineComment ∨ form = .blockComment := by
  cases form with
  | word =>
    simp only [Form.kind, Form.wordKind, reduceCtorEq, or_self, iff_false]
    split <;> simp [TokenKind.isComment]
  | single kind =>
    rw [kind_of_ofChars_eq_single hform]
    simp only [Form.kind, Form.singleKind, reduceCtorEq, or_self, iff_false]
    split_ifs <;> simp [TokenKind.isComment]
  | _ => simp [Form.kind, TokenKind.isComment]

theorem isComment_of_opensComment {c : Char} {next : Option Char}
    (h : opensComment c next = true) :
    Form.ofChars c next = .lineComment ∨ Form.ofChars c next = .blockComment := by
  simp only [opensComment, Bool.or_eq_true, Bool.and_eq_true, beq_iff_eq] at h
  rcases h with ⟨rfl, rfl⟩ | ⟨rfl, rfl⟩
  · exact Or.inl (by decide)
  · exact Or.inr (by decide)

private theorem ne_of_isTrivia {token : Token} {form : Form} {c : Char}
    {next : Option Char} {chars : List Char} (hform : Form.ofChars c next = form)
    (hkind : token.kind = form.kind chars) (htoken : token.isTrivia = false) :
    form ≠ .blanks ∧ form ≠ .lineComment ∧ form ≠ .blockComment := by
  obtain ⟨hblank, hcomment⟩ := Lexeme.isTrivia_eq_false_iff.1 htoken
  rw [hkind, ne_eq, kind_eq_whitespace_iff chars hform] at hblank
  rw [Lexeme.isComment, hkind, ← Bool.not_eq_true, isComment_kind_iff chars c hform,
    not_or] at hcomment
  exact ⟨hblank, hcomment⟩

theorem IsRead.isBlank_of_getLast? {token : Token} {tokens : List Token}
    (h : IsRead (token :: tokens)) (htoken : token.isTrivia = false)
    (htokens : tokens ≠ []) {d : Char} (hd : token.text.toList.getLast? = some d) :
    Text.isBlank d = false := by
  obtain ⟨c, w, form, htext, hform, hlength, hkind, hrest⟩ := h.exists_form
  obtain ⟨hblanks, hline, -⟩ := ne_of_isTrivia hform hkind htoken
  by_contra hdblank
  rw [Bool.not_eq_false] at hdblank
  cases hw : w.getLast? with
  | none =>
    rw [List.getLast?_eq_none_iff] at hw
    rw [htext, hw, List.getLast?_singleton, Option.some_inj] at hd
    rw [← hd] at hdblank
    exact hblanks (hform ▸ ofChars_eq_blanks_iff.2 hdblank)
  | some e =>
    rw [htext, List.getLast?_cons, hw, Option.getD_some, Option.some_inj] at hd
    rw [← hd] at hdblank
    have hnil :=
      (Form.length_append_of_getLast? hform hblanks hline hlength hw hdblank).1
    exact htokens (hrest.eq_nil hnil)

/-! ## What follows a token in the plain text -/

/-- A blank, if anything, follows where a comment was left out, and white space starts
with one. -/
theorem isBlank_of_head?_withoutComments {tokens later : List Token}
    (h : IsRead (tokens ++ later)) {c : Char} (hc : Text.isBlank c = false) :
    ∀ b ∈ (withoutComments (some c) true tokens).head?, Text.isBlank b = true := by
  induction tokens with
  | nil => simp [withoutComments]
  | cons token tokens ih =>
    by_cases hcomment : token.isComment = true
    · rw [withoutComments_cons_of_isComment _ _ tokens hcomment]
      exact ih h.tail
    · obtain ⟨d, w, form, htext, -⟩ := h.exists_form
      obtain ⟨e, he⟩ := exists_getLast?_of_eq_cons htext
      rw [withoutComments_cons _ _ tokens (by simpa using hcomment) he]
      by_cases hkind : token.kind = .whitespace
      · rw [gapBefore_of_whitespace _ _ hkind, htext]
        have hblank := h.isBlank_of_whitespace hkind d (htext ▸ List.mem_cons_self ..)
        simpa using hblank
      · rw [gapBefore_true hc hkind]
        simp [show Text.isBlank ' ' = true by decide]

/-- What follows a significant token in the plain text is what followed it in the
statement, up to a comment or to white space. -/
private theorem cut_withoutComments {token : Token} {tokens later : List Token}
    (h : IsRead (token :: (tokens ++ later))) (htoken : token.isTrivia = false)
    {d : Char} (hd : token.text.toList.getLast? = some d) :
    Cut (textOf (tokens ++ later)).toList
      (withoutComments (some d) false tokens) := by
  induction tokens generalizing token d with
  | nil => exact Cut.nil _
  | cons next tokens ih =>
    have hdblank := h.isBlank_of_getLast? htoken (List.cons_ne_nil _ _) hd
    obtain ⟨c, w, form, htext, -⟩ := h.tail.exists_form
    obtain ⟨e, he⟩ := exists_getLast?_of_eq_cons htext
    by_cases hcomment : next.isComment = true
    -- the comment is left out, and a space stands for it if anything follows
    · rw [withoutComments_cons_of_isComment _ _ tokens hcomment]
      exact Cut.stop fun b hb => Text.isBreak_of_isBlank
        (isBlank_of_head?_withoutComments h.tail.tail hdblank b hb)
    rw [withoutComments_cons _ _ tokens (by simpa using hcomment) he, gapBefore_false,
      List.nil_append]
    by_cases hkind : next.kind = .whitespace
    · have hblank :=
        h.tail.isBlank_of_whitespace hkind c (htext ▸ List.mem_cons_self ..)
      rw [htext]
      exact Cut.stop (by simpa using Text.isBreak_of_isBlank hblank)
    -- the next token is the same in both texts, so only what follows it can differ
    · have hnext := Lexeme.isTrivia_eq_false_iff.2 ⟨hkind, by simpa using hcomment⟩
      rw [List.cons_append, textOf_cons, String.toList_append]
      exact (ih h.tail hnext he).append_left _

private theorem operatorLength_withoutComments {token : Token}
    {tokens later : List Token} (h : IsRead (token :: (tokens ++ later)))
    (htoken : token.isTrivia = false) {d : Char}
    (hd : token.text.toList.getLast? = some d)
    (hstops : operatorLength (textOf (tokens ++ later)).toList = 0) :
    operatorLength (withoutComments (some d) false tokens) = 0 := by
  cases tokens with
  | nil => rfl
  | cons next tokens =>
    have hnext : IsRead (next :: (tokens ++ later)) := h.tail
    obtain ⟨c, w, form, htext, hform, hlength, hkind, -⟩ := hnext.exists_form
    obtain ⟨e, he⟩ := exists_getLast?_of_eq_cons htext
    by_cases hcomment : next.isComment = true
    · rw [withoutComments_cons_of_isComment _ _ tokens hcomment]
      have hdblank := h.isBlank_of_getLast? htoken (List.cons_ne_nil _ _) hd
      exact operatorLength_of_head?_isBreak fun b hb => Text.isBreak_of_isBlank
        (isBlank_of_head?_withoutComments hnext.tail hdblank b hb)
    rw [withoutComments_cons _ _ tokens (by simpa using hcomment) he, gapBefore_false,
      List.nil_append, htext, List.cons_append]
    rw [List.cons_append, textOf_cons, String.toList_append, htext, List.cons_append,
      operatorLength_cons_eq_zero_iff] at hstops
    apply operatorLength_cons_eq_zero_iff.2
    intro hop
    have hopens := isComment_of_opensComment (hstops hop)
    rw [hform, ← isComment_kind_iff (c :: w) c hform, ← hkind] at hopens
    exact absurd hopens hcomment

/-! ## Reading the plain text -/

/-- Leaving out the comments changes no significant token. -/
theorem solid_lexemes_withoutComments {tokens later : List Token}
    (h : IsRead (tokens ++ later)) (last : Option Char) (skipped : Bool) :
    solid (lexemes (withoutComments last skipped tokens)) =
      (significant tokens).map Token.toLexeme := by
  -- what was written before a token decides only about blanks, so `last` and
  -- `skipped` are free
  induction tokens generalizing last skipped with
  | nil => simp [withoutComments]
  | cons token tokens ih =>
    have htoken : IsRead (token :: (tokens ++ later)) := h
    obtain ⟨c, w, form, htext, hform, hlength, hkind, -⟩ := htoken.exists_form
    obtain ⟨d, hd⟩ := exists_getLast?_of_eq_cons htext
    by_cases hcomment : token.isComment = true
    · rw [withoutComments_cons_of_isComment _ _ tokens hcomment,
        significant_cons_of_isTrivia _ (Lexeme.isTrivia_of_isComment hcomment)]
      exact ih htoken.tail _ _
    rw [Bool.not_eq_true] at hcomment
    rw [withoutComments_cons _ _ tokens hcomment hd,
      solid_lexemes_append_of_isBlank _ fun b => isBlank_of_mem_gapBefore]
    by_cases hblank : token.kind = .whitespace
    · rw [solid_lexemes_append_of_isBlank _ (htoken.isBlank_of_whitespace hblank),
        significant_cons_of_isTrivia _ (Lexeme.isTrivia_of_whitespace hblank)]
      exact ih htoken.tail _ _
    · have htrivia := Lexeme.isTrivia_eq_false_iff.2 ⟨hblank, hcomment⟩
      have hcut := cut_withoutComments htoken htrivia hd
      have hstops := operatorLength_withoutComments htoken htrivia hd
      have hform' := (Form.ofChars_append_of_cut (by rwa [hform]) hcut).trans hform
      have hlength' :
          form.length (w ++ withoutComments (some d) false tokens) = w.length := by
        obtain ⟨hblanks, hline, -⟩ := ne_of_isTrivia hform hkind htrivia
        apply Form.length_append_of_cut hform hblanks hline hlength hcut hstops
        intro hend
        have hnil := htoken.tail.eq_nil hend
        rw [(List.append_eq_nil_iff.1 hnil).1]
        exact Or.inl rfl
      have hlexeme : token.toLexeme =
          ⟨form.kind (c :: w), String.ofList (c :: w)⟩ := by
        rw [← hkind, ← htext, String.ofList_toList]
      rw [htext, List.cons_append, lexemes_cons_append hform' hlength', ← hlexeme,
        solid_cons _ hblank, significant_cons _ htrivia, List.map_cons,
        ih htoken.tail]

/-! ## Lexemes that end in a blank -/

private theorem isUnterminated_of_getLast? {form : Form} {c b : Char}
    {w rest : List Char} (hform : Form.ofChars c (w ++ rest).head? = form)
    (hlength : form.length (w ++ rest) = w.length) (hblanks : form ≠ .blanks)
    (hline : form ≠ .lineComment) (hblock : form ≠ .blockComment)
    (hb : b ∈ w.getLast?) (hbblank : Text.isBlank b = true) :
    Lexeme.IsUnterminated ⟨form.kind (c :: w), String.ofList (c :: w)⟩ := by
  obtain ⟨rfl, hmore⟩ :=
    Form.length_append_of_getLast? hform hblanks hline hlength hb hbblank
  rw [List.append_nil] at hform
  exact isUnterminated_of_forall hform hblanks hline hblock hmore

/-- The only significant tokens that end in a blank are spans that were never
closed. -/
theorem IsRead.isUnterminated {token : Token} {tokens : List Token}
    (h : IsRead (token :: tokens)) (htoken : token.isTrivia = false)
    (htrim : token.toLexeme.trimEnd ≠ token.toLexeme) :
    token.toLexeme.IsUnterminated := by
  obtain ⟨c, w, form, htext, hform, hlength, hkind, -⟩ := h.exists_form
  obtain ⟨hblanks, hline, hblock⟩ := ne_of_isTrivia hform hkind htoken
  have hlexeme : token.toLexeme = ⟨form.kind (c :: w), String.ofList (c :: w)⟩ := by
    rw [← hkind, ← htext, String.ofList_toList]
  have hc : Text.isBlank c = false := by
    simpa using mt ofChars_eq_blanks_iff.2 (hform ▸ hblanks)
  have hw : w.rdropWhile Text.isBlank ≠ w := by
    intro hself
    apply htrim
    rw [hlexeme, Lexeme.trimEnd, String.toList_ofList, rdropWhile_cons_of_neg _ hc,
      hself]
  obtain ⟨b, hb, hbblank⟩ := exists_getLast?_of_rdropWhile_ne hw
  rw [hlexeme]
  exact isUnterminated_of_getLast? hform hlength hblanks hline hblock hb hbblank

namespace Statement

theorem toList_plainText (statement : Statement) :
    statement.plainText.toList =
      ((withoutComments none false statement.tokens).dropWhile
        Text.isBlank).rdropWhile Text.isBlank := by
  rw [plainText, Text.toList_trim, String.toList_ofList, Text.trimBlanks_eq]

theorem map_toLexeme_filter_tokenize (text : String) :
    ((tokenize text).filter fun token => token.kind != .whitespace).map
        Token.toLexeme =
      solid (lexemes text.toList) := by
  rw [solid, ← map_toLexeme_tokenize, List.filter_map]
  rfl

theorem isComment_of_mem_tokenize {text : String} {token : Token}
    (htoken : token ∈ tokenize text)
    (hsolid : ∀ lexeme ∈ solid (lexemes text.toList), lexeme.isComment = false) :
    token.isComment = false := by
  by_cases hblank : token.kind = .whitespace
  · rw [Lexeme.isComment, hblank]
    rfl
  · apply hsolid token.toLexeme
    rw [← map_toLexeme_filter_tokenize]
    exact List.mem_map_of_mem (List.mem_filter.2 ⟨htoken, by simpa using hblank⟩)

/-- Read again, the plain text of a statement has no comments, and its other lexemes
are the significant ones of the statement. Only the last of them may lose blanks at
its end, and only if it was never closed. -/
theorem tokenize_plainText {text : String} {statement : Statement}
    (h : statement ∈ Script.statements text) :
    (∀ token ∈ tokenize statement.plainText, token.isComment = false) ∧
      ∃ init last,
        (significant statement.tokens).map Token.toLexeme = init ++ [last] ∧
        ((tokenize statement.plainText).filter fun token =>
            token.kind != .whitespace).map Token.toLexeme =
          init ++ [last.trimEnd] ∧
        (last.trimEnd ≠ last → last.IsUnterminated) := by
  obtain ⟨before, later, htext⟩ := Script.isInfix_of_mem_statements h
  have hread : IsRead (statement.tokens ++ later) := by
    have hwhole := isRead_tokenize text
    rw [← htext, List.append_assoc] at hwhole
    exact hwhole.of_append
  have hne := Script.significant_ne_nil_of_mem_parts
    (Script.tokens_mem_parts_of_mem_statements h)
  obtain ⟨init, last, hsplit⟩ := (List.eq_nil_or_concat' _).resolve_left hne
  have hsolid : solid (lexemes statement.plainText.toList) =
      init.map Token.toLexeme ++ [last.toLexeme.trimEnd] := by
    rw [toList_plainText]
    apply solid_lexemes_rdropWhile
    rw [solid_lexemes_dropWhile, solid_lexemes_withoutComments hread, hsplit,
      List.map_append]
    rfl
  have hmem : ∀ token ∈ init ++ [last], token ∈ statement.tokens ∧
      token.isTrivia = false := by
    intro token htoken
    rwa [← hsplit, mem_significant] at htoken
  obtain ⟨hlast, hlastTrivia⟩ := hmem last (by simp)
  refine ⟨fun token htoken => ?_, init.map Token.toLexeme, last.toLexeme, ?_, ?_, ?_⟩
  · apply isComment_of_mem_tokenize htoken
    intro lexeme hlexeme
    rw [hsolid, List.mem_append, List.mem_map, List.mem_singleton] at hlexeme
    rcases hlexeme with ⟨other, hother, rfl⟩ | rfl
    · have hotherTrivia := (hmem other (List.mem_append_left _ hother)).2
      exact (Lexeme.isTrivia_eq_false_iff.1 hotherTrivia).2
    · exact (Lexeme.isTrivia_eq_false_iff.1 hlastTrivia).2
  · rw [hsplit, List.map_append]
    rfl
  · rw [map_toLexeme_filter_tokenize, hsolid]
  · obtain ⟨earlier, after, hstatement⟩ := List.append_of_mem hlast
    rw [hstatement, List.append_assoc, List.cons_append] at hread
    exact hread.of_append.isUnterminated hlastTrivia

def openScript : String := "select 1/*a*/.5, -/*b*/-2, 'c "

theorem tokenize_plainText_openScript :
    ∃ statement ∈ Script.statements openScript,
      statement.plainText = "select 1 .5, - -2, 'c" ∧
      (∀ token ∈ tokenize statement.plainText, token.isComment = false) ∧
      ∃ init last,
        (significant statement.tokens).map Token.toLexeme = init ++ [last] ∧
        ((tokenize statement.plainText).filter fun token =>
            token.kind != .whitespace).map Token.toLexeme =
          init ++ [last.trimEnd] ∧
        (last.trimEnd ≠ last → last.IsUnterminated) := by
  have hparts : Script.parts (tokenize openScript) = [tokenize openScript] := by
    decide +kernel
  have hmem : ofTokens (tokenize openScript) ∈ Script.statements openScript := by
    rw [Script.statements, Script.ofTokens, hparts]
    exact List.mem_singleton_self _
  exact ⟨_, hmem, by decide +kernel, tokenize_plainText hmem⟩

end Statement

end SqlOutline
