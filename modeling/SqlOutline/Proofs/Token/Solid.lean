import SqlOutline.Proofs.Token.Boundary

/-!
# Lexemes that are no white space

Blanks before, after or in addition to others change only the white space that a text
is read as. The one exception is a span that is never closed: it takes in the blanks
at the end of the text, and loses them with the text (`solid_lexemes_rdropWhile`).
-/

namespace SqlOutline

def Lexeme.trimEnd (lexeme : Lexeme) : Lexeme :=
  ⟨lexeme.kind, String.ofList (lexeme.text.toList.rdropWhile Text.isBlank)⟩

/-- A literal, a name between backquotes or a template that is not closed: any
character after it would belong to it. -/
def Lexeme.IsUnterminated (lexeme : Lexeme) : Prop :=
  (lexeme.kind = .string ∨ lexeme.kind = .template ∨
      lexeme.kind = .identifier ∧ lexeme.text.toList.head? = some backquote) ∧
    ∀ c, Token.lexemes (lexeme.text.toList ++ [c]) =
      [⟨lexeme.kind, String.ofList (lexeme.text.toList ++ [c])⟩]

namespace Token

/-- The lexemes that are no white space. -/
def solid (ls : List Lexeme) : List Lexeme :=
  ls.filter fun lexeme => lexeme.kind != .whitespace

@[simp] theorem solid_nil : solid [] = [] := rfl

theorem solid_cons_of_whitespace {lexeme : Lexeme} (ls : List Lexeme)
    (h : lexeme.kind = .whitespace) : solid (lexeme :: ls) = solid ls := by
  simp [solid, h]

theorem solid_cons {lexeme : Lexeme} (ls : List Lexeme)
    (h : lexeme.kind ≠ .whitespace) : solid (lexeme :: ls) = lexeme :: solid ls := by
  simp [solid, h]

theorem mem_solid {lexeme : Lexeme} {ls : List Lexeme} :
    lexeme ∈ solid ls ↔ lexeme ∈ ls ∧ lexeme.kind ≠ .whitespace := by
  rw [solid, List.mem_filter, bne_iff_ne]

/-! ## The first lexeme of a text -/

/-- The first lexeme is the first character with as many others as its form says. -/
theorem lexemes_cons_append {c : Char} {w rest : List Char} {form : Form}
    (hform : Form.ofChars c (w ++ rest).head? = form)
    (h : form.length (w ++ rest) = w.length) :
    lexemes (c :: (w ++ rest)) =
      ⟨form.kind (c :: w), String.ofList (c :: w)⟩ :: lexemes rest := by
  rw [lexemes]
  simp only [hform, h, List.take_left', List.drop_left']

theorem exists_append_of_cons (c : Char) (cs : List Char) :
    ∃ w rest, cs = w ++ rest ∧ (Form.ofChars c cs.head?).length cs = w.length := by
  generalize hlength : (Form.ofChars c cs.head?).length cs = length
  have hle : length ≤ cs.length := hlength ▸ Form.length_le_length _ cs
  refine ⟨cs.take length, cs.drop length, (List.take_append_drop length cs).symm, ?_⟩
  rw [List.length_take, Nat.min_eq_left hle]

/-- What holds of the empty text, and of a text whenever it holds after the first
lexeme, holds of all texts. -/
theorem induction_lexemes {motive : List Char → Prop} (nil : motive [])
    (cons : ∀ (c : Char) (w rest : List Char) (form : Form),
      Form.ofChars c (w ++ rest).head? = form → form.length (w ++ rest) = w.length →
        motive rest → motive (c :: (w ++ rest)))
    (cs : List Char) : motive cs := by
  match cs with
  | [] => exact nil
  | c :: cs =>
    obtain ⟨w, rest, hcs, hlength⟩ := exists_append_of_cons c cs
    subst hcs
    exact cons c w rest _ rfl hlength (induction_lexemes nil cons rest)
termination_by cs.length
decreasing_by simp only [hcs, List.length_cons, List.length_append]; omega

theorem ofChars_eq_blanks_iff {c : Char} {next : Option Char} :
    Form.ofChars c next = .blanks ↔ Text.isBlank c = true := by
  constructor
  · intro h
    by_contra hblank
    rw [Form.ofChars_of_looksAhead (by rw [h]; rfl)] at h
    simp only [Form.ofChars, hblank, reduceCtorEq, and_false, if_false,
      Bool.false_eq_true] at h
    split_ifs at h
  · intro h
    simp [Form.ofChars, h]

private theorem singleKind_ne_whitespace (c : Char) :
    Form.singleKind c ≠ .whitespace := by
  unfold Form.singleKind
  split_ifs <;> simp

private theorem wordKind_ne_whitespace (w : List Char) :
    Form.wordKind w ≠ .whitespace := by
  unfold Form.wordKind
  split <;> simp

theorem kind_of_ofChars_eq_single {c : Char} {next : Option Char} {kind : TokenKind}
    (h : Form.ofChars c next = .single kind) : kind = Form.singleKind c := by
  rw [Form.ofChars_of_looksAhead (by rw [h]; rfl)] at h
  simp only [Form.ofChars, reduceCtorEq, and_false, if_false] at h
  split_ifs at h
  simpa using h.symm

theorem kind_eq_whitespace_iff {c : Char} {next : Option Char} {form : Form}
    (chars : List Char) (hform : Form.ofChars c next = form) :
    form.kind chars = .whitespace ↔ form = .blanks := by
  cases form with
  | word => simpa [Form.kind] using wordKind_ne_whitespace chars
  | single kind =>
    rw [kind_of_ofChars_eq_single hform]
    simpa [Form.kind] using singleKind_ne_whitespace c
  | _ => simp [Form.kind]

/-! ## Blanks before a text -/

theorem lexemes_cons_of_isBlank {c : Char} (cs : List Char)
    (h : Text.isBlank c = true) :
    lexemes (c :: cs) =
      ⟨.whitespace, String.ofList (c :: cs.takeWhile Text.isBlank)⟩ ::
        lexemes (cs.dropWhile Text.isBlank) := by
  rw [lexemes]
  simp only [ofChars_eq_blanks_iff.2 h, Form.length, Form.kind, take_runLength,
    drop_runLength]

theorem solid_lexemes_cons_of_isBlank {c : Char} (cs : List Char)
    (h : Text.isBlank c = true) : solid (lexemes (c :: cs)) = solid (lexemes cs) := by
  rw [lexemes_cons_of_isBlank cs h, solid_cons_of_whitespace _ rfl]
  cases cs with
  | nil => rfl
  | cons d cs =>
    by_cases hd : Text.isBlank d = true
    · rw [List.dropWhile_cons_of_pos hd, lexemes_cons_of_isBlank cs hd,
        solid_cons_of_whitespace _ rfl]
    · rw [List.dropWhile_cons_of_neg hd]

theorem solid_lexemes_append_of_isBlank {bs : List Char} (cs : List Char)
    (h : ∀ b ∈ bs, Text.isBlank b = true) :
    solid (lexemes (bs ++ cs)) = solid (lexemes cs) := by
  induction bs with
  | nil => rfl
  | cons b bs ih =>
    rw [List.cons_append,
      solid_lexemes_cons_of_isBlank _ (h b (List.mem_cons_self ..))]
    exact ih fun d hd => h d (List.mem_cons_of_mem b hd)

theorem solid_lexemes_dropWhile (cs : List Char) :
    solid (lexemes (cs.dropWhile Text.isBlank)) = solid (lexemes cs) := by
  have hblank : ∀ b ∈ cs.takeWhile Text.isBlank, Text.isBlank b = true :=
    fun b hb => List.mem_takeWhile_imp hb
  conv_rhs => rw [← List.takeWhile_append_dropWhile (p := Text.isBlank) (l := cs)]
  exact (solid_lexemes_append_of_isBlank _ hblank).symm

/-! ## Blanks after a text -/

theorem lexemes_of_isBlank {cs : List Char} (h : ∀ b ∈ cs, Text.isBlank b = true) :
    solid (lexemes cs) = [] := by
  simpa using solid_lexemes_append_of_isBlank [] h

theorem rdropWhile_append (p : Char → Bool) (cs rest : List Char) :
    (cs ++ rest).rdropWhile p =
      if rest.rdropWhile p = [] then cs.rdropWhile p
        else cs ++ rest.rdropWhile p := by
  simp only [List.rdropWhile, List.reverse_append, List.dropWhile_append,
    List.isEmpty_iff, List.reverse_eq_nil_iff]
  split <;> simp

theorem rdropWhile_cons_of_neg {p : Char → Bool} {c : Char} (cs : List Char)
    (h : p c = false) : (c :: cs).rdropWhile p = c :: cs.rdropWhile p := by
  have happend := rdropWhile_append p [c] cs
  have hsingle : [c].rdropWhile p = [c] := by simp [List.rdropWhile_singleton, h]
  rw [List.singleton_append, hsingle] at happend
  rw [happend]
  split
  · next hnil => rw [hnil]
  · rfl

theorem exists_getLast?_of_rdropWhile_ne {p : Char → Bool} {cs : List Char}
    (h : cs.rdropWhile p ≠ cs) : ∃ b ∈ cs.getLast?, p b = true := by
  rw [ne_eq, List.rdropWhile_eq_self_iff] at h
  push Not at h
  obtain ⟨hne, hlast⟩ := h
  exact ⟨cs.getLast hne, List.getLast?_eq_getLast_of_ne_nil hne, hlast⟩

theorem head?_rdropWhile {p : Char → Bool} {cs : List Char}
    (h : cs.rdropWhile p ≠ []) : (cs.rdropWhile p).head? = cs.head? := by
  conv_rhs => rw [← List.rdropWhile_append_rtakeWhile (p := p) (l := cs)]
  rw [List.head?_append_of_ne_nil _ h]

theorem all_of_runLength_append {p : Char → Bool} {w rest : List Char}
    (h : runLength p (w ++ rest) = w.length) : ∀ c ∈ w, p c = true := by
  have hw : w = (w ++ rest).takeWhile p := by
    rw [← take_runLength, h, List.take_left]
  intro c hc
  rw [hw] at hc
  exact List.mem_takeWhile_imp hc

theorem isBlank_of_length_blanks {c : Char} {w rest : List Char}
    (hform : Form.ofChars c (w ++ rest).head? = .blanks)
    (h : Form.blanks.length (w ++ rest) = w.length) :
    ∀ b ∈ c :: w, Text.isBlank b = true := by
  intro b hb
  rcases List.mem_cons.1 hb with rfl | hb
  · exact ofChars_eq_blanks_iff.1 hform
  · exact all_of_runLength_append h b hb

theorem isBlank_of_solid_lexemes_eq_nil {cs : List Char}
    (h : solid (lexemes cs) = []) : ∀ b ∈ cs, Text.isBlank b = true := by
  induction cs using induction_lexemes with
  | nil => simp
  | cons c w rest form hform hlength ih =>
    rw [lexemes_cons_append hform hlength] at h
    by_cases hblanks : form = .blanks
    · rw [solid_cons_of_whitespace _
        ((kind_eq_whitespace_iff _ hform).2 hblanks)] at h
      subst hblanks
      intro b hb
      rw [← List.cons_append, List.mem_append] at hb
      rcases hb with hb | hb
      · exact isBlank_of_length_blanks hform hlength b hb
      · exact ih h b hb
    · rw [solid_cons _ (mt (kind_eq_whitespace_iff _ hform).1 hblanks)] at h
      exact absurd h (List.cons_ne_nil _ _)

/-- A run that ends before a character also ends before another text with the same
head. -/
theorem runLength_append_of_head? {p : Char → Bool} {w rest rest' : List Char}
    (h : runLength p (w ++ rest) = w.length) (hhead : rest'.head? = rest.head?) :
    runLength p (w ++ rest') = w.length := by
  rw [← Reader.length_run] at h ⊢
  obtain ⟨last, hlast, hrest⟩ := Reader.length_append_eq_iff.1 h
  exact Reader.length_append_eq_iff.2 ⟨last, hlast, by rwa [hhead]⟩

theorem runLength_append_of_all {p : Char → Bool} {w rest : List Char}
    (hw : ∀ c ∈ w, p c = true) (hrest : ∀ c ∈ rest.head?, p c = false) :
    runLength p (w ++ rest) = w.length := by
  induction w with
  | nil =>
    cases rest with
    | nil => rfl
    | cons c rest => simp [runLength, hrest c rfl]
  | cons c w ih =>
    have hc := hw c (List.mem_cons_self ..)
    rw [List.cons_append, runLength, if_pos hc,
      ih fun d hd => hw d (List.mem_cons_of_mem c hd), List.length_cons]

/-- A run is all that goes on with it, up to where something does not. -/
theorem runLength_append_eq_iff {p : Char → Bool} {w rest : List Char} :
    runLength p (w ++ rest) = w.length ↔
      (∀ c ∈ w, p c = true) ∧ ∀ c ∈ rest.head?, p c = false := by
  constructor
  · intro h
    refine ⟨all_of_runLength_append h, fun c hc => ?_⟩
    have hdrop := drop_runLength p (w ++ rest)
    rw [h, List.drop_left] at hdrop
    have hstops := List.head?_dropWhile_not p (w ++ rest)
    rw [← hdrop, Option.mem_def.1 hc] at hstops
    exact hstops
  · rintro ⟨hw, hrest⟩
    exact runLength_append_of_all hw hrest

namespace Form

theorem kind_congr {form : Form} (h : form ≠ .word) (chars chars' : List Char) :
    form.kind chars = form.kind chars' := by
  cases form with
  | word => exact absurd rfl h
  | _ => rfl

theorem ne_word_of_getLast? {form : Form} {b : Char} {w rest : List Char}
    (h : form.length (w ++ rest) = w.length) (hb : b ∈ w.getLast?)
    (hbblank : Text.isBlank b = true) : form ≠ .word := by
  rintro rfl
  obtain ⟨u, rfl⟩ := List.getLast?_eq_some_iff.1 hb
  have hle := runLength_append_cons_le (Text.continuesWord_of_isBlank hbblank) u rest
  rw [length, List.append_assoc, List.singleton_append, List.length_append,
    List.length_singleton] at h
  omega

theorem length_rdropWhile {form : Form} {c : Char} {w rest : List Char}
    (hform : ofChars c (w ++ rest).head? = form) (hblanks : form ≠ .blanks)
    (h : form.length (w ++ rest) = w.length) :
    form.length (w.rdropWhile Text.isBlank) = (w.rdropWhile Text.isBlank).length := by
  have hsplit := List.rdropWhile_append_rtakeWhile (p := Text.isBlank) (l := w)
  by_cases hline : form = .lineComment
  · subst hline
    rw [← hsplit] at h
    rw [length, ← Reader.length_run] at h ⊢
    exact Reader.length_of_prefix h
  by_cases hself : w.rdropWhile Text.isBlank = w
  · rw [hself]
    simpa using length_append_of_cut hform hblanks hline h (Cut.nil rest)
      (fun _ => rfl) (fun _ => Or.inl rfl)
  -- blanks were dropped from `w`, so a reader can say what is left of it
  · obtain ⟨b, hb, hbblank⟩ := exists_getLast?_of_rdropWhile_ne hself
    obtain ⟨State, reader, start, -, hlength⟩ :=
      hasReader_of_getLast? hform hblanks hline h hb hbblank
    rw [← hsplit] at h
    rw [hlength] at h ⊢
    exact Reader.length_of_prefix h

theorem kind_rdropWhile {form : Form} {c : Char} {w rest : List Char}
    (h : form.length (w ++ rest) = w.length) :
    form.kind (c :: w.rdropWhile Text.isBlank) = form.kind (c :: w) := by
  by_cases hself : w.rdropWhile Text.isBlank = w
  · rw [hself]
  · obtain ⟨b, hb, hbblank⟩ := exists_getLast?_of_rdropWhile_ne hself
    exact kind_congr (ne_word_of_getLast? h hb hbblank) _ _

theorem ofChars_rdropWhile {c : Char} {w rest : List Char}
    (hrest : ∀ b ∈ rest, Text.isBlank b = true) :
    ofChars c (w.rdropWhile Text.isBlank).head? = ofChars c (w ++ rest).head? := by
  by_cases hnil : w.rdropWhile Text.isBlank = []
  · rw [hnil, List.head?_nil]
    refine (ofChars_of_isBreak c fun d hd => ?_).symm
    rw [List.rdropWhile_eq_nil_iff] at hnil
    apply Text.isBreak_of_isBlank
    rcases List.mem_append.1 (List.mem_of_mem_head? hd) with hw | hrestd
    · exact hnil d hw
    · exact hrest d hrestd
  · have hne : w ≠ [] := by
      rintro rfl
      simp at hnil
    rw [head?_rdropWhile hnil, List.head?_append_of_ne_nil _ hne]

end Form

theorem lexemes_rdropWhile_of_isBlank {form : Form} {c : Char} {w rest : List Char}
    (hform : Form.ofChars c (w ++ rest).head? = form) (hblanks : form ≠ .blanks)
    (h : form.length (w ++ rest) = w.length)
    (hrest : ∀ b ∈ rest, Text.isBlank b = true) :
    lexemes ((c :: w).rdropWhile Text.isBlank) =
      [Lexeme.trimEnd ⟨form.kind (c :: w), String.ofList (c :: w)⟩] := by
  have hc : Text.isBlank c = false := by
    simpa using mt ofChars_eq_blanks_iff.2 (hform ▸ hblanks)
  have hform' := (Form.ofChars_rdropWhile (c := c) (w := w) hrest).trans hform
  have hlength' := Form.length_rdropWhile hform hblanks h
  rw [← List.append_nil (w.rdropWhile _)] at hform' hlength'
  have hread := lexemes_cons_append hform' (by simpa using hlength')
  rw [List.append_nil, lexemes_nil, Form.kind_rdropWhile h] at hread
  rw [rdropWhile_cons_of_neg _ hc, hread, Lexeme.trimEnd, String.toList_ofList,
    rdropWhile_cons_of_neg _ hc]

private theorem operatorLength_rdropWhile {rest : List Char}
    (h : operatorLength rest = 0) :
    operatorLength (rest.rdropWhile Text.isBlank) = 0 := by
  cases rest with
  | nil => rfl
  | cons c cs =>
    by_cases hc : Text.isBlank c = true
    · apply operatorLength_of_head?_isBreak
      intro d hd
      have hne : (c :: cs).rdropWhile Text.isBlank ≠ [] := by
        intro hnil
        simp [hnil] at hd
      rw [head?_rdropWhile hne, List.head?_cons, Option.mem_some_iff] at hd
      rw [← hd]
      exact Text.isBreak_of_isBlank hc
    · rw [rdropWhile_cons_of_neg _ (by simpa using hc)]
      rw [operatorLength_cons_eq_zero_iff] at h ⊢
      intro hop
      obtain ⟨d, hd, hdbreak⟩ := exists_of_opensComment (h hop)
      have hne : cs.rdropWhile Text.isBlank ≠ [] := by
        intro hnil
        have hdblank := List.rdropWhile_eq_nil_iff.1 hnil d (List.mem_of_mem_head? hd)
        rw [Text.isBreak_of_isBlank hdblank] at hdbreak
        exact Bool.noConfusion hdbreak
      rw [head?_rdropWhile hne]
      exact h hop

theorem length_append_rdropWhile {form : Form} {c : Char} {w rest : List Char}
    (hform : Form.ofChars c (w ++ rest).head? = form)
    (h : form.length (w ++ rest) = w.length)
    (hrest : rest.rdropWhile Text.isBlank ≠ []) :
    form.length (w ++ rest.rdropWhile Text.isBlank) = w.length := by
  have hhead := head?_rdropWhile hrest
  have hcut : Cut rest (rest.rdropWhile Text.isBlank) := by
    have hprefix :=
      Cut.append_right (rest.rdropWhile Text.isBlank) (rest.rtakeWhile Text.isBlank)
    rwa [List.rdropWhile_append_rtakeWhile] at hprefix
  by_cases hblanks : form = .blanks
  · subst hblanks
    exact runLength_append_of_head? h hhead
  by_cases hline : form = .lineComment
  · subst hline
    exact runLength_append_of_head? h hhead
  apply Form.length_append_of_cut hform hblanks hline h hcut operatorLength_rdropWhile
  rintro rfl
  exact absurd rfl hrest

/-- Trimming a text at its end trims the last lexeme that is no white space, and
changes no other one. -/
theorem solid_lexemes_rdropWhile {cs : List Char} {ls : List Lexeme} {last : Lexeme}
    (h : solid (lexemes cs) = ls ++ [last]) :
    solid (lexemes (cs.rdropWhile Text.isBlank)) = ls ++ [last.trimEnd] := by
  induction cs using induction_lexemes generalizing ls with
  | nil => simp at h
  | cons c w rest form hform hlength ih =>
    have hkind := kind_eq_whitespace_iff (c :: w) hform
    rw [lexemes_cons_append hform hlength] at h
    rw [← List.cons_append, rdropWhile_append]
    split
    -- the lexeme is trimmed if only blanks follow, and kept as it is otherwise
    · next hrest =>
      rw [List.rdropWhile_eq_nil_iff] at hrest
      by_cases hblanks : form = .blanks
      · rw [solid_cons_of_whitespace _ (hkind.2 hblanks),
          lexemes_of_isBlank hrest] at h
        simp at h
      · rw [solid_cons _ (mt hkind.1 hblanks), lexemes_of_isBlank hrest,
          List.singleton_eq_append_iff] at h
        obtain ⟨rfl, hlast⟩ | ⟨-, hnil⟩ := h
        · rw [lexemes_rdropWhile_of_isBlank hform hblanks hlength hrest,
            (List.cons.inj hlast).1]
          exact solid_cons [] (mt hkind.1 hblanks)
        · simp at hnil
    · next hrest =>
      have hform' :
          Form.ofChars c (w ++ rest.rdropWhile Text.isBlank).head? = form := by
        rw [← hform, List.head?_append, List.head?_append, head?_rdropWhile hrest]
      rw [List.cons_append,
        lexemes_cons_append hform' (length_append_rdropWhile hform hlength hrest)]
      by_cases hblanks : form = .blanks
      · rw [solid_cons_of_whitespace _ (hkind.2 hblanks)] at h ⊢
        exact ih h
      · rw [solid_cons _ (mt hkind.1 hblanks)] at h ⊢
        cases ls with
        | nil =>
          have hnil : solid (lexemes rest) = [] := (List.cons.inj h).2
          have hblank := isBlank_of_solid_lexemes_eq_nil hnil
          exact absurd (List.rdropWhile_eq_nil_iff.2 hblank) hrest
        | cons first ls =>
          obtain ⟨hfirst, htail⟩ := List.cons.inj h
          rw [hfirst, ih htail, List.cons_append]

end Token

end SqlOutline
