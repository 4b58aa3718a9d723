import SqlOutline.Proofs.Token.Significant
import SqlOutline.Proofs.Token.Solid
import SqlOutline.Proofs.Token.Tiling

/-!
# Texts written one after another

A text is sealed if it is read alike whatever comes after a break behind it. So is
every text that ends in a significant lexeme to which not every character could be
added (`sealed_of_getLast?`).
-/

namespace SqlOutline

/-- Whether any character after the lexeme would belong to it, as to a span that is
not closed. -/
def Lexeme.IsOpen (lexeme : Lexeme) : Prop :=
  ∀ c, Token.lexemes (lexeme.text.toList ++ [c]) =
    [⟨lexeme.kind, String.ofList (lexeme.text.toList ++ [c])⟩]

namespace Token

/-- Whether a break after the text leaves it read as it is alone. -/
def Sealed (cs : List Char) : Prop :=
  ∀ rest : List Char, (∀ c ∈ rest.head?, Text.isBreak c = true) →
    lexemes (cs ++ rest) = lexemes cs ++ lexemes rest

/-! ## Lexemes that something ends -/
private theorem Reader.length_append_singleton {State : Type} {reader : Reader State}
    {state : State} {w : List Char} (h : reader.length state w = w.length)
    (d : Char) :
    reader.length state (w ++ [d]) = w.length ∨
      reader.length state (w ++ [d]) = w.length + 1 := by
  have hnil : reader.length state (w ++ []) = w.length := by rwa [List.append_nil]
  obtain ⟨last, hlast, -⟩ := length_append_eq_iff.1 hnil
  cases hd : reader.next last d with
  | none =>
    left
    exact length_append_eq_iff.2 ⟨last, hlast, by simpa using hd⟩
  | some later =>
    right
    have hwhole : reader.length state ((w ++ [d]) ++ []) = (w ++ [d]).length := by
      apply length_append_eq_iff.2
      refine ⟨later, ?_, by simp⟩
      rw [List.foldlM_append, hlast]
      simpa using hd
    simpa using hwhole

private theorem eq_backquote_of_ofChars {c : Char} {next : Option Char}
    (h : Form.ofChars c next = .backquoted) : c = Lexeme.backquote := by
  rw [Form.ofChars_of_looksAhead (by rw [h]; rfl)] at h
  simp only [Form.ofChars, reduceCtorEq, and_false, if_false] at h
  split_ifs at h
  assumption

def Form.isSpan : Form → Bool
  | .blockComment | .quoted _ | .backquoted | .markedTemplate _ | .bracedTemplate _ =>
    true
  | _ => false

section Open

variable {form : Form} {c : Char} {w : List Char}

/-- A space could be added only to a span: all other forms end before blanks. -/
theorem isSpan_of_length_append (hblanks : form ≠ .blanks)
    (hline : form ≠ .lineComment) (hspace : form.length (w ++ [' ']) = w.length + 1) :
    form.isSpan = true := by
  cases form with
  | blanks => exact absurd rfl hblanks
  | lineComment => exact absurd rfl hline
  | number =>
    have hle : numberLength (w ++ [' ']) ≤ w.length :=
      numberLength_append_cons_le (by decide) w []
    rw [Form.length] at hspace
    omega
  | word =>
    have hle : runLength continuesWord (w ++ [' ']) ≤ w.length :=
      runLength_append_cons_le (by decide) w []
    rw [Form.length] at hspace
    omega
  | operator =>
    have hle : operatorLength (w ++ [' ']) ≤ w.length :=
      operatorLength_append_cons_le (by decide) w []
    rw [Form.length] at hspace
    omega
  | single kind => simp [Form.length] at hspace
  | _ => rfl

theorem ofChars_append_of_isSpan (hform : Form.ofChars c w.head? = form)
    (hspan : form.isSpan = true) (d : Char) :
    Form.ofChars c (w ++ [d]).head? = form := by
  cases w with
  | cons e w => exact hform
  | nil =>
    rw [← hform]
    apply Form.ofChars_of_not_mem_leadPairs
    -- a character that could begin a pair is no mark of a span
    rintro e - hlead
    have hleads : ∀ lead ∈ Form.leadPairs,
        (Form.ofChars lead.1 none).isSpan = false := by
      decide
    rw [← hform, List.head?_nil, hleads (c, e) hlead] at hspan
    exact Bool.noConfusion hspan

theorem isOpen_of_forall (hform : Form.ofChars c w.head? = form)
    (hblanks : form ≠ .blanks) (hline : form ≠ .lineComment)
    (hmore : ∀ d, form.length (w ++ [d]) = w.length + 1) :
    Lexeme.IsOpen ⟨form.kind (c :: w), String.ofList (c :: w)⟩ := by
  intro d
  have hspan := isSpan_of_length_append hblanks hline (hmore ' ')
  have hword : form ≠ .word := by
    rintro rfl
    exact Bool.noConfusion hspan
  have hform' : Form.ofChars c ((w ++ [d]) ++ []).head? = form := by
    rw [List.append_nil]
    exact ofChars_append_of_isSpan hform hspan d
  have hlength' : form.length ((w ++ [d]) ++ []) = (w ++ [d]).length := by
    rw [List.append_nil, hmore d, List.length_append, List.length_singleton]
  have hread := lexemes_cons_append hform' hlength'
  rw [List.append_nil, lexemes_nil, Form.kind_congr hword _ (c :: w)] at hread
  simpa using hread

/-- A significant lexeme to which any character could be added is a span that is never
closed. -/
theorem isUnterminated_of_forall (hform : Form.ofChars c w.head? = form)
    (hblanks : form ≠ .blanks) (hline : form ≠ .lineComment)
    (hblock : form ≠ .blockComment)
    (hmore : ∀ d, form.length (w ++ [d]) = w.length + 1) :
    Lexeme.IsUnterminated ⟨form.kind (c :: w), String.ofList (c :: w)⟩ := by
  have hspan := isSpan_of_length_append hblanks hline (hmore ' ')
  refine ⟨?_, isOpen_of_forall hform hblanks hline hmore⟩
  cases form with
  | blockComment => exact absurd rfl hblock
  | quoted mark => exact Or.inl rfl
  | backquoted =>
    refine Or.inr (Or.inr ⟨rfl, ?_⟩)
    rw [String.toList_ofList, List.head?_cons, eq_backquote_of_ofChars hform]
  | markedTemplate mark => exact Or.inr (Or.inl rfl)
  | bracedTemplate depth => exact Or.inr (Or.inl rfl)
  | _ => exact Bool.noConfusion hspan

end Open

theorem Form.exists_length_append {form : Form} {c : Char} {w : List Char}
    (hform : ofChars c w.head? = form) (hblanks : form ≠ .blanks)
    (hline : form ≠ .lineComment) (h : form.length w = w.length)
    (hmore : ¬ ∀ d, form.length (w ++ [d]) = w.length + 1) :
    ∃ d, form.length (w ++ [d]) = w.length := by
  have hspace : Cut [] [' '] := Cut.stop (Text.isBreak_of_head?_eq rfl (by decide))
  rw [← List.append_nil w] at h
  rcases hasReader_or_eq hform hblanks hline with hreader | rfl | rfl | ⟨kind, rfl⟩
  · obtain ⟨State, reader, start, -, hlength⟩ := hreader
    by_contra hnone
    apply hmore
    intro d
    have hd : reader.length start (w ++ [d]) ≠ w.length := by
      intro heq
      exact hnone ⟨d, (hlength _).trans heq⟩
    rw [hlength]
    exact (Reader.length_append_singleton (by simpa [hlength] using h) d).resolve_left
      hd
  · exact ⟨' ', numberLength_append_of_cut (by simpa [length] using h) hspace⟩
  · exact ⟨' ',
      operatorLength_append_of_cut (by simpa [length] using h) hspace
        fun _ => by decide⟩
  · exact ⟨' ', by simpa [length] using h⟩

/-! ## The seam -/

theorem operatorLength_append {cs rest : List Char} (h : operatorLength cs = 0)
    (hrest : ∀ c ∈ rest.head?, Text.isBreak c = true) :
    operatorLength (cs ++ rest) = 0 := by
  match cs with
  | [] => exact operatorLength_of_head?_isBreak hrest
  | [c] =>
    rw [operatorLength_cons_eq_zero_iff] at h
    apply operatorLength_cons_eq_zero_iff.2
    intro hop
    have hopens := h hop
    simp [opensComment] at hopens
  | c :: d :: cs =>
    rw [operatorLength_cons_eq_zero_iff] at h
    exact operatorLength_cons_eq_zero_iff.2 h

theorem length_append_of_ne_nil {form : Form} {c : Char} {w later rest : List Char}
    (hform : Form.ofChars c (w ++ later).head? = form)
    (h : form.length (w ++ later) = w.length) (hlater : later ≠ [])
    (hrest : ∀ d ∈ rest.head?, Text.isBreak d = true) :
    form.length (w ++ (later ++ rest)) = w.length := by
  have hhead : (later ++ rest).head? = later.head? :=
    List.head?_append_of_ne_nil _ hlater
  by_cases hblanks : form = .blanks
  · subst hblanks
    exact runLength_append_of_head? h hhead
  by_cases hline : form = .lineComment
  · subst hline
    exact runLength_append_of_head? h hhead
  have hcut : Cut later (later ++ rest) := by
    simpa using (Cut.stop hrest : Cut [] rest).append_left later
  apply Form.length_append_of_cut hform hblanks hline h hcut
  · intro hstops
    exact operatorLength_append hstops hrest
  · intro hnil
    exact absurd hnil hlater

theorem lexemes_append_of_ne_nil {form : Form} {c : Char} {w later rest : List Char}
    (hform : Form.ofChars c (w ++ later).head? = form)
    (h : form.length (w ++ later) = w.length) (hlater : later ≠ [])
    (hrest : ∀ d ∈ rest.head?, Text.isBreak d = true) :
    lexemes (c :: (w ++ later) ++ rest) =
      ⟨form.kind (c :: w), String.ofList (c :: w)⟩ :: lexemes (later ++ rest) := by
  have hform' : Form.ofChars c (w ++ (later ++ rest)).head? = form := by
    rw [← hform, ← List.append_assoc, List.head?_append_of_ne_nil]
    exact List.append_ne_nil_of_right_ne_nil w hlater
  rw [List.cons_append, List.append_assoc]
  exact lexemes_cons_append hform' (length_append_of_ne_nil hform h hlater hrest)

theorem lexemes_append_of_ends {form : Form} {c : Char} {w rest : List Char}
    (hform : Form.ofChars c w.head? = form) (hblanks : form ≠ .blanks)
    (hline : form ≠ .lineComment) (h : form.length w = w.length)
    (hmore : ¬ ∀ d, form.length (w ++ [d]) = w.length + 1)
    (hrest : ∀ d ∈ rest.head?, Text.isBreak d = true) :
    lexemes (c :: w ++ rest) =
      ⟨form.kind (c :: w), String.ofList (c :: w)⟩ :: lexemes rest := by
  have hends := Form.exists_length_append hform hblanks hline h hmore
  have hcut : Cut [] rest := Cut.stop hrest
  have hform₀ : Form.ofChars c (w ++ []).head? = form := by rwa [List.append_nil]
  have hlength₀ : form.length (w ++ []) = w.length := by rwa [List.append_nil]
  have hform' := (Form.ofChars_append_of_cut (by rwa [hform₀]) hcut).trans hform₀
  have hlength' : form.length (w ++ rest) = w.length := by
    apply Form.length_append_of_cut hform₀ hblanks hline hlength₀ hcut
    · intro _
      exact operatorLength_of_head?_isBreak hrest
    · intro _
      exact Or.inr hends
  exact lexemes_cons_append hform' hlength'

theorem sealed_of_getLast? {cs : List Char}
    (h : ∀ last ∈ (lexemes cs).getLast?, last.isTrivia = false ∧
      ¬ last.IsUnterminated) : Sealed cs := by
  intro rest hrest
  induction cs using induction_lexemes with
  | nil => simp
  | cons c w later form hform hlength ih =>
    rw [lexemes_cons_append hform hlength] at h ⊢
    by_cases hlater : later = []
    -- the last lexeme ends at the seam
    · subst hlater
      rw [lexemes_nil] at h ⊢
      rw [List.append_nil] at hform hlength ⊢
      obtain ⟨htrivia, hterminated⟩ := h _ rfl
      have hblanks : form ≠ .blanks := by
        rintro rfl
        exact Bool.noConfusion htrivia
      have hline : form ≠ .lineComment := by
        rintro rfl
        exact Bool.noConfusion htrivia
      have hblock : form ≠ .blockComment := by
        rintro rfl
        exact Bool.noConfusion htrivia
      have hmore : ¬ ∀ d, form.length (w ++ [d]) = w.length + 1 := fun hmore =>
        hterminated (isUnterminated_of_forall hform hblanks hline hblock hmore)
      exact lexemes_append_of_ends hform hblanks hline hlength hmore hrest
    · have hne : lexemes later ≠ [] := mt lexemes_eq_nil_iff.1 hlater
      rw [lexemes_append_of_ne_nil hform hlength hlater hrest,
        ih fun last hlast => h last (List.mem_getLast?_cons hlast), List.cons_append]

/-- A character that stands alone is a lexeme whatever follows it. -/
theorem lexemes_cons_of_single {c : Char} {kind : TokenKind} (cs : List Char)
    (hform : Form.ofChars c none = .single kind)
    (hlead : ∀ lead ∈ Form.leadPairs, lead.1 ≠ c) :
    lexemes (c :: cs) = ⟨kind, String.ofList [c]⟩ :: lexemes cs := by
  have hform' : Form.ofChars c ([] ++ cs).head? = .single kind :=
    Form.ofChars_eq_of_alone hform hlead _
  exact lexemes_cons_append hform' rfl

end Token

end SqlOutline
