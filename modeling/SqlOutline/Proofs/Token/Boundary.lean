import SqlOutline.Proofs.Token.Reader
import SqlOutline.Token.Lexer

/-!
# Boundaries of lexemes

What follows a lexeme may change without a change of the lexeme, as long as the new
rest is the old one up to a place where a break or the end comes instead (`Cut`).
Lexemes look up to three characters ahead, so it is not enough that the first
characters agree.

Operators are the one form that ends before a comment without a change of character
class. So where a comment is cut out, an operator needs a fact of its own.
-/

namespace SqlOutline.Token

/-- The second text is the first one up to some place, and there it ends or has a
break. -/
inductive Cut : List Char → List Char → Prop
  | stop {rest rest' : List Char} (h : ∀ c ∈ rest'.head?, Text.isBreak c = true) :
      Cut rest rest'
  | cons {rest rest' : List Char} (c : Char) (h : Cut rest rest') :
      Cut (c :: rest) (c :: rest')

def exponentDigits (cs : List Char) : Nat :=
  runLength Char.isDigit
    (cs.drop (if cs.head? = some '+' ∨ cs.head? = some '-' then 1 else 0))

theorem fractionLength_cons_eq_zero_iff {c : Char} {cs : List Char} :
    fractionLength (c :: cs) = 0 ↔ (c = '.' → runLength Char.isDigit cs = 0) := by
  rw [fractionLength]
  split <;> grind

theorem exponentLength_cons_eq_zero_iff {c : Char} {cs : List Char} :
    exponentLength (c :: cs) = 0 ↔ (c = 'e' ∨ c = 'E' → exponentDigits cs = 0) := by
  rw [exponentLength, exponentDigits]
  split <;> grind

namespace Cut

theorem nil (rest : List Char) : Cut rest [] :=
  stop (by simp)

theorem append_left {rest rest' : List Char} (cs : List Char) (h : Cut rest rest') :
    Cut (cs ++ rest) (cs ++ rest') := by
  induction cs with
  | nil => exact h
  | cons c cs ih => exact ih.cons c

theorem append_right (cs rest : List Char) : Cut (cs ++ rest) cs := by
  simpa using (nil rest).append_left cs

theorem head {rest rest' : List Char} (h : Cut rest rest') :
    ∀ c ∈ rest'.head?, Text.isBreak c = true ∨ c ∈ rest.head? := by
  intro c hc
  cases h with
  | stop hstop => exact Or.inl (hstop c hc)
  | cons d _ =>
    right
    simpa using hc

theorem head_eq {rest rest' : List Char} {c : Char} (h : Cut rest rest')
    (hc : rest'.head? = some c) (hbreak : Text.isBreak c = false) :
    rest.head? = some c := by
  rcases h.head c hc with hcbreak | hcrest
  · simp [hbreak] at hcbreak
  · exact hcrest

theorem runLength_le {p : Char → Bool} (hp : ∀ b, Text.isBreak b = true → p b = false)
    {rest rest' : List Char} (h : Cut rest rest') :
    runLength p rest' ≤ runLength p rest := by
  induction h with
  | @stop rest rest' hstop =>
    cases rest' with
    | nil => exact Nat.zero_le _
    | cons c rest' =>
      have hc := hp c (hstop c rfl)
      simp [runLength, hc]
  | cons c h ih =>
    unfold runLength
    split
    · exact Nat.succ_le_succ ih
    · exact Nat.le_refl _

theorem fractionLength_eq_zero {rest rest' : List Char} (h : Cut rest rest')
    (hrest : fractionLength rest = 0) : fractionLength rest' = 0 := by
  cases h with
  | stop hstop =>
    cases rest' with
    | nil => rfl
    | cons c rest' =>
      apply fractionLength_cons_eq_zero_iff.2
      intro hdot
      exact absurd hdot (Text.ne_of_isBreak (hstop c rfl) (by decide))
  | cons c h =>
    apply fractionLength_cons_eq_zero_iff.2
    intro hdot
    have hzero := fractionLength_cons_eq_zero_iff.1 hrest hdot
    exact Nat.le_zero.1 (hzero ▸ h.runLength_le fun _ => Text.isDigit_of_isBreak)

theorem exponentDigits_le {rest rest' : List Char} (h : Cut rest rest') :
    exponentDigits rest' ≤ exponentDigits rest := by
  cases h with
  | stop hstop =>
    have hsign : ¬ (rest'.head? = some '+' ∨ rest'.head? = some '-') := by
      rintro (hplus | hminus)
      · exact Text.ne_of_isBreak (d := '+') (hstop '+' hplus) (by decide) rfl
      · exact Text.ne_of_isBreak (d := '-') (hstop '-' hminus) (by decide) rfl
    have hnone : runLength Char.isDigit rest' ≤ runLength Char.isDigit [] :=
      (stop hstop).runLength_le fun _ => Text.isDigit_of_isBreak
    rw [exponentDigits, if_neg hsign, List.drop_zero]
    exact hnone.trans (Nat.zero_le _)
  | cons c h =>
    unfold exponentDigits
    rw [List.head?_cons, List.head?_cons]
    by_cases hsign : some c = some '+' ∨ some c = some '-'
    · rw [if_pos hsign]
      exact h.runLength_le fun _ => Text.isDigit_of_isBreak
    · rw [if_neg hsign]
      exact (h.cons c).runLength_le fun _ => Text.isDigit_of_isBreak

theorem exponentLength_eq_zero {rest rest' : List Char} (h : Cut rest rest')
    (hrest : exponentLength rest = 0) : exponentLength rest' = 0 := by
  cases h with
  | stop hstop =>
    cases rest' with
    | nil => rfl
    | cons c rest' =>
      apply exponentLength_cons_eq_zero_iff.2
      intro hmark
      rcases hmark with hsmall | hcapital
      · exact absurd hsmall (Text.ne_of_isBreak (hstop c rfl) (by decide))
      · exact absurd hcapital (Text.ne_of_isBreak (hstop c rfl) (by decide))
  | cons c h =>
    apply exponentLength_cons_eq_zero_iff.2
    intro hmark
    have hzero := exponentLength_cons_eq_zero_iff.1 hrest hmark
    exact Nat.le_zero.1 (hzero ▸ h.exponentDigits_le)

end Cut

/-! ## Numbers -/

/-- A run that ends within `w` or right after it ends there before another rest
too. -/
theorem runLength_append_of_cut {p : Char → Bool}
    (hp : ∀ b, Text.isBreak b = true → p b = false) {w rest rest' : List Char}
    (h : runLength p (w ++ rest) ≤ w.length) (hcut : Cut rest rest') :
    runLength p (w ++ rest') = runLength p (w ++ rest) := by
  induction w with
  | nil =>
    have hle := hcut.runLength_le hp
    have hzero : runLength p rest = 0 := Nat.le_zero.1 h
    rw [List.nil_append, List.nil_append]
    omega
  | cons c w ih =>
    rw [List.cons_append, List.cons_append, runLength, runLength]
    by_cases hc : p c
    · rw [List.cons_append, runLength, if_pos hc, List.length_cons] at h
      rw [if_pos hc, if_pos hc, ih (Nat.le_of_succ_le_succ h)]
    · rw [if_neg hc, if_neg hc]

private theorem fractionLength_append_of_cut {w rest rest' : List Char}
    (h : fractionLength (w ++ rest) ≤ w.length) (hcut : Cut rest rest') :
    fractionLength (w ++ rest') = fractionLength (w ++ rest) := by
  cases w with
  | nil =>
    have hzero : fractionLength rest = 0 := Nat.le_zero.1 h
    rw [List.nil_append, List.nil_append, hzero, hcut.fractionLength_eq_zero hzero]
  | cons c w =>
    by_cases hdot : c = '.'
    · have hdigits : runLength Char.isDigit (w ++ rest) ≤ w.length := by
        rw [List.cons_append, fractionLength, List.length_cons] at h
        split at h <;> grind
      have hsame :=
        runLength_append_of_cut (fun _ => Text.isDigit_of_isBreak) hdigits hcut
      rw [List.cons_append, List.cons_append, fractionLength, fractionLength, hsame]
    · simp [fractionLength, hdot]

private theorem exponentLength_append_of_cut {w rest rest' : List Char}
    (h : exponentLength (w ++ rest) = w.length) (hcut : Cut rest rest') :
    exponentLength (w ++ rest') = w.length := by
  match w with
  | [] => exact hcut.exponentLength_eq_zero h
  -- a mark with no digit after it is not part of the number
  | [c] =>
    rw [List.singleton_append, exponentLength] at h
    split at h <;> grind
  | c :: d :: w =>
    rw [← h, List.cons_append, List.cons_append, List.cons_append, List.cons_append]
    rw [List.cons_append, List.cons_append, exponentLength, List.head?_cons] at h
    rw [exponentLength, exponentLength, List.head?_cons, List.head?_cons]
    by_cases hsign : some d = some '+' ∨ some d = some '-'
    · rw [if_pos hsign, List.drop_one, List.tail_cons] at h
      have hdigits : runLength Char.isDigit (w ++ rest) ≤ w.length := by
        rw [List.length_cons, List.length_cons] at h
        split at h <;> omega
      rw [if_pos hsign, List.drop_one, List.drop_one, List.tail_cons, List.tail_cons,
        runLength_append_of_cut (fun _ => Text.isDigit_of_isBreak) hdigits hcut]
    · rw [if_neg hsign, List.drop_zero] at h
      have hdigits : runLength Char.isDigit (d :: w ++ rest) ≤ (d :: w).length := by
        rw [List.length_cons, List.length_cons] at h
        rw [List.length_cons, List.cons_append]
        split at h <;> omega
      have hsame :=
        runLength_append_of_cut (fun _ => Text.isDigit_of_isBreak) hdigits hcut
      rw [List.cons_append, List.cons_append] at hsame
      rw [if_neg hsign, List.drop_zero, List.drop_zero, hsame]

theorem numberLength_append_of_cut {w rest rest' : List Char}
    (h : numberLength (w ++ rest) = w.length) (hcut : Cut rest rest') :
    numberLength (w ++ rest') = w.length := by
  -- `n` digits, then a fraction of `m` characters, then the exponent: each part lies
  -- within `w`
  rw [numberLength] at h
  have hwhole : runLength Char.isDigit (w ++ rest) ≤ w.length := by omega
  have hwhole' :=
    runLength_append_of_cut (fun _ => Text.isDigit_of_isBreak) hwhole hcut
  generalize hn : runLength Char.isDigit (w ++ rest) = n at h hwhole hwhole'
  rw [List.drop_append_of_le_length hwhole] at h
  have hfraction : fractionLength (w.drop n ++ rest) ≤ (w.drop n).length := by
    rw [List.length_drop]
    omega
  have hfraction' := fractionLength_append_of_cut hfraction hcut
  generalize hm : fractionLength (w.drop n ++ rest) = m at h hfraction hfraction'
  rw [List.length_drop] at hfraction
  rw [List.drop_append_of_le_length (by omega)] at h
  have hexponent : exponentLength (w.drop (n + m) ++ rest) =
      (w.drop (n + m)).length := by
    rw [List.length_drop]
    omega
  have hexponent' := exponentLength_append_of_cut hexponent hcut
  rw [numberLength, hwhole', List.drop_append_of_le_length hwhole, hfraction',
    List.drop_append_of_le_length (by omega), hexponent', ← hexponent]
  exact h

/-- A run ends at a character that does not satisfy its condition. -/
theorem runLength_append_cons_le {p : Char → Bool} {b : Char} (hb : p b = false)
    (u v : List Char) : runLength p (u ++ b :: v) ≤ u.length := by
  induction u with
  | nil => simp [runLength, hb]
  | cons c u ih =>
    rw [List.cons_append, runLength, List.length_cons]
    split <;> omega

private theorem fractionLength_append_cons_le {b : Char} (hb : Text.isBlank b = true)
    (u v : List Char) : fractionLength (u ++ b :: v) ≤ u.length := by
  cases u with
  | nil =>
    refine (fractionLength_cons_eq_zero_iff.2 fun hdot => ?_).le
    exact absurd hdot (Text.ne_of_isBlank hb (by decide))
  | cons c u =>
    have hdigits := runLength_append_cons_le (Text.isDigit_of_isBlank hb) u v
    rw [List.cons_append, fractionLength, List.length_cons]
    split <;> omega

private theorem exponentLength_append_cons_le {b : Char} (hb : Text.isBlank b = true)
    (u v : List Char) : exponentLength (u ++ b :: v) ≤ u.length := by
  have hdigit := Text.isDigit_of_isBlank hb
  match u with
  | [] =>
    refine (exponentLength_cons_eq_zero_iff.2 fun hmark => ?_).le
    rcases hmark with hsmall | hcapital
    · exact absurd hsmall (Text.ne_of_isBlank hb (by decide))
    · exact absurd hcapital (Text.ne_of_isBlank hb (by decide))
  | [c] =>
    have hplus : b ≠ '+' := Text.ne_of_isBlank hb (by decide)
    have hminus : b ≠ '-' := Text.ne_of_isBlank hb (by decide)
    simp [exponentLength, runLength, hplus, hminus, hdigit]
  | c :: d :: u =>
    have hafter := runLength_append_cons_le hdigit u v
    have hfrom := runLength_append_cons_le hdigit (d :: u) v
    rw [List.length_cons] at hfrom
    rw [List.cons_append, exponentLength, List.cons_append, List.head?_cons,
      List.length_cons, List.length_cons]
    by_cases hsign : some d = some '+' ∨ some d = some '-'
    · rw [if_pos hsign, List.drop_one, List.tail_cons]
      split <;> omega
    · rw [if_neg hsign, List.drop_zero, ← List.cons_append]
      split <;> omega

theorem numberLength_append_cons_le {b : Char} (hb : Text.isBlank b = true)
    (u v : List Char) : numberLength (u ++ b :: v) ≤ u.length := by
  have hwhole := runLength_append_cons_le (Text.isDigit_of_isBlank hb) u v
  rw [numberLength]
  generalize runLength Char.isDigit (u ++ b :: v) = n at hwhole ⊢
  rw [List.drop_append_of_le_length hwhole]
  have hfraction := fractionLength_append_cons_le hb (u.drop n) v
  generalize fractionLength (u.drop n ++ b :: v) = m at hfraction ⊢
  rw [List.length_drop] at hfraction
  rw [List.drop_append_of_le_length (by omega)]
  have hexponent := exponentLength_append_cons_le hb (u.drop (n + m)) v
  rw [List.length_drop] at hexponent
  omega

/-! ## Operators -/

theorem operatorLength_cons_eq_zero_iff {c : Char} {cs : List Char} :
    operatorLength (c :: cs) = 0 ↔
      (isOperatorChar c = true → opensComment c cs.head? = true) := by
  rw [operatorLength]
  split <;> simp_all

theorem operatorLength_of_head?_isBreak {cs : List Char}
    (h : ∀ c ∈ cs.head?, Text.isBreak c = true) : operatorLength cs = 0 := by
  cases cs with
  | nil => rfl
  | cons c cs =>
    apply operatorLength_cons_eq_zero_iff.2
    intro hop
    rw [Text.isOperatorChar_of_isBreak (h c rfl)] at hop
    exact Bool.noConfusion hop

theorem exists_of_opensComment {c : Char} {next : Option Char}
    (h : opensComment c next = true) :
    ∃ d, next = some d ∧ Text.isBreak d = false := by
  simp only [opensComment, Bool.or_eq_true, Bool.and_eq_true, beq_iff_eq] at h
  rcases h with ⟨-, hnext⟩ | ⟨-, hnext⟩
  · exact ⟨_, hnext, by decide⟩
  · exact ⟨_, hnext, by decide⟩

/-- An operator is the only lexeme that ends before a comment just because that is
one, so the new rest must not go on with a bare operator character. -/
theorem operatorLength_append_of_cut {w rest rest' : List Char}
    (h : operatorLength (w ++ rest) = w.length) (hcut : Cut rest rest')
    (hstops : operatorLength rest = 0 → operatorLength rest' = 0) :
    operatorLength (w ++ rest') = w.length := by
  induction w with
  | nil => exact hstops h
  | cons c w ih =>
    rw [List.cons_append, operatorLength, List.length_cons] at h
    rw [List.cons_append, operatorLength, List.length_cons]
    split at h
    · next hc =>
      rw [if_pos, ih (by omega)]
      -- only the last character of `w` looks at the rest
      cases w with
      | cons d w => exact hc
      | nil =>
        simp only [List.nil_append, Bool.and_eq_true, Bool.not_eq_true'] at hc ⊢
        refine ⟨hc.1, ?_⟩
        by_contra hopens
        obtain ⟨d, hd, hdbreak⟩ := exists_of_opensComment (by simpa using hopens)
        rw [hd, ← hcut.head_eq hd hdbreak, hc.2] at hopens
        exact hopens rfl
    · omega

theorem operatorLength_append_cons_le {b : Char} (hb : Text.isBlank b = true)
    (u v : List Char) : operatorLength (u ++ b :: v) ≤ u.length := by
  induction u with
  | nil => simp [operatorLength, Text.isOperatorChar_of_isBlank hb]
  | cons c u ih =>
    rw [List.cons_append, operatorLength, List.length_cons]
    split <;> omega

/-! ## Forms -/

namespace Form

/-- Whether the form is recognised by the second character of the lexeme. -/
def looksAhead : Form → Bool
  | .lineComment | .blockComment | .markedTemplate _ | .bracedTemplate _ => true
  | _ => false

def leadPairs : List (Char × Char) :=
  [('-', '-'), ('/', '*'), ('{', '{'), ('{', '#'), ('{', '%'), ('$', '{')]

private theorem looksAhead_of_mem_leadPairs {c d : Char} (h : (c, d) ∈ leadPairs) :
    (ofChars c (some d)).looksAhead = true := by
  have hall : ∀ lead ∈ leadPairs,
      (ofChars lead.1 (some lead.2)).looksAhead = true := by
    decide
  exact hall (c, d) h

theorem ofChars_of_not_mem_leadPairs {c : Char} {next : Option Char}
    (h : ∀ d ∈ next, (c, d) ∉ leadPairs) : ofChars c next = ofChars c none := by
  cases next with
  | none => rfl
  | some d =>
    have hd : (c, d) ∉ leadPairs := h d rfl
    simp only [leadPairs, List.mem_cons, Prod.mk.injEq, List.not_mem_nil, or_false,
      not_or] at hd
    obtain ⟨hline, hblock, hbraces, hhash, hpercent, hdollar⟩ := hd
    simp only [ofChars, Option.some.injEq, hline, hblock, hbraces, hhash, hpercent,
      hdollar, reduceCtorEq, and_false, if_false]

/-- A character that begins no such pair decides the form alone. -/
theorem ofChars_eq_of_alone {c : Char} {form : Form} (hform : ofChars c none = form)
    (hlead : ∀ lead ∈ leadPairs, lead.1 ≠ c) (next : Option Char) :
    ofChars c next = form := by
  rw [← hform]
  apply ofChars_of_not_mem_leadPairs
  intro d _ hmem
  exact hlead (c, d) hmem rfl

theorem ofChars_of_looksAhead {c : Char} {next : Option Char}
    (h : (ofChars c next).looksAhead = false) : ofChars c next = ofChars c none := by
  apply ofChars_of_not_mem_leadPairs
  intro d hd hlead
  rw [hd, looksAhead_of_mem_leadPairs hlead] at h
  exact Bool.noConfusion h

theorem ofChars_of_isBreak (c : Char) {next : Option Char}
    (h : ∀ d ∈ next, Text.isBreak d = true) : ofChars c next = ofChars c none := by
  apply ofChars_of_not_mem_leadPairs
  intro d hd hlead
  have hmarks : ∀ lead ∈ leadPairs, lead.2 ∈ Text.marks := by decide
  exact Text.not_mem_marks_of_isBreak (h d hd) (hmarks (c, d) hlead)

theorem looksAhead_ofChars_none (c : Char) : (ofChars c none).looksAhead = false := by
  simp only [ofChars, reduceCtorEq, and_false, if_false]
  split_ifs <;> rfl

theorem length_pos_of_looksAhead {c : Char} {cs : List Char}
    (h : (ofChars c cs.head?).looksAhead = true) :
    0 < (ofChars c cs.head?).length cs := by
  obtain ⟨d, hd, hlead⟩ : ∃ d ∈ cs.head?, (c, d) ∈ leadPairs := by
    by_contra hnone
    rw [ofChars_of_not_mem_leadPairs fun d hd hlead => hnone ⟨d, hd, hlead⟩,
      looksAhead_ofChars_none] at h
    exact Bool.noConfusion h
  cases cs with
  | nil => simp at hd
  | cons e cs =>
    rw [List.head?_cons, Option.mem_some_iff] at hd
    subst hd
    have hform : ∀ lead ∈ leadPairs,
        ofChars lead.1 (some lead.2) = .lineComment ∧ lead.2 = '-' ∨
        ofChars lead.1 (some lead.2) = .blockComment ∨
        ofChars lead.1 (some lead.2) = .markedTemplate lead.2 ∨
        ofChars lead.1 (some lead.2) = .bracedTemplate 1 ∧ lead.2 = '{' ∨
        ofChars lead.1 (some lead.2) = .bracedTemplate 0 ∧ lead.2 = '{' := by decide
    rw [List.head?_cons]
    rcases hform (c, e) hlead with ⟨hc, rfl⟩ | hc | hc | ⟨hc, rfl⟩ | ⟨hc, rfl⟩ <;>
      rw [hc] <;> simp [length, runLength, lengthAfterPair, bracedLength]

/-- The second character may change to a break or go, unless the form is recognised by
it. -/
theorem ofChars_append_of_cut {c : Char} {w rest rest' : List Char}
    (h : (ofChars c (w ++ rest).head?).length (w ++ rest) = w.length)
    (hcut : Cut rest rest') :
    ofChars c (w ++ rest').head? = ofChars c (w ++ rest).head? := by
  cases w with
  | cons d w => rfl
  | nil =>
    rw [List.nil_append, List.nil_append]
    rw [List.nil_append, List.length_nil] at h
    have hlooks : (ofChars c rest.head?).looksAhead = false := by
      by_contra hlooks
      have hpos := length_pos_of_looksAhead (by simpa using hlooks)
      omega
    cases hhead : rest'.head? with
    | none => rw [ofChars_of_looksAhead hlooks]
    | some d =>
      by_cases hd : Text.isBreak d = true
      · rw [ofChars_of_looksAhead hlooks]
        exact ofChars_of_isBreak c (by simpa using hd)
      · rw [hcut.head_eq hhead (by simpa using hd)]

private theorem mark_of_ofChars_eq_quoted {c mark : Char} {next : Option Char}
    (h : ofChars c next = .quoted mark) : mark ∈ Text.marks := by
  rw [ofChars_of_looksAhead (by rw [h]; rfl)] at h
  simp only [ofChars, reduceCtorEq, and_false, if_false] at h
  split_ifs at h with hblank hquote
  · obtain rfl : c = mark := by simpa using h
    rcases hquote with rfl | rfl <;> decide

/-- All forms but white space and line comments have a reader, or hold no blank. -/
theorem hasReader_or_eq {form : Form} {c : Char} {next : Option Char}
    (hform : ofChars c next = form) (hblanks : form ≠ .blanks)
    (hline : form ≠ .lineComment) :
    form.HasReader ∨ form = .number ∨ form = .operator ∨
      ∃ kind, form = .single kind := by
  cases form with
  | blanks => exact absurd rfl hblanks
  | lineComment => exact absurd rfl hline
  | blockComment => exact Or.inl hasReader_blockComment
  | quoted mark => exact Or.inl (hasReader_quoted (mark_of_ofChars_eq_quoted hform))
  | backquoted => exact Or.inl hasReader_backquoted
  | markedTemplate mark => exact Or.inl (hasReader_markedTemplate mark)
  | bracedTemplate depth => exact Or.inl (hasReader_bracedTemplate depth)
  | number => exact Or.inr (Or.inl rfl)
  | word => exact Or.inl hasReader_word
  | operator => exact Or.inr (Or.inr (Or.inl rfl))
  | single kind => exact Or.inr (Or.inr (Or.inr ⟨kind, rfl⟩))

/-- White space and line comments end at some blanks and go on over others. All other
lexemes stay as they are when the text after them is cut, if only something can end
them. -/
theorem length_append_of_cut {form : Form} {c : Char} {w rest rest' : List Char}
    (hform : ofChars c (w ++ rest).head? = form) (hblanks : form ≠ .blanks)
    (hline : form ≠ .lineComment) (h : form.length (w ++ rest) = w.length)
    (hcut : Cut rest rest')
    (hstops : operatorLength rest = 0 → operatorLength rest' = 0)
    (hend : rest = [] → rest' = [] ∨ ∃ d, form.length (w ++ [d]) = w.length) :
    form.length (w ++ rest') = w.length := by
  rcases hasReader_or_eq hform hblanks hline with hreader | rfl | rfl | ⟨kind, rfl⟩
  · obtain ⟨State, reader, start, hheeds, hlength⟩ := hreader
    rw [hlength] at h ⊢
    refine Reader.length_append_of_head hheeds h ?_ hcut.head
    cases rest with
    | nil => simpa only [hlength] using hend rfl
    | cons d rest =>
      -- the character that ended the lexeme is one that can end it
      right
      obtain ⟨last, hlast, hd⟩ := Reader.length_append_eq_iff.1 h
      exact ⟨d, Reader.length_append_eq_iff.2 ⟨last, hlast, hd⟩⟩
  · exact numberLength_append_of_cut h hcut
  · exact operatorLength_append_of_cut h hcut hstops
  · exact h

/-- Numbers and operators hold no blank, so a lexeme that ends in one is of a form
with a reader. -/
theorem hasReader_of_getLast? {form : Form} {c b : Char} {w rest : List Char}
    (hform : ofChars c (w ++ rest).head? = form) (hblanks : form ≠ .blanks)
    (hline : form ≠ .lineComment) (h : form.length (w ++ rest) = w.length)
    (hb : b ∈ w.getLast?) (hbblank : Text.isBlank b = true) : form.HasReader := by
  obtain ⟨u, rfl⟩ := List.getLast?_eq_some_iff.1 hb
  rw [List.append_assoc, List.singleton_append, List.length_append,
    List.length_singleton] at h
  rcases hasReader_or_eq hform hblanks hline with hreader | rfl | rfl | ⟨kind, rfl⟩
  · exact hreader
  · have hle : numberLength (u ++ b :: rest) ≤ u.length :=
      numberLength_append_cons_le hbblank u rest
    rw [length] at h
    omega
  · have hle : operatorLength (u ++ b :: rest) ≤ u.length :=
      operatorLength_append_cons_le hbblank u rest
    rw [length] at h
    omega
  · simp [length] at h

/-- Apart from white space and line comments, only a lexeme at the end of the text can
end in a blank, and then any character could be added to it. -/
theorem length_append_of_getLast? {form : Form} {c b : Char} {w rest : List Char}
    (hform : ofChars c (w ++ rest).head? = form) (hblanks : form ≠ .blanks)
    (hline : form ≠ .lineComment) (h : form.length (w ++ rest) = w.length)
    (hb : b ∈ w.getLast?) (hbblank : Text.isBlank b = true) :
    rest = [] ∧ ∀ d, form.length (w ++ [d]) = w.length + 1 := by
  obtain ⟨State, reader, start, hheeds, hlength⟩ :=
    hasReader_of_getLast? hform hblanks hline h hb hbblank
  simp only [hlength] at h ⊢
  exact Reader.length_append_of_getLast? hheeds h hb hbblank

end Form

end SqlOutline.Token
