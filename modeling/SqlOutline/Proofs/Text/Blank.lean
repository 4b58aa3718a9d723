import Mathlib.Data.List.DropRight
import SqlOutline.Text.Blank
import SqlOutline.Token.Form

/-!
# What is no blank

The blanks are so few that a fact about all of them is checked one by one. No blank is
part of a word, a number, an operator or a closing mark. The same holds of `;` and of
`)`, which with the blanks are the breaks: they end whatever any character ends.
-/

namespace SqlOutline.Text

def codesOf (ranges : List CodeRange) : List Nat :=
  ranges.flatMap fun range => List.range' range.1 (range.2 + 1 - range.1)

private theorem mem_codesOf {ranges : List CodeRange} {c : Char}
    (h : inRanges ranges c = true) : c.toNat ∈ codesOf ranges := by
  obtain ⟨range, hrange, hlow, hhigh⟩ := (inRanges_eq_true_iff ranges c).1 h
  rw [codesOf, List.mem_flatMap]
  refine ⟨range, hrange, ?_⟩
  rw [List.mem_range'_1]
  omega

theorem of_isBlank {p : Char → Bool}
    (hcodes : ((codesOf blankRanges).all fun code => p (Char.ofNat code)) = true)
    {c : Char} (h : isBlank c = true) : p c = true := by
  have hc := List.all_eq_true.1 hcodes c.toNat (mem_codesOf h)
  rwa [Char.ofNat_toNat] at hc

theorem continuesWord_of_isBlank {c : Char} (h : isBlank c = true) :
    Token.continuesWord c = false := by
  simpa using of_isBlank (p := fun c => !Token.continuesWord c) (by decide +kernel) h

theorem isDigit_of_isBlank {c : Char} (h : isBlank c = true) : c.isDigit = false := by
  simpa using of_isBlank (p := fun c => !c.isDigit) (by decide +kernel) h

theorem isOperatorChar_of_isBlank {c : Char} (h : isBlank c = true) :
    Token.isOperatorChar c = false := by
  simpa using of_isBlank (p := fun c => !Token.isOperatorChar c) (by decide +kernel) h

/-- The characters that a form is recognised or closed by. -/
def marks : List Char :=
  ['-', '/', '*', '{', '}', '#', '%', '$', '.', 'e', 'E', '+', Token.singleQuote,
    Token.doubleQuote, Lexeme.backquote]

private theorem not_mem_marks_of_isBlank {c : Char} (h : isBlank c = true) :
    c ∉ marks := by
  simpa using of_isBlank (p := fun c => decide (c ∉ marks)) (by decide +kernel) h

theorem ne_of_isBlank {c d : Char} (h : isBlank c = true) (hd : d ∈ marks) :
    c ≠ d := by
  rintro rfl
  exact not_mem_marks_of_isBlank h hd

/-! ## Breaks -/

/-- The blanks, `;` and `)`. -/
def isBreak (c : Char) : Bool :=
  isBlank c || c == ';' || c == ')'

theorem isBreak_of_isBlank {c : Char} (h : isBlank c = true) : isBreak c = true := by
  rw [isBreak, h, Bool.true_or, Bool.true_or]

theorem isBreak_of_head?_eq {cs : List Char} {c : Char} (hcs : cs.head? = some c)
    (hc : isBreak c = true) : ∀ d ∈ cs.head?, isBreak d = true := by
  intro d hd
  rw [hcs, Option.mem_some_iff] at hd
  rwa [← hd]

theorem of_isBreak {p : Char → Prop} (hblank : ∀ c, isBlank c = true → p c)
    (hsemicolon : p ';') (hclose : p ')') {c : Char} (h : isBreak c = true) :
    p c := by
  simp only [isBreak, Bool.or_eq_true, beq_iff_eq] at h
  rcases h with (h | rfl) | rfl
  · exact hblank c h
  · exact hsemicolon
  · exact hclose

theorem continuesWord_of_isBreak {c : Char} (h : isBreak c = true) :
    Token.continuesWord c = false :=
  of_isBreak (fun _ => continuesWord_of_isBlank) (by decide) (by decide) h

theorem isDigit_of_isBreak {c : Char} (h : isBreak c = true) : c.isDigit = false :=
  of_isBreak (fun _ => isDigit_of_isBlank) (by decide) (by decide) h

theorem isOperatorChar_of_isBreak {c : Char} (h : isBreak c = true) :
    Token.isOperatorChar c = false :=
  of_isBreak (fun _ => isOperatorChar_of_isBlank) (by decide) (by decide) h

theorem not_mem_marks_of_isBreak {c : Char} (h : isBreak c = true) : c ∉ marks :=
  of_isBreak (fun _ => not_mem_marks_of_isBlank) (by decide) (by decide) h

theorem ne_of_isBreak {c d : Char} (h : isBreak c = true) (hd : d ∈ marks) :
    c ≠ d := by
  rintro rfl
  exact not_mem_marks_of_isBreak h hd

/-! ## Trimming -/

/-- No blanks are skipped before a text that begins with none. -/
theorem takeWhile_isBlank_eq_nil {cs : List Char}
    (h : ∀ c ∈ cs.head?, isBlank c = false) :
    cs.takeWhile isBlank = [] ∧ cs.dropWhile isBlank = cs := by
  cases cs with
  | nil => exact ⟨rfl, rfl⟩
  | cons c cs =>
    have hc : isBlank c = false := h c rfl
    exact ⟨List.takeWhile_cons_of_neg (by simp [hc]),
      List.dropWhile_cons_of_neg (by simp [hc])⟩

theorem trimBlanks_eq (cs : List Char) :
    trimBlanks cs = (cs.dropWhile isBlank).rdropWhile isBlank := rfl

end SqlOutline.Text
