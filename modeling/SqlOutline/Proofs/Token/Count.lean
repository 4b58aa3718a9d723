import SqlOutline.Proofs.Token.Seam

/-!
# Written counts

A count is written in decimal digits and read as a number. What follows it in the text
becomes part of that number only as far as it looks like a fraction or an exponent.
-/

namespace SqlOutline.Token

theorem Form.ofChars_of_isDigit {c : Char} (h : c.isDigit = true)
    (next : Option Char) : ofChars c next = .number := by
  have hblank : Text.isBlank c = false := by
    by_contra hblank
    rw [Text.isDigit_of_isBlank (by simpa using hblank)] at h
    exact Bool.noConfusion h
  have hmarks : ∀ d ∈
        ['-', '/', singleQuote, doubleQuote, Lexeme.backquote, '{', '$'], c ≠ d := by
    rintro d hd rfl
    have hnone : (['-', '/', singleQuote, doubleQuote, Lexeme.backquote, '{', '$'].any
          fun d => d.isDigit) = false := by
      decide
    exact List.any_eq_false.1 hnone c hd h
  simp only [List.mem_cons, List.not_mem_nil, or_false, forall_eq_or_imp,
    forall_eq] at hmarks
  obtain ⟨hdash, hslash, hsingle, hdouble, hback, hbrace, hdollar⟩ := hmarks
  simp [ofChars, hblank, hdash, hslash, hsingle, hdouble, hback, hbrace, hdollar, h]

private theorem continuesWord_of_isDigit {c : Char} (h : c.isDigit = true) :
    continuesWord c = true := by
  have hlt : c.toNat < 0x80 := by
    rw [Char.isDigit, Bool.and_eq_true, decide_eq_true_iff, decide_eq_true_iff] at h
    have hle : c.toNat ≤ 57 := UInt32.le_iff_toNat_le.1 h.2
    omega
  rw [continuesWord, Text.isAlphanumeric, Text.isNumeric_of_lt hlt, h, Bool.or_true,
    Bool.true_or, Bool.true_or]

def digitsOf (count : Nat) : List Char :=
  (toString count).toList

theorem digitsOf_eq_toDigits (count : Nat) : digitsOf count = Nat.toDigits 10 count :=
  Nat.toList_repr

theorem isDigit_of_mem_digitsOf {count : Nat} {c : Char} (h : c ∈ digitsOf count) :
    c.isDigit = true := by
  rw [digitsOf_eq_toDigits] at h
  exact Nat.isDigit_of_mem_toDigits (by omega) (by omega) h

private theorem digitsOf_ne_nil (count : Nat) : digitsOf count ≠ [] := by
  rw [digitsOf_eq_toDigits]
  exact Nat.toDigits_ne_nil

/-- Number of characters after the digits of a count that become part of the
number. -/
def tailLength (cs : List Char) : Nat :=
  fractionLength cs + exponentLength (cs.drop (fractionLength cs))

theorem numberLength_append {w rest : List Char} (hw : ∀ c ∈ w, c.isDigit = true)
    (hrest : ∀ c ∈ rest.head?, c.isDigit = false) :
    numberLength (w ++ rest) = w.length + tailLength rest := by
  rw [numberLength, runLength_append_of_all hw hrest, List.drop_left,
    ← List.drop_drop, List.drop_left, tailLength, Nat.add_assoc]

/-- Digits are read as one number, with what follows them as far as that goes on with
the number. -/
theorem lexemes_digits_append {w rest : List Char} (hne : w ≠ [])
    (hw : ∀ c ∈ w, c.isDigit = true) (hrest : ∀ c ∈ rest.head?, c.isDigit = false) :
    lexemes (w ++ rest) =
      ⟨.number, String.ofList (w ++ rest.take (tailLength rest))⟩ ::
        lexemes (rest.drop (tailLength rest)) := by
  obtain ⟨c, w, rfl⟩ := List.exists_cons_of_ne_nil hne
  have hlength :=
    numberLength_append (fun d hd => hw d (List.mem_cons_of_mem c hd)) hrest
  rw [List.cons_append, lexemes]
  simp only [Form.ofChars_of_isDigit (hw c (List.mem_cons_self ..)), Form.length,
    hlength, Form.kind, List.take_length_add_append, List.drop_length_add_append,
    List.cons_append]

theorem lexemes_digitsOf_append {rest : List Char} (count : Nat)
    (hrest : ∀ c ∈ rest.head?, c.isDigit = false) :
    lexemes (digitsOf count ++ rest) =
      ⟨.number, String.ofList (digitsOf count ++ rest.take (tailLength rest))⟩ ::
        lexemes (rest.drop (tailLength rest)) :=
  lexemes_digits_append (digitsOf_ne_nil count) (fun _ => isDigit_of_mem_digitsOf)
    hrest

theorem lexemes_space_digitsOf_append {rest : List Char} (count : Nat)
    (hrest : ∀ c ∈ rest.head?, c.isDigit = false) :
    lexemes (' ' :: (digitsOf count ++ rest)) =
      ⟨.whitespace, " "⟩ ::
        ⟨.number, String.ofList (digitsOf count ++ rest.take (tailLength rest))⟩ ::
          lexemes (rest.drop (tailLength rest)) := by
  obtain ⟨c, w, hdigits⟩ := List.exists_cons_of_ne_nil (digitsOf_ne_nil count)
  have hc : Text.isBlank c = false := by
    have hdigit : c.isDigit = true :=
      isDigit_of_mem_digitsOf (hdigits ▸ List.mem_cons_self ..)
    by_contra hblank
    rw [Text.isDigit_of_isBlank (by simpa using hblank)] at hdigit
    exact Bool.noConfusion hdigit
  have htake : (digitsOf count ++ rest).takeWhile Text.isBlank = [] := by
    simp [hdigits, hc]
  have hdrop : (digitsOf count ++ rest).dropWhile Text.isBlank =
      digitsOf count ++ rest := by
    simp [hdigits, hc]
  rw [lexemes_cons_of_isBlank _ (by decide), htake, hdrop,
    lexemes_digitsOf_append count hrest]

theorem lexemes_space_digitsOf (count : Nat) :
    lexemes (' ' :: digitsOf count) =
      [⟨.whitespace, " "⟩, ⟨.number, toString count⟩] := by
  have hread : lexemes (' ' :: (digitsOf count ++ [])) = _ :=
    lexemes_space_digitsOf_append count (by simp)
  rw [List.append_nil, List.take_nil, List.append_nil, List.drop_nil,
    lexemes_nil] at hread
  rwa [digitsOf, String.ofList_toList] at hread

theorem sealed_space_digitsOf (count : Nat) : Sealed (' ' :: digitsOf count) := by
  apply sealed_of_getLast?
  rw [lexemes_space_digitsOf]
  rintro last (hlast : some _ = some last)
  rw [← Option.some.inj hlast]
  refine ⟨rfl, ?_⟩
  rintro ⟨hkind, -⟩
  simp at hkind

/-! ## A number that takes in what follows it -/

def IsFigure (lexeme : Lexeme) : Prop :=
  lexeme.kind = .number ∨ lexeme.kind = .dot

/-- What begins with a fraction is a point, digits, and more that does not begin with
a digit. -/
theorem exists_of_fractionLength_ne_zero {cs : List Char}
    (h : fractionLength cs ≠ 0) :
    ∃ w rest, cs = '.' :: (w ++ rest) ∧ w ≠ [] ∧ (∀ c ∈ w, c.isDigit = true) ∧
      (∀ c ∈ rest.head?, c.isDigit = false) ∧ fractionLength cs = w.length + 1 := by
  cases cs with
  | nil => exact absurd rfl h
  | cons c cs =>
    rw [fractionLength] at h ⊢
    split at h
    · next hpoint =>
      have hlength : (cs.takeWhile Char.isDigit).length =
          runLength Char.isDigit cs := by
        rw [← take_runLength, List.length_take,
          Nat.min_eq_left (runLength_le_length _ cs)]
      rw [if_pos hpoint]
      refine ⟨cs.takeWhile Char.isDigit, cs.dropWhile Char.isDigit, ?_, ?_, ?_, ?_,
        ?_⟩
      · rw [hpoint.1, List.takeWhile_append_dropWhile]
      · apply List.ne_nil_of_length_pos
        omega
      · exact fun c hc => List.mem_takeWhile_imp hc
      · intro c hc
        have hstops := List.head?_dropWhile_not Char.isDigit cs
        rw [Option.mem_def.1 hc] at hstops
        exact hstops
      · rw [hlength]
    · exact absurd rfl h

private theorem fractionLength_of_exponentLength_ne_zero {cs : List Char}
    (h : exponentLength cs ≠ 0) : fractionLength cs = 0 := by
  cases cs with
  | nil => rfl
  | cons c cs =>
    rw [fractionLength_cons_eq_zero_iff]
    rintro rfl
    rw [ne_eq, exponentLength_cons_eq_zero_iff] at h
    exact absurd (by simp) h

theorem exponentLength_eq_zero_of_head? {cs : List Char}
    (h : ∀ c ∈ cs.head?, continuesWord c = false) :
    (∀ c ∈ cs.head?, c.isDigit = false) ∧ exponentLength cs = 0 := by
  constructor
  · intro c hc
    by_contra hdigit
    have hword := continuesWord_of_isDigit (by simpa using hdigit)
    rw [h c hc] at hword
    exact Bool.noConfusion hword
  · cases cs with
    | nil => rfl
    | cons c cs =>
      have hc : continuesWord c = false := h c rfl
      rw [exponentLength_cons_eq_zero_iff]
      rintro (rfl | rfl) <;> exact absurd hc (by decide +kernel)

/-- A number before a text takes in the fraction that the text begins with. From there
on the text is read as it was, but for more numbers and points. -/
theorem exists_lexemes_drop_tailLength {cs : List Char} (h : exponentLength cs = 0) :
    ∃ alone fused rest, lexemes cs = alone ++ lexemes rest ∧
      lexemes (cs.drop (tailLength cs)) = fused ++ lexemes rest ∧
      (∀ lexeme ∈ alone, IsFigure lexeme) ∧ ∀ lexeme ∈ fused, IsFigure lexeme := by
  by_cases hfraction : fractionLength cs = 0
  · refine ⟨[], [], cs, rfl, ?_, by simp, by simp⟩
    rw [tailLength, hfraction, List.drop_zero, h]
    rfl
  · obtain ⟨w, rest, hcs, hne, hw, hrest, hlength⟩ :=
      exists_of_fractionLength_ne_zero hfraction
    have hdrop : cs.drop (fractionLength cs) = rest := by
      rw [hlength, hcs, List.drop_succ_cons, List.drop_left]
    have htail : cs.drop (tailLength cs) = rest.drop (exponentLength rest) := by
      rw [tailLength, ← List.drop_drop, hdrop]
    have hread : lexemes cs = ⟨.dot, "."⟩ ::
        ⟨.number, String.ofList (w ++ rest.take (tailLength rest))⟩ ::
          lexemes (rest.drop (tailLength rest)) := by
      have hpoint : lexemes ('.' :: (w ++ rest)) =
          ⟨.dot, "."⟩ :: lexemes (w ++ rest) :=
        lexemes_cons_of_single _ (by decide) (by decide)
      rw [hcs, hpoint, lexemes_digits_append hne hw hrest]
    by_cases hexponent : exponentLength rest = 0
    -- the text goes on after the digits, and there the two readings have changed
    -- places
    · obtain ⟨alone, fused, last, halone, hfused, haloneFigure, hfusedFigure⟩ :=
        exists_lexemes_drop_tailLength hexponent
      refine ⟨⟨.dot, "."⟩ ::
          ⟨.number, String.ofList (w ++ rest.take (tailLength rest))⟩ :: fused, alone,
        last, ?_, ?_, ?_, haloneFigure⟩
      · rw [hread, hfused]
        rfl
      · rw [htail, hexponent, List.drop_zero, halone]
      · simp only [List.forall_mem_cons]
        exact ⟨Or.inr rfl, Or.inl rfl, hfusedFigure⟩
    -- the exponent ends both
    · have hnone := fractionLength_of_exponentLength_ne_zero hexponent
      refine ⟨[⟨.dot, "."⟩,
          ⟨.number, String.ofList (w ++ rest.take (tailLength rest))⟩], [],
        rest.drop (exponentLength rest), ?_, ?_, ?_, by simp⟩
      · rw [hread, tailLength, hnone, List.drop_zero, Nat.zero_add]
        rfl
      · rw [htail]
        rfl
      · simp only [List.forall_mem_cons]
        exact ⟨Or.inr rfl, Or.inl rfl, by simp⟩
termination_by cs.length
decreasing_by
  rw [hcs, List.length_cons, List.length_append]
  omega

end SqlOutline.Token
