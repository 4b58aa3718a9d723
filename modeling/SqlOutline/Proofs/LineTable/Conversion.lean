import SqlOutline.Proofs.LineTable.Boundaries

/-!
# Offsets and places are one to one

A place is at an offset when the offset lies on its line, as far behind the start as
the column says. Both conversions of a line table find out just that relation, so each
undoes the other, and what one of them refuses is no value of the other
(`converts_ofText`).
-/

namespace SqlOutline.LineTable

/-- Whether a place is at an offset: the offset lies before the next boundary, and the
column is its distance from the start of the line. -/
def PlacedAt (table : LineTable) (position : Position) (offset : Nat) : Prop :=
  ∃ start next, table.boundaries[position.line]? = some start ∧
    table.boundaries[position.line + 1]? = some next ∧
    start + position.column = offset ∧ offset < next

variable {table : LineTable} {position : Position} {offset : Nat}

/-! ## Boundaries and starts -/

theorem getElem?_starts {line : Nat} (h : line < table.lineCount) :
    table.starts[line]? = table.boundaries[line]? := by
  have hlength : line < table.starts.toList.length := by rwa [Array.length_toList]
  rw [boundaries, List.getElem?_append_left hlength, Array.getElem?_toList]

theorem getElem?_boundaries {line : Nat} (h : line < table.lineCount) :
    table.boundaries[line + 1]? =
      some (table.starts[line + 1]?.getD (table.length + 1)) := by
  rcases Nat.lt_or_eq_of_le (Nat.succ_le_of_lt h) with hlt | heq
  · rw [← getElem?_starts hlt]
    have hget : table.starts[line + 1]? = some table.starts[line + 1] :=
      Array.getElem?_eq_getElem hlt
    rw [hget, Option.getD_some]
  · have hnone : table.starts[line + 1]? = none :=
      Array.getElem?_eq_none (Nat.le_of_eq heq.symm)
    have hlast : line + 1 = table.starts.toList.length := by
      rw [Array.length_toList]
      exact heq
    rw [hnone, Option.getD_none, boundaries, hlast, List.getElem?_concat_length]

theorem IsAscending.lt (h : table.IsAscending) {line later : Nat} {start start' : Nat}
    (hstart : table.boundaries[line]? = some start)
    (hstart' : table.boundaries[later]? = some start') (hlt : line < later) :
    start < start' := by
  obtain ⟨hline, rfl⟩ := List.getElem?_eq_some_iff.1 hstart
  obtain ⟨hlater, rfl⟩ := List.getElem?_eq_some_iff.1 hstart'
  exact List.pairwise_iff_getElem.1 h line later hline hlater hlt

theorem IsAscending.le (h : table.IsAscending) {line later : Nat} {start start' : Nat}
    (hstart : table.boundaries[line]? = some start)
    (hstart' : table.boundaries[later]? = some start') (hle : line ≤ later) :
    start ≤ start' := by
  rcases Nat.lt_or_eq_of_le hle with hlt | rfl
  · exact Nat.le_of_lt (h.lt hstart hstart' hlt)
  · rw [hstart, Option.some_inj] at hstart'
    exact Nat.le_of_eq hstart'

namespace PlacedAt

theorem line_lt (h : table.PlacedAt position offset) :
    position.line < table.lineCount := by
  obtain ⟨start, next, -, hnext, -, -⟩ := h
  obtain ⟨hlt, -⟩ := List.getElem?_eq_some_iff.1 hnext
  rw [length_boundaries] at hlt
  omega

theorem le_length (h : table.PlacedAt position offset)
    (hascending : table.IsAscending) : offset ≤ table.length := by
  have hline := h.line_lt
  obtain ⟨start, next, -, hnext, -, hlt⟩ := h
  have hlast : table.boundaries[table.lineCount]? = some (table.length + 1) := by
    rw [boundaries, lineCount, ← Array.length_toList, List.getElem?_concat_length]
  have hle := hascending.le hnext hlast (Nat.succ_le_of_lt hline)
  omega

end PlacedAt

/-! ## From places to offsets -/

theorem offsetOf_eq (hline : position.line < table.lineCount) {start next : Nat}
    (hstart : table.boundaries[position.line]? = some start)
    (hnext : table.boundaries[position.line + 1]? = some next) :
    table.offsetOf position =
      if position.column ≤ next - 1 - start then .ok (start + position.column)
      else .error
        (.columnOutOfRange position.line position.column (next - 1 - start)) := by
  rw [← getElem?_starts hline] at hstart
  rw [getElem?_boundaries hline, Option.some_inj] at hnext
  rw [offsetOf, hstart]
  simp only [hnext]

theorem offsetOf_eq_of_le (hline : table.lineCount ≤ position.line) :
    table.offsetOf position =
      .error (.lineOutOfRange position.line table.lineCount) := by
  have hnone : table.starts[position.line]? = none := Array.getElem?_eq_none hline
  rw [offsetOf, hnone]

theorem offsetOf_eq_ok_iff (hascending : table.IsAscending) :
    table.offsetOf position = .ok offset ↔ table.PlacedAt position offset := by
  rcases Nat.lt_or_ge position.line table.lineCount with hline | hline
  · have hlt : position.line < table.boundaries.length := by
      rw [length_boundaries]
      omega
    have hstart := List.getElem?_eq_getElem hlt
    have hnext := getElem?_boundaries hline
    generalize table.boundaries[position.line] = start at hstart
    generalize table.starts[position.line + 1]?.getD (table.length + 1) =
      next at hnext
    have hascends := hascending.lt hstart hnext (Nat.lt_succ_self _)
    have hplaced : table.PlacedAt position offset ↔
        start + position.column = offset ∧ offset < next := by
      rw [PlacedAt, hstart, hnext]
      simp
    rw [offsetOf_eq hline hstart hnext, hplaced]
    split
    · next hcolumn =>
      rw [Except.ok.injEq]
      omega
    · next hcolumn =>
      simp only [reduceCtorEq, false_iff]
      omega
  · rw [offsetOf_eq_of_le hline]
    constructor
    · intro h
      exact absurd h (by simp)
    · intro h
      exact absurd h.line_lt (Nat.not_lt_of_le hline)

/-! ## From offsets to places -/

def started (table : LineTable) (offset : Nat) : Nat :=
  boundary (fun i => table.starts[i]?.any (· ≤ offset)) 0 table.lineCount

theorem positionOf_eq (h : offset ≤ table.length) :
    table.positionOf offset = .ok ⟨table.started offset - 1,
      offset - table.starts[table.started offset - 1]?.getD 0⟩ := by
  rw [positionOf, if_pos h]
  rfl

theorem started_eq (h : table.PlacedAt position offset)
    (hascending : table.IsAscending) : table.started offset = position.line + 1 := by
  have hline := h.line_lt
  obtain ⟨start, next, hstart, hnext, hcolumn, hlt⟩ := h
  apply boundary_eq (Nat.zero_le _) (Nat.succ_le_of_lt hline)
  intro i _ hi
  have hget : table.boundaries[i]? = some table.starts[i] := by
    rw [← getElem?_starts hi]
    exact Array.getElem?_eq_getElem hi
  rw [getElem?_starts hi, hget, Option.any_some, decide_eq_true_iff]
  constructor
  · intro hle
    by_contra hlater
    have hge := hascending.le hnext hget (Nat.le_of_not_lt hlater)
    omega
  · intro hearlier
    have hge := hascending.le hget hstart (Nat.le_of_lt_succ hearlier)
    omega

theorem PlacedAt.positionOf_eq (h : table.PlacedAt position offset)
    (hascending : table.IsAscending) : table.positionOf offset = .ok position := by
  have hline := h.line_lt
  rw [LineTable.positionOf_eq (h.le_length hascending), started_eq h hascending,
    Nat.add_sub_cancel, getElem?_starts hline]
  obtain ⟨start, next, hstart, -, hcolumn, -⟩ := h
  rw [hstart, Option.getD_some, ← hcolumn, Nat.add_sub_cancel_left]

/-! ## Places in a text -/

private theorem exists_boundary_after (base : Nat) (cs : List Char) :
    ∃ next, (startsAfterBreaks base cs ++ [base + cs.length + 1])[0]? = some next ∧
      base < next := by
  have hne : 0 < (startsAfterBreaks base cs ++ [base + cs.length + 1]).length := by
    simp
  refine ⟨_, List.getElem?_eq_getElem hne, ?_⟩
  rcases List.mem_append.1 (List.getElem_mem hne) with hmem | hmem
  · exact lt_of_mem_startsAfterBreaks hmem
  · rw [List.mem_singleton.1 hmem]
    omega

private theorem exists_boundaries_of_count {first base index : Nat} {cs : List Char}
    (hfirst : first ≤ base) (h : index ≤ cs.length) :
    ∃ start next,
      (first :: (startsAfterBreaks base cs ++ [base + cs.length + 1]))[(cs.take
          index).count '\n']? = some start ∧
      (startsAfterBreaks base cs ++
          [base + cs.length + 1])[(cs.take index).count '\n']? = some next ∧
      start ≤ base + index ∧ base + index < next := by
  induction cs generalizing first base index with
  | nil =>
    obtain rfl : index = 0 := Nat.le_zero.1 h
    exact ⟨first, base + 1, rfl, rfl, hfirst, Nat.lt_succ_self _⟩
  | cons c cs ih =>
    cases index with
    | zero =>
      obtain ⟨next, hnext, hlt⟩ := exists_boundary_after base (c :: cs)
      exact ⟨first, next, rfl, hnext, hfirst, hlt⟩
    | succ index =>
      have hindex : base + (index + 1) = base + 1 + index := by omega
      have hlength : base + (c :: cs).length + 1 = base + 1 + cs.length + 1 := by
        rw [List.length_cons]
        omega
      rw [hlength, startsAfterBreaks, List.take_succ_cons, hindex]
      by_cases hbreak : c = '\n'
      -- the boundary behind the line break is the first one of what follows it
      · rw [if_pos hbreak, hbreak, List.count_cons_self]
        exact ih (Nat.le_refl (base + 1)) (Nat.le_of_succ_le_succ h)
      · rw [if_neg hbreak, List.count_cons_of_ne hbreak]
        exact ih (Nat.le_succ_of_le hfirst) (Nat.le_of_succ_le_succ h)

/-- Every offset of a text is at a place, and its line counts the line breaks before
it. -/
theorem exists_placedAt {text : String} {offset : Nat} (h : offset ≤ text.length) :
    ∃ column,
      (ofText text).PlacedAt ⟨(text.toList.take offset).count '\n', column⟩
        offset := by
  rw [← String.length_toList] at h
  obtain ⟨start, next, hstart, hnext, hle, hlt⟩ :=
    exists_boundaries_of_count (Nat.le_refl 0) h
  rw [Nat.zero_add] at hstart hnext hle hlt
  have hboundaries := boundaries_ofText text
  rw [← String.length_toList] at hboundaries
  refine ⟨offset - start, start, next, ?_, ?_, Nat.add_sub_cancel' hle, hlt⟩
  · rw [hboundaries]
    exact hstart
  · rw [hboundaries]
    exact hnext

theorem positionOf_eq_ok_iff (text : String) {position : Position} {offset : Nat} :
    (ofText text).positionOf offset = .ok position ↔
      (ofText text).PlacedAt position offset := by
  have hascending := isAscending_ofText text
  constructor
  · intro h
    have hle : offset ≤ text.length := by
      by_contra hlt
      rw [positionOf, length_ofText, if_neg hlt] at h
      exact absurd h (by simp)
    obtain ⟨column, hplaced⟩ := exists_placedAt hle
    rw [hplaced.positionOf_eq hascending, Except.ok.injEq] at h
    rwa [h] at hplaced
  · intro h
    exact h.positionOf_eq hascending

private theorem exists_placedAt_iff (text : String) (position : Position) :
    (∃ offset, (ofText text).PlacedAt position offset) ↔
      ∃ line, (Text.lines text)[position.line]? = some line ∧
        position.column ≤ line.length := by
  constructor
  · rintro ⟨offset, h⟩
    have hline := h.line_lt
    rw [lineCount_ofText] at hline
    have hget := List.getElem?_eq_getElem hline
    obtain ⟨start, next, hstart, hnext, hcolumn, hlt⟩ := h
    rw [getElem?_boundaries_succ text hget hstart, Option.some_inj,
      Text.nextStart] at hnext
    exact ⟨_, hget, by omega⟩
  · rintro ⟨line, hline, hcolumn⟩
    have hlt : position.line < (ofText text).boundaries.length := by
      obtain ⟨hlt, -⟩ := List.getElem?_eq_some_iff.1 hline
      rw [length_boundaries, lineCount_ofText]
      omega
    have hstart := List.getElem?_eq_getElem hlt
    refine ⟨_, _, _, hstart, getElem?_boundaries_succ text hline hstart, rfl, ?_⟩
    rw [Text.nextStart]
    omega

/-! ## What a table converts -/

/-- A line table converts the offsets of a text, the one past its end taken in, into
the places in its lines and back, and refuses all others with their cause. -/
structure Converts (text : String) (table : LineTable) : Prop where
  lineCount_eq : table.lineCount = (Text.lines text).length
  positionOf_iff : ∀ offset,
    (∃ position, table.positionOf offset = .ok position) ↔ offset ≤ text.length
  offsetOf_iff : ∀ position, (∃ offset, table.offsetOf position = .ok offset) ↔
    ∃ line, (Text.lines text)[position.line]? = some line ∧
      position.column ≤ line.length
  offsetOf_positionOf : ∀ offset position,
    table.positionOf offset = .ok position → table.offsetOf position = .ok offset
  positionOf_offsetOf : ∀ position offset,
    table.offsetOf position = .ok offset → table.positionOf offset = .ok position
  offset_error : ∀ offset, text.length < offset →
    table.positionOf offset = .error (.offsetOutOfRange offset text.length)
  line_error : ∀ position, (Text.lines text).length ≤ position.line →
    table.offsetOf position =
      .error (.lineOutOfRange position.line (Text.lines text).length)
  column_error : ∀ position line, (Text.lines text)[position.line]? = some line →
    line.length < position.column →
    table.offsetOf position =
      .error (.columnOutOfRange position.line position.column line.length)

/-- All differences that the conversions form are those of the smaller number from the
greater one, and the starts that they look up are there. The number of lines and the
length of the text are one less than the number of boundaries and the last one of
them. -/
structure IsExact (table : LineTable) : Prop where
  length_boundaries_eq : table.boundaries.length = table.lineCount + 1
  last_boundary : table.boundaries.getLast? = some (table.length + 1)
  start_lt_next : ∀ line start, table.starts[line]? = some start →
    start < table.starts[line + 1]?.getD (table.length + 1)
  started_pos : ∀ offset ≤ table.length, 0 < table.started offset
  start_le_offset : ∀ offset ≤ table.length, ∃ start,
    table.starts[table.started offset - 1]? = some start ∧ start ≤ offset

theorem isExact_ofText (text : String) : (ofText text).IsExact := by
  have hascending := isAscending_ofText text
  have hplaces : ∀ offset ≤ (ofText text).length, ∃ position,
      (ofText text).PlacedAt position offset := by
    intro offset hoffset
    rw [length_ofText] at hoffset
    obtain ⟨column, h⟩ := exists_placedAt hoffset
    exact ⟨_, h⟩
  refine ⟨length_boundaries _, List.getLast?_concat, ?_, ?_, ?_⟩
  · intro line start hstart
    obtain ⟨hline, -⟩ := Array.getElem?_eq_some_iff.1 hstart
    have hnext := getElem?_boundaries hline
    rw [getElem?_starts hline] at hstart
    exact hascending.lt hstart hnext (Nat.lt_succ_self line)
  · intro offset hoffset
    obtain ⟨position, h⟩ := hplaces offset hoffset
    rw [started_eq h hascending]
    exact Nat.succ_pos _
  · intro offset hoffset
    obtain ⟨position, h⟩ := hplaces offset hoffset
    rw [started_eq h hascending, Nat.add_sub_cancel, getElem?_starts h.line_lt]
    obtain ⟨start, next, hstart, -, hcolumn, -⟩ := h
    exact ⟨start, hstart, by omega⟩

private theorem columnOutOfRange_of_lt {text : String} {position : Position}
    {line : List Char} (hline : (Text.lines text)[position.line]? = some line)
    (hlt : line.length < position.column) :
    (ofText text).offsetOf position =
      .error (.columnOutOfRange position.line position.column line.length) := by
  obtain ⟨hlines, -⟩ := List.getElem?_eq_some_iff.1 hline
  rw [← lineCount_ofText] at hlines
  have hboundary : position.line < (ofText text).boundaries.length := by
    rw [length_boundaries]
    omega
  have hstart := List.getElem?_eq_getElem hboundary
  generalize (ofText text).boundaries[position.line] = start at hstart
  have hlength : Text.nextStart start line - 1 - start = line.length := by
    rw [Text.nextStart]
    omega
  rw [offsetOf_eq hlines hstart (getElem?_boundaries_succ text hline hstart), hlength,
    if_neg (Nat.not_le_of_lt hlt)]

/-- The line table of any text converts between its offsets and its places, one to
one. -/
theorem converts_ofText (text : String) :
    Converts text (ofText text) ∧ (ofText text).IsExact := by
  have hascending := isAscending_ofText text
  refine ⟨?_, isExact_ofText text⟩
  exact {
    lineCount_eq := lineCount_ofText text
    positionOf_iff := by
      intro offset
      simp only [positionOf_eq_ok_iff]
      constructor
      · rintro ⟨position, h⟩
        rw [← length_ofText text]
        exact h.le_length hascending
      · intro hle
        obtain ⟨column, h⟩ := exists_placedAt hle
        exact ⟨_, h⟩
    offsetOf_iff := by
      intro position
      simp only [offsetOf_eq_ok_iff hascending]
      exact exists_placedAt_iff text position
    offsetOf_positionOf := fun offset position h =>
      (offsetOf_eq_ok_iff hascending).2 ((positionOf_eq_ok_iff text).1 h)
    positionOf_offsetOf := fun position offset h =>
      (positionOf_eq_ok_iff text).2 ((offsetOf_eq_ok_iff hascending).1 h)
    offset_error := by
      intro offset hlt
      rw [positionOf, length_ofText, if_neg (Nat.not_le_of_lt hlt)]
    line_error := by
      intro position hle
      rw [← lineCount_ofText] at hle ⊢
      exact offsetOf_eq_of_le hle
    column_error := fun position line hline hlt => columnOutOfRange_of_lt hline hlt }

end SqlOutline.LineTable
