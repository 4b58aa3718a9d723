import SqlOutline.LineTable
import SqlOutline.Proofs.Token.Tiling

/-!
# Where the lines of a text start

A line table is made from the tokens of a text, and the line breaks in them are those
of the text. So every boundary after the first one lies just past a line break, the
last one just past the end, and from each boundary to the next lies one line with the
character that ends it (`boundaries_eq_scanl`).
-/

namespace SqlOutline

def Text.lines (text : String) : List (List Char) :=
  text.toList.splitOnP (· == '\n')

def Text.nextStart (start : Nat) (line : List Char) : Nat :=
  start + line.length + 1

/-! ## The line breaks among some characters -/

private theorem startsAfterBreaks_append (offset : Nat) (first second : List Char) :
    startsAfterBreaks offset (first ++ second) =
      startsAfterBreaks offset first ++
        startsAfterBreaks (offset + first.length) second := by
  induction first generalizing offset with
  | nil => rfl
  | cons c first ih =>
    have hlength : offset + (c :: first).length = offset + 1 + first.length := by
      rw [List.length_cons]
      omega
    rw [List.cons_append, startsAfterBreaks, startsAfterBreaks, ih, hlength]
    split <;> rfl

theorem lt_of_mem_startsAfterBreaks {offset start : Nat} {cs : List Char}
    (h : start ∈ startsAfterBreaks offset cs) : offset < start := by
  induction cs generalizing offset with
  | nil => simp [startsAfterBreaks] at h
  | cons c cs ih =>
    rw [startsAfterBreaks] at h
    split at h
    · rcases List.mem_cons.1 h with rfl | h
      · exact Nat.lt_succ_self offset
      · exact Nat.lt_of_succ_lt (ih h)
    · exact Nat.lt_of_succ_lt (ih h)

/-- The starts in a text are just past the indices at which it has a line break. -/
theorem startsAfterBreaks_eq_map_filter (offset : Nat) (cs : List Char) :
    startsAfterBreaks offset cs =
      ((List.range cs.length).filter fun index => cs[index]? == some '\n').map
        fun index => offset + (index + 1) := by
  induction cs generalizing offset with
  | nil => rfl
  | cons c cs ih =>
    have hlater : (((List.range cs.length).map Nat.succ).filter fun index =>
          (c :: cs)[index]? == some '\n').map (fun index => offset + (index + 1)) =
        startsAfterBreaks (offset + 1) cs := by
      rw [ih, List.filter_map, List.map_map]
      apply List.map_congr_left
      intro index _
      simp only [Function.comp_apply, Nat.succ_eq_add_one]
      omega
    rw [List.length_cons, List.range_succ_eq_map, startsAfterBreaks]
    split
    · next hbreak =>
        rw [List.filter_cons_of_pos (by simp [hbreak]), List.map_cons, hlater]
    · next hbreak => rw [List.filter_cons_of_neg (by simp [hbreak]), hlater]

private theorem scanl_splitOnP (start : Nat) (cs : List Char) :
    (cs.splitOnP (· == '\n')).scanl Text.nextStart start =
      start :: (startsAfterBreaks start cs ++ [start + cs.length + 1]) := by
  induction cs generalizing start with
  | nil => rfl
  | cons c cs ih =>
    obtain ⟨line, lines, hlines⟩ :=
      List.exists_cons_of_ne_nil (List.splitOnP_ne_nil (· == '\n') cs)
    have hlength : start + (c :: cs).length + 1 = start + 1 + cs.length + 1 := by
      rw [List.length_cons]
      omega
    rw [List.splitOnP_cons_eq_if_modifyHead, startsAfterBreaks, hlength]
    by_cases hbreak : c = '\n'
    · rw [if_pos (by simpa using hbreak), if_pos hbreak, List.scanl_cons]
      exact congrArg (start :: ·) (ih (start + 1))
    -- the first line is one longer, and all later boundaries are the same
    · have hrest := ih (start + 1)
      rw [hlines, List.scanl_cons] at hrest
      have hnext : Text.nextStart start (c :: line) =
          Text.nextStart (start + 1) line := by
        rw [Text.nextStart, Text.nextStart, List.length_cons]
        omega
      rw [if_neg (by simpa using hbreak), if_neg hbreak, hlines, List.modifyHead_cons,
        List.scanl_cons, hnext, (List.cons.inj hrest).2]

private theorem le_of_mem_scanl_nextStart {start boundary : Nat}
    {lines : List (List Char)} (h : boundary ∈ lines.scanl Text.nextStart start) :
    start ≤ boundary := by
  induction lines generalizing start with
  | nil =>
    rw [List.scanl_nil, List.mem_singleton] at h
    exact Nat.le_of_eq h.symm
  | cons line lines ih =>
    rw [List.scanl_cons] at h
    rcases List.mem_cons.1 h with rfl | h
    · exact Nat.le_refl boundary
    · have hle := ih h
      rw [Text.nextStart] at hle
      omega

private theorem pairwise_scanl_nextStart (start : Nat) (lines : List (List Char)) :
    (lines.scanl Text.nextStart start).Pairwise (· < ·) := by
  induction lines generalizing start with
  | nil => simp
  | cons line lines ih =>
    rw [List.scanl_cons, List.pairwise_cons]
    refine ⟨fun boundary hboundary => ?_, ih _⟩
    have hle := le_of_mem_scanl_nextStart hboundary
    rw [Text.nextStart] at hle
    omega

namespace LineTable

/-! ## The table of a text -/

private theorem flatMap_startsAfterBreaks_place (line start : Nat)
    (ls : List Lexeme) :
    (Token.place line start ls).flatMap
        (fun token => startsAfterBreaks token.start token.text.toList) =
      startsAfterBreaks start (ls.flatMap fun lexeme => lexeme.text.toList) := by
  induction ls generalizing line start with
  | nil => rfl
  | cons lexeme ls ih =>
    rw [Token.place, List.flatMap_cons, List.flatMap_cons, ih,
      startsAfterBreaks_append, String.length_toList]

theorem length_ofText (text : String) : (ofText text).length = text.length := by
  have hlength : (ofText text).length =
      ((Token.tokenize text).getLast?.map (·.stop)).getD 0 := rfl
  rw [hlength]
  cases hlast : (Token.tokenize text).getLast? with
  | none =>
    rw [List.getLast?_eq_none_iff, Token.tokenize_eq_nil_iff] at hlast
    rw [hlast]
    rfl
  | some last => exact Token.stop_of_getLast?_tokenize hlast

theorem starts_ofText (text : String) :
    (ofText text).starts.toList = 0 :: startsAfterBreaks 0 text.toList := by
  have hstarts := flatMap_startsAfterBreaks_place 0 0 (Token.lexemes text.toList)
  rw [Token.flatMap_toList_lexemes] at hstarts
  rw [← hstarts]
  rfl

theorem boundaries_ofText (text : String) :
    (ofText text).boundaries =
      0 :: (startsAfterBreaks 0 text.toList ++ [text.length + 1]) := by
  rw [boundaries, starts_ofText, length_ofText, List.cons_append]

/-- The boundaries of a text are the ends of its lines, added up. -/
theorem boundaries_eq_scanl (text : String) :
    (ofText text).boundaries =
      (Text.lines text).scanl Text.nextStart 0 := by
  rw [boundaries_ofText, Text.lines, scanl_splitOnP, Nat.zero_add,
    String.length_toList]

theorem length_boundaries (table : LineTable) :
    table.boundaries.length = table.lineCount + 1 := by
  rw [boundaries, List.length_append, List.length_singleton, lineCount,
    Array.length_toList]

theorem lineCount_ofText (text : String) :
    (ofText text).lineCount = (Text.lines text).length := by
  have hlength := length_boundaries (ofText text)
  rw [boundaries_eq_scanl, List.length_scanl] at hlength
  omega

theorem getElem?_boundaries_succ (text : String) {line : Nat} {chars : List Char}
    {start : Nat} (hline : (Text.lines text)[line]? = some chars)
    (hstart : (ofText text).boundaries[line]? = some start) :
    (ofText text).boundaries[line + 1]? = some (Text.nextStart start chars) := by
  rw [boundaries_eq_scanl] at hstart ⊢
  rw [List.getElem?_succ_scanl, hstart, hline]
  rfl

def IsAscending (table : LineTable) : Prop :=
  table.boundaries.Pairwise (· < ·)

theorem isAscending_ofText (text : String) : (ofText text).IsAscending := by
  rw [IsAscending, boundaries_eq_scanl]
  exact pairwise_scanl_nextStart 0 _

end LineTable

end SqlOutline
