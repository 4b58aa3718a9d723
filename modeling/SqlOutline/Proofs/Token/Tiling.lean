import Mathlib.Data.List.Chain
import Mathlib.Data.List.Nodup
import SqlOutline.Statement.Plain
import SqlOutline.Token.Lexer

/-!
# Tokens tile the text

Every character of a text belongs to exactly one token. The tokens lie side by side
from the first offset to the last one, and the places they carry are those of their
characters.

The lexemes alone know nothing of places. `place_append` says where a later token is
put, and `tokenize_eq_append_cons` reads the place of any token off the text before
it.
-/

namespace SqlOutline.Token

/-- The tokens lie side by side over the whole text: each one holds at least one
character, carries exactly the characters between its offsets, and counts the line
breaks before it. -/
structure Tiles (text : String) (tokens : List Token) : Prop where
  nil_iff : tokens = [] ↔ text = ""
  start_of_head : ∀ token ∈ tokens.head?, token.start = 0
  start_lt_stop : ∀ token ∈ tokens, token.start < token.stop
  adjacent : tokens.IsChain fun token next => next.start = token.stop
  stop_of_last : ∀ token ∈ tokens.getLast?, token.stop = text.length
  chars_eq : ∀ token ∈ tokens, token.text.toList =
    (text.toList.take token.stop).drop token.start
  textOf_eq : textOf tokens = text
  line_eq : ∀ token ∈ tokens, token.line = (text.toList.take token.start).count '\n'

/-! ## Lexemes -/

/-- Reading a lexeme always takes at least one character. -/
theorem text_ne_empty_of_mem_lexemes {cs : List Char} {lexeme : Lexeme}
    (h : lexeme ∈ lexemes cs) : lexeme.text ≠ "" := by
  fun_induction lexemes cs with
  | case1 => simp at h
  | case2 c cs form length chars ih =>
    rcases List.mem_cons.1 h with rfl | hlater
    · intro hempty
      have hchars : (String.ofList chars).toList = "".toList :=
        congrArg String.toList hempty
      simp [chars] at hchars
    · exact ih hlater

theorem lexemes_eq_nil_iff {cs : List Char} : lexemes cs = [] ↔ cs = [] := by
  cases cs with
  | nil => simp
  | cons c cs => simp [lexemes]

/-! ## Places -/

/-- Lexemes that follow some others start where those end, as many lines down as those
have line breaks. -/
theorem place_append (line start : Nat) (before after : List Lexeme) :
    place line start (before ++ after) =
      place line start before ++
        place (line + (before.flatMap fun lexeme => lexeme.text.toList).count '\n')
          (start + (before.flatMap fun lexeme => lexeme.text.toList).length)
          after := by
  induction before generalizing line start with
  | nil => rfl
  | cons lexeme before ih =>
    rw [List.cons_append, place, ih, place, List.cons_append]
    simp only [lineBreaks, List.flatMap_cons, List.count_append, List.length_append,
      String.length_toList, Nat.add_assoc]

theorem textOf_tokenize (text : String) : textOf (tokenize text) = text := by
  have hlexemes := flatMap_toList_lexemes text.toList
  rw [← map_toLexeme_tokenize, List.flatMap_map] at hlexemes
  rw [textOf, hlexemes, String.ofList_toList]

theorem toList_textOf_eq_flatMap (tokens : List Token) :
    (textOf tokens).toList =
      (tokens.map Token.toLexeme).flatMap fun lexeme => lexeme.text.toList := by
  rw [toList_textOf, List.flatMap_map]

@[simp] theorem textOf_append (before after : List Token) :
    textOf (before ++ after) = textOf before ++ textOf after := by
  simp [textOf]

@[simp] theorem textOf_cons (token : Token) (tokens : List Token) :
    textOf (token :: tokens) = token.text ++ textOf tokens := by
  simp [textOf]

/-- A token of a text starts after all tokens before it, and as many lines down as
those have line breaks. -/
theorem place_of_tokenize_eq {text : String} {before after : List Token}
    {token : Token} (h : tokenize text = before ++ token :: after) :
    token.line = (textOf before).toList.count '\n' ∧
      token.start = (textOf before).length ∧
      token.stop = token.start + token.text.length := by
  have hlexemes : lexemes text.toList =
      before.map Token.toLexeme ++ token.toLexeme :: after.map Token.toLexeme := by
    rw [← map_toLexeme_tokenize, h, List.map_append, List.map_cons]
  have hplace := h
  rw [tokenize, hlexemes, place_append, place, ← toList_textOf_eq_flatMap] at hplace
  have hlength : (place 0 0 (before.map Token.toLexeme)).length = before.length := by
    rw [← List.length_map Token.toLexeme, map_toLexeme_place, List.length_map]
  obtain ⟨-, htail⟩ := List.append_inj hplace hlength
  obtain ⟨htoken, -⟩ := List.cons.inj htail
  rw [← htoken]
  simp only [Nat.zero_add, String.length_toList, and_self]

theorem text_eq_of_tokenize_eq {text : String} {before after : List Token}
    {token : Token} (h : tokenize text = before ++ token :: after) :
    text = textOf before ++ (token.text ++ textOf after) := by
  rw [← textOf_tokenize text, h, textOf_append, textOf_cons]

/-! ## The fields of the tiling -/

theorem start_lt_stop_of_mem_tokenize {text : String} {token : Token}
    (h : token ∈ tokenize text) : token.start < token.stop := by
  obtain ⟨before, after, hsplit⟩ := List.append_of_mem h
  obtain ⟨-, -, hstop⟩ := place_of_tokenize_eq hsplit
  have hmem : token.toLexeme ∈ lexemes text.toList := by
    rw [← map_toLexeme_tokenize]
    exact List.mem_map_of_mem h
  have hlength : token.text.length ≠ 0 := by
    intro hzero
    exact text_ne_empty_of_mem_lexemes hmem (String.length_eq_zero_iff.1 hzero)
  omega

theorem toList_text_of_mem_tokenize {text : String} {token : Token}
    (h : token ∈ tokenize text) :
    token.text.toList = (text.toList.take token.stop).drop token.start := by
  obtain ⟨before, after, hsplit⟩ := List.append_of_mem h
  obtain ⟨-, hstart, hstop⟩ := place_of_tokenize_eq hsplit
  have htext := congrArg String.toList (text_eq_of_tokenize_eq hsplit)
  rw [String.toList_append, String.toList_append] at htext
  rw [htext, hstop, hstart, ← String.length_toList, ← String.length_toList,
    List.take_append, List.take_of_length_le (by omega), List.drop_append,
    List.drop_length, List.nil_append, Nat.add_sub_cancel_left, Nat.sub_self,
    List.drop_zero, List.take_left]

/-- The line of a token is the number of line breaks before it. -/
theorem line_of_mem_tokenize {text : String} {token : Token}
    (h : token ∈ tokenize text) :
    token.line = (text.toList.take token.start).count '\n' := by
  obtain ⟨before, after, hsplit⟩ := List.append_of_mem h
  obtain ⟨hline, hstart, -⟩ := place_of_tokenize_eq hsplit
  have htext := congrArg String.toList (text_eq_of_tokenize_eq hsplit)
  rw [String.toList_append] at htext
  rw [hline, htext, hstart, ← String.length_toList, List.take_left]

theorem isChain_tokenize (text : String) :
    (tokenize text).IsChain fun token next => next.start = token.stop := by
  rw [List.isChain_iff_forall_rel_of_append_cons_cons]
  intro token next before after hsplit
  obtain ⟨-, hstart, hstop⟩ := place_of_tokenize_eq hsplit
  have hnext : tokenize text = (before ++ [token]) ++ next :: after := by
    simpa using hsplit
  obtain ⟨-, hnextStart, -⟩ := place_of_tokenize_eq hnext
  rw [hnextStart, hstop, hstart, textOf_append, String.length_append]
  simp [textOf]

theorem start_of_head?_tokenize {text : String} {token : Token}
    (h : token ∈ (tokenize text).head?) : token.start = 0 := by
  obtain ⟨after, hsplit⟩ := List.head?_eq_some_iff.1 h
  rw [← List.nil_append (token :: after)] at hsplit
  obtain ⟨-, hstart, -⟩ := place_of_tokenize_eq hsplit
  simpa [textOf] using hstart

theorem stop_of_getLast?_tokenize {text : String} {token : Token}
    (h : token ∈ (tokenize text).getLast?) : token.stop = text.length := by
  obtain ⟨before, hsplit⟩ := List.getLast?_eq_some_iff.1 h
  obtain ⟨-, hstart, hstop⟩ := place_of_tokenize_eq hsplit
  have htext := congrArg String.length (text_eq_of_tokenize_eq hsplit)
  rw [htext, hstop, hstart, String.length_append, String.length_append]
  simp [textOf]

private theorem le_start_of_mem_place {line start : Nat} {ls : List Lexeme}
    {token : Token} (h : token ∈ place line start ls) : start ≤ token.start := by
  induction ls generalizing line start with
  | nil => simp [place] at h
  | cons lexeme ls ih =>
    rw [place] at h
    rcases List.mem_cons.1 h with rfl | h
    · exact Nat.le_refl start
    · exact (Nat.le_add_right start _).trans (ih h)

theorem pairwise_place (line start : Nat) (ls : List Lexeme) :
    (place line start ls).Pairwise fun token later => token.stop ≤ later.start := by
  induction ls generalizing line start with
  | nil => exact List.Pairwise.nil
  | cons lexeme ls ih =>
    rw [place, List.pairwise_cons]
    exact ⟨fun later hlater => le_start_of_mem_place hlater, ih _ _⟩

theorem nodup_start_tokenize (text : String) :
    ((tokenize text).map fun token => token.start).Nodup := by
  have hplaces :
      (tokenize text).Pairwise fun token later => token.stop ≤ later.start :=
    pairwise_place 0 0 (lexemes text.toList)
  rw [List.Nodup, List.pairwise_map]
  refine hplaces.imp_of_mem fun {token later} htoken _ hle heq => ?_
  have hlt := start_lt_stop_of_mem_tokenize htoken
  omega

theorem nodup_tokenize (text : String) : (tokenize text).Nodup :=
  List.Nodup.of_map (fun token => token.start) (nodup_start_tokenize text)

theorem tokenize_eq_nil_iff {text : String} : tokenize text = [] ↔ text = "" := by
  rw [← List.map_eq_nil_iff (f := Token.toLexeme), map_toLexeme_tokenize,
    lexemes_eq_nil_iff, String.toList_eq_nil_iff]

private theorem length_le_length_flatMap {ls : List Lexeme}
    (h : ∀ lexeme ∈ ls, lexeme.text ≠ "") :
    ls.length ≤ (ls.flatMap fun lexeme => lexeme.text.toList).length := by
  induction ls with
  | nil => exact Nat.le_refl _
  | cons lexeme ls ih =>
    have hrest := ih fun later hlater => h later (List.mem_cons_of_mem _ hlater)
    have hfirst : lexeme.text.toList.length ≠ 0 := by
      rw [String.length_toList]
      intro hzero
      exact h lexeme (List.mem_cons_self ..) (String.length_eq_zero_iff.1 hzero)
    rw [List.flatMap_cons, List.length_append, List.length_cons]
    omega

theorem length_tokenize_le (text : String) :
    (tokenize text).length ≤ text.length := by
  have hlength := length_le_length_flatMap
    fun lexeme (h : lexeme ∈ lexemes text.toList) => text_ne_empty_of_mem_lexemes h
  rw [flatMap_toList_lexemes, ← map_toLexeme_tokenize, List.length_map] at hlength
  rwa [← String.length_toList]

/-- Any text at all is cut into tokens, no more of them than it has characters, and
the tokens lie side by side from its first character to its last one. -/
theorem tiles_tokenize (text : String) :
    Tiles text (tokenize text) ∧ (tokenize text).length ≤ text.length := by
  refine ⟨?_, length_tokenize_le text⟩
  exact {
    nil_iff := tokenize_eq_nil_iff
    start_of_head := fun _ h => start_of_head?_tokenize h
    start_lt_stop := fun _ h => start_lt_stop_of_mem_tokenize h
    adjacent := isChain_tokenize text
    stop_of_last := fun _ h => stop_of_getLast?_tokenize h
    chars_eq := fun _ h => toList_text_of_mem_tokenize h
    textOf_eq := textOf_tokenize text
    line_eq := fun _ h => line_of_mem_tokenize h }

end SqlOutline.Token
