import SqlOutline.Proofs.Script.Plain

/-!
# Closed scripts

A script is closed if it leaves nothing open that what is written behind it could fall
into. The plain text of each of its statements is an entry
(`IsClosed.isEntry_plainText`), so the statements can be written one after another and
are read back as they were.
-/

namespace SqlOutline

open Token

/-- A text that ends with a word is sealed. -/
theorem Token.sealed_of_lexemes_eq {cs : List Char} {ls : List Lexeme} {last : Lexeme}
    (h : lexemes cs = ls ++ [last]) (htrivia : last.isTrivia = false)
    (hquoted : last.isQuoted = false) : Sealed cs := by
  apply sealed_of_getLast?
  intro other hother
  rw [h, List.getLast?_concat, Option.mem_some_iff] at hother
  rw [← hother]
  exact ⟨htrivia, Lexeme.not_isUnterminated hquoted⟩

namespace Script

/-- A script in which all literals, names between backquotes, templates and
parentheses are closed. A comment at its end may be open: no plain text has it. -/
structure IsClosed (text : String) : Prop where
  terminated : ∀ token ∈ tokenize text, ¬ token.toLexeme.IsUnterminated
  depth_eq : depth (tokenize text) = 0

/-- It is enough to try one character behind each lexeme between marks. -/
theorem IsClosed.of_space {text : String} (hdepth : depth (tokenize text) = 0)
    (h : ∀ token ∈ tokenize text, token.isQuoted = true →
      lexemes (token.text.toList ++ [' ']) ≠
        [⟨token.kind, String.ofList (token.text.toList ++ [' '])⟩]) :
    IsClosed text := by
  refine ⟨fun token htoken hunterminated => ?_, hdepth⟩
  have hquoted := Lexeme.isQuoted_of_isUnterminated hunterminated
  exact h token htoken hquoted (hunterminated.2 ' ')

section PlainText

variable {text : String} {statement : Statement}

theorem IsClosed.terminated_of_mem (hclosed : IsClosed text)
    (h : statement ∈ statements text) :
    ∀ token ∈ statement.tokens, ¬ token.toLexeme.IsUnterminated :=
  fun token htoken =>
    hclosed.terminated token ((isInfix_of_mem_statements h).mem htoken)

theorem map_toLexeme_significant_eq (tokens : List Token) :
    (significant tokens).map Token.toLexeme =
      (tokens.map Token.toLexeme).filter fun lexeme => !lexeme.isTrivia := by
  rw [List.filter_map]
  rfl

/-- The significant lexemes of the plain text are those of the statement. -/
theorem IsClosed.filter_lexemes_plainText (hclosed : IsClosed text)
    (h : statement ∈ statements text) :
    ((lexemes statement.plainText.toList).filter fun lexeme => !lexeme.isTrivia) =
      (significant statement.tokens).map Token.toLexeme := by
  rw [← map_toLexeme_tokenize, ← map_toLexeme_significant_eq,
    map_toLexeme_significant,
    solid_lexemes_plainText_of_terminated h (hclosed.terminated_of_mem h),
    List.filter_eq_self]
  intro lexeme hlexeme
  obtain ⟨token, htoken, rfl⟩ := List.mem_map.1 hlexeme
  simpa using (mem_significant.1 htoken).2

theorem IsClosed.significant_tokenize_plainText (hclosed : IsClosed text)
    (h : statement ∈ statements text) :
    (significant (tokenize statement.plainText)).map Token.toLexeme =
      (significant statement.tokens).map Token.toLexeme := by
  rw [map_toLexeme_significant_eq, map_toLexeme_tokenize,
    hclosed.filter_lexemes_plainText h]

/-- The plain text of a statement of a closed script is an entry. -/
theorem IsClosed.isEntry_plainText (hclosed : IsClosed text)
    (h : statement ∈ statements text) : IsEntry statement.plainText :=
  Script.isEntry_plainText h (hclosed.terminated_of_mem h)
    (depth_of_mem_parts (tokens_mem_parts_of_mem_statements h) hclosed.depth_eq)

end PlainText

/-! ## Statements of a written script -/

section Writes

variable {statement : Statement} {entry : String}

/-- The statement of an entry has the entry as its plain text. -/
theorem Writes.plainText_eq (h : Writes statement.tokens entry)
    (hentry : IsEntry entry) : statement.plainText = entry := by
  obtain ⟨gap, hgap, hlexemes⟩ := h
  have hcomment : ∀ token ∈ statement.tokens, token.isComment = false := by
    intro token htoken
    have hmem : token.toLexeme ∈ gap ++ lexemes entry.toList :=
      hlexemes ▸ List.mem_map_of_mem htoken
    rcases List.mem_append.1 hmem with hmem | hmem
    · rcases hgap with rfl | rfl
      · simp at hmem
      · rw [List.mem_singleton.1 hmem]
        rfl
    · exact hentry.isComment_eq_false _ hmem
  have hchars : (statement.tokens.flatMap fun token => token.text.toList) =
      gap.flatMap (fun lexeme => lexeme.text.toList) ++ entry.toList := by
    have hflat :=
      congrArg (List.flatMap fun lexeme : Lexeme => lexeme.text.toList) hlexemes
    rw [List.flatMap_map, List.flatMap_append, flatMap_toList_lexemes] at hflat
    exact hflat
  rw [Statement.plainText, withoutComments_of_forall none hcomment, hchars]
  rcases hgap with rfl | rfl
  · rw [List.flatMap_nil, List.nil_append, String.ofList_toList]
    exact hentry.trim_eq
  · have htrim : Text.trim (String.ofList (['\n'] ++ entry.toList)) =
        Text.trim entry := by
      rw [Text.trim, Text.trim, String.toList_ofList, List.singleton_append,
        Text.trimBlanks_eq, List.dropWhile_cons_of_pos (by decide),
        Text.trimBlanks_eq]
    exact htrim.trans hentry.trim_eq

/-- The statement of an entry has the significant lexemes of the entry. -/
theorem Writes.significant_eq (h : Writes statement.tokens entry) :
    (significant statement.tokens).map Token.toLexeme =
      (lexemes entry.toList).filter fun lexeme => !lexeme.isTrivia := by
  obtain ⟨gap, hgap, hlexemes⟩ := h
  have hnone : (gap.filter fun lexeme => !lexeme.isTrivia) = [] := by
    rcases hgap with rfl | rfl <;> rfl
  rw [map_toLexeme_significant_eq, hlexemes, List.filter_append, hnone,
    List.nil_append]

end Writes

end Script

end SqlOutline
