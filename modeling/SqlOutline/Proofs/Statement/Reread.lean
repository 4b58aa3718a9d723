import SqlOutline.Proofs.Layout.Bare
import SqlOutline.Proofs.Statement.PlainText

/-!
# A plain text as a script of its own

The plain text of a statement has the bare layout of the statement. So it is one
statement, and the analyses of that agree with those of the statement in its place.
-/

namespace SqlOutline

open Token

theorem map_toLexeme_significant (text : String) :
    (significant (tokenize text)).map Token.toLexeme =
      (solid (lexemes text.toList)).filter fun lexeme => !lexeme.isTrivia := by
  have hsignificant : ∀ lexeme : Lexeme,
      (!lexeme.isTrivia && lexeme.kind != .whitespace) = !lexeme.isTrivia := by
    intro lexeme
    by_cases hblank : lexeme.kind = .whitespace
    · rw [Lexeme.isTrivia_of_whitespace hblank]
      rfl
    · simp [hblank]
  rw [solid, List.filter_filter, ← map_toLexeme_tokenize, significant,
    List.filter_map]
  congr 1
  apply List.filter_congr
  intro token _
  exact (hsignificant token.toLexeme).symm

namespace Statement

/-- The lexemes of a plain text that are no white space are the significant ones of
the statement, the last one trimmed. -/
theorem solid_lexemes_plainText {text : String} {statement : Statement}
    (h : statement ∈ Script.statements text) {init : List Token} {last : Token}
    (hsplit : significant statement.tokens = init ++ [last]) :
    solid (lexemes statement.plainText.toList) =
        init.map Token.toLexeme ++ [last.toLexeme.trimEnd] ∧
      (last.toLexeme.trimEnd ≠ last.toLexeme → last.toLexeme.IsUnterminated) := by
  obtain ⟨before, later, htext⟩ := Script.isInfix_of_mem_statements h
  have hread : IsRead (statement.tokens ++ later) := by
    have hwhole := isRead_tokenize text
    rw [← htext, List.append_assoc] at hwhole
    exact hwhole.of_append
  constructor
  · rw [toList_plainText]
    apply solid_lexemes_rdropWhile
    rw [solid_lexemes_dropWhile, solid_lexemes_withoutComments hread, hsplit,
      List.map_append]
    rfl
  · have hmem : last ∈ significant statement.tokens := by
      rw [hsplit]
      exact List.mem_append_right _ (List.mem_singleton_self last)
    obtain ⟨hlast, htrivia⟩ := mem_significant.1 hmem
    obtain ⟨earlier, after, hstatement⟩ := List.append_of_mem hlast
    rw [hstatement, List.append_assoc, List.cons_append] at hread
    exact hread.of_append.isUnterminated htrivia

theorem isTrivia_eq_false_of_mem_solid {statement : Statement} {init : List Token}
    {last : Token} (hsplit : significant statement.tokens = init ++ [last]) :
    ∀ lexeme ∈ init.map Token.toLexeme ++ [last.toLexeme.trimEnd],
      lexeme.isTrivia = false := by
  have hmem : ∀ token ∈ init ++ [last], token.isTrivia = false := by
    intro token htoken
    rw [← hsplit, mem_significant] at htoken
    exact htoken.2
  intro lexeme hlexeme
  rw [List.mem_append, List.mem_map, List.mem_singleton] at hlexeme
  rcases hlexeme with ⟨token, htoken, rfl⟩ | rfl
  · exact hmem token (List.mem_append_left _ htoken)
  · have htrim : last.toLexeme.trimEnd.isTrivia = last.isTrivia := rfl
    rw [htrim]
    exact hmem last (List.mem_append_right _ (List.mem_singleton_self last))

theorem significant_tokenize_plainText {text : String} {statement : Statement}
    (h : statement ∈ Script.statements text) {init : List Token} {last : Token}
    (hsplit : significant statement.tokens = init ++ [last]) :
    (significant (tokenize statement.plainText)).map Token.toLexeme =
        init.map Token.toLexeme ++ [last.toLexeme.trimEnd] ∧
      (last.toLexeme.trimEnd ≠ last.toLexeme → last.toLexeme.IsUnterminated) := by
  obtain ⟨hsolid, hterminated⟩ := solid_lexemes_plainText h hsplit
  refine ⟨?_, hterminated⟩
  rw [map_toLexeme_significant, hsolid, List.filter_eq_self]
  intro lexeme hlexeme
  rw [isTrivia_eq_false_of_mem_solid hsplit lexeme hlexeme]
  rfl

theorem ofTokens_tokens {text : String} {statement : Statement}
    (h : statement ∈ Script.statements text) :
    ofTokens statement.tokens = statement := by
  obtain ⟨part, -, rfl⟩ := List.mem_map.1 h
  exact congrArg ofTokens (tokens_ofPassage nestingLimit ⟨false, part⟩)

theorem exists_significant_eq {text : String} {statement : Statement}
    (h : statement ∈ Script.statements text) :
    ∃ init last, significant statement.tokens = init ++ [last] := by
  have hne := Script.significant_ne_nil_of_mem_parts
    (Script.tokens_mem_parts_of_mem_statements h)
  obtain ⟨init, last, hsplit⟩ := (List.eq_nil_or_concat' _).resolve_left hne
  exact ⟨init, last, hsplit⟩

theorem plainText_ne_empty {text : String} {statement : Statement}
    (h : statement ∈ Script.statements text) : statement.plainText ≠ "" := by
  obtain ⟨init, last, hsplit⟩ := exists_significant_eq h
  obtain ⟨hlexemes, -⟩ := significant_tokenize_plainText h hsplit
  intro hempty
  rw [hempty, tokenize_eq_nil_iff.2 rfl, significant_nil, List.map_nil] at hlexemes
  simp at hlexemes

theorem tokens_bare_plainText {text : String} {statement : Statement}
    (h : statement ∈ Script.statements text) :
    Relayout.bare.tokens (tokenize statement.plainText) =
      Relayout.bare.tokens statement.tokens := by
  obtain ⟨init, last, hsplit⟩ := exists_significant_eq h
  obtain ⟨hlexemes, htrim⟩ := significant_tokenize_plainText h hsplit
  rw [Relayout.tokens_bare, Relayout.tokens_bare, hlexemes, hsplit]
  simp only [List.map_append, List.map_cons, List.map_nil,
    Lexeme.trimQuoted_trimEnd _ htrim]

/-- Read again, a plain text is one statement, and whatever the bare layout keeps of a
statement is the same for that. -/
theorem map_statements_plainText {text : String} {statement : Statement} {β : Type}
    (h : statement ∈ Script.statements text) {F : Statement → β}
    (hF : ∀ statement, F (Relayout.bare.statement statement) = F statement) :
    (Script.statements statement.plainText).map F = [F statement] := by
  have hparts :=
    Script.parts_of_mem_parts (Script.tokens_mem_parts_of_mem_statements h)
  rw [Script.statements, Relayout.map_ofTokens_eq _ hF (tokens_bare_plainText h),
    Script.ofTokens, hparts, List.map_singleton, ofTokens_tokens h,
    List.map_singleton]

end Statement

namespace Script

theorem plainTexts_eq_map (text : String) :
    plainTexts text = (statements text).map Statement.plainText := by
  rw [plainTexts, List.filter_eq_self]
  intro plain hplain
  obtain ⟨statement, hstatement, rfl⟩ := List.mem_map.1 hplain
  simpa using Statement.plainText_ne_empty hstatement

end Script

end SqlOutline
