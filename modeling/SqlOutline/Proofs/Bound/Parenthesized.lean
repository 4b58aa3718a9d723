import SqlOutline.Proofs.Bound.Wrapped
import SqlOutline.Proofs.Bound.Agreement
import SqlOutline.Proofs.Script.Junction

/-!
# Queries in parentheses

A statement in parentheses is one group, and so it has no clause but the group itself.
What kind of statement it is shows in its first word, which is seen through the
parentheses. The query behind the definitions of a `WITH` is not seen there: in
parentheses such a query is no query (`rowLimit?_parenthesized`).
-/

namespace SqlOutline

open Token

section Parentheses

variable {inner : List Token} {opening closing : Token}
  (hopens : opening.opens = true) (hcloses : closing.closes = true)

include hopens hcloses

theorem StatementKind.ofTokens_parentheses :
    StatementKind.ofTokens (opening :: (inner ++ [closing])) =
      StatementKind.ofTokens inner := by
  have hskip : leading? (opening :: (inner ++ [closing])) =
      leading? (inner ++ [closing]) := by
    rw [leading?, List.dropWhile_cons_of_pos (by simp [hopens]), leading?]
  rw [StatementKind.ofTokens, hskip, ← StatementKind.ofTokens]
  cases hleading : leading? inner with
  | some token =>
    exact StatementKind.ofTokens_append [closing] (by rw [hleading]; rfl)
  | none =>
    have hkind : closing.kind = .parenClose := by simpa [Lexeme.closes] using hcloses
    have hclosing : leading? (inner ++ [closing]) = some closing := by
      rw [leading?, List.head?_eq_none_iff] at hleading
      rw [leading?, List.dropWhile_append, hleading, List.isEmpty_nil, if_pos rfl,
        List.dropWhile_cons_of_neg
          (by simp [Lexeme.isTrivia, TokenKind.isTrivia, Lexeme.opens, hkind])]
      rfl
    have hkeyword : closing.keyword? = none := by rw [Lexeme.keyword?, hkind]; rfl
    rw [StatementKind.ofTokens, StatementKind.ofTokens, hclosing, hleading,
      Option.bind_some, hkeyword]
    rfl

variable (hdepth : depth inner = 0) (hmatched : IsMatched inner)

include hdepth hmatched

/-- A group opens no clause: all of it comes before the first one. -/
theorem Passage.sections_parentheses :
    (⟨false, opening :: (inner ++ [closing])⟩ : Passage).sections =
      [⟨.leading, [], [.group opening inner (some closing)]⟩] := by
  have hclause : (⟨false, opening :: (inner ++ [closing])⟩ : Passage).openingClause =
      .leading := by
    rw [Passage.openingClause]
    split <;> simp
  have hcut : ∀ traits,
      Section.cut traits none [.group opening inner (some closing)] =
        ([.group opening inner (some closing)], []) := by
    intro traits
    have hnone :
        Heading.at? traits none (.group opening inner (some closing)) [] = none := rfl
    rw [Section.cut, hnone, Section.cut]
  rw [Passage.sections, Piece.ofTokens_parentheses hopens hcloses hdepth hmatched,
    hcut, hclause]
  simp [Piece.isTrivia]

namespace Statement

theorem exists_clauses_parentheses :
    ∃ clause : Clause Statement, clause.kind = .leading ∧
      (Statement.ofTokens (opening :: (inner ++ [closing]))).clauses = [clause] := by
  obtain ⟨nested, hclauses⟩ :=
    exists_nested_of_ofPassage nestingLimit ⟨false, opening :: (inner ++ [closing])⟩
  rw [Passage.sections_parentheses hopens hcloses hdepth hmatched] at hclauses
  exact ⟨_, rfl, hclauses⟩

theorem isQuery_parentheses :
    (Statement.ofTokens (opening :: (inner ++ [closing]))).isQuery =
      (StatementKind.ofTokens inner == .select) := by
  obtain ⟨clause, hkind, hclauses⟩ :=
    exists_clauses_parentheses hopens hcloses hdepth hmatched
  have hfind : [clause].find?
        (fun clause => clause.kind != .with && clause.kind != .leading) = none := by
    simp [hkind]
  rw [isQuery, mainKind, hclauses, hfind, kind_ofTokens,
    StatementKind.ofTokens_parentheses hopens hcloses]
  split
  · next hwith => rw [hwith]; rfl
  · rfl

theorem rowBound_parentheses (dialect : Dialect) :
    (Statement.ofTokens (opening :: (inner ++ [closing]))).rowBound dialect =
      .absent := by
  obtain ⟨clause, hkind, hclauses⟩ :=
    exists_clauses_parentheses hopens hcloses hdepth hmatched
  have hcombined :
      (Statement.ofTokens (opening :: (inner ++ [closing]))).isCombined = false := by
    rw [isCombined, hclauses, List.any_cons, hkind]
    rfl
  rw [rowBound, boundIn_eq_absent_iff, lastBranch_eq_clauses hcombined, hclauses,
    List.forall_mem_singleton, RowBound.ofClause, hkind]

end Statement

end Parentheses

namespace Script

/-- A text in parentheses, the last of them on a line of its own. -/
def parenthesized (text : String) : String :=
  "(" ++ text ++ "\n)"

section Parenthesized

variable {text : String} (h : IsComplete text)

include h

private theorem significant_parenthesized :
    (significant (tokenize (parenthesized text))).map Token.toLexeme =
      wrapperOpening ::
        ((significant (tokenize text)).map Token.toLexeme ++ [wrapperClosing]) := by
  obtain ⟨kept, blanks, blanks', hkept, hread, hblanks, hblanks'⟩ :=
    exists_lexemes_append_lineBreak h.forall_mem_lexemes ')' (by decide)
  have hchars : (parenthesized text).toList =
      '(' :: (text.toList ++ ['\n', ')']) := by
    simp [parenthesized]
  have hlexemes : lexemes (parenthesized text).toList =
      wrapperOpening :: (kept ++ (blanks' ++ [wrapperClosing])) := by
    rw [hchars, lexemes_parenOpen, hread, lexemes_parenClose, lexemes_nil]
  have hnone : ∀ ls : List Lexeme, (∀ lexeme ∈ ls, lexeme.IsBlank) →
      (ls.filter fun lexeme => !lexeme.isTrivia) = [] := by
    intro ls hls
    rw [List.filter_eq_nil_iff]
    exact fun lexeme hlexeme => by simp [(hls lexeme hlexeme).isTrivia]
  rw [map_toLexeme_significant_eq, map_toLexeme_significant_eq, map_toLexeme_tokenize,
    map_toLexeme_tokenize, hlexemes, hkept, List.filter_cons_of_pos (by decide),
    List.filter_append, List.filter_append, List.filter_append, hnone blanks hblanks,
    hnone blanks' hblanks', List.append_nil, List.nil_append]
  rfl

private theorem unplaced_significant_parenthesized :
    unplaced ((significant (tokenize (parenthesized text))).map Token.toLexeme) =
      ⟨wrapperOpening, 0, 0, 0⟩ :: (Relayout.stripping.tokens (tokenize text) ++
        [⟨wrapperClosing, 0, 0, 0⟩]) := by
  rw [significant_parenthesized h, unplaced_cons, unplaced_append,
    ← Relayout.tokens_stripping]
  rfl

theorem statements_parenthesized (hmatched : IsMatched (tokenize text)) :
    statements (parenthesized text) =
      [Statement.ofTokens (tokenize (parenthesized text))] := by
  have hdepth : depth (Relayout.stripping.tokens (tokenize text)) = 0 := by
    rw [Relayout.depth_tokens, h.depth_eq]
  apply statements_eq_of_isUndivided
  · rw [← Relayout.stripping.isUndivided_tokens_iff, Relayout.tokens_stripping,
      unplaced_significant_parenthesized h, IsUndivided,
      Piece.ofTokens_parentheses rfl rfl hdepth
        (Relayout.stripping.isMatched_tokens hmatched), List.forall_mem_singleton]
    rfl
  · intro hnil
    have hwords := significant_parenthesized h
    rw [hnil] at hwords
    exact List.cons_ne_nil _ _ hwords.symm

private theorem rowLimit?_parenthesized_eq (hmatched : IsMatched (tokenize text))
    (dialect : Dialect) :
    rowLimit? (parenthesized text) dialect =
      if StatementKind.ofTokens (tokenize text) = .select then some (-1)
        else none := by
  have hdepth : depth (Relayout.stripping.tokens (tokenize text)) = 0 := by
    rw [Relayout.depth_tokens, h.depth_eq]
  have hmatched' := Relayout.stripping.isMatched_tokens hmatched
  have hread := Statement.eq_unplaced
    (F := fun statement => (statement.isQuery, statement.rowBound dialect)) (by simp)
    (rfl : (significant (tokenize (parenthesized text))).map Token.toLexeme = _)
  rw [unplaced_significant_parenthesized h,
    Statement.isQuery_parentheses rfl rfl hdepth hmatched',
    Statement.rowBound_parentheses rfl rfl hdepth hmatched',
    Relayout.kind_ofTokens_tokens] at hread
  have hstatement : (statements (parenthesized text)).map
      (fun statement => (statement.isQuery, statement.rowBound dialect)) =
        [(StatementKind.ofTokens (tokenize text) == .select, .absent)] := by
    rw [statements_parenthesized h hmatched, List.map_singleton, hread]
  simpa [RowBound.limit] using rowLimit?_eq hstatement

end Parenthesized

/-- A query in parentheses is a query with no bound of its own, unless it begins with
definitions: the query behind those is not seen there, and the text counts as no
query. -/
theorem rowLimit?_parenthesized {text : String} (hcomplete : IsComplete text)
    (hmatched : IsMatched (tokenize text)) (hundivided : IsUndivided (tokenize text))
    {statement : Statement} (h : statements text = [statement]) (dialect : Dialect) :
    rowLimit? (parenthesized text) dialect =
        (if statement.kind = .select then some (-1) else none) ∧
      (rowLimit? (parenthesized text) dialect ≠ none ↔
        rowLimit? text dialect ≠ none ∧ statement.kind ≠ .with) := by
  have hkind : StatementKind.ofTokens (tokenize text) = statement.kind := by
    have hwhole :=
      eq_ofTokens_of_isUndivided hundivided (h ▸ List.mem_singleton_self statement)
    rw [hwhole, Statement.kind_ofTokens]
  have hlimit := rowLimit?_parenthesized_eq hcomplete hmatched dialect
  rw [hkind] at hlimit
  have hquery : rowLimit? text dialect ≠ none ↔ statement.mainKind = .select := by
    have hstatements : (statements text).map
        (fun statement => (statement.isQuery, statement.rowBound dialect)) =
          [(statement.isQuery, statement.rowBound dialect)] := by
      rw [h, List.map_singleton]
    rw [rowLimit?_eq hstatements]
    simp [Statement.isQuery]
  refine ⟨hlimit, ?_⟩
  rw [hlimit, hquery, Statement.mainKind]
  by_cases hwith : statement.kind = .with
  · simp [hwith]
  · simp [hwith]

def unionScript : String := "(select a from t) union select b limit 3 /*)*/ --)"

theorem rowLimit?_parenthesized_unionScript :
    IsComplete unionScript ∧ IsMatched (tokenize unionScript) ∧
      IsUndivided (tokenize unionScript) ∧
      statements unionScript = [Statement.ofTokens (tokenize unionScript)] ∧
      rowLimit? unionScript .generic = some 3 ∧
      rowLimit? (parenthesized unionScript) .generic = some (-1) := by
  have hcomplete : IsComplete unionScript :=
    IsComplete.of_space (by decide +kernel) (by decide +kernel)
  have hmatched : IsMatched (tokenize unionScript) := by decide +kernel
  have hundivided : IsUndivided (tokenize unionScript) := by
    rw [IsUndivided]
    decide +kernel
  have hstatements : statements unionScript =
      [Statement.ofTokens (tokenize unionScript)] :=
    statements_eq_singleton (by decide +kernel)
  have hselect : (Statement.ofTokens (tokenize unionScript)).kind = .select := by
    decide +kernel
  have hlimit :=
    (rowLimit?_parenthesized hcomplete hmatched hundivided hstatements .generic).1
  rw [if_pos hselect] at hlimit
  exact ⟨hcomplete, hmatched, hundivided, hstatements, by decide +kernel, hlimit⟩

def definedScript : String := "with a as (select 1) select * from a"

/-- In parentheses the query is hidden behind its definitions, and its missing bound
with it. -/
theorem rowLimit?_parenthesized_definedScript :
    IsComplete definedScript ∧ IsMatched (tokenize definedScript) ∧
      IsUndivided (tokenize definedScript) ∧ (statements definedScript).length = 1 ∧
      rowLimit? definedScript .generic = some (-1) ∧
      rowLimit? (parenthesized definedScript) .generic = none := by
  refine ⟨IsComplete.of_space (by decide +kernel) (by decide +kernel),
    by decide +kernel, ?_, by decide +kernel, by decide +kernel, by decide +kernel⟩
  rw [IsUndivided]
  decide +kernel

end Script

end SqlOutline
