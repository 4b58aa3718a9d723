import SqlOutline.Proofs.Script.Closed

/-!
# Scripts that ask for plans

A script that asks for the plan of each statement has those statements and no others,
each behind the word `EXPLAIN` (`plainTexts_explain`). The word and its space go
before an entry and make an entry of it, and what is written entry by entry is read
entry by entry.
-/

namespace SqlOutline

open Token

namespace Script

/-! ## Written entries -/

theorem plainTexts_written {entries : List String}
    (h : ∀ entry ∈ entries, IsEntry entry) :
    plainTexts (written entries) = entries := by
  have hwritten := forall₂_statements_written h
  rw [plainTexts_eq_map]
  generalize statements (written entries) = statements at hwritten
  induction hwritten with
  | nil => rfl
  | @cons statement entry statements entries hwrites _ ih =>
    obtain ⟨hentry, hentries⟩ := List.forall_mem_cons.1 h
    rw [List.map_cons, hwrites.plainText_eq hentry, ih hentries]

theorem isComment_eq_false_of_mem_written {entries : List String}
    (h : ∀ entry ∈ entries, IsEntry entry) :
    ∀ lexeme ∈ lexemes (written entries).toList, lexeme.isComment = false := by
  induction entries with
  | nil =>
    rw [written_nil]
    simp
  | cons entry entries ih =>
    obtain ⟨hentry, hentries⟩ := List.forall_mem_cons.1 h
    obtain ⟨gap, hgap, hlexemes⟩ := exists_lexemes_written_cons h
    have hblank : ∀ lexeme ∈ gap, lexeme.isComment = false := by
      rcases hgap with rfl | rfl
      · simp
      · exact List.forall_mem_singleton.2 rfl
    rw [hlexemes, List.forall_mem_append, List.forall_mem_cons,
      List.forall_mem_append]
    exact ⟨hentry.isComment_eq_false, rfl, hblank, ih hentries⟩

/-! ## Entries behind a word -/

def explained (entry : String) : String :=
  "EXPLAIN " ++ entry

def explainLexemes : List Lexeme :=
  [⟨.keyword .explain, "EXPLAIN"⟩, ⟨.whitespace, " "⟩]

private theorem isInner_of_mem_explainLexemes :
    ∀ token ∈ unplaced explainLexemes, token.IsInner := by
  simp [explainLexemes, Lexeme.IsInner, Lexeme.opens, Lexeme.closes]

private theorem lexemes_explain :
    lexemes "EXPLAIN".toList = [] ++ [⟨.keyword .explain, "EXPLAIN"⟩] := by
  decide +kernel

namespace IsEntry

variable {entry : String}

theorem lexemes_explained (h : IsEntry entry) :
    lexemes (explained entry).toList = explainLexemes ++ lexemes entry.toList := by
  obtain ⟨c, cs, hchars, hc⟩ := h.head?_not_isBlank
  have hsealed : Sealed "EXPLAIN".toList :=
    sealed_of_lexemes_eq lexemes_explain rfl rfl
  have hsplit : (explained entry).toList =
      "EXPLAIN".toList ++ ' ' :: entry.toList := by
    rw [explained, String.toList_append]
    rfl
  rw [hsplit, hsealed _ (Text.isBreak_of_head?_eq rfl (by decide)), lexemes_explain,
    hchars, lexemes_cons_of_isBlank _ (by decide),
    List.takeWhile_cons_of_neg (by simp [hc]),
    List.dropWhile_cons_of_neg (by simp [hc])]
  rfl

theorem explained (h : IsEntry entry) : IsEntry (explained entry) := by
  have hlexemes := h.lexemes_explained
  have hinner := isInner_of_mem_explainLexemes
  have hlast : (lexemes (Script.explained entry).toList).getLast? =
      (lexemes entry.toList).getLast? := by
    rw [hlexemes, List.getLast?_append_of_ne_nil _ h.ne_nil]
  have hunplaced : unplaced (lexemes (Script.explained entry).toList) =
      unplaced explainLexemes ++ unplaced (lexemes entry.toList) := by
    rw [hlexemes, unplaced_append]
  constructor
  · rw [hlexemes]
    exact List.cons_ne_nil _ _
  · rw [hlexemes]
    rintro first (hfirst : some _ = some first)
    rw [← Option.some.inj hfirst]
    rfl
  · rw [hlast]
    exact h.last_significant
  · rw [hlast]
    exact h.last_terminated
  · rw [hlexemes, List.forall_mem_append]
    exact ⟨by decide, h.isComment_eq_false⟩
  · rw [hunplaced, isUndivided_append_iff _ (depth_of_isInner hinner)]
    exact ⟨isUndivided_of_isInner hinner, h.isUndivided⟩
  · rw [hunplaced, depth_append _ (depth_of_isInner hinner)]
    exact h.depth_eq

end IsEntry

/-! ## The script -/

theorem explain_eq_written (text : String) :
    explain text = written ((plainTexts text).map explained) := by
  rw [explain, written, List.map_map]
  rfl

/-- A closed script that asks for the plans of another has the statements of that in
their order, each behind the word, and no comments. -/
theorem plainTexts_explain {text : String} (hclosed : IsClosed text) :
    plainTexts (explain text) =
        (plainTexts text).map (fun plain => "EXPLAIN " ++ plain) ∧
      ∀ token ∈ tokenize (explain text), token.isComment = false := by
  have hentries : ∀ entry ∈ (plainTexts text).map explained, IsEntry entry := by
    rw [plainTexts_eq_map, List.map_map, List.forall_mem_map]
    intro statement hstatement
    exact (hclosed.isEntry_plainText hstatement).explained
  rw [explain_eq_written]
  refine ⟨plainTexts_written hentries, fun token htoken => ?_⟩
  apply isComment_eq_false_of_mem_written hentries
  rw [← map_toLexeme_tokenize]
  exact List.mem_map_of_mem htoken

def quotedScript : String :=
  "with t as (select ';')/*;*/select `;` from t; ; delete from u /*;"

theorem plainTexts_explain_quotedScript :
    IsClosed quotedScript ∧
      plainTexts quotedScript =
        ["with t as (select ';') select `;` from t", "delete from u"] ∧
      plainTexts (explain quotedScript) =
        (plainTexts quotedScript).map (fun plain => "EXPLAIN " ++ plain) ∧
      ∀ token ∈ tokenize (explain quotedScript), token.isComment = false := by
  have hclosed : IsClosed quotedScript :=
    IsClosed.of_space (by decide +kernel) (by decide +kernel)
  exact ⟨hclosed, by decide +kernel, plainTexts_explain hclosed⟩

end Script

end SqlOutline
