import SqlOutline.Bound.Insertion
import SqlOutline.Proofs.Bound.Appended
import SqlOutline.Proofs.Script.Closed

/-!
# The text of a bound behind a query

A bound is written behind an entry as words with a space before each. What comes out
is an entry again, and its lexemes are those of the entry and then those of the bound.
-/

namespace SqlOutline

open Token

namespace Script

/-- An entry stays one if inner lexemes are put in the place of others, where no
parenthesis is open. -/
theorem IsEntry.splice {entry text : String} (h : IsEntry entry)
    {front alone inserted later : List Lexeme}
    (hentry : lexemes entry.toList = front ++ (alone ++ later))
    (htext : lexemes text.toList = front ++ (inserted ++ later)) (hne : front ≠ [])
    (hdepth : depth (unplaced front) = 0) (halone : ∀ lexeme ∈ alone, lexeme.IsInner)
    (hinserted : ∀ lexeme ∈ inserted, lexeme.IsInner ∧ lexeme.isComment = false)
    (hlast : ∃ init last, inserted = init ++ [last] ∧ last.isTrivia = false ∧
      last.isQuoted = false) : IsEntry text := by
  have haloneDepth := depth_of_isInner (forall_mem_unplaced.2 halone)
  have hinsertedInner : ∀ token ∈ unplaced inserted, token.IsInner :=
    forall_mem_unplaced.2 fun lexeme hlexeme => (hinserted lexeme hlexeme).1
  have hinsertedDepth := depth_of_isInner hinsertedInner
  have hends : ∀ last ∈ (lexemes text.toList).getLast?, last.isTrivia = false ∧
      ¬ last.IsUnterminated := by
    intro last hmem
    rw [htext, ← List.append_assoc] at hmem
    cases hlater : later with
    | nil =>
      obtain ⟨init, word, hword, htrivia, hquoted⟩ := hlast
      rw [hlater, List.append_nil, hword, ← List.append_assoc, List.getLast?_concat,
        Option.mem_some_iff] at hmem
      rw [← hmem]
      exact ⟨htrivia, Lexeme.not_isUnterminated hquoted⟩
    | cons first rest =>
      have hsame : last ∈ (lexemes entry.toList).getLast? := by
        rw [List.getLast?_append_of_ne_nil _
          (hlater ▸ List.cons_ne_nil first rest)] at hmem
        rw [hentry, ← List.append_assoc,
          List.getLast?_append_of_ne_nil _ (hlater ▸ List.cons_ne_nil first rest)]
        exact hmem
      exact ⟨h.last_significant last hsame, h.last_terminated last hsame⟩
  have hundivided := h.isUndivided
  have hentryDepth := h.depth_eq
  rw [hentry, unplaced_append, unplaced_append, isUndivided_append_iff _ hdepth,
    isUndivided_append_iff _ haloneDepth] at hundivided
  rw [hentry, unplaced_append, unplaced_append, depth_append _ hdepth,
    depth_append _ haloneDepth] at hentryDepth
  constructor
  · rw [htext]
    exact List.append_ne_nil_of_left_ne_nil hne _
  · obtain ⟨first, rest, rfl⟩ := List.exists_cons_of_ne_nil hne
    have hhead := h.head_significant
    rw [hentry] at hhead
    rw [htext]
    exact hhead
  · exact fun last hmem => (hends last hmem).1
  · exact fun last hmem => (hends last hmem).2
  · rw [htext]
    intro lexeme hlexeme
    have hcomment := h.isComment_eq_false
    rw [hentry] at hcomment
    simp only [List.mem_append] at hcomment hlexeme
    rcases hlexeme with hlexeme | hlexeme | hlexeme
    · exact hcomment lexeme (Or.inl hlexeme)
    · exact (hinserted lexeme hlexeme).2
    · exact hcomment lexeme (Or.inr (Or.inr hlexeme))
  · rw [htext, unplaced_append, unplaced_append, isUndivided_append_iff _ hdepth,
      isUndivided_append_iff _ hinsertedDepth]
    exact ⟨hundivided.1, isUndivided_of_isInner hinsertedInner, hundivided.2.2⟩
  · rw [htext, unplaced_append, unplaced_append, depth_append _ hdepth,
      depth_append _ hinsertedDepth]
    exact hentryDepth

end Script

namespace BoundForm

def suffix (count : Nat) : BoundForm → List Char
  | .limit => " limit".toList ++ ' ' :: digitsOf count
  | .fetch => " fetch first".toList ++ (' ' :: digitsOf count ++ " rows only".toList)
  | .top => []

theorem toList_insertBound {form : BoundForm} (h : form.IsSuffix) (query : String)
    (count : Nat) :
    (Script.insertBound query count form).toList =
      query.toList ++ form.suffix count := by
  rcases h with rfl | rfl
  · have htext : Script.insertBound query count .limit =
        query ++ " limit " ++ toString count := rfl
    have hspace : " limit ".toList = " limit".toList ++ [' '] := by decide
    rw [htext, String.toList_append, String.toList_append, hspace, List.append_assoc,
      List.append_assoc]
    rfl
  · have htext : Script.insertBound query count .fetch =
        query ++ " fetch first " ++ toString count ++ " rows only" := rfl
    have hspace : " fetch first ".toList = " fetch first".toList ++ [' '] := by decide
    rw [htext, String.toList_append, String.toList_append, String.toList_append,
      hspace, List.append_assoc, List.append_assoc, List.append_assoc]
    rfl

def space : Lexeme :=
  ⟨.whitespace, " "⟩

private theorem lexemes_limit :
    lexemes " limit".toList = [space] ++ [⟨.keyword .limit, "limit"⟩] := by
  decide +kernel

private theorem lexemes_fetch_first : lexemes " fetch first".toList =
    [space, ⟨.keyword .fetch, "fetch"⟩, space] ++ [⟨.identifier, "first"⟩] := by
  decide +kernel

private theorem lexemes_rows_only : lexemes " rows only".toList =
    [space, ⟨.identifier, "rows"⟩, space] ++ [⟨.identifier, "only"⟩] := by
  decide +kernel

theorem lexemes_suffix {form : BoundForm} (h : form.IsSuffix) (count : Nat) :
    lexemes (form.suffix count) =
      (form.words count).flatMap fun word => [space, word] := by
  have hdigits := lexemes_space_digitsOf count
  rcases h with rfl | rfl
  · have hread : lexemes (suffix count .limit) =
        lexemes " limit".toList ++ lexemes (' ' :: digitsOf count) :=
      sealed_of_lexemes_eq lexemes_limit rfl rfl _
        (Text.isBreak_of_head?_eq rfl (by decide))
    rw [hread, lexemes_limit, hdigits]
    rfl
  · have hread : lexemes (suffix count .fetch) =
        lexemes " fetch first".toList ++
          lexemes (' ' :: digitsOf count ++ " rows only".toList) :=
      sealed_of_lexemes_eq lexemes_fetch_first rfl rfl _
        (Text.isBreak_of_head?_eq rfl (by decide))
    rw [hread,
      sealed_space_digitsOf count _ (Text.isBreak_of_head?_eq rfl (by decide)),
      lexemes_fetch_first, lexemes_rows_only, hdigits]
    rfl

theorem isInner_words {form : BoundForm} {count : Nat} {word : Lexeme}
    (h : word ∈ form.words count) : word.IsInner ∧ word.isTrivia = false := by
  cases form with
  | limit =>
    simp only [words, List.mem_cons, List.not_mem_nil, or_false] at h
    rcases h with rfl | rfl <;>
      exact ⟨by simp [Lexeme.IsInner, Lexeme.opens, Lexeme.closes], rfl⟩
  | fetch =>
    simp only [words, List.mem_cons, List.not_mem_nil, or_false] at h
    rcases h with rfl | rfl | rfl | rfl | rfl <;>
      exact ⟨by simp [Lexeme.IsInner, Lexeme.opens, Lexeme.closes], rfl⟩
  | top => simp [words] at h

private theorem filter_lexemes_suffix {form : BoundForm} (h : form.IsSuffix)
    (count : Nat) :
    ((lexemes (form.suffix count)).filter fun lexeme => !lexeme.isTrivia) =
      form.words count := by
  rw [lexemes_suffix h count]
  have hwords : ∀ word ∈ form.words count, word.isTrivia = false := fun word hword =>
    (isInner_words hword).2
  generalize form.words count = ls at hwords
  induction ls with
  | nil => rfl
  | cons word ls ih =>
    have hword := hwords word (List.mem_cons_self ..)
    rw [List.flatMap_cons, List.filter_append,
      ih fun other hother => hwords other (List.mem_cons_of_mem word hother),
      List.filter_cons_of_neg (by decide),
      List.filter_cons_of_pos (by simpa using hword), List.filter_nil,
      List.singleton_append]

theorem exists_lexemes_suffix_eq {form : BoundForm} (h : form.IsSuffix)
    (count : Nat) :
    ∃ init last, lexemes (form.suffix count) = init ++ [last] ∧
      last.isTrivia = false ∧ last.isQuoted = false := by
  have hwords : ∃ init last, form.words count = init ++ [last] ∧
      last.isTrivia = false ∧ last.isQuoted = false := by
    rcases h with rfl | rfl
    · exact ⟨[⟨.keyword .limit, "limit"⟩], ⟨.number, toString count⟩, rfl, rfl, rfl⟩
    · exact ⟨[⟨.keyword .fetch, "fetch"⟩, ⟨.identifier, "first"⟩,
          ⟨.number, toString count⟩, ⟨.identifier, "rows"⟩], ⟨.identifier, "only"⟩,
        rfl, rfl, rfl⟩
  obtain ⟨init, last, hsplit, hlast⟩ := hwords
  refine ⟨(init.flatMap fun word => [space, word]) ++ [space], last, ?_, hlast⟩
  rw [lexemes_suffix h count, hsplit, List.flatMap_append, List.flatMap_singleton,
    List.append_assoc]
  rfl

/-- A bounded entry is an entry, with the words of the bound behind its own. -/
theorem isEntry_insertBound {form : BoundForm} (hform : form.IsSuffix)
    {entry : String} (h : Script.IsEntry entry) (count : Nat) :
    Script.IsEntry (Script.insertBound entry count form) ∧
      ((lexemes (Script.insertBound entry count form).toList).filter fun lexeme =>
          !lexeme.isTrivia) =
        ((lexemes entry.toList).filter fun lexeme => !lexeme.isTrivia) ++
          form.words count := by
  have hspace : (form.suffix count).head? = some ' ' := by
    rcases hform with rfl | rfl <;> rfl
  have hinner : ∀ lexeme ∈ lexemes (form.suffix count),
      lexeme.IsInner ∧ lexeme.isComment = false := by
    rw [lexemes_suffix hform count]
    intro lexeme hlexeme
    obtain ⟨word, hword, hpair⟩ := List.mem_flatMap.1 hlexeme
    obtain ⟨hwordInner, hwordTrivia⟩ := isInner_words hword
    rw [List.mem_cons, List.mem_singleton] at hpair
    rcases hpair with rfl | rfl
    · exact ⟨by simp [Lexeme.IsInner, space, Lexeme.opens, Lexeme.closes], rfl⟩
    · exact ⟨hwordInner, (Lexeme.isTrivia_eq_false_iff.1 hwordTrivia).2⟩
  have hlexemes : lexemes (Script.insertBound entry count form).toList =
      lexemes entry.toList ++ (lexemes (form.suffix count) ++ []) := by
    rw [toList_insertBound hform, List.append_nil]
    exact h.isSealed _ (Text.isBreak_of_head?_eq hspace (by decide))
  have hself : lexemes entry.toList = lexemes entry.toList ++ ([] ++ []) :=
    (List.append_nil _).symm
  have hentry : Script.IsEntry (Script.insertBound entry count form) :=
    h.splice hself hlexemes h.ne_nil h.depth_eq (by simp) hinner
      (exists_lexemes_suffix_eq hform count)
  refine ⟨hentry, ?_⟩
  rw [hlexemes, List.append_nil, List.filter_append, filter_lexemes_suffix hform]

end BoundForm

end SqlOutline
