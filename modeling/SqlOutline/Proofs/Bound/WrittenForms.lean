import Mathlib.Algebra.Group.Nat.Defs
import SqlOutline.Proofs.Bound.Combined
import SqlOutline.Proofs.Script.Spelling

/-!
# The forms of a bound behind a query

A query without a bound is limited by the bound that is written behind it, on a line
of its own: to the number of rows that the bound names, in a dialect that reads the
form and if the number is not too large (`rowLimit?_withBound`).
-/

namespace SqlOutline

open Token

/-! ## Written bounds -/

structure Numeral where
  digits : List Char
  ne_nil : digits ≠ []
  isDigit : ∀ c ∈ digits, c.isDigit = true

namespace Numeral

variable (numeral : Numeral)

def text : String :=
  String.ofList numeral.digits

def value : Nat :=
  Nat.ofDigitChars 10 numeral.digits 0

def lexeme : Lexeme :=
  ⟨.number, numeral.text⟩

theorem isDelimited_lexeme : numeral.lexeme.IsDelimited :=
  Lexeme.isDelimited_number numeral.ne_nil numeral.isDigit

theorem literal?_eq {token : Token} (h : token.toLexeme = numeral.lexeme) :
    RowBound.literal? token =
      if numeral.value ≤ RowBound.largestCount then some numeral.value else none :=
  RowBound.literal?_of_isDigit h numeral.isDigit

end Numeral

inductive RowUnit where
  | row | rows

def RowUnit.text : RowUnit → String
  | .row => "row"
  | .rows => "rows"

inductive FetchWord where
  | first | next

def FetchWord.text : FetchWord → String
  | .first => "first"
  | .next => "next"

inductive FetchEnd where
  | only | withTies

namespace FetchEnd

def text : FetchEnd → String
  | .only => "only"
  | .withTies => "with ties"

def lexemes : FetchEnd → List Lexeme
  | .only => [⟨.identifier, "only"⟩]
  | .withTies => [⟨.keyword .with, "with"⟩, ⟨.identifier, "ties"⟩]

end FetchEnd

inductive WrittenBound where
  /-- `limit n`. -/
  | limit (count : Numeral)
  /-- `limit m, n`. -/
  | limitAfter (skipped count : Numeral)
  /-- `limit n offset m`. -/
  | limitOffset (count skipped : Numeral)
  /-- `[offset m {row | rows}]`, and then
  `fetch {first | next} [n] {row | rows} {only | with ties}`. -/
  | fetch (skipped : Option (Numeral × RowUnit)) (word : FetchWord)
      (count : Option Numeral) (unit : RowUnit) (ending : FetchEnd)

namespace WrittenBound

def text : WrittenBound → String
  | .limit count => "limit " ++ count.text
  | .limitAfter skipped count => "limit " ++ skipped.text ++ ", " ++ count.text
  | .limitOffset count skipped => "limit " ++ count.text ++ " offset " ++ skipped.text
  | .fetch none word count unit ending => fetchText word count unit ending
  | .fetch (some (number, other)) word count unit ending =>
    "offset " ++ number.text ++ " " ++ other.text ++ " " ++
      fetchText word count unit ending
where
  fetchText (word : FetchWord) (count : Option Numeral) (unit : RowUnit)
    (ending : FetchEnd) : String :=
    "fetch " ++ word.text ++ (count.elim "" fun number => " " ++ number.text) ++
      " " ++ unit.text ++ " " ++ ending.text

def form : WrittenBound → BoundForm
  | .limit _ | .limitAfter _ _ | .limitOffset _ _ => .limit
  | .fetch .. => .fetch

def count : WrittenBound → Nat
  | .limit count | .limitAfter _ count | .limitOffset count _ => count.value
  | .fetch _ _ count _ _ => count.elim 1 Numeral.value

end WrittenBound

/-! ## The clauses of a written bound -/

def Clause.ofWords (kind : ClauseKind) (word : Lexeme) (body : List Lexeme) :
    Clause Statement :=
  ⟨kind, unplaced [word], unplaced body, []⟩

def Clause.IsPlain (clause : Clause Statement) : Prop :=
  ∃ word, clause.head = [word] ∧ PlainClause clause.kind word clause.body ∧
    clause.nested = []

theorem Statement.clauses_ofTokens_append {more : List (Clause Statement)}
    (hplain : ∀ clause ∈ more, clause.IsPlain) {tokens : List Token}
    (hdepth : depth tokens = 0) (hleading : (leading? tokens).isSome = true)
    (hinsert : StatementKind.ofTokens tokens ≠ .insert)
    (hcreate : StatementKind.ofTokens tokens ≠ .create) :
    (ofTokens (tokens ++ more.flatMap Clause.tokens)).clauses =
      (ofTokens tokens).clauses ++ more := by
  induction more generalizing tokens with
  | nil => simp
  | cons clause more ih =>
    obtain ⟨⟨word, hhead, hclause, hnested⟩, hmore⟩ := List.forall_mem_cons.1 hplain
    have htokens : clause.tokens = word :: clause.body := by
      rw [Clause.tokens, hhead, List.singleton_append]
    have hsame : clause = ⟨clause.kind, [word], clause.body, []⟩ := by
      cases clause
      cases hhead
      cases hnested
      rfl
    have hkind : StatementKind.ofTokens (tokens ++ word :: clause.body) =
        StatementKind.ofTokens tokens := StatementKind.ofTokens_append _ hleading
    have hdepth' : depth (tokens ++ word :: clause.body) = 0 := by
      rw [depth_append _ hdepth, depth_of_not_opens hclause.opens_eq_false]
    rw [List.flatMap_cons, htokens, ← List.append_assoc,
      ih hmore hdepth' (by rwa [leading?_append _ hleading]) (by rwa [hkind])
        (by rwa [hkind]),
      hclause.clauses_ofTokens_append hdepth hleading hinsert hcreate, ← hsame,
      List.append_assoc, List.singleton_append]

theorem Statement.boundIn_of_clauses_append {longer shorter : Statement}
    {more : List (Clause Statement)}
    (hclauses : longer.clauses = shorter.clauses ++ more)
    (hset : ∀ clause ∈ more, clause.kind.isSetOperation = false)
    (reads : BoundForm → Bool) :
    longer.boundIn reads =
      ((more.map (RowBound.ofClause reads longer.isCombined)).filter
        (· != .absent)).getLast?.getD (shorter.boundIn reads) := by
  have hcombined : longer.isCombined = shorter.isCombined := by
    have hmore : (more.any fun clause => clause.kind.isSetOperation) = false :=
      List.any_eq_false.2 fun clause hclause => by simp [hset clause hclause]
    rw [isCombined, isCombined, hclauses, List.any_append, hmore, Bool.or_false]
  rw [boundIn, boundIn, lastBranch_of_clauses_eq hclauses hset, List.map_append,
    List.filter_append, List.getLast?_append, Option.getD_or, hcombined]

theorem RowBound.ofClause_eq_or (reads : BoundForm → Bool) (combined : Bool)
    (clause : Clause Statement) :
    ofClause reads combined clause = .absent ∨
      ofClause reads combined clause = ofClause (fun _ => true) combined clause := by
  rw [ofClause, ofClause]
  split
  · split <;> simp
  · split <;> simp
  · cases combined <;> cases reads .top <;> simp
  · exact Or.inl rfl

private theorem Statement.limit_boundIn_eq {statement : Statement}
    (h : ∀ clause ∈ statement.lastBranch,
      (RowBound.ofClause (fun _ => true) statement.isCombined clause).limit = -1)
    (reads : BoundForm → Bool) : (statement.boundIn reads).limit = -1 := by
  rw [boundIn]
  cases hlast :
    ((statement.lastBranch.map (RowBound.ofClause reads statement.isCombined)).filter
      (· != .absent)).getLast? with
  | none => rfl
  | some bound =>
    obtain ⟨clause, hclause, rfl⟩ :=
      List.mem_map.1 (List.mem_filter.1 (List.mem_of_getLast? hlast)).1
    rcases RowBound.ofClause_eq_or reads statement.isCombined clause with habsent |
      hsame
    · rw [habsent]
      rfl
    · rw [hsame]
      exact h clause hclause

namespace WrittenBound

def fetchBody (word : FetchWord) (count : Option Numeral) (unit : RowUnit)
    (ending : FetchEnd) : List Lexeme :=
  ⟨.identifier, word.text⟩ ::
    (count.toList.map Numeral.lexeme ++ ⟨.identifier, unit.text⟩ :: ending.lexemes)

def clauses : WrittenBound → List (Clause Statement)
  | .limit count => [.ofWords .limit ⟨.keyword .limit, "limit"⟩ [count.lexeme]]
  | .limitAfter skipped count =>
    [.ofWords .limit ⟨.keyword .limit, "limit"⟩
     [skipped.lexeme, ⟨.comma, ","⟩, count.lexeme]]
  | .limitOffset count skipped =>
    [.ofWords .limit ⟨.keyword .limit, "limit"⟩ [count.lexeme],
      .ofWords .offset ⟨.keyword .offset, "offset"⟩ [skipped.lexeme]]
  | .fetch none word count unit ending =>
    [.ofWords .fetch ⟨.keyword .fetch, "fetch"⟩ (fetchBody word count unit ending)]
  | .fetch (some (number, other)) word count unit ending =>
    [.ofWords .offset ⟨.keyword .offset, "offset"⟩
       [number.lexeme, ⟨.identifier, other.text⟩],
     .ofWords .fetch ⟨.keyword .fetch, "fetch"⟩ (fetchBody word count unit ending)]

def words (bound : WrittenBound) : List Lexeme :=
  (bound.clauses.flatMap Clause.tokens).map Token.toLexeme

/-! ### The text is that of the words -/

private theorem follow_lexeme (number : Numeral) :
    follow number.lexeme = ' ' :: number.text.toList := rfl

private theorem follow_identifier (text : String) :
    follow ⟨.identifier, text⟩ = ' ' :: text.toList := rfl

private theorem flatMap_follow_count (count : Option Numeral) :
    (count.toList.map Numeral.lexeme).flatMap follow =
      (count.elim "" fun number => " " ++ number.text).toList := by
  cases count with
  | none => rfl
  | some number =>
    rw [Option.toList_some, List.map_singleton, List.flatMap_singleton, follow_lexeme,
      Option.elim_some, String.toList_append]
    rfl

private theorem flatMap_follow_lexemes (ending : FetchEnd) :
    ending.lexemes.flatMap follow = ' ' :: ending.text.toList := by
  cases ending <;> rfl

section Fetch

variable (word : FetchWord) (count : Option Numeral) (unit : RowUnit)
  (ending : FetchEnd)

theorem toList_fetchText :
    (text.fetchText word count unit ending).toList =
      spelled (⟨.keyword .fetch, "fetch"⟩ :: fetchBody word count unit ending) := by
  have hfetch : "fetch ".toList = "fetch".toList ++ [' '] := by decide
  have hspace : " ".toList = [' '] := by decide
  rw [fetchBody, spelled, List.flatMap_cons, List.flatMap_append, List.flatMap_cons,
    follow_identifier, follow_identifier, flatMap_follow_count,
    flatMap_follow_lexemes, text.fetchText]
  simp only [String.toList_append, hfetch, hspace, List.append_assoc,
    List.cons_append, List.nil_append]

end Fetch

theorem toList_text (bound : WrittenBound) :
    bound.text.toList = spelled bound.words := by
  have hlimit : "limit ".toList = "limit".toList ++ [' '] := by decide
  have hlast : ∀ number : Numeral, [number.lexeme].flatMap follow =
      ' ' :: number.text.toList :=
    fun number => List.flatMap_singleton ..
  match bound with
  | .limit count =>
    have hwords : (limit count).words = [⟨.keyword .limit, "limit"⟩, count.lexeme] :=
      rfl
    rw [hwords, text, spelled, hlast, String.toList_append, hlimit, List.append_assoc]
    rfl
  | .limitAfter skipped count =>
    have hcomma : ", ".toList = ",".toList ++ [' '] := by decide
    have hwords : (limitAfter skipped count).words =
        [⟨.keyword .limit, "limit"⟩, skipped.lexeme, ⟨.comma, ","⟩, count.lexeme] :=
      rfl
    rw [hwords, text, spelled, List.flatMap_cons, List.flatMap_cons, hlast,
      follow_lexeme]
    simp only [String.toList_append, hlimit, hcomma, List.append_assoc]
    rfl
  | .limitOffset count skipped =>
    have hoffset : " offset ".toList = ' ' :: "offset".toList ++ [' '] := by decide
    have hwords : (limitOffset count skipped).words =
        [⟨.keyword .limit, "limit"⟩, count.lexeme, ⟨.keyword .offset, "offset"⟩,
          skipped.lexeme] := rfl
    rw [hwords, text, spelled, List.flatMap_cons, List.flatMap_cons, hlast,
      follow_lexeme]
    simp only [String.toList_append, hlimit, hoffset, List.append_assoc]
    rfl
  | .fetch none word count unit ending =>
    have hwords : (fetch none word count unit ending).words =
        ⟨.keyword .fetch, "fetch"⟩ :: fetchBody word count unit ending := by
      simp [words, clauses, Clause.ofWords, Clause.tokens]
    rw [hwords, text, toList_fetchText]
  | .fetch (some (number, other)) word count unit ending =>
    have hoffset : "offset ".toList = "offset".toList ++ [' '] := by decide
    have hspace : " ".toList = [' '] := by decide
    have hwords : (fetch (some (number, other)) word count unit ending).words =
        ⟨.keyword .offset, "offset"⟩ :: number.lexeme :: ⟨.identifier, other.text⟩ ::
          ⟨.keyword .fetch, "fetch"⟩ :: fetchBody word count unit ending := by
      simp [words, clauses, Clause.ofWords, Clause.tokens]
    rw [hwords, text, spelled, List.flatMap_cons, List.flatMap_cons, follow_lexeme,
      follow_identifier]
    simp only [String.toList_append, hoffset, hspace, toList_fetchText,
      List.append_assoc]
    rfl

/-! ### What the words are -/

inductive IsBodyWord : Lexeme → Prop
  | number (numeral : Numeral) : IsBodyWord numeral.lexeme
  | comma : IsBodyWord ⟨.comma, ","⟩
  | identifier {text : String} (h : Lexeme.isBareWord ⟨.identifier, text⟩ = true) :
    IsBodyWord ⟨.identifier, text⟩
  | «with» : IsBodyWord ⟨.keyword .with, "with"⟩

namespace IsBodyWord

variable {word : Lexeme}

theorem isDelimited (h : IsBodyWord word) : word.IsDelimited := by
  cases h with
  | number numeral => exact numeral.isDelimited_lexeme
  | comma => exact Lexeme.isDelimited_comma
  | identifier h => exact Lexeme.isDelimited_of_isBareWord h
  | «with» => exact Lexeme.isDelimited_of_isBareWord (by decide +kernel)

theorem isPlain (h : IsBodyWord word) :
    (word.keyword? = none ∨ word.keyword? = some .with) ∧ word.opens = false := by
  cases h with
  | «with» => exact ⟨Or.inr rfl, rfl⟩
  | _ => exact ⟨Or.inl rfl, rfl⟩

theorem isInner (h : IsBodyWord word) : word.IsInner := by
  cases h <;> exact ⟨TokenKind.noConfusion, rfl, rfl⟩

end IsBodyWord

inductive IsBoundClause : Clause Statement → Prop
  | limit {body : List Lexeme} (h : ∀ word ∈ body, IsBodyWord word) :
    IsBoundClause (.ofWords .limit ⟨.keyword .limit, "limit"⟩ body)
  | offset {body : List Lexeme} (h : ∀ word ∈ body, IsBodyWord word) :
    IsBoundClause (.ofWords .offset ⟨.keyword .offset, "offset"⟩ body)
  | fetch {body : List Lexeme} (h : ∀ word ∈ body, IsBodyWord word) :
    IsBoundClause (.ofWords .fetch ⟨.keyword .fetch, "fetch"⟩ body)

private theorem isBodyWord_pair (skipped count : Numeral) :
    ∀ word ∈ [skipped.lexeme, ⟨.comma, ","⟩, count.lexeme], IsBodyWord word :=
  List.forall_mem_cons.2 ⟨.number skipped,
    List.forall_mem_cons.2 ⟨.comma, List.forall_mem_singleton.2 (.number count)⟩⟩

private theorem isBodyWord_fetchBody (word : FetchWord) (count : Option Numeral)
    (unit : RowUnit) (ending : FetchEnd) :
    ∀ other ∈ fetchBody word count unit ending, IsBodyWord other := by
  have hword : IsBodyWord ⟨.identifier, word.text⟩ := by
    cases word <;> exact .identifier (by decide +kernel)
  have hunit : IsBodyWord ⟨.identifier, unit.text⟩ := by
    cases unit <;> exact .identifier (by decide +kernel)
  have hending : ∀ other ∈ ending.lexemes, IsBodyWord other := by
    cases ending with
    | only => exact List.forall_mem_singleton.2 (.identifier (by decide +kernel))
    | withTies =>
      exact List.forall_mem_cons.2
        ⟨.with, List.forall_mem_singleton.2 (.identifier (by decide +kernel))⟩
  rw [fetchBody, List.forall_mem_cons, List.forall_mem_append, List.forall_mem_map,
    List.forall_mem_cons]
  exact ⟨hword, fun number _ => .number number, hunit, hending⟩

theorem isBoundClause (bound : WrittenBound) :
    ∀ clause ∈ bound.clauses, IsBoundClause clause := by
  match bound with
  | .limit count =>
    exact List.forall_mem_singleton.2
      (.limit (List.forall_mem_singleton.2 (.number count)))
  | .limitAfter skipped count =>
    exact List.forall_mem_singleton.2 (.limit (isBodyWord_pair skipped count))
  | .limitOffset count skipped =>
    exact List.forall_mem_cons.2
      ⟨.limit (List.forall_mem_singleton.2 (.number count)),
        List.forall_mem_singleton.2
          (.offset (List.forall_mem_singleton.2 (.number skipped)))⟩
  | .fetch none word count unit ending =>
    exact List.forall_mem_singleton.2
      (.fetch (isBodyWord_fetchBody word count unit ending))
  | .fetch (some (number, other)) word count unit ending =>
    have hother : IsBodyWord ⟨.identifier, other.text⟩ := by
      cases other <;> exact .identifier (by decide +kernel)
    have hoffset : ∀ word ∈ [number.lexeme, ⟨.identifier, other.text⟩],
        IsBodyWord word :=
      List.forall_mem_cons.2 ⟨.number number, List.forall_mem_singleton.2 hother⟩
    exact List.forall_mem_cons.2 ⟨.offset hoffset, List.forall_mem_singleton.2
      (.fetch (isBodyWord_fetchBody word count unit ending))⟩

namespace IsBoundClause

variable {clause : Clause Statement}

theorem isDelimited (h : IsBoundClause clause) :
    ∀ word ∈ clause.tokens.map Token.toLexeme, word.IsDelimited := by
  cases h with
  | _ h =>
    simp only [Clause.tokens, Clause.ofWords, List.map_append, map_toLexeme_unplaced,
      List.singleton_append, List.forall_mem_cons]
    exact ⟨Lexeme.isDelimited_of_isBareWord (by decide +kernel),
      fun word hword => (h word hword).isDelimited⟩

theorem isInner (h : IsBoundClause clause) :
    ∀ token ∈ clause.tokens, token.IsInner := by
  cases h with
  | _ h =>
    simp only [Clause.tokens, Clause.ofWords, List.forall_mem_append,
      forall_mem_unplaced, List.forall_mem_singleton]
    exact ⟨Lexeme.isInner_of_keyword? rfl, fun word hword => (h word hword).isInner⟩

theorem isPlain (h : IsBoundClause clause) : clause.IsPlain := by
  cases h with
  | _ h =>
    refine ⟨_, rfl, PlainClause.of_keyword rfl (fun _ _ _ => rfl) rfl (by decide) ?_,
      rfl⟩
    exact forall_mem_unplaced.2 fun word hword => (h word hword).isPlain

theorem isSetOperation_eq_false (h : IsBoundClause clause) :
    clause.kind.isSetOperation = false := by
  cases h <;> rfl

end IsBoundClause

theorem isDelimited_words (bound : WrittenBound) :
    ∀ word ∈ bound.words, word.IsDelimited := by
  rw [words, List.forall_mem_map, List.forall_mem_flatMap]
  exact fun clause hclause =>
    List.forall_mem_map.1 (bound.isBoundClause clause hclause).isDelimited

theorem exists_words (bound : WrittenBound) :
    ∃ word rest, bound.words = word :: rest ∧
      word.text.toList.head?.any (!Text.isBlank ·) = true := by
  match bound with
  | .limit _ | .limitAfter _ _ | .limitOffset _ _ | .fetch none _ _ _ _
  | .fetch (some (_, _)) _ _ _ _ => exact ⟨_, _, rfl, by decide +kernel⟩

theorem head?_text (bound : WrittenBound) :
    ∀ c ∈ bound.text.toList.head?, Text.isBlank c = false := by
  obtain ⟨word, rest, hwords, hblank⟩ := bound.exists_words
  obtain ⟨first, hfirst, hnotBlank⟩ := (Option.any_eq_true _ _).1 hblank
  obtain ⟨cs, hword⟩ := List.head?_eq_some_iff.1 hfirst
  intro c hc
  rw [toList_text, hwords, spelled, hword, List.cons_append, List.head?_cons,
    Option.mem_some_iff] at hc
  rw [← hc]
  simpa using hnotBlank

theorem isInner_tokens (bound : WrittenBound) :
    ∀ token ∈ bound.clauses.flatMap Clause.tokens, token.IsInner := by
  rw [List.forall_mem_flatMap]
  exact fun clause hclause => (bound.isBoundClause clause hclause).isInner

/-! ### The bound of the clauses -/


private theorem significant_unplaced {words : List Lexeme}
    (h : ∀ word ∈ words, IsBodyWord word) :
    significant (unplaced words) = unplaced words := by
  rw [significant, List.filter_eq_self, forall_mem_unplaced]
  intro word hword
  show (!word.isTrivia) = true
  rw [(h word hword).isDelimited.isTrivia_eq_false]
  rfl

section OfClause

variable {reads : BoundForm → Bool} {combined : Bool} {word : Lexeme}
  {body : List Lexeme} (h : ∀ word ∈ body, IsBodyWord word)

include h

private theorem ofClause_limit :
    RowBound.ofClause reads combined (.ofWords .limit word body) =
      if reads .limit then RowBound.ofLimit (unplaced body) else .absent := by
  simp only [RowBound.ofClause, Clause.ofWords, Clause.significantBody,
    significant_unplaced h]

private theorem ofClause_fetch :
    RowBound.ofClause reads combined (.ofWords .fetch word body) =
      if reads .fetch then RowBound.ofFetch (unplaced body) else .absent := by
  simp only [RowBound.ofClause, Clause.ofWords, Clause.significantBody,
    significant_unplaced h]

end OfClause

private theorem ofFetch_fetchBody (word : FetchWord) (count : Option Numeral)
    (unit : RowUnit) (ending : FetchEnd) :
    RowBound.ofFetch (unplaced (fetchBody word count unit ending)) =
      RowBound.ofNat (count.elim 1 Numeral.value) := by
  have hword : (Lexeme.isWord ⟨.identifier, word.text⟩ "first" ||
      Lexeme.isWord ⟨.identifier, word.text⟩ "next") = true := by
    cases word <;> decide +kernel
  have hunit : (Lexeme.isWord ⟨.identifier, unit.text⟩ "row" ||
      Lexeme.isWord ⟨.identifier, unit.text⟩ "rows") = true := by
    cases unit <;> decide +kernel
  cases count with
  | none =>
    simp only [fetchBody, Option.toList_none, List.map_nil, List.nil_append,
      unplaced_cons, RowBound.ofFetch, hword, hunit, if_true]
    rfl
  | some number =>
    have hnumber : ∀ text, number.lexeme.isWord text = false := fun _ => rfl
    have hpercent : Lexeme.isWord ⟨.identifier, unit.text⟩ "percent" = false := by
      cases unit <;> decide +kernel
    simp only [fetchBody, Option.toList_some, List.map_singleton,
      List.singleton_append, unplaced_cons, RowBound.ofFetch, hword, hnumber,
      Bool.or_self, Bool.false_eq_true, if_true, if_false]
    exact RowBound.ofCount_eq (number.literal?_eq rfl) hpercent

private theorem ofLimit_singleton (count : Numeral) :
    RowBound.ofLimit (unplaced [count.lexeme]) = RowBound.ofNat count.value :=
  RowBound.ofToken_eq (count.literal?_eq rfl)

private theorem ofLimit_pair (skipped count : Numeral) :
    RowBound.ofLimit (unplaced [skipped.lexeme, ⟨.comma, ","⟩, count.lexeme]) =
      RowBound.ofNat count.value :=
  RowBound.ofToken_eq (count.literal?_eq rfl)

/-- The clauses write one bound, of as many rows as the written bound names. -/
theorem bounds_clauses (bound : WrittenBound) (reads : BoundForm → Bool)
    (combined : Bool) :
    (bound.clauses.map (RowBound.ofClause reads combined)).filter (· != .absent) =
      if reads bound.form then [RowBound.ofNat bound.count] else [] := by
  have hfilter : ∀ (read : Bool) (count : Nat),
      [if read then RowBound.ofNat count else .absent].filter (· != .absent) =
        if read then [RowBound.ofNat count] else [] := by
    intro read count
    cases read <;> simp [RowBound.ofNat_ne_absent]
  have hoffset : ∀ word body,
      RowBound.ofClause reads combined (.ofWords .offset word body) = .absent :=
    fun _ _ => rfl
  match bound with
  | .limit count =>
    rw [clauses, List.map_singleton,
      ofClause_limit (List.forall_mem_singleton.2 (.number count)), ofLimit_singleton,
      hfilter]
    rfl
  | .limitAfter skipped count =>
    rw [clauses, List.map_singleton, ofClause_limit (isBodyWord_pair skipped count),
      ofLimit_pair, hfilter]
    rfl
  | .limitOffset count skipped =>
    rw [clauses, List.map_cons, List.map_singleton, hoffset,
      ofClause_limit (List.forall_mem_singleton.2 (.number count)), ofLimit_singleton,
      ← List.singleton_append, List.filter_append, hfilter]
    exact List.append_nil _
  | .fetch none word count unit ending =>
    rw [clauses, List.map_singleton,
      ofClause_fetch (isBodyWord_fetchBody word count unit ending), ofFetch_fetchBody,
      hfilter]
    rfl
  | .fetch (some (number, other)) word count unit ending =>
    rw [clauses, List.map_cons, List.map_singleton, hoffset,
      List.filter_cons_of_neg (by simp),
      ofClause_fetch (isBodyWord_fetchBody word count unit ending), ofFetch_fetchBody,
      hfilter]
    rfl

theorem words_clauses (bound : WrittenBound) :
    SqlOutline.words (bound.clauses.flatMap Clause.tokens) = bound.words := by
  have hsignificant : significant (bound.clauses.flatMap Clause.tokens) =
      bound.clauses.flatMap Clause.tokens := by
    rw [significant, List.filter_eq_self]
    intro token htoken
    have hdelimited :=
      bound.isDelimited_words token.toLexeme (List.mem_map_of_mem htoken)
    show (!token.toLexeme.isTrivia) = true
    rw [hdelimited.isTrivia_eq_false]
    rfl
  rw [SqlOutline.words, hsignificant, words]

end WrittenBound

namespace Script

/-- A query with a bound behind it, on a line of its own. -/
def withBound (query : String) (bound : WrittenBound) : String :=
  query ++ "\n" ++ bound.text

theorem words_withBound {query : String} (hcomplete : IsComplete query)
    (bound : WrittenBound) :
    words (tokenize (withBound query bound)) =
      words (tokenize query ++ bound.clauses.flatMap Clause.tokens) := by
  have hchars : (withBound query bound).toList =
      query.toList ++ '\n' :: bound.text.toList := by
    simp [withBound]
  have hwords : words (tokenize bound.text) = bound.words := by
    rw [words_tokenize, bound.toList_text,
      filter_lexemes_spelled bound.isDelimited_words]
  rw [words_append, bound.words_clauses, ← hwords, words, significant_tokenize,
    hchars, hcomplete.significantAt_append 0 0 bound.head?_text, List.map_append,
    ← words_tokenize_eq_map, ← words_tokenize_eq_map]

/-- A bound written behind a query is the limit of the query, if no clause after the
last set operator names one already. A form that is not read is no limit. -/
theorem rowLimit?_withBound {query : String} (hcomplete : IsComplete query)
    (hundivided : IsUndivided (tokenize query)) {statement : Statement}
    (h : statements query = [statement]) (hquery : statement.isQuery = true)
    (hnone : ∀ clause ∈ statement.lastBranch,
      (RowBound.ofClause (fun _ => true) statement.isCombined clause).limit = -1)
    (bound : WrittenBound) (dialect : Dialect) :
    rowLimit? (withBound query bound) dialect =
      some (if dialect.reads bound.form ∧ bound.count < 2 ^ 63 then
        (bound.count : Int)
        else -1) := by
  have hstatement : statement = Statement.ofTokens (tokenize query) :=
    eq_ofTokens_of_isUndivided hundivided (h ▸ List.mem_singleton_self statement)
  subst hstatement
  have hwords := words_withBound hcomplete bound
  have htokens :
      IsUndivided (tokenize query ++ bound.clauses.flatMap Clause.tokens) :=
    (isUndivided_append_iff _ hcomplete.depth_eq).2
      ⟨hundivided, isUndivided_of_isInner bound.isInner_tokens⟩
  have hleading := Statement.leading?_isSome_of_isQuery hquery
  have hkind := Statement.kind_of_isQuery hquery
  rw [Statement.kind_ofTokens] at hkind
  have hclauses := Statement.clauses_ofTokens_append
    (fun clause hclause => (bound.isBoundClause clause hclause).isPlain)
    hcomplete.depth_eq hleading (by rcases hkind with hkind | hkind <;> simp [hkind])
    (by rcases hkind with hkind | hkind <;> simp [hkind])
  have hsame : (Statement.ofTokens
        (tokenize query ++ bound.clauses.flatMap Clause.tokens)).kind =
      (Statement.ofTokens (tokenize query)).kind := by
    rw [Statement.kind_ofTokens, Statement.kind_ofTokens,
      StatementKind.ofTokens_append _ hleading]
  have hlonger := Statement.isQuery_of_clauses_eq hclauses hsame hquery
  have hne : words (tokenize query ++ bound.clauses.flatMap Clause.tokens) ≠ [] := by
    obtain ⟨word, rest, hbound, -⟩ := bound.exists_words
    rw [words_append, bound.words_clauses, hbound]
    exact List.append_ne_nil_of_right_ne_nil _ (List.cons_ne_nil word rest)
  rw [rowLimit?_eq_of_words_eq hwords htokens hne, if_pos hlonger, Statement.rowBound,
    Statement.boundIn_of_clauses_append hclauses
      (fun clause hclause =>
        (bound.isBoundClause clause hclause).isSetOperation_eq_false),
    bound.bounds_clauses]
  by_cases hreads : dialect.reads bound.form = true
  · have hlargest : bound.count ≤ RowBound.largestCount ↔ bound.count < 2 ^ 63 := by
      rw [RowBound.largestCount]
      omega
    rw [if_pos hreads, List.getLast?_singleton, Option.getD_some, RowBound.ofNat]
    by_cases hcount : bound.count < 2 ^ 63
    · rw [if_pos (hlargest.2 hcount), if_pos ⟨hreads, hcount⟩]
      rfl
    · rw [if_neg (mt hlargest.1 hcount), if_neg fun h => hcount h.2]
      rfl
  · rw [if_neg hreads, if_neg fun h => hreads h.1, List.getLast?_nil,
      Option.getD_none, Statement.limit_boundIn_eq hnone]

def boundedOperandScript : String :=
  "(select a from t limit 9) union select b limit 8 union select c -- )"

theorem rowLimit?_withBound_boundedOperandScript :
    ∃ bound : WrittenBound,
      bound.text = "offset 7 rows fetch next 012 row with ties" ∧
      rowLimit? (withBound boundedOperandScript bound) .oracle = some 12 ∧
      rowLimit? (withBound boundedOperandScript bound) .mySql = some (-1) := by
  have hcomplete : IsComplete boundedOperandScript :=
    IsComplete.of_space (by decide +kernel) (by decide +kernel)
  have hundivided : IsUndivided (tokenize boundedOperandScript) := by
    rw [IsUndivided]
    decide +kernel
  have hstatements : statements boundedOperandScript =
      [Statement.ofTokens (tokenize boundedOperandScript)] :=
    statements_eq_singleton (by decide +kernel)
  have hlimit := rowLimit?_withBound hcomplete hundivided hstatements
    (by decide +kernel) (by decide +kernel)
    (.fetch (some (⟨['7'], by decide, List.all_eq_true.1 rfl⟩, .rows)) .next
      (some ⟨['0', '1', '2'], by decide, List.all_eq_true.1 rfl⟩) .row .withTies)
  exact ⟨_, by decide +kernel, hlimit .oracle, hlimit .mySql⟩

end Script

end SqlOutline
