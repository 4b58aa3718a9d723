import SqlOutline.Proofs.Layout.Invariance
import SqlOutline.Proofs.Statement.Extension
import SqlOutline.Proofs.Token.Count

/-!
# A bound at the end of a query

A `LIMIT` or `FETCH` clause written behind a query bounds it, and the query stays a
query that uses the same tables.
-/

namespace SqlOutline

namespace Statement

/-! ## More clauses -/

section MoreClauses

variable {longer shorter : Statement} {more : List (Clause Statement)}
  (hclauses : longer.clauses = shorter.clauses ++ more)

include hclauses

theorem isQuery_of_clauses_eq (hkind : longer.kind = shorter.kind)
    (h : shorter.isQuery = true) : longer.isQuery = true := by
  rw [isQuery, mainKind, beq_iff_eq] at h
  rw [isQuery, mainKind, hkind, beq_iff_eq]
  split at h
  · next hwith =>
    rw [if_pos hwith, hclauses, List.find?_append]
    cases hmain : shorter.clauses.find? fun clause =>
        clause.kind != .with && clause.kind != .leading with
    | none => simp [hmain] at h
    | some main =>
      rw [hmain] at h
      exact h
  · next hwith =>
    rw [if_neg hwith]
    exact h

theorem lastBranch_of_clauses_eq
    (hset : ∀ clause ∈ more, clause.kind.isSetOperation = false) :
    longer.lastBranch = shorter.lastBranch ++ more := by
  have hall : ∀ clause ∈ more.reverse, (!clause.kind.isSetOperation) = true := by
    intro clause hclause
    rw [hset clause (List.mem_reverse.1 hclause)]
    rfl
  rw [lastBranch, lastBranch, hclauses, List.reverse_append,
    List.takeWhile_append_of_pos hall, List.reverse_append, List.reverse_reverse]

end MoreClauses

section LastClause

variable {longer shorter : Statement} {clause : Clause Statement}

private theorem boundIn_of_clauses_eq {reads : BoundForm → Bool}
    (hclauses : longer.clauses = shorter.clauses ++ [clause])
    (hset : clause.kind.isSetOperation = false)
    (hbound : RowBound.ofClause reads longer.isCombined clause ≠ .absent) :
    longer.boundIn reads = RowBound.ofClause reads longer.isCombined clause := by
  rw [boundIn, lastBranch_of_clauses_eq hclauses (List.forall_mem_singleton.2 hset),
    List.map_append, List.map_singleton, List.filter_append,
    List.filter_cons_of_pos (by simpa using hbound), List.filter_nil,
    List.getLast?_concat]
  rfl

private theorem clause?_of_clauses_eq {kind : ClauseKind}
    (hclauses : longer.clauses = shorter.clauses ++ [clause])
    (hkind : clause.kind ≠ kind) : longer.clause? kind = shorter.clause? kind := by
  have hnot : (clause.kind == kind) = false := beq_eq_false_iff_ne.2 hkind
  rw [clause?, clause?, hclauses, List.find?_append, List.find?_cons, hnot,
    List.find?_nil, Option.or_none]

private theorem tableUses_of_clauses_eq
    (hclauses : longer.clauses = shorter.clauses ++ [clause])
    (hwith : clause.kind ≠ .with) (hlists : clause.kind.listsTables = false)
    (hnested : clause.nested = []) (schema : String) (visible : List String) :
    longer.tableUses schema visible = shorter.tableUses schema visible := by
  have htables : longer.commonTables = shorter.commonTables := by
    rw [commonTables, commonTables, clause?_of_clauses_eq hclauses hwith]
  have hrecursive : longer.isRecursive = shorter.isRecursive := by
    rw [isRecursive, isRecursive, clause?_of_clauses_eq hclauses hwith]
  have huses : longer.usesIn schema visible = shorter.usesIn schema visible := by
    funext clause
    simp only [usesIn, namesBefore, htables, hrecursive]
  have hnone : shorter.usesIn schema visible clause = [] := by
    rw [usesIn, if_neg hwith, hlists, hnested]
    rfl
  rw [tableUses_eq, tableUses_eq, hclauses, List.flatMap_append, huses,
    List.flatMap_singleton, hnone, List.append_nil]

end LastClause

end Statement

/-! ## Written bounds -/

def RowBound.ofNat (count : Nat) : RowBound :=
  if count ≤ largestCount then .rows count else .computed

theorem RowBound.ofNat_ne_absent (count : Nat) : ofNat count ≠ .absent := by
  rw [ofNat]
  split <;> simp

theorem RowBound.literal?_of_isDigit {token : Token} {digits : List Char}
    (h : token.toLexeme = ⟨.number, String.ofList digits⟩)
    (hdigits : ∀ c ∈ digits, c.isDigit = true) :
    literal? token =
      if Nat.ofDigitChars 10 digits 0 ≤ largestCount then
        some (Nat.ofDigitChars 10 digits 0)
      else none := by
  have hall : digits.all Char.isDigit = true := List.all_eq_true.2 hdigits
  simp only [literal?, h, String.toList_ofList, hall, and_self, if_true]

theorem RowBound.literal?_eq {token : Token} {count : Nat}
    (h : token.toLexeme = ⟨.number, toString count⟩) :
    literal? token = if count ≤ largestCount then some count else none := by
  have hcount : Nat.ofDigitChars 10 (Token.digitsOf count) 0 = count := by
    rw [Token.digitsOf_eq_toDigits]
    exact Nat.ofDigitChars_ten_toDigits
  rw [← String.ofList_toList (s := toString count)] at h
  rw [literal?_of_isDigit h fun c => Token.isDigit_of_mem_digitsOf, ← Token.digitsOf,
    hcount]

theorem RowBound.ofToken_eq {token : Token} {count : Nat}
    (h : literal? token = if count ≤ largestCount then some count else none) :
    ofToken token = ofNat count := by
  rw [ofToken, h, ofNat]
  by_cases hle : count ≤ largestCount
  · rw [if_pos hle, if_pos hle]
  · rw [if_neg hle, if_neg hle]

theorem RowBound.ofCount_eq {token : Token} {count : Nat} {more : List Token}
    (h : literal? token = if count ≤ largestCount then some count else none)
    (hmore : more.head?.any (·.isWord "percent") = false) :
    ofCount token more = ofNat count := by
  rw [ofCount, h, ofNat, hmore]
  by_cases hle : count ≤ largestCount
  · rw [if_pos hle, if_pos hle]
    rfl
  · rw [if_neg hle, if_neg hle]

namespace BoundForm

def words (count : Nat) : BoundForm → List Lexeme
  | .limit => [⟨.keyword .limit, "limit"⟩, ⟨.number, toString count⟩]
  | .fetch =>
    [⟨.keyword .fetch, "fetch"⟩, ⟨.identifier, "first"⟩, ⟨.number, toString count⟩,
      ⟨.identifier, "rows"⟩, ⟨.identifier, "only"⟩]
  | .top => []

def clauseKind : BoundForm → ClauseKind
  | .limit => .limit
  | .fetch => .fetch
  | .top => .select

def IsSuffix (form : BoundForm) : Prop :=
  form = .limit ∨ form = .fetch

theorem exists_plainClause {form : BoundForm} (hform : form.IsSuffix) {count : Nat}
    {tokens : List Token} (h : tokens.map Token.toLexeme = form.words count) :
    ∃ word body, tokens = word :: body ∧ PlainClause form.clauseKind word body ∧
      ∀ (reads : BoundForm → Bool) (combined : Bool), reads form = true →
        RowBound.ofClause reads combined
            (⟨form.clauseKind, [word], body, []⟩ : Clause Statement) =
          RowBound.ofNat count := by
  rcases hform with rfl | rfl
  · simp only [words, List.map_eq_cons_iff, List.map_eq_nil_iff] at h
    obtain ⟨word, body, rfl, hword, number, rest, rfl, hnumber, rfl⟩ := h
    refine ⟨word, [number], rfl, ?_, ?_⟩
    · apply PlainClause.of_keyword
        (show word.keyword? = some .limit by rw [hword]; rfl) (fun _ _ _ => rfl) rfl
        (by decide)
      simp [hnumber, Lexeme.keyword?, TokenKind.keyword?, Lexeme.opens]
    · intro reads combined hreads
      have hbody : significant [number] = [number] :=
        significant_cons [] (by rw [hnumber]; rfl)
      simp only [RowBound.ofClause, clauseKind, hreads, if_true,
        Clause.significantBody, hbody, RowBound.ofLimit,
        RowBound.ofToken_eq (RowBound.literal?_eq hnumber)]
  · simp only [words, List.map_eq_cons_iff, List.map_eq_nil_iff] at h
    obtain ⟨word, body, rfl, hword, first, rest, rfl, hfirst, number, rest, rfl,
      hnumber, rows, rest, rfl, hrows, only, rest, rfl, honly, rfl⟩ := h
    refine ⟨word, [first, number, rows, only], rfl, ?_, ?_⟩
    · apply PlainClause.of_keyword
        (show word.keyword? = some .fetch by rw [hword]; rfl) (fun _ _ _ => rfl) rfl
        (by decide)
      simp [hfirst, hnumber, hrows, honly, Lexeme.keyword?, TokenKind.keyword?,
        Lexeme.opens]
    · intro reads combined hreads
      have hbody : significant [first, number, rows, only] =
          [first, number, rows, only] := by
        simp [significant, hfirst, hnumber, hrows, honly, Lexeme.isTrivia,
          TokenKind.isTrivia]
      have hfirstWord : first.isWord "first" = true := by
        rw [hfirst]
        decide
      have hnotRow : ∀ word, number.isWord word = false := by
        intro word
        rw [hnumber]
        rfl
      have hpercent : [rows, only].head?.any (·.isWord "percent") = false := by
        rw [List.head?_cons, Option.any_some, hrows]
        decide
      simp only [RowBound.ofClause, clauseKind, hreads, if_true,
        Clause.significantBody, hbody, RowBound.ofFetch, hfirstWord, hnotRow,
        Bool.true_or, Bool.or_self, Bool.false_eq_true, if_false,
        RowBound.ofCount_eq (RowBound.literal?_eq hnumber) hpercent]

end BoundForm

namespace Statement

theorem kind_ofTokens (tokens : List Token) :
    (ofTokens tokens).kind = StatementKind.ofTokens tokens := by
  rw [kind, ofTokens, tokens_ofPassage]

/-- A query begins with `SELECT` or with definitions. -/
theorem kind_of_isQuery {statement : Statement} (h : statement.isQuery = true) :
    statement.kind = .select ∨ statement.kind = .with := by
  rw [isQuery, mainKind, beq_iff_eq] at h
  split at h
  · next hwith => exact Or.inr hwith
  · exact Or.inl h

theorem leading?_isSome_of_isQuery {tokens : List Token}
    (h : (ofTokens tokens).isQuery = true) : (leading? tokens).isSome = true := by
  have hkind := kind_of_isQuery h
  rw [kind_ofTokens, StatementKind.ofTokens] at hkind
  cases hleading : leading? tokens with
  | some first => rfl
  | none =>
    rw [hleading] at hkind
    simp at hkind

/-- Behind a query with all parentheses closed a bound is the bound of the query, and
the query still uses the same tables. -/
theorem ofTokens_append_words {form : BoundForm} (hform : form.IsSuffix) {count : Nat}
    {tokens suffix : List Token}
    (hsuffix : suffix.map Token.toLexeme = form.words count)
    (hdepth : depth tokens = 0) (hquery : (ofTokens tokens).isQuery = true) :
    (ofTokens (tokens ++ suffix)).isQuery = true ∧
      (∀ reads : BoundForm → Bool, reads form = true →
        (ofTokens (tokens ++ suffix)).boundIn reads = RowBound.ofNat count) ∧
      ∀ schema, (ofTokens (tokens ++ suffix)).tableNames schema =
        (ofTokens tokens).tableNames schema := by
  obtain ⟨word, body, rfl, hclause, hbound⟩ :=
    BoundForm.exists_plainClause hform hsuffix
  have hleading := leading?_isSome_of_isQuery hquery
  have hkind := kind_of_isQuery hquery
  rw [kind_ofTokens] at hkind
  have hinsert : StatementKind.ofTokens tokens ≠ .insert := by
    rcases hkind with hkind | hkind <;> simp [hkind]
  have hcreate : StatementKind.ofTokens tokens ≠ .create := by
    rcases hkind with hkind | hkind <;> simp [hkind]
  have hclauses := hclause.clauses_ofTokens_append hdepth hleading hinsert hcreate
  have hsame : (ofTokens (tokens ++ word :: body)).kind = (ofTokens tokens).kind := by
    rw [kind_ofTokens, kind_ofTokens]
    exact congrArg StatementTraits.kind (hclause.traits_append hleading)
  have hset : form.clauseKind.isSetOperation = false := by
    rcases hform with rfl | rfl <;> rfl
  refine ⟨isQuery_of_clauses_eq hclauses hsame hquery, fun reads hreads => ?_,
    fun schema => ?_⟩
  · have hlast := hbound reads (ofTokens (tokens ++ word :: body)).isCombined hreads
    rw [boundIn_of_clauses_eq hclauses hset (hlast ▸ RowBound.ofNat_ne_absent count),
      hlast]
  · have huses := tableUses_of_clauses_eq hclauses
      (by rcases hform with rfl | rfl <;> simp [BoundForm.clauseKind])
      (by rcases hform with rfl | rfl <;> rfl) rfl schema []
    rw [tableNames, huses, tableNames]

end Statement

end SqlOutline
