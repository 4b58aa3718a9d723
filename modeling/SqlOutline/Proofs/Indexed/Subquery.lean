import SqlOutline.Proofs.Indexed.Statement
import SqlOutline.Token.Lexer

/-!
# Rows of parentheses

A search for the queries within a group looks behind a `(` for the token that a row of
parentheses leads to. If that begins no query, the search goes on with it and passes
over the row. No query is lost by that: all parentheses of the row lead to the same
token, so a search that moves on by one token and looks behind each of them finds the
same statements (`subqueriesAt_eq_subqueriesByToken`).
-/

namespace SqlOutline.Indexed

/-! ## What a row leads to -/

private theorem opensQuery_cons {token : Token} (tokens : List Token)
    (h : token.isTrivia = true ∨ token.opens = true) :
    opensQuery (token :: tokens) = opensQuery tokens := by
  rw [← List.singleton_append]
  exact opensQuery_append (by simpa using h) tokens

private theorem queriesWithin_cons_of_not_opens {token : Token} (tokens : List Token)
    (h : token.opens = false) :
    queriesWithin (token :: tokens) = queriesWithin tokens := by
  rw [queriesWithin, if_neg (by simp [h])]

private theorem queriesWithin_cons_of_opensQuery {token : Token} {tokens : List Token}
    (hopens : token.opens = true) (hquery : opensQuery tokens = true) :
    queriesWithin (token :: tokens) =
      groupContents tokens ::
        queriesWithin (tokens.drop (groupLength 0 tokens + 1)) := by
  rw [queriesWithin, if_pos hopens, if_pos hquery]
  rfl

private theorem queriesWithin_lead {tokens : List Token}
    (h : opensQuery tokens = false) :
    queriesWithin (lead tokens) = queriesWithin tokens := by
  induction tokens with
  | nil => rfl
  | cons token tokens ih =>
    by_cases hopens : token.opens = true
    · rw [opensQuery_cons tokens (Or.inr hopens)] at h
      rw [lead_cons_of_opens tokens hopens, queriesWithin, if_pos hopens,
        if_neg (by simp [h])]
      rfl
    · have hopens : token.opens = false := by simpa using hopens
      by_cases htrivia : token.isTrivia = true
      · rw [opensQuery_cons tokens (Or.inl htrivia)] at h
        have hblank : ∀ blank ∈ [token], blank.isTrivia = true := by
          simpa using htrivia
        rw [queriesWithin_cons_of_not_opens tokens hopens, ← ih h,
          ← List.singleton_append, lead_append hblank]
      · rw [lead_cons tokens (by simpa using htrivia) hopens]

private theorem queriesWithin_cons_of_not_opensQuery {token : Token}
    {tokens : List Token} (hopens : token.opens = true)
    (hquery : opensQuery tokens = false) :
    queriesWithin (token :: tokens) = queriesWithin tokens := by
  rw [queriesWithin, if_pos hopens, if_neg (by simp [hquery]), ← lead,
    queriesWithin_lead hquery]

/-! ## Two searches -/

def search (resume : Nat → Nat → Nat) (depth : Nat) (inner : List Token) :
    Checked (List Statement) :=
  loop inner.length
    (fun index found => do
      let token ← element inner index
      if token.opens && depth < Statement.nestingLimit then do
        let (first, isQuery) ← leadingQuery inner (index + 1)
        if isQuery then do
          let close ← matchingClose inner index
          let body ← slice inner (index + 1) close
          let statement ← parse (Statement.nestingLimit - (depth + 1)) false body
          .ok (.next (close + 1) (found ++ [statement]))
        else .ok (.next (resume index first) found)
      else .ok (.next (index + 1) found))
    (fun _ found => found) 0 []

/-- The search that passes over a row of parentheses at once. -/
def subqueriesAt (depth : Nat) (inner : List Token) : Checked (List Statement) :=
  search (fun _ first => first) depth inner

/-- The search that moves on by one token, and so looks behind each `(` of a row. -/
def subqueriesByToken (depth : Nat) (inner : List Token) : Checked (List Statement) :=
  search (fun index _ => index + 1) depth inner

/-- The statements that the queries within a group make, one level below `depth`. -/
def queryStatements (depth : Nat) (inner : List Token) : List Statement :=
  (queriesWithin inner).map fun query =>
    Statement.ofPassage (Statement.nestingLimit - (depth + 1)) ⟨false, query⟩

variable {depth : Nat}

/-- Above the deepest level the search is the one that groups are read with. -/
theorem subqueriesAt_eq (h : depth < Statement.nestingLimit) (inner : List Token) :
    subqueriesAt depth inner = subqueriesWithin
        (parse (Statement.nestingLimit - (depth + 1)) false) inner := by
  simp only [subqueriesAt, search, h, decide_true, Bool.and_true]
  rfl

theorem subqueriesAt_eq_ok (h : depth < Statement.nestingLimit) (inner : List Token) :
    subqueriesAt depth inner = .ok (queryStatements depth inner) := by
  rw [subqueriesAt_eq h]
  exact subqueriesWithin_eq_ok fun body _ => parse_eq_ok _ false body

theorem subqueriesByToken_eq_ok (h : depth < Statement.nestingLimit)
    (inner : List Token) :
    subqueriesByToken depth inner = .ok (queryStatements depth inner) := by
  simp only [subqueriesByToken, search, h, decide_true, Bool.and_true]
  refine loop_eq_ok (fun index found =>
    found ++ queryStatements depth (inner.drop index) = queryStatements depth inner)
    ?_ ?_ rfl
  · rintro index found hlength hinv
    rwa [List.drop_eq_nil_of_le hlength, queryStatements, queriesWithin, List.map_nil,
      List.append_nil] at hinv
  · rintro index found hlt hinv
    have htoken := List.getElem?_eq_getElem hlt
    rw [drop_eq_cons htoken] at hinv
    rw [element_eq_ok htoken, ok_bind]
    by_cases hopens : inner[index].opens = true
    · obtain ⟨first, hleading, -, -⟩ := exists_leadingQuery_eq_ok inner (index + 1)
      rw [if_pos hopens, hleading, ok_bind]
      by_cases hquery : opensQuery (inner.drop (index + 1)) = true
      · simp only [hquery, ↓reduceIte, matchingClose_eq_ok htoken hopens,
          slice_closeOf hlt, parse_eq_ok, ok_bind]
        refine ⟨_, rfl, by rw [closeOf]; omega, ?_⟩
        rw [queryStatements, queriesWithin_cons_of_opensQuery hopens hquery,
          List.map_cons] at hinv
        rw [queryStatements, drop_closeOf_succ, List.append_assoc]
        exact hinv
      · have hquery : opensQuery (inner.drop (index + 1)) = false := by
          simpa using hquery
        rw [queryStatements,
          queriesWithin_cons_of_not_opensQuery hopens hquery] at hinv
        simp only [hquery, Bool.false_eq_true, ↓reduceIte]
        exact ⟨_, rfl, Nat.lt_succ_self _, hinv⟩
    · rw [if_neg hopens]
      rw [queryStatements,
        queriesWithin_cons_of_not_opens _ (by simpa using hopens)] at hinv
      exact ⟨_, rfl, Nat.lt_succ_self _, hinv⟩

/-- Passing over rows of parentheses loses no query: wherever nested statements are
read, both searches find the same ones in the same order, and those are the queries
within the group. -/
theorem subqueriesAt_eq_subqueriesByToken (h : depth < Statement.nestingLimit)
    (inner : List Token) :
    ∃ found, subqueriesAt depth inner = .ok found ∧
      subqueriesByToken depth inner = .ok found ∧
      found = queryStatements depth inner :=
  ⟨_, subqueriesAt_eq_ok h inner, subqueriesByToken_eq_ok h inner, rfl⟩

def rowsText : String := "((1)), a in ( (2) + (select x from (y))), (), ((select 3"

theorem subqueriesAt_eq_subqueriesByToken_rowsText :
    255 < Statement.nestingLimit ∧ ∃ found,
      subqueriesAt 255 (Token.tokenize rowsText) = .ok found ∧
      subqueriesByToken 255 (Token.tokenize rowsText) = .ok found ∧
      found.map Statement.text = ["select x from (y)", "(select 3"] := by
  have hdepth : 255 < Statement.nestingLimit := by decide
  obtain ⟨found, hat, hbyToken, rfl⟩ :=
    subqueriesAt_eq_subqueriesByToken hdepth (Token.tokenize rowsText)
  exact ⟨hdepth, _, hat, hbyToken, by decide +kernel⟩

end SqlOutline.Indexed
