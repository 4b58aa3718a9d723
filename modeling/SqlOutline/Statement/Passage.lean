import SqlOutline.Clause.Basic

/-!
# Nested passages

Which parts of a parenthesized group are statements of their own. The answer hangs on
the clause that holds the group and on the kind of the significant token before it.
-/

namespace SqlOutline

/-- Tokens to be read as one statement. `relation` says that they stand where a table
is expected, as in `FROM (a JOIN b ON …)`: their beginning is then a list of
tables. -/
structure Passage where
  relation : Bool
  tokens : List Token
  deriving DecidableEq, Repr

def beginsQuery (tokens : List Token) : Bool :=
  (significant tokens).head?.any (·.startsQuery)

/-- The contents of the outermost groups, however deep in other parentheses, that
begin a query. Parentheses in a row all lead to the same token, so one look settles
the whole row. -/
def queriesWithin : List Token → List (List Token)
  | [] => []
  | token :: tokens =>
    if token.opens then
      if opensQuery tokens then
        let length := groupLength 0 tokens
        tokens.take length :: queriesWithin (tokens.drop (length + 1))
      else
        queriesWithin (tokens.dropWhile fun token => token.isTrivia || token.opens)
    else
      queriesWithin tokens
termination_by tokens => tokens.length
decreasing_by
  · simp only [List.length_drop, List.length_cons]; omega
  · exact Nat.lt_succ_of_le (List.dropWhile_sublist _).length_le
  · simp

namespace Passage

def followsFunction (previous : Option TokenKind) : Bool :=
  match previous with
  | some .identifier => true
  | some (.keyword word) => word.namesFunction
  | _ => false

/-- Whether a group after a token of kind `previous` stands for a table, or for the
rows of a definition in a `WITH` clause. -/
def standsForRelation (clause : ClauseKind) (previous : Option TokenKind) : Bool :=
  match previous with
  | none => clause == .from
  | some (.keyword .from) | some (.keyword .join) | some (.keyword .lateral) => true
  | some (.keyword .as) | some (.keyword .materialized) => clause == .with
  | some .comma => clause.listsTables
  | _ => false

/-- The passages of a group with the contents `inner`. Keywords among the arguments of
a function open no clauses, as in `EXTRACT(YEAR FROM d)`, so there only whole queries
count. -/
def ofGroup (clause : ClauseKind) (previous : Option TokenKind) (inner : List Token) :
    List Passage :=
  if followsFunction previous then
    if beginsQuery inner then [⟨false, inner⟩]
    else (queriesWithin inner).map (⟨false, ·⟩)
  else if standsForRelation clause previous then [⟨true, inner⟩]
  else if opensQuery inner then [⟨false, inner⟩]
  else (queriesWithin inner).map (⟨false, ·⟩)

/-- The passages of the groups among some pieces of a clause, after a token of kind
`previous`. -/
def ofPieces (clause : ClauseKind) : Option TokenKind → List Piece → List Passage
  | _, [] => []
  | previous, .group _ inner _ :: pieces =>
    ofGroup clause previous inner ++ ofPieces clause (some .parenClose) pieces
  | previous, .single token :: pieces =>
    ofPieces clause (if token.isTrivia then previous else some token.kind) pieces

end Passage

end SqlOutline
