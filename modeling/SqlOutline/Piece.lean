import SqlOutline.Token.Basic

/-!
# Pieces

One level of parentheses: a token list as a list of single tokens and parenthesized
groups. A group that is never closed reaches to the end; a `)` that closes nothing is
a token like any other.
-/

namespace SqlOutline

namespace Lexeme

def opens (lexeme : Lexeme) : Bool :=
  lexeme.kind == .parenOpen

def closes (lexeme : Lexeme) : Bool :=
  lexeme.kind == .parenClose

end Lexeme

/-- Number of tokens before the `)` that ends the surrounding group, with `depth`
groups open inside it; all of them if there is no such `)`. -/
def groupLength : Nat → List Token → Nat
  | _, [] => 0
  | depth, token :: tokens =>
    if token.opens then groupLength (depth + 1) tokens + 1
    else if token.closes then if depth = 0 then 0
      else groupLength (depth - 1) tokens + 1
    else groupLength depth tokens + 1

theorem groupLength_le_length (depth : Nat) (tokens : List Token) :
    groupLength depth tokens ≤ tokens.length := by
  induction tokens generalizing depth with
  | nil => exact Nat.le_refl _
  | cons token tokens ih =>
    rw [groupLength, List.length_cons]
    split
    · exact Nat.succ_le_succ (ih _)
    · split
      · split
        · exact Nat.zero_le _
        · exact Nat.succ_le_succ (ih _)
      · exact Nat.succ_le_succ (ih _)

/-- A group is followed by its `)`, if by any token. -/
theorem closes_of_getElem?_groupLength {depth : Nat} {tokens : List Token}
    {closing : Token} (h : tokens[groupLength depth tokens]? = some closing) :
    closing.closes = true := by
  induction tokens generalizing depth with
  | nil => simp at h
  | cons token tokens ih =>
    rw [groupLength] at h
    split at h
    · exact ih (by simpa using h)
    · split at h
      · next hcloses =>
        split at h
        · simp only [List.getElem?_cons_zero, Option.some.injEq] at h
          rw [← h]
          exact hcloses
        · exact ih (by simpa using h)
      · exact ih (by simpa using h)

/-- A token, or a group with its parentheses. -/
inductive Piece where
  | single (token : Token)
  | group (opening : Token) (inner : List Token) (closing : Option Token)
  deriving DecidableEq, Repr

namespace Piece

def ofTokens : List Token → List Piece
  | [] => []
  | token :: tokens =>
    if token.opens then
      let length := groupLength 0 tokens
      .group token (tokens.take length) tokens[length]? ::
        ofTokens (tokens.drop (length + 1))
    else
      .single token :: ofTokens tokens
termination_by tokens => tokens.length
decreasing_by
  all_goals simp only [List.length_drop, List.length_cons]; omega

def tokens : Piece → List Token
  | .single token => [token]
  | .group opening inner closing => opening :: inner ++ closing.toList

def lastKind : Piece → TokenKind
  | .single token => token.kind
  | .group _ _ _ => .parenClose

def isTrivia : Piece → Bool
  | .single token => token.isTrivia
  | .group _ _ _ => false

def isGroup : Piece → Bool
  | .single _ => false
  | .group _ _ _ => true

def keyword? : Piece → Option Keyword
  | .single token => token.keyword?
  | .group _ _ _ => none

def isKind (kind : TokenKind) : Piece → Bool
  | .single token => token.kind == kind
  | .group _ _ _ => false

def significant (pieces : List Piece) : List Piece :=
  pieces.filter fun piece => !piece.isTrivia

/-- The significant pieces between commas. -/
def commaItems (pieces : List Piece) : List (List Piece) :=
  (significant pieces).splitOnP (isKind .comma)

/-- Cutting tokens into pieces loses none of them. -/
theorem flatMap_tokens_ofTokens (tokens : List Token) :
    (ofTokens tokens).flatMap Piece.tokens = tokens := by
  fun_induction ofTokens tokens with
  | case1 => rfl
  | case2 token tokens hopens length ih =>
    rw [List.flatMap_cons, ih, Piece.tokens]
    cases h : tokens[length]? with
    | none =>
      have hlength : tokens.length ≤ length := List.getElem?_eq_none_iff.1 h
      simp [List.take_of_length_le hlength,
        List.drop_of_length_le (Nat.le_succ_of_le hlength)]
    | some closing =>
      obtain ⟨hlength, rfl⟩ := List.getElem?_eq_some_iff.1 h
      simp
  | case3 token tokens hopens ih => simp [Piece.tokens, ih]

end Piece

/-- The tokens that are neither white space nor comments. -/
def significant (tokens : List Token) : List Token :=
  tokens.filter fun token => !token.isTrivia

end SqlOutline
