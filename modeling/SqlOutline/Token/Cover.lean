import SqlOutline.Search
import SqlOutline.Token.Basic

/-!
# The token at an offset

Tokens lie side by side in the order of the text, so the one that covers an offset is
found by binary search.
-/

namespace SqlOutline.Token

/-- The token that covers an offset, as under a cursor. -/
def at? (tokens : List Token) (offset : Nat) : Option Token :=
  let tokens := tokens.toArray
  let index := boundary (fun i => tokens[i]?.any (·.stop ≤ offset)) 0 tokens.size
  tokens[index]?.filter (·.contains offset)

end SqlOutline.Token
