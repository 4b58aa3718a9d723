import SqlOutline.Text.Caseless

/-!
# Keywords

The words that shape a statement: statement and clause heads, join modifiers, set
operators and the connectives that tell clauses apart. All other words, function names
among them, are identifiers.
-/

namespace SqlOutline

inductive Keyword where
  | select | «from» | join | «on» | «using» | «as» | «where» | group | order | «by»
  | having | window | qualify | limit | offset | fetch | union | except | intersect
  | minus | «all» | distinct | «with» | recursive | materialized | insert | into
  | update | «set» | delete | create | drop | truncate | table | values | inner | left
  | right | full | outer | cross | natural | lateral | and | or | not | «in» | «is»
  | null | «exists» | «case» | when | «then» | «else» | «end» | between | like
  | explain
  deriving DecidableEq, Repr

inductive SetOperator where
  | union | except | intersect | minus
  deriving DecidableEq, Repr

namespace Keyword

def vocabulary : List Keyword :=
  [.select, .from, .join, .on, .using, .as, .where, .group, .order, .by, .having,
   .window, .qualify, .limit, .offset, .fetch, .union, .except, .intersect, .minus,
   .all, .distinct, .with, .recursive, .materialized, .insert, .into, .update, .set,
   .delete, .create, .drop, .truncate, .table, .values, .inner, .left, .right, .full,
   .outer, .cross, .natural, .lateral, .and, .or, .not, .in, .is, .null, .exists,
   .case, .when, .then, .else, .end, .between, .like, .explain]

def text : Keyword → String
  | .select => "select"
  | .from => "from"
  | .join => "join"
  | .on => "on"
  | .using => "using"
  | .as => "as"
  | .where => "where"
  | .group => "group"
  | .order => "order"
  | .by => "by"
  | .having => "having"
  | .window => "window"
  | .qualify => "qualify"
  | .limit => "limit"
  | .offset => "offset"
  | .fetch => "fetch"
  | .union => "union"
  | .except => "except"
  | .intersect => "intersect"
  | .minus => "minus"
  | .all => "all"
  | .distinct => "distinct"
  | .with => "with"
  | .recursive => "recursive"
  | .materialized => "materialized"
  | .insert => "insert"
  | .into => "into"
  | .update => "update"
  | .set => "set"
  | .delete => "delete"
  | .create => "create"
  | .drop => "drop"
  | .truncate => "truncate"
  | .table => "table"
  | .values => "values"
  | .inner => "inner"
  | .left => "left"
  | .right => "right"
  | .full => "full"
  | .outer => "outer"
  | .cross => "cross"
  | .natural => "natural"
  | .lateral => "lateral"
  | .and => "and"
  | .or => "or"
  | .not => "not"
  | .in => "in"
  | .is => "is"
  | .null => "null"
  | .exists => "exists"
  | .case => "case"
  | .when => "when"
  | .then => "then"
  | .else => "else"
  | .end => "end"
  | .between => "between"
  | .like => "like"
  | .explain => "explain"

def ofText? (word : String) : Option Keyword :=
  vocabulary.find? fun keyword => keyword.text == word

def ofWord? (word : List Char) : Option Keyword :=
  ofText? (String.ofList (word.map Text.asciiLower))

def modifiesJoin : Keyword → Bool
  | .inner | .left | .right | .full | .outer | .cross | .natural => true
  | _ => false

/-- Whether the keyword is also the name of a function, as in `left(name, 3)`. -/
def namesFunction : Keyword → Bool
  | .left | .right => true
  | _ => false

def setOperator? : Keyword → Option SetOperator
  | .union => some .union
  | .except => some .except
  | .intersect => some .intersect
  | .minus => some .minus
  | _ => none

theorem mem_vocabulary (keyword : Keyword) : keyword ∈ vocabulary := by
  cases keyword <;> decide

@[simp] theorem ofText?_text (keyword : Keyword) :
    ofText? keyword.text = some keyword := by
  cases keyword <;> decide +kernel

end Keyword

def SetOperator.keyword : SetOperator → Keyword
  | .union => .union
  | .except => .except
  | .intersect => .intersect
  | .minus => .minus

@[simp] theorem Keyword.setOperator?_keyword (operator : SetOperator) :
    operator.keyword.setOperator? = some operator := by
  cases operator <;> rfl

end SqlOutline
