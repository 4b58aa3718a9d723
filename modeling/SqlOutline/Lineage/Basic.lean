import SqlOutline.Text.Caseless
import Std.Data.TreeMap

/-!
# Mentions of tables

The tables that statements read or write in their lists of tables, and the names given
to them.
-/

namespace SqlOutline

/-- A table at the place where it is named. The offsets take in the schema before the
name. -/
structure TableMention where
  schema : String
  name : String
  line : Nat
  start : Nat
  stop : Nat
  deriving DecidableEq, Repr

namespace TableMention

def fullName (mention : TableMention) : String :=
  mention.schema ++ "." ++ mention.name

def precedes (first second : TableMention) : Bool :=
  first.line < second.line ||
    (first.line == second.line && first.start ≤ second.start)

end TableMention

/-- The tables behind the aliases of a statement, in the order of the aliases. -/
abbrev Aliases := Std.TreeMap String TableMention

/-- The tables of each statement of a script in the order of the text, and the aliases
of each. -/
structure Lineage where
  mentions : List (List TableMention)
  aliases : List Aliases

namespace Lineage

def tables (lineage : Lineage) : List String :=
  (lineage.mentions.flatten.map TableMention.fullName).eraseDups

/-- The table that a name stands for in a statement: an alias as it is written, or
else the first table of this name in letters of either case. -/
def resolve? (lineage : Lineage) (statement : Nat) (name : String) :
    Option TableMention :=
  let byAlias := lineage.aliases[statement]?.bind fun aliases => aliases[name]?
  let byName := lineage.mentions[statement]?.bind fun mentions =>
    mentions.find? fun mention => Text.sameCaseless mention.name name
  byAlias.or byName

end Lineage

end SqlOutline
