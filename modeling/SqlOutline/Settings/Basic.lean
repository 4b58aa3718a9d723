/-!
# Settings by name

The defaults that a caller may set in the environment.
-/

namespace SqlOutline

inductive Setting where
  /-- The schema of tables that are written without one. -/
  | schema
  /-- The dialect of scripts whose dialect is not given. -/
  | dialect
  deriving DecidableEq, Repr

namespace Setting

def variableName : Setting → String
  | .schema => "SQLSCOPE_DEFAULT_SCHEMA"
  | .dialect => "SQLSCOPE_DEFAULT_DIALECT"

def label : Setting → String
  | .schema => "Config::default_schema"
  | .dialect => "Config::default_dialect"

def fallback : Setting → String
  | .schema => "default"
  | .dialect => "generic"

end Setting

end SqlOutline
