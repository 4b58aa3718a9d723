import SqlOutline.Settings.Basic

/-!
# Errors

Why a request cannot be answered. Reading a script never fails; only names and places
that a caller gives can be wrong.
-/

namespace SqlOutline

inductive Error where
  | unknownDialect (name : String)
  | lineOutOfRange (line lines : Nat)
  | columnOutOfRange (line column length : Nat)
  | offsetOutOfRange (offset length : Nat)
  /-- The value in the environment is not text. -/
  | undecodableSetting (setting : Setting)
  deriving DecidableEq, Repr

namespace Error

def message : Error → String
  | .unknownDialect name => "Unknown dialect: " ++ name
  | .lineOutOfRange line lines =>
    s!"Line {line} out of range, text has {lines} line(s)"
  | .columnOutOfRange line column length =>
    s!"Column {column} out of range for line {line} of length {length}"
  | .offsetOutOfRange offset length =>
    s!"Offset {offset} out of range, text has {length} character(s)"
  | .undecodableSetting setting =>
    "Configuration error: failed to load value `" ++ setting.label
      ++ "` from environment variable `" ++ setting.variableName
      ++ "`: value is not valid unicode"

end Error

end SqlOutline
