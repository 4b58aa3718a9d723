import SqlOutline.Error

/-!
# Loading the settings

The analyses take the schema and the dialect as arguments; these are the values for a
caller that has none of its own.
-/

namespace SqlOutline

structure Settings where
  schema : String
  dialect : String
  deriving DecidableEq, Repr

namespace Settings

def builtin : Settings :=
  ⟨Setting.schema.fallback, Setting.dialect.fallback⟩

/-- The value of a setting in an environment, which holds bytes. An empty value is a
value. -/
def read (environment : String → Option ByteArray) (setting : Setting) :
    Except Error String :=
  match environment setting.variableName with
  | none => .ok setting.fallback
  | some bytes =>
    match String.fromUTF8? bytes with
    | some value => .ok value
    | none => .error (.undecodableSetting setting)

def load (environment : String → Option ByteArray) : Except Error Settings := do
  let schema ← read environment .schema
  let dialect ← read environment .dialect
  return ⟨schema, dialect⟩

def loadOrBuiltin (environment : String → Option ByteArray) : Settings :=
  match load environment with
  | .ok settings => settings
  | .error _ => builtin

end Settings

end SqlOutline
