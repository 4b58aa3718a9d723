import SqlOutline.Error
import SqlOutline.Text.Blank
import SqlOutline.Text.Caseless

/-!
# Dialects

The dialects differ in how a query bounds the number of its rows.
-/

namespace SqlOutline

/-- The ways to write a bound on the rows of a query. -/
inductive BoundForm where
  /-- As in `LIMIT n` and `LIMIT m, n`. -/
  | limit
  /-- As in `FETCH FIRST n ROWS ONLY`, perhaps after `OFFSET m ROWS`. -/
  | fetch
  /-- As in `SELECT TOP n` and `SELECT TOP (n)`. -/
  | top
  deriving DecidableEq, Repr

def BoundForm.label : BoundForm → String
  | .limit => "LIMIT n"
  | .fetch => "FETCH FIRST n ROWS ONLY"
  | .top => "TOP n"

inductive Dialect where
  | generic | presto | trino | hive | sparkSql | mySql | postgreSql | sqlite
  | bigQuery | snowflake | oracle | sqlServer
  deriving DecidableEq, Repr

structure DialectProfile where
  name : String
  otherNames : List String
  /-- The form in which a bound is added to a query. -/
  primary : BoundForm
  /-- The other forms that the dialect reads. -/
  others : List BoundForm

namespace Dialect

def all : List Dialect :=
  [.generic, .presto, .trino, .hive, .sparkSql, .mySql, .postgreSql, .sqlite,
   .bigQuery, .snowflake, .oracle, .sqlServer]

def profile : Dialect → DialectProfile
  | .generic => ⟨"generic", ["ansi"], .limit, []⟩
  | .presto => ⟨"presto", ["prestodb"], .limit, []⟩
  | .trino => ⟨"trino", [], .limit, [.fetch]⟩
  | .hive => ⟨"hive", ["hiveql"], .limit, []⟩
  | .sparkSql => ⟨"sparksql", ["spark", "databricks"], .limit, []⟩
  | .mySql => ⟨"mysql", ["mariadb"], .limit, []⟩
  | .postgreSql => ⟨"postgresql", ["postgres", "redshift"], .limit, [.fetch]⟩
  | .sqlite => ⟨"sqlite", [], .limit, []⟩
  | .bigQuery => ⟨"bigquery", [], .limit, []⟩
  | .snowflake => ⟨"snowflake", [], .limit, [.fetch, .top]⟩
  | .oracle => ⟨"oracle", [], .fetch, []⟩
  | .sqlServer => ⟨"sqlserver", ["mssql", "tsql"], .top, [.fetch]⟩

def name (dialect : Dialect) : String :=
  dialect.profile.name

def names (dialect : Dialect) : List String :=
  dialect.profile.name :: dialect.profile.otherNames

def primary (dialect : Dialect) : BoundForm :=
  dialect.profile.primary

/-- The forms that the dialect reads, the primary one first. -/
def forms (dialect : Dialect) : List BoundForm :=
  dialect.profile.primary :: dialect.profile.others

def reads (dialect : Dialect) (form : BoundForm) : Bool :=
  form ∈ dialect.forms

def parse (name : String) : Except Error Dialect :=
  let trimmed := Text.trim name
  match all.find? fun dialect => dialect.names.any (Text.sameCaseless · trimmed) with
  | some dialect => .ok dialect
  | none => .error (.unknownDialect name)

def ofName (name : String) : Dialect :=
  match parse name with
  | .ok dialect => dialect
  | .error _ => .generic

theorem mem_all (dialect : Dialect) : dialect ∈ all := by
  cases dialect <;> decide

theorem reads_primary (dialect : Dialect) : dialect.reads dialect.primary = true := by
  simp [reads, forms, primary]

end Dialect

end SqlOutline
