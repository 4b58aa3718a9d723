import Mathlib.Data.List.Basic
import SqlOutline.Lineage.Collect

/-!
# Scopes of common tables

A name in a list of tables is written at the end of a path through the statements
around it. Each statement on the path makes some common tables visible. The lineage
reports just the names that no visible common table hides (`mem_tableUses_iff`).
-/

namespace SqlOutline

/-! ## Names of tables -/

/-- The name of a table in an item of a list of tables, and what follows it in the
item. -/
structure TableName where
  first : Token
  /-- The parts after the first dot. -/
  parts : List Token
  rest : List Piece

namespace TableName

/-- The name that an item begins with, after `LATERAL`. A name before parentheses is a
function. -/
def ofItem? (item : List Piece) : Option TableName :=
  match item.dropWhile fun piece => piece.keyword? == some .lateral with
  | .single first :: pieces =>
    let (parts, rest) := TableUse.moreParts pieces
    if first.isIdentifier && !rest.head?.any Piece.isGroup then
      some ⟨first, parts, rest⟩
    else none
  | _ => none

def mention (schema : String) (name : TableName) : TableMention :=
  TableUse.mentionOf schema name.first name.parts

def use (schema : String) (name : TableName) : TableUse :=
  ⟨name.mention schema, TableUse.alias? name.rest⟩

/-- Whether the name is hidden where some common tables are visible: it has one part,
and that is the name of one of them in letters of either case. -/
def isHidden (visible : List String) (name : TableName) : Bool :=
  name.parts.isEmpty && visible.any (Text.sameCaseless · name.first.name)

theorem isHidden_append (first second : List String) (name : TableName) :
    name.isHidden (first ++ second) =
      (name.isHidden first || name.isHidden second) := by
  rw [isHidden, List.any_append, Bool.and_or_distrib_left]
  rfl

end TableName

theorem TableUse.ofItem?_eq (schema : String) (visible : List String)
    (item : List Piece) :
    ofItem? schema visible item =
      ((TableName.ofItem? item).filter fun name => !name.isHidden visible).map
        (·.use schema) := by
  rw [ofItem?, TableName.ofItem?]
  generalize item.dropWhile (fun piece => piece.keyword? == some .lateral) = pieces
  match pieces with
  | [] => rfl
  | .group .. :: _ => rfl
  | .single first :: pieces =>
    dsimp only
    by_cases hname : (first.isIdentifier &&
        !(moreParts pieces).2.head?.any Piece.isGroup) = true
    · rw [hname, if_pos rfl, Bool.true_and, Option.filter_some, TableName.isHidden]
      split <;> rfl
    · rw [Bool.not_eq_true] at hname
      rw [hname, Bool.false_and]
      rfl

theorem TableUse.mem_ofBody_iff {schema : String} {visible : List String}
    {body : List Token} {use : TableUse} :
    use ∈ ofBody schema visible body ↔
      ∃ item ∈ Piece.commaItems (Piece.ofTokens body),
        ∃ name, TableName.ofItem? item = some name ∧ name.isHidden visible = false ∧
          name.use schema = use := by
  rw [ofBody, List.mem_filterMap]
  simp only [ofItem?_eq, Option.map_eq_some_iff, Option.filter_eq_some_iff,
    Bool.not_eq_true', and_assoc]

/-! ## Paths -/

/-- A step of a path into a statement: a clause of it, and for a step to a nested
statement the index of that in the clause. -/
structure Frame where
  statement : Statement
  clause : Clause Statement
  index : Nat

namespace Frame

/-- The common tables of the statement that are visible at the end of the step. -/
def visible (frame : Frame) : List String :=
  if frame.clause.kind = .with then frame.statement.namesBefore frame.index
  else frame.statement.commonTables

def hides (frame : Frame) (name : String) : Bool :=
  frame.visible.any (Text.sameCaseless · name)

theorem defines_of_hides {frame : Frame} {name : String}
    (h : frame.hides name = true) : frame.statement.defines name = true := by
  rw [hides, visible, List.any_eq_true] at h
  obtain ⟨table, htable, hsame⟩ := h
  rw [Statement.defines, List.any_eq_true]
  refine ⟨table, ?_, hsame⟩
  split at htable
  · exact List.mem_of_mem_take htable
  · exact htable

theorem hides_eq_defines {frame : Frame} (h : frame.clause.kind ≠ .with)
    (name : String) : frame.hides name = frame.statement.defines name := by
  rw [hides, visible, if_neg h, Statement.defines]

end Frame

/-- A name of a table, written in a statement at the end of a path from there. -/
inductive Statement.Writes : Statement → List Frame → TableName → Prop
  | own {statement : Statement} {clause : Clause Statement} {item : List Piece}
      {name : TableName} (hclause : clause ∈ statement.clauses)
      (hlists : clause.kind.listsTables = true)
      (hitem : item ∈ Piece.commaItems (Piece.ofTokens clause.body))
      (hname : TableName.ofItem? item = some name) :
      Writes statement [⟨statement, clause, 0⟩] name
  | nested {statement inner : Statement} {clause : Clause Statement} {index : Nat}
      {frames : List Frame} {name : TableName} (hclause : clause ∈ statement.clauses)
      (hinner : clause.nested[index]? = some inner) (h : Writes inner frames name) :
      Writes statement (⟨statement, clause, index⟩ :: frames) name

/-- A name is in the open where no statement on a path hides it. -/
def TableName.InTheOpen (name : TableName) (frames : List Frame) : Prop :=
  ∀ frame ∈ frames, name.isHidden frame.visible = false

namespace Statement

def usesIn (schema : String) (visible : List String) (statement : Statement)
    (clause : Clause Statement) : List TableUse :=
  if clause.kind = .with then
    clause.nested.zipIdx.flatMap fun inner =>
      inner.1.tableUses schema (statement.namesBefore inner.2 ++ visible)
  else
    (if clause.kind.listsTables then
      TableUse.ofBody schema (statement.commonTables ++ visible) clause.body else
          []) ++
        clause.nested.flatMap fun inner =>
          inner.tableUses schema (statement.commonTables ++ visible)

theorem tableUses_eq (schema : String) (visible : List String)
    (statement : Statement) :
    statement.tableUses schema visible =
      statement.clauses.flatMap (statement.usesIn schema visible) := by
  rw [tableUses]
  apply List.flatMap_congr
  intro clause _
  rw [usesIn]
  split
  · dsimp only
    rw [List.zipIdx_map, List.flatMap_map]
    rfl
  · dsimp only
    rw [List.flatMap_map]

theorem Writes.mem_tableUses {statement : Statement} {frames : List Frame}
    {name : TableName} (schema : String) (h : statement.Writes frames name)
    {visible : List String} (hvisible : name.isHidden visible = false)
    (hopen : name.InTheOpen frames) :
    name.use schema ∈ statement.tableUses schema visible := by
  induction h generalizing visible with
  | @own statement clause item name hclause hlists hitem hname =>
    have hkind : clause.kind ≠ .with := by
      intro hwith
      rw [hwith] at hlists
      exact Bool.noConfusion hlists
    have hknown : name.isHidden (statement.commonTables ++ visible) = false := by
      have hframe := hopen _ (List.mem_singleton_self _)
      rw [Frame.visible, if_neg hkind] at hframe
      rw [TableName.isHidden_append, hframe, hvisible, Bool.or_false]
    rw [tableUses_eq, List.mem_flatMap]
    refine ⟨clause, hclause, ?_⟩
    rw [usesIn, if_neg hkind, if_pos hlists]
    exact List.mem_append_left _
      (TableUse.mem_ofBody_iff.2 ⟨item, hitem, name, hname, hknown, rfl⟩)
  | @nested statement inner clause index frames name hclause hinner h ih =>
    have hframe := hopen _ (List.mem_cons_self ..)
    have hinnerOpen : name.InTheOpen frames := fun frame hmem =>
      hopen frame (List.mem_cons_of_mem _ hmem)
    have hinnerUse := @ih (Frame.visible ⟨statement, clause, index⟩ ++ visible)
      (by rw [TableName.isHidden_append, hframe, hvisible, Bool.or_false]) hinnerOpen
    rw [tableUses_eq, List.mem_flatMap]
    refine ⟨clause, hclause, ?_⟩
    rw [usesIn]
    by_cases hkind : clause.kind = .with
    · rw [Frame.visible, if_pos hkind] at hinnerUse
      rw [if_pos hkind, List.mem_flatMap]
      exact ⟨(inner, index), List.mem_zipIdx_iff_getElem?.2 hinner, hinnerUse⟩
    · rw [Frame.visible, if_neg hkind] at hinnerUse
      rw [if_neg hkind]
      exact List.mem_append_right _ (List.mem_flatMap.2
        ⟨inner, List.mem_of_getElem? hinner, hinnerUse⟩)

/-- A clause uses a table that its list of tables names, or that a nested statement
uses. -/
theorem exists_of_mem_usesIn {schema : String} {visible : List String}
    {statement : Statement} {clause : Clause Statement} {use : TableUse}
    (h : use ∈ statement.usesIn schema visible clause) :
    (clause.kind.listsTables = true ∧
        use ∈
          TableUse.ofBody schema (Frame.visible ⟨statement, clause, 0⟩ ++ visible)
            clause.body) ∨
      ∃ (index : Nat) (inner : Statement), clause.nested[index]? = some inner ∧
        use ∈
          inner.tableUses schema
            (Frame.visible ⟨statement, clause, index⟩ ++ visible) := by
  rw [usesIn] at h
  split at h
  · next hkind =>
    obtain ⟨⟨inner, index⟩, hinner, huse⟩ := List.mem_flatMap.1 h
    refine Or.inr ⟨index, inner, List.mem_zipIdx_iff_getElem?.1 hinner, ?_⟩
    rwa [Frame.visible, if_pos hkind]
  · next hkind =>
    rcases List.mem_append.1 h with hown | hnested
    · split at hown
      · next hlists =>
        refine Or.inl ⟨hlists, ?_⟩
        rwa [Frame.visible, if_neg hkind]
      · exact absurd hown List.not_mem_nil
    · obtain ⟨inner, hinner, huse⟩ := List.mem_flatMap.1 hnested
      obtain ⟨index, hindex⟩ := List.getElem?_of_mem hinner
      refine Or.inr ⟨index, inner, hindex, ?_⟩
      rwa [Frame.visible, if_neg hkind]

theorem exists_writes_of_mem_tableUses {schema : String} {use : TableUse}
    (statement : Statement) :
    ∀ visible, use ∈ statement.tableUses schema visible →
      ∃ frames name, statement.Writes frames name ∧ name.use schema = use ∧
        name.isHidden visible = false ∧ name.InTheOpen frames := by
  induction statement using induction_nested with
  | step statement ih =>
    intro visible h
    rw [tableUses_eq, List.mem_flatMap] at h
    obtain ⟨clause, hclause, h⟩ := h
    rcases exists_of_mem_usesIn h with ⟨hlists, hbody⟩ |
      ⟨index, inner, hinner, hnested⟩
    · obtain ⟨item, hitem, name, hname, hvisible, rfl⟩ :=
        TableUse.mem_ofBody_iff.1 hbody
      rw [TableName.isHidden_append, Bool.or_eq_false_iff] at hvisible
      refine ⟨_, name, .own hclause hlists hitem hname, rfl, hvisible.2,
        fun frame hframe => ?_⟩
      rw [List.mem_singleton.1 hframe]
      exact hvisible.1
    · obtain ⟨frames, name, hwrites, huse, hvisible, hopen⟩ :=
        ih clause hclause inner (List.mem_of_getElem? hinner) _ hnested
      rw [TableName.isHidden_append, Bool.or_eq_false_iff] at hvisible
      refine ⟨_, name, .nested hclause hinner hwrites, huse, hvisible.2,
        fun frame hframe => ?_⟩
      rcases List.mem_cons.1 hframe with rfl | hframe
      · exact hvisible.1
      · exact hopen frame hframe

/-- The tables that a statement uses are those whose names are in the open. -/
theorem mem_tableUses_iff {schema : String} {visible : List String}
    {statement : Statement} {use : TableUse} :
    use ∈ statement.tableUses schema visible ↔
      ∃ frames name, statement.Writes frames name ∧ name.use schema = use ∧
        name.isHidden visible = false ∧ name.InTheOpen frames := by
  constructor
  · exact exists_writes_of_mem_tableUses statement visible
  · rintro ⟨frames, name, hwrites, rfl, hvisible, hopen⟩
    exact hwrites.mem_tableUses schema hvisible hopen

end Statement

end SqlOutline
