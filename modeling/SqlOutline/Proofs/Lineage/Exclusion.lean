import SqlOutline.Proofs.Lineage.Origin

/-!
# What the lineage leaves out

A name is reported just when no statement around it hides it
(`Writes.mention_mem_iff`). So no name of a common table is reported where that is
visible, and nothing else is left out (`exists_mentions_excludesCommonTables`).
-/

namespace SqlOutline

namespace Statement

theorem LiesBelow.exists_writes {top statement : Statement} {level : Nat}
    {frames : List Frame} {name : TableName} (h : LiesBelow top level statement)
    (hwrites : statement.Writes frames name) :
    ∃ outer, top.Writes (outer ++ frames) name := by
  induction h generalizing frames with
  | top => exact ⟨[], hwrites⟩
  | @nested level statement inner clause h hclause hinner ih =>
    obtain ⟨index, hindex⟩ := List.getElem?_of_mem hinner
    obtain ⟨outer, houter⟩ := ih (.nested hclause hindex hwrites)
    exact ⟨outer ++ [⟨statement, clause, index⟩], by rwa [List.append_assoc]⟩

theorem Writes.statement_eq {statement : Statement} {frame : Frame}
    {frames : List Frame} {name : TableName}
    (h : statement.Writes (frame :: frames) name) : frame.statement = statement := by
  cases h <;> rfl

theorem isParsed_of_mem_statements {text : String} {top : Statement}
    (htop : top ∈ Script.statements text) : top.IsParsed := by
  obtain ⟨tokens, -, rfl⟩ := List.mem_map.1 htop
  exact ⟨_, _, rfl⟩

/-- A name is reported just when no statement on its path hides it. -/
theorem Writes.mention_mem_iff {text : String} {top : Statement}
    (htop : top ∈ Script.statements text) (schema : String) {frames : List Frame}
    {name : TableName} (h : top.Writes frames name) :
    name.mention schema ∈ (top.tableUses schema []).map TableUse.mention ↔
      name.InTheOpen frames := by
  have hparsed := isParsed_of_mem_statements htop
  have hstretch := Script.isInfix_of_mem_statements htop
  constructor
  · intro hmem
    obtain ⟨use, huse, hmention⟩ := List.mem_map.1 hmem
    obtain ⟨others, other, hother, rfl, -, hopen⟩ := mem_tableUses_iff.1 huse
    -- the mention starts where its name does
    have hstart : other.first.start = name.first.start :=
      congrArg TableMention.start hmention
    have hfirst := List.inj_on_of_nodup_map (Token.nodup_start_tokenize text)
      (hstretch.mem (hother.first_mem hparsed)) (hstretch.mem (h.first_mem hparsed))
      hstart
    obtain ⟨rfl, rfl⟩ := hother.unique hparsed
      (hstretch.sublist.nodup (Token.nodup_tokenize text)) h hfirst
    exact hopen
  · intro hopen
    have hvisible : name.isHidden [] = false := by simp [TableName.isHidden]
    exact List.mem_map_of_mem (h.mem_tableUses schema hvisible hopen)

end Statement

/-! ## Common tables -/

/-- What the mentions reported for a statement of a script leave out on account of
common tables. -/
structure Lineage.ExcludesCommonTables (schema : String) (top : Statement)
    (mentions : List TableMention) : Prop where
  exists_writes : ∀ mention ∈ mentions, ∃ frames name, top.Writes frames name ∧
    name.mention schema = mention
  /-- A name of one part that is reported from a clause other than `WITH`, or from
  below it, names no common table of the statement. -/
  defines_eq_false : ∀ level statement frame frames name,
    top.LiesBelow level statement → statement.Writes (frame :: frames) name →
    frame.clause.kind ≠ .with → name.parts = [] → name.mention schema ∈ mentions →
    statement.defines name.first.name = false
  /-- A name is left out only when it has one part and a statement around it defines
  it. -/
  exists_defines : ∀ frames name, top.Writes frames name →
    name.mention schema ∉ mentions →
    name.parts = [] ∧ ∃ frame ∈ frames, frame.statement.defines name.first.name = true

theorem Lineage.mentions_getElem? {schema : String} {statements : List Statement}
    {index : Nat} {top : Statement} (h : statements[index]? = some top) :
    (ofStatements schema statements).mentions[index]? =
      some (((top.tableUses schema []).map TableUse.mention).mergeSort
        TableMention.precedes) := by
  simp [ofStatements, h]

/-- The lineage reports no common table where that is visible, and leaves out nothing
else. -/
theorem Lineage.exists_mentions_excludesCommonTables {schema text : String}
    {index : Nat} {top : Statement}
    (h : (Script.statements text)[index]? = some top) :
    ∃ mentions,
      (ofStatements schema (Script.statements text)).mentions[index]? =
        some mentions ∧
      ExcludesCommonTables schema top mentions := by
  have htop := List.mem_of_getElem? h
  refine ⟨_, mentions_getElem? h, fun mention hmem => ?_, ?_,
    fun frames name hwrites hmem => ?_⟩
  · obtain ⟨use, huse, rfl⟩ := List.mem_map.1 (List.mem_mergeSort.1 hmem)
    obtain ⟨frames, name, hwrites, rfl, -, -⟩ := Statement.mem_tableUses_iff.1 huse
    exact ⟨frames, name, hwrites, rfl⟩
  · intro level statement frame frames name hbelow hwrites hkind hparts hmem
    obtain ⟨outer, houter⟩ := hbelow.exists_writes hwrites
    rw [List.mem_mergeSort, houter.mention_mem_iff htop] at hmem
    have hhidden := hmem frame (List.mem_append_right outer (List.mem_cons_self ..))
    rw [TableName.isHidden, hparts, List.isEmpty_nil, Bool.true_and] at hhidden
    rw [← hwrites.statement_eq, ← Frame.hides_eq_defines hkind]
    exact hhidden
  · rw [List.mem_mergeSort, hwrites.mention_mem_iff htop, TableName.InTheOpen] at hmem
    simp only [not_forall, Bool.not_eq_false] at hmem
    obtain ⟨frame, hframe, hhidden⟩ := hmem
    rw [TableName.isHidden, Bool.and_eq_true, List.isEmpty_iff] at hhidden
    exact ⟨hhidden.1, frame, hframe, Frame.defines_of_hides hhidden.2⟩

def commonTableScript : String :=
  "with a as (select * from t) select * from A join s.a"

/-- The use `A` of the common table is left out, and `s.a` is reported. -/
theorem Lineage.exists_mentions_excludesCommonTables_commonTableScript :
    ∃ top, (Script.statements commonTableScript)[0]? = some top ∧
      top.commonTables = ["a"] ∧
      (ofStatements "default" (Script.statements commonTableScript)).mentions[0]? =
        some [⟨"default", "t", 0, 25, 26⟩, ⟨"s", "a", 0, 49, 52⟩] ∧
      ExcludesCommonTables "default" top
        [⟨"default", "t", 0, 25, 26⟩, ⟨"s", "a", 0, 49, 52⟩] := by
  let top := Statement.ofTokens (Token.tokenize commonTableScript)
  have htop : (Script.statements commonTableScript)[0]? = some top := by
    rw [Script.statements_eq_singleton (by decide +kernel)]
    rfl
  have htables : top.commonTables = ["a"] := by decide +kernel
  have hlisted : (top.tableUses "default" []).map TableUse.mention =
      [⟨"default", "t", 0, 25, 26⟩, ⟨"s", "a", 0, 49, 52⟩] := by decide +kernel
  obtain ⟨mentions, hmentions, hexcludes⟩ := exists_mentions_excludesCommonTables htop
  obtain rfl : mentions = [⟨"default", "t", 0, 25, 26⟩, ⟨"s", "a", 0, 49, 52⟩] := by
    rw [mentions_getElem? htop, hlisted,
      List.mergeSort_of_pairwise (by decide)] at hmentions
    exact (Option.some_inj.1 hmentions).symm
  exact ⟨top, htop, htables, hmentions, hexcludes⟩

end SqlOutline
