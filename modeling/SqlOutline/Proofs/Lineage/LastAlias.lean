import SqlOutline.Proofs.Lineage.Location

/-!
# The last of the uses of an alias

Of the tables that are given one alias in a statement, the alias stands for the one
that is read last (`getElem?_aliases_iff`). Tables are read in the order of the text,
but for one thing: a list of tables is read before the statements nested in its
clause, though these may stand further to the left. So the alias stands for the table
that is written last, unless a clause and a statement nested in it both give it.
-/

namespace SqlOutline

/-! ## The order of reading -/

/-- The first path ends in the list of tables of a clause, and the second one goes on
from that clause to a table of a statement nested in it. -/
inductive Encloses : List Frame → List Frame → Prop
  | clause (statement : Statement) (clause : Clause Statement) (index : Nat)
      {rest : List Frame} (h : rest ≠ []) :
      Encloses [⟨statement, clause, 0⟩] (⟨statement, clause, index⟩ :: rest)
  | step (frame : Frame) {frames others : List Frame} (h : Encloses frames others) :
      Encloses (frame :: frames) (frame :: others)

namespace Encloses

variable {frame other : Frame} {frames others : List Frame}

theorem ne_nil (h : Encloses frames others) : frames ≠ [] ∧ others ≠ [] := by
  cases h <;> exact ⟨List.cons_ne_nil _ _, List.cons_ne_nil _ _⟩

theorem clause_eq (h : Encloses (frame :: frames) (other :: others)) :
    frame.clause = other.clause := by
  cases h <;> rfl

theorem index_eq (hne : frames ≠ [])
    (h : Encloses (frame :: frames) (other :: others)) :
    frame.index = other.index := by
  cases h with
  | clause => exact absurd rfl hne
  | step => rfl

theorem of_cons (hne : frames ≠ [])
    (h : Encloses (frame :: frames) (other :: others)) : Encloses frames others := by
  cases h with
  | clause => exact absurd rfl hne
  | step _ h => exact h

theorem not_singleton (h : Encloses frames [other]) : False := by
  cases h with
  | clause _ _ _ hne => exact hne rfl
  | step _ h => exact h.ne_nil.2 rfl

theorem asymm (h : Encloses frames others) : ¬ Encloses others frames := by
  induction h with
  | clause => exact not_singleton
  | step frame h ih => exact fun hother => ih (hother.of_cons h.ne_nil.2)

end Encloses

/-- Whether the name at the end of the path `frames` is read before the one at the end
of `others`. -/
def ReadBefore (frames : List Frame) (name : TableName) (others : List Frame)
    (other : TableName) : Prop :=
  Encloses frames others ∨
    (¬ Encloses others frames ∧ name.first.start < other.first.start)

theorem ReadBefore.asymm {frames others : List Frame} {name other : TableName}
    (h : ReadBefore frames name others other) :
    ¬ ReadBefore others other frames name := by
  rintro (hencloses | ⟨hnot, hlt⟩)
  · rcases h with hfirst | ⟨hnot, -⟩
    · exact hfirst.asymm hencloses
    · exact hnot hencloses
  · rcases h with hfirst | ⟨-, hlt'⟩
    · exact hnot hfirst
    · omega

theorem ReadBefore.cons {frames others : List Frame} {name other : TableName}
    (h : ReadBefore frames name others other) (hothers : others ≠ [])
    (frame : Frame) : ReadBefore (frame :: frames) name (frame :: others) other := by
  rcases h with hencloses | ⟨hnot, hlt⟩
  · exact Or.inl (.step frame hencloses)
  · exact Or.inr ⟨fun hother => hnot (hother.of_cons hothers), hlt⟩

def Ascending (tokens : List Token) : Prop :=
  tokens.Pairwise fun token later => token.start < later.start

namespace Ascending

variable {tokens : List Token}

theorem of_isInfix_tokenize {text : String} (h : tokens <:+: Token.tokenize text) :
    Ascending tokens := by
  have hplaces :
      (Token.tokenize text).Pairwise fun token later => token.stop ≤ later.start :=
    Token.pairwise_place 0 0 (Token.lexemes text.toList)
  refine List.Pairwise.sublist h.sublist
    (hplaces.imp_of_mem fun {token later} htoken _ hle => ?_)
  have hlt := Token.start_lt_stop_of_mem_tokenize htoken
  omega

theorem nodup (h : Ascending tokens) : tokens.Nodup := by
  rw [List.Nodup]
  refine h.imp fun {token later} hlt heq => ?_
  rw [heq] at hlt
  exact Nat.lt_irrefl _ hlt

private theorem pairwise_of_flatMap {α : Type} {f : α → List Token} {l : List α}
    (h : (l.flatMap f).Sublist tokens) (hascending : Ascending tokens) :
    l.Pairwise fun x y => ∀ first ∈ f x, ∀ second ∈ f y, first.start < second.start :=
  (List.pairwise_flatMap.1 (List.Pairwise.sublist h hascending)).2

theorem eq_of_start_eq (h : Ascending tokens) {token other : Token}
    (htoken : token ∈ tokens) (hother : other ∈ tokens)
    (hstart : token.start = other.start) : token = other := by
  refine List.inj_on_of_nodup_map (f := fun token : Token => token.start) ?_ htoken
    hother hstart
  rw [List.Nodup, List.pairwise_map]
  exact h.imp Nat.ne_of_lt

end Ascending

namespace Statement

variable {statement : Statement} {clause : Clause Statement} {schema : String}

theorem Writes.eq_singleton {frames : List Frame} {name : TableName}
    (h : statement.Writes frames name)
    (hflat : ∀ clause ∈ statement.clauses, clause.nested.isEmpty = true) :
    ∃ frame, frames = [frame] := by
  cases h with
  | own => exact ⟨_, rfl⟩
  | nested hclause hinner =>
    rw [List.isEmpty_iff.1 (hflat _ hclause)] at hinner
    simp at hinner

theorem Writes.ne_nil {frames : List Frame} {name : TableName}
    (h : statement.Writes frames name) : frames ≠ [] := by
  cases h <;> exact List.cons_ne_nil _ _

def UsedBefore (statement : Statement) (schema : String) (use later : TableUse) :
    Prop :=
  ∃ frames name others other, statement.Writes frames name ∧ name.use schema = use ∧
    statement.Writes others other ∧ other.use schema = later ∧
    ReadBefore frames name others other

theorem UsedBefore.of_nested {inner : Statement} {index : Nat} {use later : TableUse}
    (hclause : clause ∈ statement.clauses)
    (hinner : clause.nested[index]? = some inner)
    (h : inner.UsedBefore schema use later) :
    statement.UsedBefore schema use later := by
  obtain ⟨frames, name, others, other, hwrites, huse, hother, hlater, hread⟩ := h
  exact ⟨_, name, _, other, .nested hclause hinner hwrites, huse,
    .nested hclause hinner hother, hlater,
    hread.cons hother.ne_nil ⟨statement, clause, index⟩⟩

theorem exists_writes_of_mem_ofBody {visible : List String} {use : TableUse}
    (hclause : clause ∈ statement.clauses) (hlists : clause.kind.listsTables = true)
    (h : use ∈ TableUse.ofBody schema visible clause.body) :
    ∃ name, statement.Writes [⟨statement, clause, 0⟩] name ∧ name.use schema = use ∧
      name.first ∈ clause.body := by
  obtain ⟨item, hitem, name, hname, -, huse⟩ := TableUse.mem_ofBody_iff.1 h
  have hpiece :=
    (Piece.mem_of_mem_commaItems hitem (TableName.single_first_mem hname)).1
  exact ⟨name, .own hclause hlists hitem hname, huse,
    Piece.mem_of_single_mem_ofTokens hpiece⟩

theorem exists_writes_of_mem_nested {visible : List String} {use : TableUse}
    {inner : Statement} {index : Nat} (hparsed : statement.IsParsed)
    (hclause : clause ∈ statement.clauses)
    (hinner : clause.nested[index]? = some inner)
    (h : use ∈ inner.tableUses schema visible) :
    ∃ frames name, frames ≠ [] ∧
      statement.Writes (⟨statement, clause, index⟩ :: frames) name ∧
      name.use schema = use ∧ name.first ∈ inner.tokens := by
  obtain ⟨frames, name, hwrites, huse, -, -⟩ := mem_tableUses_iff.1 h
  have hmem := (hparsed.of_mem_nested hclause (List.mem_of_getElem? hinner)).1
  exact ⟨frames, name, hwrites.ne_nil, .nested hclause hinner hwrites, huse,
    hwrites.first_mem hmem⟩

theorem exists_writes_of_mem_usesIn {visible : List String} {use : TableUse}
    (hparsed : statement.IsParsed) (hclause : clause ∈ statement.clauses)
    (h : use ∈ statement.usesIn schema visible clause) :
    ∃ index frames name,
      statement.Writes (⟨statement, clause, index⟩ :: frames) name ∧
      name.use schema = use ∧ name.first ∈ clause.body := by
  rcases exists_of_mem_usesIn h with ⟨hlists, hbody⟩ | ⟨index, inner, hinner, hnested⟩
  · obtain ⟨name, hwrites, huse, hmem⟩ :=
      exists_writes_of_mem_ofBody hclause hlists hbody
    exact ⟨0, [], name, hwrites, huse, hmem⟩
  · obtain ⟨frames, name, -, hwrites, huse, hmem⟩ :=
      exists_writes_of_mem_nested hparsed hclause hinner hnested
    exact ⟨index, frames, name, hwrites, huse,
      hparsed.mem_body_of_mem_nested hclause (List.mem_of_getElem? hinner) hmem⟩

section Ascending

variable (hparsed : statement.IsParsed) (hascending : Ascending statement.tokens)
  (hclause : clause ∈ statement.clauses)

include hparsed hascending hclause

private theorem ascending_body : Ascending clause.body :=
  List.Pairwise.sublist (hparsed.isInfix_body hclause).sublist hascending

private theorem pairwise_ofBody (hlists : clause.kind.listsTables = true)
    (visible : List String) :
    (TableUse.ofBody schema visible clause.body).Pairwise
      (statement.UsedBefore schema) := by
  have hsublist : ((Piece.commaItems (Piece.ofTokens clause.body)).flatMap fun item =>
      item.flatMap Piece.tokens).Sublist clause.body := by
    have hpieces := (flatten_splitOnP_sublist (Piece.isKind .comma)
      (Piece.significant (Piece.ofTokens clause.body))).trans List.filter_sublist
    have htokens := hpieces.flatMap Piece.tokens
    rw [Piece.flatMap_tokens_ofTokens, ← List.flatMap_id,
      List.flatMap_assoc] at htokens
    exact htokens
  have hitems :=
    Ascending.pairwise_of_flatMap hsublist (ascending_body hparsed hascending hclause)
  rw [TableUse.ofBody, List.pairwise_filterMap]
  refine hitems.imp_of_mem fun {item later} hitem hlater hlt use huse use' huse' => ?_
  have hwritten : ∀ {item : List Piece} {use : TableUse},
      item ∈ Piece.commaItems (Piece.ofTokens clause.body) →
      TableUse.ofItem? schema visible item = some use →
      ∃ name, statement.Writes [⟨statement, clause, 0⟩] name ∧ name.use schema = use ∧
        name.first ∈ item.flatMap Piece.tokens := by
    intro item use hitem huse
    rw [TableUse.ofItem?_eq, Option.map_eq_some_iff] at huse
    obtain ⟨name, hname, huse⟩ := huse
    have hname := (Option.filter_eq_some_iff.1 hname).1
    exact ⟨name, .own hclause hlists hitem hname, huse, List.mem_flatMap.2
      ⟨_, TableName.single_first_mem hname, List.mem_singleton_self _⟩⟩
  obtain ⟨name, hwrites, hname, hmem⟩ := hwritten hitem huse
  obtain ⟨other, hwrites', hname', hmem'⟩ := hwritten hlater huse'
  exact ⟨_, name, _, other, hwrites, hname, hwrites', hname',
    Or.inr ⟨Encloses.not_singleton, hlt _ hmem _ hmem'⟩⟩

private theorem pairwise_nested (known : Nat → List String)
    (h : ∀ inner ∈ clause.nested,
      ∀ visible, (inner.tableUses schema visible).Pairwise
        (inner.UsedBefore schema)) :
    (clause.nested.zipIdx.flatMap fun inner =>
      inner.1.tableUses schema (known inner.2)).Pairwise
      (statement.UsedBefore schema) := by
  have hindexed : (clause.nested.zipIdx.flatMap fun inner => inner.1.tokens) =
      clause.nested.flatMap tokens := by
    conv_rhs => rw [← List.zipIdx_map_fst 0 clause.nested, List.flatMap_map]
  have hsublist := hparsed.flatMap_nested_sublist hclause
  rw [← hindexed] at hsublist
  have hplaces :=
    Ascending.pairwise_of_flatMap hsublist (ascending_body hparsed hascending hclause)
  have hindices :
      clause.nested.zipIdx.Pairwise fun inner later => inner.2 < later.2 := by
    have hrange : (List.range' 0 clause.nested.length).Pairwise (· < ·) :=
      List.pairwise_lt_range' 1
    rw [← List.zipIdx_map_snd 0 clause.nested, List.pairwise_map] at hrange
    exact hrange
  rw [List.pairwise_flatMap]
  constructor
  · rintro ⟨inner, index⟩ hinner
    have hget := List.mem_zipIdx_iff_getElem?.1 hinner
    exact (h inner (List.mem_of_getElem? hget) _).imp fun hused =>
      hused.of_nested hclause hget
  · refine (hplaces.and hindices).imp_of_mem ?_
    rintro ⟨inner, index⟩ ⟨later, index'⟩ hinner hlater ⟨hlt, hindex⟩ use huse use'
      huse'
    obtain ⟨frames, name, hne, hwrites, hname, hmem⟩ := exists_writes_of_mem_nested
      hparsed hclause (List.mem_zipIdx_iff_getElem?.1 hinner) huse
    obtain ⟨others, other, hne', hwrites', hname', hmem'⟩ :=
      exists_writes_of_mem_nested hparsed hclause
        (List.mem_zipIdx_iff_getElem?.1 hlater) huse'
    refine ⟨_, name, _, other, hwrites, hname, hwrites', hname',
      Or.inr ⟨fun hencloses => ?_, ?_⟩⟩
    · have hsame := hencloses.index_eq hne'
      dsimp only at hsame hindex
      omega
    · exact hlt _ hmem _ hmem'

private theorem pairwise_usesIn (visible : List String)
    (h : ∀ inner ∈ clause.nested,
      ∀ visible, (inner.tableUses schema visible).Pairwise
        (inner.UsedBefore schema)) :
    (statement.usesIn schema visible clause).Pairwise
      (statement.UsedBefore schema) := by
  rw [usesIn]
  split
  · exact pairwise_nested hparsed hascending hclause
      (fun index => statement.namesBefore index ++ visible) h
  · have hnested : (clause.nested.flatMap fun inner =>
        inner.tableUses schema (statement.commonTables ++ visible)) =
          clause.nested.zipIdx.flatMap fun inner =>
            inner.1.tableUses schema (statement.commonTables ++ visible) := by
      conv_lhs => rw [← List.zipIdx_map_fst 0 clause.nested, List.flatMap_map]
    rw [List.pairwise_append]
    refine ⟨?_, ?_, fun use huse later hlater => ?_⟩
    · split
      · next hlists => exact pairwise_ofBody hparsed hascending hclause hlists _
      · exact List.Pairwise.nil
    · rw [hnested]
      exact pairwise_nested hparsed hascending hclause
        (fun _ => statement.commonTables ++ visible) h
    -- the list of the clause is read before all that is nested in the clause
    · split at huse
      · next hlists =>
        obtain ⟨name, hwrites, hname, -⟩ :=
          exists_writes_of_mem_ofBody hclause hlists huse
        obtain ⟨inner, hinner, hlater⟩ := List.mem_flatMap.1 hlater
        obtain ⟨index, hindex⟩ := List.getElem?_of_mem hinner
        obtain ⟨others, other, hne, hwrites', hother, -⟩ :=
          exists_writes_of_mem_nested hparsed hclause hindex hlater
        exact ⟨_, name, _, other, hwrites, hname, hwrites', hother,
          Or.inl (.clause statement clause index hne)⟩
      · exact absurd huse List.not_mem_nil

end Ascending

theorem pairwise_tableUses (hparsed : statement.IsParsed)
    (hascending : Ascending statement.tokens) (visible : List String) :
    (statement.tableUses schema visible).Pairwise (statement.UsedBefore schema) := by
  induction statement using induction_nested generalizing visible with
  | step statement ih =>
    have hclauses :
        (statement.clauses.flatMap Clause.body).Sublist statement.tokens :=
      (List.Sublist.flatMap_right statement.clauses fun clause _ =>
        List.sublist_append_right clause.head clause.body).trans
        hparsed.flatMap_tokens_sublist
    have hplaces := Ascending.pairwise_of_flatMap hclauses hascending
    rw [tableUses_eq, List.pairwise_flatMap]
    constructor
    · intro clause hclause
      refine pairwise_usesIn hparsed hascending hclause visible
        fun inner hinner visible => ?_
      obtain ⟨hinnerParsed, hstretch⟩ := hparsed.of_mem_nested hclause hinner
      exact ih clause hclause inner hinner hinnerParsed
        (List.Pairwise.sublist hstretch.sublist hascending) visible
    · refine hplaces.imp_of_mem
        fun {clause later} hclause hlater hlt use huse use' huse' => ?_
      obtain ⟨index, frames, name, hwrites, hname, hmem⟩ :=
        exists_writes_of_mem_usesIn hparsed hclause huse
      obtain ⟨index', others, other, hwrites', hname', hmem'⟩ :=
        exists_writes_of_mem_usesIn hparsed hlater huse'
      refine ⟨_, name, _, other, hwrites, hname, hwrites', hname',
        Or.inr ⟨fun hencloses => ?_, ?_⟩⟩
      · have hsame : later = clause := hencloses.clause_eq
        exact Nat.lt_irrefl _ (hlt _ hmem _ (hsame ▸ hmem))
      · exact hlt _ hmem _ hmem'

/-! ## Aliases -/

/-- A table that the lineage reports, with an alias behind its name. -/
structure GivesAlias (top : Statement) (aliasName : String) (frames : List Frame)
    (name : TableName) : Prop where
  writes : top.Writes frames name
  inTheOpen : name.InTheOpen frames
  alias?_eq : TableUse.alias? name.rest = some aliasName

theorem exists_givesAlias_iff {top : Statement} {aliasName : String}
    {use : TableUse} :
    (∃ frames name, top.GivesAlias aliasName frames name ∧ name.use schema = use) ↔
      use ∈ top.tableUses schema [] ∧ use.aliasName = some aliasName := by
  constructor
  · rintro ⟨frames, name, ⟨hwrites, hopen, halias⟩, rfl⟩
    exact ⟨hwrites.mem_tableUses schema (by simp [TableName.isHidden]) hopen, halias⟩
  · rintro ⟨huse, halias⟩
    obtain ⟨frames, name, hwrites, rfl, -, hopen⟩ := mem_tableUses_iff.1 huse
    exact ⟨frames, name, ⟨hwrites, hopen, halias⟩, rfl⟩

/-- Of the tables that are given an alias, the one that is read last. -/
structure IsLastNamed (top : Statement) (aliasName : String) (frames : List Frame)
    (name : TableName) : Prop where
  givesAlias : top.GivesAlias aliasName frames name
  readBefore : ∀ others other, top.GivesAlias aliasName others other →
    (others = frames ∧ other = name) ∨ ReadBefore others other frames name

theorem IsLastNamed.unique {top : Statement} {aliasName : String}
    {frames others : List Frame} {name other : TableName}
    (h : top.IsLastNamed aliasName frames name)
    (hother : top.IsLastNamed aliasName others other) :
    others = frames ∧ other = name := by
  rcases h.readBefore others other hother.givesAlias with hsame | hread
  · exact hsame
  · rcases hother.readBefore frames name h.givesAlias with ⟨rfl, rfl⟩ | hback
    · exact ⟨rfl, rfl⟩
    · exact absurd hback hread.asymm

theorem Writes.unique_of_start {frames others : List Frame} {name other : TableName}
    (hparsed : statement.IsParsed) (hascending : Ascending statement.tokens)
    (h : statement.Writes frames name) (hother : statement.Writes others other)
    (hstart : name.first.start = other.first.start) :
    frames = others ∧ name = other :=
  h.unique hparsed hascending.nodup hother (hascending.eq_of_start_eq
    (h.first_mem hparsed) (hother.first_mem hparsed) hstart)

theorem UsedBefore.readBefore (hparsed : statement.IsParsed)
    (hascending : Ascending statement.tokens) {frames others : List Frame}
    {name other : TableName} (hwrites : statement.Writes frames name)
    (hwrites' : statement.Writes others other)
    (h : statement.UsedBefore schema (name.use schema) (other.use schema)) :
    ReadBefore frames name others other := by
  obtain ⟨frames', name', others', other', hname, huse, hother, hlater, hread⟩ := h
  have hstart : name'.first.start = name.first.start :=
    congrArg (fun use : TableUse => use.mention.start) huse
  have hstart' : other'.first.start = other.first.start :=
    congrArg (fun use : TableUse => use.mention.start) hlater
  obtain ⟨rfl, rfl⟩ := hname.unique_of_start hparsed hascending hwrites hstart
  obtain ⟨rfl, rfl⟩ := hother.unique_of_start hparsed hascending hwrites' hstart'
  exact hread

/-- An alias of a statement stands for the table that is read last among those with
the alias. -/
theorem getElem?_aliases_iff {top : Statement} (hparsed : top.IsParsed)
    (hascending : Ascending top.tokens) {aliasName : String}
    {mention : TableMention} :
    (Aliases.ofUses (top.tableUses schema []))[aliasName]? = some mention ↔
      ∃ frames name, top.IsLastNamed aliasName frames name ∧
        name.mention schema = mention := by
  have hlast : ∀ {mention : TableMention},
      (Aliases.ofUses (top.tableUses schema []))[aliasName]? = some mention →
      ∃ frames name, top.IsLastNamed aliasName frames name ∧
        name.mention schema = mention := by
    intro mention h
    rw [Aliases.getElem?_ofUses, Aliases.lastNamed?, Option.map_eq_some_iff] at h
    obtain ⟨use, hfind, rfl⟩ := h
    obtain ⟨halias, after, before, hsplit, hafter⟩ :=
      List.find?_eq_some_iff_append.1 hfind
    have huses : top.tableUses schema [] =
        before.reverse ++ use :: after.reverse := by
      rw [← List.reverse_reverse (top.tableUses schema []), hsplit]
      simp
    have hpairs : (top.tableUses schema []).Pairwise (top.UsedBefore schema) :=
      pairwise_tableUses hparsed hascending []
    rw [huses, List.pairwise_append] at hpairs
    have hmem : use ∈ top.tableUses schema [] := by simp [huses]
    obtain ⟨frames, name, hgives, rfl⟩ :=
      exists_givesAlias_iff.2 ⟨hmem, by simpa using halias⟩
    refine ⟨frames, name, ⟨hgives, fun others other hother => ?_⟩, rfl⟩
    obtain ⟨hotherMem, hotherAlias⟩ :=
      exists_givesAlias_iff.1 ⟨others, other, hother, rfl (a := other.use schema)⟩
    rw [huses, List.mem_append, List.mem_cons] at hotherMem
    rcases hotherMem with hbefore | hsame | hlater
    · exact Or.inr ((hpairs.2.2 _ hbefore _ (List.mem_cons_self ..)).readBefore
        hparsed hascending hother.writes hgives.writes)
    · exact Or.inl (hother.writes.unique_of_start hparsed hascending hgives.writes
        (congrArg (fun use : TableUse => use.mention.start) hsame))
    · have hnot := hafter _ (List.mem_reverse.1 hlater)
      simp [hotherAlias] at hnot
  refine ⟨hlast, ?_⟩
  rintro ⟨frames, name, h, rfl⟩
  cases hfound : (Aliases.ofUses (top.tableUses schema []))[aliasName]? with
  | some found =>
    obtain ⟨others, other, hother, rfl⟩ := hlast hfound
    obtain ⟨-, rfl⟩ := h.unique hother
    rfl
  | none =>
    rw [Aliases.getElem?_ofUses, Aliases.lastNamed?, Option.map_eq_none_iff,
      List.find?_eq_none] at hfound
    obtain ⟨hmem, halias⟩ :=
      exists_givesAlias_iff.1 ⟨frames, name, h.givesAlias, rfl (a := name.use schema)⟩
    exact absurd (by simp [halias]) (hfound _ (List.mem_reverse.2 hmem))

end Statement

namespace Lineage

/-- An alias of a statement of a script stands for the table that is read last among
those with the alias. If no list of tables gives the alias in a clause around another
table with it, that is the table that is written last. -/
theorem exists_aliases_isLastNamed (schema : String) {text : String} {index : Nat}
    {top : Statement} (h : (Script.statements text)[index]? = some top) :
    ∃ mentions aliases,
      (ofStatements schema (Script.statements text)).mentions[index]? =
        some mentions ∧
      (ofStatements schema (Script.statements text)).aliases[index]? = some aliases ∧
      ∀ (aliasName : String) (mention : TableMention),
        (aliases[aliasName]? = some mention ↔
          ∃ frames name, top.IsLastNamed aliasName frames name ∧
            name.mention schema = mention) ∧
        (aliases[aliasName]? = some mention →
          (∀ frames name others other, top.GivesAlias aliasName frames name →
            top.GivesAlias aliasName others other → ¬ Encloses frames others) →
          mention ∈ mentions ∧
            ∀ frames name, top.GivesAlias aliasName frames name →
              name.mention schema ∈ mentions ∧
                (name.mention schema).start ≤ mention.start) := by
  have htop := List.mem_of_getElem? h
  have hparsed := Statement.isParsed_of_mem_statements htop
  have hascending :=
    Ascending.of_isInfix_tokenize (Script.isInfix_of_mem_statements htop)
  refine ⟨_, _, mentions_getElem? h, aliases_getElem? h, fun aliasName mention => ?_⟩
  refine ⟨Statement.getElem?_aliases_iff hparsed hascending, fun halias hapart => ?_⟩
  have hreported : ∀ frames name, top.GivesAlias aliasName frames name →
      name.mention schema ∈
        ((top.tableUses schema []).map TableUse.mention).mergeSort
          TableMention.precedes :=
    fun frames name hgives => List.mem_mergeSort.2
      ((hgives.writes.mention_mem_iff htop schema).2 hgives.inTheOpen)
  obtain ⟨frames, name, hlast, rfl⟩ :=
    (Statement.getElem?_aliases_iff hparsed hascending).1 halias
  refine ⟨hreported frames name hlast.givesAlias, fun others other hother => ?_⟩
  refine ⟨hreported others other hother, ?_⟩
  rcases hlast.readBefore others other hother with ⟨rfl, rfl⟩ | hencloses | ⟨-, hlt⟩
  · exact Nat.le_refl _
  · exact absurd hencloses (hapart others other frames name hother hlast.givesAlias)
  · exact Nat.le_of_lt hlt

def joinAliasScript : String := "select * from t a join u a on 1 = 1"

theorem exists_aliases_isLastNamed_joinAliasScript :
    ∃ top mentions aliases, (Script.statements joinAliasScript)[0]? = some top ∧
      (ofStatements "m" (Script.statements joinAliasScript)).mentions[0]? =
        some mentions ∧
      (ofStatements "m" (Script.statements joinAliasScript)).aliases[0]? =
        some aliases ∧
      aliases["a"]? = some ⟨"m", "u", 0, 23, 24⟩ ∧
      ∀ frames name, top.GivesAlias "a" frames name →
        name.mention "m" ∈ mentions ∧ (name.mention "m").start ≤ 23 := by
  have htop : (Script.statements joinAliasScript)[0]? =
      some (Statement.ofTokens (Token.tokenize joinAliasScript)) := by
    rw [Script.statements_eq_singleton (by decide +kernel)]
    rfl
  have hflat :
      ∀ clause ∈ (Statement.ofTokens (Token.tokenize joinAliasScript)).clauses,
        clause.nested.isEmpty = true := by
    decide +kernel
  have hnamed : Aliases.lastNamed?
      ((Statement.ofTokens (Token.tokenize joinAliasScript)).tableUses "m" []) "a" =
        some ⟨"m", "u", 0, 23, 24⟩ := by decide +kernel
  obtain ⟨mentions, aliases, hmentions, haliases, hall⟩ :=
    exists_aliases_isLastNamed "m" htop
  have hlookup : aliases["a"]? = some ⟨"m", "u", 0, 23, 24⟩ := by
    rw [aliases_getElem? htop, Option.some_inj] at haliases
    rw [← haliases, Aliases.getElem?_ofUses, hnamed]
  have hlast :=
    (hall "a" _).2 hlookup fun frames name others other _ hother hencloses => by
    obtain ⟨frame, rfl⟩ := hother.writes.eq_singleton hflat
    exact hencloses.not_singleton
  exact ⟨_, mentions, aliases, htop, hmentions, haliases, hlookup, hlast.2⟩

def nestedAliasScript : String := "select * from (select * from x a) t, y a"

/-- The alias stands for the nested table, which is read last, and not for the one
that is written last. -/
theorem exists_aliases_nestedAliasScript :
    ∃ top mentions aliases frames name,
      (Script.statements nestedAliasScript)[0]? = some top ∧
      (ofStatements "default" (Script.statements nestedAliasScript)).mentions[0]? =
        some mentions ∧
      (ofStatements "default" (Script.statements nestedAliasScript)).aliases[0]? =
        some aliases ∧
      aliases["a"]? = some ⟨"default", "x", 0, 29, 30⟩ ∧
      top.GivesAlias "a" frames name ∧
      name.mention "default" = ⟨"default", "y", 0, 37, 38⟩ ∧
      name.mention "default" ∈ mentions := by
  have htop : (Script.statements nestedAliasScript)[0]? =
      some (Statement.ofTokens (Token.tokenize nestedAliasScript)) := by
    rw [Script.statements_eq_singleton (by decide +kernel)]
    rfl
  have hnamed : Aliases.lastNamed? ((Statement.ofTokens
        (Token.tokenize nestedAliasScript)).tableUses "default" []) "a" =
      some ⟨"default", "x", 0, 29, 30⟩ := by
    decide +kernel
  have huse : ⟨⟨"default", "y", 0, 37, 38⟩, some "a"⟩ ∈ (Statement.ofTokens
        (Token.tokenize nestedAliasScript)).tableUses "default" [] := by
    decide +kernel
  obtain ⟨frames, name, hgives, hname⟩ :=
    Statement.exists_givesAlias_iff.2 ⟨huse, rfl⟩
  have hmention : name.mention "default" = ⟨"default", "y", 0, 37, 38⟩ :=
    congrArg TableUse.mention hname
  refine ⟨_, _, _, frames, name, htop, mentions_getElem? htop, aliases_getElem? htop,
    ?_, hgives, hmention, ?_⟩
  · rw [Aliases.getElem?_ofUses, hnamed]
  · rw [hmention]
    exact List.mem_mergeSort.2 (List.mem_map_of_mem huse)

end Lineage

end SqlOutline
