import Mathlib.Data.List.Perm.Basic
import SqlOutline.Proofs.Lineage.Exclusion
import SqlOutline.Proofs.Lineage.Mention
import SqlOutline.Proofs.Lineage.Spread

/-!
# Where tables are mentioned

The names of a statement share no token, so its mentions are apart from one another in
the text, and sorting puts them one after another. Each lies within its statement,
from the start of an identifier to the end of an identifier or a keyword
(`exists_locates`).
-/

namespace SqlOutline

/-! ## Places in the text -/

private theorem mem_of_append_eq_append {α : Type}
    {stretch after before other later : List α} {first : α}
    (h : stretch ++ after = before ++ (other ++ later))
    (hdisjoint : stretch.Disjoint other) (hfirst : other.head? = some first) :
    first ∈ after := by
  obtain ⟨rest, rfl⟩ := List.head?_eq_some_iff.1 hfirst
  rcases List.append_eq_append_iff.1 h with ⟨gap, -, rfl⟩ | ⟨common, rfl, hcommon⟩
  · simp
  · cases common with
    | nil =>
      rw [List.nil_append] at hcommon
      simp [← hcommon]
    | cons shared common =>
      obtain ⟨rfl, -⟩ := List.cons.inj hcommon
      exact absurd (List.mem_cons_self ..) (hdisjoint (by simp))

namespace Token

private theorem stop_le_start_of_disjoint {text : String} {stretch other : List Token}
    (hstretch : stretch <:+: tokenize text) (hother : other <:+: tokenize text)
    (hdisjoint : stretch.Disjoint other) {first last first' last' : Token}
    (hfirst : stretch.head? = some first) (hlast : stretch.getLast? = some last)
    (hfirst' : other.head? = some first') (hlast' : other.getLast? = some last') :
    last.stop ≤ first'.start ∨ last'.stop ≤ first.start := by
  have hplaces :
      (tokenize text).Pairwise fun token later => token.stop ≤ later.start :=
    pairwise_place 0 0 (lexemes text.toList)
  obtain ⟨before, after, hsplit⟩ := hstretch
  obtain ⟨before', after', hsplit'⟩ := hother
  have hwhole := hplaces
  rw [← hsplit, List.pairwise_append] at hplaces
  rw [← hsplit', List.pairwise_append] at hwhole
  have hsame : before ++ (stretch ++ after) = before' ++ (other ++ after') := by
    rw [← List.append_assoc, ← List.append_assoc, hsplit, hsplit']
  rcases List.append_eq_append_iff.1 hsame with ⟨gap, -, hgap⟩ | ⟨gap, -, hgap⟩
  · have hmem := mem_of_append_eq_append hgap hdisjoint hfirst'
    exact Or.inl
      (hplaces.2.2 last (List.mem_append_right _ (List.mem_of_getLast? hlast)) _ hmem)
  · have hmem := mem_of_append_eq_append hgap (fun _ h h' => hdisjoint h' h) hfirst
    exact Or.inr (hwhole.2.2 last'
      (List.mem_append_right _ (List.mem_of_getLast? hlast')) _ hmem)

theorem bounds_of_mem {text : String} {stretch : List Token}
    {first last token : Token} (hstretch : stretch <:+: tokenize text)
    (hfirst : stretch.head? = some first) (hlast : stretch.getLast? = some last)
    (htoken : token ∈ stretch) :
    first.start ≤ token.start ∧ token.stop ≤ last.stop := by
  have hplaces : stretch.Pairwise fun token later => token.stop ≤ later.start :=
    (pairwise_place 0 0 (lexemes text.toList)).sublist hstretch.sublist
  have hlength : ∀ other ∈ stretch, other.start < other.stop := fun other hother =>
    start_lt_stop_of_mem_tokenize (hstretch.mem hother)
  constructor
  · obtain ⟨later, rfl⟩ := List.head?_eq_some_iff.1 hfirst
    rcases List.mem_cons.1 htoken with rfl | hmem
    · exact Nat.le_refl _
    · have hle := (List.pairwise_cons.1 hplaces).1 token hmem
      have hlt := hlength first (List.mem_cons_self ..)
      omega
  · obtain ⟨init, rfl⟩ := List.getLast?_eq_some_iff.1 hlast
    rcases List.mem_append.1 htoken with hmem | hmem
    · have hle := (List.pairwise_append.1 hplaces).2.2 token hmem last
        (List.mem_singleton_self _)
      have hlt := hlength last (List.mem_append_right _ (List.mem_singleton_self _))
      omega
    · rw [List.mem_singleton.1 hmem]

end Token

/-! ## The place of a mention -/

/-- A mention reaches from the start of an identifier among the tokens to the end of
an identifier or a keyword, and counts the line breaks before it. -/
structure TableMention.LiesIn (text : String) (tokens : List Token)
    (mention : TableMention) : Prop where
  first : ∃ token ∈ tokens, token.isIdentifier = true ∧ token.start = mention.start
  last : ∃ token ∈ tokens, token.isNamePart = true ∧ token.stop = mention.stop
  start_lt_stop : mention.start < mention.stop
  line_eq : mention.line = (text.toList.take mention.start).count '\n'

namespace TableUse.NamedBy

variable {text : String} {use other : TableUse} {stretch stretch' tokens : List Token}

theorem liesIn (h : use.NamedBy stretch) (hstretch : stretch <:+: tokens)
    (htokens : tokens <:+: Token.tokenize text) : use.mention.LiesIn text tokens := by
  obtain ⟨first, hfirst, hidentifier, hline, hstart⟩ := h.first
  obtain ⟨last, hlast, hpart, hstop⟩ := h.last
  have hmem := hstretch.mem (List.mem_of_mem_head? hfirst)
  have hbounds := Token.bounds_of_mem (hstretch.trans htokens) hfirst hlast
    (List.mem_of_mem_head? hfirst)
  have hlt := Token.start_lt_stop_of_mem_tokenize (htokens.mem hmem)
  refine ⟨⟨first, hmem, hidentifier, hstart.symm⟩,
    ⟨last, hstretch.mem (List.mem_of_getLast? hlast), hpart, hstop.symm⟩, by omega,
    ?_⟩
  rw [hline, hstart]
  exact Token.line_of_mem_tokenize (htokens.mem hmem)

theorem stop_le_start (h : use.NamedBy stretch) (h' : other.NamedBy stretch')
    (hstretch : stretch <:+: Token.tokenize text)
    (hstretch' : stretch' <:+: Token.tokenize text)
    (hdisjoint : stretch.Disjoint stretch') :
    use.mention.stop ≤ other.mention.start ∨
      other.mention.stop ≤ use.mention.start := by
  obtain ⟨first, hfirst, -, -, hstart⟩ := h.first
  obtain ⟨last, hlast, -, hstop⟩ := h.last
  obtain ⟨first', hfirst', -, -, hstart'⟩ := h'.first
  obtain ⟨last', hlast', -, hstop'⟩ := h'.last
  rw [hstop, hstart', hstop', hstart]
  exact Token.stop_le_start_of_disjoint hstretch hstretch' hdisjoint hfirst hlast
    hfirst' hlast'

end TableUse.NamedBy

/-! ## Sorted mentions -/

namespace TableMention

def Apart (mention other : TableMention) : Prop :=
  mention.stop ≤ other.start ∨ other.stop ≤ mention.start

theorem Apart.symm {mention other : TableMention} (h : mention.Apart other) :
    other.Apart mention :=
  Or.symm h

theorem precedes_trans {first second third : TableMention}
    (h : first.precedes second = true) (h' : second.precedes third = true) :
    first.precedes third = true := by
  simp only [precedes, Bool.or_eq_true, Bool.and_eq_true, decide_eq_true_eq,
    beq_iff_eq] at *
  omega

theorem precedes_total (first second : TableMention) :
    (first.precedes second || second.precedes first) = true := by
  simp only [precedes, Bool.or_eq_true, Bool.and_eq_true, decide_eq_true_eq,
    beq_iff_eq]
  omega

private theorem start_le_of_precedes {text : String} {mention other : TableMention}
    (hline : mention.line = (text.toList.take mention.start).count '\n')
    (hline' : other.line = (text.toList.take other.start).count '\n')
    (h : mention.precedes other = true) : mention.start ≤ other.start := by
  by_contra hlt
  have hle : other.line ≤ mention.line := by
    rw [hline, hline']
    exact (List.take_prefix_take_left (Nat.le_of_not_le hlt)).sublist.count_le _
  simp only [precedes, Bool.or_eq_true, Bool.and_eq_true, decide_eq_true_eq,
    beq_iff_eq] at h
  omega

private theorem pairwise_mergeSort_precedes {text : String} {tokens : List Token}
    {mentions : List TableMention}
    (hlies : ∀ mention ∈ mentions, mention.LiesIn text tokens)
    (hapart : mentions.Pairwise Apart) :
    (mentions.mergeSort precedes).Pairwise fun mention later =>
      mention.stop ≤ later.start := by
  have hsorted : (mentions.mergeSort precedes).Pairwise fun mention later =>
      mention.precedes later = true := by
    apply List.pairwise_mergeSort
    · exact fun _ _ _ => precedes_trans
    · exact precedes_total
  have hpairs := (List.mergeSort_perm mentions precedes).symm.pairwise hapart
    fun {_ _} => Apart.symm
  refine (hsorted.and hpairs).imp_of_mem fun {mention later} hmem hlater h => ?_
  rw [List.mem_mergeSort] at hmem hlater
  have hle :=
    start_le_of_precedes (hlies mention hmem).line_eq (hlies later hlater).line_eq h.1
  rcases h.2 with hfirst | hsecond
  · exact hfirst
  · have hlt := (hlies later hlater).start_lt_stop
    omega

end TableMention

/-! ## The mentions of a statement -/

/-- What the mentions and the aliases of a statement say about places in the text. -/
structure Lineage.Locates (text : String) (top : Statement)
    (mentions : List TableMention) (aliases : Aliases) : Prop where
  ascending : mentions.Pairwise fun mention later => mention.start < later.start
  disjoint : mentions.Pairwise fun mention later => mention.stop ≤ later.start
  within : ∃ start stop, top.span? = some (start, stop) ∧
    ∀ mention ∈ mentions, start ≤ mention.start ∧ mention.stop ≤ stop
  liesIn : ∀ mention ∈ mentions, mention.LiesIn text top.tokens
  alias_mem : ∀ (name : String) (mention : TableMention),
    aliases[name]? = some mention → mention ∈ mentions

theorem Aliases.exists_of_getElem?_ofUses {uses : List TableUse} {name : String}
    {mention : TableMention} (h : (ofUses uses)[name]? = some mention) :
    mention ∈ uses.map TableUse.mention := by
  rw [getElem?_ofUses, lastNamed?, Option.map_eq_some_iff] at h
  obtain ⟨use, huse, rfl⟩ := h
  exact List.mem_map_of_mem (List.mem_reverse.1 (List.mem_of_find?_eq_some huse))

namespace Statement

theorem exists_span?_of_mem_statements {text : String} {top : Statement}
    (htop : top ∈ Script.statements text) :
    ∃ start stop, top.span? = some (start, stop) ∧
      ∀ token ∈ top.tokens, start ≤ token.start ∧ token.stop ≤ stop := by
  have hne : top.tokens ≠ [] := by
    intro hnil
    have hsignificant := Script.significant_ne_nil_of_mem_parts
      (Script.tokens_mem_parts_of_mem_statements htop)
    rw [hnil] at hsignificant
    exact hsignificant rfl
  have hfirst := List.head?_eq_some_head hne
  have hlast := List.getLast?_eq_some_getLast hne
  refine ⟨(top.tokens.head hne).start, (top.tokens.getLast hne).stop, ?_,
    fun token htoken => ?_⟩
  · rw [span?, hfirst, hlast]
    rfl
  · exact Token.bounds_of_mem (Script.isInfix_of_mem_statements htop) hfirst hlast
      htoken

theorem locates_of_mem_statements {text : String} {top : Statement}
    (htop : top ∈ Script.statements text) (schema : String) :
    Lineage.Locates text top
      (((top.tableUses schema []).map TableUse.mention).mergeSort
        TableMention.precedes) (Aliases.ofUses (top.tableUses schema [])) := by
  have hplace := Script.isInfix_of_mem_statements htop
  obtain ⟨named, huses, hnamed, hnodup, -⟩ :=
    spread_tableUses schema (isParsed_of_mem_statements htop)
      (hplace.sublist.nodup (Token.nodup_tokenize text)) []
  have hlies : ∀ mention ∈ (top.tableUses schema []).map TableUse.mention,
      mention.LiesIn text top.tokens := by
    intro mention hmention
    rw [← huses, List.map_map] at hmention
    obtain ⟨name, hname, rfl⟩ := List.mem_map.1 hmention
    exact (hnamed name hname).1.liesIn (hnamed name hname).2 hplace
  have hapart : ((top.tableUses schema []).map TableUse.mention).Pairwise
      TableMention.Apart := by
    rw [← huses, List.map_map, List.pairwise_map]
    refine (List.nodup_flatMap.1 hnodup).2.imp_of_mem
      fun {name other} hname hother hdisjoint => ?_
    exact (hnamed name hname).1.stop_le_start (hnamed other hother).1
      ((hnamed name hname).2.trans hplace) ((hnamed other hother).2.trans hplace)
      hdisjoint
  have hsorted := TableMention.pairwise_mergeSort_precedes hlies hapart
  refine {
    ascending := hsorted.imp_of_mem fun {mention later} hmention _ hle => ?_
    disjoint := hsorted
    within := ?_
    liesIn := fun mention hmention => hlies mention (List.mem_mergeSort.1 hmention)
    alias_mem := fun name mention halias =>
      List.mem_mergeSort.2 (Aliases.exists_of_getElem?_ofUses halias) }
  · have hlt := (hlies mention (List.mem_mergeSort.1 hmention)).start_lt_stop
    omega
  · obtain ⟨start, stop, hspan, hbounds⟩ := exists_span?_of_mem_statements htop
    refine ⟨start, stop, hspan, fun mention hmention => ?_⟩
    obtain ⟨⟨first, hfirst, -, hstart⟩, ⟨last, hlast, -, hstop⟩, -, -⟩ :=
      hlies mention (List.mem_mergeSort.1 hmention)
    rw [← hstart, ← hstop]
    exact ⟨(hbounds first hfirst).1, (hbounds last hlast).2⟩

end Statement

namespace Lineage

theorem aliases_getElem? {schema : String} {statements : List Statement} {index : Nat}
    {top : Statement} (h : statements[index]? = some top) :
    (ofStatements schema statements).aliases[index]? =
      some (Aliases.ofUses (top.tableUses schema [])) := by
  simp [ofStatements, h]

theorem exists_mem_of_resolve? {schema : String} {statements : List Statement}
    {index : Nat} {name : String} {mention : TableMention}
    (h : (ofStatements schema statements).resolve? index name = some mention) :
    ∃ mentions, (ofStatements schema statements).mentions[index]? = some mentions ∧
      mention ∈ mentions := by
  cases htop : statements[index]? with
  | none => simp [resolve?, ofStatements, htop] at h
  | some top =>
    refine ⟨_, mentions_getElem? htop, ?_⟩
    rw [resolve?, mentions_getElem? htop, aliases_getElem? htop,
      Option.or_eq_some_iff] at h
    rcases h with halias | ⟨-, hname⟩
    · exact List.mem_mergeSort.2 (Aliases.exists_of_getElem?_ofUses halias)
    · exact List.mem_of_find?_eq_some hname

/-- The lineage of a script has one list of mentions and one map of aliases for each
statement. Both speak of places within the statement, one after another, and every
name stands for a table listed there. -/
theorem exists_locates (schema text : String) :
    (ofStatements schema (Script.statements text)).mentions.length =
        (Script.statements text).length ∧
      (ofStatements schema (Script.statements text)).aliases.length =
        (Script.statements text).length ∧
      (∀ (index : Nat) (top : Statement),
        (Script.statements text)[index]? = some top →
        ∃ mentions aliases,
          (ofStatements schema (Script.statements text)).mentions[index]? =
            some mentions ∧
          (ofStatements schema (Script.statements text)).aliases[index]? =
            some aliases ∧
          Locates text top mentions aliases) ∧
      ∀ (index : Nat) (name : String) (mention : TableMention),
        (ofStatements schema (Script.statements text)).resolve? index name =
          some mention →
        ∃ mentions,
          (ofStatements schema (Script.statements text)).mentions[index]? =
            some mentions ∧
          mention ∈ mentions := by
  refine ⟨by simp [ofStatements], by simp [ofStatements], fun index top h => ?_,
    fun index name mention => exists_mem_of_resolve?⟩
  exact ⟨_, _, mentions_getElem? h, aliases_getElem? h,
    Statement.locates_of_mem_statements (List.mem_of_getElem? h) schema⟩

def nestedTablesScript : String :=
  "select 1; select * from s /*c*/. t a,\n(select * from u b, lateral v"

theorem exists_locates_nestedTablesScript :
    ∃ top mentions aliases, (Script.statements nestedTablesScript)[1]? = some top ∧
      (top.tableUses "m" []).map (fun use => (use.mention.start, use.mention.stop)) =
        [(24, 34), (53, 54), (66, 67)] ∧
      (ofStatements "m" (Script.statements nestedTablesScript)).mentions[1]? =
        some mentions ∧
      (ofStatements "m" (Script.statements nestedTablesScript)).aliases[1]? =
        some aliases ∧
      Locates nestedTablesScript top mentions aliases := by
  obtain ⟨-, -, hlocates, -⟩ := exists_locates "m" nestedTablesScript
  have hplaces : (Script.statements nestedTablesScript)[1]?.map (fun top =>
      (top.tableUses "m" []).map fun use => (use.mention.start, use.mention.stop)) =
        some [(24, 34), (53, 54), (66, 67)] := by decide +kernel
  obtain ⟨top, htop, hplaces⟩ := Option.map_eq_some_iff.1 hplaces
  obtain ⟨mentions, aliases, hmentions, haliases, h⟩ := hlocates 1 top htop
  exact ⟨top, mentions, aliases, htop, hplaces, hmentions, haliases, h⟩

end Lineage

end SqlOutline
