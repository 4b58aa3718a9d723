import SqlOutline.Proofs.LineTable.Conversion
import SqlOutline.Proofs.Lineage.Location

/-!
# The lines of tokens and of mentions

Line tables, tokens and mentions of tables count lines apart from one another. All of
them count the line breaks of the text, so they agree on the line at every offset
(`lines_agree`).
-/

namespace SqlOutline

namespace LineTable

private theorem boundaries_eq_filter (text : String) :
    (ofText text).boundaries =
      0 ::
        (((List.range text.length).filter fun index =>
            text.toList[index]? == some '\n').map (· + 1) ++ [text.length + 1]) := by
  rw [boundaries_ofText, startsAfterBreaks_eq_map_filter, String.length_toList]
  simp only [Nat.zero_add]

theorem exists_positionOf_line {text : String} {offset line : Nat}
    (hoffset : offset ≤ text.length)
    (hline : line = (text.toList.take offset).count '\n') :
    ∃ position, (ofText text).positionOf offset = .ok position ∧
      position.line = line := by
  obtain ⟨column, hplaced⟩ := exists_placedAt hoffset
  exact ⟨_, hplaced.positionOf_eq (isAscending_ofText text), hline.symm⟩

end LineTable

private theorem Token.start_le_length {text : String} {token : Token}
    (h : token ∈ tokenize text) : token.start ≤ text.length := by
  obtain ⟨before, after, hsplit⟩ := List.append_of_mem h
  obtain ⟨-, hstart, -⟩ := place_of_tokenize_eq hsplit
  rw [hstart, text_eq_of_tokenize_eq hsplit, String.length_append]
  exact Nat.le_add_right _ _

/-- The mentions of tables that a script reports, those behind aliases taken in. -/
def Lineage.Reports (lineage : Lineage) (mention : TableMention) : Prop :=
  (∃ mentions ∈ lineage.mentions, mention ∈ mentions) ∨
    ∃ aliases ∈ lineage.aliases, ∃ name : String, aliases[name]? = some mention

theorem Lineage.Reports.exists_use {schema : String} {statements : List Statement}
    {mention : TableMention}
    (h : (Lineage.ofStatements schema statements).Reports mention) :
    ∃ statement ∈ statements,
      mention ∈ (statement.tableUses schema []).map TableUse.mention := by
  simp only [Lineage.Reports, Lineage.ofStatements, List.map_map] at h
  rcases h with ⟨mentions, hmentions, hmention⟩ | ⟨aliases, haliases, name, hname⟩
  · obtain ⟨statement, hstatement, rfl⟩ := List.mem_map.1 hmentions
    exact ⟨statement, hstatement, List.mem_mergeSort.1 hmention⟩
  · obtain ⟨statement, hstatement, rfl⟩ := List.mem_map.1 haliases
    exact ⟨statement, hstatement, Aliases.exists_of_getElem?_ofUses hname⟩

theorem Lineage.Reports.exists_beginsAt {schema text : String}
    {mention : TableMention}
    (h : (Lineage.ofStatements schema (Script.statements text)).Reports mention) :
    ∃ token ∈ Token.tokenize text, mention.BeginsAt token := by
  obtain ⟨statement, hstatement, hmention⟩ := h.exists_use
  obtain ⟨use, huse, rfl⟩ := List.mem_map.1 hmention
  have hinfix := Script.isInfix_of_mem_statements hstatement
  obtain ⟨part, -, rfl⟩ := List.mem_map.1 hstatement
  rw [Statement.ofTokens, Statement.tokens_ofPassage] at hinfix
  obtain ⟨token, htoken, hbegins⟩ := Statement.exists_beginsAt_of_mem_tableUses huse
  exact ⟨token, hinfix.mem (mem_significant.1 htoken).1, hbegins⟩

/-- The line table of a text has a boundary past each line break, and finds each token
and each mention on the line that they say themselves. -/
theorem lines_agree (text : String) :
    (LineTable.ofText text).boundaries =
        0 ::
          (((List.range text.length).filter fun index =>
              text.toList[index]? == some '\n').map (· + 1) ++ [text.length + 1]) ∧
      (∀ token ∈ Token.tokenize text,
        ∃ position, (LineTable.ofText text).positionOf token.start = .ok position ∧
          position.line = token.line) ∧
      ∀ schema mention,
        (Lineage.ofStatements schema (Script.statements text)).Reports mention →
        ∃ position, (LineTable.ofText text).positionOf mention.start = .ok position ∧
          position.line = mention.line := by
  have htokens : ∀ token ∈ Token.tokenize text,
      ∃ position, (LineTable.ofText text).positionOf token.start = .ok position ∧
        position.line = token.line :=
    fun token htoken => LineTable.exists_positionOf_line
      (Token.start_le_length htoken) (Token.line_of_mem_tokenize htoken)
  refine ⟨LineTable.boundaries_eq_filter text, htokens,
    fun schema mention hreports => ?_⟩
  obtain ⟨token, htoken, hline, hstart⟩ := hreports.exists_beginsAt
  rw [hline, hstart]
  exact htokens token htoken

end SqlOutline
