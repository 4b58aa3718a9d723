import SqlOutline.Proofs.Layout.Analysis

/-!
# Moved texts

Text before another text moves all tokens of that further on. The statements move
along: the plain texts and the row bounds are the same, and every table is mentioned
as many lines and characters later. The aliases stand for the moved mentions.
-/

namespace SqlOutline

def Token.moved (lines offset : Nat) (token : Token) : Token :=
  ⟨token.toLexeme, token.line + lines, token.start + offset, token.stop + offset⟩

def TableMention.moved (lines offset : Nat) (mention : TableMention) : TableMention :=
  ⟨mention.schema, mention.name, mention.line + lines, mention.start + offset,
    mention.stop + offset⟩

theorem Token.place_moved (lines offset line start : Nat) (ls : List Lexeme) :
    place (line + lines) (start + offset) ls =
      (place line start ls).map (moved lines offset) := by
  induction ls generalizing line start with
  | nil => rfl
  | cons lexeme ls ih =>
    rw [place, place, List.map_cons, ← ih]
    simp only [moved, Nat.add_right_comm _ _ lines, Nat.add_right_comm _ _ offset]

/-- Lexemes that two texts end in are placed alike but for what the longer text has
before the shorter one. -/
theorem Token.exists_place_moved {early late : List Char}
    {before before' kept : List Lexeme}
    (hlong : lexemes (early ++ late) = before ++ kept)
    (hshort : lexemes late = before' ++ kept) :
    ∃ tokens, place 0 0 (before' ++ kept) = place 0 0 before' ++ tokens ∧
      place 0 0 (before ++ kept) =
        place 0 0 before ++ tokens.map (moved (early.count '\n') early.length) := by
  have hlongChars := flatMap_toList_lexemes (early ++ late)
  rw [hlong, List.flatMap_append, ← flatMap_toList_lexemes late, hshort,
    List.flatMap_append, ← List.append_assoc] at hlongChars
  have hbefore := List.append_cancel_right hlongChars
  refine ⟨_, place_append 0 0 before' kept, ?_⟩
  rw [place_append, hbefore, ← place_moved, List.count_append, List.length_append,
    Nat.zero_add, Nat.zero_add, Nat.zero_add, Nat.zero_add,
    Nat.add_comm (early.count _), Nat.add_comm early.length]

/-! ## Mentions and aliases -/

namespace Statement

def mentions (schema : String) (statement : Statement) : List TableMention :=
  ((statement.tableUses schema []).map TableUse.mention).mergeSort
    TableMention.precedes

def aliases (schema : String) (statement : Statement) : Aliases :=
  Aliases.ofUses (statement.tableUses schema [])

end Statement

theorem Lineage.mentions_ofStatements (schema : String)
    (statements : List Statement) :
    (ofStatements schema statements).mentions =
      statements.map (Statement.mentions schema) := by
  rw [ofStatements, List.map_map]
  rfl

theorem Lineage.aliases_ofStatements (schema : String) (statements : List Statement) :
    (ofStatements schema statements).aliases =
      statements.map (Statement.aliases schema) := by
  simp only [ofStatements, List.map_map]
  rfl

namespace Relayout

variable (ρ : Relayout) [ρ.Verbatim]

theorem mentions_statement
    (h : ∀ first second, (ρ.mention first).precedes (ρ.mention second) =
      first.precedes second) (schema : String) (statement : Statement) :
    (ρ.statement statement).mentions schema =
      (statement.mentions schema).map ρ.mention := by
  have huses : ((statement.tableUses schema []).map ρ.use).map TableUse.mention =
      ((statement.tableUses schema []).map TableUse.mention).map ρ.mention := by
    rw [List.map_map, List.map_map]
    rfl
  rw [Statement.mentions, Statement.mentions, tableUses_statement, huses,
    List.map_mergeSort fun first _ second _ => (h first second).symm]

theorem aliases_statement (schema : String) (statement : Statement) :
    ((ρ.statement statement).aliases schema).toList =
      (statement.aliases schema).toList.map fun entry =>
        (entry.1, ρ.mention entry.2) := by
  have hequiv : ((ρ.statement statement).aliases schema).Equiv
      ((statement.aliases schema).map fun _ mention => ρ.mention mention) := by
    apply Std.TreeMap.Equiv.of_forall_constGet?_eq
    intro name
    rw [Std.TreeMap.getElem?_map, Statement.aliases, Statement.aliases,
      Aliases.getElem?_ofUses, Aliases.getElem?_ofUses, tableUses_statement,
      Aliases.lastNamed?, Aliases.lastNamed?, ← List.map_reverse, List.find?_map,
      Option.map_map, Option.map_map]
    rfl
  rw [hequiv.toList_eq, Std.TreeMap.toList_map]

/-! ## Plain texts -/

section PlainText

variable (hkeeps : ∀ token, ρ.keeps token = true)

include hkeeps

theorem withoutComments_tokens (last : Option Char) (skipped : Bool)
    (tokens : List Token) :
    withoutComments last skipped (ρ.tokens tokens) =
      withoutComments last skipped tokens := by
  induction tokens generalizing last skipped with
  | nil => rfl
  | cons token tokens ih =>
    rw [ρ.tokens_cons_of_keeps tokens (hkeeps token)]
    simp only [withoutComments, toLexeme_token, ih]

theorem plainText_statement (statement : Statement) :
    (ρ.statement statement).plainText = statement.plainText := by
  rw [Statement.plainText, statement_eq, ρ.withoutComments_tokens hkeeps,
    Statement.plainText]

end PlainText

/-! ## The layout of a moved text -/

def moved (lines offset : Nat) : Relayout where
  keeps _ := true
  line := (· + lines)
  start := (· + offset)
  stop := (· + offset)
  keeps_of_isTrivia _ _ := rfl

variable (lines offset : Nat)

instance : (moved lines offset).Verbatim := ⟨fun _ => rfl⟩

theorem tokens_moved (tokens : List Token) :
    (moved lines offset).tokens tokens = tokens.map (Token.moved lines offset) := by
  have hall : tokens.filter (moved lines offset).keeps = tokens :=
    List.filter_eq_self.2 fun _ _ => rfl
  rw [Relayout.tokens, hall]
  rfl

theorem mentions_statement_moved (schema : String) (statement : Statement) :
    ((moved lines offset).statement statement).mentions schema =
      (statement.mentions schema).map (TableMention.moved lines offset) := by
  apply mentions_statement
  intro first second
  rw [Bool.eq_iff_iff]
  simp [TableMention.precedes, mention, moved]

theorem plainText_statement_moved (statement : Statement) :
    ((moved lines offset).statement statement).plainText = statement.plainText :=
  plainText_statement _ (fun _ => rfl) statement

/-! ## The layout of the significant tokens -/

def stripped : Relayout where
  keeps token := !token.isTrivia
  line := id
  start := id
  stop := id
  keeps_of_isTrivia := Token.not_isTrivia_eq_true

instance : stripped.Verbatim := ⟨fun _ => rfl⟩

theorem tokens_stripped (tokens : List Token) :
    stripped.tokens tokens = significant tokens :=
  List.map_id _

theorem tokens_stripped_of_isTrivia {tokens : List Token}
    (h : ∀ token ∈ tokens, token.isTrivia = true) : stripped.tokens tokens = [] := by
  rw [Relayout.tokens, List.map_eq_nil_iff, List.filter_eq_nil_iff]
  intro token htoken
  simp [stripped, h token htoken]

theorem statement_stripped_ofTokens (tokens : List Token) :
    stripped.statement (Statement.ofTokens tokens) =
      Statement.ofTokens (significant tokens) := by
  rw [← tokens_stripped]
  exact (stripped.ofPassage_passage Statement.nestingLimit ⟨false, tokens⟩).symm

theorem mentions_statement_stripped (schema : String) (statement : Statement) :
    (stripped.statement statement).mentions schema = statement.mentions schema := by
  rw [mentions_statement stripped fun _ _ => rfl]
  exact List.map_id _

theorem aliases_statement_stripped (schema : String) (statement : Statement) :
    ((stripped.statement statement).aliases schema).toList =
      (statement.aliases schema).toList := by
  rw [aliases_statement]
  exact List.map_id _

end Relayout

end SqlOutline
