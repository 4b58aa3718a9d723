import SqlOutline.Proofs.Bound.Combined
import SqlOutline.Proofs.Bound.Suffix
import SqlOutline.Proofs.Lineage.Definition
import SqlOutline.Proofs.Script.Spelling
import SqlOutline.Proofs.Token.Opaque

/-!
# The text of a list of definitions

Common tables are defined by `WITH name (columns) AS MATERIALIZED (body), …`. Each
body ends with a line break, so that a comment at its end ends there. Such a text is
read stretch by stretch (`WrittenWith.lexemes_text`).
-/

namespace SqlOutline

open Token
open BoundForm (space)
open Script (wrapperOpening wrapperClosing)

/-! ## Stretches of text -/

namespace Token

/-- A stretch of text that begins with no blank, and is read as some lexemes before
anything that does not begin with a blank. -/
structure IsReadAs (cs : List Char) (ls : List Lexeme) : Prop where
  reads : ∀ rest : List Char, (∀ c ∈ rest.head?, Text.isBlank c = false) →
    lexemes (cs ++ rest) = ls ++ lexemes rest
  head : ∀ c ∈ cs.head?, Text.isBlank c = false

namespace IsReadAs

theorem nil : IsReadAs [] [] :=
  ⟨fun _ _ => rfl, by simp⟩

theorem append {cs ds : List Char} {ls ms : List Lexeme} (hfirst : IsReadAs cs ls)
    (hsecond : IsReadAs ds ms) : IsReadAs (cs ++ ds) (ls ++ ms) where
  reads rest hrest := by
    have hhead : ∀ c ∈ (ds ++ rest).head?, Text.isBlank c = false := by
      cases ds with
      | nil => exact hrest
      | cons d ds => exact hsecond.head
    rw [List.append_assoc, hfirst.reads _ hhead, hsecond.reads rest hrest,
      List.append_assoc]
  head := by
    cases cs with
    | nil => exact hsecond.head
    | cons c cs => exact hfirst.head

theorem flatMap {α : Type} {chars : α → List Char} {read : α → List Lexeme}
    {l : List α} (h : ∀ x ∈ l, IsReadAs (chars x) (read x)) :
    IsReadAs (l.flatMap chars) (l.flatMap read) := by
  induction l with
  | nil => exact nil
  | cons x l ih =>
    obtain ⟨hx, hl⟩ := List.forall_mem_cons.1 h
    exact hx.append (ih hl)

end IsReadAs

theorem lexemes_space_of_head? {cs : List Char}
    (h : ∀ c ∈ cs.head?, Text.isBlank c = false) :
    lexemes (' ' :: cs) = space :: lexemes cs := by
  obtain ⟨htake, hdrop⟩ := Text.takeWhile_isBlank_eq_nil h
  rw [lexemes_cons_of_isBlank _ (by decide), htake, hdrop]
  rfl

private theorem lexemes_comma (cs : List Char) :
    lexemes (',' :: cs) = ⟨.comma, ","⟩ :: lexemes cs :=
  lexemes_cons_of_single cs (by decide) (by decide)

def listedLexemes (items : List (List Lexeme)) : List Lexeme :=
  [⟨.comma, ","⟩, space].intercalate items

@[simp] theorem listedLexemes_nil : listedLexemes [] = [] := rfl

@[simp] theorem listedLexemes_singleton (item : List Lexeme) :
    listedLexemes [item] = item :=
  List.intercalate_singleton

theorem listedLexemes_cons_cons (item next : List Lexeme)
    (items : List (List Lexeme)) :
    listedLexemes (item :: next :: items) =
      item ++ ([⟨.comma, ","⟩, space] ++ listedLexemes (next :: items)) := by
  rw [listedLexemes, List.intercalate_cons_cons, List.append_assoc, listedLexemes]

private theorem lexemes_listed {α : Type} {chars : α → List Char}
    {read : α → List Lexeme} {items : List α} {rest : List Char}
    (hcomma : ∀ x ∈ items,
      ∀ more, lexemes (chars x ++ ',' :: more) = read x ++ lexemes (',' :: more))
    (hrest : ∀ x ∈ items, lexemes (chars x ++ rest) = read x ++ lexemes rest)
    (hhead : ∀ x ∈ items, ∃ c cs, chars x = c :: cs ∧ Text.isBlank c = false) :
    lexemes ([',', ' '].intercalate (items.map chars) ++ rest) =
      listedLexemes (items.map read) ++ lexemes rest := by
  induction items with
  | nil => rfl
  | cons x items ih =>
    obtain ⟨hcommaFirst, hcommaMore⟩ := List.forall_mem_cons.1 hcomma
    obtain ⟨hrestFirst, hrestMore⟩ := List.forall_mem_cons.1 hrest
    have hheadMore := List.forall_mem_of_forall_mem_cons hhead
    cases items with
    | nil =>
      rw [List.map_singleton, List.map_singleton, List.intercalate_singleton,
        listedLexemes_singleton, hrestFirst]
    | cons y items =>
      obtain ⟨c, cs, hchars, hc⟩ := hheadMore y (List.mem_cons_self ..)
      have hread := ih hcommaMore hrestMore hheadMore
      have hnext :
          ∀ d ∈ ([',', ' '].intercalate ((y :: items).map chars) ++ rest).head?,
            Text.isBlank d = false := by
        cases items <;> simp [hchars, List.intercalate_cons_cons, hc]
      rw [List.map_cons, List.intercalate_cons_of_ne_nil (by simp), List.append_assoc,
        List.append_assoc, List.cons_append, hcommaFirst, lexemes_comma,
        List.cons_append, List.nil_append, lexemes_space_of_head? hnext, hread]
      simp [listedLexemes_cons_cons]

end Token

/-! ## Names -/

/-- A name as it is written: a bare word that is no keyword, or a name between
backquotes. -/
inductive WrittenName where
  | bare (word : String) (h : Lexeme.isBareWord ⟨.identifier, word⟩ = true)
  | quoted (payload : String) (h : Lexeme.backquote ∉ payload.toList)

namespace WrittenName

def text : WrittenName → String
  | .bare word _ => word
  | .quoted payload _ => Enclosure.backquotes.span payload

def name : WrittenName → String
  | .bare word _ => word
  | .quoted payload _ => payload

def lexeme (written : WrittenName) : Lexeme :=
  ⟨.identifier, written.text⟩

theorem toList_text_quoted (payload : String)
    (h : Lexeme.backquote ∉ payload.toList) :
    (quoted payload h).text.toList =
      Lexeme.backquote :: (payload.toList ++ [Lexeme.backquote]) := by
  rw [text, Enclosure.span, String.toList_ofList]
  rfl

theorem exists_toList_text (written : WrittenName) :
    ∃ c cs, written.text.toList = c :: cs ∧ Text.isBlank c = false := by
  cases written with
  | bare word h => exact Lexeme.exists_toList_of_isBareWord h
  | quoted payload h => exact ⟨_, _, toList_text_quoted payload h, by decide⟩

theorem name_lexeme (written : WrittenName) : written.lexeme.name = written.name := by
  cases written with
  | bare word h =>
    obtain ⟨c, cs, hlexeme, hform, -⟩ := Lexeme.exists_chars_of_isBareWord h
    obtain ⟨-, rfl⟩ := Lexeme.mk.inj hlexeme
    have hc : c ≠ Lexeme.backquote := by
      rintro rfl
      exact absurd hform (by decide)
    simp only [lexeme, text, name, Lexeme.name, String.toList_ofList, if_neg hc]
  | quoted payload h =>
    simp only [lexeme, Lexeme.name, toList_text_quoted, if_true, List.getLast?_concat,
      List.dropLast_concat, String.ofList_toList, name]

theorem lexemes_append (written : WrittenName) {rest : List Char}
    (hrest : ∀ c ∈ rest.head?, c = ' ' ∨ c = ',' ∨ c = ')') :
    lexemes (written.text.toList ++ rest) = written.lexeme :: lexemes rest := by
  cases written with
  | bare word h =>
    apply Lexeme.lexemes_append_of_isBareWord h
    intro c hc
    rcases hrest c hc with rfl | rfl | rfl <;> decide +kernel
  | quoted payload h =>
    rw [toList_text_quoted, lexemes_backquoted_append payload.toList h, lexeme,
      ← toList_text_quoted payload h, String.ofList_toList]

end WrittenName

/-! ## Words -/

def phrase (words : List Lexeme) : String :=
  String.join (words.map fun word => word.text ++ " ")

def phraseLexemes (words : List Lexeme) : List Lexeme :=
  words.flatMap fun word => [word, space]

theorem isReadAs_phrase {words : List Lexeme}
    (h : ∀ word ∈ words, word.isBareWord = true) :
    IsReadAs (phrase words).toList (phraseLexemes words) := by
  rw [phrase, String.toList_join, List.flatMap_map]
  apply IsReadAs.flatMap
  intro word hword
  have hbare := h word hword
  have hchars : (word.text ++ " ").toList = word.text.toList ++ [' '] :=
    String.toList_append
  obtain ⟨c, cs, htext, hc⟩ := Lexeme.exists_toList_of_isBareWord hbare
  constructor
  · intro rest hrest
    rw [hchars, List.append_assoc,
      (Lexeme.isDelimited_of_isBareWord hbare).reads _ (by simp),
      List.singleton_append, lexemes_space_of_head? hrest]
    rfl
  · rw [hchars, htext]
    rintro d ⟨⟩
    exact hc

/-! ## Definitions -/

/-- A definition of a common table as it is written. Nothing in the body is left open,
and each `)` in it closes a parenthesis of the body. -/
structure WrittenDefinition where
  name : WrittenName
  columns : Option (List WrittenName)
  words : List Lexeme
  body : String
  kind_words : words.map (fun word => word.kind) ∈ definingWords
  isBareWord_of_mem_words : ∀ word ∈ words, word.isBareWord = true
  isComplete_body : Script.IsComplete body
  isMatched_body : IsMatched (tokenize body)

namespace WrittenDefinition

def columnsText : Option (List WrittenName) → String
  | none => ""
  | some columns => "(" ++ ", ".intercalate (columns.map WrittenName.text) ++ ") "

def columnsLexemes : Option (List WrittenName) → List Lexeme
  | none => []
  | some columns =>
    wrapperOpening :: (listedLexemes (columns.map fun column => [column.lexeme]) ++
      [wrapperClosing, space])

def front (definition : WrittenDefinition) : String :=
  definition.name.text ++ " " ++ columnsText definition.columns ++
    phrase definition.words ++ "("

def frontLexemes (definition : WrittenDefinition) : List Lexeme :=
  definition.name.lexeme :: space ::
    (columnsLexemes definition.columns ++
      (phraseLexemes definition.words ++ [wrapperOpening]))

def text (definition : WrittenDefinition) : String :=
  definition.front ++ definition.body ++ "\n)"

def bodyLexemes (definition : WrittenDefinition) : List Lexeme :=
  lexemes (definition.body ++ "\n").toList

def written (definition : WrittenDefinition) : List Lexeme :=
  definition.frontLexemes ++ (definition.bodyLexemes ++ [wrapperClosing])

theorem isReadAs_columnsText (columns : Option (List WrittenName)) :
    IsReadAs (columnsText columns).toList (columnsLexemes columns) := by
  cases columns with
  | none => exact IsReadAs.nil
  | some columns =>
    have hchars : (columnsText (some columns)).toList =
        '(' ::
          ([',', ' '].intercalate (columns.map fun column => column.text.toList) ++
            [')', ' ']) := by
      rw [columnsText, String.toList_append, String.toList_append,
        String.toList_intercalate, List.map_map]
      rfl
    refine ⟨fun rest hrest => ?_, ?_⟩
    · have hlisted : lexemes ([',', ' '].intercalate
              (columns.map fun column => column.text.toList) ++ ')' :: ' ' :: rest) =
          listedLexemes (columns.map fun column => [column.lexeme]) ++
            lexemes (')' :: ' ' :: rest) :=
        lexemes_listed (fun column _ _ => column.lexemes_append (by simp))
          (fun column _ => column.lexemes_append (by simp)) fun column _ =>
          column.exists_toList_text
      rw [hchars, List.cons_append, Script.lexemes_parenOpen, List.append_assoc,
        List.cons_append, List.singleton_append, hlisted, Script.lexemes_parenClose,
        lexemes_space_of_head? hrest, columnsLexemes]
      simp
    · rw [hchars]
      rintro d ⟨⟩
      decide

theorem lexemes_front_append (definition : WrittenDefinition) (rest : List Char) :
    lexemes (definition.front.toList ++ rest) =
      definition.frontLexemes ++ lexemes rest := by
  obtain ⟨c, cs, htext, hc⟩ := definition.name.exists_toList_text
  have hafter := (isReadAs_columnsText definition.columns).append
    (isReadAs_phrase definition.isBareWord_of_mem_words)
  have hchars : definition.front.toList ++ rest =
      definition.name.text.toList ++
        ' ' ::
          ((columnsText definition.columns).toList ++
            (phrase definition.words).toList ++ '(' :: rest) := by
    simp [front]
  have hhead : ∀ d ∈ ((columnsText definition.columns).toList ++
        (phrase definition.words).toList ++ '(' :: rest).head?,
      Text.isBlank d = false := by
    generalize (columnsText definition.columns).toList ++
        (phrase definition.words).toList = ds at hafter
    cases ds with
    | nil =>
      rintro d ⟨⟩
      decide
    | cons d ds => exact hafter.head
  rw [hchars, definition.name.lexemes_append (by simp), lexemes_space_of_head? hhead,
    hafter.reads _ (by simp; decide), Script.lexemes_parenOpen, frontLexemes]
  simp

theorem lexemes_body_append (definition : WrittenDefinition) (rest : List Char) :
    lexemes (definition.body.toList ++ '\n' :: ')' :: rest) =
      definition.bodyLexemes ++ lexemes (')' :: rest) := by
  obtain ⟨kept, blanks, blanks', -, hread, -⟩ :=
    Script.exists_lexemes_append_lineBreak_of_head?
      definition.isComplete_body.forall_mem_lexemes
  have hbody := hread [] (by simp)
  have hchars : (definition.body ++ "\n").toList = definition.body.toList ++ ['\n'] :=
    String.toList_append
  rw [lexemes_nil, List.append_nil] at hbody
  rw [hread _ (by simp; decide), bodyLexemes, hchars, hbody, List.append_assoc]

theorem lexemes_text_append (definition : WrittenDefinition) (rest : List Char) :
    lexemes (definition.text.toList ++ rest) =
      definition.written ++ lexemes rest := by
  have hchars : definition.text.toList ++ rest =
      definition.front.toList ++ (definition.body.toList ++ '\n' :: ')' :: rest) := by
    simp [text]
  rw [hchars, lexemes_front_append, lexemes_body_append, Script.lexemes_parenClose,
    written]
  simp

theorem exists_toList_text (definition : WrittenDefinition) :
    ∃ c cs, definition.text.toList = c :: cs ∧ Text.isBlank c = false := by
  obtain ⟨c, cs, htext, hc⟩ := definition.name.exists_toList_text
  exact ⟨c, _, by simp [text, front, htext]; rfl, hc⟩

end WrittenDefinition

/-! ## Lists of definitions -/

/-- A list of definitions behind `WITH` or `WITH RECURSIVE`. -/
structure WrittenWith where
  opening : List Lexeme
  isRecursive : Bool
  definitions : List WrittenDefinition
  kind_opening : opening.map (fun word => word.kind) =
    .keyword .with :: if isRecursive then [.keyword .recursive] else []
  isBareWord_of_mem_opening : ∀ word ∈ opening, word.isBareWord = true
  definitions_ne_nil : definitions ≠ []

namespace WrittenWith

def text (list : WrittenWith) (main : String) : String :=
  phrase list.opening ++
    ", ".intercalate (list.definitions.map WrittenDefinition.text) ++ " " ++ main

theorem lexemes_text (list : WrittenWith) (main : String) :
    lexemes (list.text main).toList = phraseLexemes list.opening ++
      (listedLexemes (list.definitions.map WrittenDefinition.written) ++
        lexemes (' ' :: main.toList)) := by
  have hlisted : lexemes ([',', ' '].intercalate
          (list.definitions.map fun definition => definition.text.toList) ++
        ' ' :: main.toList) =
      listedLexemes (list.definitions.map WrittenDefinition.written) ++
        lexemes (' ' :: main.toList) :=
    lexemes_listed (fun definition _ _ => definition.lexemes_text_append _)
      (fun definition _ => definition.lexemes_text_append _)
      fun definition _ => definition.exists_toList_text
  have hchars : (list.text main).toList =
      (phrase list.opening).toList ++
        ([',', ' '].intercalate
            (list.definitions.map fun definition => definition.text.toList) ++
          ' ' :: main.toList) := by
    simp [text, String.toList_intercalate, Function.comp_def]
  obtain ⟨first, more, hdefinitions⟩ :=
    List.exists_cons_of_ne_nil list.definitions_ne_nil
  obtain ⟨c, cs, htext, hc⟩ := first.exists_toList_text
  have hhead : ∀ d ∈ ([',', ' '].intercalate
          (list.definitions.map fun definition => definition.text.toList) ++
        ' ' :: main.toList).head?, Text.isBlank d = false := by
    rw [hdefinitions]
    cases more <;> simp [List.intercalate_cons_cons, htext, hc]
  rw [hchars, (isReadAs_phrase list.isBareWord_of_mem_opening).reads _ hhead, hlisted]

end WrittenWith

end SqlOutline
