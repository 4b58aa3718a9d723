import SqlOutline.Proofs.Bound.Agreement
import SqlOutline.Proofs.Script.Blanks
import SqlOutline.Proofs.Script.Closed

/-!
# Scripts written one after another

Two scripts are written one after another with a semicolon on a line of its own
between them. If the first one leaves nothing open, each statement is analysed as in
its own script: the line breaks around the semicolon become white space at the end of
the first script and at the beginning of the second (`exists_tokenize_junction`), and
there they mean nothing.
-/

namespace SqlOutline

open Token

namespace Script

/-- A closed script whose block comments are closed too. -/
structure IsComplete (text : String) : Prop extends IsClosed text where
  comments : ∀ token ∈ tokenize text, token.kind = .blockComment →
    ¬ token.toLexeme.IsOpen

/-- It is enough to try one character behind each lexeme between marks and each
comment. -/
theorem IsComplete.of_space {text : String} (hdepth : depth (tokenize text) = 0)
    (h : ∀ token ∈ tokenize text, token.isQuoted || token.kind == .blockComment →
      lexemes (token.text.toList ++ [' ']) ≠
        [⟨token.kind, String.ofList (token.text.toList ++ [' '])⟩]) :
    IsComplete text where
  toIsClosed := IsClosed.of_space hdepth fun token htoken hquoted =>
    h token htoken (by rw [hquoted, Bool.true_or])
  comments token htoken hkind hopen := h token htoken (by simp [hkind]) (hopen ' ')

theorem IsComplete.forall_mem_lexemes {text : String} (h : IsComplete text) :
    ∀ lexeme ∈ lexemes text.toList, ¬ lexeme.IsUnterminated ∧
      (lexeme.kind = .blockComment → ¬ lexeme.IsOpen) := by
  intro lexeme hlexeme
  rw [← map_toLexeme_tokenize] at hlexeme
  obtain ⟨token, htoken, rfl⟩ := List.mem_map.1 hlexeme
  exact ⟨h.terminated token htoken, h.comments token htoken⟩

def junction (first second : String) : String :=
  first ++ "\n;\n" ++ second

theorem toList_junction (first second : String) :
    (junction first second).toList =
      first.toList ++ '\n' :: ';' :: '\n' :: second.toList := by
  simp [junction]

/-! ## The lexemes of a junction -/

theorem isBlank_newline : Text.isBlank '\n' = true := by
  decide

private theorem isBlank_lineBreak : lineBreak.IsBlank :=
  ⟨rfl, by simpa [lineBreak] using isBlank_newline⟩

section LastLexeme

variable {form : Form} {c : Char} {w : List Char}

private theorem lexemes_lineComment_append (rest : List Char)
    (hform : Form.ofChars c w.head? = .lineComment)
    (h : Form.lineComment.length w = w.length) :
    lexemes (c :: w ++ '\n' :: rest) =
      ⟨.lineComment, String.ofList (c :: w)⟩ :: lexemes ('\n' :: rest) := by
  have hne : w ≠ [] := by
    rintro rfl
    have hlooks := Form.looksAhead_ofChars_none c
    rw [← List.head?_nil, hform] at hlooks
    exact Bool.noConfusion hlooks
  have hform' : Form.ofChars c (w ++ '\n' :: rest).head? = .lineComment := by
    rwa [List.head?_append_of_ne_nil _ hne]
  have hlength' : runLength (· != '\n') (w ++ []) = w.length := by
    rwa [List.append_nil]
  have hall : ∀ d ∈ w, (d != '\n') = true := all_of_runLength_append hlength'
  exact lexemes_cons_append hform' (runLength_append_of_all hall (by simp))

private theorem lexemes_blanks_append {rest : List Char}
    (hrest : ∀ d ∈ rest.head?, Text.isBlank d = false)
    (h : ∀ d ∈ c :: w, Text.isBlank d = true) :
    lexemes (c :: w ++ '\n' :: rest) =
      ⟨.whitespace, String.ofList (c :: w ++ ['\n'])⟩ :: lexemes rest := by
  obtain ⟨hc, hw⟩ := List.forall_mem_cons.1 h
  have hw' : ∀ d ∈ w ++ ['\n'], Text.isBlank d = true :=
    List.forall_mem_append.2 ⟨hw, List.forall_mem_singleton.2 isBlank_newline⟩
  have hsplit : w ++ '\n' :: rest = (w ++ ['\n']) ++ rest := by simp
  obtain ⟨htake, hdrop⟩ := Text.takeWhile_isBlank_eq_nil hrest
  rw [List.cons_append, lexemes_cons_of_isBlank _ hc, hsplit,
    List.takeWhile_append_of_pos hw', List.dropWhile_append_of_pos hw', htake, hdrop,
    List.append_nil, List.cons_append]

private theorem lexemes_append_lineBreak (rest : List Char)
    (hform : Form.ofChars c w.head? = form) (h : form.length w = w.length)
    (hblanks : form ≠ .blanks)
    (hterminated :
      ¬ Lexeme.IsUnterminated ⟨form.kind (c :: w), String.ofList (c :: w)⟩)
    (hcomment : form.kind (c :: w) = .blockComment →
      ¬ Lexeme.IsOpen ⟨form.kind (c :: w), String.ofList (c :: w)⟩) :
    lexemes (c :: w ++ '\n' :: rest) =
      ⟨form.kind (c :: w), String.ofList (c :: w)⟩ :: lexemes ('\n' :: rest) := by
  by_cases hline : form = .lineComment
  · subst hline
    exact lexemes_lineComment_append rest hform h
  · apply lexemes_append_of_ends hform hblanks hline h ?_
      (Text.isBreak_of_head?_eq rfl (by decide))
    intro hmore
    by_cases hblock : form = .blockComment
    · subst hblock
      exact hcomment rfl (isOpen_of_forall hform hblanks hline hmore)
    · exact hterminated (isUnterminated_of_forall hform hblanks hline hblock hmore)

end LastLexeme

/-- Behind a text that leaves nothing open, a line break before no blank changes at
most the white space at its end. -/
theorem exists_lexemes_append_lineBreak_of_head? {cs : List Char}
    (h : ∀ lexeme ∈ lexemes cs, ¬ lexeme.IsUnterminated ∧
      (lexeme.kind = .blockComment → ¬ lexeme.IsOpen)) :
    ∃ kept blanks blanks', lexemes cs = kept ++ blanks ∧
      (∀ rest : List Char, (∀ d ∈ rest.head?, Text.isBlank d = false) →
        lexemes (cs ++ '\n' :: rest) = kept ++ (blanks' ++ lexemes rest)) ∧
      (∀ lexeme ∈ blanks, lexeme.IsBlank) ∧ ∀ lexeme ∈ blanks', lexeme.IsBlank := by
  induction cs using induction_lexemes with
  | nil =>
    refine ⟨[], [], [lineBreak], by simp, fun rest hrest => ?_, by simp, ?_⟩
    · exact lexemes_lineBreak_of_head? hrest
    · exact List.forall_mem_singleton.2 isBlank_lineBreak
  | cons c w later form hform hlength ih =>
    rw [lexemes_cons_append hform hlength] at h ⊢
    obtain ⟨⟨hterminated, hcomment⟩, hlast⟩ := List.forall_mem_cons.1 h
    by_cases hlater : later = []
    · subst hlater
      rw [lexemes_nil]
      by_cases hblanks : form = .blanks
      -- white space takes the line break in
      · subst hblanks
        have hall := isBlank_of_length_blanks hform hlength
        rw [List.append_nil]
        refine ⟨[], _, [_], rfl, fun rest hrest => lexemes_blanks_append hrest hall,
          ?_, ?_⟩
        · exact List.forall_mem_singleton.2 ⟨rfl, by rwa [String.toList_ofList]⟩
        · refine List.forall_mem_singleton.2 ⟨rfl, ?_⟩
          rw [String.toList_ofList]
          exact List.forall_mem_append.2
            ⟨hall, List.forall_mem_singleton.2 isBlank_newline⟩
      · rw [List.append_nil] at hform hlength ⊢
        refine ⟨[_], [], [lineBreak], rfl, fun rest hrest => ?_, by simp,
          List.forall_mem_singleton.2 isBlank_lineBreak⟩
        rw [lexemes_append_lineBreak rest hform hlength hblanks hterminated hcomment,
          lexemes_lineBreak_of_head? hrest]
        rfl
    · obtain ⟨kept, blanks, blanks', hlexemes, hread, hblank⟩ := ih hlast
      refine ⟨_ :: kept, blanks, blanks', by rw [hlexemes]; rfl, fun rest hrest => ?_,
        hblank⟩
      have hbreak : ∀ d ∈ ('\n' :: rest).head?, Text.isBreak d = true :=
        Text.isBreak_of_head?_eq rfl (by decide)
      rw [lexemes_append_of_ne_nil hform hlength hlater hbreak, hread rest hrest]
      rfl

theorem exists_lexemes_append_lineBreak {cs : List Char}
    (h : ∀ lexeme ∈ lexemes cs, ¬ lexeme.IsUnterminated ∧
      (lexeme.kind = .blockComment → ¬ lexeme.IsOpen)) (mark : Char)
    (hmark : Text.isBlank mark = false) :
    ∃ kept blanks blanks', lexemes cs = kept ++ blanks ∧
      (∀ rest, lexemes (cs ++ '\n' :: mark :: rest) =
        kept ++ (blanks' ++ lexemes (mark :: rest))) ∧
      (∀ lexeme ∈ blanks, lexeme.IsBlank) ∧ ∀ lexeme ∈ blanks', lexeme.IsBlank := by
  obtain ⟨kept, blanks, blanks', hkept, hread, hblanks, hblanks'⟩ :=
    exists_lexemes_append_lineBreak_of_head? h
  refine ⟨kept, blanks, blanks', hkept, fun rest => hread _ ?_, hblanks, hblanks'⟩
  rintro d ⟨⟩
  exact hmark

/-- Before a text a blank changes at most the white space at its beginning. -/
theorem exists_lexemes_blank_append {b : Char} (hb : Text.isBlank b = true)
    (cs : List Char) :
    ∃ blanks blanks' kept, lexemes cs = blanks ++ kept ∧
      lexemes (b :: cs) = blanks' ++ kept ∧ (∀ lexeme ∈ blanks, lexeme.IsBlank) ∧
      ∀ lexeme ∈ blanks', lexeme.IsBlank := by
  have htake : ∀ (c : Char) (cs : List Char), Text.isBlank c = true →
      Lexeme.IsBlank
        ⟨.whitespace, String.ofList (c :: cs.takeWhile Text.isBlank)⟩ := by
    intro c cs hc
    refine ⟨rfl, ?_⟩
    rw [String.toList_ofList]
    exact List.forall_mem_cons.2 ⟨hc, fun d hd => List.mem_takeWhile_imp hd⟩
  have hread := lexemes_cons_of_isBlank cs hb
  match cs with
  | [] =>
    exact ⟨[], _, [], by simp, by simpa using hread, by simp,
      by simpa using htake b [] hb⟩
  | c :: cs =>
    by_cases hc : Text.isBlank c = true
    · refine ⟨[_], [_], _, lexemes_cons_of_isBlank cs hc, ?_,
        List.forall_mem_singleton.2 (htake c cs hc),
        List.forall_mem_singleton.2 (htake b (c :: cs) hb)⟩
      rw [hread, List.dropWhile_cons_of_pos hc]
      rfl
    · refine ⟨[], [_], lexemes (c :: cs), rfl, ?_, by simp,
        List.forall_mem_singleton.2 (htake b (c :: cs) hb)⟩
      rw [hread, List.dropWhile_cons_of_neg (by simp [hc])]
      rfl

/-! ## The tokens of a junction -/

theorem allBlank_place {ls : List Lexeme} (line start : Nat)
    (h : ∀ lexeme ∈ ls, lexeme.IsBlank) : AllBlank (place line start ls) := by
  intro token htoken
  apply h
  rw [← map_toLexeme_place line start ls]
  exact List.mem_map_of_mem htoken

theorem exists_place_append (line start : Nat) (before after : List Lexeme) :
    ∃ line' start', place line start (before ++ after) =
      place line start before ++ place line' start' after :=
  ⟨_, _, place_append line start before after⟩

/-- The tokens of a junction are those of the two scripts, the second moved, but for
the white space around the semicolon. -/
theorem exists_tokenize_junction {first : String} (hfirst : IsComplete first)
    (second : String) :
    ∃ kept blanks blanks' semicolon gaps gaps' later,
      tokenize first = kept ++ blanks ∧ tokenize second = gaps ++ later ∧
      tokenize (junction first second) =
        (kept ++ blanks') ++
          semicolon ::
            (gaps' ++
              later.map (Token.moved (lineBreaks first + 2) (first.length + 3))) ∧
      semicolon.kind = .semicolon ∧ AllBlank blanks ∧ AllBlank blanks' ∧
      AllBlank gaps ∧ AllBlank gaps' := by
  obtain ⟨kept, blanks, blanks', hkept, hread, hblanks, hblanks'⟩ :=
    exists_lexemes_append_lineBreak hfirst.forall_mem_lexemes ';' (by decide)
  obtain ⟨gaps, gaps', later, hlater, hbreak, hgaps, hgaps'⟩ :=
    exists_lexemes_blank_append isBlank_newline second.toList
  -- the second script stands behind what is written before it
  have hlexemes : lexemes ((first.toList ++ ['\n', ';', '\n']) ++ second.toList) =
      (kept ++ blanks' ++ separator :: gaps') ++ later := by
    have hsplit : (first.toList ++ ['\n', ';', '\n']) ++ second.toList =
        first.toList ++ '\n' :: ';' :: '\n' :: second.toList := by simp
    rw [hsplit, hread, lexemes_separator, hbreak]
    simp
  obtain ⟨tokens, hshort, hlong⟩ := exists_place_moved hlexemes hlater
  have hcount : (first.toList ++ ['\n', ';', '\n']).count '\n' =
      lineBreaks first + 2 := by
    rw [List.count_append]
    rfl
  have hlength : (first.toList ++ ['\n', ';', '\n']).length = first.length + 3 := by
    rw [List.length_append, String.length_toList]
    rfl
  have hchars : (junction first second).toList =
      (first.toList ++ ['\n', ';', '\n']) ++ second.toList := by
    rw [toList_junction]
    simp
  obtain ⟨line₁, start₁, hblanksPlace⟩ := exists_place_append 0 0 kept blanks
  obtain ⟨line₂, start₂, hblanksPlace'⟩ := exists_place_append 0 0 kept blanks'
  obtain ⟨line₃, start₃, hgapsPlace⟩ :=
    exists_place_append 0 0 (kept ++ blanks') (separator :: gaps')
  refine ⟨place 0 0 kept, place line₁ start₁ blanks, place line₂ start₂ blanks',
    ⟨separator, line₃, start₃, start₃ + separator.text.length⟩, place 0 0 gaps,
    place (line₃ + lineBreaks separator.text) (start₃ + separator.text.length) gaps',
    tokens, by rw [tokenize, hkept, hblanksPlace], by rw [tokenize, hlater, hshort],
    ?_, rfl, allBlank_place _ _ hblanks, allBlank_place _ _ hblanks',
    allBlank_place _ _ hgaps, allBlank_place _ _ hgaps'⟩
  rw [tokenize, hchars, hlexemes, hlong, hcount, hlength, hgapsPlace, hblanksPlace',
    place, List.append_assoc _ (_ :: _), List.cons_append]

/-! ## The statements of a junction -/

theorem ofTokens_append_cons {first : List Token} {semicolon : Token}
    (second : List Token) (hdepth : depth first = 0)
    (hkind : semicolon.kind = .semicolon) :
    ofTokens (first ++ semicolon :: second) = ofTokens first ++ ofTokens second := by
  rw [ofTokens, parts_append_cons second hdepth hkind, List.map_append]
  rfl

/-- The statements of a junction are analysed as in their scripts, if the analysis
moves along with a text. -/
theorem map_statements_junction {β : Type} {F : Statement → β} (move : β → β)
    {first : String} (hfirst : IsComplete first) (second : String)
    (hF : IgnoresBlanks F)
    (hmove : ∀ statement,
      F ((Relayout.moved (lineBreaks first + 2) (first.length + 3)).statement
          statement) =
        move (F statement)) :
    (statements (junction first second)).map F =
      (statements first).map F ++ ((statements second).map F).map move := by
  obtain ⟨kept, blanks, blanks', semicolon, gaps, gaps', later, htokens, hsecond,
    hjunction, hkind, hblanks, hblanks', hgaps, hgaps'⟩ :=
    exists_tokenize_junction hfirst second
  have hdepth : depth kept = 0 := by
    rw [← hblanks.depth_append, ← htokens]
    exact hfirst.depth_eq
  have hdepth' : depth (kept ++ blanks') = 0 := by rwa [hblanks'.depth_append]
  have hmoved : (ofTokens
        (later.map (Token.moved (lineBreaks first + 2) (first.length + 3)))).map F =
      ((ofTokens later).map F).map move := by
    rw [← Relayout.tokens_moved, Relayout.ofTokens_script, List.map_map, List.map_map]
    exact List.map_congr_left fun statement _ => hmove statement
  rw [statements, hjunction, ofTokens_append_cons _ hdepth' hkind, List.map_append,
    hF.map_ofTokens_append hdepth hblanks', hF.map_ofTokens_prepend _ hgaps', hmoved,
    statements, htokens, hF.map_ofTokens_append hdepth hblanks, statements, hsecond,
    hF.map_ofTokens_prepend _ hgaps]

/-! ## The analyses of a junction -/

private theorem find?_map_eq {α β : Type} (p : α → Bool) (f : α → β) (l : List α) :
    (l.find? p).map f =
      ((l.map fun x => (p x, f x)).find? Prod.fst).map Prod.snd := by
  rw [List.find?_map, Option.map_map]
  rfl

section Analyses

variable {first : String} (hfirst : IsComplete first) (second : String)

include hfirst

theorem plainTexts_junction :
    plainTexts (junction first second) = plainTexts first ++ plainTexts second := by
  have htexts := map_statements_junction id hfirst second ignoresBlanks_plainText
    (Relayout.plainText_statement_moved _ _)
  rw [plainTexts, htexts, List.map_id, List.filter_append]
  rfl

theorem mentions_junction (schema : String) :
    (Lineage.ofStatements schema (statements (junction first second))).mentions =
      (Lineage.ofStatements schema (statements first)).mentions ++
        (Lineage.ofStatements schema (statements second)).mentions.map
          (List.map
            (TableMention.moved (lineBreaks first + 2) (first.length + 3))) := by
  have hmentions := map_statements_junction _ hfirst second
    (IgnoresBlanks.of_stripped (Relayout.mentions_statement_stripped schema))
    (Relayout.mentions_statement_moved _ _ schema)
  rw [Lineage.mentions_ofStatements, hmentions, Lineage.mentions_ofStatements,
    Lineage.mentions_ofStatements]

theorem aliases_junction (schema : String) :
    (Lineage.ofStatements schema (statements (junction first second))).aliases.map
        (·.toList) =
      (Lineage.ofStatements schema (statements first)).aliases.map (·.toList) ++
        (Lineage.ofStatements schema (statements second)).aliases.map
          (fun aliases => aliases.toList.map fun (name, mention) =>
            (name, mention.moved (lineBreaks first + 2) (first.length + 3))) := by
  have haliases :=
    map_statements_junction (F := fun statement => (statement.aliases schema).toList)
      (List.map fun (name, mention) =>
        (name, TableMention.moved (lineBreaks first + 2) (first.length + 3) mention))
      hfirst second
      (IgnoresBlanks.of_stripped (Relayout.aliases_statement_stripped schema))
      (Relayout.aliases_statement _ schema)
  simp only [Lineage.aliases_ofStatements, List.map_map] at haliases ⊢
  exact haliases

theorem unbounded?_junction (dialect : Dialect) :
    unbounded? (junction first second) dialect =
      (unbounded? first dialect).or (unbounded? second dialect) := by
  have hcounts : IgnoresBlanks fun statement => statement.lacksCount dialect :=
    IgnoresBlanks.of_stripped (by simp [Statement.lacksCount])
  have hpairs := map_statements_junction id hfirst second
    (hcounts.prod ignoresBlanks_plainText)
    (by simp [Statement.lacksCount, Relayout.plainText_statement_moved])
  rw [List.map_id] at hpairs
  simp only [unbounded?_eq_find?]
  rw [find?_map_eq, hpairs, List.find?_append, Option.map_or, ← find?_map_eq,
    ← find?_map_eq]

end Analyses

/-- Statements are analysed independently: each one of a junction as in its own
script, with the mentions of the second script moved behind the first and the
semicolon. -/
theorem analyses_junction {first : String} (hfirst : IsComplete first)
    (second schema : String) :
    plainTexts (junction first second) = plainTexts first ++ plainTexts second ∧
      (Lineage.ofStatements schema (statements (junction first second))).mentions =
        (Lineage.ofStatements schema (statements first)).mentions ++
          (Lineage.ofStatements schema (statements second)).mentions.map
            (List.map
              (TableMention.moved (lineBreaks first + 2) (first.length + 3))) ∧
      (Lineage.ofStatements schema (statements (junction first second))).aliases.map
          (·.toList) =
        (Lineage.ofStatements schema (statements first)).aliases.map (·.toList) ++
          (Lineage.ofStatements schema (statements second)).aliases.map
            (fun aliases => aliases.toList.map fun (name, mention) =>
              (name, mention.moved (lineBreaks first + 2) (first.length + 3))) ∧
      ∀ dialect, unbounded? (junction first second) dialect =
        (unbounded? first dialect).or (unbounded? second dialect) :=
  ⟨plainTexts_junction hfirst second, mentions_junction hfirst second schema,
    aliases_junction hfirst second schema, unbounded?_junction hfirst second⟩

def commentedScript : String := "select ';' from s.t x /*;*/ --;"

def unclosedScript : String :=
  "delete from u;\nselect a from (select b from v) limit 3 /*;"

theorem analyses_junction_commentedScript :
    IsComplete commentedScript ∧
      ((statements (junction commentedScript unclosedScript)).map fun statement =>
          (statement.tableUses "m" []).map TableUse.mention) =
        [[⟨"s", "t", 0, 16, 19⟩], [⟨"m", "u", 2, 46, 47⟩], [⟨"m", "v", 3, 78, 79⟩]] ∧
      plainTexts (junction commentedScript unclosedScript) =
        plainTexts commentedScript ++ plainTexts unclosedScript ∧
      (Lineage.ofStatements "m"
          (statements (junction commentedScript unclosedScript))).mentions =
        (Lineage.ofStatements "m" (statements commentedScript)).mentions ++
          (Lineage.ofStatements "m" (statements unclosedScript)).mentions.map
            (List.map (TableMention.moved (lineBreaks commentedScript + 2)
              (commentedScript.length + 3))) ∧
      (Lineage.ofStatements "m"
          (statements (junction commentedScript unclosedScript))).aliases.map
          (·.toList) =
        (Lineage.ofStatements "m" (statements commentedScript)).aliases.map
            (·.toList) ++
          (Lineage.ofStatements "m" (statements unclosedScript)).aliases.map
            (fun aliases => aliases.toList.map fun (name, mention) => (name,
              mention.moved (lineBreaks commentedScript + 2)
                (commentedScript.length + 3))) ∧
      ∀ dialect, unbounded? (junction commentedScript unclosedScript) dialect =
        (unbounded? commentedScript dialect).or
          (unbounded? unclosedScript dialect) := by
  have hcomplete : IsComplete commentedScript :=
    IsComplete.of_space (by decide +kernel) (by decide +kernel)
  exact ⟨hcomplete, by decide +kernel, analyses_junction hcomplete unclosedScript "m"⟩

end Script

end SqlOutline
