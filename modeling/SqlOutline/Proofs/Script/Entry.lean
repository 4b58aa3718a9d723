import SqlOutline.Proofs.Layout.Statement
import SqlOutline.Proofs.Piece.Overhang
import SqlOutline.Proofs.Script.Separation
import SqlOutline.Proofs.Statement.PlainText

/-!
# Entries of a script

An entry is a text of one statement that can stand in a script with others: no comment
is in it, all that it opens is closed, and it neither begins nor ends with a blank. A
script that is written entry by entry, each with its semicolon and on a line of its
own, has one statement for each (`forall₂_statements_written`).
-/

namespace SqlOutline

open Token

/-! ## Lexemes without places -/

/-- Lexemes as tokens that all stand at the beginning of the text. -/
def unplaced (ls : List Lexeme) : List Token :=
  ls.map fun lexeme => ⟨lexeme, 0, 0, 0⟩

@[simp] theorem unplaced_nil : unplaced [] = [] := rfl

@[simp] theorem unplaced_cons (lexeme : Lexeme) (ls : List Lexeme) :
    unplaced (lexeme :: ls) = ⟨lexeme, 0, 0, 0⟩ :: unplaced ls := rfl

@[simp] theorem unplaced_append (first second : List Lexeme) :
    unplaced (first ++ second) = unplaced first ++ unplaced second :=
  List.map_append

@[simp] theorem map_toLexeme_unplaced (ls : List Lexeme) :
    (unplaced ls).map Token.toLexeme = ls := by
  rw [unplaced, List.map_map]
  exact List.map_id ls

theorem forall_mem_unplaced {p : Token → Prop} {ls : List Lexeme} :
    (∀ token ∈ unplaced ls, p token) ↔ ∀ lexeme ∈ ls, p ⟨lexeme, 0, 0, 0⟩ :=
  List.forall_mem_map

namespace Relayout

def unplacing : Relayout where
  keeps _ := true
  line _ := 0
  start _ := 0
  stop _ := 0
  keeps_of_isTrivia _ _ := rfl

instance : unplacing.Verbatim := ⟨fun _ => rfl⟩

theorem tokens_unplacing (tokens : List Token) :
    unplacing.tokens tokens = unplaced (tokens.map Token.toLexeme) := by
  rw [Relayout.tokens, unplaced, List.map_map]
  have hall : tokens.filter unplacing.keeps = tokens :=
    List.filter_eq_self.2 fun _ _ => rfl
  rw [hall]
  rfl

variable (ρ : Relayout)

private theorem foldl_depthStep_tokens (outer : Nat) (tokens : List Token) :
    (ρ.tokens tokens).foldl depthStep outer = tokens.foldl depthStep outer := by
  induction tokens generalizing outer with
  | nil => rfl
  | cons token tokens ih =>
    by_cases hkeeps : ρ.keeps token = true
    · rw [tokens_cons_of_keeps ρ tokens hkeeps, List.foldl_cons, List.foldl_cons, ih]
      rfl
    · have hopens : ¬ token.opens = true := fun h => hkeeps (ρ.keeps_of_opens h)
      have hcloses : ¬ token.closes = true := fun h => hkeeps (ρ.keeps_of_closes h)
      rw [tokens_cons_of_not_keeps ρ tokens (by simpa using hkeeps), List.foldl_cons,
        ih, depthStep, if_neg hopens, if_neg hcloses]

/-- As many parentheses are left open in both layouts. -/
@[simp] theorem depth_tokens (tokens : List Token) :
    depth (ρ.tokens tokens) = depth tokens :=
  ρ.foldl_depthStep_tokens 0 tokens

end Relayout

theorem unplaced_lexemes (text : String) :
    unplaced (lexemes text.toList) = Relayout.unplacing.tokens (tokenize text) := by
  rw [Relayout.tokens_unplacing, map_toLexeme_tokenize]

/-- Whether no semicolon stands outside parentheses. -/
def IsUndivided (tokens : List Token) : Prop :=
  ∀ piece ∈ Piece.ofTokens tokens, piece.isKind .semicolon = false

theorem Relayout.isUndivided_tokens_iff (ρ : Relayout) (tokens : List Token) :
    IsUndivided (ρ.tokens tokens) ↔ IsUndivided tokens := by
  rw [IsUndivided, ρ.ofTokens_tokens]
  constructor
  · intro h piece hpiece
    by_contra hsemicolon
    rw [Bool.not_eq_false] at hsemicolon
    have hkeeps := ρ.keepsPiece_of_isTrivia (isTrivia_of_isKind rfl hsemicolon)
    have hmem : ρ.piece piece ∈ ρ.pieces (Piece.ofTokens tokens) :=
      List.mem_map_of_mem (List.mem_filter.2 ⟨hpiece, hkeeps⟩)
    have hnot := h _ hmem
    rw [ρ.isKind_piece, hsemicolon] at hnot
    exact Bool.noConfusion hnot
  · intro h piece hpiece
    obtain ⟨other, hother, rfl⟩ := List.mem_map.1 hpiece
    rw [ρ.isKind_piece]
    exact h other (List.mem_filter.1 hother).1

theorem Relayout.isMatched_tokens (ρ : Relayout) {tokens : List Token}
    (h : IsMatched tokens) : IsMatched (ρ.tokens tokens) := by
  rw [IsMatched, ρ.ofTokens_tokens]
  intro piece hpiece
  obtain ⟨other, hother, rfl⟩ := List.mem_map.1 hpiece
  rw [ρ.isKind_piece]
  exact h other (List.mem_filter.1 hother).1

theorem isUndivided_append_iff {first : List Token} (second : List Token)
    (h : depth first = 0) :
    IsUndivided (first ++ second) ↔ IsUndivided first ∧ IsUndivided second := by
  rw [IsUndivided, Piece.ofTokens_append second h, List.forall_mem_append]
  rfl

/-- A token that separates no statements and has no part in a parenthesis. -/
def Lexeme.IsInner (lexeme : Lexeme) : Prop :=
  lexeme.kind ≠ .semicolon ∧ lexeme.opens = false ∧ lexeme.closes = false

theorem Lexeme.isInner_of_keyword? {lexeme : Lexeme}
    (h : lexeme.keyword?.isSome = true) : lexeme.IsInner := by
  cases hkind : lexeme.kind <;>
    simp_all [Lexeme.keyword?, TokenKind.keyword?, IsInner, opens, closes]

theorem isUndivided_of_isInner {tokens : List Token}
    (h : ∀ token ∈ tokens, token.IsInner) : IsUndivided tokens := by
  rw [IsUndivided,
    Piece.ofTokens_of_not_opens fun token htoken => (h token htoken).2.1,
    List.forall_mem_map]
  intro token htoken
  simpa [Piece.isKind] using (h token htoken).1

theorem depth_of_isInner {tokens : List Token} (h : ∀ token ∈ tokens, token.IsInner) :
    depth tokens = 0 :=
  depth_of_not_opens fun token htoken => (h token htoken).2.1

namespace Script

/-- A text that no semicolon divides is one statement, if there is anything in it but
white space and comments. -/
theorem statements_eq_of_isUndivided {text : String}
    (hundivided : IsUndivided (tokenize text))
    (hne : significant (tokenize text) ≠ []) :
    statements text = [Statement.ofTokens (tokenize text)] := by
  obtain ⟨token, htoken⟩ := List.exists_mem_of_ne_nil _ hne
  obtain ⟨hmem, hsignificant⟩ := mem_significant.1 htoken
  have hany : (tokenize text).any (!·.isTrivia) = true :=
    List.any_eq_true.2 ⟨token, hmem, by rw [hsignificant]; rfl⟩
  exact statements_eq_singleton (parts_eq_singleton hundivided hany)

/-- The statement of a text that no semicolon divides is all of the text. -/
theorem eq_ofTokens_of_isUndivided {text : String}
    (hundivided : IsUndivided (tokenize text)) {statement : Statement}
    (h : statement ∈ statements text) :
    statement = Statement.ofTokens (tokenize text) := by
  have hne : significant (tokenize text) ≠ [] := by
    obtain ⟨token, htoken⟩ := List.exists_mem_of_ne_nil _
      (significant_ne_nil_of_mem_parts (tokens_mem_parts_of_mem_statements h))
    exact List.ne_nil_of_mem
      (((isInfix_of_mem_statements h).sublist.filter _).subset htoken)
  rw [statements_eq_of_isUndivided hundivided hne] at h
  exact List.mem_singleton.1 h

/-! ## Entries -/

/-- A text that is one statement and can stand in a script with others. -/
structure IsEntry (text : String) : Prop where
  ne_nil : lexemes text.toList ≠ []
  head_significant : ∀ first ∈ (lexemes text.toList).head?, first.isTrivia = false
  last_significant : ∀ last ∈ (lexemes text.toList).getLast?, last.isTrivia = false
  last_terminated : ∀ last ∈ (lexemes text.toList).getLast?, ¬ last.IsUnterminated
  isComment_eq_false : ∀ lexeme ∈ lexemes text.toList, lexeme.isComment = false
  isUndivided : IsUndivided (unplaced (lexemes text.toList))
  depth_eq : depth (unplaced (lexemes text.toList)) = 0

def lineBreak : Lexeme :=
  ⟨.whitespace, "\n"⟩

def separator : Lexeme :=
  ⟨.semicolon, ";"⟩

def written (entries : List String) : String :=
  "\n".intercalate (entries.map fun entry => entry ++ ";")

/-- The tokens of a part are those of an entry, perhaps after a line break. -/
def Writes (part : List Token) (entry : String) : Prop :=
  ∃ gap, (gap = [] ∨ gap = [lineBreak]) ∧
    part.map Token.toLexeme = gap ++ lexemes entry.toList

namespace IsEntry

variable {entry : String}

theorem isSealed (h : IsEntry entry) : Sealed entry.toList :=
  sealed_of_getLast? fun last hlast =>
    ⟨h.last_significant last hlast, h.last_terminated last hlast⟩

theorem any_significant (h : IsEntry entry) :
    ((lexemes entry.toList).any fun lexeme => !lexeme.isTrivia) = true := by
  obtain ⟨first, rest, hlexemes⟩ := List.exists_cons_of_ne_nil h.ne_nil
  have hfirst := h.head_significant first (by rw [hlexemes]; rfl)
  rw [hlexemes, List.any_cons, hfirst]
  rfl

theorem head?_not_isBlank (h : IsEntry entry) :
    ∃ c cs, entry.toList = c :: cs ∧ Text.isBlank c = false := by
  have hne : entry.toList ≠ [] := mt lexemes_eq_nil_iff.2 h.ne_nil
  obtain ⟨c, cs, hchars⟩ := List.exists_cons_of_ne_nil hne
  refine ⟨c, cs, hchars, ?_⟩
  by_contra hblank
  have hfirst := h.head_significant
  rw [hchars, lexemes_cons_of_isBlank cs (by simpa using hblank),
    List.head?_cons] at hfirst
  exact Bool.noConfusion (hfirst _ rfl)

theorem rdropWhile_eq (h : IsEntry entry) :
    entry.toList.rdropWhile Text.isBlank = entry.toList := by
  obtain ⟨front, last, hlexemes⟩ := (List.eq_nil_or_concat' _).resolve_left h.ne_nil
  have hlast : (lexemes entry.toList).getLast? = some last := by
    rw [hlexemes, List.getLast?_concat]
  have htrim : last.trimEnd = last := by
    rw [← map_toLexeme_tokenize] at hlexemes
    obtain ⟨before, after, hsplit, -, hafter⟩ := List.map_eq_append_iff.1 hlexemes
    obtain ⟨token, rfl, rfl⟩ := List.map_eq_singleton_iff.1 hafter
    have hread : IsRead [token] := by
      have hwhole := isRead_tokenize entry
      rw [hsplit] at hwhole
      exact hwhole.of_append
    by_contra hne
    exact h.last_terminated _ hlast
      (hread.isUnterminated (h.last_significant _ hlast) hne)
  have hend : last.text.toList.rdropWhile Text.isBlank = last.text.toList := by
    have htext := congrArg (fun lexeme : Lexeme => lexeme.text.toList) htrim
    simpa [Lexeme.trimEnd] using htext
  have hne : last.text.toList ≠ [] := by
    rw [ne_eq, String.toList_eq_nil_iff]
    exact text_ne_empty_of_mem_lexemes (List.mem_of_getLast? hlast)
  have hchars := flatMap_toList_lexemes entry.toList
  rw [hlexemes, List.flatMap_append, List.flatMap_singleton] at hchars
  rw [← hchars, rdropWhile_append, hend, if_neg hne]

theorem trim_eq (h : IsEntry entry) : Text.trim entry = entry := by
  obtain ⟨c, cs, hchars, hc⟩ := h.head?_not_isBlank
  have hdrop : entry.toList.dropWhile Text.isBlank = entry.toList := by
    rw [hchars, List.dropWhile_cons_of_neg (by simp [hc])]
  rw [Text.trim, Text.trimBlanks_eq, hdrop, h.rdropWhile_eq, String.ofList_toList]

theorem parts_gap_append (h : IsEntry entry) {gap : List Lexeme}
    (hgap : gap = [] ∨ gap = [lineBreak]) :
    depth (unplaced (gap ++ lexemes entry.toList)) = 0 ∧
      parts (unplaced (gap ++ lexemes entry.toList)) =
        [unplaced (gap ++ lexemes entry.toList)] := by
  have hinner : ∀ token ∈ unplaced gap, token.IsInner := by
    rcases hgap with rfl | rfl
    · simp
    · simp [Lexeme.IsInner, lineBreak, Lexeme.opens, Lexeme.closes]
  have hdepth := depth_of_isInner hinner
  rw [unplaced_append]
  constructor
  · rw [depth_append _ hdepth, h.depth_eq]
  · apply parts_eq_singleton
    · exact (isUndivided_append_iff _ hdepth).2
        ⟨isUndivided_of_isInner hinner, h.isUndivided⟩
    · rw [List.any_append, Bool.or_eq_true]
      right
      rw [unplaced, List.any_map]
      exact h.any_significant

end IsEntry

/-! ## Written scripts -/

theorem lexemes_separator (cs : List Char) :
    lexemes (';' :: cs) = separator :: lexemes cs :=
  lexemes_cons_of_single cs (by decide) (by decide)

theorem lexemes_lineBreak_of_head? {cs : List Char}
    (h : ∀ c ∈ cs.head?, Text.isBlank c = false) :
    lexemes ('\n' :: cs) = lineBreak :: lexemes cs := by
  obtain ⟨htake, hdrop⟩ := Text.takeWhile_isBlank_eq_nil h
  rw [lexemes_cons_of_isBlank _ (by decide), htake, hdrop]
  rfl

private theorem lexemes_lineBreak {c : Char} (cs : List Char)
    (hc : Text.isBlank c = false) :
    lexemes ('\n' :: c :: cs) = lineBreak :: lexemes (c :: cs) := by
  apply lexemes_lineBreak_of_head?
  rintro d ⟨⟩
  exact hc

theorem written_nil : written [] = "" := by
  rw [written, List.map_nil, String.intercalate_nil]

/-- The lexemes of a written script are those of its first entry, a semicolon, and
those of the others after a line break. -/
theorem exists_lexemes_written_cons {entry : String} {entries : List String}
    (h : ∀ text ∈ entry :: entries, IsEntry text) :
    ∃ gap, (gap = [] ∨ gap = [lineBreak]) ∧
      lexemes (written (entry :: entries)).toList =
        lexemes entry.toList ++
          separator :: (gap ++ lexemes (written entries).toList) := by
  have hsealed := (h entry (List.mem_cons_self ..)).isSealed
  cases entries with
  | nil =>
    refine ⟨[], Or.inl rfl, ?_⟩
    have hchars : (written [entry]).toList = entry.toList ++ [';'] := by
      rw [written, List.map_singleton, String.intercalate_singleton,
        String.toList_append]
      rfl
    rw [hchars, hsealed [';'] (Text.isBreak_of_head?_eq rfl (by decide)),
      lexemes_separator, written_nil]
    rfl
  | cons next entries =>
    refine ⟨[lineBreak], Or.inr rfl, ?_⟩
    have hchars : (written (entry :: next :: entries)).toList =
        entry.toList ++ ';' :: '\n' :: (written (next :: entries)).toList := by
      simp [written, String.toList_append]
    obtain ⟨c, cs, hnext, hc⟩ :=
      (h next (List.mem_cons_of_mem entry (List.mem_cons_self ..))).head?_not_isBlank
    have hbegin : ∃ rest, (written (next :: entries)).toList = c :: rest := by
      rw [written, List.map_cons]
      cases entries with
      | nil => exact ⟨cs ++ [';'], by simp [hnext]⟩
      | cons other entries => exact ⟨_, by simp [hnext]; rfl⟩
    obtain ⟨rest, hrest⟩ := hbegin
    rw [hchars, hsealed _ (Text.isBreak_of_head?_eq rfl (by decide)),
      lexemes_separator, hrest, lexemes_lineBreak _ hc]
    rfl

private theorem parts_eq_nil_of_isTrivia {tokens : List Token}
    (h : ∀ token ∈ tokens, token.isTrivia = true) : parts tokens = [] := by
  apply List.eq_nil_iff_forall_not_mem.2
  intro part hpart
  apply significant_ne_nil_of_mem_parts hpart
  apply List.filter_eq_nil_iff.2
  intro token htoken
  simp [h token ((isInfix_of_mem_parts hpart).mem htoken)]

theorem forall₂_writes {entries : List String} (h : ∀ entry ∈ entries, IsEntry entry)
    {gap : List Lexeme} (hgap : gap = [] ∨ gap = [lineBreak]) :
    List.Forall₂ Writes (parts (unplaced (gap ++ lexemes (written entries).toList)))
      entries := by
  induction entries generalizing gap with
  | nil =>
    have hnone : parts (unplaced (gap ++ lexemes (written []).toList)) = [] := by
      apply parts_eq_nil_of_isTrivia
      rw [written_nil]
      rcases hgap with rfl | rfl
      · simp
      · simp [lineBreak, Lexeme.isTrivia, TokenKind.isTrivia]
    rw [hnone]
    exact List.Forall₂.nil
  | cons entry entries ih =>
    obtain ⟨later, hlater, hlexemes⟩ := exists_lexemes_written_cons h
    obtain ⟨hdepth, hparts⟩ := (h entry (List.mem_cons_self ..)).parts_gap_append hgap
    rw [hlexemes, ← List.append_assoc, unplaced_append, unplaced_cons,
      parts_append_cons _ hdepth rfl, hparts, List.singleton_append]
    apply List.Forall₂.cons
    · exact ⟨gap, hgap, map_toLexeme_unplaced _⟩
    · exact ih (fun text htext => h text (List.mem_cons_of_mem entry htext)) hlater

/-- A written script has one statement for each entry. -/
theorem forall₂_statements_written {entries : List String}
    (h : ∀ entry ∈ entries, IsEntry entry) :
    List.Forall₂ (fun statement entry => Writes statement.tokens entry)
      (statements (written entries)) entries := by
  have hparts := forall₂_writes h (Or.inl rfl)
  rw [List.nil_append, ← map_toLexeme_tokenize, ← Relayout.tokens_unplacing,
    Relayout.parts_tokens, List.forall₂_map_left_iff] at hparts
  rw [statements, ofTokens, List.forall₂_map_left_iff]
  refine hparts.imp fun part entry hwrites => ?_
  rw [Writes, Relayout.tokens_unplacing, map_toLexeme_unplaced] at hwrites
  rw [Statement.ofTokens, Statement.tokens_ofPassage]
  exact hwrites

end Script

end SqlOutline
