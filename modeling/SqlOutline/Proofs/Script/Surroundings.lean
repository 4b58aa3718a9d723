import SqlOutline.Proofs.Script.Junction
import SqlOutline.Proofs.Statement.Content

/-!
# A text inside another one

What is written around a text changes the places of its significant tokens, and
nothing else of them, as long as something ends the text before: a break if the text
is sealed, and a line break if the text leaves nothing open. Texts written one after
another are then read one after another.
-/

namespace SqlOutline

open Token

namespace Token

/-- The significant tokens of a text that begins on the given line and at the given
offset. -/
def significantAt (line start : Nat) (cs : List Char) : List Token :=
  significant (place line start (lexemes cs))

theorem significant_tokenize (text : String) :
    significant (tokenize text) = significantAt 0 0 text.toList := rfl

@[simp] theorem significantAt_nil (line start : Nat) :
    significantAt line start [] = [] := by
  rw [significantAt, lexemes_nil]
  rfl

theorem map_toLexeme_significantAt (line start : Nat) (cs : List Char) :
    (significantAt line start cs).map Token.toLexeme =
      (lexemes cs).filter fun lexeme => !lexeme.isTrivia := by
  rw [significantAt, Script.map_toLexeme_significant_eq, map_toLexeme_place]

theorem words_tokenize_eq_map (text : String) (line start : Nat) :
    words (tokenize text) =
      (significantAt line start text.toList).map Token.toLexeme := by
  rw [Script.words_tokenize, map_toLexeme_significantAt]

theorem significantAt_add (lines offset line start : Nat) (cs : List Char) :
    significantAt (line + lines) (start + offset) cs =
      (significantAt line start cs).map (Token.moved lines offset) := by
  rw [significantAt, place_moved, significantAt, significant, significant,
    List.filter_map]
  rfl

theorem significantAt_eq_map_moved (line start : Nat) (cs : List Char) :
    significantAt line start cs =
      (significantAt 0 0 cs).map (Token.moved line start) := by
  rw [← significantAt_add, Nat.zero_add, Nat.zero_add]

theorem significant_place_of_isBlank {ls : List Lexeme} (line start : Nat)
    (h : ∀ lexeme ∈ ls, lexeme.IsBlank) : significant (place line start ls) = [] := by
  rw [significant, List.filter_eq_nil_iff]
  intro token htoken
  simp [(Script.allBlank_place line start h token htoken).isTrivia]

theorem significantAt_append {cs rest : List Char} (line start : Nat)
    (h : lexemes (cs ++ rest) = lexemes cs ++ lexemes rest) :
    significantAt line start (cs ++ rest) =
      significantAt line start cs ++
        significantAt (line + cs.count '\n') (start + cs.length) rest := by
  rw [significantAt, h, place_append, significant_append, flatMap_toList_lexemes]
  rfl

theorem Sealed.significantAt_append {cs rest : List Char} (h : Sealed cs)
    (line start : Nat) (hrest : ∀ c ∈ rest.head?, Text.isBreak c = true) :
    significantAt line start (cs ++ rest) =
      significantAt line start cs ++
        significantAt (line + cs.count '\n') (start + cs.length) rest :=
  Token.significantAt_append line start (h rest hrest)

theorem significantAt_cons_of_isBlank {b : Char} (hb : Text.isBlank b = true)
    (line start : Nat) (cs : List Char) :
    significantAt line start (b :: cs) =
      significantAt (line + [b].count '\n') (start + 1) cs := by
  obtain ⟨blanks, blanks', kept, hcs, hread, hblanks, hblanks'⟩ :=
    Script.exists_lexemes_blank_append hb cs
  have hchars := flatMap_toList_lexemes (b :: cs)
  rw [hread, ← flatMap_toList_lexemes cs, hcs, List.flatMap_append,
    List.flatMap_append, ← List.cons_append] at hchars
  have hbefore := List.append_cancel_right hchars
  rw [significantAt, hread, place_append, significant_append,
    significant_place_of_isBlank _ _ hblanks', hbefore, significantAt, hcs,
    place_append, significant_append, significant_place_of_isBlank _ _ hblanks,
    ← List.singleton_append, List.count_append, List.length_append, ← Nat.add_assoc,
    ← Nat.add_assoc]
  rfl

theorem significantAt_space_cons (line start : Nat) (cs : List Char) :
    significantAt line start (' ' :: cs) = significantAt line (start + 1) cs :=
  significantAt_cons_of_isBlank (by decide) line start cs

/-- A keyword at the end of a text seals it. -/
theorem sealed_of_keyword? {cs : List Char} {ls : List Lexeme} {last : Lexeme}
    (h : lexemes cs = ls ++ [last]) (hkeyword : last.keyword?.isSome = true) :
    Sealed cs := by
  refine sealed_of_lexemes_eq h (Lexeme.isTrivia_of_keyword? hkeyword) ?_
  rw [Lexeme.keyword?] at hkeyword
  cases hkind : last.kind with
  | keyword keyword =>
    rw [Lexeme.isQuoted, hkind]
    rfl
  | _ =>
    rw [hkind] at hkeyword
    exact Bool.noConfusion hkeyword

end Token

namespace Script

/-- Behind a text that leaves nothing open, and a line break, a text is read as it is
alone. -/
theorem IsComplete.significantAt_append {text : String} (h : IsComplete text)
    (line start : Nat) {rest : List Char}
    (hrest : ∀ c ∈ rest.head?, Text.isBlank c = false) :
    significantAt line start (text.toList ++ '\n' :: rest) =
      significantAt line start text.toList ++ significantAt
          (line + lineBreaks text + 1) (start + text.length + 1) rest := by
  obtain ⟨kept, blanks, blanks', hkept, hread, hblanks, hblanks'⟩ :=
    exists_lexemes_append_lineBreak_of_head? h.forall_mem_lexemes
  have hchars : (kept ++ blanks').flatMap (fun lexeme => lexeme.text.toList) =
      text.toList ++ ['\n'] := by
    have hwhole := flatMap_toList_lexemes (text.toList ++ '\n' :: rest)
    rw [hread rest hrest, ← List.append_assoc, List.flatMap_append,
      flatMap_toList_lexemes, List.append_cons text.toList] at hwhole
    exact List.append_cancel_right hwhole
  rw [significantAt, hread rest hrest, ← List.append_assoc, place_append, hchars,
    significantAt, significantAt, hkept]
  simp only [place_append, significant_append,
    significant_place_of_isBlank _ _ hblanks,
    significant_place_of_isBlank _ _ hblanks', List.append_nil, List.count_append,
    List.length_append, String.length_toList, ← Nat.add_assoc]
  rfl

/-! ## Parentheses -/

def wrapperOpening : Lexeme :=
  ⟨.parenOpen, "("⟩

def wrapperClosing : Lexeme :=
  ⟨.parenClose, ")"⟩

theorem lexemes_parenOpen (cs : List Char) :
    lexemes ('(' :: cs) = wrapperOpening :: lexemes cs :=
  lexemes_cons_of_single cs (by decide) (by decide)

theorem lexemes_parenClose (cs : List Char) :
    lexemes (')' :: cs) = wrapperClosing :: lexemes cs :=
  lexemes_cons_of_single cs (by decide) (by decide)

theorem significantAt_parenOpen (line start : Nat) (cs : List Char) :
    significantAt line start ('(' :: cs) =
      ⟨wrapperOpening, line, start, start + 1⟩ ::
        significantAt line (start + 1) cs := by
  rw [significantAt, lexemes_parenOpen, place, significant_cons _ rfl]
  rfl

theorem significantAt_parenClose (line start : Nat) :
    significantAt line start [')'] = [⟨wrapperClosing, line, start, start + 1⟩] := by
  rw [significantAt, lexemes_parenClose, lexemes_nil]
  rfl

end Script

end SqlOutline
