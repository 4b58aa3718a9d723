import SqlOutline.Proofs.Script.Surroundings
import SqlOutline.Proofs.Token.Count

/-!
# Words with spaces between them

A text of words, each but a comma behind a space, is read as those words
(`filter_lexemes_spelled`).
-/

namespace SqlOutline

open Token

structure Lexeme.IsDelimited (lexeme : Lexeme) : Prop where
  reads : ∀ rest : List Char, (∀ c ∈ rest.head?, c = ' ' ∨ c = ',') →
    lexemes (lexeme.text.toList ++ rest) = lexeme :: lexemes rest
  isTrivia_eq_false : lexeme.isTrivia = false
  text_of_comma : lexeme.kind = .comma → lexeme.text = ","

namespace Lexeme

theorem isDelimited_comma : IsDelimited ⟨.comma, ","⟩ where
  reads rest _ := lexemes_cons_of_single rest (by decide) (by decide)
  isTrivia_eq_false := rfl
  text_of_comma _ := rfl

theorem isDelimited_number {digits : List Char} (hne : digits ≠ [])
    (hdigits : ∀ c ∈ digits, c.isDigit = true) :
    IsDelimited ⟨.number, String.ofList digits⟩ where
  reads rest hrest := by
    have hdigit : ∀ c ∈ rest.head?, c.isDigit = false := by
      intro c hc
      rcases hrest c hc with rfl | rfl <;> decide
    have htail : tailLength rest = 0 := by
      cases rest with
      | nil => rfl
      | cons c rest =>
        have hfraction : fractionLength (c :: rest) = 0 := by
          rw [fractionLength_cons_eq_zero_iff]
          rintro rfl
          simp at hrest
        have hexponent : exponentLength (c :: rest) = 0 := by
          rw [exponentLength_cons_eq_zero_iff]
          rintro (rfl | rfl) <;> simp at hrest
        rw [tailLength, hfraction, List.drop_zero, hexponent]
    rw [String.toList_ofList, lexemes_digits_append hne hdigits hdigit, htail,
      List.take_zero, List.append_nil, List.drop_zero]
  isTrivia_eq_false := rfl
  text_of_comma hkind := TokenKind.noConfusion hkind

/-- Whether the lexeme is a word, as its first character tells without the second. -/
def isBareWord (lexeme : Lexeme) : Bool :=
  match lexeme.text.toList with
  | [] => false
  | c :: cs =>
    Form.ofChars c none == .word && Form.leadPairs.all (·.1 != c) &&
      cs.all continuesWord && lexeme.kind == Form.word.kind (c :: cs)

theorem exists_chars_of_isBareWord {lexeme : Lexeme} (h : lexeme.isBareWord = true) :
    ∃ c cs, lexeme = ⟨Form.word.kind (c :: cs), String.ofList (c :: cs)⟩ ∧
      Form.ofChars c none = .word ∧ (∀ lead ∈ Form.leadPairs, lead.1 ≠ c) ∧
      ∀ d ∈ cs, continuesWord d = true := by
  rw [isBareWord] at h
  cases hchars : lexeme.text.toList with
  | nil => simp [hchars] at h
  | cons c cs =>
    simp only [hchars, Bool.and_eq_true, beq_iff_eq, List.all_eq_true,
      bne_iff_ne] at h
    obtain ⟨⟨⟨hform, hlead⟩, hcs⟩, hkind⟩ := h
    have hlexeme : lexeme = ⟨Form.word.kind (c :: cs), String.ofList (c :: cs)⟩ := by
      rw [← hkind, ← hchars, String.ofList_toList]
    exact ⟨c, cs, hlexeme, hform, hlead, hcs⟩

theorem exists_toList_of_isBareWord {lexeme : Lexeme} (h : lexeme.isBareWord = true) :
    ∃ c cs, lexeme.text.toList = c :: cs ∧ Text.isBlank c = false := by
  obtain ⟨c, cs, rfl, hform, -⟩ := exists_chars_of_isBareWord h
  refine ⟨c, cs, String.toList_ofList, ?_⟩
  by_contra hblank
  rw [Form.ofChars, if_pos (by simpa using hblank)] at hform
  exact Form.noConfusion hform

theorem lexemes_append_of_isBareWord {lexeme : Lexeme} (h : lexeme.isBareWord = true)
    {rest : List Char} (hrest : ∀ c ∈ rest.head?, continuesWord c = false) :
    lexemes (lexeme.text.toList ++ rest) = lexeme :: lexemes rest := by
  obtain ⟨c, cs, rfl, hform, hlead, hcs⟩ := exists_chars_of_isBareWord h
  rw [String.toList_ofList]
  exact lexemes_cons_append (Form.ofChars_eq_of_alone hform hlead _)
    (runLength_append_of_all hcs hrest)

theorem isDelimited_of_isBareWord {lexeme : Lexeme} (h : lexeme.isBareWord = true) :
    lexeme.IsDelimited where
  reads rest hrest := by
    apply lexemes_append_of_isBareWord h
    intro c hc
    rcases hrest c hc with rfl | rfl <;> decide +kernel
  isTrivia_eq_false := by
    obtain ⟨c, cs, rfl, -⟩ := exists_chars_of_isBareWord h
    rw [isTrivia, Form.kind, Form.wordKind]
    split <;> rfl
  text_of_comma := by
    obtain ⟨c, cs, rfl, -⟩ := exists_chars_of_isBareWord h
    rw [Form.kind, Form.wordKind]
    split <;> simp

end Lexeme

namespace Token

def follow (word : Lexeme) : List Char :=
  if word.kind = .comma then word.text.toList else ' ' :: word.text.toList

def spelled : List Lexeme → List Char
  | [] => []
  | word :: words => word.text.toList ++ words.flatMap follow

theorem filter_lexemes_space_cons (cs : List Char) :
    ((lexemes (' ' :: cs)).filter fun lexeme => !lexeme.isTrivia) =
      (lexemes cs).filter fun lexeme => !lexeme.isTrivia := by
  rw [← map_toLexeme_significantAt 0 0, significantAt_space_cons,
    map_toLexeme_significantAt]

section Spelled

variable {words : List Lexeme} (h : ∀ word ∈ words, word.IsDelimited)

include h

theorem head?_flatMap_follow :
    ∀ c ∈ (words.flatMap follow).head?, c = ' ' ∨ c = ',' := by
  cases words with
  | nil => simp
  | cons word words =>
    intro c hc
    rw [List.flatMap_cons, follow] at hc
    split at hc
    · next hkind =>
      rw [(h word (List.mem_cons_self ..)).text_of_comma hkind] at hc
      exact Or.inr (Option.some.inj hc).symm
    · exact Or.inl (Option.some.inj hc).symm

/-- The significant lexemes of words with spaces between them are the words. -/
theorem filter_lexemes_spelled :
    ((lexemes (spelled words)).filter fun lexeme => !lexeme.isTrivia) = words := by
  cases words with
  | nil => simp [spelled]
  | cons word words =>
    rw [spelled]
    induction words generalizing word with
    | nil =>
      have hword := h word (List.mem_cons_self ..)
      rw [hword.reads _ (by simp),
        List.filter_cons_of_pos (by rw [hword.isTrivia_eq_false]; rfl)]
      simp
    | cons next words ih =>
      have hword := h word (List.mem_cons_self ..)
      have hmore := List.forall_mem_of_forall_mem_cons h
      have hnext := ih next hmore
      rw [hword.reads _ (head?_flatMap_follow hmore),
        List.filter_cons_of_pos (by rw [hword.isTrivia_eq_false]; rfl),
        List.flatMap_cons, follow]
      split
      · rw [hnext]
      · rw [List.cons_append, filter_lexemes_space_cons, hnext]

end Spelled

end Token

end SqlOutline
