import SqlOutline.Proofs.Layout.Analysis
import SqlOutline.Proofs.Script.Separation
import SqlOutline.Proofs.Token.Solid

/-!
# The bare layout

White space and comments left out, all tokens at one place, and the blanks dropped
that a literal, a template or a name between backquotes ends in. What is read off a
statement without regard to the names of tables is the same for any two token lists
with one bare layout.
-/

namespace SqlOutline

namespace Lexeme

def trimQuoted (lexeme : Lexeme) : Lexeme :=
  if lexeme.isQuoted then lexeme.trimEnd else lexeme

@[simp] theorem kind_trimQuoted (lexeme : Lexeme) :
    lexeme.trimQuoted.kind = lexeme.kind := by
  rw [trimQuoted]
  split <;> rfl

theorem isQuoted_of_isUnterminated {lexeme : Lexeme} (h : lexeme.IsUnterminated) :
    lexeme.isQuoted = true := by
  rw [isQuoted, Bool.or_eq_true, Bool.or_eq_true, Bool.and_eq_true, beq_iff_eq,
    beq_iff_eq, beq_iff_eq, beq_iff_eq, or_assoc]
  exact h.1

theorem not_isUnterminated {lexeme : Lexeme} (h : lexeme.isQuoted = false) :
    ¬ lexeme.IsUnterminated := by
  intro hunterminated
  rw [isQuoted_of_isUnterminated hunterminated] at h
  exact Bool.noConfusion h

@[simp] theorem trimEnd_trimEnd (lexeme : Lexeme) :
    lexeme.trimEnd.trimEnd = lexeme.trimEnd := by
  rw [trimEnd, trimEnd, String.toList_ofList, List.rdropWhile_idempotent]

@[simp] theorem isQuoted_trimEnd (lexeme : Lexeme) :
    lexeme.trimEnd.isQuoted = lexeme.isQuoted := by
  have hhead : (lexeme.text.toList.rdropWhile Text.isBlank).head? = some backquote ↔
      lexeme.text.toList.head? = some backquote := by
    cases hchars : lexeme.text.toList with
    | nil => simp
    | cons c cs =>
      by_cases hc : Text.isBlank c = true
      · have hne : c ≠ backquote := Text.ne_of_isBlank hc (by decide)
        by_cases hnil : (c :: cs).rdropWhile Text.isBlank = []
        · rw [hnil]
          simp [hne]
        · rw [Token.head?_rdropWhile hnil]
      · rw [Token.rdropWhile_cons_of_neg cs (by simpa using hc), List.head?_cons,
          List.head?_cons]
  rw [isQuoted, isQuoted, trimEnd, String.toList_ofList, Bool.eq_iff_iff]
  simp only [Bool.or_eq_true, Bool.and_eq_true, beq_iff_eq, hhead]

@[simp] theorem isQuoted_trimQuoted (lexeme : Lexeme) :
    lexeme.trimQuoted.isQuoted = lexeme.isQuoted := by
  rw [trimQuoted]
  split
  · exact lexeme.isQuoted_trimEnd
  · rfl

theorem trimQuoted_trimEnd (lexeme : Lexeme)
    (h : lexeme.trimEnd ≠ lexeme → lexeme.IsUnterminated) :
    lexeme.trimEnd.trimQuoted = lexeme.trimQuoted := by
  by_cases htrim : lexeme.trimEnd = lexeme
  · rw [htrim]
  · have hquoted := isQuoted_of_isUnterminated (h htrim)
    rw [trimQuoted, trimQuoted, isQuoted_trimEnd, if_pos hquoted, if_pos hquoted,
      trimEnd_trimEnd]

end Lexeme

namespace Relayout

def bare : Relayout where
  keeps token := !token.isTrivia
  text token := token.trimQuoted.text
  line _ := 0
  start _ := 0
  stop _ := 0
  keeps_of_isTrivia := Token.not_isTrivia_eq_true

theorem toLexeme_token_bare (token : Token) :
    (bare.token token).toLexeme = token.trimQuoted := by
  have hkind := token.kind_trimQuoted
  calc
    (bare.token token).toLexeme = ⟨token.kind, token.trimQuoted.text⟩ := rfl
    _ = token.trimQuoted := by rw [← hkind]

instance : bare.KeepsWords where
  isQuoted_token token := by rw [toLexeme_token_bare, Lexeme.isQuoted_trimQuoted]
  text_eq token h := by
    have htrim : token.trimQuoted = token.toLexeme := by simp [Lexeme.trimQuoted, h]
    exact congrArg Lexeme.text htrim

theorem tokens_bare (tokens : List Token) :
    bare.tokens tokens =
      ((significant tokens).map Token.toLexeme).map fun lexeme =>
        ⟨lexeme.trimQuoted, 0, 0, 0⟩ := by
  rw [List.map_map]
  apply List.map_congr_left
  intro token _
  calc
    bare.token token = ⟨(bare.token token).toLexeme, 0, 0, 0⟩ := rfl
    _ = ⟨token.trimQuoted, 0, 0, 0⟩ := by rw [toLexeme_token_bare]

theorem map_ofTokens_eq (ρ : Relayout) {β : Type} {F : Statement → β}
    {first second : List Token}
    (hF : ∀ statement, F (ρ.statement statement) = F statement)
    (h : ρ.tokens first = ρ.tokens second) :
    (Script.ofTokens first).map F = (Script.ofTokens second).map F := by
  have hlayout : ∀ tokens, (Script.ofTokens tokens).map F =
      (Script.ofTokens (ρ.tokens tokens)).map F := by
    intro tokens
    rw [ofTokens_script, List.map_map]
    exact List.map_congr_left fun statement _ => (hF statement).symm
  rw [hlayout, hlayout second, h]

end Relayout

end SqlOutline
