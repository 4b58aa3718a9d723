import SqlOutline.Proofs.Layout.Analysis
import SqlOutline.Proofs.Script.Closed

/-!
# Statements by their significant lexemes

The significant lexemes of a statement, without their places, decide what kind of
statement it is, how it is bounded and whether it combines queries. Where only that is
asked, white space can be left out.
-/

namespace SqlOutline

open Token

namespace Relayout

/-- The layout of the significant tokens alone, all at one place. -/
def stripping : Relayout where
  keeps token := !token.isTrivia
  line _ := 0
  start _ := 0
  stop _ := 0
  keeps_of_isTrivia := Token.not_isTrivia_eq_true

instance : stripping.Verbatim :=
  ⟨fun _ => rfl⟩

theorem tokens_stripping (tokens : List Token) :
    stripping.tokens tokens = unplaced ((significant tokens).map Token.toLexeme) := by
  rw [unplaced, List.map_map]
  rfl

end Relayout

/-- What is the same in the layout of significant tokens is the same for tokens with
the same significant lexemes. -/
theorem Statement.eq_of_significant_eq {β : Type} {F : Statement → β}
    {first second : List Token}
    (hF : ∀ statement, F (Relayout.stripping.statement statement) = F statement)
    (h : (significant first).map Token.toLexeme =
      (significant second).map Token.toLexeme) :
    F (ofTokens first) = F (ofTokens second) := by
  have hlayout : ∀ tokens, F (ofTokens tokens) =
      F (ofTokens (Relayout.stripping.tokens tokens)) := by
    intro tokens
    have hstatement : ofTokens (Relayout.stripping.tokens tokens) =
        Relayout.stripping.statement (ofTokens tokens) :=
      Relayout.ofPassage_passage Relayout.stripping nestingLimit ⟨false, tokens⟩
    rw [hstatement, hF]
  rw [hlayout, hlayout second, Relayout.tokens_stripping, Relayout.tokens_stripping,
    h]

/-- What is read off a statement is read off its significant lexemes alone. -/
theorem Statement.eq_unplaced {β : Type} {F : Statement → β} {tokens : List Token}
    {ls : List Lexeme}
    (hF : ∀ statement, F (Relayout.stripping.statement statement) = F statement)
    (h : (significant tokens).map Token.toLexeme = ls) :
    F (ofTokens tokens) = F (ofTokens (unplaced ls)) := by
  apply eq_of_significant_eq hF
  rw [Script.map_toLexeme_significant_eq (unplaced ls), map_toLexeme_unplaced, ← h,
    Script.map_toLexeme_significant_eq, List.filter_filter]
  simp

/-- The lexemes of the significant tokens. -/
def words (tokens : List Token) : List Lexeme :=
  (significant tokens).map Token.toLexeme

theorem words_append (first second : List Token) :
    words (first ++ second) = words first ++ words second := by
  rw [words, significant_append, List.map_append]
  rfl

theorem words_cons {token : Token} (tokens : List Token)
    (h : token.isTrivia = false) :
    words (token :: tokens) = token.toLexeme :: words tokens := by
  rw [words, significant_cons tokens h, List.map_cons]
  rfl

theorem words_of_isTrivia {tokens : List Token}
    (h : ∀ token ∈ tokens, token.isTrivia = true) : words tokens = [] := by
  rw [words, List.map_eq_nil_iff, significant, List.filter_eq_nil_iff]
  exact fun token htoken => by simp [h token htoken]

theorem Relayout.tokens_stripping_eq_unplaced_words (tokens : List Token) :
    stripping.tokens tokens = unplaced (words tokens) :=
  tokens_stripping tokens

theorem Statement.eq_unplaced_words {β : Type} {F : Statement → β}
    (hF : ∀ statement, F (Relayout.stripping.statement statement) = F statement)
    (tokens : List Token) :
    F (ofTokens (unplaced (words tokens))) = F (ofTokens tokens) :=
  (eq_unplaced hF rfl).symm

namespace Script

theorem words_tokenize (text : String) :
    words (tokenize text) =
      (lexemes text.toList).filter fun lexeme => !lexeme.isTrivia := by
  rw [words, map_toLexeme_significant_eq, map_toLexeme_tokenize]

variable {text : String} {statement : Statement} {β : Type} {F : Statement → β}

/-- What has the significant lexemes of a statement of a script is read as the
statement is. -/
theorem eq_of_significant_eq (h : statement ∈ statements text)
    (hF : ∀ statement, F (Relayout.stripping.statement statement) = F statement)
    {tokens : List Token}
    (hsame : (significant tokens).map Token.toLexeme =
      (significant statement.tokens).map Token.toLexeme) :
    F (Statement.ofTokens tokens) = F statement := by
  rw [Statement.eq_of_significant_eq hF hsame, Statement.ofTokens_tokens h]

/-- The plain text of a statement of a closed script is read as the statement is. -/
theorem IsClosed.eq_plainText (hclosed : IsClosed text)
    (h : statement ∈ statements text)
    (hF : ∀ statement, F (Relayout.stripping.statement statement) = F statement) :
    F (Statement.ofTokens (tokenize statement.plainText)) = F statement :=
  eq_of_significant_eq h hF (hclosed.significant_tokenize_plainText h)

end Script

end SqlOutline
