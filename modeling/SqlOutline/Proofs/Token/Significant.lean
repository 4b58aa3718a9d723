import SqlOutline.Piece

/-!
# Significant tokens

White space and comments are what has no meaning. All other tokens are significant.
-/

namespace SqlOutline

namespace Lexeme

theorem isTrivia_of_isComment {lexeme : Lexeme} (h : lexeme.isComment = true) :
    lexeme.isTrivia = true := by
  rw [isTrivia, TokenKind.isTrivia_eq_or, ← isComment, h, Bool.or_true]

theorem isTrivia_of_whitespace {lexeme : Lexeme} (h : lexeme.kind = .whitespace) :
    lexeme.isTrivia = true := by
  rw [isTrivia, h]
  rfl

theorem isTrivia_of_keyword? {lexeme : Lexeme} (h : lexeme.keyword?.isSome = true) :
    lexeme.isTrivia = false := by
  cases hkind : lexeme.kind <;>
    simp_all [keyword?, TokenKind.keyword?, isTrivia, TokenKind.isTrivia]

theorem opens_of_keyword? {lexeme : Lexeme} (h : lexeme.keyword?.isSome = true) :
    lexeme.opens = false := by
  cases hkind : lexeme.kind <;> simp_all [keyword?, TokenKind.keyword?, opens]

theorem isTrivia_of_isIdentifier {lexeme : Lexeme} (h : lexeme.isIdentifier = true) :
    lexeme.isTrivia = false := by
  rw [isIdentifier, beq_iff_eq] at h
  rw [isTrivia, h]
  rfl

theorem opens_of_isIdentifier {lexeme : Lexeme} (h : lexeme.isIdentifier = true) :
    lexeme.opens = false := by
  rw [isIdentifier, beq_iff_eq] at h
  rw [opens, h]
  rfl

theorem keyword?_of_isIdentifier {lexeme : Lexeme} (h : lexeme.isIdentifier = true) :
    lexeme.keyword? = none := by
  rw [isIdentifier, beq_iff_eq] at h
  rw [keyword?, h]
  rfl

theorem isKeyword_of_isIdentifier {lexeme : Lexeme} (h : lexeme.isIdentifier = true)
    (keyword : Keyword) : lexeme.isKeyword keyword = false := by
  rw [isIdentifier, beq_iff_eq] at h
  rw [isKeyword, h]
  rfl

theorem isTrivia_of_isKeyword {keyword : Keyword} (lexeme : Lexeme)
    (h : lexeme.isKeyword keyword = true) : lexeme.isTrivia = false := by
  rw [isKeyword, beq_iff_eq] at h
  rw [isTrivia, h]
  rfl

theorem isKeyword_iff {lexeme : Lexeme} {keyword : Keyword} :
    lexeme.isKeyword keyword = true ↔ lexeme.keyword? = some keyword := by
  cases hkind : lexeme.kind <;>
    simp [isKeyword, Lexeme.keyword?, TokenKind.keyword?, hkind]

theorem isTrivia_of_opens {lexeme : Lexeme} (h : lexeme.opens = true) :
    lexeme.isTrivia = false := by
  rw [opens, beq_iff_eq] at h
  rw [isTrivia, h]
  rfl

theorem isTrivia_of_closes {lexeme : Lexeme} (h : lexeme.closes = true) :
    lexeme.isTrivia = false := by
  rw [closes, beq_iff_eq] at h
  rw [isTrivia, h]
  rfl

theorem isTrivia_eq_false_iff {lexeme : Lexeme} :
    lexeme.isTrivia = false ↔
      lexeme.kind ≠ .whitespace ∧ lexeme.isComment = false := by
  rw [isTrivia, TokenKind.isTrivia_eq_or, isComment]
  simp

end Lexeme

@[simp] theorem significant_nil : significant [] = [] := rfl

theorem significant_cons_of_isTrivia {token : Token} (tokens : List Token)
    (h : token.isTrivia = true) :
    significant (token :: tokens) = significant tokens := by
  simp [significant, h]

theorem significant_cons {token : Token} (tokens : List Token)
    (h : token.isTrivia = false) :
    significant (token :: tokens) = token :: significant tokens := by
  simp [significant, h]

theorem significant_append (first second : List Token) :
    significant (first ++ second) = significant first ++ significant second :=
  List.filter_append ..

theorem mem_significant {token : Token} {tokens : List Token} :
    token ∈ significant tokens ↔ token ∈ tokens ∧ token.isTrivia = false := by
  simp [significant]

end SqlOutline
