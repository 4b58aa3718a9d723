import SqlOutline.Bound.RowBound
import SqlOutline.Proofs.Statement.Outside

/-!
# Bounds and what stands outside parentheses

A bound is read off the first tokens of a clause, and a `(` among these ends the
reading, except after `TOP`. So a subquery or a list of arguments, whatever it holds,
does not change the bound of the query around it (`rowBound_eq_of_shell_eq`).
-/

namespace SqlOutline

/-! ## An opening parenthesis -/

namespace Lexeme

variable {lexeme : Lexeme} (h : lexeme.opens = true)

include h

theorem kind_of_opens : lexeme.kind = .parenOpen :=
  beq_iff_eq.1 h

theorem isKeyword_of_opens (keyword : Keyword) :
    lexeme.isKeyword keyword = false := by
  rw [isKeyword, kind_of_opens h]
  rfl

theorem isWord_of_opens (word : String) : lexeme.isWord word = false := by
  simp [isWord, isNamePart, isIdentifier, keyword?, TokenKind.keyword?,
    kind_of_opens h]

end Lexeme

/-! ## Bodies up to a parenthesis -/

/-- Bodies that agree up to the first `(`, with no `(` behind `TOP`. -/
inductive BeginAlike : List Token → List Token → Prop
  | nil : BeginAlike [] []
  | opens {opening opening' : Token} (tokens tokens' : List Token)
      (hopens : opening.opens = true) (hopens' : opening'.opens = true) :
      BeginAlike (opening :: tokens) (opening' :: tokens')
  | cons {token token' : Token} {tokens tokens' : List Token}
      (htoken : token.toLexeme = token'.toLexeme)
      (htop : token.isWord "top" = true → tokens.head?.any (·.opens) = false)
      (hrest : BeginAlike tokens tokens') :
      BeginAlike (token :: tokens) (token' :: tokens')

namespace Piece.AlikeOutside

variable {previous : Option Lexeme} {pieces pieces' : List Piece}

theorem head?_opens_eq_false (h : AlikeOutside previous pieces pieces')
    (htop : previous.any (·.isWord "top") = true) :
    (SqlOutline.significant (pieces.flatMap tokens)).head?.any (·.opens) = false := by
  induction h with
  | nil => rfl
  | @single previous token _ pieces _ hopens _ _ ih =>
    rw [List.flatMap_cons, tokens, List.singleton_append]
    by_cases htrivia : token.isTrivia = true
    · rw [significant_cons_of_isTrivia _ htrivia]
      exact ih (by rwa [if_pos htrivia])
    · rw [significant_cons _ (by simpa using htrivia), List.head?_cons,
        Option.any_some, hopens]
  | group _ _ _ _ hnone =>
    rw [htop] at hnone
    exact Bool.noConfusion hnone

theorem beginAlike (h : AlikeOutside previous pieces pieces') :
    BeginAlike (SqlOutline.significant (pieces.flatMap tokens))
      (SqlOutline.significant (pieces'.flatMap tokens)) := by
  induction h with
  | nil => exact .nil
  | @single previous token token' pieces pieces' hopens htoken hrest ih =>
    rw [List.flatMap_cons, List.flatMap_cons, tokens, tokens, List.singleton_append,
      List.singleton_append]
    by_cases htrivia : token.isTrivia = true
    · have htrivia' : token'.isTrivia = true := by rwa [← htoken]
      rwa [significant_cons_of_isTrivia _ htrivia,
        significant_cons_of_isTrivia _ htrivia']
    · have htrivia' : token'.isTrivia = false := by simpa [← htoken] using htrivia
      rw [significant_cons _ (by simpa using htrivia), significant_cons _ htrivia']
      rw [if_neg htrivia] at hrest
      exact .cons htoken hrest.head?_opens_eq_false ih
  | @group _ opening opening' _ _ _ _ _ _ hopens hopening hclosing hexcept htop hrest
      ih =>
    have hopens' : opening'.opens = true := by rwa [← hopening]
    rw [List.flatMap_cons, List.flatMap_cons, tokens, tokens, List.cons_append,
      List.cons_append, List.cons_append, List.cons_append,
      significant_cons _ (Lexeme.isTrivia_of_opens hopens),
      significant_cons _ (Lexeme.isTrivia_of_opens hopens')]
    exact .opens _ _ hopens hopens'

end Piece.AlikeOutside

theorem BeginAlike.dropWhile_quantifiers {body body' : List Token}
    (h : BeginAlike body body') :
    BeginAlike
      (body.dropWhile fun token => token.isKeyword .distinct || token.isKeyword .all)
      (body'.dropWhile fun token =>
        token.isKeyword .distinct || token.isKeyword .all) := by
  induction h with
  | nil => exact .nil
  | opens tokens tokens' hopens hopens' =>
    rw [List.dropWhile_cons_of_neg (by simp [Lexeme.isKeyword_of_opens hopens]),
      List.dropWhile_cons_of_neg (by simp [Lexeme.isKeyword_of_opens hopens'])]
    exact .opens tokens tokens' hopens hopens'
  | cons htoken htop hrest ih =>
    rw [List.dropWhile_cons, List.dropWhile_cons, ← htoken]
    split
    · exact ih
    · exact .cons htoken htop hrest

namespace RowBound

/-! ## Bounds before a parenthesis -/

section Lexemes

variable {token token' : Token} (h : token.toLexeme = token'.toLexeme)

include h

theorem literal?_eq_of_toLexeme : literal? token = literal? token' := by
  rw [literal?, h, literal?]

theorem ofToken_eq_of_toLexeme : ofToken token = ofToken token' := by
  rw [ofToken, literal?_eq_of_toLexeme h, ofToken]

end Lexemes

section Opening

variable {opening : Token} (h : opening.opens = true)

include h

theorem literal?_of_opens : literal? opening = none := by
  simp [literal?, Lexeme.kind_of_opens h]

theorem ofToken_of_opens : ofToken opening = .computed := by
  rw [ofToken, literal?_of_opens h]

theorem ofCount_of_opens (more : List Token) : ofCount opening more = .computed := by
  rw [ofCount, literal?_of_opens h]

theorem ofLimit_of_opens (tokens : List Token) :
    ofLimit (opening :: tokens) = .computed := by
  match tokens with
  | [] => exact ofToken_of_opens h
  | [second] => simp [ofLimit, ofToken_of_opens h]
  | second :: count :: more =>
    simp [ofLimit, ofToken_of_opens h, Lexeme.kind_of_opens h]

theorem ofFetch_of_opens (tokens : List Token) :
    ofFetch (opening :: tokens) = .computed := by
  cases tokens with
  | nil => rfl
  | cons count more => simp [ofFetch, Lexeme.isWord_of_opens h]

end Opening

variable {body body' : List Token}

theorem ofLimit_eq (h : BeginAlike body body') : ofLimit body = ofLimit body' := by
  cases h with
  | nil => rfl
  | opens tokens tokens' hopens hopens' =>
    rw [ofLimit_of_opens hopens, ofLimit_of_opens hopens']
  | cons hfirst htop hrest =>
    have hcount := ofToken_eq_of_toLexeme hfirst
    cases hrest with
    | nil => exact hcount
    | opens tokens tokens' hopens hopens' =>
      simp [ofLimit, Lexeme.kind_of_opens, Lexeme.isKeyword_of_opens,
        Lexeme.isWord_of_opens, hopens, hopens']
    | cons hsecond _ hmore =>
      cases hmore with
      | nil => simp only [ofLimit, hcount, hsecond]
      | opens _ _ hopens hopens' =>
        simp only [ofLimit, hcount, hfirst, hsecond, ofToken_of_opens hopens,
          ofToken_of_opens hopens']
      | cons hthird =>
        simp only [ofLimit, hcount, hfirst, hsecond, ofToken_eq_of_toLexeme hthird]

theorem ofCount_eq_of_toLexeme {count count' : Token}
    (hcount : count.toLexeme = count'.toLexeme) (h : BeginAlike body body') :
    ofCount count body = ofCount count' body' := by
  have hpercent : body.head?.any (·.isWord "percent") =
      body'.head?.any (·.isWord "percent") := by
    cases h with
    | nil => rfl
    | opens tokens tokens' hopens hopens' =>
      simp [Lexeme.isWord_of_opens hopens, Lexeme.isWord_of_opens hopens']
    | cons htoken htop hrest => simp [htoken]
  rw [ofCount, ofCount, literal?_eq_of_toLexeme hcount, hpercent]

theorem ofFetch_eq (h : BeginAlike body body') : ofFetch body = ofFetch body' := by
  cases h with
  | nil => rfl
  | opens tokens tokens' hopens hopens' =>
    rw [ofFetch_of_opens hopens, ofFetch_of_opens hopens']
  | cons hfirst htop hrest =>
    cases hrest with
    | nil => rfl
    | opens tokens tokens' hopens hopens' =>
      simp [ofFetch, hfirst, Lexeme.isWord_of_opens, ofCount_of_opens, hopens,
        hopens']
    | cons hcount _ hmore =>
      rw [ofFetch, ofFetch, ofCount_eq_of_toLexeme hcount hmore, hfirst, hcount]

theorem ofSelect_eq (h : BeginAlike body body') : ofSelect body = ofSelect body' := by
  have hrest := h.dropWhile_quantifiers
  rw [ofSelect, ofSelect]
  generalize (body.dropWhile fun token =>
      token.isKeyword .distinct || token.isKeyword .all) =
    rest at hrest ⊢
  generalize (body'.dropWhile fun token =>
      token.isKeyword .distinct || token.isKeyword .all) =
    rest' at hrest ⊢
  cases hrest with
  | nil => rfl
  | opens tokens tokens' hopens hopens' =>
    cases tokens <;> cases tokens' <;> simp [Lexeme.isWord_of_opens, hopens, hopens']
  | @cons top top' _ _ hlexeme htop hnext =>
    cases hnext with
    | nil => rfl
    | opens tokens tokens' hopens hopens' =>
      have hword : top.isWord "top" = false := by
        by_contra hword
        simpa [hopens] using htop (by simpa using hword)
      simp [← hlexeme, hword]
    | @cons next next' more more' hnext _ hmore =>
      have hcount := ofCount_eq_of_toLexeme hnext hmore
      by_cases hword : top.isWord "top" = true
      · have hopens : next.opens = false := by simpa using htop hword
        simp [← hlexeme, ← hnext, hword, hopens, hcount]
      · simp [← hlexeme, hword]

theorem ofClause_eq {σ : Type} {part part' : Section} (h : part.AlikeOutside part')
    (reads : BoundForm → Bool) (combined : Bool) (nested nested' : List σ) :
    ofClause reads combined (part.toClause nested) =
      ofClause reads combined (part'.toClause nested') := by
  obtain ⟨hkind, previous, hbody⟩ := h
  have hbegin := hbody.beginAlike
  have hlimit : ofLimit (part.toClause nested).significantBody =
      ofLimit (part'.toClause nested').significantBody := ofLimit_eq hbegin
  have hfetch : ofFetch (part.toClause nested).significantBody =
      ofFetch (part'.toClause nested').significantBody := ofFetch_eq hbegin
  have hselect : ofSelect (part.toClause nested).significantBody =
      ofSelect (part'.toClause nested').significantBody := ofSelect_eq hbegin
  have hkind' : (part.toClause nested).kind = (part'.toClause nested').kind := hkind
  rw [ofClause, ofClause, hlimit, hfetch, hselect, hkind']

end RowBound

/-! ## Bounds of statements -/

namespace Statement

def readings (statement : Statement) :
    List (ClauseKind × ((BoundForm → Bool) → Bool → RowBound)) :=
  statement.clauses.map fun clause =>
    (clause.kind, fun reads combined => RowBound.ofClause reads combined clause)

private theorem map_kind_eq_of_readings {statement other : Statement}
    (h : statement.readings = other.readings) :
    statement.clauses.map (·.kind) = other.clauses.map (·.kind) := by
  have hkinds := congrArg (List.map Prod.fst) h
  simpa only [readings, List.map_map, Function.comp_def] using hkinds

private theorem isCombined_eq_any_readings (statement : Statement) :
    statement.isCombined =
      statement.readings.any fun reading => reading.1.isSetOperation := by
  simp only [isCombined, readings, List.any_map, Function.comp_def]

private theorem map_lastBranch_eq_readings (statement : Statement)
    (reads : BoundForm → Bool) (combined : Bool) :
    statement.lastBranch.map (RowBound.ofClause reads combined) =
      ((statement.readings.reverse.takeWhile fun reading =>
        !reading.1.isSetOperation).reverse.map fun reading =>
        reading.2 reads combined) := by
  simp only [lastBranch, readings, ← List.map_reverse, List.takeWhile_map,
    List.map_map, Function.comp_def]

theorem boundIn_eq_of_readings {statement other : Statement}
    (h : statement.readings = other.readings) (reads : BoundForm → Bool) :
    statement.boundIn reads = other.boundIn reads := by
  rw [boundIn, boundIn, map_lastBranch_eq_readings, map_lastBranch_eq_readings,
    isCombined_eq_any_readings, isCombined_eq_any_readings, h]

theorem readings_ofTokens_eq {previous : Option Lexeme} {tokens tokens' : List Token}
    (h : Piece.AlikeOutside previous (Piece.ofTokens tokens) (Piece.ofTokens tokens'))
    (htraits : StatementTraits.ofTokens tokens = StatementTraits.ofTokens tokens') :
    (ofTokens tokens).readings = (ofTokens tokens').readings := by
  have hsections := Passage.forall₂_sections h htraits
  obtain ⟨nested, hclauses⟩ := exists_nested_of_ofPassage nestingLimit ⟨false, tokens⟩
  obtain ⟨nested', hclauses'⟩ :=
    exists_nested_of_ofPassage nestingLimit ⟨false, tokens'⟩
  rw [readings, readings, ofTokens, ofTokens, hclauses, hclauses', List.map_map,
    List.map_map, ← List.forall₂_eq_eq_eq, List.forall₂_map_left_iff,
    List.forall₂_map_right_iff]
  refine hsections.imp fun part part' hpart => Prod.ext hpart.1 ?_
  funext reads combined
  exact RowBound.ofClause_eq hpart reads combined _ _

end Statement

/-- The bound of a query does not hang on what its parentheses hold. Two scripts of
one statement each that begin with `SELECT` and have the same tokens outside
parentheses have the same clauses and, in each dialect, the same bound, if the groups
right after an `EXCEPT` open a query in both or in neither and no group stands right
after the word `TOP`. The last group may even be left open. -/
theorem rowBound_eq_of_shell_eq {first second : List Token}
    {statement statement' : Statement} (hfirst : Script.ofTokens first = [statement])
    (hsecond : Script.ofTokens second = [statement'])
    (hselect : (significant first).head?.any (·.isKeyword .select) = true)
    (hselect' : (significant second).head?.any (·.isKeyword .select) = true)
    (hshell : shell 0 first = shell 0 second)
    (hexcept : (groupsAfter (·.isKeyword .except) first).map opensQuery =
      (groupsAfter (·.isKeyword .except) second).map opensQuery)
    (htop : groupsAfter (·.isWord "top") first = []) :
    statement.clauses.map (·.kind) = statement'.clauses.map (·.kind) ∧
      ∀ dialect, statement.rowBound dialect = statement'.rowBound dialect := by
  obtain ⟨part, hpart, rfl⟩ := List.map_eq_singleton_iff.1 hfirst
  obtain ⟨part', hpart', rfl⟩ := List.map_eq_singleton_iff.1 hsecond
  have htraits : StatementTraits.ofTokens part = StatementTraits.ofTokens part' :=
    (StatementTraits.ofTokens_of_parts hpart hselect).trans
      (StatementTraits.ofTokens_of_parts hpart' hselect').symm
  rw [shell_zero, shell_zero] at hshell
  obtain ⟨last, halike⟩ := Script.exists_alikeOutside_of_parts
    (Piece.alikeOutside_of_shell_eq hshell hexcept htop) hpart hpart'
  have hreadings := Statement.readings_ofTokens_eq halike htraits
  exact ⟨Statement.map_kind_eq_of_readings hreadings,
    fun dialect => Statement.boundIn_eq_of_readings hreadings dialect.reads⟩

def subqueryScript : String :=
  "select * except (a) from (select b from t limit 5) except (select c from v) limit 3"

def valuesScript : String :=
  "select * except (x, y) from (values (1)) except (with w as (select 1) select 2) limit 3"

theorem rowBound_eq_of_shell_eq_subqueryScript :
    ∃ statement statement', Script.statements subqueryScript = [statement] ∧
      Script.statements valuesScript = [statement'] ∧
      (significant (Token.tokenize subqueryScript)).head?.any (·.isKeyword .select) =
        true ∧
      (significant (Token.tokenize valuesScript)).head?.any (·.isKeyword .select) =
        true ∧
      shell 0 (Token.tokenize subqueryScript) =
        shell 0 (Token.tokenize valuesScript) ∧
      (groupsAfter (·.isKeyword .except) (Token.tokenize subqueryScript)).map
          opensQuery =
        (groupsAfter (·.isKeyword .except) (Token.tokenize valuesScript)).map
          opensQuery ∧
      groupsAfter (·.isWord "top") (Token.tokenize subqueryScript) = [] ∧
      statement.clauses.map (·.kind) = statement'.clauses.map (·.kind) ∧
      ∀ dialect, statement.rowBound dialect = statement'.rowBound dialect := by
  obtain ⟨hlength, hlength', hselect, hselect', hshell, hexcept, htop⟩ :
      (Script.statements subqueryScript).length = 1 ∧
        (Script.statements valuesScript).length = 1 ∧
        (significant (Token.tokenize subqueryScript)).head?.any
            (·.isKeyword .select) = true ∧
        (significant (Token.tokenize valuesScript)).head?.any (·.isKeyword .select) =
          true ∧
        shell 0 (Token.tokenize subqueryScript) =
          shell 0 (Token.tokenize valuesScript) ∧
        (groupsAfter (·.isKeyword .except) (Token.tokenize subqueryScript)).map
            opensQuery =
          (groupsAfter (·.isKeyword .except) (Token.tokenize valuesScript)).map
            opensQuery ∧
        groupsAfter (·.isWord "top") (Token.tokenize subqueryScript) = [] := by
    decide +kernel
  obtain ⟨statement, hfirst⟩ := List.length_eq_one_iff.1 hlength
  obtain ⟨statement', hsecond⟩ := List.length_eq_one_iff.1 hlength'
  exact ⟨statement, statement', hfirst, hsecond, hselect, hselect', hshell, hexcept,
    htop, rowBound_eq_of_shell_eq hfirst hsecond hselect hselect' hshell hexcept htop⟩

end SqlOutline
