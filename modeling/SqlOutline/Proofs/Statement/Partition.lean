import SqlOutline.Proofs.Piece.Depth
import SqlOutline.Proofs.Script.Parts

/-!
# The clauses of a statement

The clauses of a statement partition its tokens, and a clause that has a head begins
with it at a keyword outside all parentheses. That holds on every level of nesting,
for a nested statement is read as a passage in the same way as a statement of the
script.
-/

namespace SqlOutline

/-- A clause that begins at an index of the tokens, with a keyword first and no
parenthesis open anywhere in its head. -/
structure Clause.HeadedAt {σ : Type} (clause : Clause σ) (tokens : List Token)
    (start : Nat) : Prop where
  first : ∃ token, clause.head.head? = some token ∧ tokens[start]? = some token ∧
    token.keyword?.isSome = true
  words : ∀ token ∈ clause.head, token.keyword?.isSome = true ∨ token.isTrivia = true
  depth : ∀ index < clause.head.length, depth (tokens.take (start + index)) = 0
  not_inGroup : ∀ index < clause.head.length, ¬ InGroup tokens (start + index)

/-- The clauses of a statement lie side by side in its tokens, after white space and
comments. -/
structure Statement.Partition (statement : Statement) (margin : List Token) :
    Prop where
  isTrivia : ∀ token ∈ margin, token.isTrivia = true
  tokens_eq : statement.tokens = margin ++ statement.clauses.flatMap Clause.tokens
  clause : ∀ before clause after, statement.clauses = before ++ clause :: after →
    let start := (margin ++ before.flatMap Clause.tokens).length
    clause.tokens = (statement.tokens.drop start).take clause.tokens.length ∧
      clause.head <+: clause.tokens ∧
      ((before = [] ∧ clause.head = [] ∧
          (clause.kind = .leading ∨ clause.kind = .from)) ∨
        clause.HeadedAt statement.tokens start)

/-! ## Heads and parentheses -/

/-- Keywords, white space and comments are no parentheses. -/
theorem opens_eq_false_of_keyword?_or_isTrivia {token : Token}
    (h : token.keyword?.isSome = true ∨ token.isTrivia = true) :
    token.opens = false ∧ token.closes = false := by
  cases hkind : token.kind <;>
    simp_all [Lexeme.keyword?, TokenKind.keyword?, Lexeme.isTrivia,
      TokenKind.isTrivia, Lexeme.opens, Lexeme.closes]

private theorem depthStep_eq_self {token : Token} (depth : Nat)
    (h : token.keyword?.isSome = true ∨ token.isTrivia = true) :
    depthStep depth token = depth := by
  simp [depthStep, opens_eq_false_of_keyword?_or_isTrivia h]

theorem foldl_depthStep_eq_self {tokens : List Token} (depth : Nat)
    (h : ∀ token ∈ tokens, token.keyword?.isSome = true ∨ token.isTrivia = true) :
    tokens.foldl depthStep depth = depth := by
  induction tokens with
  | nil => rfl
  | cons token tokens ih =>
    rw [List.foldl_cons, depthStep_eq_self depth (h token (List.mem_cons_self ..))]
    exact ih fun other hother => h other (List.mem_cons_of_mem token hother)

theorem Section.OpensAt.headedAt {σ : Type} {part : Section} {token : Token}
    (nested : List σ) {tokens rest : List Token} {earlier later : List Piece}
    (h : part.OpensAt token)
    (hpieces : Piece.ofTokens tokens = earlier ++ .single token :: later)
    (htokens : tokens = earlier.flatMap Piece.tokens ++ (part.head ++ rest)) :
    (part.toClause nested).HeadedAt tokens (earlier.flatMap Piece.tokens).length := by
  obtain ⟨htoken, words, hhead, hwords⟩ := h
  have hall : ∀ word ∈ part.head, word.keyword?.isSome = true ∨
      word.isTrivia = true := by
    intro word hword
    rw [hhead, List.mem_cons] at hword
    rcases hword with rfl | hword
    · exact Or.inl htoken
    · exact hwords word hword
  have hdepth : ∀ index < part.head.length,
      depth (tokens.take ((earlier.flatMap Piece.tokens).length + index)) = 0 := by
    intro index hindex
    rw [htokens, List.take_length_add_append,
      List.take_append_of_le_length (Nat.le_of_lt hindex), depth, List.foldl_append,
      ← depth, depth_of_ofTokens_eq hpieces]
    exact foldl_depthStep_eq_self 0 fun word hword =>
      hall word (List.mem_of_mem_take hword)
  refine ⟨⟨token, ?_, ?_, htoken⟩, hall, hdepth, fun index hindex => ?_⟩
  · rw [toClause, hhead, List.head?_cons]
  · rw [htokens, List.getElem?_append_right (Nat.le_refl _), Nat.sub_self, hhead]
    rfl
  · have hindex' : index < part.head.length := hindex
    have hget : tokens[(earlier.flatMap Piece.tokens).length + index]? =
        some part.head[index] := by
      rw [htokens, List.getElem?_append_right (Nat.le_add_right ..),
        Nat.add_sub_cancel_left, List.getElem?_append_left hindex',
        List.getElem?_eq_getElem hindex']
    have hword := hall _ (List.getElem_mem hindex')
    exact not_inGroup_of_depth_eq_zero hget
      (opens_eq_false_of_keyword?_or_isTrivia hword).1 (hdepth index hindex')

/-! ## Statements -/

namespace Statement

theorem partition_ofPassage (levels : Nat) (passage : Passage) :
    (ofPassage levels passage).Partition passage.margin := by
  obtain ⟨nested, hclauses⟩ := exists_nested_of_ofPassage levels passage
  have htokens : ∀ parts : List Section,
      (parts.map fun part => part.toClause (nested part)).flatMap Clause.tokens =
        parts.flatMap Section.tokens := by
    intro parts
    rw [List.flatMap_map]
    rfl
  refine ⟨fun token => Passage.isTrivia_of_mem_margin, ?_, ?_⟩
  · rw [tokens_ofPassage, hclauses, htokens, Passage.margin_append_flatMap_sections]
  · intro before clause after hsplit
    rw [hclauses] at hsplit
    obtain ⟨parts, rest, hsections, rfl, hrest⟩ := List.map_eq_append_iff.1 hsplit
    obtain ⟨part, later, rfl, rfl, rfl⟩ := List.map_eq_cons_iff.1 hrest
    have hpassage := Passage.margin_append_flatMap_sections passage
    rw [hsections, List.flatMap_append, List.flatMap_cons,
      ← List.append_assoc] at hpassage
    rw [htokens, tokens_ofPassage]
    refine ⟨?_, List.prefix_append _ _, ?_⟩
    · rw [← hpassage, List.drop_left]
      exact List.take_left.symm
    · rcases Passage.exists_of_sections_eq hsections with ⟨rfl, hhead, hkind⟩ | hopens
      · exact Or.inl ⟨rfl, hhead, hkind⟩
      · obtain ⟨earlier, token, rest, hpieces, hearlier, hopens⟩ := hopens
        rw [← hearlier, Section.tokens, List.append_assoc part.head] at hpassage
        rw [← hearlier]
        exact Or.inr (hopens.headedAt (nested part) hpieces hpassage.symm)

/-- The clauses of every statement of a script, on any level of nesting, partition its
tokens. -/
theorem partition_of_liesBelow {text : String} {top statement : Statement}
    {level : Nat} (htop : top ∈ Script.statements text)
    (h : LiesBelow top level statement) : ∃ margin, statement.Partition margin := by
  obtain ⟨tokens, -, rfl⟩ := List.mem_map.1 htop
  obtain ⟨-, passage, rfl⟩ := h.exists_ofPassage
  exact ⟨passage.margin, partition_ofPassage _ passage⟩

def joinScript : String := "select x /*a*/ from ( t join u on (a = b) ) where y = 1"

theorem partition_of_liesBelow_joinScript :
    ∃ top ∈ Script.statements joinScript, ∃ statement, LiesBelow top 1 statement ∧
      statement.clauses.map Clause.kind = [.from, .join, .on] ∧
      ∃ margin, statement.Partition margin := by
  have hparts : Script.parts (Token.tokenize joinScript) =
      [Token.tokenize joinScript] := by
    decide +kernel
  have htop :
      ofTokens (Token.tokenize joinScript) ∈ Script.statements joinScript := by
    rw [Script.statements, Script.ofTokens, hparts]
    exact List.mem_singleton_self _
  have hfirst : ((ofTokens (Token.tokenize joinScript)).nested.head?.map fun inner =>
      inner.clauses.map Clause.kind) = some [.from, .join, .on] := by decide +kernel
  obtain ⟨inner, hinner, hkinds⟩ := Option.map_eq_some_iff.1 hfirst
  obtain ⟨clause, hclause, hnested⟩ :=
    List.mem_flatMap.1 (List.mem_of_mem_head? hinner)
  have hbelow := LiesBelow.nested .top hclause hnested
  exact ⟨_, htop, inner, hbelow, hkinds, partition_of_liesBelow htop hbelow⟩

end Statement

end SqlOutline
