import SqlOutline.Proofs.Bound.Inserted
import SqlOutline.Proofs.Piece.Overhang
import SqlOutline.Proofs.Script.Surroundings

/-!
# The text of a bound around a query

An entry with no place for `TOP` is put into parentheses, and the bound is written
before them. What comes out is an entry again, and a query that is bounded, unless the
parentheses are closed early: then a set operator behind the `)` that closes them
combines the query with another one.
-/

namespace SqlOutline

open Token

/-! ## Tokens in parentheses -/

structure Lexeme.IsOrdinary (lexeme : Lexeme) : Prop where
  opens_eq_false : lexeme.opens = false
  kind_ne : lexeme.kind ≠ .semicolon
  isComment_eq_false : lexeme.isComment = false
  setOperator?_eq_none : ∀ keyword ∈ lexeme.keyword?, keyword.setOperator? = none

section Parentheses

variable {before inner later : List Token} {opening closing : Token}
  (hbefore : ∀ token ∈ before, token.IsOrdinary) (hopens : opening.opens = true)
  (hcloses : closing.closes = true)
  (hlater : ∀ token ∈ closing :: later, token.IsOrdinary) (hdepth : depth inner = 0)

include hbefore hopens hcloses hlater hdepth

/-- The pieces of tokens in parentheses with others around them: all of them stand in
one group, unless some hang over. -/
theorem exists_pieces_of_parentheses :
    ∃ held ending rest, rest ⊆ closing :: later ∧ (rest = [] → later = []) ∧
      Piece.ofTokens (before ++ opening :: (inner ++ closing :: later)) =
        before.map Piece.single ++ .group opening held ending ::
          (Piece.ofTokens (overhang inner) ++ rest.map Piece.single) := by
  obtain ⟨-, rest, hsub, hrest, hover⟩ := exists_overhang_append later hcloses hdepth
  have hbeforeOpens : ∀ token ∈ before, token.opens = false := fun token htoken =>
    (hbefore token htoken).opens_eq_false
  have hrestOpens : ∀ token ∈ rest, token.opens = false := fun token htoken =>
    (hlater token (hsub htoken)).opens_eq_false
  have hpieces := Piece.ofTokens_append (opening :: (inner ++ closing :: later))
    (depth_of_not_opens hbeforeOpens)
  rw [Piece.ofTokens_cons_of_opens _ hopens, ← overhang, hover,
    Piece.ofTokens_append _ (depth_overhang hdepth),
    Piece.ofTokens_of_not_opens hrestOpens,
    Piece.ofTokens_of_not_opens hbeforeOpens] at hpieces
  exact ⟨_, _, rest, hsub, hrest, hpieces⟩

theorem depth_of_parentheses :
    depth (before ++ opening :: (inner ++ closing :: later)) = 0 := by
  obtain ⟨hlt, rest, hsub, -, hover⟩ := exists_overhang_append later hcloses hdepth
  have hbeforeDepth := depth_of_not_opens fun token htoken =>
    (hbefore token htoken).opens_eq_false
  rw [depth_append _ hbeforeDepth, ← depth_drop_groupLength hopens hlt]
  calc
    depth (overhang (inner ++ closing :: later)) =
        depth (overhang inner ++ rest) := by
      rw [hover]
    _ = depth rest := depth_append rest (depth_overhang hdepth)
    _ = 0 :=
      depth_of_not_opens fun token htoken =>
        (hlater token (hsub htoken)).opens_eq_false

theorem isUndivided_of_parentheses (hinner : IsUndivided inner) :
    IsUndivided (before ++ opening :: (inner ++ closing :: later)) := by
  obtain ⟨held, ending, rest, hsub, -, hpieces⟩ :=
    exists_pieces_of_parentheses hbefore hopens hcloses hlater hdepth
  have hsingle : ∀ {token : Token}, token.IsOrdinary →
      (Piece.single token).isKind .semicolon = false := by
    intro token htoken
    simpa [Piece.isKind] using htoken.kind_ne
  rw [IsUndivided, hpieces]
  simp only [List.forall_mem_append, List.forall_mem_cons, List.forall_mem_map]
  exact ⟨fun token htoken => hsingle (hbefore token htoken), rfl,
    fun piece hpiece => hinner piece (mem_ofTokens_of_mem_overhang hpiece),
    fun token htoken => hsingle (hlater token (hsub htoken))⟩

theorem combines_of_parentheses
    (hsignificant : ∀ token ∈ closing :: later, token.isTrivia = false)
    (hne : later ≠ []) :
    Piece.combines
        (Piece.ofTokens (before ++ opening :: (inner ++ closing :: later))) =
      Piece.combines (Piece.ofTokens (overhang inner)) := by
  obtain ⟨held, ending, rest, hsub, hrest, hpieces⟩ :=
    exists_pieces_of_parentheses hbefore hopens hcloses hlater hdepth
  have hbeforeOperand : ∀ piece ∈ before.map Piece.single, piece.IsOperand := by
    rw [List.forall_mem_map]
    exact fun token htoken => (hbefore token htoken).setOperator?_eq_none
  have hrestOperand : ∀ piece ∈ rest.map Piece.single, piece.IsOperand := by
    rw [List.forall_mem_map]
    exact fun token htoken => (hlater token (hsub htoken)).setOperator?_eq_none
  have hrestCombines : Piece.combines (rest.map Piece.single) = false := by
    have hnone := Piece.combines_append_of_isOperand [] hrestOperand
    rwa [List.append_nil] at hnone
  have hgroup : (Piece.group opening held ending).IsOperand := fun keyword hkeyword =>
    absurd hkeyword (Option.not_mem_none keyword)
  obtain ⟨first, others, hfirst⟩ := List.exists_cons_of_ne_nil (mt hrest hne)
  have htrivia : (Piece.single first).isTrivia = false :=
    hsignificant first (hsub (hfirst ▸ List.mem_cons_self ..))
  rw [hpieces, Piece.combines_append_of_isOperand _ hbeforeOperand, Piece.combines,
    hgroup.combinesBefore, Bool.false_or]
  rw [hfirst, List.map_cons] at hrestCombines ⊢
  rw [Piece.combines_append_cons _ _ htrivia rfl, hrestCombines, Bool.or_false]

end Parentheses

/-! ## The overhang of a statement -/

namespace Statement

/-- Whether the statement combines queries behind a `)` that closes nothing. -/
def combinesOverhang (statement : Statement) : Bool :=
  (ofTokens (overhang statement.tokens)).isCombined

theorem isCombined_overhang_tokens (tokens : List Token) :
    (ofTokens (overhang (Relayout.stripping.tokens tokens))).isCombined =
      (ofTokens (overhang tokens)).isCombined := by
  have hoverhang : overhang (Relayout.stripping.tokens tokens) =
      Relayout.stripping.tokens (overhang tokens) :=
    (Relayout.stripping.tokens_closing 0 tokens).2
  have hstatement : ofTokens (Relayout.stripping.tokens (overhang tokens)) =
      Relayout.stripping.statement (ofTokens (overhang tokens)) :=
    Relayout.ofPassage_passage Relayout.stripping nestingLimit
      ⟨false, overhang tokens⟩
  rw [hoverhang, hstatement, Relayout.isCombined_statement]

theorem combinesOverhang_ofTokens (tokens : List Token) :
    (ofTokens tokens).combinesOverhang = (ofTokens (overhang tokens)).isCombined := by
  have htokens : (ofTokens tokens).tokens = tokens :=
    tokens_ofPassage nestingLimit ⟨false, tokens⟩
  rw [combinesOverhang, htokens]

theorem combinesOverhang_eq_of_significant_eq {first second : List Token}
    (h : (significant first).map Token.toLexeme =
      (significant second).map Token.toLexeme) :
    (ofTokens first).combinesOverhang = (ofTokens second).combinesOverhang := by
  rw [combinesOverhang_ofTokens, combinesOverhang_ofTokens,
    ← isCombined_overhang_tokens first, ← isCombined_overhang_tokens second,
    Relayout.tokens_stripping, Relayout.tokens_stripping, h]

end Statement

/-! ## The text -/

namespace Script

open BoundForm (space)

def wrapperFront (count : Nat) : List Lexeme :=
  [⟨.keyword .select, "select"⟩, space, ⟨.identifier, "top"⟩, space,
   ⟨.number, toString count⟩, space, ⟨.operator, "*"⟩, space,
   ⟨.keyword .from, "from"⟩, space]

def wrapperBack : List Lexeme :=
  [space, ⟨.keyword .as, "as"⟩, space, ⟨.identifier, "limited"⟩]

private theorem lexemes_select_top : lexemes "select top".toList =
    [⟨.keyword .select, "select"⟩, space] ++ [⟨.identifier, "top"⟩] := by
  decide +kernel

private theorem lexemes_star_from : lexemes " * from".toList =
    [space, ⟨.operator, "*"⟩, space] ++ [⟨.keyword .from, "from"⟩] := by
  decide +kernel

private theorem lexemes_as_limited : lexemes " as limited".toList = wrapperBack := by
  decide +kernel

theorem toList_insertTop_of_none {entry : String} (h : topOffset? entry = none)
    (count : Nat) :
    (insertTop entry count).toList =
      "select top".toList ++
        (' ' :: digitsOf count ++
          (" * from".toList ++
            ' ' :: '(' :: (entry.toList ++ ')' :: " as limited".toList))) := by
  have hinsert : insertTop entry count =
      "select top " ++ toString count ++ " * from (" ++ entry ++ ") as limited" := by
    rw [insertTop, h]
    rfl
  have hselect : "select top ".toList = "select top".toList ++ [' '] := by decide
  have hfrom : " * from (".toList = " * from".toList ++ [' ', '('] := by decide
  have has : ") as limited".toList = ')' :: " as limited".toList := by decide
  rw [hinsert, String.toList_append, String.toList_append, String.toList_append,
    String.toList_append, hselect, hfrom, has]
  simp only [List.append_assoc, List.cons_append, List.nil_append]
  rfl

theorem IsEntry.lexemes_insertTop {entry : String} (h : IsEntry entry)
    (hoffset : topOffset? entry = none) (count : Nat) :
    lexemes (insertTop entry count).toList = wrapperFront count ++
      wrapperOpening :: (lexemes entry.toList ++ wrapperClosing :: wrapperBack) := by
  have hselect : Sealed "select top".toList :=
    sealed_of_lexemes_eq lexemes_select_top rfl rfl
  have hfrom : Sealed " * from".toList :=
    sealed_of_lexemes_eq lexemes_star_from rfl rfl
  have hspace : ∀ cs, lexemes (' ' :: '(' :: cs) =
      space :: wrapperOpening :: lexemes cs := by
    intro cs
    rw [lexemes_cons_of_isBlank _ (by decide), List.takeWhile_cons_of_neg (by decide),
      List.dropWhile_cons_of_neg (by decide), lexemes_parenOpen]
    rfl
  rw [toList_insertTop_of_none hoffset,
    hselect _ (Text.isBreak_of_head?_eq rfl (by decide)),
    sealed_space_digitsOf count _ (Text.isBreak_of_head?_eq rfl (by decide)),
    hfrom _ (Text.isBreak_of_head?_eq rfl (by decide)), hspace,
    h.isSealed _ (Text.isBreak_of_head?_eq rfl (by decide)), lexemes_parenClose,
    lexemes_as_limited, lexemes_select_top, lexemes_star_from, lexemes_space_digitsOf]
  rfl

private theorem wrapperFront_isOrdinary (count : Nat) :
    ∀ token ∈ unplaced (wrapperFront count), token.IsOrdinary := by
  refine forall_mem_unplaced.2 ?_
  intro lexeme hlexeme
  simp only [wrapperFront, List.mem_cons, List.not_mem_nil, or_false] at hlexeme
  rcases hlexeme with rfl | rfl | rfl | rfl | rfl | rfl | rfl | rfl | rfl | rfl <;>
    exact ⟨rfl, nofun, rfl, by rintro keyword ⟨⟩ <;> rfl⟩

private theorem wrapperBack_isOrdinary :
    ∀ token ∈ unplaced (wrapperClosing :: wrapperBack), token.IsOrdinary := by
  refine forall_mem_unplaced.2 ?_
  intro lexeme hlexeme
  simp only [wrapperBack, List.mem_cons, List.not_mem_nil, or_false] at hlexeme
  rcases hlexeme with rfl | rfl | rfl | rfl | rfl <;>
    exact ⟨rfl, nofun, rfl, by rintro keyword ⟨⟩ <;> rfl⟩

theorem IsEntry.insertTop_of_none {entry : String} (h : IsEntry entry)
    (hoffset : topOffset? entry = none) (count : Nat) :
    IsEntry (insertTop entry count) := by
  have hlexemes := h.lexemes_insertTop hoffset count
  have hfront := wrapperFront_isOrdinary count
  have hback := wrapperBack_isOrdinary
  have hlast : ∀ last ∈ (lexemes (insertTop entry count).toList).getLast?,
      last = ⟨.identifier, "limited"⟩ := by
    intro last hmem
    have hend : lexemes (insertTop entry count).toList =
        (wrapperFront count ++
            wrapperOpening ::
              (lexemes entry.toList ++
                [wrapperClosing, space, ⟨.keyword .as, "as"⟩, space])) ++
          [⟨.identifier, "limited"⟩] := by
      rw [hlexemes, wrapperBack, List.append_assoc, List.cons_append,
        List.append_assoc]
      rfl
    rw [hend, List.getLast?_concat, Option.mem_some_iff] at hmem
    exact hmem.symm
  have hunplaced : unplaced (lexemes (insertTop entry count).toList) =
      unplaced (wrapperFront count) ++ ⟨wrapperOpening, 0, 0, 0⟩ ::
        (unplaced (lexemes entry.toList) ++
          ⟨wrapperClosing, 0, 0, 0⟩ :: unplaced wrapperBack) := by
    rw [hlexemes, unplaced_append, unplaced_cons, unplaced_append, unplaced_cons]
  constructor
  · rw [hlexemes]
    exact List.append_ne_nil_of_left_ne_nil (List.cons_ne_nil _ _) _
  · rw [hlexemes]
    rintro first (hfirst : some _ = some first)
    rw [← Option.some.inj hfirst]
    rfl
  · intro last hmem
    rw [hlast last hmem]
    rfl
  · intro last hmem
    rw [hlast last hmem]
    exact Lexeme.not_isUnterminated rfl
  · rw [hlexemes, List.forall_mem_append, List.forall_mem_cons,
      List.forall_mem_append]
    rw [forall_mem_unplaced] at hfront hback
    exact ⟨fun lexeme hlexeme => (hfront lexeme hlexeme).isComment_eq_false, rfl,
      h.isComment_eq_false,
      fun lexeme hlexeme => (hback lexeme hlexeme).isComment_eq_false⟩
  · rw [hunplaced]
    exact isUndivided_of_parentheses hfront rfl rfl hback h.depth_eq h.isUndivided
  · rw [hunplaced]
    exact depth_of_parentheses hfront rfl rfl hback h.depth_eq

theorem IsEntry.isEntry_insertTop {entry : String} (h : IsEntry entry) (count : Nat)
    (hquery : (Statement.ofTokens (tokenize entry)).isQuery = true) :
    IsEntry (insertTop entry count) := by
  cases hoffset : topOffset? entry with
  | some offset => exact (h.insertTop_of_offset hoffset count hquery).1
  | none => exact h.insertTop_of_none hoffset count

def wrapperWords (count : Nat) : List Lexeme :=
  (wrapperFront count).filter fun lexeme => !lexeme.isTrivia

def wrapperAlias : List Lexeme :=
  wrapperBack.filter fun lexeme => !lexeme.isTrivia

theorem wrapperAlias_isOrdinary :
    ∀ token ∈ ⟨wrapperClosing, 0, 0, 0⟩ :: unplaced wrapperAlias,
      token.IsOrdinary := by
  have hall := wrapperBack_isOrdinary
  rw [forall_mem_unplaced] at hall
  rw [← unplaced_cons, forall_mem_unplaced]
  intro lexeme hlexeme
  rcases List.mem_cons.1 hlexeme with rfl | hlexeme
  · exact hall _ (List.mem_cons_self ..)
  · exact hall lexeme (List.mem_cons_of_mem _ (List.mem_of_mem_filter hlexeme))

theorem significant_insertTop {entry : String} (h : IsEntry entry)
    (hoffset : topOffset? entry = none) (count : Nat) :
    (significant (tokenize (insertTop entry count))).map Token.toLexeme =
      wrapperWords count ++
        wrapperOpening ::
          ((significant (tokenize entry)).map Token.toLexeme ++
            wrapperClosing :: wrapperAlias) := by
  rw [map_toLexeme_significant_eq, map_toLexeme_significant_eq, map_toLexeme_tokenize,
    map_toLexeme_tokenize, h.lexemes_insertTop hoffset, List.filter_append,
    List.filter_cons_of_pos (by decide), List.filter_append,
    List.filter_cons_of_pos (by decide)]
  rfl

private theorem combines_wrapped {tokens : List Token} (hdepth : depth tokens = 0)
    (count : Nat) :
    Piece.combines
        (Piece.ofTokens
          (unplaced (wrapperWords count) ++
            ⟨wrapperOpening, 0, 0, 0⟩ ::
              (tokens ++ ⟨wrapperClosing, 0, 0, 0⟩ :: unplaced wrapperAlias))) =
      Piece.combines (Piece.ofTokens (overhang tokens)) := by
  have hfront : ∀ token ∈ unplaced (wrapperWords count), token.IsOrdinary := by
    have hall := wrapperFront_isOrdinary count
    rw [forall_mem_unplaced] at hall ⊢
    exact fun lexeme hlexeme => hall lexeme (List.mem_of_mem_filter hlexeme)
  apply combines_of_parentheses hfront rfl rfl wrapperAlias_isOrdinary hdepth
  · decide
  · exact List.cons_ne_nil _ _

theorem IsEntry.depth_stripped {entry : String} (h : IsEntry entry) :
    depth (Relayout.stripping.tokens (tokenize entry)) = 0 := by
  rw [Relayout.depth_tokens, ← Relayout.depth_tokens Relayout.unplacing,
    ← unplaced_lexemes]
  exact h.depth_eq

section Wrapped

variable {entry : String} (h : IsEntry entry) (hoffset : topOffset? entry = none)
  (count : Nat)

include h hoffset

theorem unplaced_significant_insertTop :
    unplaced ((significant (tokenize (insertTop entry count))).map Token.toLexeme) =
      unplaced (wrapperWords count) ++ ⟨wrapperOpening, 0, 0, 0⟩ ::
        (Relayout.stripping.tokens (tokenize entry) ++
          ⟨wrapperClosing, 0, 0, 0⟩ :: unplaced wrapperAlias) := by
  rw [significant_insertTop h hoffset, unplaced_append, unplaced_cons,
    unplaced_append, unplaced_cons, Relayout.tokens_stripping]

/-- A wrapped query combines queries as its overhang does, whatever it combined
before. -/
theorem IsEntry.isCombined_insertTop :
    (Statement.ofTokens (tokenize (insertTop entry count))).isCombined =
      (Statement.ofTokens (tokenize entry)).combinesOverhang := by
  rw [Statement.eq_unplaced (F := Statement.isCombined) (by simp) rfl,
    unplaced_significant_insertTop h hoffset, Statement.isCombined_ofTokens,
    combines_wrapped h.depth_stripped, ← Statement.isCombined_ofTokens,
    Statement.isCombined_overhang_tokens, Statement.combinesOverhang_ofTokens]

/-- A wrapped query is bounded, unless a set operator follows a `)` that closes
nothing. -/
theorem IsEntry.isBounded_insertTop_of_none
    (hoverhang : (Statement.ofTokens (tokenize entry)).combinesOverhang = false) :
    (Statement.ofTokens (tokenize (insertTop entry count))).isBounded = true := by
  have hcombined := h.isCombined_insertTop hoffset count
  rw [Statement.eq_unplaced (F := Statement.isCombined) (by simp) rfl, hoverhang,
    Statement.isCombined_ofTokens] at hcombined
  rw [Statement.eq_unplaced (F := Statement.isBounded) (by simp [Statement.isBounded])
    rfl]
  rw [unplaced_significant_insertTop h hoffset] at hcombined ⊢
  have hwrites : WritesTop [] ⟨⟨.identifier, "top"⟩, 0, 0, 0⟩
      ⟨⟨.number, toString count⟩, 0, 0, 0⟩ := ⟨by simp, rfl, rfl⟩
  have hkind : ∀ more : List Token,
      StatementKind.ofTokens (unplaced (wrapperWords count) ++ more) = .select := by
    intro more
    rw [StatementKind.ofTokens_append more rfl]
    rfl
  apply hwrites.isBounded rfl rfl (List.nil_append _).symm
  · exact (hkind _).trans_ne (by decide)
  · exact (hkind _).trans_ne (by decide)
  · exact hcombined

end Wrapped

end Script

end SqlOutline
