import SqlOutline.Proofs.Bound.Agreement
import SqlOutline.Proofs.Bound.TopBound
import SqlOutline.Proofs.Bound.TopPlacement
import SqlOutline.Proofs.Bound.Wrapped
import SqlOutline.Proofs.Script.Adjacent

/-!
# The words of a bound in front

Where bounds are written as `TOP`, an unbounded query that combines nothing gets the
two words behind its first `SELECT`, and any other one is put into parentheses
(`words_bounded_sqlServer`). The query has the bound then, with three exceptions: a
point and digits directly behind the place go on with the number, a `percent` makes it
another number, and a `)` that closes nothing ends the parentheses early.
-/

namespace SqlOutline

open Token

namespace Statement

/-- Whether `TOP` goes into the statement: a `SELECT` stands outside parentheses, and
no set operator. -/
def takesTop (statement : Statement) : Bool :=
  !statement.isCombined &&
    (Piece.ofTokens statement.tokens).any (·.keyword? == some .select)

/-- Whether a word of a bound stands outside parentheses behind a `)` that closes
nothing. -/
def boundsOverhang (statement : Statement) : Bool :=
  (Piece.ofTokens (overhang statement.tokens)).any fun piece =>
    piece.keyword?.any Keyword.writesBound

theorem boundsOverhang_eq_false_iff (tokens : List Token) :
    (ofTokens tokens).boundsOverhang = false ↔
      ∀ piece ∈ Piece.ofTokens (overhang (Relayout.stripping.tokens tokens)),
        piece.keyword?.any Keyword.writesBound = false := by
  have htokens : (ofTokens tokens).tokens = tokens :=
    tokens_ofPassage nestingLimit ⟨false, tokens⟩
  have hoverhang : overhang (Relayout.stripping.tokens tokens) =
      Relayout.stripping.tokens (overhang tokens) :=
    (Relayout.stripping.tokens_closing 0 tokens).2
  rw [boundsOverhang, htokens, List.any_eq_false, hoverhang,
    Relayout.stripping.forall_keyword?_tokens_iff (p := fun keyword =>
      keyword.any Keyword.writesBound = false) rfl]
  simp only [Bool.not_eq_true]

theorem boundsOverhang_eq_of_words_eq {first second : List Token}
    (h : words first = words second) :
    (ofTokens first).boundsOverhang = (ofTokens second).boundsOverhang := by
  rw [Bool.eq_iff_iff, ← not_iff_not, Bool.not_eq_true, Bool.not_eq_true,
    boundsOverhang_eq_false_iff, boundsOverhang_eq_false_iff,
    Relayout.tokens_stripping_eq_unplaced_words,
    Relayout.tokens_stripping_eq_unplaced_words, h]

end Statement

namespace Script

/-! ## A script of one entry -/

section Entry

variable {entry : String} (h : IsEntry entry)

include h

theorem IsEntry.words_separator :
    words (tokenize (entry ++ ";")) = words (tokenize entry) ++ [separator] := by
  have hchars : (entry ++ ";").toList = entry.toList ++ [';'] := String.toList_append
  rw [words_tokenize, words_tokenize, hchars,
    h.isSealed _ (Text.isBreak_of_head?_eq rfl (by decide)), lexemes_separator,
    lexemes_nil, List.filter_append]
  rfl

theorem IsEntry.rowLimit?_separator {dialect : Dialect} {count : Nat}
    (hquery : (Statement.ofTokens (unplaced (words (tokenize entry)))).isQuery = true)
    (hbound : (Statement.ofTokens (unplaced (words (tokenize entry)))).rowBound
        dialect = .rows count) :
    rowLimit? (entry ++ ";") dialect = some (count : Int) := by
  have hentries : ∀ text ∈ [entry], IsEntry text := List.forall_mem_singleton.2 h
  have hwritten := forall₂_statements_written hentries
  have htext : written [entry] = entry ++ ";" := String.intercalate_singleton
  rw [htext, List.forall₂_cons_right_iff] at hwritten
  obtain ⟨after, rest, hwrites, hrest, hstatements⟩ := hwritten
  rw [List.forall₂_nil_right_iff.1 hrest] at hstatements
  have hwords : words after.tokens = words (tokenize entry) :=
    hwrites.significant_eq.trans (words_tokenize entry).symm
  have hmem : after ∈ statements (entry ++ ";") :=
    hstatements ▸ List.mem_singleton_self after
  have hread := Statement.eq_unplaced
    (F := fun statement => (statement.isQuery, statement.rowBound dialect)) (by simp)
    hwords
  rw [Statement.ofTokens_tokens hmem, hquery, hbound] at hread
  have hlimit : rowLimit? (entry ++ ";") dialect =
      if true then some (RowBound.rows count).limit else none :=
    rowLimit?_eq (by rw [hstatements, List.map_singleton, hread])
  exact hlimit

end Entry

/-! ## `TOP` in the query -/

section Placed

variable {text : String} {statement : Statement} (hclosed : IsClosed text)
  (hmem : statement ∈ statements text) (hquery : statement.isQuery = true)
  (hcombined : statement.isCombined = false) {front later : List Token} {word : Token}
  (hplace : TopGoesAfter statement.tokens front word later)
  (hfraction : beginsFraction later = false) (count : Nat)

include hclosed hmem hquery hcombined hplace hfraction

private theorem words_insertTop_plainText :
    words (tokenize (insertTop statement.plainText count)) =
      words (front ++ [word]) ++
        ⟨.identifier, "top"⟩ :: ⟨.number, toString count⟩ :: words later := by
  have hentry := hclosed.isEntry_plainText hmem
  have hsame : words (tokenize statement.plainText) = words statement.tokens :=
    hclosed.significant_tokenize_plainText hmem
  obtain ⟨front', word', later', hplace', hfront, hlater⟩ :=
    hplace.exists_of_words_eq hsame
  have hquery' :
      (Statement.ofTokens (tokenize statement.plainText)).isQuery = true := by
    rw [hclosed.eq_plainText (F := Statement.isQuery) hmem (by simp), hquery]
  have hcombined' :
      (Statement.ofTokens (tokenize statement.plainText)).isCombined = false := by
    rw [hclosed.eq_plainText (F := Statement.isCombined) hmem (by simp), hcombined]
  obtain ⟨before, after, hchars, hbefore, hafter, hexponent, htext⟩ :=
    hplace'.topPlace.exists_chars_insertTop hentry
      (hentry.topOffset?_eq_some hquery' hcombined' hplace') count
  have hsolid : solid (lexemes before) =
      (significant (front ++ [word])).map Token.toLexeme := by
    have hcomment : ∀ lexeme ∈ (front' ++ [word']).map Token.toLexeme,
        lexeme.isComment = false := by
      intro lexeme hlexeme
      apply hentry.isComment_eq_false
      rw [← map_toLexeme_tokenize, hplace'.topPlace.tokens_eq,
        ← List.singleton_append, ← List.append_assoc, List.map_append]
      exact List.mem_append_left _ hlexeme
    rw [hbefore, solid_of_isComment_eq_false hcomment, ← map_toLexeme_significant_eq]
    exact hfront
  have hlast : ∀ c ∈ before.getLast?, Text.isBlank c = false := by
    rw [List.map_append, List.map_singleton] at hbefore
    exact isBlank_of_getLast?_of_keyword? hbefore hplace'.topPlace.keyword?_isSome
  have hnone : fractionLength after = 0 := by
    by_contra hne
    have hbegins := beginsFraction_of_plainText hmem hplace.topPlace.tokens_eq
      hplace.topPlace.keyword?_isSome hchars hsolid hlast hne
    rw [hfraction] at hbegins
    exact Bool.noConfusion hbegins
  have htail : tailLength after = 0 := by
    rw [tailLength, hnone, List.drop_zero, hexponent]
  rw [htail, List.take_zero, List.append_nil, List.drop_zero, hafter, digitsOf,
    String.ofList_toList] at htext
  rw [words_tokenize, htext, List.filter_append, ← map_toLexeme_significant_eq,
    List.filter_append, ← map_toLexeme_significant_eq later', ← words, ← words,
    hfront, hlater]
  rfl

theorem boundIn_insertTop_plainText (hbounded : statement.isBounded = false)
    (hcount : count ≤ RowBound.largestCount)
    (hpercent : ∀ next ∈ (words later).head?, next.isWord "percent" = false)
    {reads : BoundForm → Bool} (hreads : reads .top = true) :
    (Statement.ofTokens (unplaced (words (tokenize
        (insertTop statement.plainText count))))).isQuery = true ∧
      (Statement.ofTokens (unplaced (words (tokenize
        (insertTop statement.plainText count))))).boundIn reads = .rows count := by
  obtain ⟨before, select, quantifiers, hselects, hdepth, hselect, hquantifiers⟩ :=
    hplace.topPlace.exists_select
  have hplain : unplaced (words statement.tokens) =
      before ++ select :: (quantifiers ++ unplaced (words later)) := by
    rw [hplace.topPlace.tokens_eq, ← List.singleton_append, ← List.append_assoc,
      words_append, unplaced_append, ← Relayout.tokens_stripping_eq_unplaced_words,
      hselects, List.append_assoc]
    rfl
  have hwritten : unplaced (words (tokenize (insertTop statement.plainText count))) =
      before ++ select :: (quantifiers ++ [⟨⟨.identifier, "top"⟩, 0, 0, 0⟩,
        ⟨⟨.number, toString count⟩, 0, 0, 0⟩] ++ unplaced (words later)) := by
    rw [words_insertTop_plainText hclosed hmem hquery hcombined hplace hfraction
        count, unplaced_append, ← Relayout.tokens_stripping_eq_unplaced_words,
      hselects]
    simp
  have hread : ∀ {β : Type} {F : Statement → β},
      (∀ statement, F (Relayout.stripping.statement statement) = F statement) →
      F (Statement.ofTokens
          (before ++ select :: (quantifiers ++ unplaced (words later)))) =
        F statement := by
    intro β F hF
    rw [← hplain, Statement.eq_unplaced_words hF, Statement.ofTokens_tokens hmem]
  have hwrites : WritesTop quantifiers ⟨⟨.identifier, "top"⟩, 0, 0, 0⟩
      ⟨⟨.number, toString count⟩, 0, 0, 0⟩ := ⟨hquantifiers, rfl, rfl⟩
  have hisQuery := (hread (F := Statement.isQuery) (by simp)).trans hquery
  have hliteral : RowBound.literal? ⟨⟨.number, toString count⟩, 0, 0, 0⟩ =
      some count :=
    (RowBound.literal?_eq rfl).trans (if_pos hcount)
  rw [hwritten]
  refine ⟨hwrites.isQuery_eq_true hdepth hselect hisQuery, ?_⟩
  apply hwrites.boundIn_of_not_isBounded hdepth hselect hisQuery
  · exact (hread (F := Statement.isCombined) (by simp)).trans hcombined
  · exact (hread (F := Statement.isBounded) (by simp [Statement.isBounded])).trans
      hbounded
  · exact hliteral
  · intro next hnext
    have hwords : significant (unplaced (words later)) = unplaced (words later) := by
      rw [significant, List.filter_eq_self, forall_mem_unplaced]
      intro lexeme hlexeme
      obtain ⟨token, htoken, rfl⟩ := List.mem_map.1 hlexeme
      simpa using (mem_significant.1 htoken).2
    rw [hwords, unplaced, List.head?_map] at hnext
    obtain ⟨lexeme, hlexeme, rfl⟩ := Option.map_eq_some_iff.1 hnext
    exact hpercent lexeme hlexeme
  · exact hreads

end Placed

/-! ## `TOP` before the query -/

def wrapperRest (tokens : List Token) : List Token :=
  unplaced [⟨.operator, "*"⟩, ⟨.keyword .from, "from"⟩] ++
    ⟨wrapperOpening, 0, 0, 0⟩ ::
      (tokens ++ ⟨wrapperClosing, 0, 0, 0⟩ :: unplaced wrapperAlias)

private theorem writesBound_of_mem_wrapperRest {tokens : List Token}
    (hdepth : depth tokens = 0)
    (h : ∀ piece ∈ Piece.ofTokens (overhang tokens),
      piece.keyword?.any Keyword.writesBound = false) :
    ∀ piece ∈ Piece.ofTokens (wrapperRest tokens),
      piece.keyword?.any Keyword.writesBound = false := by
  have hsource : ∀ token ∈ unplaced [⟨.operator, "*"⟩, ⟨.keyword .from, "from"⟩],
      token.IsOrdinary ∧ token.keyword?.any Keyword.writesBound = false := by
    rw [forall_mem_unplaced, List.forall_mem_cons, List.forall_mem_singleton]
    exact ⟨⟨⟨rfl, nofun, rfl, nofun⟩, rfl⟩,
      ⟨rfl, nofun, rfl, by rintro keyword ⟨⟩; rfl⟩, rfl⟩
  have hback : ∀ token ∈ ⟨wrapperClosing, 0, 0, 0⟩ :: unplaced wrapperAlias,
      token.keyword?.any Keyword.writesBound = false := by decide
  have hopens : (⟨wrapperOpening, 0, 0, 0⟩ : Token).opens = true := rfl
  have hcloses : (⟨wrapperClosing, 0, 0, 0⟩ : Token).closes = true := rfl
  obtain ⟨held, ending, rest, hrest, -, hpieces⟩ :=
    exists_pieces_of_parentheses (fun token htoken => (hsource token htoken).1) hopens
      hcloses wrapperAlias_isOrdinary hdepth
  rw [wrapperRest, hpieces]
  simp only [List.forall_mem_append, List.forall_mem_cons, List.forall_mem_map]
  exact ⟨fun token htoken => (hsource token htoken).2, rfl, h,
    fun token htoken => hback token (hrest htoken)⟩

section Wrapped

variable {entry : String} (h : IsEntry entry) (hoffset : topOffset? entry = none)
  (hoverhang : (Statement.ofTokens (tokenize entry)).combinesOverhang = false)
  (hbounds : (Statement.ofTokens (tokenize entry)).boundsOverhang = false)

include h hoffset hoverhang hbounds

theorem boundIn_insertTop_of_none {count : Nat}
    (hcount : count ≤ RowBound.largestCount) {reads : BoundForm → Bool}
    (hreads : reads .top = true) :
    (Statement.ofTokens
          (unplaced (words (tokenize (insertTop entry count))))).isQuery = true ∧
      (Statement.ofTokens
          (unplaced (words (tokenize (insertTop entry count))))).boundIn reads =
        .rows count := by
  have htokens : unplaced (words (tokenize (insertTop entry count))) =
      [] ++
        ⟨⟨.keyword .select, "select"⟩, 0, 0, 0⟩ ::
          ([] ++
            [⟨⟨.identifier, "top"⟩, 0, 0, 0⟩, ⟨⟨.number, toString count⟩, 0, 0, 0⟩] ++
            wrapperRest (Relayout.stripping.tokens (tokenize entry))) :=
    unplaced_significant_insertTop h hoffset count
  have hcombined := h.isCombined_insertTop hoffset count
  rw [hoverhang,
    ← Statement.eq_unplaced_words (F := Statement.isCombined) (by simp)] at hcombined
  have hwrites : WritesTop [] ⟨⟨.identifier, "top"⟩, 0, 0, 0⟩
      ⟨⟨.number, toString count⟩, 0, 0, 0⟩ := ⟨by simp, rfl, rfl⟩
  have hkind : StatementKind.ofTokens
        (unplaced (words (tokenize (insertTop entry count)))) = .select := by
    rw [htokens, List.nil_append, ← List.singleton_append,
      StatementKind.ofTokens_append _ rfl]
    rfl
  have hliteral : RowBound.literal? ⟨⟨.number, toString count⟩, 0, 0, 0⟩ =
      some count :=
    (RowBound.literal?_eq rfl).trans (if_pos hcount)
  constructor
  · rw [Statement.isQuery, Statement.mainKind_ofTokens, hkind]
    rfl
  · apply hwrites.boundIn_eq rfl rfl htokens (hkind.trans_ne (by decide))
      (hkind.trans_ne (by decide)) hcombined hliteral _ hreads
    · simp [Section.earlier, Piece.ofTokens_nil, Section.cut]
    · intro previous part hpart
      rw [Statement.boundsOverhang_eq_false_iff] at hbounds
      apply Section.bound_of_not_writesBound
      exact Section.writesBound_of_mem_cut
        (writesBound_of_mem_wrapperRest h.depth_stripped hbounds) hpart
    · rintro next (hnext : some _ = some next)
      rw [← Option.some.inj hnext]
      rfl

end Wrapped

/-- An unbounded query of a closed script gets the words of the bound behind its first
`SELECT` outside parentheses and the `DISTINCT` or `ALL` that follows it. If it has no
such `SELECT`, or a set operator, it is put into parentheses with the words before
them. It has the bound then. A fraction directly behind the place goes on with the
count, though, and before `percent` the count is no number of rows; and in the
parentheses no `)` may close nothing before a set operator or a word of a bound. -/
theorem words_bounded_sqlServer {text : String} (hclosed : IsClosed text)
    {statement : Statement} (h : statements text = [statement])
    (hunbounded : statement.isUnbounded = true) {count : Nat}
    (hcount : count ≤ RowBound.largestCount) :
    (statement.takesTop = true →
        (∃ front word later, TopGoesAfter statement.tokens front word later) ∧
          ∀ front word later, TopGoesAfter statement.tokens front word later →
            beginsFraction later = false →
            words (tokenize (bounded text count .sqlServer)) =
                words (front ++ [word]) ++
                  ⟨.identifier, "top"⟩ :: ⟨.number, toString count⟩ :: words later ++
                  [separator] ∧
              ((∀ next ∈ (words later).head?, next.isWord "percent" = false) →
                rowLimit? (bounded text count .sqlServer) .sqlServer =
                  some (count : Int))) ∧
      (statement.takesTop = false →
        words (tokenize (bounded text count .sqlServer)) =
            wrapperWords count ++
              wrapperOpening ::
                (words statement.tokens ++ wrapperClosing :: wrapperAlias) ++
              [separator] ∧
          (statement.combinesOverhang = false → statement.boundsOverhang = false →
            rowLimit? (bounded text count .sqlServer) .sqlServer =
              some (count : Int))) := by
  have hmem : statement ∈ statements text := h ▸ List.mem_singleton_self statement
  have hentry := hclosed.isEntry_plainText hmem
  have hbounded : bounded text count .sqlServer =
      insertTop statement.plainText count ++ ";" := by
    rw [bounded_of_singleton h, if_pos hunbounded]
    rfl
  rw [Statement.isUnbounded, Bool.and_eq_true, Bool.not_eq_true'] at hunbounded
  obtain ⟨hquery, hunbounded⟩ := hunbounded
  have hsame : words (tokenize statement.plainText) = words statement.tokens :=
    hclosed.significant_tokenize_plainText hmem
  have hinserted := hentry.isEntry_insertTop count
    ((hclosed.eq_plainText (F := Statement.isQuery) hmem (by simp)).trans hquery)
  rw [hbounded, hinserted.words_separator]
  constructor
  · intro htakes
    rw [Statement.takesTop, Bool.and_eq_true, Bool.not_eq_true',
      List.any_eq_true] at htakes
    obtain ⟨hcombined, hselect⟩ := htakes
    obtain ⟨before, select, rest, hfirst⟩ :=
      exists_firstSelect (by simpa using hselect)
    refine ⟨hfirst.exists_topGoesAfter, fun front word later hplace hfraction =>
      ⟨?_, fun hpercent => ?_⟩⟩
    · rw [words_insertTop_plainText hclosed hmem hquery hcombined hplace hfraction
        count]
    · obtain ⟨hisQuery, hbound⟩ :=
        boundIn_insertTop_plainText hclosed hmem hquery hcombined hplace hfraction
          count hunbounded hcount hpercent (Dialect.reads_primary .sqlServer)
      exact hinserted.rowLimit?_separator hisQuery hbound
  · intro htakes
    have hoffset : topOffset? statement.plainText = none := by
      apply hentry.topOffset?_eq_none
      rw [Statement.takesTop, Bool.and_eq_false_iff, Bool.not_eq_false',
        List.any_eq_false] at htakes
      refine htakes.imp
        (hclosed.eq_plainText (F := Statement.isCombined) hmem (by simp)).trans
        fun hnone => ?_
      exact forall_keyword?_of_words_eq hsame.symm (p := (· ≠ some .select)) (by simp)
        (by simpa using hnone)
    refine ⟨?_, fun hoverhang hbounds => ?_⟩
    · rw [words, significant_insertTop hentry hoffset, ← words, hsame]
    · rw [← Statement.ofTokens_tokens hmem] at hoverhang hbounds
      rw [← Statement.combinesOverhang_eq_of_significant_eq hsame] at hoverhang
      rw [← Statement.boundsOverhang_eq_of_words_eq hsame] at hbounds
      obtain ⟨hisQuery, hbound⟩ := boundIn_insertTop_of_none hentry hoffset hoverhang
        hbounds hcount (Dialect.reads_primary .sqlServer)
      exact hinserted.rowLimit?_separator hisQuery hbound

def quantifiedScript : String := "/*é*/ select distinct'é', .5 from t"

theorem words_bounded_sqlServer_quantifiedScript :
    ∃ statement front word later, IsClosed quantifiedScript ∧
      statements quantifiedScript = [statement] ∧ statement.isUnbounded = true ∧
      10 ≤ RowBound.largestCount ∧ statement.takesTop = true ∧
      TopGoesAfter statement.tokens front word later ∧ beginsFraction later = false ∧
      (∀ next ∈ (words later).head?, next.isWord "percent" = false) ∧
      words (tokenize (bounded quantifiedScript 10 .sqlServer)) =
        words (front ++ [word]) ++
          ⟨.identifier, "top"⟩ :: ⟨.number, toString 10⟩ :: words later ++
          [separator] ∧
      rowLimit? (bounded quantifiedScript 10 .sqlServer) .sqlServer = some 10 ∧
      bounded quantifiedScript 10 .sqlServer =
        "select distinct top 10'é', .5 from t;" := by
  have hclosed : IsClosed quantifiedScript :=
    IsClosed.of_space (by decide +kernel) (by decide +kernel)
  have hstatements : statements quantifiedScript =
      [Statement.ofTokens (tokenize quantifiedScript)] :=
    statements_eq_singleton (by decide +kernel)
  have hunbounded :
      (Statement.ofTokens (tokenize quantifiedScript)).isUnbounded = true := by
    decide +kernel
  have htakes : (Statement.ofTokens (tokenize quantifiedScript)).takesTop = true := by
    decide +kernel
  have hfirst : FirstSelect (tokenize quantifiedScript)
      [⟨⟨.blockComment, "/*é*/"⟩, 0, 0, 5⟩, ⟨⟨.whitespace, " "⟩, 0, 5, 6⟩]
      ⟨⟨.keyword .select, "select"⟩, 0, 6, 12⟩
      ([⟨⟨.whitespace, " "⟩, 0, 12, 13⟩] ++
        ⟨⟨.keyword .distinct, "distinct"⟩, 0, 13, 21⟩ ::
          (tokenize quantifiedScript).drop 5) :=
    ⟨by decide +kernel, by decide, by decide, by decide +kernel⟩
  have hplace := TopGoesAfter.quantifier hfirst (by decide) (by decide)
  have hfraction : beginsFraction ((tokenize quantifiedScript).drop 5) = false := by
    decide +kernel
  have hpercent : ∀ next ∈ (words ((tokenize quantifiedScript).drop 5)).head?,
      next.isWord "percent" = false := by decide +kernel
  have hcount : 10 ≤ RowBound.largestCount := by decide
  obtain ⟨hwords, hlimit⟩ := ((words_bounded_sqlServer hclosed hstatements hunbounded
    hcount).1 htakes).2 _ _ _ hplace hfraction
  exact ⟨_, _, _, _, hclosed, hstatements, hunbounded, hcount, htakes, hplace,
    hfraction, hpercent, hwords, hlimit hpercent, by decide +kernel⟩

def fractionScript : String := "select.5 from t"

/-- The count goes on with the fraction, so that the query has no count and still no
limit. -/
theorem words_bounded_sqlServer_fractionScript :
    IsClosed fractionScript ∧
      (statements fractionScript).map
          (fun statement => (statement.isUnbounded, statement.takesTop)) =
        [(true, true)] ∧
      bounded fractionScript 10 .sqlServer = "select top 10.5 from t;" ∧
      words (tokenize (bounded fractionScript 10 .sqlServer)) ≠
        [⟨.keyword .select, "select"⟩, ⟨.identifier, "top"⟩, ⟨.number, toString 10⟩,
          ⟨.dot, "."⟩, ⟨.number, "5"⟩, ⟨.keyword .from, "from"⟩, ⟨.identifier, "t"⟩,
          separator] ∧
      rowLimit? (bounded fractionScript 10 .sqlServer) .sqlServer = some (-1) := by
  have hbounded : bounded fractionScript 10 .sqlServer =
      "select top 10.5 from t;" := by
    decide +kernel
  rw [hbounded]
  exact ⟨IsClosed.of_space (by decide +kernel) (by decide +kernel), by decide +kernel,
    rfl, by decide +kernel, by decide +kernel⟩

end Script

end SqlOutline
