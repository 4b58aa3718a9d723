import SqlOutline.Bound.RowBound
import SqlOutline.Proofs.Statement.Extension
import SqlOutline.Proofs.Statement.Nested

/-!
# Set operations

Whether a statement combines queries is seen on its pieces (`isCombined_ofTokens`). A
set operator opens a clause whatever stands before it, and no other heading takes one
in. Likewise every `SELECT` outside parentheses is the head of a clause.
-/

namespace SqlOutline

/-- The clause that a keyword opens wherever it opens one. -/
def Keyword.clause? : Keyword → Option ClauseKind
  | .with => some .with
  | .select => some .select
  | .from => some .from
  | .join | .inner | .left | .right | .full | .outer | .cross | .natural => some .join
  | .on => some .on
  | .using => some .using
  | .where => some .where
  | .group => some .groupBy
  | .having => some .having
  | .window => some .window
  | .qualify => some .qualify
  | .order => some .orderBy
  | .limit => some .limit
  | .offset => some .offset
  | .fetch => some .fetch
  | .union => some (.setOperation .union)
  | .except => some (.setOperation .except)
  | .intersect => some (.setOperation .intersect)
  | .minus => some (.setOperation .minus)
  | .values => some .values
  | .insert => some .insert
  | .update => some .update
  | .delete => some .delete
  | .create => some .create
  | .drop => some .drop
  | .truncate => some .truncate
  | .set => some .set
  | _ => none

/-- Whether what stands around a word decides if it opens a clause of this kind. -/
def ClauseKind.isConditional : ClauseKind → Bool
  | .with | .from | .join | .groupBy | .orderBy | .set => true
  | .insert | .update | .delete | .create | .drop | .truncate => true
  | _ => false

namespace Heading

/-! ## Headings by their clauses -/

private theorem any_clause_wordAnd (p : ClauseKind → Bool) (clause : ClauseKind)
    (more : Keyword → Bool) (following : List Piece) :
    (wordAnd clause more following).any (fun heading => p heading.clause) =
      p clause := by
  unfold wordAnd
  split <;> rfl

private theorem any_clause_wordBy (p : ClauseKind → Bool) {clause : ClauseKind}
    (h : p clause = false) (following : List Piece) :
    (wordBy clause following).any (fun heading => p heading.clause) = false := by
  unfold wordBy
  split
  · exact h
  · rfl

private theorem any_clause_joinAfterModifier (p : ClauseKind → Bool)
    (h : p .join = false) (following : List Piece) :
    (joinAfterModifier following).any (fun heading => p heading.clause) = false := by
  unfold joinAfterModifier
  extract_lets
  split
  · exact h
  · rfl

theorem any_clause_ofKeyword?_of_not_removes {p : ClauseKind → Bool}
    (hp : ∀ clause : ClauseKind, clause.isConditional = true → p clause = false)
    (traits : StatementTraits) (previous : Option TokenKind) {keyword : Keyword}
    {following : List Piece}
    (h : (keyword == .except && removesColumns following) = false) :
    (ofKeyword? traits previous keyword following).any
        (fun heading => p heading.clause) =
      keyword.clause?.any p := by
  unfold ofKeyword?
  cases keyword
  case except =>
    have hcolumns : removesColumns following = false := h
    rw [hcolumns]
    exact any_clause_wordAnd p _ _ following
  case union | intersect | minus => exact any_clause_wordAnd p _ _ following
  case group =>
    exact (any_clause_wordBy p (hp .groupBy rfl) following).trans
      (hp .groupBy rfl).symm
  case order =>
    exact (any_clause_wordBy p (hp .orderBy rfl) following).trans
      (hp .orderBy rfl).symm
  case inner | left | right | full | outer | cross | natural =>
    exact (any_clause_joinAfterModifier p (hp .join rfl) following).trans
      (hp .join rfl).symm
  case «with» =>
    dsimp only
    split
    · exact any_clause_wordAnd p _ _ following
    · exact (hp .with rfl).symm
  all_goals
    dsimp only
    first
    | rfl
    | split <;> first | rfl | exact (hp _ (by rfl)).symm

/-- A keyword opens its clause wherever it stands, if that is of a kind that does not
hang on what stands around it. Only an `EXCEPT` before a list of columns opens
none. -/
theorem any_clause_ofKeyword? {p : ClauseKind → Bool}
    (hp : ∀ clause : ClauseKind, clause.isConditional = true → p clause = false)
    (traits : StatementTraits) (previous : Option TokenKind) (keyword : Keyword)
    (following : List Piece) :
    (ofKeyword? traits previous keyword following).any
        (fun heading => p heading.clause) =
      (keyword.clause?.any p &&
        !(keyword == .except && removesColumns following)) := by
  cases hcolumns : keyword == .except && removesColumns following with
  | false =>
    rw [any_clause_ofKeyword?_of_not_removes hp traits previous hcolumns,
      Bool.not_false, Bool.and_true]
  | true =>
    rw [Bool.and_eq_true, beq_iff_eq] at hcolumns
    obtain ⟨rfl, hremoves⟩ := hcolumns
    simp [ofKeyword?, hremoves]

theorem any_isSetOperation_ofKeyword? (traits : StatementTraits)
    (previous : Option TokenKind) (keyword : Keyword) (following : List Piece) :
    (ofKeyword? traits previous keyword following).any
        (fun heading => heading.clause.isSetOperation) =
      (keyword.setOperator?.isSome &&
        !(keyword == .except && removesColumns following)) := by
  have hclause : ∀ clause : ClauseKind,
      clause.isConditional = true → clause.isSetOperation = false := by
    rintro ⟨⟩ <;> simp [ClauseKind.isConditional, ClauseKind.isSetOperation]
  have hsame : keyword.clause?.any ClauseKind.isSetOperation =
      keyword.setOperator?.isSome := by
    cases keyword <;> rfl
  rw [any_clause_ofKeyword? hclause, hsame]

theorem any_isSelect_ofKeyword? (traits : StatementTraits)
    (previous : Option TokenKind) (keyword : Keyword) (following : List Piece) :
    (ofKeyword? traits previous keyword following).any
        (fun heading => heading.clause == .select) =
      (keyword == .select) := by
  have hclause : ∀ clause : ClauseKind,
      clause.isConditional = true → (clause == .select) = false := by
    rintro ⟨⟩ <;> simp [ClauseKind.isConditional]
  rw [any_clause_ofKeyword? hclause]
  cases keyword <;> rfl

end Heading

namespace Piece

def combinesBefore (piece : Piece) (rest : List Piece) : Bool :=
  piece.keyword?.any fun keyword =>
    keyword.setOperator?.isSome &&
      !(keyword == .except && Heading.removesColumns (significant rest))

def combines : List Piece → Bool
  | [] => false
  | piece :: pieces => piece.combinesBefore pieces || combines pieces

def IsOperand (piece : Piece) : Prop :=
  ∀ keyword ∈ piece.keyword?, keyword.setOperator? = none

theorem IsOperand.combinesBefore {piece : Piece} (h : piece.IsOperand)
    (rest : List Piece) : piece.combinesBefore rest = false := by
  unfold Piece.combinesBefore
  cases hkeyword : piece.keyword? with
  | none => rfl
  | some keyword =>
    rw [Option.any_some, h keyword hkeyword, Option.isSome_none, Bool.false_and]

theorem isOperand_of_keyword?_eq_none {piece : Piece} (h : piece.keyword? = none) :
    piece.IsOperand := by
  intro keyword hkeyword
  rw [h] at hkeyword
  exact absurd hkeyword (Option.not_mem_none keyword)

theorem isOperand_of_isTrivia {piece : Piece} (h : piece.isTrivia = true) :
    piece.IsOperand := by
  intro keyword hkeyword
  obtain ⟨token, rfl, hsome⟩ :=
    exists_single_of_keyword? (Option.isSome_of_mem hkeyword)
  rw [isTrivia, Lexeme.isTrivia_of_keyword? hsome] at h
  exact Bool.noConfusion h

theorem combines_append_of_isOperand {pieces : List Piece} (rest : List Piece)
    (h : ∀ piece ∈ pieces, piece.IsOperand) :
    combines (pieces ++ rest) = combines rest := by
  induction pieces with
  | nil => rfl
  | cons piece pieces ih =>
    rw [List.cons_append, combines, (h piece (List.mem_cons_self ..)).combinesBefore,
      Bool.false_or,
      ih fun other hother => h other (List.mem_cons_of_mem piece hother)]

/-- Pieces before one that is not a group combine the same whatever follows it. -/
theorem combines_append_cons (first : List Piece) {piece : Piece} (later : List Piece)
    (htrivia : piece.isTrivia = false) (hgroup : piece.isGroup = false) :
    combines (first ++ piece :: later) =
      (combines first || combines (piece :: later)) := by
  induction first with
  | nil => rfl
  | cons other first ih =>
    have hbefore : other.combinesBefore (first ++ piece :: later) =
        other.combinesBefore first := by
      unfold combinesBefore
      rw [significant_append_cons first later htrivia,
        Heading.removesColumns_append _ _ hgroup]
    rw [List.cons_append, combines, combines, hbefore, ih, Bool.or_assoc]

theorem any_isSetOperation_at? (traits : StatementTraits)
    (previous : Option TokenKind) (piece : Piece) (rest : List Piece) :
    (Heading.at? traits previous piece rest).any
        (fun heading => heading.clause.isSetOperation) =
      piece.combinesBefore rest := by
  unfold Heading.at? combinesBefore
  cases piece.keyword? with
  | none => rfl
  | some keyword =>
    exact Heading.any_isSetOperation_ofKeyword? traits previous keyword _

private theorem combines_drop_reach {traits : StatementTraits}
    {previous : Option TokenKind} {piece : Piece} {rest : List Piece}
    {heading : Heading} (h : Heading.at? traits previous piece rest = some heading) :
    combines (rest.drop (reach (heading.words - 1) rest)) = combines rest := by
  have hspans := (Heading.keyword?_of_at? h).2
  have hwords : ∀ word ∈ rest.take (reach (heading.words - 1) rest),
      word.IsOperand := by
    intro word hword
    cases htrivia : word.isTrivia with
    | true => exact isOperand_of_isTrivia htrivia
    | false =>
      have hmem : word ∈ significant (rest.take (reach (heading.words - 1) rest)) :=
        List.mem_filter.2 ⟨hword, by simpa using htrivia⟩
      rw [significant_take_reach] at hmem
      obtain ⟨keyword, hkeyword, hcontinues⟩ := hspans.2 word hmem
      intro other hother
      rw [hkeyword, Option.mem_some_iff] at hother
      rw [← hother]
      cases keyword <;> first | rfl | exact absurd hcontinues (by decide)
  calc
    combines (rest.drop (reach (heading.words - 1) rest)) =
      combines (rest.take (reach (heading.words - 1) rest) ++
        rest.drop (reach (heading.words - 1) rest)) :=
      (combines_append_of_isOperand _ hwords).symm
    _ = combines rest := by rw [List.take_append_drop]

end Piece

theorem Section.any_isSetOperation_cut (traits : StatementTraits)
    (previous : Option TokenKind) (pieces : List Piece) :
    ((cut traits previous pieces).2.any fun part => part.kind.isSetOperation) =
      Piece.combines pieces := by
  induction previous, pieces using Section.cut.induct traits with
  | case1 previous =>
    rw [cut]
    rfl
  | case2 previous piece rest heading hheading length head body more hcut ih =>
    have hoperator := Piece.any_isSetOperation_at? traits previous piece rest
    rw [hheading, Option.any_some] at hoperator
    rw [hcut] at ih
    rw [cut_cons_of_heading hheading hcut, List.any_cons, Piece.combines, ← hoperator,
      ih, Piece.combines_drop_reach hheading]
  | case3 previous piece rest hheading body more hcut ih =>
    have hoperator := Piece.any_isSetOperation_at? traits previous piece rest
    rw [hheading, Option.any_none] at hoperator
    rw [dite_eq_ite] at hcut ih
    rw [hcut] at ih
    rw [cut_cons_of_none hheading hcut, Piece.combines, ← hoperator, Bool.false_or]
    exact ih

/-! ## The heads of `SELECT` clauses -/

theorem Heading.eq_select_of_at? {traits : StatementTraits}
    {previous : Option TokenKind} {piece : Piece} {rest : List Piece}
    {heading : Heading} (h : at? traits previous piece rest = some heading)
    (hclause : heading.clause = .select) :
    ∃ token, piece = .single token ∧ token.isKeyword .select = true ∧
      heading.words = 1 := by
  obtain ⟨keyword, hkeyword, hheading⟩ := Option.bind_eq_some_iff.1 h
  have hselect :=
    any_isSelect_ofKeyword? traits previous keyword (Piece.significant rest)
  rw [hheading, Option.any_some, hclause, beq_self_eq_true, eq_comm,
    beq_iff_eq] at hselect
  subst hselect
  obtain ⟨token, rfl, -⟩ :=
    Piece.exists_single_of_keyword? (Option.isSome_of_mem hkeyword)
  exact ⟨token, rfl, Lexeme.isKeyword_iff.2 hkeyword,
    by rw [← Option.some.inj hheading]⟩

theorem Section.exists_head_of_select {traits : StatementTraits}
    {previous : Option TokenKind} {pieces : List Piece} {part : Section}
    (h : part ∈ (cut traits previous pieces).2) (hkind : part.kind = .select) :
    ∃ token, part.head = [token] ∧ token.isKeyword .select = true := by
  induction previous, pieces using Section.cut.induct traits with
  | case1 previous => simp [cut] at h
  | case2 previous piece rest heading hheading length head body more hcut ih =>
    rw [hcut] at ih
    rw [cut_cons_of_heading hheading hcut] at h
    rcases List.mem_cons.1 h with rfl | h
    · obtain ⟨token, rfl, hselect, hwords⟩ := Heading.eq_select_of_at? hheading hkind
      refine ⟨token, ?_, hselect⟩
      rw [hwords, headOf, Piece.reach, List.take_zero]
      rfl
    · exact ih h
  | case3 previous piece rest hheading body more hcut ih =>
    rw [dite_eq_ite] at hcut ih
    rw [hcut] at ih
    rw [cut_cons_of_none hheading hcut] at h
    exact ih h

theorem Passage.exists_head_of_select {passage : Passage} {part : Section}
    (h : part ∈ passage.sections) (hkind : part.kind = .select) :
    ∃ token, part.head = [token] ∧ token.isKeyword .select = true := by
  rcases eq_or_mem_headed h with rfl | hheaded
  · rcases passage.openingClause_eq with hopening | hopening <;>
      exact absurd (hopening.symm.trans hkind) (by decide)
  · exact Section.exists_head_of_select hheaded hkind

namespace Statement

theorem isCombined_ofTokens (tokens : List Token) :
    (ofTokens tokens).isCombined = Piece.combines (Piece.ofTokens tokens) := by
  have hsections : ((⟨false, tokens⟩ : Passage).sections.any fun part =>
      part.kind.isSetOperation) = Piece.combines (Piece.ofTokens tokens) := by
    have hcut := Section.any_isSetOperation_cut (StatementTraits.ofTokens tokens) none
      (Piece.ofTokens tokens)
    have hopening :
        (⟨false, tokens⟩ : Passage).openingClause.isSetOperation = false := by
      rcases Passage.openingClause_eq ⟨false, tokens⟩ with hkind | hkind <;>
        rw [hkind] <;> rfl
    rw [Passage.sections_eq]
    split
    · exact hcut
    · rw [List.any_cons, hopening, Bool.false_or]
      exact hcut
  obtain ⟨nested, hclauses⟩ := exists_nested_of_ofPassage nestingLimit ⟨false, tokens⟩
  rw [isCombined, ofTokens, hclauses, List.any_map, ← hsections]
  rfl

end Statement

end SqlOutline
