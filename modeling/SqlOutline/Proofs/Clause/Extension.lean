import SqlOutline.Proofs.Clause.Heading

/-!
# Headings before more text

A piece that goes on with no heading hides what follows it from the headings before
it. Only a `WITH` in a statement that inserts or creates looks at any piece at all
that follows it.
-/

namespace SqlOutline

/-- Whether no heading takes in the piece after its first word. -/
def Piece.EndsHeading (piece : Piece) : Prop :=
  ∀ keyword ∈ piece.keyword?, keyword.continuesHeading = false

theorem Piece.significant_append_cons (first : List Piece) {piece : Piece}
    (later : List Piece) (h : piece.isTrivia = false) :
    significant (first ++ piece :: later) =
      significant first ++ piece :: significant later := by
  simp [significant, h]

namespace Heading

variable {piece : Piece} (following later : List Piece)

private theorem bind_head?_append {more : Keyword → Bool} (h : piece.EndsHeading)
    (hmore : ∀ keyword, more keyword = true → keyword.continuesHeading = true) :
    ((following ++ piece :: later).head?.bind Piece.keyword?).any more =
      (following.head?.bind Piece.keyword?).any more := by
  cases following with
  | cons first following => rfl
  | nil =>
    rw [List.nil_append, List.head?_cons, List.head?_nil, Option.bind_some,
      Option.bind_none]
    cases hkeyword : piece.keyword? with
    | none => rfl
    | some keyword =>
      rw [Option.any_some, Option.any_none]
      by_contra htakes
      have hcontinues := hmore keyword (by simpa using htakes)
      rw [h keyword hkeyword] at hcontinues
      exact Bool.noConfusion hcontinues

theorem wordAnd_append (clause : ClauseKind) {more : Keyword → Bool}
    (h : piece.EndsHeading)
    (hmore : ∀ keyword, more keyword = true → keyword.continuesHeading = true) :
    wordAnd clause more (following ++ piece :: later) =
      wordAnd clause more following := by
  rw [wordAnd, wordAnd, bind_head?_append following later h hmore]

theorem wordBy_append (clause : ClauseKind) (h : piece.EndsHeading) :
    wordBy clause (following ++ piece :: later) = wordBy clause following := by
  cases following with
  | cons first following => rfl
  | nil =>
    have hby : piece.keyword? ≠ some .by := by
      intro hkeyword
      exact absurd (h .by hkeyword) (by decide)
    simp [wordBy, hby]

theorem joinAfterModifier_append (h : piece.EndsHeading) :
    joinAfterModifier (following ++ piece :: later) =
      joinAfterModifier following := by
  have hmodifies : piece.keyword?.any Keyword.modifiesJoin = false := by
    cases hkeyword : piece.keyword? with
    | none => rfl
    | some keyword =>
      rw [Option.any_some]
      by_contra hmodifies
      have hcontinues := continuesHeading_of_modifiesJoin (by simpa using hmodifies)
      rw [h keyword hkeyword] at hcontinues
      exact Bool.noConfusion hcontinues
  have hjoin : piece.keyword? ≠ some .join := by
    intro hkeyword
    exact absurd (h .join hkeyword) (by decide)
  have htake : (following ++ piece :: later).takeWhile
        (fun piece => piece.keyword?.any Keyword.modifiesJoin) =
      following.takeWhile fun piece => piece.keyword?.any Keyword.modifiesJoin := by
    rw [List.takeWhile_append, List.takeWhile_cons_of_neg (by simpa using hmodifies),
      List.append_nil]
    split
    · next hall => exact ((List.takeWhile_prefix _).eq_of_length hall).symm
    · rfl
  unfold joinAfterModifier
  simp only [htake]
  generalize hmore : (following.takeWhile fun piece =>
    piece.keyword?.any Keyword.modifiesJoin).length = more
  have hle : more ≤ following.length := hmore ▸ (List.takeWhile_sublist _).length_le
  rcases Nat.lt_or_eq_of_le hle with hlt | heq
  · rw [List.getElem?_append_left hlt]
  -- the modifiers reach to the piece, and that is no `JOIN`
  · rw [heq, List.getElem?_append_right (Nat.le_refl _), Nat.sub_self,
      List.getElem?_cons_zero, Option.bind_some, if_neg hjoin,
      List.getElem?_eq_none (Nat.le_refl _), Option.bind_none, if_neg (by simp)]

theorem removesColumns_append (h : piece.isGroup = false) :
    removesColumns (following ++ piece :: later) = removesColumns following := by
  cases following with
  | cons first following => rfl
  | nil =>
    cases piece with
    | single token => rfl
    | group opening inner closing => exact Bool.noConfusion h

/-- In a query definitions are opened at the very beginning only. -/
theorem opensDefinitions_eq_false {kind : StatementKind} (hinsert : kind ≠ .insert)
    (hcreate : kind ≠ .create) (previous : TokenKind) (following : List Piece) :
    opensDefinitions kind (some previous) following = false := by
  simp [opensDefinitions, hinsert, hcreate]

theorem opensDefinitions_append {kind : StatementKind} (previous : Option TokenKind)
    (hinsert : kind ≠ .insert) (hcreate : kind ≠ .create) (more : List Piece) :
    opensDefinitions kind previous more =
      opensDefinitions kind previous following := by
  cases previous with
  | none => rfl
  | some previous =>
    rw [opensDefinitions_eq_false hinsert hcreate,
      opensDefinitions_eq_false hinsert hcreate]

theorem ofKeyword?_append {traits : StatementTraits} (previous : Option TokenKind)
    (keyword : Keyword) (h : piece.EndsHeading) (hgroup : piece.isGroup = false)
    (hinsert : traits.kind ≠ .insert) (hcreate : traits.kind ≠ .create) :
    ofKeyword? traits previous keyword (following ++ piece :: later) =
      ofKeyword? traits previous keyword following := by
  unfold ofKeyword?
  simp only [wordAnd_append following later _ h continuesHeading_of_all_or_distinct,
    wordAnd_append following later _ h continuesHeading_of_recursive,
    wordBy_append following later _ h, joinAfterModifier_append following later h,
    removesColumns_append following later hgroup,
    opensDefinitions_append following previous hinsert hcreate
      (following ++ piece :: later)]

theorem at?_append {traits : StatementTraits} (previous : Option TokenKind)
    (first : Piece) (rest : List Piece) (h : piece.EndsHeading)
    (htrivia : piece.isTrivia = false) (hgroup : piece.isGroup = false)
    (hinsert : traits.kind ≠ .insert) (hcreate : traits.kind ≠ .create) :
    at? traits previous first (rest ++ piece :: later) =
      at? traits previous first rest := by
  unfold at?
  rw [Piece.significant_append_cons rest later htrivia]
  simp only [ofKeyword?_append _ _ previous _ h hgroup hinsert hcreate]

theorem words_le_of_spans {heading : Heading} (h : piece.EndsHeading)
    (hspans : heading.Spans (following ++ piece :: later)) :
    heading.words - 1 ≤ following.length := by
  by_contra hlonger
  have hmem : piece ∈ (following ++ piece :: later).take (heading.words - 1) := by
    rw [List.take_append, List.mem_append]
    right
    obtain ⟨count, hcount⟩ := Nat.exists_eq_succ_of_ne_zero
      (Nat.sub_ne_zero_of_lt (Nat.lt_of_not_le hlonger))
    rw [hcount, List.take_succ_cons]
    exact List.mem_cons_self ..
  obtain ⟨keyword, hkeyword, hcontinues⟩ := hspans.2 piece hmem
  rw [h keyword hkeyword] at hcontinues
  exact Bool.noConfusion hcontinues

end Heading

end SqlOutline
