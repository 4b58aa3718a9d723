import SqlOutline.Lineage.TableUse
import SqlOutline.Proofs.Indexed.Heading
import SqlOutline.Statement.Basic

/-!
# Items by index

Lists between commas are read by index in one pass: a flag says whether an item is
about to begin. The names that a `WITH` clause defines and the tables that a `FROM`
clause lists are read in this way.
-/

namespace SqlOutline.Indexed

/-! ## What is left of a list -/

section Items

variable {α : Type}

def itemOf (pieces : List Piece) : List Piece :=
  pieces.takeWhile fun piece => !piece.isKind .comma

def laterItems (read : List Piece → Option α) (pieces : List Piece) : List α :=
  (pieces.splitOnP (Piece.isKind .comma)).tail.filterMap read

def remaining (read : List Piece → Option α) (expecting : Bool)
    (pieces : List Piece) : List α :=
  if expecting then (read (itemOf pieces)).toList ++ laterItems read pieces
  else laterItems read pieces

variable {read : List Piece → Option α} {piece : Piece}

theorem itemOf_cons (pieces : List Piece) (h : piece.isKind .comma = false) :
    itemOf (piece :: pieces) = piece :: itemOf pieces :=
  List.takeWhile_cons_of_pos (by simp [h])

private theorem splitOnP_eq_cons (pieces : List Piece) :
    pieces.splitOnP (Piece.isKind .comma) =
      itemOf pieces :: (pieces.splitOnP (Piece.isKind .comma)).tail := by
  induction pieces with
  | nil => rw [List.splitOnP_nil]; rfl
  | cons piece pieces ih =>
    rw [List.splitOnP_cons_eq_if_modifyHead]
    split
    · next hcomma =>
        rw [List.tail_cons, itemOf, List.takeWhile_cons_of_neg (by simp [hcomma])]
    · next hcomma =>
      rw [ih, itemOf_cons pieces (by simpa using hcomma)]
      rfl

theorem filterMap_splitOnP (pieces : List Piece) :
    (pieces.splitOnP (Piece.isKind .comma)).filterMap read =
      remaining read true pieces := by
  rw [splitOnP_eq_cons, remaining, if_pos rfl, laterItems, List.filterMap_cons]
  cases read (itemOf pieces) <;> rfl

private theorem laterItems_cons (pieces : List Piece)
    (h : piece.isKind .comma = false) :
    laterItems read (piece :: pieces) = laterItems read pieces := by
  rw [laterItems, laterItems, List.splitOnP_cons_eq_if_modifyHead,
    if_neg (by simp [h]), List.tail_modifyHead]

theorem remaining_nil (h : read [] = none) (expecting : Bool) :
    remaining read expecting [] = [] := by
  rw [remaining, laterItems, List.splitOnP_nil, itemOf, List.takeWhile_nil, h]
  cases expecting <;> rfl

theorem remaining_comma (h : read [] = none) (hcomma : piece.isKind .comma = true)
    (pieces : List Piece) (expecting : Bool) :
    remaining read expecting (piece :: pieces) = remaining read true pieces := by
  rw [← filterMap_splitOnP, remaining, laterItems,
    List.splitOnP_cons_eq_if_modifyHead, if_pos hcomma, List.tail_cons, itemOf,
    List.takeWhile_cons_of_neg (by simp [hcomma]), h]
  cases expecting <;> rfl

theorem remaining_false_cons (pieces : List Piece) (h : piece.isKind .comma = false) :
    remaining read false (piece :: pieces) = remaining read false pieces :=
  laterItems_cons pieces h

theorem remaining_true_cons (pieces : List Piece) (h : piece.isKind .comma = false) :
    remaining read true (piece :: pieces) =
      (read (piece :: itemOf pieces)).toList ++ remaining read false pieces := by
  rw [remaining, if_pos rfl, itemOf_cons pieces h, laterItems_cons pieces h]
  rfl

theorem remaining_cons_of_read_eq (hread : ∀ item, read (piece :: item) = read item)
    (h : piece.isKind .comma = false) (pieces : List Piece) (expecting : Bool) :
    remaining read expecting (piece :: pieces) = remaining read expecting pieces := by
  cases expecting with
  | false => exact remaining_false_cons pieces h
  | true =>
    rw [remaining_true_cons pieces h, hread]
    rfl

/-- A piece that no item with a reading begins with, or that stands within one. -/
theorem remaining_cons_of_read_eq_none {expecting : Bool}
    (hread : expecting = true → ∀ item, read (piece :: item) = none)
    (h : piece.isKind .comma = false) (pieces : List Piece) :
    remaining read expecting (piece :: pieces) = remaining read false pieces := by
  cases expecting with
  | false => exact remaining_false_cons pieces h
  | true =>
    rw [remaining_true_cons pieces h, hread rfl, Option.toList_none, List.nil_append]

end Items

structure ListState (α : Type) where
  found : List α
  expecting : Bool

/-! ## The names that are defined -/

def definedNames (body : List Token) : Checked (List String) :=
  loop body.length
    (fun index (state : ListState String) => do
      let token ← element body index
      if token.opens then do
        let close ← matchingClose body index
        .ok (.next (close + 1) state)
      else if token.kind = .comma then .ok (.next (index + 1) ⟨state.found, true⟩)
      else if token.isIdentifier && state.expecting then
        .ok (.next (index + 1) ⟨state.found ++ [token.name], false⟩)
      else if token.isTrivia then .ok (.next (index + 1) state)
      else .ok (.next (index + 1) ⟨state.found, false⟩))
    (fun _ state => state.found) 0 ⟨[], true⟩

def definitions {σ : Type} (clauses : List (Clause σ)) :
    Checked (List String × Bool) :=
  match clauses.find? fun clause => clause.kind == .with with
  | some clause => do
    let names ← definedNames clause.body
    .ok (names, clause.head.any (·.isKeyword .recursive))
  | none => .ok ([], false)

theorem isKind_comma_single {token : Token} (h : token.kind ≠ .comma) :
    (Piece.single token).isKind .comma = false := by
  simpa [Piece.isKind] using h

private theorem isIdentifier_eq_false_of_isTrivia {token : Token}
    (h : token.isTrivia = true) : token.isIdentifier = false := by
  rw [Lexeme.isIdentifier, ← Bool.not_eq_true, beq_iff_eq]
  intro hkind
  simp [Lexeme.isTrivia, hkind, TokenKind.isTrivia] at h

private theorem following_eq_of_isTrivia {tokens : List Token} {index : Nat}
    {token : Token} (htoken : tokens[index]? = some token)
    (htrivia : token.isTrivia = true) :
    following tokens index = following tokens (index + 1) := by
  have hsplit : tokens.drop index = [token] ++ tokens.drop (index + 1) :=
    drop_eq_cons htoken
  exact following_eq hsplit (by simpa using htrivia)

theorem following_eq_nil_of_le {tokens : List Token} {start : Nat}
    (h : tokens.length ≤ start) : following tokens start = [] :=
  following_eq_nil (by simp [List.drop_eq_nil_of_le h])

theorem definedName?_single (token : Token) (item : List Piece) :
    Statement.definedName? (.single token :: item) =
      if token.isIdentifier then some token.name else none := rfl

theorem definedNames_eq_ok (body : List Token) :
    definedNames body =
      .ok ((Piece.commaItems (Piece.ofTokens body)).filterMap
        Statement.definedName?) := by
  have hnil : Statement.definedName? [] = none := rfl
  have htarget : (Piece.commaItems (Piece.ofTokens body)).filterMap
        Statement.definedName? =
      remaining Statement.definedName? true (following body 0) := filterMap_splitOnP _
  rw [htarget]
  refine loop_eq_ok (fun index (state : ListState String) => state.found ++
    remaining Statement.definedName? state.expecting (following body index) =
      remaining Statement.definedName? true (following body 0)) ?_ ?_ rfl
  · intro index state hlength hinv
    rwa [following_eq_nil_of_le hlength, remaining_nil hnil, List.append_nil] at hinv
  · intro index state hlt hinv
    have htoken := List.getElem?_eq_getElem hlt
    rw [element_eq_ok htoken, ok_bind]
    split
    · next hopens =>
      obtain ⟨closing, hfollowing⟩ := following_eq_group htoken hopens
      rw [matchingClose_eq_ok htoken hopens, ok_bind]
      refine ⟨_, rfl, by rw [closeOf]; omega, ?_⟩
      rwa [hfollowing, remaining_cons_of_read_eq (fun _ => rfl) rfl] at hinv
    · next hopens =>
      by_cases htrivia : body[index].isTrivia = true
      · have hcomma : body[index].kind ≠ .comma := fun h => by
          simp [Lexeme.isTrivia, h, TokenKind.isTrivia] at htrivia
        rw [if_neg hcomma, isIdentifier_eq_false_of_isTrivia htrivia, Bool.false_and,
          if_neg Bool.false_ne_true, if_pos htrivia]
        rw [following_eq_of_isTrivia htoken htrivia] at hinv
        exact ⟨_, rfl, Nat.lt_succ_self _, hinv⟩
      · rw [following_eq_single htoken (by simpa using htrivia)
          (by simpa using hopens)] at hinv
        rw [if_neg htrivia]
        split
        · next hcomma =>
          rw [remaining_comma hnil (by simpa [Piece.isKind] using hcomma)] at hinv
          exact ⟨_, rfl, Nat.lt_succ_self _, hinv⟩
        · next hcomma =>
          have hpiece := isKind_comma_single hcomma
          split
          · next hname =>
            obtain ⟨hidentifier, hexpecting⟩ := Bool.and_eq_true_iff.1 hname
            rw [hexpecting, remaining_true_cons _ hpiece, definedName?_single,
              if_pos hidentifier, Option.toList_some, ← List.append_assoc] at hinv
            exact ⟨_, rfl, Nat.lt_succ_self _, hinv⟩
          · next hname =>
            have hread (hexpecting : state.expecting = true) (item : List Piece) :
                Statement.definedName? (.single body[index] :: item) = none := by
              rw [hexpecting, Bool.and_true] at hname
              rw [definedName?_single, if_neg hname]
            rw [remaining_cons_of_read_eq_none hread hpiece] at hinv
            exact ⟨_, rfl, Nat.lt_succ_self _, hinv⟩

theorem definitions_eq_ok (statement : Statement) :
    definitions statement.clauses =
      .ok (statement.commonTables, statement.isRecursive) := by
  rw [definitions, Statement.commonTables, Statement.isRecursive, Statement.clause?]
  cases statement.clauses.find? fun clause => clause.kind == .with with
  | none => rfl
  | some clause =>
    simp only [definedNames_eq_ok, ok_bind]
    rfl

end SqlOutline.Indexed
