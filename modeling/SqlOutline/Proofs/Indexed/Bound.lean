import SqlOutline.Bound.Insertion
import SqlOutline.Proofs.Indexed.Scan
import SqlOutline.Proofs.Indexed.Script

/-!
# Bounds by index

The bound of a query is read off a slice of its clauses, from behind the last set
operator on. A bound with `TOP` is written into the text of the query at an offset in
characters, and the text is cut there at an offset in bytes.
-/

namespace SqlOutline.Indexed

/-! ## The bound of a query -/

section Bound

variable {σ : Type} (reads : BoundForm → Bool) (clauses : List (Clause σ))

def branchStart : Nat :=
  clauses.length - clauses.reverse.findIdx fun clause => clause.kind.isSetOperation

def boundIn : Checked RowBound := do
  let start := branchStart clauses
  let branch ← slice clauses start clauses.length
  .ok (branch.foldl (fun bound clause =>
    let found := RowBound.ofClause reads (start != 0) clause
    if found != .absent then found else bound) .absent)

theorem branchStart_le_length : branchStart clauses ≤ clauses.length :=
  Nat.sub_le _ _

private theorem drop_branchStart :
    clauses.drop (branchStart clauses) =
      (clauses.reverse.takeWhile fun clause =>
        !clause.kind.isSetOperation).reverse := by
  rw [List.takeWhile_eq_take_findIdx_not, List.reverse_take, List.reverse_reverse,
    List.length_reverse]
  simp [branchStart]

private theorem branchStart_bne_zero :
    (branchStart clauses != 0) =
      clauses.any fun clause => clause.kind.isSetOperation := by
  rw [Bool.eq_iff_iff, bne_iff_ne, ← Nat.pos_iff_ne_zero, branchStart,
    Nat.sub_pos_iff_lt, ← List.length_reverse, List.findIdx_lt_length,
    ← List.any_eq_true, List.any_reverse]

end Bound

private theorem foldl_bound (bounds : List RowBound) (first : RowBound) :
    bounds.foldl (fun bound found => if found != .absent then found else bound)
        first =
      ((bounds.filter (· != .absent)).getLast?).getD first := by
  induction bounds generalizing first with
  | nil => rfl
  | cons found bounds ih =>
    rw [List.foldl_cons, ih, List.filter_cons]
    split
    · rw [List.getLast?_cons]
      rfl
    · rfl

theorem boundIn_eq_ok (statement : Statement) (reads : BoundForm → Bool) :
    boundIn reads statement.clauses = .ok (statement.boundIn reads) := by
  rw [boundIn, slice_length_eq_ok (branchStart_le_length _), ok_bind,
    Statement.boundIn, Statement.isCombined, Statement.lastBranch, ← drop_branchStart,
    ← branchStart_bne_zero, ← foldl_bound, List.foldl_map]

/-! ## A cut in a text -/

def charOffsets : Nat → List Char → List Nat
  | _, [] => []
  | byte, c :: cs => byte :: charOffsets (byte + c.utf8Size) cs

def byteOffset (text : String) (offset : Nat) : Nat :=
  ((charOffsets 0 text.toList)[offset]?).getD text.utf8ByteSize

def splitAtByte (text : String) (byte : Nat) : Checked (String × String) :=
  if h : String.Pos.Raw.IsValid text ⟨byte⟩ then
    .ok ((text.sliceTo ⟨⟨byte⟩, h⟩).copy, (text.sliceFrom ⟨⟨byte⟩, h⟩).copy)
  else .error .boundary

private theorem utf8ByteSize_ofList_cons (c : Char) (cs : List Char) :
    (String.ofList (c :: cs)).utf8ByteSize =
      c.utf8Size + (String.ofList cs).utf8ByteSize := by
  have happend : String.ofList (c :: cs) =
      String.singleton c ++ String.ofList cs := by
    rw [String.singleton_eq_ofList, ← String.ofList_append]
    rfl
  rw [happend, String.utf8ByteSize_append, String.utf8ByteSize_singleton]

private theorem getD_charOffsets (byte : Nat) (cs : List Char) (offset : Nat) :
    ((charOffsets byte cs)[offset]?).getD (byte + (String.ofList cs).utf8ByteSize) =
      byte + (String.ofList (cs.take offset)).utf8ByteSize := by
  induction cs generalizing byte offset with
  | nil => rw [List.take_nil]; rfl
  | cons c cs ih =>
    cases offset with
    | zero => rfl
    | succ offset =>
      rw [charOffsets, List.getElem?_cons_succ, List.take_succ_cons,
        utf8ByteSize_ofList_cons, utf8ByteSize_ofList_cons, ← Nat.add_assoc,
        ← Nat.add_assoc, ih]

private theorem byteOffset_eq (text : String) (offset : Nat) :
    byteOffset text offset =
      (String.ofList (text.toList.take offset)).utf8ByteSize := by
  have h := getD_charOffsets 0 text.toList offset
  rwa [Nat.zero_add, Nat.zero_add, String.ofList_toList] at h

private theorem splitAtByte_append (first second : String) :
    splitAtByte (first ++ second) first.utf8ByteSize = .ok (first, second) := by
  have hvalid : String.Pos.Raw.IsValid (first ++ second) ⟨first.utf8ByteSize⟩ :=
    String.Pos.Raw.isValid_iff_exists_append.2 ⟨first, second, rfl, rfl⟩
  have hsplits :
      (⟨⟨first.utf8ByteSize⟩, hvalid⟩ : (first ++ second).Pos).Splits first second :=
    ⟨rfl, rfl⟩
  obtain ⟨hfirst, hsecond⟩ := (String.Pos.splits _).eq hsplits
  rw [splitAtByte, dif_pos hvalid, hfirst, hsecond]

theorem splitAtByte_eq_ok (text : String) (offset : Nat) :
    splitAtByte text (byteOffset text offset) =
      .ok (String.ofList (text.toList.take offset),
        String.ofList (text.toList.drop offset)) := by
  have hcut := splitAtByte_append (String.ofList (text.toList.take offset))
    (String.ofList (text.toList.drop offset))
  rwa [← String.ofList_append, List.take_append_drop, String.ofList_toList,
    ← byteOffset_eq] at hcut

/-! ## Bounded queries -/

def insertTop (query : String) (count : Nat) : Checked String := do
  let tokens ← tokenize query
  let found ← statements tokens
  let place? : Option Nat := do
    let statement ← found.head?
    guard !statement.isCombined
    let select ← statement.clause? .select
    let quantifier := select.significantBody.head?.filter fun token =>
      token.isKeyword .distinct || token.isKeyword .all
    let word ← quantifier.or select.head.getLast?
    return word.stop
  match place? with
  | some offset => do
    let (before, behind) ← splitAtByte query (byteOffset query offset)
    .ok (before ++ s!" top {count}" ++ behind)
  | none => .ok s!"select top {count} * from ({query}) as limited"

theorem insertTop_eq_ok (query : String) (count : Nat) :
    insertTop query count = .ok (Script.insertTop query count) := by
  rw [insertTop, tokenize_eq_ok, ok_bind, statements_eq_ok, ok_bind, Script.insertTop]
  change (match Script.topOffset? query with | some _ => _ | none => _) = _
  cases Script.topOffset? query with
  | none => rfl
  | some offset =>
    dsimp only
    rw [splitAtByte_eq_ok]
    rfl

def insertBound (query : String) (count : Nat) : BoundForm → Checked String
  | .limit => .ok s!"{query} limit {count}"
  | .fetch => .ok s!"{query} fetch first {count} rows only"
  | .top => insertTop query count

theorem insertBound_eq_ok (query : String) (count : Nat) (form : BoundForm) :
    insertBound query count form = .ok (Script.insertBound query count form) := by
  cases form with
  | limit => rfl
  | fetch => rfl
  | top => exact insertTop_eq_ok query count

def lacksBound (dialect : Dialect) (statement : Statement) : Checked Bool :=
  if statement.isQuery then do
    let bound ← boundIn dialect.reads statement.clauses
    let written ← boundIn (fun _ => true) statement.clauses
    .ok (bound == .absent && written == .absent)
  else .ok false

theorem lacksBound_eq_ok (dialect : Dialect) (statement : Statement) :
    lacksBound dialect statement = .ok (statement.lacksBound dialect) := by
  rw [lacksBound, Statement.lacksBound, Statement.rowBound, Statement.isBounded]
  split
  · next hquery => simp [boundIn_eq_ok, hquery, bne]
  · next hquery => simp [hquery]

def line (count : Nat) (dialect : Dialect) (statement : Statement) :
    Checked (String × Bool) := do
  let lacks ← lacksBound dialect statement
  if lacks then do
    let text ← insertBound statement.plainText count dialect.primary
    .ok (text ++ ";", true)
  else .ok (statement.plainText ++ ";", false)

theorem line_eq_ok (count : Nat) (dialect : Dialect) (statement : Statement) :
    line count dialect statement =
      .ok (if statement.lacksBound dialect then
          Script.insertBound statement.plainText count dialect.primary ++ ";"
        else statement.plainText ++ ";", statement.lacksBound dialect) := by
  rw [line, lacksBound_eq_ok, ok_bind]
  split
  · next hlacks => rw [insertBound_eq_ok, ok_bind, hlacks]
  · next hlacks => rw [eq_false_of_ne_true hlacks]

end SqlOutline.Indexed
