import Mathlib.Data.List.Basic
import SqlOutline.Proofs.Indexed.Item
import SqlOutline.Proofs.Statement.Section

/-!
# Statements by index

A statement is parsed by index in one loop over its tokens. It keeps the clauses that
are finished, the clause that it is in, and the index of the last significant token; a
group is parsed where it begins.
-/

namespace SqlOutline.Indexed

variable {σ : Type}

/-! ## Groups -/

def group (read : Option (Bool → List Token → Checked σ)) (tokens : List Token)
    (opened close : Nat) (previous : Option Nat) (clause : ClauseKind) :
    Checked (List σ) := do
  let inner ← slice tokens (opened + 1) close
  match read with
  | none => .ok []
  | some read =>
    let kind ← kindAt tokens previous
    if Passage.followsFunction kind then do
      let (first, isQuery) ← leadingQuery inner 0
      let next ← nextSignificant inner 0
      if isQuery && next == some first then do
        let statement ← read false inner
        .ok [statement]
      else subqueriesWithin (read false) inner
    else if Passage.standsForRelation clause kind then do
      let statement ← read true inner
      .ok [statement]
    else do
      let (_, isQuery) ← leadingQuery inner 0
      if isQuery then do
        let statement ← read false inner
        .ok [statement]
      else subqueriesWithin (read false) inner

def Reads (tokens : List Token) (nested : Passage → List σ) :
    Option (Bool → List Token → Checked σ) → Prop
  | none => ∀ passage, nested passage = []
  | some read =>
    ∃ statement : Passage → σ, (∀ passage, nested passage = [statement passage]) ∧
      ∀ relation inner, inner.length < tokens.length →
        read relation inner = .ok (statement ⟨relation, inner⟩)

variable {tokens : List Token} {nested : Passage → List σ}
  {read : Option (Bool → List Token → Checked σ)}

private theorem length_groupContents_lt {opened : Nat} (h : opened < tokens.length) :
    (groupContents (tokens.drop (opened + 1))).length < tokens.length := by
  rw [groupContents, List.length_take, List.length_drop]
  omega

theorem group_eq_ok (hread : Reads tokens nested read) {opened : Nat}
    (hlt : opened < tokens.length) {previous : Option Nat} {kind : Option TokenKind}
    (hprevious : kindAt tokens previous = .ok kind) (clause : ClauseKind) :
    group read tokens opened (closeOf tokens opened) previous clause =
      .ok ((Passage.ofGroup clause kind
        (groupContents (tokens.drop (opened + 1)))).flatMap nested) := by
  rw [group, slice_closeOf hlt, ok_bind]
  generalize hinner : groupContents (tokens.drop (opened + 1)) = inner
  have hlength : inner.length < tokens.length := hinner ▸ length_groupContents_lt hlt
  cases read with
  | none => rw [List.flatMap_eq_nil_iff.2 fun passage _ => hread passage]
  | some read =>
    obtain ⟨statement, hnested, hstatement⟩ := hread
    have hwithin := subqueriesWithin_eq_ok fun body hbody =>
      hstatement false body (hbody.trans hlength)
    obtain ⟨first, hleading, hfirst, -⟩ := exists_leadingQuery_eq_ok inner 0
    obtain ⟨next, hnext, hnextIs⟩ := exists_nextSignificant_eq_ok inner 0
    rw [List.drop_zero] at hleading hfirst
    simp only [hprevious, hleading, hnext, hwithin, hstatement _ _ hlength, ok_bind,
      ← beginsQuery_eq hfirst hnextIs, Passage.ofGroup, funext hnested]
    split_ifs <;> simp [List.map_eq_flatMap, List.flatMap_assoc]

/-! ## Clauses -/

structure Pending (σ : Type) where
  clause : ClauseKind
  start : Nat
  headLength : Nat
  nested : List σ

def finish (tokens : List Token) (clauses : List (Clause σ)) (pending : Pending σ)
    (stop : Nat) : Checked (List (Clause σ)) := do
  let part ← slice tokens pending.start stop
  let headLength := min pending.headLength part.length
  let head ← slice part 0 headLength
  let body ← slice part headLength part.length
  if pending.clause == .leading && pending.nested.isEmpty &&
      part.all (·.isTrivia) then
    .ok clauses
  else .ok (clauses ++ [⟨pending.clause, head, body, pending.nested⟩])

def clausesOf (nested : Passage → List σ) (part : Section) : List (Clause σ) :=
  if part.kind == .leading && part.tokens.all (·.isTrivia) then []
  else [part.toClause (part.passages.flatMap nested)]

structure Pending.Writes (pending : Pending σ) (tokens : List Token)
    (nested : Passage → List σ) (part : Section) (index : Nat) : Prop where
  clause_eq : pending.clause = part.kind
  headLength_eq : pending.headLength = part.head.length
  nested_eq : pending.nested = part.passages.flatMap nested
  start_le : pending.start ≤ tokens.length
  drop_eq : tokens.drop pending.start = part.tokens ++ tokens.drop index
  isTrivia_eq : ∀ piece ∈ part.body, piece.isTrivia = piece.tokens.all (·.isTrivia)

private theorem ofPieces_eq_nil (clause : ClauseKind) (previous : Option TokenKind)
    {pieces : List Piece} (h : ∀ piece ∈ pieces, piece.isTrivia = true) :
    Passage.ofPieces clause previous pieces = [] := by
  induction pieces generalizing previous with
  | nil => rfl
  | cons piece pieces ih =>
    obtain ⟨hpiece, hpieces⟩ := List.forall_mem_cons.1 h
    cases piece with
    | single token => exact ih _ hpieces
    | group opening inner closing => exact Bool.noConfusion hpiece

theorem Pending.Writes.nested_eq_nil {pending : Pending σ} {part : Section}
    {index : Nat} (h : pending.Writes tokens nested part index)
    (htrivia : part.tokens.all (·.isTrivia) = true) : pending.nested = [] := by
  have hbody : ∀ piece ∈ part.body, piece.isTrivia = true := by
    intro piece hpiece
    rw [h.isTrivia_eq piece hpiece, List.all_eq_true]
    intro token htoken
    exact List.all_eq_true.1 htrivia token
      (List.mem_append_right _ (List.mem_flatMap.2 ⟨piece, hpiece, htoken⟩))
  rw [h.nested_eq, Section.passages, ofPieces_eq_nil _ _ hbody, List.flatMap_nil]

theorem Pending.Writes.finish_eq_ok {pending : Pending σ} {part : Section}
    {index : Nat} (h : pending.Writes tokens nested part index)
    (hindex : index ≤ tokens.length) (clauses : List (Clause σ)) :
    finish tokens clauses pending index = .ok (clauses ++ clausesOf nested part) := by
  have hlength := congrArg List.length h.drop_eq
  rw [List.length_drop, List.length_append, List.length_drop] at hlength
  have hstart := h.start_le
  have hpart : slice tokens pending.start index = .ok part.tokens := by
    rw [slice_eq_ok (by omega) hindex, h.drop_eq, List.take_left' (by omega)]
  have hle : part.head.length ≤ part.tokens.length := by
    rw [Section.tokens, List.length_append]
    exact Nat.le_add_right _ _
  have hhead : slice part.tokens 0 part.head.length = .ok part.head := by
    rw [slice_eq_ok (Nat.zero_le _) hle, List.drop_zero, Nat.sub_zero, Section.tokens,
      List.take_left' rfl]
  have hbody : slice part.tokens part.head.length part.tokens.length =
      .ok (part.body.flatMap Piece.tokens) := by
    rw [slice_length_eq_ok hle, Section.tokens, List.drop_left' rfl]
  have hnoise : (pending.clause == .leading && pending.nested.isEmpty &&
        part.tokens.all (·.isTrivia)) =
      (part.kind == .leading && part.tokens.all (·.isTrivia)) := by
    cases htrivia : part.tokens.all (·.isTrivia) with
    | false => rw [Bool.and_false, Bool.and_false]
    | true =>
      rw [h.nested_eq_nil htrivia, h.clause_eq, List.isEmpty_nil, Bool.and_true]
  simp only [finish, hpart, ok_bind, h.headLength_eq, Nat.min_eq_left hle, hhead,
    hbody, hnoise, clausesOf]
  rw [h.clause_eq, h.nested_eq]
  split
  · rw [List.append_nil]
  · rfl

/-! ## What is nested in more and more pieces -/

def after (previous : Option TokenKind) (pieces : List Piece) : Option TokenKind :=
  pieces.foldl
    (fun previous piece => if piece.isTrivia then previous else some piece.lastKind)
    previous

private theorem after_append_singleton (previous : Option TokenKind)
    (pieces : List Piece) (piece : Piece) :
    after previous (pieces ++ [piece]) =
      if piece.isTrivia then after previous pieces else some piece.lastKind := by
  rw [after, List.foldl_append]
  rfl

theorem ofPieces_append (clause : ClauseKind) (previous : Option TokenKind)
    (first second : List Piece) :
    Passage.ofPieces clause previous (first ++ second) =
      Passage.ofPieces clause previous first ++
        Passage.ofPieces clause (after previous first) second := by
  induction first generalizing previous with
  | nil => rfl
  | cons piece first ih =>
    cases piece with
    | single token => exact ih _
    | group opening inner closing =>
      rw [List.cons_append, Passage.ofPieces, Passage.ofPieces, ih, List.append_assoc]
      rfl

private theorem isTrivia_eq_of_mem_ofTokens {piece : Piece}
    (h : piece ∈ Piece.ofTokens tokens) :
    piece.isTrivia = piece.tokens.all (·.isTrivia) := by
  induction tokens using Piece.induction_ofTokens with
  | nil => simp [Piece.ofTokens_nil] at h
  | group token tokens hopens ih =>
    rw [Piece.ofTokens_cons_of_opens _ hopens, List.mem_cons] at h
    rcases h with rfl | h
    · simp [Piece.isTrivia, Piece.tokens, Lexeme.isTrivia_of_opens hopens]
    · exact ih h
  | single token tokens hopens ih =>
    rw [Piece.ofTokens_cons_of_not_opens _ hopens, List.mem_cons] at h
    rcases h with rfl | h
    · simp [Piece.isTrivia, Piece.tokens]
    · exact ih h

theorem Pending.Writes.append {pending : Pending σ} {part : Section}
    {index next : Nat} {piece : Piece} (h : pending.Writes tokens nested part index)
    (hpieces : piecesFrom tokens index = piece :: piecesFrom tokens next)
    {previous : Option TokenKind}
    (hprevious : previous = after (part.head.getLast?.map (·.kind)) part.body)
    {found : List σ}
    (hfound : found =
      pending.nested ++
        (Passage.ofPieces part.kind previous [piece]).flatMap nested) :
    ({ pending with nested := found } : Pending σ).Writes tokens nested
      { part with body := part.body ++ [piece] } next where
  clause_eq := h.clause_eq
  headLength_eq := h.headLength_eq
  start_le := h.start_le
  nested_eq := by
    rw [Section.passages, ofPieces_append, ← hprevious, List.flatMap_append, hfound,
      h.nested_eq, Section.passages]
  drop_eq := by
    have htokens := congrArg (·.flatMap Piece.tokens) hpieces
    simp only [piecesFrom, Piece.flatMap_tokens_ofTokens,
      List.flatMap_cons] at htokens
    rw [h.drop_eq, htokens]
    simp [Section.tokens]
  isTrivia_eq := by
    have hmem : piece ∈ Piece.ofTokens (tokens.drop index) := by
      rw [← piecesFrom, hpieces]
      exact List.mem_cons_self ..
    intro other hother
    rcases List.mem_append.1 hother with hother | hother
    · exact h.isTrivia_eq other hother
    · rw [List.mem_singleton.1 hother]
      exact isTrivia_eq_of_mem_ofTokens hmem

/-! ## The loop over the tokens -/

/-- The clauses that are finished, the pending one, and the index of the last
significant token. -/
structure Progress (σ : Type) where
  clauses : List (Clause σ)
  pending : Pending σ
  previous : Option Nat

def turn (read : Option (Bool → List Token → Checked σ)) (parser : Parser)
    (index : Nat) (progress : Progress σ) :
    Checked (Turn (Progress σ) (Progress σ)) := do
  let token ← element parser.tokens index
  if token.isTrivia then .ok (.next (index + 1) progress)
  else if token.opens then do
    let close ← matchingClose parser.tokens index
    let found ← group read parser.tokens index close progress.previous
      progress.pending.clause
    let pending :=
      { progress.pending with nested := progress.pending.nested ++ found }
    let previous := if close < parser.tokens.length then some close else none
    .ok (.next (close + 1) ⟨progress.clauses, pending, previous⟩)
  else do
    match ← clauseHead parser index progress.previous with
    | some (clause, stop) => do
      let headLength ← minus stop index
      let clauses ← finish parser.tokens progress.clauses progress.pending index
      let last ← minus stop 1
      .ok (.next stop ⟨clauses, ⟨clause, index, headLength, []⟩, some last⟩)
    | none => .ok (.next (index + 1) { progress with previous := some index })

structure Progress.Reaches (progress : Progress σ) (tokens : List Token)
    (nested : Passage → List σ) (target : List (Clause σ)) (index : Nat)
    (part : Section) (previous : Option TokenKind) : Prop where
  writes : progress.pending.Writes tokens nested part index
  previous_eq : previous = after (part.head.getLast?.map (·.kind)) part.body
  kindAt_eq_ok : index < tokens.length →
    kindAt tokens progress.previous = .ok previous
  eq_none_iff : previous = none ↔ ∀ token ∈ tokens.take index, token.isTrivia = true
  clauses_eq : progress.clauses ++
    (clausesOf nested { part with body := part.body ++
        (Section.cut (.ofTokens tokens) previous (piecesFrom tokens index)).1 } ++
      (Section.cut (.ofTokens tokens) previous (piecesFrom tokens index)).2.flatMap
        (clausesOf nested)) = target

section Step

variable {target : List (Clause σ)} {progress : Progress σ} {index : Nat}
  {part : Section} {previous : Option TokenKind} {token : Token}

private theorem all_take_succ (htoken : tokens[index]? = some token) :
    (∀ token ∈ tokens.take (index + 1), token.isTrivia = true) ↔
      (∀ token ∈ tokens.take index, token.isTrivia = true) ∧
        token.isTrivia = true := by
  obtain ⟨hlt, rfl⟩ := List.getElem?_eq_some_iff.1 htoken
  rw [List.take_succ_eq_append_getElem hlt, List.forall_mem_append,
    List.forall_mem_singleton]

private theorem not_all_take {next : Nat} (htoken : tokens[index]? = some token)
    (htrivia : token.isTrivia = false) (hlt : index < next) :
    ¬ ∀ token ∈ tokens.take next, token.isTrivia = true := by
  intro hall
  have hmem : token ∈ tokens.take next :=
    List.mem_of_getElem? (i := index) (by rwa [List.getElem?_take_of_lt hlt])
  rw [hall token hmem] at htrivia
  exact Bool.noConfusion htrivia

theorem Progress.Reaches.append
    (h : progress.Reaches tokens nested target index part previous) {piece : Piece}
    {next : Nat} (hpieces : piecesFrom tokens index = piece :: piecesFrom tokens next)
    (hheading : Heading.at? (.ofTokens tokens) previous piece
        (piecesFrom tokens next) = none) {found : List σ}
    (hfound : found =
      progress.pending.nested ++
        (Passage.ofPieces part.kind previous [piece]).flatMap nested)
    {last : Option Nat} {kind : Option TokenKind}
    (hkind : kind = if piece.isTrivia then previous else some piece.lastKind)
    (hlast : next < tokens.length → kindAt tokens last = .ok kind)
    (hnone : kind = none ↔ ∀ token ∈ tokens.take next, token.isTrivia = true) :
    (⟨progress.clauses, { progress.pending with nested := found }, last⟩ :
      Progress σ).Reaches tokens nested target next
      { part with body := part.body ++ [piece] } kind where
  writes := h.writes.append hpieces h.previous_eq hfound
  previous_eq := by rw [after_append_singleton, ← h.previous_eq, hkind]
  kindAt_eq_ok := hlast
  eq_none_iff := hnone
  clauses_eq := by
    have hclauses := h.clauses_eq
    rw [hpieces, Section.cut_cons_of_none hheading rfl, ← hkind] at hclauses
    rw [← hclauses]
    simp

theorem headOf_eq_take {words stop : Nat} (htoken : tokens[index]? = some token)
    (h : Indexed.Reaches tokens (index + 1) (words - 1) stop) :
    Section.headOf words (.single token) (piecesFrom tokens (index + 1)) =
      (tokens.drop index).take (stop - index) := by
  have hle := h.le
  obtain ⟨length, hlength⟩ := Nat.exists_eq_add_of_le hle
  rw [Section.headOf, List.flatMap_cons, h.flatMap_tokens_take, Piece.tokens,
    List.singleton_append, drop_eq_cons htoken, hlength,
    show index + 1 + length - index = length + 1 by omega, Nat.add_sub_cancel_left,
    List.take_succ_cons]

theorem Progress.Reaches.head
    (h : progress.Reaches tokens nested target index part previous)
    (htoken : tokens[index]? = some token) (hopens : token.opens = false)
    (htrivia : token.isTrivia = false) {heading : Heading}
    (hheading : Heading.at? (.ofTokens tokens) previous (.single token)
        (piecesFrom tokens (index + 1)) = some heading) {stop : Nat}
    (hstop : Indexed.Reaches tokens (index + 1) (heading.words - 1) stop) :
    ∃ head last,
      (⟨progress.clauses ++ clausesOf nested part,
          ⟨heading.clause, index, stop - index, []⟩, some (stop - 1)⟩ :
        Progress σ).Reaches tokens nested target stop ⟨heading.clause, head, []⟩
        (some last) := by
  have hle := hstop.le
  have hstopLength := hstop.le_length
  have hhead := headOf_eq_take htoken hstop
  have hlength : ((tokens.drop index).take (stop - index)).length = stop - index := by
    rw [List.length_take, List.length_drop]
    omega
  have hdrop : tokens.drop index =
      (tokens.drop index).take (stop - index) ++ tokens.drop stop := by
    rw [← Nat.add_sub_cancel' (Nat.le_of_succ_le hle), ← List.drop_drop,
      Nat.add_sub_cancel_left, List.take_append_drop]
  obtain ⟨last, hlast, -⟩ := Heading.exists_getLast?_of_at? hheading
  have hlastToken : tokens[stop - 1]? = some last := by
    rw [← hlast, hhead, List.getLast?_eq_getElem?, hlength,
      List.getElem?_take_of_lt (by omega), List.getElem?_drop]
    congr 1
    omega
  refine ⟨(tokens.drop index).take (stop - index), last.kind, ?_, ?_, ?_, ?_, ?_⟩
  · refine ⟨rfl, hlength.symm, rfl,
      Nat.le_of_lt (List.getElem?_eq_some_iff.1 htoken).1, ?_, by simp⟩
    rw [Section.tokens, List.flatMap_nil, List.append_nil]
    exact hdrop
  · rw [← hhead, hlast]
    rfl
  · intro _
    rw [kindAt, element_eq_ok hlastToken, ok_bind]
  · exact iff_of_false (Option.some_ne_none _)
      (not_all_take htoken htrivia (by omega))
  · have hclauses := h.clauses_eq
    rw [piecesFrom_eq_single htoken hopens, Section.cut_cons_of_heading hheading rfl,
      hstop.drop_eq, hlast, hhead] at hclauses
    rw [← hclauses]
    simp

private theorem first_eq_some_iff {first : Option Nat} (h : NextIs tokens 0 first)
    (htoken : tokens[index]? = some token) (htrivia : token.isTrivia = false) :
    first = some index ↔ ∀ token ∈ tokens.take index, token.isTrivia = true := by
  rcases h with hblank |
    @⟨first, firstToken, blank, -, hfirst, hfirstTrivia, hsplit, hblank⟩
  · rw [hblank token (List.mem_of_getElem? htoken)] at htrivia
    exact Bool.noConfusion htrivia
  · have htake : tokens.take first = blank := by
      have hlength := congrArg List.length hsplit
      have hlt := (List.getElem?_eq_some_iff.1 hfirst).1
      rw [List.length_append, List.length_drop, List.length_drop] at hlength
      rw [← List.drop_zero (l := tokens), hsplit, List.take_left' (by omega)]
    rw [← htake] at hblank
    rw [Option.some_inj]
    constructor
    · rintro rfl
      exact hblank
    · intro hall
      rcases Nat.lt_trichotomy first index with hlt | heq | hgt
      · exact absurd hall (not_all_take hfirst hfirstTrivia hlt)
      · exact heq
      · exact absurd hblank (not_all_take htoken htrivia hgt)

private theorem keyword?_eq_none_of_isTrivia (h : token.isTrivia = true) :
    token.keyword? = none := by
  refine Option.not_isSome_iff_eq_none.1 fun hkeyword => ?_
  rw [Lexeme.isTrivia_of_keyword? hkeyword] at h
  exact Bool.noConfusion h

theorem isKind_parenClose_of_closeOf {closing : Token}
    (h : tokens[closeOf tokens index]? = some closing) :
    closing.kind = .parenClose := by
  rw [closeOf, ← List.getElem?_drop] at h
  exact beq_iff_eq.1 (closes_of_getElem?_groupLength h)

/-- A turn of the loop never faults, and it keeps to what has been read. -/
theorem exists_turn_eq_ok (hread : Reads tokens nested read) {first : Option Nat}
    (hfirst : NextIs tokens 0 first) (hlt : index < tokens.length)
    (h : progress.Reaches tokens nested target index part previous) :
    ∃ next progress' part' previous',
      turn read ⟨tokens, .ofTokens tokens, first⟩ index progress =
        .ok (.next next progress') ∧
      index < next ∧ progress'.Reaches tokens nested target next part' previous' := by
  have htoken := List.getElem?_eq_getElem hlt
  rw [turn, element_eq_ok htoken, ok_bind]
  split
  · next htrivia =>
    have hopens := (opens_eq_false_of_keyword?_or_isTrivia (Or.inr htrivia)).1
    have hkeyword := keyword?_eq_none_of_isTrivia htrivia
    refine ⟨_, _, _, _, rfl, Nat.lt_succ_self _,
      h.append (piecesFrom_eq_single htoken hopens)
        (Heading.at?_single_of_keyword?_eq_none hkeyword _ _ _)
        (by simp [Passage.ofPieces]) (if_pos htrivia).symm
        (fun _ => h.kindAt_eq_ok hlt) ?_⟩
    rw [all_take_succ htoken, h.eq_none_iff]
    exact (and_iff_left htrivia).symm
  · next htrivia =>
    have htrivia : tokens[index].isTrivia = false := by simpa using htrivia
    split
    · next hopens =>
      obtain ⟨closing, hpieces⟩ := piecesFrom_eq_group htoken hopens
      rw [matchingClose_eq_ok htoken hopens, ok_bind, h.writes.clause_eq,
        group_eq_ok hread hlt (h.kindAt_eq_ok hlt), ok_bind]
      have hnext : index < closeOf tokens index + 1 := by
        rw [closeOf]
        omega
      refine ⟨_, _, _, _, rfl, hnext,
        h.append hpieces rfl (by simp [Passage.ofPieces]) rfl (fun hclose => ?_)
          (iff_of_false (Option.some_ne_none _) (not_all_take htoken htrivia hnext))⟩
      have hclosing := List.getElem?_eq_getElem (Nat.lt_of_succ_lt hclose)
      rw [if_pos (Nat.lt_of_succ_lt hclose), kindAt, element_eq_ok hclosing, ok_bind,
        isKind_parenClose_of_closeOf hclosing]
      rfl
    · next hopens =>
      have hopens : tokens[index].opens = false := by simpa using hopens
      have hpieces := piecesFrom_eq_single htoken hopens
      obtain ⟨opening, hopening, hagrees⟩ :=
        exists_clauseHead_eq_ok htoken (h.kindAt_eq_ok hlt)
          ((first_eq_some_iff hfirst htoken htrivia).trans h.eq_none_iff.symm)
      rw [hopening, ok_bind]
      cases hheading : Heading.at? (.ofTokens tokens) previous (.single tokens[index])
          (piecesFrom tokens (index + 1)) with
      | none =>
        rw [hheading] at hagrees
        obtain rfl : opening = none := hagrees
        exact ⟨_, _, _, _, rfl, Nat.lt_succ_self _,
          h.append hpieces hheading (by simp [Passage.ofPieces])
            (if_neg (by simpa [Piece.isTrivia] using htrivia)).symm
            (fun _ => by rw [kindAt, element_eq_ok htoken, ok_bind]; rfl)
            (iff_of_false (Option.some_ne_none _)
              (not_all_take htoken htrivia (Nat.lt_succ_self _)))⟩
      | some heading =>
        rw [hheading] at hagrees
        obtain ⟨stop, rfl, hstop⟩ := hagrees
        obtain ⟨head, last, hreaches⟩ := h.head htoken hopens htrivia hheading hstop
        have hle := hstop.le
        simp only [minus_eq_ok (Nat.le_of_succ_le hle),
          h.writes.finish_eq_ok (Nat.le_of_lt hlt),
          minus_eq_ok (show 1 ≤ stop by omega), ok_bind]
        exact ⟨_, _, _, _, rfl, hle, hreaches⟩

end Step

/-! ## Statements -/

def openingClause (parser : Parser) (relation : Bool) : Checked ClauseKind :=
  match parser.first with
  | none => .ok .leading
  | some first => do
    let token ← element parser.tokens first
    .ok (if relation && token.keyword?.isNone then .from else .leading)

def parseClauses (read : Option (Bool → List Token → Checked σ)) (relation : Bool)
    (tokens : List Token) : Checked (List (Clause σ)) := do
  let parser ← Parser.ofTokens tokens
  let opening ← openingClause parser relation
  let progress ← loop tokens.length (turn read parser) (fun _ progress => progress) 0
    ⟨[], ⟨opening, 0, 0, []⟩, none⟩
  finish tokens progress.clauses progress.pending tokens.length

def shorter {α : Type} (tokens : List Token) (read : Bool → List Token → Checked α)
    (relation : Bool) (inner : List Token) : Checked α :=
  if inner.length < tokens.length then read relation inner else .error .stuck

def parse : Nat → Bool → List Token → Checked Statement
  | 0, relation, tokens => do
    let clauses ← parseClauses none relation tokens
    let _ ← definitions clauses
    .ok ⟨tokens, clauses⟩
  | levels + 1, relation, tokens => do
    let clauses ← parseClauses (some (shorter tokens (parse levels))) relation tokens
    let _ ← definitions clauses
    .ok ⟨tokens, clauses⟩

theorem openingClause_eq_ok {kind : StatementKind} {first : Option Nat}
    (hfirst : NextIs tokens 0 first) (relation : Bool) :
    openingClause ⟨tokens, kind, first⟩ relation =
      .ok (Passage.openingClause ⟨relation, tokens⟩) := by
  rw [openingClause, Passage.openingClause, head?_significant hfirst]
  rcases hfirst with _ | ⟨-, htoken, -⟩
  · rfl
  · simp only [element_eq_ok htoken, ok_bind, Option.bind_some, htoken]

theorem map_sections (passage : Passage) :
    (passage.sections.map fun part => part.toClause (part.passages.flatMap nested)) =
      clausesOf nested ⟨passage.openingClause, [], passage.opening⟩ ++
        passage.headed.flatMap (clausesOf nested) := by
  have hopening : (passage.opening.flatMap Piece.tokens).all (·.isTrivia) =
      passage.opening.all Piece.isTrivia := by
    rw [List.all_flatMap, Bool.eq_iff_iff, List.all_eq_true, List.all_eq_true]
    refine forall₂_congr fun piece hpiece => ?_
    rw [isTrivia_eq_of_mem_ofTokens ((Section.mem_of_mem_cut _ _ _).1 piece hpiece)]
  have hheaded : passage.headed.flatMap (clausesOf nested) =
      passage.headed.map fun part =>
        part.toClause (part.passages.flatMap nested) := by
    rw [List.map_eq_flatMap]
    refine List.flatMap_congr fun part hpart => ?_
    obtain ⟨last, hlast, hkeyword⟩ := Section.exists_getLast?_of_mem_cut hpart
    have hall : part.tokens.all (·.isTrivia) = false := by
      rw [List.all_eq_false]
      exact ⟨last, List.mem_append_left _ (List.mem_of_getLast? hlast), by
        simp [Lexeme.isTrivia_of_keyword? hkeyword]⟩
    rw [clausesOf, hall, Bool.and_false, if_neg Bool.false_ne_true]
  rw [hheaded, clausesOf, Section.tokens, List.nil_append, hopening,
    Passage.sections_eq]
  split
  · rfl
  · rfl

theorem reaches_zero (passage : Passage) (nested : Passage → List σ) :
    (⟨[], ⟨passage.openingClause, 0, 0, []⟩, none⟩ : Progress σ).Reaches
      passage.tokens nested
      (clausesOf nested ⟨passage.openingClause, [], passage.opening⟩ ++
        passage.headed.flatMap (clausesOf nested)) 0 ⟨passage.openingClause, [], []⟩
      none where
  writes := ⟨rfl, rfl, rfl, Nat.zero_le _, rfl, by simp⟩
  previous_eq := rfl
  kindAt_eq_ok _ := rfl
  eq_none_iff := by simp
  clauses_eq := rfl

theorem Progress.Reaches.finish_eq_ok {progress : Progress σ}
    {target : List (Clause σ)} {index : Nat} {part : Section}
    {previous : Option TokenKind}
    (h : progress.Reaches tokens nested target index part previous)
    (hlength : tokens.length ≤ index) :
    finish tokens progress.clauses progress.pending tokens.length = .ok target := by
  have hwrites : progress.pending.Writes tokens nested part tokens.length := by
    refine { h.writes with drop_eq := ?_ }
    rw [h.writes.drop_eq, List.drop_of_length_le hlength, List.drop_length]
  have hclauses := h.clauses_eq
  rw [piecesFrom_eq_nil hlength, Section.cut, List.append_nil, List.flatMap_nil,
    List.append_nil] at hclauses
  rw [hwrites.finish_eq_ok (Nat.le_refl _), hclauses]

theorem exists_loop_turn_eq_ok (passage : Passage)
    (hread : Reads passage.tokens nested read) {first : Option Nat}
    (hfirst : NextIs passage.tokens 0 first) :
    ∃ progress,
      loop passage.tokens.length
          (turn read ⟨passage.tokens, .ofTokens passage.tokens, first⟩)
          (fun _ progress => progress) 0
          ⟨[], ⟨passage.openingClause, 0, 0, []⟩, none⟩ = .ok progress ∧
      finish passage.tokens progress.clauses progress.pending passage.tokens.length =
        .ok (passage.sections.map fun part =>
          part.toClause (part.passages.flatMap nested)) := by
  have hzero := reaches_zero (σ := σ) passage nested
  rw [map_sections]
  generalize clausesOf nested _ ++ _ = target at hzero
  refine exists_loop_eq_ok
    (fun index progress => ∃ part previous,
      progress.Reaches passage.tokens nested target index part previous) ?_ ?_ 0 _
    ⟨_, _, hzero⟩
  · rintro index progress hlength ⟨part, previous, h⟩
    exact h.finish_eq_ok hlength
  · rintro index progress hlt ⟨part, previous, h⟩
    obtain ⟨next, progress', part', previous', hturn, hnext, h'⟩ :=
      exists_turn_eq_ok hread hfirst hlt h
    exact ⟨_, hturn, hnext, part', previous', h'⟩

theorem parseClauses_eq_ok (hread : Reads tokens nested read) (relation : Bool) :
    parseClauses read relation tokens =
      .ok ((Passage.sections ⟨relation, tokens⟩).map fun part =>
        part.toClause (part.passages.flatMap nested)) := by
  obtain ⟨first, hnext, hfirst⟩ := exists_nextSignificant_eq_ok tokens 0
  obtain ⟨progress, hprogress, hfinish⟩ :=
    exists_loop_turn_eq_ok ⟨relation, tokens⟩ hread hfirst
  simp only [parseClauses, Parser.ofTokens, statementKind_eq_ok, hnext, ok_bind,
    openingClause_eq_ok hfirst, hprogress, hfinish]

/-- However many levels of nesting are read, a statement is parsed without a fault. -/
theorem parse_eq_ok (levels : Nat) (relation : Bool) (tokens : List Token) :
    parse levels relation tokens =
      .ok (Statement.ofPassage levels ⟨relation, tokens⟩) := by
  induction levels generalizing relation tokens with
  | zero =>
    have hread : Reads (σ := Statement) tokens (fun _ => []) none := fun _ => rfl
    have hclauses : parseClauses none relation tokens =
        .ok (Statement.ofPassage 0 ⟨relation, tokens⟩).clauses := by
      rw [parseClauses_eq_ok hread, Statement.ofPassage]
      simp only [List.flatMap_eq_nil_iff.2 fun _ _ => rfl]
    rw [parse, hclauses, ok_bind, definitions_eq_ok, ok_bind, Statement.ofPassage]
  | succ levels ih =>
    have hread : Reads tokens (fun passage => [Statement.ofPassage levels passage])
        (some (shorter tokens (parse levels))) :=
      ⟨Statement.ofPassage levels, fun _ => rfl, fun relation inner hlength => by
        rw [shorter, if_pos hlength, ih]⟩
    have hclauses :
        parseClauses (some (shorter tokens (parse levels))) relation tokens =
          .ok (Statement.ofPassage (levels + 1) ⟨relation, tokens⟩).clauses := by
      rw [parseClauses_eq_ok hread, Statement.ofPassage]
      simp only [← List.map_eq_flatMap]
    rw [parse, hclauses, ok_bind, definitions_eq_ok, ok_bind, Statement.ofPassage]

end SqlOutline.Indexed
