import SqlOutline.Proofs.Indexed.Search
import SqlOutline.Proofs.Script.Separation
import SqlOutline.Proofs.Statement.Partition

/-!
# Headings by index

A heading at an index is told from the indexes of the significant tokens next to it,
and it ends at an index. The pieces from one index on tie this to headings among
pieces.
-/

namespace SqlOutline.Indexed

/-! ## Pieces from an index on -/

def piecesFrom (tokens : List Token) (start : Nat) : List Piece :=
  Piece.ofTokens (tokens.drop start)

variable {tokens blank : List Token} {start index stop count : Nat} {token : Token}

theorem piecesFrom_eq_nil (h : tokens.length ≤ start) :
    piecesFrom tokens start = [] := by
  rw [piecesFrom, List.drop_eq_nil_of_le h, Piece.ofTokens_nil]

theorem piecesFrom_eq_single (htoken : tokens[index]? = some token)
    (hopens : token.opens = false) :
    piecesFrom tokens index = .single token :: piecesFrom tokens (index + 1) := by
  rw [piecesFrom, drop_eq_cons htoken, Piece.ofTokens_cons_of_not_opens _ hopens,
    piecesFrom]

theorem piecesFrom_eq_group (htoken : tokens[index]? = some token)
    (hopens : token.opens = true) :
    ∃ closing, piecesFrom tokens index =
      .group token (groupContents (tokens.drop (index + 1))) closing ::
        piecesFrom tokens (closeOf tokens index + 1) := by
  rw [piecesFrom, drop_eq_cons htoken, Piece.ofTokens_cons_of_opens _ hopens,
    piecesFrom, drop_closeOf_succ]
  exact ⟨_, rfl⟩

private theorem piecesFrom_eq_append
    (hsplit : tokens.drop start = blank ++ tokens.drop index)
    (hblank : ∀ token ∈ blank, token.isTrivia = true) :
    piecesFrom tokens start = blank.map .single ++ piecesFrom tokens index := by
  have hopens : ∀ token ∈ blank, token.opens = false := fun token htoken =>
    (opens_eq_false_of_keyword?_or_isTrivia (Or.inr (hblank token htoken))).1
  rw [piecesFrom, hsplit, Piece.ofTokens_append _ (depth_of_not_opens hopens),
    Piece.ofTokens_of_not_opens hopens, piecesFrom]

private theorem isTrivia_of_mem_map_single {piece : Piece}
    (hblank : ∀ token ∈ blank, token.isTrivia = true)
    (h : piece ∈ blank.map Piece.single) : piece.isTrivia = true := by
  obtain ⟨token, htoken, rfl⟩ := List.mem_map.1 h
  exact hblank token htoken

def following (tokens : List Token) (start : Nat) : List Piece :=
  Piece.significant (piecesFrom tokens start)

theorem following_eq_nil (h : ∀ token ∈ tokens.drop start, token.isTrivia = true) :
    following tokens start = [] := by
  have hpieces : piecesFrom tokens start = (tokens.drop start).map .single ++
      piecesFrom tokens tokens.length := piecesFrom_eq_append (by simp) h
  rw [piecesFrom_eq_nil (Nat.le_refl _), List.append_nil] at hpieces
  rw [following, hpieces, Piece.significant, List.filter_eq_nil_iff]
  intro piece hpiece
  simp [isTrivia_of_mem_map_single h hpiece]

theorem following_eq (hsplit : tokens.drop start = blank ++ tokens.drop index)
    (hblank : ∀ token ∈ blank, token.isTrivia = true) :
    following tokens start = following tokens index := by
  rw [following, piecesFrom_eq_append hsplit hblank, Piece.significant,
    List.filter_append, List.filter_eq_nil_iff.2 fun piece hpiece => by
      simp [isTrivia_of_mem_map_single hblank hpiece], List.nil_append]
  rfl

theorem following_eq_single (htoken : tokens[index]? = some token)
    (htrivia : token.isTrivia = false) (hopens : token.opens = false) :
    following tokens index = .single token :: following tokens (index + 1) := by
  rw [following, piecesFrom_eq_single htoken hopens, Piece.significant,
    List.filter_cons_of_pos (by simpa [Piece.isTrivia] using htrivia)]
  rfl

theorem following_eq_group (htoken : tokens[index]? = some token)
    (hopens : token.opens = true) :
    ∃ closing, following tokens index =
      .group token (groupContents (tokens.drop (index + 1))) closing ::
        following tokens (closeOf tokens index + 1) := by
  obtain ⟨closing, hpieces⟩ := piecesFrom_eq_group htoken hopens
  rw [following, hpieces, Piece.significant, List.filter_cons_of_pos rfl]
  exact ⟨closing, rfl⟩

private theorem exists_following_eq_cons (htoken : tokens[index]? = some token)
    (htrivia : token.isTrivia = false) :
    ∃ piece rest, following tokens index = piece :: rest ∧
      piece.keyword? = token.keyword? ∧
      (token.keyword?.isSome = true → rest = following tokens (index + 1)) := by
  by_cases hopens : token.opens = true
  · obtain ⟨closing, hfollowing⟩ := following_eq_group htoken hopens
    have hkeyword : token.keyword? = none := by
      rw [Lexeme.keyword?, beq_iff_eq.1 hopens]
      rfl
    exact ⟨_, _, hfollowing, hkeyword.symm, by simp [hkeyword]⟩
  · exact ⟨_, _, following_eq_single htoken htrivia (by simpa using hopens), rfl,
      fun _ => rfl⟩

/-! ## How far some significant pieces reach -/

private theorem reach_add (first second : Nat) (pieces : List Piece) :
    Piece.reach (first + second) pieces = Piece.reach first pieces +
      Piece.reach second (pieces.drop (Piece.reach first pieces)) := by
  induction pieces generalizing first with
  | nil => cases first <;> cases second <;> rfl
  | cons piece pieces ih =>
    cases first with
    | zero => rw [Nat.zero_add, Piece.reach, List.drop_zero, Nat.zero_add]
    | succ first =>
      rw [Nat.succ_add, Piece.reach, Piece.reach]
      split
      · rw [Nat.add_right_comm, ih, List.drop_succ_cons]
        omega
      · rw [ih, List.drop_succ_cons]
        omega

private theorem reach_one_append {first : List Piece}
    (hfirst : ∀ piece ∈ first, piece.isTrivia = true) {piece : Piece}
    (hpiece : piece.isTrivia = false) (later : List Piece) :
    Piece.reach 1 (first ++ piece :: later) = first.length + 1 := by
  induction first with
  | nil => simp [Piece.reach, hpiece]
  | cons other first ih =>
    rw [List.cons_append, Piece.reach, if_pos (hfirst other (List.mem_cons_self ..)),
      ih fun piece hpiece => hfirst piece (List.mem_cons_of_mem other hpiece),
      List.length_cons]

structure Reaches (tokens : List Token) (start count stop : Nat) : Prop where
  le : start ≤ stop
  le_length : stop ≤ tokens.length
  drop_eq : (piecesFrom tokens start).drop
      (Piece.reach count (piecesFrom tokens start)) =
    piecesFrom tokens stop

namespace Reaches

theorem zero (h : start ≤ tokens.length) : Reaches tokens start 0 start :=
  ⟨Nat.le_refl _, h, by rw [Piece.reach, List.drop_zero]⟩

theorem succ (h : Reaches tokens start count stop) (hle : stop ≤ index)
    (htoken : tokens[index]? = some token) (htrivia : token.isTrivia = false)
    (hopens : token.opens = false)
    (hsplit : tokens.drop stop = blank ++ tokens.drop index)
    (hblank : ∀ token ∈ blank, token.isTrivia = true) :
    Reaches tokens start (count + 1) (index + 1) := by
  have hpieces := piecesFrom_eq_append hsplit hblank
  rw [piecesFrom_eq_single htoken hopens] at hpieces
  refine ⟨by have := h.le; omega, (List.getElem?_eq_some_iff.1 htoken).1, ?_⟩
  rw [reach_add, ← List.drop_drop, h.drop_eq, hpieces,
    reach_one_append (fun piece => isTrivia_of_mem_map_single hblank)
      (by simpa [Piece.isTrivia] using htrivia), List.drop_append]
  simp

theorem flatMap_tokens_take (h : Reaches tokens start count stop) :
    ((piecesFrom tokens start).take
        (Piece.reach count (piecesFrom tokens start))).flatMap Piece.tokens =
      (tokens.drop start).take (stop - start) := by
  have hsplit := congrArg (·.flatMap Piece.tokens) (List.take_append_drop
    (Piece.reach count (piecesFrom tokens start)) (piecesFrom tokens start))
  simp only [h.drop_eq, List.flatMap_append] at hsplit
  rw [piecesFrom, piecesFrom, Piece.flatMap_tokens_ofTokens,
    Piece.flatMap_tokens_ofTokens, ← piecesFrom] at hsplit
  have hlength := congrArg List.length hsplit
  simp only [List.length_append, List.length_drop] at hlength
  have := h.le
  have := h.le_length
  rw [← hsplit, List.take_left' (by omega)]

end Reaches

/-! ## Headings -/

structure Parser where
  tokens : List Token
  kind : StatementKind
  /-- The index of the first significant token. -/
  first : Option Nat

namespace Parser

def ofTokens (tokens : List Token) : Checked Parser := do
  let kind ← statementKind tokens
  let first ← nextSignificant tokens 0
  .ok ⟨tokens, kind, first⟩

def opensDefinitions (parser : Parser) (index : Nat)
    (previous next : Option TokenKind) : Bool :=
  if parser.first = some index then true
  else
    next.any (· != .parenOpen) &&
      match parser.kind with
      | .insert => true
      | .create => previous.bind TokenKind.keyword? == some .as
      | _ => false

def assigns (parser : Parser) : Bool :=
  parser.kind == .update ||
    (parser.kind == .with && parser.tokens.any (·.isKeyword .update))

end Parser

abbrev Opening := Option (ClauseKind × Nat)

def word (clause : ClauseKind) (index : Nat) : Opening :=
  some (clause, index + 1)

def kindAt (tokens : List Token) : Option Nat → Checked (Option TokenKind)
  | none => .ok none
  | some index => do
    let token ← element tokens index
    .ok (some token.kind)

def wordAnd (clause : ClauseKind) (more : Keyword → Bool) (index : Nat)
    (next : Option Nat) (kind : Option TokenKind) : Opening :=
  match next with
  | some next =>
    if (kind.bind TokenKind.keyword?).any more then word clause next
    else word clause index
  | none => word clause index

def wordBy (clause : ClauseKind) (next : Option Nat) (kind : Option TokenKind) :
    Opening :=
  match next with
  | some next =>
    if kind.bind TokenKind.keyword? = some .by then word clause next else none
  | none => none

def joinAfterModifier (tokens : List Token) (start : Nat) : Checked Opening :=
  loop tokens.length
    (fun index (_ : Unit) => do
      match ← nextSignificant tokens (index + 1) with
      | none => .ok (.stop none)
      | some next =>
        let token ← element tokens next
        match token.keyword? with
        | none => .ok (.stop none)
        | some keyword =>
          if keyword = .join then .ok (.stop (word .join next))
          else if keyword.modifiesJoin then .ok (.next next ())
          else .ok (.stop none))
    (fun _ _ => none) start ()

def removesColumns (tokens : List Token) : Option Nat → Checked Bool
  | none => .ok false
  | some next => do
    let token ← element tokens next
    if token.opens then do
      let close ← matchingClose tokens next
      let inner ← slice tokens (next + 1) close
      let (_, isQuery) ← leadingQuery inner 0
      .ok !isQuery
    else .ok false

def clauseHead (parser : Parser) (index : Nat) (previous : Option Nat) :
    Checked Opening := do
  let token ← element parser.tokens index
  match token.keyword? with
  | none => .ok none
  | some keyword =>
    let next ← nextSignificant parser.tokens (index + 1)
    let nextKind ← kindAt parser.tokens next
    let previousKind ← kindAt parser.tokens previous
    let statementWord (clause : ClauseKind) : Opening :=
      if parser.first = some index || parser.kind == .with then word clause index
      else none
    let setOperation (operator : SetOperator) : Opening :=
      wordAnd (.setOperation operator) (fun next => next == .all || next == .distinct)
        index next nextKind
    match keyword with
    | .with =>
      .ok (if parser.opensDefinitions index previousKind nextKind then
          wordAnd .with (· == .recursive) index next nextKind
        else none)
    | .select => .ok (word .select index)
    | .from =>
      .ok (if previousKind.bind TokenKind.keyword? = some .distinct then none
        else word .from index)
    | .join => .ok (word .join index)
    | .inner | .left | .right | .full | .outer | .cross | .natural =>
      joinAfterModifier parser.tokens index
    | .on => .ok (word .on index)
    | .using => .ok (word .using index)
    | .where => .ok (word .where index)
    | .having => .ok (word .having index)
    | .window => .ok (word .window index)
    | .qualify => .ok (word .qualify index)
    | .group => .ok (wordBy .groupBy next nextKind)
    | .order => .ok (wordBy .orderBy next nextKind)
    | .limit => .ok (word .limit index)
    | .offset => .ok (word .offset index)
    | .fetch => .ok (word .fetch index)
    | .except => do
      if ← removesColumns parser.tokens next then .ok none
      else .ok (setOperation .except)
    | .union => .ok (setOperation .union)
    | .intersect => .ok (setOperation .intersect)
    | .minus => .ok (setOperation .minus)
    | .values => .ok (word .values index)
    | .insert => .ok (statementWord .insert)
    | .update => .ok (statementWord .update)
    | .delete => .ok (statementWord .delete)
    | .create => .ok (statementWord .create)
    | .drop => .ok (statementWord .drop)
    | .truncate => .ok (statementWord .truncate)
    | .set => .ok (if parser.assigns then word .set index else none)
    | _ => .ok none

def Agrees (tokens : List Token) (start : Nat) (heading : Option Heading)
    (opening : Opening) : Prop :=
  match heading with
  | none => opening = none
  | some heading =>
    ∃ stop, opening = some (heading.clause, stop) ∧
      Reaches tokens start (heading.words - 1) stop

theorem agrees_word (clause : ClauseKind) (h : index < tokens.length) :
    Agrees tokens (index + 1) (Heading.word clause) (word clause index) :=
  ⟨index + 1, rfl, .zero h⟩

theorem keyword?_head?_following {next : Option Nat}
    (hnext : NextIs tokens start next) {kind : Option TokenKind}
    (hkind : kindAt tokens next = .ok kind) :
    (following tokens start).head?.bind Piece.keyword? =
      kind.bind TokenKind.keyword? := by
  rcases hnext with hblank |
    @⟨next, token, blank, hle, htoken, htrivia, hsplit, hblank⟩
  · obtain rfl : none = kind := Except.ok.inj hkind
    rw [following_eq_nil hblank]
    rfl
  · simp only [kindAt, element_eq_ok htoken, ok_bind, Except.ok.injEq] at hkind
    obtain ⟨piece, rest, hfollowing, hkeyword, -⟩ :=
      exists_following_eq_cons htoken htrivia
    rw [following_eq hsplit hblank, hfollowing, ← hkind, List.head?_cons,
      Option.bind_some, hkeyword]
    rfl

theorem Reaches.succ_of_keyword {next : Nat} {kind : Option TokenKind}
    {keyword : Keyword} (h : Reaches tokens start count stop)
    (hnext : NextIs tokens stop (some next))
    (hkind : kindAt tokens (some next) = .ok kind)
    (hkeyword : kind.bind TokenKind.keyword? = some keyword) :
    Reaches tokens start (count + 1) (next + 1) := by
  rcases hnext with _ | @⟨_, token, blank, hle, htoken, htrivia, hsplit, hblank⟩
  simp only [kindAt, element_eq_ok htoken, ok_bind, Except.ok.injEq] at hkind
  subst hkind
  have hopens : token.opens = false :=
    (opens_eq_false_of_keyword?_or_isTrivia
      (Or.inl (Option.isSome_of_eq_some hkeyword))).1
  exact h.succ hle htoken htrivia hopens hsplit hblank

section NextWord

variable {next : Option Nat} {kind : Option TokenKind} (hlt : index < tokens.length)
  (hnext : NextIs tokens (index + 1) next) (hkind : kindAt tokens next = .ok kind)
include hlt hnext hkind

theorem agrees_wordAnd (clause : ClauseKind) (more : Keyword → Bool) :
    Agrees tokens (index + 1)
      (Heading.wordAnd clause more (following tokens (index + 1)))
      (wordAnd clause more index next kind) := by
  rw [Heading.wordAnd, keyword?_head?_following hnext hkind]
  cases next with
  | none =>
    obtain rfl : none = kind := Except.ok.inj hkind
    exact agrees_word clause hlt
  | some next =>
    rw [wordAnd]
    split
    · next hmore =>
      obtain ⟨keyword, hkeyword, -⟩ := (Option.any_eq_true _ _).1 hmore
      exact ⟨next + 1, rfl, (Reaches.zero hlt).succ_of_keyword hnext hkind hkeyword⟩
    · exact agrees_word clause hlt

theorem agrees_wordBy (clause : ClauseKind) :
    Agrees tokens (index + 1) (Heading.wordBy clause (following tokens (index + 1)))
      (wordBy clause next kind) := by
  rw [Heading.wordBy, keyword?_head?_following hnext hkind]
  cases next with
  | none =>
    obtain rfl : none = kind := Except.ok.inj hkind
    rfl
  | some next =>
    rw [wordBy]
    split
    · next hby =>
        exact ⟨next + 1, rfl, (Reaches.zero hlt).succ_of_keyword hnext hkind hby⟩
    · rfl

end NextWord

theorem removesColumns_eq_ok {next : Option Nat} (hnext : NextIs tokens start next) :
    removesColumns tokens next =
      .ok (Heading.removesColumns (following tokens start)) := by
  rcases hnext with hblank |
    @⟨next, token, blank, hle, htoken, htrivia, hsplit, hblank⟩
  · rw [following_eq_nil hblank]
    rfl
  · rw [following_eq hsplit hblank, removesColumns, element_eq_ok htoken, ok_bind]
    by_cases hopens : token.opens = true
    · have hlt := (List.getElem?_eq_some_iff.1 htoken).1
      obtain ⟨closing, hfollowing⟩ := following_eq_group htoken hopens
      obtain ⟨first, hleading, -⟩ :=
        exists_leadingQuery_eq_ok (groupContents (tokens.drop (next + 1))) 0
      simp only [hopens, ↓reduceIte, matchingClose_eq_ok htoken hopens,
        slice_closeOf hlt, hleading, ok_bind, hfollowing]
      rfl
    · rw [if_neg hopens, following_eq_single htoken htrivia (by simpa using hopens)]
      rfl

/-! ## Joins with modifiers -/

def longer (count : Nat) (heading : Heading) : Heading :=
  ⟨heading.clause, count + heading.words⟩

private theorem joinAfterModifier_cons (piece : Piece) (pieces : List Piece) :
    Heading.joinAfterModifier (piece :: pieces) =
      if piece.keyword?.any Keyword.modifiesJoin then
        (Heading.joinAfterModifier pieces).map (longer 1)
      else if piece.keyword? = some .join then some ⟨.join, 2⟩
      else none := by
  rw [Heading.joinAfterModifier]
  by_cases hmodifies : piece.keyword?.any Keyword.modifiesJoin = true
  · rw [if_pos hmodifies, Heading.joinAfterModifier]
    simp only [List.takeWhile_cons_of_pos
        (p := fun piece : Piece => piece.keyword?.any Keyword.modifiesJoin) hmodifies,
      List.length_cons, List.getElem?_cons_succ]
    split
    · rw [Option.map_some, longer, Nat.add_comm 1]
    · rfl
  · rw [if_neg hmodifies]
    simp only [List.takeWhile_cons_of_neg
        (p := fun piece : Piece => piece.keyword?.any Keyword.modifiesJoin) hmodifies,
      List.length_nil, List.getElem?_cons_zero, Option.bind_some]

theorem exists_joinAfterModifier_eq_ok (hlt : index < tokens.length) :
    ∃ opening, joinAfterModifier tokens index = .ok opening ∧
      Agrees tokens (index + 1)
        (Heading.joinAfterModifier (following tokens (index + 1))) opening := by
  refine exists_loop_eq_ok
    (fun last _ => ∃ count, Reaches tokens (index + 1) count (last + 1) ∧
      Heading.joinAfterModifier (following tokens (index + 1)) =
        (Heading.joinAfterModifier (following tokens (last + 1))).map (longer count))
    ?_ ?_ index () ⟨0, .zero hlt,
    by rw [show longer 0 = id by funext heading; simp [longer], Option.map_id, id_eq]⟩
  · rintro last state hlength ⟨count, hreaches, -⟩
    exact absurd hreaches.le_length (by omega)
  · rintro last state - ⟨count, hreaches, hjoin⟩
    rw [hjoin]
    obtain ⟨_, hnext,
      hblank | @⟨next, token, blank, hle, htoken, htrivia, hsplit, hblank⟩⟩ :=
      exists_nextSignificant_eq_ok tokens (last + 1)
    · rw [hnext, following_eq_nil hblank]
      exact ⟨_, rfl, rfl⟩
    · obtain ⟨piece, rest, hfollowing, hpiece, hrest⟩ :=
        exists_following_eq_cons htoken htrivia
      simp only [hnext, element_eq_ok htoken, ok_bind]
      rw [following_eq hsplit hblank, hfollowing, joinAfterModifier_cons, hpiece]
      cases hkeyword : token.keyword? with
      | none => exact ⟨_, rfl, rfl⟩
      | some keyword =>
        have hmore := hreaches.succ hle htoken htrivia
          (opens_eq_false_of_keyword?_or_isTrivia
            (Or.inl (Option.isSome_of_eq_some hkeyword))).1 hsplit hblank
        rw [hrest (Option.isSome_of_eq_some hkeyword), Option.any_some]
        by_cases hkind : keyword = .join
        · subst hkind
          exact ⟨_, rfl, next + 1, rfl, hmore⟩
        · simp only [hkind, ↓reduceIte, Option.some_inj]
          split
          · refine ⟨_, rfl, by omega, count + 1, hmore, ?_⟩
            rw [Option.map_map]
            congr 2
            funext heading
            rw [Function.comp_apply, longer, longer, longer, Nat.add_assoc]
          · exact ⟨_, rfl, rfl⟩

/-! ## The clause that opens at an index -/

private theorem keyword?_eq_some_iff {kind : TokenKind} {keyword : Keyword} :
    kind.keyword? = some keyword ↔ kind = .keyword keyword := by
  cases kind <;> simp [TokenKind.keyword?]

theorem agrees_none : Agrees tokens start none none := rfl

theorem Agrees.ite {heading heading' : Option Heading} {opening opening' : Opening}
    {c d : Prop} [Decidable c] [Decidable d] (hc : c ↔ d)
    (h : Agrees tokens start heading opening)
    (h' : Agrees tokens start heading' opening') :
    Agrees tokens start (if c then heading else heading')
      (if d then opening else opening') := by
  by_cases hd : d
  · rwa [if_pos (hc.2 hd), if_pos hd]
  · rwa [if_neg (mt hc.1 hd), if_neg hd]

theorem exists_kindAt_eq_ok {next : Option Nat} (h : NextIs tokens start next) :
    ∃ kind, kindAt tokens next = .ok kind := by
  rcases h with _ | ⟨-, htoken, -⟩
  · exact ⟨none, rfl⟩
  · exact ⟨_, by rw [kindAt, element_eq_ok htoken, ok_bind]⟩

private theorem any_not_isGroup_head?_following {next : Option Nat}
    (hnext : NextIs tokens start next) {kind : Option TokenKind}
    (hkind : kindAt tokens next = .ok kind) :
    (following tokens start).head?.any (!·.isGroup) = kind.any (· != .parenOpen) := by
  rcases hnext with hblank |
    @⟨next, token, blank, hle, htoken, htrivia, hsplit, hblank⟩
  · obtain rfl : none = kind := Except.ok.inj hkind
    rw [following_eq_nil hblank]
    rfl
  · simp only [kindAt, element_eq_ok htoken, ok_bind, Except.ok.injEq] at hkind
    rw [following_eq hsplit hblank, ← hkind]
    by_cases hopens : token.opens = true
    · obtain ⟨closing, hfollowing⟩ := following_eq_group htoken hopens
      rw [hfollowing, beq_iff_eq.1 hopens]
      rfl
    · rw [following_eq_single htoken htrivia (by simpa using hopens), List.head?_cons,
        Option.any_some, Option.any_some, bne, ← Lexeme.opens]
      simp [Piece.isGroup, hopens]

theorem opensDefinitions_eq (parser : Parser) {previous next : Option TokenKind}
    {nextIndex : Option Nat} (hnext : NextIs tokens start nextIndex)
    (hkind : kindAt tokens nextIndex = .ok next)
    (hfirst : parser.first = some index ↔ previous = none) :
    parser.opensDefinitions index previous next =
      Heading.opensDefinitions parser.kind previous (following tokens start) := by
  rw [Parser.opensDefinitions, Heading.opensDefinitions.eq_def,
    ← any_not_isGroup_head?_following hnext hkind]
  cases previous with
  | none => rw [if_pos (hfirst.2 rfl)]
  | some previous =>
    rw [if_neg fun h => Option.some_ne_none previous (hfirst.1 h)]
    congr 1
    rw [Option.bind_some]
    cases parser.kind <;> try rfl
    -- a table is created by `CREATE … AS WITH …`
    rw [Bool.eq_iff_iff, beq_iff_eq, keyword?_eq_some_iff]
    simp

theorem exists_clauseHead_eq_ok {first previous : Option Nat}
    {previousKind : Option TokenKind} (htoken : tokens[index]? = some token)
    (hprevious : kindAt tokens previous = .ok previousKind)
    (hfirst : first = some index ↔ previousKind = none) :
    ∃ opening,
      clauseHead ⟨tokens, .ofTokens tokens, first⟩ index previous = .ok opening ∧
      Agrees tokens (index + 1)
        (Heading.at? (.ofTokens tokens) previousKind (.single token)
          (piecesFrom tokens (index + 1))) opening := by
  have hlt := (List.getElem?_eq_some_iff.1 htoken).1
  rw [clauseHead, element_eq_ok htoken, ok_bind, Heading.at?, Piece.keyword?,
    ← following]
  cases hkeyword : token.keyword? with
  | none => exact ⟨none, rfl, rfl⟩
  | some keyword =>
    obtain ⟨next, hnext, hnextIs⟩ := exists_nextSignificant_eq_ok tokens (index + 1)
    obtain ⟨nextKind, hnextKind⟩ := exists_kindAt_eq_ok hnextIs
    have htraits : (StatementTraits.ofTokens tokens).kind = .ofTokens tokens := rfl
    have hdefinitions :=
      opensDefinitions_eq ⟨tokens, .ofTokens tokens, first⟩ hnextIs hnextKind hfirst
    have hstatement : (previousKind.isNone ||
            StatementKind.ofTokens tokens == .with) = true ↔
        (first = some index || StatementKind.ofTokens tokens == .with) = true := by
      rw [Bool.or_eq_true, Bool.or_eq_true, Option.isNone_iff_eq_none,
        decide_eq_true_eq, hfirst]
    have hfrom : previousKind = some (.keyword .distinct) ↔
        previousKind.bind TokenKind.keyword? = some .distinct := by
      simp only [Option.bind_eq_some_iff, keyword?_eq_some_iff, exists_eq_right]
    have hcolumns := removesColumns_eq_ok hnextIs
    simp only [hnext, hnextKind, hprevious, ok_bind, Option.bind_some,
      Heading.ofKeyword?, htraits]
    cases keyword
    case «with» =>
      rw [← hdefinitions]
      exact ⟨_, rfl,
        .ite Iff.rfl (agrees_wordAnd hlt hnextIs hnextKind _ _) agrees_none⟩
    case «from» => exact ⟨_, rfl, .ite hfrom agrees_none (agrees_word _ hlt)⟩
    case except =>
      simp only [hcolumns, ok_bind]
      split
      · exact ⟨none, rfl, rfl⟩
      · exact ⟨_, rfl, agrees_wordAnd hlt hnextIs hnextKind _ _⟩
    case set => exact ⟨_, rfl, .ite Iff.rfl (agrees_word _ hlt) agrees_none⟩
    case inner | left | right | full | outer | cross | natural =>
      exact exists_joinAfterModifier_eq_ok hlt
    case insert | update | delete | create | drop | truncate =>
      exact ⟨_, rfl, .ite hstatement (agrees_word _ hlt) agrees_none⟩
    case union | intersect | minus =>
      exact ⟨_, rfl, agrees_wordAnd hlt hnextIs hnextKind _ _⟩
    case group | order => exact ⟨_, rfl, agrees_wordBy hlt hnextIs hnextKind _⟩
    all_goals first
      | exact ⟨none, rfl, rfl⟩
      | exact ⟨_, rfl, agrees_word _ hlt⟩

end SqlOutline.Indexed
