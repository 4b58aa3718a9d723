import SqlOutline.Lineage.Collect
import SqlOutline.Proofs.Indexed.Item

/-!
# Uses of tables by index

A list of tables is read by index in one pass: at the beginning of an item, the dotted
name and the alias behind it are read at once.
-/

namespace SqlOutline.Indexed

/-! ## Names and aliases -/

def qualifiedName (body : List Token) (start : Nat) : Checked (List Token × Nat) := do
  let first ← element body start
  loop body.length
    (fun index parts => do
      match ← nextSignificant body index with
      | none => .ok (.stop (parts, index))
      | some dotIndex => do
        let dot ← element body dotIndex
        if dot.kind = .dot then do
          match ← nextSignificant body (dotIndex + 1) with
          | none => .ok (.stop (parts, index))
          | some partIndex => do
            let part ← element body partIndex
            if part.isNamePart then .ok (.next (partIndex + 1) (parts ++ [part]))
            else .ok (.stop (parts, index))
        else .ok (.stop (parts, index)))
    (fun index parts => (parts, index)) (start + 1) [first]

def aliasAt (body : List Token) (start : Nat) : Checked (Option String × Nat) := do
  match ← nextSignificant body start with
  | none => .ok (none, start)
  | some index => do
    let token ← element body index
    if token.isKeyword .as then do
      match ← nextSignificant body (index + 1) with
      | none => .ok (none, index + 1)
      | some nameIndex => do
        let name ← element body nameIndex
        if name.isIdentifier then .ok (some name.name, nameIndex + 1)
        else .ok (none, index + 1)
    else if token.isIdentifier then .ok (some token.name, index + 1)
    else .ok (none, start)

def mentionOf (schema : String) (parts : List Token) :
    Checked (Option TableMention) :=
  match parts.head?, parts.getLast? with
  | some first, some last => do
    if parts.length = 1 then
      .ok (some ⟨schema, last.name, first.line, first.start, last.stop⟩)
    else do
      let index ← minus parts.length 2
      let part ← element parts index
      .ok (some ⟨part.name, last.name, first.line, first.start, last.stop⟩)
  | _, _ => .ok none

def isCall (body : List Token) (start : Nat) : Checked Bool := do
  match ← nextSignificant body start with
  | none => .ok false
  | some index => do
    let token ← element body index
    .ok token.opens

def isCommonTable (visible : List String) (parts : List Token) : Checked Bool := do
  if parts.length = 1 then do
    let first ← element parts 0
    .ok (visible.any (Text.sameCaseless · first.name))
  else .ok false

def usedTable (schema : String) (visible : List String) (body : List Token)
    (start : Nat) : Checked (Option TableUse × Nat) := do
  let (parts, next) ← qualifiedName body start
  if ← isCall body next then .ok (none, next)
  else do
    let (aliasName, after) ← aliasAt body next
    if ← isCommonTable visible parts then .ok (none, after)
    else do
      match ← mentionOf schema parts with
      | some mention => .ok (some ⟨mention, aliasName⟩, after)
      | none => .ok (none, after)

def relations (schema : String) (visible : List String) (body : List Token) :
    Checked (List TableUse) :=
  loop body.length
    (fun start (state : ListState TableUse) => do
      match ← nextSignificant body start with
      | none => .ok (.stop state.found)
      | some index => do
        let token ← element body index
        if token.opens then do
          let close ← matchingClose body index
          if state.expecting then do
            let (_, next) ← aliasAt body (close + 1)
            .ok (.next next ⟨state.found, false⟩)
          else .ok (.next (close + 1) state)
        else if token.kind = .comma then .ok (.next (index + 1) ⟨state.found, true⟩)
        else if token.isKeyword .lateral then .ok (.next (index + 1) state)
        else if token.isIdentifier && state.expecting then do
          let (use, next) ← usedTable schema visible body index
          .ok (.next next ⟨state.found ++ use.toList, false⟩)
        else .ok (.next (index + 1) ⟨state.found, false⟩))
    (fun _ state => state.found) 0 ⟨[], true⟩

/-! ## What an item begins with -/

variable {body blank : List Token} {start index : Nat} {token : Token}

def StaysInItem (body : List Token) (start stop : Nat) : Prop :=
  ∀ {α : Type} (read : List Piece → Option α),
    remaining read false (following body start) =
      remaining read false (following body stop)

inductive ItemBegins (body : List Token) (start index : Nat) (token : Token) : Prop
  | comma (hkind : token.kind = .comma) (hitem : itemOf (following body start) = [])
  | group {inner : List Token} {closing : Option Token} {pieces : List Piece}
      (hopens : token.opens = true)
      (hitem : itemOf (following body start) = .group token inner closing :: pieces)
  | single (hkind : token.kind ≠ .comma) (hopens : token.opens = false)
      (hitem : itemOf (following body start) =
        .single token :: itemOf (following body (index + 1)))
      (hrest : StaysInItem body start (index + 1))

theorem itemBegins (htoken : body[index]? = some token)
    (htrivia : token.isTrivia = false)
    (hsplit : body.drop start = blank ++ body.drop index)
    (hblank : ∀ token ∈ blank, token.isTrivia = true) :
    ItemBegins body start index token := by
  have hstart := following_eq hsplit hblank
  by_cases hopens : token.opens = true
  · obtain ⟨closing, hfollowing⟩ := following_eq_group htoken hopens
    exact .group hopens (by rw [hstart, hfollowing, itemOf_cons _ rfl])
  · have hfollowing :=
      hstart.trans (following_eq_single htoken htrivia (by simpa using hopens))
    by_cases hkind : token.kind = .comma
    · refine .comma hkind ?_
      rw [hfollowing, itemOf,
        List.takeWhile_cons_of_neg (by simp [Piece.isKind, hkind])]
    · have hpiece := isKind_comma_single hkind
      refine .single hkind (by simpa using hopens) ?_ fun read => ?_
      · rw [hfollowing, itemOf_cons _ hpiece]
      · rw [hfollowing, remaining_false_cons _ hpiece]

theorem itemBegins_of_ne (hcomma : token.kind ≠ .comma)
    (hparen : token.kind ≠ .parenOpen) (htoken : body[index]? = some token)
    (htrivia : token.isTrivia = false)
    (hsplit : body.drop start = blank ++ body.drop index)
    (hblank : ∀ token ∈ blank, token.isTrivia = true) :
    itemOf (following body start) =
        .single token :: itemOf (following body (index + 1)) ∧
      StaysInItem body start (index + 1) := by
  rcases itemBegins htoken htrivia hsplit hblank with ⟨hkind, -⟩ | ⟨hopens, -⟩ |
    ⟨-, -, hitem, hrest⟩
  · exact absurd hkind hcomma
  · exact absurd (beq_iff_eq.1 hopens) hparen
  · exact ⟨hitem, hrest⟩

private theorem kind_ne_of_isNamePart (h : token.isNamePart = true) {kind : TokenKind}
    (hkind : Lexeme.isNamePart ⟨kind, ""⟩ = false) : token.kind ≠ kind := by
  rintro rfl
  exact Bool.noConfusion (h.symm.trans hkind)

private theorem kind_ne_of_isIdentifier (h : token.isIdentifier = true)
    {kind : TokenKind} (hkind : .identifier ≠ kind) : token.kind ≠ kind :=
  beq_iff_eq.1 h ▸ hkind

private theorem moreParts_single_of_ne_dot (h : token.kind ≠ .dot)
    (pieces : List Piece) :
    TableUse.moreParts (.single token :: pieces) = ([], .single token :: pieces) := by
  rw [TableUse.moreParts.eq_def]
  split
  · next dot part rest hpieces =>
    obtain ⟨hdot, -⟩ := List.cons.inj hpieces
    rw [if_neg fun hand => h (Piece.single.inj hdot ▸ hand.1), hpieces]
  · rfl

theorem exists_qualifiedName_eq_ok (htoken : body[start]? = some token) :
    ∃ parts next, qualifiedName body start = .ok (token :: parts, next) ∧
      start < next ∧ StaysInItem body (start + 1) next ∧
      TableUse.moreParts (itemOf (following body (start + 1))) =
        (parts, itemOf (following body next)) := by
  suffices hloop : ∃ found, qualifiedName body start = .ok found ∧
      ∃ parts, found.1 = token :: parts ∧ start < found.2 ∧
        StaysInItem body (start + 1) found.2 ∧
        TableUse.moreParts (itemOf (following body (start + 1))) =
          (parts, itemOf (following body found.2)) by
    obtain ⟨⟨_, next⟩, hfound, parts, rfl, hrest⟩ := hloop
    exact ⟨parts, next, hfound, hrest⟩
  rw [qualifiedName, element_eq_ok htoken, ok_bind]
  refine exists_loop_eq_ok
    (fun index found => ∃ parts, found = token :: parts ∧ start < index ∧
      StaysInItem body (start + 1) index ∧
      TableUse.moreParts (itemOf (following body (start + 1))) =
        (parts ++ (TableUse.moreParts (itemOf (following body index))).1,
          (TableUse.moreParts (itemOf (following body index))).2)) ?_ ?_ (start + 1)
    [token] ⟨[], rfl, Nat.lt_succ_self _, fun _ => rfl, rfl⟩
  · rintro index _ hlength ⟨parts, rfl, hlt, hstays, hparts⟩
    rw [following_eq_nil_of_le hlength] at hparts
    refine ⟨parts, rfl, hlt, hstays, ?_⟩
    rw [hparts, following_eq_nil_of_le hlength]
    simp [itemOf, TableUse.moreParts]
  · rintro index _ - ⟨parts, rfl, hlt, hstays, hparts⟩
    have hstop (hnone : TableUse.moreParts (itemOf (following body index)) =
        ([], itemOf (following body index))) : ∃ parts',
        token :: parts = token :: parts' ∧ start < index ∧
        StaysInItem body (start + 1) index ∧
        TableUse.moreParts (itemOf (following body (start + 1))) =
          (parts', itemOf (following body index)) := by
      rw [hnone, List.append_nil] at hparts
      exact ⟨parts, rfl, hlt, hstays, hparts⟩
    obtain ⟨_, hnext,
      hblank | @⟨dotIndex, dot, blank, hle, hdot, htrivia, hsplit, hblank⟩⟩ :=
      exists_nextSignificant_eq_ok body index
    · rw [hnext]
      refine ⟨_, rfl, hstop ?_⟩
      rw [following_eq_nil hblank]
      rfl
    simp only [hnext, element_eq_ok hdot, ok_bind]
    split
    · next hkind =>
      obtain ⟨hitem, hrest⟩ := itemBegins_of_ne (by rw [hkind]; decide)
        (by rw [hkind]; decide) hdot htrivia hsplit hblank
      obtain ⟨_, hnextPart,
        hblankPart |
          @⟨partIndex, part, blankPart, hlePart, hpart, htriviaPart, hsplitPart,
            hblankPart⟩⟩ :=
        exists_nextSignificant_eq_ok body (dotIndex + 1)
      · rw [hnextPart]
        refine ⟨_, rfl, hstop ?_⟩
        rw [hitem, following_eq_nil hblankPart]
        rfl
      simp only [hnextPart, element_eq_ok hpart, ok_bind]
      split
      · next hname =>
        obtain ⟨hitemPart, hrestPart⟩ :=
          itemBegins_of_ne (kind_ne_of_isNamePart hname rfl)
            (kind_ne_of_isNamePart hname rfl) hpart htriviaPart hsplitPart hblankPart
        refine ⟨_, rfl, by omega, parts ++ [part], rfl, by omega, fun read => ?_, ?_⟩
        · rw [hstays, hrest, hrestPart]
        · rw [hparts, hitem, hitemPart, TableUse.moreParts, if_pos ⟨hkind, hname⟩]
          simp
      · next hname =>
        refine ⟨_, rfl, hstop ?_⟩
        rw [hitem]
        rcases itemBegins hpart htriviaPart hsplitPart hblankPart with
          ⟨-, hitemPart⟩ | ⟨-, hitemPart⟩ | ⟨-, -, hitemPart, -⟩
        · rw [hitemPart]
          rfl
        · rw [hitemPart]
          rfl
        · rw [hitemPart, TableUse.moreParts, if_neg fun hand => hname hand.2]
    · next hkind =>
      refine ⟨_, rfl, hstop ?_⟩
      rcases itemBegins hdot htrivia hsplit hblank with ⟨-, hitem⟩ | ⟨-, hitem⟩ |
        ⟨-, -, hitem, -⟩
      · rw [hitem]
        rfl
      · rw [hitem]
        rfl
      · rw [hitem, moreParts_single_of_ne_dot hkind]

/-! ## The rest of an item -/

theorem isCall_eq_ok (body : List Token) (start : Nat) :
    isCall body start =
      .ok ((itemOf (following body start)).head?.any Piece.isGroup) := by
  obtain ⟨_, hnext,
    hblank | @⟨index, token, blank, hle, htoken, htrivia, hsplit, hblank⟩⟩ :=
    exists_nextSignificant_eq_ok body start
  · rw [isCall, hnext, following_eq_nil hblank]
    rfl
  · simp only [isCall, hnext, element_eq_ok htoken, ok_bind]
    rcases itemBegins htoken htrivia hsplit hblank with
      ⟨hkind, hitem⟩ | ⟨hopens, hitem⟩ | ⟨-, hopens, hitem, -⟩
    · rw [hitem, Lexeme.opens, hkind]
      rfl
    · rw [hitem, hopens]
      rfl
    · rw [hitem, hopens]
      rfl

def nameOf? : List Piece → Option String
  | .single token :: _ => if token.isIdentifier then some token.name else none
  | _ => none

private theorem alias?_single (token : Token) (pieces : List Piece) :
    TableUse.alias? (.single token :: pieces) =
      if token.isKeyword .as then nameOf? pieces
      else if token.isIdentifier then some token.name else none := by
  rcases pieces with _ | ⟨_ | _, pieces⟩ <;> rfl

theorem exists_aliasAt_eq_ok (body : List Token) (start : Nat) :
    ∃ next,
      aliasAt body start =
        .ok (TableUse.alias? (itemOf (following body start)), next) ∧
      start ≤ next ∧ StaysInItem body start next := by
  obtain ⟨_, hnext,
    hblank | @⟨index, token, blank, hle, htoken, htrivia, hsplit, hblank⟩⟩ :=
    exists_nextSignificant_eq_ok body start
  · rw [aliasAt, hnext, following_eq_nil hblank]
    exact ⟨start, rfl, Nat.le_refl _, fun _ => rfl⟩
  simp only [aliasAt, hnext, element_eq_ok htoken, ok_bind]
  split
  · next has =>
    have hkind : token.kind = .keyword .as := beq_iff_eq.1 has
    obtain ⟨hitem, hrest⟩ :=
      itemBegins_of_ne (by rw [hkind]; exact TokenKind.noConfusion)
        (by rw [hkind]; exact TokenKind.noConfusion) htoken htrivia hsplit hblank
    obtain ⟨_, hnextName,
      hblankName |
        @⟨nameIndex, name, blankName, hleName, hname, htriviaName, hsplitName,
          hblankName⟩⟩ :=
      exists_nextSignificant_eq_ok body (index + 1)
    · rw [hnextName, hitem, following_eq_nil hblankName, alias?_single, if_pos has]
      exact ⟨index + 1, rfl, by omega, hrest⟩
    simp only [hnextName, element_eq_ok hname, ok_bind]
    rw [hitem, alias?_single, if_pos has]
    split
    · next hidentifier =>
      obtain ⟨hitemName, hrestName⟩ :=
        itemBegins_of_ne (kind_ne_of_isIdentifier hidentifier TokenKind.noConfusion)
          (kind_ne_of_isIdentifier hidentifier TokenKind.noConfusion) hname
          htriviaName hsplitName hblankName
      rw [hitemName, nameOf?, if_pos hidentifier]
      exact ⟨nameIndex + 1, rfl, by omega,
        fun read => (hrest read).trans (hrestName read)⟩
    · next hidentifier =>
      refine ⟨index + 1, ?_, by omega, hrest⟩
      rcases itemBegins hname htriviaName hsplitName hblankName with
        ⟨-, hitemName⟩ | ⟨-, hitemName⟩ | ⟨-, -, hitemName, -⟩
      · rw [hitemName]
        rfl
      · rw [hitemName]
        rfl
      · rw [hitemName, nameOf?, if_neg hidentifier]
  · next has =>
    split
    · next hidentifier =>
      obtain ⟨hitem, hrest⟩ :=
        itemBegins_of_ne (kind_ne_of_isIdentifier hidentifier TokenKind.noConfusion)
          (kind_ne_of_isIdentifier hidentifier TokenKind.noConfusion) htoken htrivia
          hsplit hblank
      rw [hitem, alias?_single, if_neg has, if_pos hidentifier]
      exact ⟨index + 1, rfl, by omega, hrest⟩
    · next hidentifier =>
      refine ⟨start, ?_, Nat.le_refl _, fun _ => rfl⟩
      rcases itemBegins htoken htrivia hsplit hblank with ⟨-, hitem⟩ | ⟨-, hitem⟩ |
        ⟨-, -, hitem, -⟩
      · rw [hitem]
        rfl
      · rw [hitem]
        rfl
      · rw [hitem, alias?_single, if_neg has, if_neg hidentifier]

theorem isCommonTable_eq_ok (visible : List String) (first : Token)
    (parts : List Token) :
    isCommonTable visible (first :: parts) =
      .ok (parts.isEmpty && visible.any (Text.sameCaseless · first.name)) := by
  cases parts with
  | nil => rfl
  | cons part parts => rw [isCommonTable, if_neg (by simp)]; rfl

theorem mentionOf_eq_ok (schema : String) (first : Token) (parts : List Token) :
    mentionOf schema (first :: parts) =
      .ok (some (TableUse.mentionOf schema first parts)) := by
  cases parts with
  | nil => rfl
  | cons part parts =>
    -- the part before the last one
    obtain ⟨before, hbefore⟩ : ∃ before, (first :: part :: parts).dropLast.getLast? =
        some before :=
      Option.isSome_iff_exists.1 (by simp)
    have helement : element (first :: part :: parts)
          ((first :: part :: parts).length - 2) = .ok before := by
      apply element_eq_ok
      rw [← hbefore, List.getLast?_eq_getElem?, List.length_dropLast,
        List.getElem?_dropLast]
      simp
    have hlength : (first :: part :: parts).length ≠ 1 := by simp
    have hminus : minus (first :: part :: parts).length 2 =
        .ok ((first :: part :: parts).length - 2) := minus_eq_ok (by simp)
    simp only [mentionOf, List.head?_cons, List.getLast?_cons, TableUse.mentionOf,
      hbefore, hlength, ↓reduceIte, hminus, helement, ok_bind, Option.map_some,
      Option.getD_some]

/-! ## Lists of tables -/

section Items

variable (schema : String) (visible : List String) {first : Token}

private theorem ofItem?_group (opening : Token) (inner : List Token)
    (closing : Option Token) (item : List Piece) :
    TableUse.ofItem? schema visible (.group opening inner closing :: item) = none :=
  rfl

private theorem ofItem?_lateral (h : first.isKeyword .lateral = true)
    (item : List Piece) :
    TableUse.ofItem? schema visible (.single first :: item) =
      TableUse.ofItem? schema visible item := by
  rw [TableUse.ofItem?,
    List.dropWhile_cons_of_pos (by simp [Piece.keyword?, Lexeme.isKeyword_iff.1 h]),
    ← TableUse.ofItem?]

private theorem ofItem?_single (h : first.isKeyword .lateral = false)
    {pieces rest : List Piece} {parts : List Token}
    (hparts : TableUse.moreParts pieces = (parts, rest)) :
    TableUse.ofItem? schema visible (.single first :: pieces) =
      if first.isIdentifier && !rest.head?.any Piece.isGroup &&
        !(parts.isEmpty && visible.any (Text.sameCaseless · first.name)) then
        some ⟨TableUse.mentionOf schema first parts, TableUse.alias? rest⟩
      else none := by
  have hkeyword : ¬ ((Piece.single first).keyword? == some .lateral) = true := by
    rw [beq_iff_eq, Piece.keyword?, ← Lexeme.isKeyword_iff, h]
    exact Bool.false_ne_true
  rw [TableUse.ofItem?, List.dropWhile_cons, if_neg hkeyword]
  simp only [hparts]

theorem exists_usedTable_eq_ok {body : List Token} {start : Nat}
    (htoken : body[start]? = some first) (hidentifier : first.isIdentifier = true)
    (hlateral : first.isKeyword .lateral = false) :
    ∃ next,
      usedTable schema visible body start =
        .ok (TableUse.ofItem? schema visible
            (.single first :: itemOf (following body (start + 1))), next) ∧
      start < next ∧ StaysInItem body (start + 1) next := by
  obtain ⟨parts, next, hqualified, hlt, hstays, hparts⟩ :=
    exists_qualifiedName_eq_ok htoken
  obtain ⟨after, halias, hle, hstaysAlias⟩ := exists_aliasAt_eq_ok body next
  have hstaysAfter : StaysInItem body (start + 1) after :=
    fun read => (hstays read).trans (hstaysAlias read)
  simp only [usedTable, hqualified, isCall_eq_ok, halias, isCommonTable_eq_ok,
    mentionOf_eq_ok, ok_bind]
  rw [ofItem?_single schema visible hlateral hparts, hidentifier, Bool.true_and]
  split
  · next hcall =>
    rw [hcall]
    exact ⟨next, rfl, hlt, hstays⟩
  · next hcall =>
    rw [eq_false_of_ne_true hcall]
    split
    · next hcommon =>
      rw [hcommon]
      exact ⟨after, rfl, by omega, hstaysAfter⟩
    · next hcommon =>
      rw [eq_false_of_ne_true hcommon]
      exact ⟨after, rfl, by omega, hstaysAfter⟩

end Items

theorem relations_eq_ok (schema : String) (visible : List String)
    (body : List Token) :
    relations schema visible body = .ok (TableUse.ofBody schema visible body) := by
  have hnil : TableUse.ofItem? schema visible [] = none := rfl
  have htarget : TableUse.ofBody schema visible body =
      remaining (TableUse.ofItem? schema visible) true (following body 0) :=
    filterMap_splitOnP _
  rw [htarget]
  refine loop_eq_ok (fun index (state : ListState TableUse) => state.found ++
      remaining (TableUse.ofItem? schema visible) state.expecting
        (following body index) =
    remaining (TableUse.ofItem? schema visible) true (following body 0)) ?_ ?_ rfl
  · intro index state hlength hinv
    rwa [following_eq_nil_of_le hlength, remaining_nil hnil, List.append_nil] at hinv
  · intro start state hlt hinv
    obtain ⟨_, hnext,
      hblank | @⟨index, token, blank, hle, htoken, htrivia, hsplit, hblank⟩⟩ :=
      exists_nextSignificant_eq_ok body start
    · rw [following_eq_nil hblank, remaining_nil hnil, List.append_nil] at hinv
      rw [hnext]
      exact ⟨_, rfl, hinv⟩
    rw [following_eq hsplit hblank] at hinv
    simp only [hnext, element_eq_ok htoken, ok_bind]
    split
    · next hopens =>
      obtain ⟨closing, hfollowing⟩ := following_eq_group htoken hopens
      rw [hfollowing,
        remaining_cons_of_read_eq_none (fun _ item => ofItem?_group ..) rfl] at hinv
      rw [matchingClose_eq_ok htoken hopens, ok_bind]
      have hclose : index < closeOf body index + 1 := by
        rw [closeOf]
        omega
      split
      · obtain ⟨next, halias, hnextLe, hstays⟩ :=
          exists_aliasAt_eq_ok body (closeOf body index + 1)
        rw [hstays] at hinv
        rw [halias]
        exact ⟨_, rfl, by omega, hinv⟩
      · next hexpecting =>
        refine ⟨_, rfl, by omega, ?_⟩
        simpa [eq_false_of_ne_true hexpecting] using hinv
    · next hopens =>
      rw [following_eq_single htoken htrivia (by simpa using hopens)] at hinv
      split
      · next hcomma =>
        rw [remaining_comma hnil (by simpa [Piece.isKind] using hcomma)] at hinv
        exact ⟨_, rfl, by omega, hinv⟩
      · next hcomma =>
        have hpiece := isKind_comma_single hcomma
        split
        · next hlateral =>
          rw [remaining_cons_of_read_eq
            (fun item => ofItem?_lateral _ _ hlateral item) hpiece] at hinv
          exact ⟨_, rfl, by omega, hinv⟩
        · next hlateral =>
          split
          · next hname =>
            obtain ⟨hidentifier, hexpecting⟩ := Bool.and_eq_true_iff.1 hname
            obtain ⟨next, hused, hlt, hstays⟩ := exists_usedTable_eq_ok schema visible
              htoken hidentifier (eq_false_of_ne_true hlateral)
            rw [hexpecting, remaining_true_cons _ hpiece, hstays,
              ← List.append_assoc] at hinv
            rw [hused]
            exact ⟨_, rfl, by omega, hinv⟩
          · next hname =>
            have hread (hexpecting : state.expecting = true) (item : List Piece) :
                TableUse.ofItem? schema visible (.single token :: item) = none := by
              rw [hexpecting, Bool.and_true, Bool.not_eq_true] at hname
              obtain ⟨⟨parts, rest⟩, hparts⟩ : ∃ read,
                  TableUse.moreParts item = read := ⟨_, rfl⟩
              rw [ofItem?_single schema visible (eq_false_of_ne_true hlateral) hparts,
                hname]
              rfl
            rw [remaining_cons_of_read_eq_none hread hpiece] at hinv
            exact ⟨_, rfl, by omega, hinv⟩

end SqlOutline.Indexed
