import SqlOutline.Proofs.Layout.Basic
import SqlOutline.Proofs.Lineage.Origin

/-!
# Names that share no token

The name of a table is written by tokens that stand side by side outside the groups of
its clause, white space and comments between them included. No two names share a
token, however the statements are nested (`spread_tableUses`): what is nested in a
clause lies in its groups.
-/

namespace SqlOutline

/-! ## Stretches of filtered lists -/

private theorem exists_isInfix_of_isInfix_filter {α : Type} {p : α → Bool}
    {l part : List α} (h : part <:+: l.filter p) (hne : part ≠ []) :
    ∃ stretch, stretch <:+: l ∧ stretch.filter p = part ∧ stretch.head? = part.head? ∧
      stretch.getLast? = part.getLast? := by
  obtain ⟨before, after, hsplit⟩ := h
  obtain ⟨x, rest, rfl⟩ := List.exists_cons_of_ne_nil hne
  rw [List.append_assoc, eq_comm, List.filter_eq_append_iff] at hsplit
  obtain ⟨l₁, l₂, rfl, -, hl₂⟩ := hsplit
  rw [List.cons_append, List.filter_eq_cons_iff] at hl₂
  obtain ⟨skipped, l₃, rfl, -, hx, hl₃⟩ := hl₂
  rcases List.eq_nil_or_concat' rest with rfl | ⟨init, y, rfl⟩
  · refine ⟨[x], ⟨l₁ ++ skipped, l₃, by simp⟩, ?_, rfl, rfl⟩
    rw [List.filter_cons_of_pos hx, List.filter_nil]
  · rw [List.append_assoc, List.filter_eq_append_iff] at hl₃
    obtain ⟨inner, l₄, rfl, hinner, hl₄⟩ := hl₃
    rw [List.singleton_append, List.filter_eq_cons_iff] at hl₄
    obtain ⟨gap, later, rfl, hgap, hy, -⟩ := hl₄
    refine ⟨x :: (inner ++ gap ++ [y]), ⟨l₁ ++ skipped, later, by simp⟩, ?_, rfl, ?_⟩
    · rw [List.filter_cons_of_pos hx, List.filter_append, List.filter_append, hinner,
        List.filter_eq_nil_iff.2 hgap, List.filter_cons_of_pos hy, List.filter_nil,
        List.append_nil]
    · rw [List.getLast?_cons, List.getLast?_concat, List.getLast?_cons,
        List.getLast?_concat]

namespace Piece

/-- The items between commas are the parts between commas without white space and
comments. -/
theorem commaItems_eq_map (pieces : List Piece) :
    commaItems pieces = (pieces.splitOnP (isKind .comma)).map significant := by
  have hkeeps : ∀ piece : Piece, piece.isKind .comma = true →
      (!piece.isTrivia) = true := by
    intro piece hcomma
    cases piece with
    | group opening inner closing => rfl
    | single token =>
      rw [isKind, beq_iff_eq] at hcomma
      rw [isTrivia, Lexeme.isTrivia, hcomma]
      rfl
  have hsplit := splitOnP_map_filter (p := isKind .comma) (q := isKind .comma)
    (f := id) (fun piece : Piece => !piece.isTrivia) (fun _ => rfl) hkeeps pieces
  simp only [List.map_id] at hsplit
  exact hsplit

private theorem isGroup_of_isTrivia {piece : Piece} (h : piece.isTrivia = true) :
    piece.isGroup = false := by
  cases piece with
  | single token => rfl
  | group opening inner closing => exact Bool.noConfusion h

def outside (pieces : List Piece) : List Token :=
  (pieces.filter fun piece => !piece.isGroup).flatMap Piece.tokens

private theorem outside_sublist (pieces : List Piece) :
    (outside pieces).Sublist (pieces.flatMap Piece.tokens) :=
  List.filter_sublist.flatMap Piece.tokens

private theorem single_mem_of_mem_outside {pieces : List Piece} {token : Token}
    (h : token ∈ outside pieces) : .single token ∈ pieces := by
  obtain ⟨piece, hpiece, htoken⟩ := List.mem_flatMap.1 h
  obtain ⟨hmem, hgroup⟩ := List.mem_filter.1 hpiece
  cases piece with
  | group opening inner closing => simp [isGroup] at hgroup
  | single other =>
    rw [List.mem_singleton.1 htoken]
    exact hmem

end Piece

/-! ## The tokens of a name -/

/-- The use names its table by tokens that stand side by side. They begin with an
identifier and end with an identifier or a keyword, which give the place of the
mention. -/
structure TableUse.NamedBy (use : TableUse) (stretch : List Token) : Prop where
  first : ∃ first, stretch.head? = some first ∧ first.isIdentifier = true ∧
    use.mention.line = first.line ∧ use.mention.start = first.start
  last : ∃ last, stretch.getLast? = some last ∧ last.isNamePart = true ∧
    use.mention.stop = last.stop

namespace TableUse

private theorem exists_append_of_moreParts (pieces : List Piece) :
    ∃ taken, pieces = taken ++ (moreParts pieces).2 ∧
      (∀ piece ∈ taken, piece.isGroup = false) ∧
      taken.getLast? = (moreParts pieces).1.getLast?.map Piece.single ∧
      ∀ part ∈ (moreParts pieces).1, part.isNamePart = true := by
  match pieces with
  | .single dot :: .single part :: pieces =>
    rw [moreParts]
    by_cases hname : dot.kind = .dot ∧ part.isNamePart = true
    · rw [if_pos hname]
      obtain ⟨taken, hpieces, hsingle, hlast, hparts⟩ :=
        exists_append_of_moreParts pieces
      refine ⟨.single dot :: .single part :: taken, congrArg (_ :: _ :: ·) hpieces,
        ?_, ?_, ?_⟩
      · simpa [Piece.isGroup] using hsingle
      · rw [List.getLast?_cons, List.getLast?_cons, List.getLast?_cons, hlast]
        cases (moreParts pieces).1.getLast? <;> rfl
      · simpa [hname.2] using hparts
    · rw [if_neg hname]
      exact ⟨[], rfl, by simp, rfl, by simp⟩
  | [] | [.single _] | .group .. :: _ | .single _ :: .group .. :: _ =>
    exact ⟨[], rfl, by simp, rfl, by simp [moreParts]⟩

theorem exists_namedBy_of_ofItem? {schema : String} {visible : List String}
    {part : List Piece} {use : TableUse}
    (h : ofItem? schema visible (Piece.significant part) = some use) :
    ∃ stretch, use.NamedBy stretch ∧ stretch <:+: part.flatMap Piece.tokens ∧
      stretch.Sublist (Piece.outside part) := by
  rw [ofItem?] at h
  split at h
  · next first pieces hdrop =>
    dsimp only at h
    split at h
    · next huse =>
      rw [Option.some_inj] at h
      simp only [Bool.and_eq_true] at huse
      obtain ⟨taken, hpieces, hsingle, hlast, hparts⟩ :=
        exists_append_of_moreParts pieces
      have hplace : .single first :: taken <:+: Piece.significant part := by
        have hprefix : .single first :: taken <+: .single first :: pieces := by
          refine ⟨(moreParts pieces).2, ?_⟩
          rw [List.cons_append, ← hpieces]
        rw [← hdrop] at hprefix
        exact hprefix.isInfix.trans (List.dropWhile_suffix _).isInfix
      obtain ⟨stretch, hstretch, hfilter, hhead, hend⟩ :=
        exists_isInfix_of_isInfix_filter hplace (List.cons_ne_nil _ _)
      -- what is left out of the name is white space and comments, and these are no
      -- groups either
      have houtside : stretch.filter (fun piece => !piece.isGroup) = stretch := by
        rw [List.filter_eq_self]
        intro piece hpiece
        cases htrivia : piece.isTrivia with
        | true => rw [Piece.isGroup_of_isTrivia htrivia, Bool.not_false]
        | false =>
          have hmem : piece ∈ stretch.filter fun piece => !piece.isTrivia :=
            List.mem_filter.2 ⟨hpiece, by simp [htrivia]⟩
          rw [hfilter] at hmem
          rcases List.mem_cons.1 hmem with rfl | hmem
          · rfl
          · simp [hsingle piece hmem]
      refine ⟨stretch.flatMap Piece.tokens, ⟨⟨first, ?_, huse.1.1, ?_⟩,
        ((moreParts pieces).1.getLast?.getD first), ?_, ?_, ?_⟩, ?_, ?_⟩
      · obtain ⟨later, rfl⟩ := List.head?_eq_some_iff.1 hhead
        rfl
      · rw [← h]
        exact ⟨rfl, rfl⟩
      · rw [List.getLast?_cons, hlast, Option.getD_map] at hend
        obtain ⟨init, rfl⟩ := List.getLast?_eq_some_iff.1 hend
        rw [List.flatMap_append]
        exact List.getLast?_concat
      · cases hmore : (moreParts pieces).1.getLast? with
        | none => simp [Lexeme.isNamePart, huse.1.1]
        | some last => exact hparts last (List.mem_of_getLast? hmore)
      · rw [← h]
        rfl
      · obtain ⟨before, after, rfl⟩ := hstretch
        exact ⟨before.flatMap Piece.tokens, after.flatMap Piece.tokens, by simp⟩
      · rw [Piece.outside]
        apply List.Sublist.flatMap
        rw [← houtside]
        exact hstretch.sublist.filter _
    · simp at h
  · simp at h

end TableUse

/-! ## Names that share no token -/

/-- The uses name their tables by stretches of `outer` that share no token, with
tokens of `held` alone. -/
def Spread (uses : List TableUse) (outer held : List Token) : Prop :=
  ∃ named : List (TableUse × List Token), named.map Prod.fst = uses ∧
    (∀ name ∈ named, name.1.NamedBy name.2 ∧ name.2 <:+: outer) ∧
    (named.flatMap Prod.snd).Nodup ∧ named.flatMap Prod.snd ⊆ held

namespace Spread

variable {uses first second : List TableUse} {outer held : List Token}

theorem nil (outer held : List Token) : Spread [] outer held :=
  ⟨[], rfl, by simp, by simp, by simp⟩

theorem mono {wider more : List Token} (h : Spread uses outer held)
    (houter : outer <:+: wider) (hheld : held ⊆ more) : Spread uses wider more := by
  obtain ⟨named, huses, hnamed, hnodup, hsubset⟩ := h
  exact ⟨named, huses,
    fun name hname => ⟨(hnamed name hname).1, (hnamed name hname).2.trans houter⟩,
    hnodup, List.Subset.trans hsubset hheld⟩

theorem append {heldFirst heldSecond : List Token}
    (hfirst : Spread first outer heldFirst) (hsecond : Spread second outer heldSecond)
    (hdisjoint : heldFirst.Disjoint heldSecond) :
    Spread (first ++ second) outer (heldFirst ++ heldSecond) := by
  obtain ⟨named, rfl, hnamed, hnodup, hsubset⟩ := hfirst
  obtain ⟨others, rfl, hothers, hnodup', hsubset'⟩ := hsecond
  refine ⟨named ++ others, List.map_append, fun name hname => ?_, ?_, ?_⟩
  · rcases List.mem_append.1 hname with hmem | hmem
    · exact hnamed name hmem
    · exact hothers name hmem
  · rw [List.flatMap_append, List.nodup_append']
    exact ⟨hnodup, hnodup',
      fun token hmem hmem' => hdisjoint (hsubset hmem) (hsubset' hmem')⟩
  · rw [List.flatMap_append]
    exact List.append_subset.2
      ⟨List.Subset.trans hsubset (List.subset_append_left _ _),
        List.Subset.trans hsubset' (List.subset_append_right _ _)⟩

theorem flatMap {α : Type} {f : α → List TableUse} {g : α → List Token} {l : List α}
    (h : ∀ x ∈ l, Spread (f x) outer (g x)) (hnodup : (l.flatMap g).Nodup) :
    Spread (l.flatMap f) outer (l.flatMap g) := by
  induction l with
  | nil => exact nil outer _
  | cons x l ih =>
    rw [List.flatMap_cons, List.nodup_append'] at hnodup
    obtain ⟨-, htail, hdisjoint⟩ := hnodup
    exact (h x (List.mem_cons_self ..)).append
      (ih (fun y hy => h y (List.mem_cons_of_mem x hy)) htail) hdisjoint

end Spread

theorem TableUse.spread_ofBody (schema : String) (visible : List String)
    {body : List Token} (hnodup : body.Nodup) :
    Spread (ofBody schema visible body) body
      (Piece.outside (Piece.ofTokens body)) := by
  let parts := (Piece.ofTokens body).splitOnP (Piece.isKind .comma)
  have hsublist : (parts.flatMap Piece.outside).Sublist
      (Piece.outside (Piece.ofTokens body)) := by
    have hflatten :=
      flatten_splitOnP_sublist (Piece.isKind .comma) (Piece.ofTokens body)
    have hall := (hflatten.filter fun piece => !piece.isGroup).flatMap Piece.tokens
    rwa [List.filter_flatten, ← List.flatMap_def, List.flatMap_assoc] at hall
  have houtside : (Piece.outside (Piece.ofTokens body)).Nodup := by
    have hpieces := Piece.outside_sublist (Piece.ofTokens body)
    rw [Piece.flatMap_tokens_ofTokens] at hpieces
    exact hpieces.nodup hnodup
  have huses : ofBody schema visible body =
      parts.flatMap fun part =>
        (ofItem? schema visible (Piece.significant part)).toList := by
    rw [ofBody, Piece.commaItems_eq_map, List.filterMap_map,
      List.filterMap_eq_flatMap_toList]
    rfl
  rw [huses]
  refine Spread.mono (Spread.flatMap (fun part hpart => ?_) (hsublist.nodup houtside))
    (List.infix_refl body) hsublist.subset
  cases huse : ofItem? schema visible (Piece.significant part) with
  | none => exact Spread.nil _ _
  | some use =>
    obtain ⟨stretch, hnamed, hplace, hstretch⟩ := exists_namedBy_of_ofItem? huse
    have hpartInfix : part.flatMap Piece.tokens <:+: body := by
      obtain ⟨before, after, hsplit⟩ := Script.isInfix_of_mem_splitOnP hpart
      refine ⟨before.flatMap Piece.tokens, after.flatMap Piece.tokens, ?_⟩
      rw [← List.flatMap_append, ← List.flatMap_append, hsplit,
        Piece.flatMap_tokens_ofTokens]
    have hpartNodup : (Piece.outside part).Nodup :=
      (List.nodup_flatMap.1 (hsublist.nodup houtside)).1 part hpart
    refine ⟨[(use, stretch)], rfl, ?_, ?_, ?_⟩
    · rw [List.forall_mem_singleton]
      exact ⟨hnamed, hplace.trans hpartInfix⟩
    · rw [List.flatMap_singleton]
      exact hstretch.nodup hpartNodup
    · rw [List.flatMap_singleton]
      exact hstretch.subset

namespace Statement

theorem IsParsed.isInfix_body {statement : Statement} {clause : Clause Statement}
    (h : statement.IsParsed) (hclause : clause ∈ statement.clauses) :
    clause.body <:+: statement.tokens := by
  obtain ⟨levels, passage, rfl⟩ := h
  obtain ⟨before, after, hsplit⟩ := List.append_of_mem hclause
  obtain ⟨rest, htokens, -⟩ := exists_tokens_of_clauses_eq hsplit
  rw [tokens_ofPassage, htokens, ← List.append_assoc]
  exact ⟨_, rest, rfl⟩

/-- No two names of tables in a statement share a token, on any level of nesting. -/
theorem spread_tableUses (schema : String) {statement : Statement}
    (hparsed : statement.IsParsed) (hnodup : statement.tokens.Nodup)
    (visible : List String) :
    Spread (statement.tableUses schema visible) statement.tokens
      statement.tokens := by
  induction statement using induction_nested generalizing visible with
  | step statement ih =>
    have hclauses := hparsed.flatMap_tokens_sublist
    have hnested : ∀ clause ∈ statement.clauses, ∀ inner ∈ clause.nested, ∀ known,
        Spread (inner.tableUses schema known) statement.tokens inner.tokens := by
      intro clause hclause inner hinner known
      obtain ⟨hinnerParsed, hplace⟩ := hparsed.of_mem_nested hclause hinner
      exact (ih clause hclause inner hinner hinnerParsed (hplace.sublist.nodup hnodup)
        known).mono hplace (List.Subset.refl _)
    have husesIn : ∀ clause ∈ statement.clauses,
        Spread (statement.usesIn schema visible clause) statement.tokens
          clause.body := by
      intro clause hclause
      have hbody := hparsed.nodup_body hnodup hclause
      have hsublist := hparsed.flatMap_nested_sublist hclause
      rw [usesIn]
      split
      · have hindexed : (clause.nested.zipIdx.flatMap fun inner => inner.1.tokens) =
            clause.nested.flatMap tokens := by
          conv_rhs => rw [← List.zipIdx_map_fst 0 clause.nested, List.flatMap_map]
        refine Spread.mono (Spread.flatMap (g := fun inner => inner.1.tokens)
          (fun inner hinner => ?_) ?_) (List.infix_refl _) ?_
        · exact hnested clause hclause inner.1 (List.fst_mem_of_mem_zipIdx hinner) _
        · rw [hindexed]
          exact hsublist.nodup hbody
        · rw [hindexed]
          exact hsublist.subset
      · have hown : Spread (if clause.kind.listsTables then
            TableUse.ofBody schema (statement.commonTables ++ visible) clause.body
              else []) statement.tokens
              (Piece.outside (Piece.ofTokens clause.body)) := by
          split
          · exact (TableUse.spread_ofBody schema _ hbody).mono
              (hparsed.isInfix_body hclause) (List.Subset.refl _)
          · exact Spread.nil _ _
        have hinner := Spread.flatMap
          (fun inner hinner =>
            hnested clause hclause inner hinner (statement.commonTables ++ visible))
          (hsublist.nodup hbody)
        refine (hown.append hinner ?_).mono (List.infix_refl _) ?_
        · intro token htoken htokenInner
          obtain ⟨inner, hmem, htokenMem⟩ := List.mem_flatMap.1 htokenInner
          exact hparsed.not_mem_nested hnodup hclause hmem
            (Piece.single_mem_of_mem_outside htoken) htokenMem
        · have hpieces := Piece.outside_sublist (Piece.ofTokens clause.body)
          rw [Piece.flatMap_tokens_ofTokens] at hpieces
          exact List.append_subset.2 ⟨hpieces.subset, hsublist.subset⟩
    have hbodies : (statement.clauses.flatMap Clause.body).Sublist statement.tokens :=
      (List.Sublist.flatMap_right statement.clauses fun clause _ =>
        List.sublist_append_right clause.head clause.body).trans hclauses
    rw [tableUses_eq]
    exact (Spread.flatMap husesIn (hbodies.nodup hnodup)).mono (List.infix_refl _)
      hbodies.subset

end Statement

end SqlOutline
