import SqlOutline.Proofs.Piece.Cut
import SqlOutline.Proofs.Script.Junction

/-!
# Splitting a script again

The plain texts of a script with semicolons between them are split into the same plain
texts, whatever the script leaves open (`plainTexts_intercalate`). A semicolon in the
script closed each statement but the last one, so only that can leave something open,
and it is written last again.

How many there are can be counted in one pass over the tokens that keeps the depth
(`stretches`).
-/

namespace SqlOutline

open Token

namespace Script

/-! ## Cuts in one pass -/

/-- The tokens between the semicolons at depth 0, where `outer` is the depth before
them. A `)` that closes nothing leaves the depth at 0. -/
def stretches : Nat → List Token → List (List Token)
  | _, [] => [[]]
  | outer, token :: tokens =>
    if outer = 0 ∧ token.kind = .semicolon then [] :: stretches 0 tokens
    else (stretches (depthStep outer token) tokens).modifyHead (token :: ·)

theorem stretches_eq_cutAt (outer : Nat) (tokens : List Token) :
    stretches outer tokens = cutAt .semicolon outer tokens := by
  induction tokens generalizing outer with
  | nil => rfl
  | cons token tokens ih => rw [stretches, cutAt, ih, ih]

theorem parts_eq_filter_stretches (tokens : List Token) :
    parts tokens =
      (stretches 0 tokens).filter fun stretch => stretch.any (!·.isTrivia) := by
  rw [parts, stretches_eq_cutAt, cutAt_eq_splitOnP (by decide)]

theorem length_plainTexts (text : String) :
    (plainTexts text).length =
      (stretches 0 (tokenize text)).countP fun stretch =>
        stretch.any (!·.isTrivia) := by
  rw [plainTexts_eq_map, List.length_map, statements, ofTokens, List.length_map,
    parts_eq_filter_stretches, List.countP_eq_length_filter]

/-! ## Statements that a semicolon ends -/

private theorem exists_append_of_mem_dropLast_splitOnP {α : Type} {p : α → Bool}
    {l part : List α} (h : part ∈ (l.splitOnP p).dropLast) :
    ∃ earlier separator later, l = earlier ++ (part ++ separator :: later) := by
  generalize hparts : l.splitOnP p = parts at h
  induction parts generalizing l with
  | nil => simp at h
  | cons first parts ih =>
    have hsplit : l.takeWhile (fun x => !p x) ++ l.dropWhile (fun x => !p x) = l :=
      List.takeWhile_append_dropWhile
    have hfirst : ∀ x ∈ l.takeWhile fun x => !p x, p x = false := fun x hx => by
      simpa using List.mem_takeWhile_imp hx
    generalize l.takeWhile (fun x => !p x) = before at hsplit hfirst
    cases hrest : l.dropWhile fun x => !p x with
    | nil =>
      rw [hrest, List.append_nil] at hsplit
      rw [← hsplit, List.splitOnP_eq_singleton hfirst] at hparts
      obtain ⟨rfl, rfl⟩ := List.cons.inj hparts
      simp at h
    | cons separator later =>
      have hseparator : p separator = true := by
        have hstops := List.head?_dropWhile_not (fun x => !p x) l
        rw [hrest] at hstops
        simpa using hstops
      rw [hrest] at hsplit
      rw [← hsplit,
        List.splitOnP_append_cons_of_forall_mem hfirst _ hseparator] at hparts
      obtain ⟨rfl, rfl⟩ := List.cons.inj hparts
      rw [List.dropLast_cons_of_ne_nil (List.splitOnP_ne_nil p later),
        List.mem_cons] at h
      rcases h with rfl | h
      · exact ⟨[], separator, later, hsplit.symm⟩
      · obtain ⟨earlier, separator', later', rfl⟩ := ih rfl h
        exact ⟨before ++ separator :: earlier, separator', later',
          by rw [← hsplit]; simp⟩

private theorem sublist_dropLast {α : Type} {first second : List α}
    (h : first.Sublist second) : first.dropLast.Sublist second.dropLast := by
  simpa [List.tail_reverse] using h.reverse.tail.reverse

private theorem exists_append_of_mem_dropLast_parts {tokens part : List Token}
    (h : part ∈ (parts tokens).dropLast) :
    depth part = 0 ∧
      ∃ before next after, tokens = before ++ (part ++ next :: after) := by
  have hmem : part ∈
      (((Piece.ofTokens tokens).splitOnP (Piece.isKind .semicolon)).dropLast).map
        fun pieces => pieces.flatMap Piece.tokens := by
    rw [List.map_dropLast]
    exact (sublist_dropLast List.filter_sublist).mem h
  obtain ⟨stretch, hstretch, rfl⟩ := List.mem_map.1 hmem
  obtain ⟨earlier, separator, later, hpieces⟩ :=
    exists_append_of_mem_dropLast_splitOnP hstretch
  refine ⟨Piece.depth_flatMap_of_stretch hpieces, ?_⟩
  have htokens := Piece.flatMap_tokens_ofTokens tokens
  rw [hpieces, List.flatMap_append, List.flatMap_append, List.flatMap_cons] at htokens
  obtain ⟨next, rest, hnext⟩ : ∃ next rest, separator.tokens = next :: rest := by
    cases separator with
    | single token => exact ⟨token, [], rfl⟩
    | group opening inner closing => exact ⟨opening, _, rfl⟩
  rw [hnext] at htokens
  exact ⟨_, next, _, htokens.symm⟩

private theorem not_isUnterminated_of_isRead {token : Token} {later : List Token}
    (h : IsRead (token :: later)) (hlater : later ≠ []) :
    ¬ token.toLexeme.IsUnterminated := by
  rintro ⟨hkinds, hopen⟩
  obtain ⟨c, w, form, htext, hform, hlength, hkind, hrest⟩ := h.exists_form
  obtain ⟨d, rest, hd⟩ := List.exists_cons_of_ne_nil (mt hrest.eq_nil hlater)
  rw [hd] at hform hlength
  rw [hkind] at hkinds
  -- a span takes in the character that follows
  have hlonger : form.length (w ++ [d]) = (w ++ [d]).length := by
    obtain ⟨v, later, hv, hlength'⟩ := exists_append_of_cons c (w ++ [d])
    have hread := hopen d
    rw [htext, List.cons_append, hv, lexemes_cons_append rfl (by rwa [← hv])] at hread
    have hnil := lexemes_eq_nil_iff.1 (List.cons.inj hread).2
    have hhead : (w ++ [d]).head? = (w ++ d :: rest).head? := by
      rw [List.head?_append, List.head?_append]
      rfl
    rw [hnil, List.append_nil] at hv
    rw [← hform, ← hhead, hlength', hv]
  -- but what a reader has read ends before it
  have hreader : form.HasReader := by
    rcases Form.hasReader_or_eq hform (by rintro rfl; simp [Form.kind] at hkinds)
        (by rintro rfl; simp [Form.kind] at hkinds) with hreader | rfl | rfl |
      ⟨kind, rfl⟩
    · exact hreader
    · simp [Form.kind] at hkinds
    · simp [Form.kind] at hkinds
    · simp [Form.length] at hlonger
  obtain ⟨State, reader, start, -, hreads⟩ := hreader
  rw [hreads] at hlength hlonger
  obtain ⟨last, hlast, hstops⟩ := Reader.length_append_eq_iff.1 hlength
  have hends : reader.length start (w ++ [d]) = w.length :=
    Reader.length_append_eq_iff.2 ⟨last, hlast, fun e he => hstops e he⟩
  rw [hends, List.length_append] at hlonger
  simp at hlonger

theorem isEntry_of_mem_dropLast_plainTexts {text plain : String}
    (h : plain ∈ (plainTexts text).dropLast) : IsEntry plain := by
  rw [plainTexts_eq_map, statements, ofTokens, List.map_map, ← List.map_dropLast] at h
  obtain ⟨part, hpart, rfl⟩ := List.mem_map.1 h
  obtain ⟨hdepth, before, next, after, htokens⟩ :=
    exists_append_of_mem_dropLast_parts hpart
  have hmem : Statement.ofTokens part ∈ statements text :=
    List.mem_map_of_mem (List.dropLast_subset _ hpart)
  have hpartTokens : (Statement.ofTokens part).tokens = part := by
    rw [Statement.ofTokens, Statement.tokens_ofPassage]
  apply isEntry_plainText hmem
  · rw [hpartTokens]
    intro token htoken
    obtain ⟨earlier, later, rfl⟩ := List.append_of_mem htoken
    have hread := isRead_tokenize text
    rw [htokens, List.append_assoc, List.cons_append] at hread
    exact not_isUnterminated_of_isRead hread.of_append.of_append
      (List.append_ne_nil_of_right_ne_nil later (List.cons_ne_nil next after))
  · rwa [hpartTokens]

/-! ## Plain texts with separators between them -/

theorem plainTexts_eq_unplaced (text : String) :
    plainTexts text =
      (ofTokens (unplaced (lexemes text.toList))).map Statement.plainText := by
  have hplain := Relayout.unplacing.plainText_statement fun _ => rfl
  rw [plainTexts_eq_map, statements, unplaced_lexemes, Relayout.ofTokens_script,
    List.map_map]
  exact List.map_congr_left fun statement _ => (hplain statement).symm

/-- An entry and a semicolon before a text add the entry to its plain texts. -/
theorem plainTexts_entry_append {entry : String} (h : IsEntry entry) (text : String) :
    plainTexts (entry ++ ";\n" ++ text) = entry :: plainTexts text := by
  obtain ⟨blanks, blanks', kept, htext, hbreak, hblanks, hblanks'⟩ :=
    exists_lexemes_blank_append isBlank_newline text.toList
  have hlexemes : lexemes (entry ++ ";\n" ++ text).toList =
      lexemes entry.toList ++ separator :: (blanks' ++ kept) := by
    have hchars : (entry ++ ";\n" ++ text).toList =
        entry.toList ++ ';' :: '\n' :: text.toList := by
      simp
    rw [hchars, h.isSealed _ (Text.isBreak_of_head?_eq rfl (by decide)),
      lexemes_separator, hbreak]
  have hentry : (ofTokens (unplaced (lexemes entry.toList))).map Statement.plainText =
      [entry] := by
    rw [← plainTexts_eq_unplaced, h.isPlain.plainTexts_eq]
  have hrest : ∀ gap : List Lexeme, (∀ lexeme ∈ gap, lexeme.IsBlank) →
      (ofTokens (unplaced (gap ++ kept))).map Statement.plainText =
        (ofTokens (unplaced kept)).map Statement.plainText := by
    intro gap hgap
    rw [unplaced_append]
    exact ignoresBlanks_plainText.map_ofTokens_prepend _ (forall_mem_unplaced.2 hgap)
  rw [plainTexts_eq_unplaced, hlexemes, unplaced_append, unplaced_cons,
    ofTokens_append_cons _ h.depth_eq rfl, List.map_append, hentry,
    hrest blanks' hblanks', plainTexts_eq_unplaced, htext, hrest blanks hblanks,
    List.singleton_append]

theorem plainTexts_intercalate_of_isPlain {plains : List String}
    (hplain : ∀ plain ∈ plains, IsPlain plain)
    (hentry : ∀ plain ∈ plains.dropLast, IsEntry plain) :
    plainTexts (";\n".intercalate plains) = plains := by
  induction plains with
  | nil =>
    rw [String.intercalate_nil]
    decide +kernel
  | cons plain plains ih =>
    by_cases hnil : plains = []
    · rw [hnil, String.intercalate_singleton]
      exact (hplain plain (List.mem_cons_self ..)).plainTexts_eq
    · rw [List.dropLast_cons_of_ne_nil hnil, List.forall_mem_cons] at hentry
      rw [String.intercalate_cons_of_ne_nil hnil, plainTexts_entry_append hentry.1,
        ih (List.forall_mem_cons.1 hplain).2 hentry.2]

/-- Splitting is stable: the plain texts of any script with semicolons between them
are its plain texts again, and there are as many as stretches between semicolons at
depth 0 with a significant token. -/
theorem plainTexts_intercalate (text : String) :
    plainTexts (";\n".intercalate (plainTexts text)) = plainTexts text ∧
      (plainTexts text).length =
        (stretches 0 (tokenize text)).countP fun stretch =>
          stretch.any (!·.isTrivia) := by
  have hplain : ∀ plain ∈ plainTexts text, IsPlain plain := by
    rw [plainTexts_eq_map, List.forall_mem_map]
    exact fun statement hstatement => isPlain_plainText hstatement
  exact ⟨plainTexts_intercalate_of_isPlain hplain fun plain =>
      isEntry_of_mem_dropLast_plainTexts, length_plainTexts text⟩

/-- Only the last plain text can leave something open. -/
example : plainTexts ";(a;b));; -- ;\n c (d; 'e;" = ["(a;b))", "c (d; 'e;"] := by
  decide +kernel

end Script

end SqlOutline
