import SqlOutline.Proofs.Layout.Moved
import SqlOutline.Proofs.Script.Entry

/-!
# White space around statements

White space before a script or behind it becomes part of the first statement or of the
last one, if any. The analyses do not see it there (`IgnoresBlanks`): neither those of
the significant tokens nor the plain text, which is trimmed.
-/

namespace SqlOutline

structure Lexeme.IsBlank (lexeme : Lexeme) : Prop where
  kind_eq : lexeme.kind = .whitespace
  isBlank : ∀ c ∈ lexeme.text.toList, Text.isBlank c = true

theorem Lexeme.IsBlank.isTrivia {lexeme : Lexeme} (h : lexeme.IsBlank) :
    lexeme.isTrivia = true :=
  isTrivia_of_whitespace h.kind_eq

def AllBlank (tokens : List Token) : Prop :=
  ∀ token ∈ tokens, token.toLexeme.IsBlank

namespace AllBlank

variable {blanks : List Token}

theorem isBlank_of_mem_flatMap (h : AllBlank blanks) :
    ∀ c ∈ blanks.flatMap fun token => token.text.toList, Text.isBlank c = true := by
  intro c hc
  obtain ⟨token, htoken, hmem⟩ := List.mem_flatMap.1 hc
  exact (h token htoken).isBlank c hmem

theorem any_significant (h : AllBlank blanks) : blanks.any (!·.isTrivia) = false := by
  rw [List.any_eq_false]
  intro token htoken
  simp [(h token htoken).isTrivia]

theorem tokens_stripped (h : AllBlank blanks) :
    Relayout.stripped.tokens blanks = [] :=
  Relayout.tokens_stripped_of_isTrivia fun token htoken => (h token htoken).isTrivia

theorem depth_append (tokens : List Token) (h : AllBlank blanks) :
    depth (tokens ++ blanks) = depth tokens := by
  rw [← Relayout.stripped.depth_tokens, Relayout.tokens_append, h.tokens_stripped,
    List.append_nil, Relayout.depth_tokens]

theorem ofTokens_eq (h : AllBlank blanks) :
    Piece.ofTokens blanks = blanks.map .single :=
  Piece.ofTokens_of_not_opens fun token htoken => by
    rw [Lexeme.opens, (h token htoken).kind_eq]
    rfl

theorem isKind_semicolon (h : AllBlank blanks) :
    ∀ piece ∈ blanks.map Piece.single, piece.isKind .semicolon = false := by
  rw [List.forall_mem_map]
  intro token htoken
  rw [Piece.isKind, (h token htoken).kind_eq]
  rfl

end AllBlank

/-! ## Parts -/

section Split

variable {α : Type} {p : α → Bool} {more : List α}

private theorem exists_splitOnP_append (l : List α)
    (hmore : ∀ x ∈ more, p x = false) :
    ∃ init last, l.splitOnP p = init ++ [last] ∧
      (l ++ more).splitOnP p = init ++ [last ++ more] := by
  induction l with
  | nil => exact ⟨[], [], by simp, by simpa using List.splitOnP_eq_singleton hmore⟩
  | cons x l ih =>
    obtain ⟨init, last, hl, hmore⟩ := ih
    rw [List.cons_append, List.splitOnP_cons_eq_if_modifyHead,
      List.splitOnP_cons_eq_if_modifyHead, hl, hmore]
    split
    · exact ⟨[] :: init, last, rfl, rfl⟩
    · cases init with
      | nil => exact ⟨[], x :: last, rfl, rfl⟩
      | cons first init => exact ⟨(x :: first) :: init, last, rfl, rfl⟩

private theorem exists_splitOnP_prepend (l : List α)
    (hmore : ∀ x ∈ more, p x = false) :
    ∃ first rest, l.splitOnP p = first :: rest ∧
      (more ++ l).splitOnP p = (more ++ first) :: rest := by
  obtain ⟨first, rest, hl⟩ := List.exists_cons_of_ne_nil (List.splitOnP_ne_nil p l)
  refine ⟨first, rest, hl, ?_⟩
  induction more with
  | nil => exact hl
  | cons x more ih =>
    rw [List.forall_mem_cons] at hmore
    rw [List.cons_append, List.splitOnP_cons_eq_if_modifyHead, hmore.1, ih hmore.2]
    rfl

end Split

namespace Script

variable {tokens blanks : List Token}

private theorem filter_significant_map {f : List Token → List Token}
    (hf : ∀ part, (f part).any (!·.isTrivia) = part.any (!·.isTrivia))
    (parts : List (List Token)) :
    ((parts.map f).filter fun part => part.any (!·.isTrivia)) =
      (parts.filter fun part => part.any (!·.isTrivia)).map f := by
  rw [List.filter_map]
  simp only [Function.comp_def, hf]

theorem exists_parts_append (hdepth : depth tokens = 0) (hblanks : AllBlank blanks) :
    ∃ init last, parts tokens = init ++ last ∧
      parts (tokens ++ blanks) = init ++ last.map fun part => part ++ blanks := by
  obtain ⟨init, last, hsplit, hmore⟩ := exists_splitOnP_append
    (p := Piece.isKind .semicolon) (Piece.ofTokens tokens) hblanks.isKind_semicolon
  refine ⟨_, _, by rw [parts, hsplit, List.map_append, List.filter_append], ?_⟩
  have hflat : (last ++ blanks.map Piece.single).flatMap Piece.tokens =
      last.flatMap Piece.tokens ++ blanks := by
    rw [List.flatMap_append, ← hblanks.ofTokens_eq, Piece.flatMap_tokens_ofTokens]
  have hlast : [last.flatMap Piece.tokens ++ blanks] =
      [last.flatMap Piece.tokens].map fun part => part ++ blanks := rfl
  rw [parts, Piece.ofTokens_append _ hdepth, hblanks.ofTokens_eq, hmore,
    List.map_append, List.filter_append, List.map_singleton, List.map_singleton,
    hflat, hlast, filter_significant_map fun part => by
      rw [List.any_append, hblanks.any_significant, Bool.or_false]]

theorem exists_parts_prepend (tokens : List Token) (hblanks : AllBlank blanks) :
    ∃ first rest, parts tokens = first ++ rest ∧
      parts (blanks ++ tokens) = (first.map fun part => blanks ++ part) ++ rest := by
  obtain ⟨first, rest, hsplit, hmore⟩ := exists_splitOnP_prepend
    (p := Piece.isKind .semicolon) (Piece.ofTokens tokens) hblanks.isKind_semicolon
  refine ⟨_, _, by rw [parts, hsplit, ← List.singleton_append, List.map_append,
    List.filter_append], ?_⟩
  have hflat : (blanks.map Piece.single ++ first).flatMap Piece.tokens =
      blanks ++ first.flatMap Piece.tokens := by
    rw [List.flatMap_append, ← hblanks.ofTokens_eq, Piece.flatMap_tokens_ofTokens]
  have hfirst : [blanks ++ first.flatMap Piece.tokens] =
      [first.flatMap Piece.tokens].map fun part => blanks ++ part := rfl
  have hdepth : depth blanks = 0 := hblanks.depth_append []
  rw [parts, Piece.ofTokens_append _ hdepth, hblanks.ofTokens_eq, hmore,
    ← List.singleton_append, List.map_append, List.filter_append, List.map_singleton,
    List.map_singleton, hflat, hfirst, filter_significant_map fun part => by
      rw [List.any_append, hblanks.any_significant, Bool.false_or]]

end Script

/-! ## Analyses -/

/-- Whether an analysis of a statement does not see white space at its ends. -/
structure IgnoresBlanks {β : Type} (F : Statement → β) : Prop where
  append : ∀ tokens blanks, AllBlank blanks →
    F (Statement.ofTokens (tokens ++ blanks)) = F (Statement.ofTokens tokens)
  prepend : ∀ tokens blanks, AllBlank blanks →
    F (Statement.ofTokens (blanks ++ tokens)) = F (Statement.ofTokens tokens)

namespace IgnoresBlanks

variable {β γ : Type} {F : Statement → β} {G : Statement → γ}

theorem of_stripped
    (h : ∀ statement, F (Relayout.stripped.statement statement) = F statement) :
    IgnoresBlanks F := by
  have hstripped : ∀ first second : List Token,
      Relayout.stripped.tokens first = Relayout.stripped.tokens second →
        F (Statement.ofTokens first) = F (Statement.ofTokens second) := by
    intro first second hsame
    have hread : ∀ tokens, F (Statement.ofTokens tokens) =
        F (Statement.ofTokens (Relayout.stripped.tokens tokens)) :=
      fun tokens => (h _).symm.trans
        (congrArg F (Relayout.stripped.ofPassage_passage Statement.nestingLimit
          ⟨false, tokens⟩).symm)
    rw [hread, hsame, ← hread]
  constructor
  · intro tokens blanks hblanks
    apply hstripped
    rw [Relayout.tokens_append, hblanks.tokens_stripped, List.append_nil]
  · intro tokens blanks hblanks
    apply hstripped
    rw [Relayout.tokens_append, hblanks.tokens_stripped, List.nil_append]

theorem prod (hF : IgnoresBlanks F) (hG : IgnoresBlanks G) :
    IgnoresBlanks fun statement => (F statement, G statement) where
  append tokens blanks hblanks := by rw [hF.append _ _ hblanks, hG.append _ _ hblanks]
  prepend tokens blanks hblanks := by
    rw [hF.prepend _ _ hblanks, hG.prepend _ _ hblanks]

theorem map_ofTokens_append (hF : IgnoresBlanks F) {tokens blanks : List Token}
    (hdepth : depth tokens = 0) (hblanks : AllBlank blanks) :
    (Script.ofTokens (tokens ++ blanks)).map F = (Script.ofTokens tokens).map F := by
  obtain ⟨init, last, hparts, hmore⟩ := Script.exists_parts_append hdepth hblanks
  rw [Script.ofTokens, Script.ofTokens, hparts, hmore]
  simp only [List.map_append, List.map_map, Function.comp_def, hF.append _ _ hblanks]

theorem map_ofTokens_prepend (hF : IgnoresBlanks F) (tokens : List Token)
    {blanks : List Token} (hblanks : AllBlank blanks) :
    (Script.ofTokens (blanks ++ tokens)).map F = (Script.ofTokens tokens).map F := by
  obtain ⟨first, rest, hparts, hmore⟩ := Script.exists_parts_prepend tokens hblanks
  rw [Script.ofTokens, Script.ofTokens, hparts, hmore]
  simp only [List.map_append, List.map_map, Function.comp_def, hF.prepend _ _ hblanks]

end IgnoresBlanks

/-! ## Plain texts -/

private theorem Text.trimBlanks_append {blanks : List Char} (cs : List Char)
    (h : ∀ c ∈ blanks, isBlank c = true) :
    trimBlanks (cs ++ blanks) = trimBlanks cs := by
  have hnil : blanks.rdropWhile isBlank = [] := List.rdropWhile_eq_nil_iff.2 h
  have hall : blanks.dropWhile isBlank = [] := List.dropWhile_eq_nil_iff.2 h
  rw [trimBlanks_eq, trimBlanks_eq, List.dropWhile_append]
  split
  · next hempty => rw [hall, List.isEmpty_iff.1 hempty]
  · rw [Token.rdropWhile_append, if_pos hnil]

private theorem Text.trimBlanks_prepend {blanks : List Char} (cs : List Char)
    (h : ∀ c ∈ blanks, isBlank c = true) :
    trimBlanks (blanks ++ cs) = trimBlanks cs := by
  rw [trimBlanks_eq, trimBlanks_eq, List.dropWhile_append_of_pos h]

section WithoutComments

variable {blanks : List Token}

theorem withoutComments_of_allBlank (last : Option Char) (skipped : Bool)
    (h : AllBlank blanks) :
    withoutComments last skipped blanks =
      blanks.flatMap fun token => token.text.toList := by
  induction blanks generalizing last skipped with
  | nil => rfl
  | cons token blanks ih =>
    obtain ⟨htoken, hblanks⟩ := List.forall_mem_cons.1 h
    have hcomment : token.isComment = false := by
      rw [Lexeme.isComment, htoken.kind_eq]
      rfl
    simp [withoutComments, hcomment, htoken.kind_eq, ih _ _ hblanks]

theorem withoutComments_append (last : Option Char) (skipped : Bool)
    (tokens : List Token) (h : AllBlank blanks) :
    withoutComments last skipped (tokens ++ blanks) =
      withoutComments last skipped tokens ++
        blanks.flatMap fun token => token.text.toList := by
  induction tokens generalizing last skipped with
  | nil => exact withoutComments_of_allBlank last skipped h
  | cons token tokens ih =>
    simp only [List.cons_append, withoutComments, ih]
    split
    · rfl
    · rw [List.append_assoc]

theorem withoutComments_of_isBlank {last : Option Char}
    (h : ∀ c ∈ last, Text.isBlank c = true) (skipped : Bool) (tokens : List Token) :
    withoutComments last skipped tokens = withoutComments none skipped tokens := by
  have hlast : last.any (!Text.isBlank ·) = false := by
    cases last with
    | none => rfl
    | some c => simpa using h c rfl
  induction tokens generalizing skipped with
  | nil => rfl
  | cons token tokens ih =>
    simp only [withoutComments, hlast, Option.any_none, ih]
    split
    · rfl
    · cases hchars : token.text.toList.getLast? with
      | none => simp [hchars, ih]
      | some c => simp [hchars]

theorem withoutComments_prepend {last : Option Char}
    (hlast : ∀ c ∈ last, Text.isBlank c = true) (tokens : List Token)
    (h : AllBlank blanks) :
    withoutComments last false (blanks ++ tokens) =
      (blanks.flatMap fun token => token.text.toList) ++
        withoutComments none false tokens := by
  induction blanks generalizing last with
  | nil => exact withoutComments_of_isBlank hlast false tokens
  | cons token blanks ih =>
    obtain ⟨htoken, hblanks⟩ := List.forall_mem_cons.1 h
    have hcomment : token.isComment = false := by
      rw [Lexeme.isComment, htoken.kind_eq]
      rfl
    have hlater : ∀ c ∈ token.text.toList.getLast?.or last,
        Text.isBlank c = true := by
      intro c hc
      rcases Option.or_eq_some_iff.1 hc with hc | ⟨-, hc⟩
      · exact htoken.isBlank c (List.mem_of_getLast? hc)
      · exact hlast c hc
    simp [withoutComments, hcomment, ih hlater hblanks]

end WithoutComments

theorem ignoresBlanks_plainText : IgnoresBlanks Statement.plainText where
  append tokens blanks hblanks := by
    rw [Statement.plainText, Statement.plainText, Statement.ofTokens,
      Statement.ofTokens, Statement.tokens_ofPassage, Statement.tokens_ofPassage,
      withoutComments_append _ _ _ hblanks, Text.trim, Text.trim,
      String.toList_ofList, String.toList_ofList,
      Text.trimBlanks_append _ hblanks.isBlank_of_mem_flatMap]
  prepend tokens blanks hblanks := by
    rw [Statement.plainText, Statement.plainText, Statement.ofTokens,
      Statement.ofTokens, Statement.tokens_ofPassage, Statement.tokens_ofPassage,
      withoutComments_prepend (by simp) _ hblanks, Text.trim, Text.trim,
      String.toList_ofList, String.toList_ofList,
      Text.trimBlanks_prepend _ hblanks.isBlank_of_mem_flatMap]

end SqlOutline
