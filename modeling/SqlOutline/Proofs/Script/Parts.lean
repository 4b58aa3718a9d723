import SqlOutline.Proofs.Statement.Nested
import SqlOutline.Script

/-!
# The parts of a script

A statement of a script is written by tokens that stand side by side in the text, and
at least one of them is significant.
-/

namespace SqlOutline

namespace Script

theorem isPrefix_of_head?_splitOnP {α : Type} {p : α → Bool} {l part : List α}
    (h : part ∈ (l.splitOnP p).head?) : part <+: l := by
  induction l generalizing part with
  | nil =>
    rw [List.splitOnP_nil, List.head?_cons, Option.mem_some_iff] at h
    subst h
    exact List.nil_prefix
  | cons x l ih =>
    rw [List.splitOnP_cons_eq_if_modifyHead] at h
    split at h
    · rw [List.head?_cons, Option.mem_some_iff] at h
      rw [← h]
      exact List.nil_prefix
    · obtain ⟨first, parts, hparts⟩ :=
        List.exists_cons_of_ne_nil (List.splitOnP_ne_nil p l)
      rw [hparts, List.modifyHead_cons, List.head?_cons, Option.mem_some_iff] at h
      rw [← h, List.cons_prefix_cons]
      exact ⟨rfl, ih (by rw [hparts]; rfl)⟩

/-- The parts of a list lie in it side by side. -/
theorem isInfix_of_mem_splitOnP {α : Type} {p : α → Bool} {l part : List α}
    (h : part ∈ l.splitOnP p) : part <:+: l := by
  induction l with
  | nil =>
    rw [List.splitOnP_nil, List.mem_singleton] at h
    subst h
    exact List.nil_infix
  | cons x l ih =>
    have hhead := @isPrefix_of_head?_splitOnP α p (x :: l) part
    rw [List.splitOnP_cons_eq_if_modifyHead] at h hhead
    split at h
    · rcases List.mem_cons.1 h with rfl | hlater
      · exact List.nil_infix
      · exact (ih hlater).trans (List.suffix_cons x l).isInfix
    · next hx =>
      obtain ⟨first, parts, hparts⟩ :=
        List.exists_cons_of_ne_nil (List.splitOnP_ne_nil p l)
      rw [if_neg hx, hparts, List.modifyHead_cons] at hhead
      rw [hparts, List.modifyHead_cons] at h
      rcases List.mem_cons.1 h with rfl | hlater
      · exact (hhead rfl).isInfix
      · have hmem : part ∈ l.splitOnP p := by
          rw [hparts]
          exact List.mem_cons_of_mem first hlater
        exact (ih hmem).trans (List.suffix_cons x l).isInfix

theorem isInfix_of_mem_parts {tokens part : List Token} (h : part ∈ parts tokens) :
    part <:+: tokens := by
  obtain ⟨hmem, -⟩ := List.mem_filter.1 h
  obtain ⟨pieces, hpieces, rfl⟩ := List.mem_map.1 hmem
  obtain ⟨before, after, hsplit⟩ := isInfix_of_mem_splitOnP hpieces
  refine ⟨before.flatMap Piece.tokens, after.flatMap Piece.tokens, ?_⟩
  rw [← List.flatMap_append, ← List.flatMap_append, hsplit,
    Piece.flatMap_tokens_ofTokens]

theorem significant_ne_nil_of_mem_parts {tokens part : List Token}
    (h : part ∈ parts tokens) : significant part ≠ [] := by
  obtain ⟨-, hany⟩ := List.mem_filter.1 h
  obtain ⟨token, htoken, hsignificant⟩ := List.any_eq_true.1 hany
  exact List.ne_nil_of_mem (List.mem_filter.2 ⟨htoken, hsignificant⟩)

theorem tokens_mem_parts_of_mem_statements {text : String} {statement : Statement}
    (h : statement ∈ statements text) :
    statement.tokens ∈ parts (Token.tokenize text) := by
  obtain ⟨part, hpart, rfl⟩ := List.mem_map.1 h
  rwa [Statement.ofTokens, Statement.tokens_ofPassage]

/-- A text that is one part in itself has one statement. -/
theorem statements_eq_singleton {text : String}
    (h : parts (Token.tokenize text) = [Token.tokenize text]) :
    statements text = [Statement.ofTokens (Token.tokenize text)] := by
  rw [statements, ofTokens, h]
  rfl

/-- The tokens of a statement stand side by side in the text. -/
theorem isInfix_of_mem_statements {text : String} {statement : Statement}
    (h : statement ∈ statements text) : statement.tokens <:+: Token.tokenize text :=
  isInfix_of_mem_parts (tokens_mem_parts_of_mem_statements h)

end Script

end SqlOutline
