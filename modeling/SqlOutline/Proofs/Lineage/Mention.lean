import Mathlib.Data.List.Basic
import Mathlib.Data.List.Induction
import SqlOutline.Proofs.Lineage.Origin

/-!
# Mentions and aliases

Every mention of a table begins at a significant token of its statement. An alias
stands for the table of the last use that gives it.
-/

namespace SqlOutline

def TableMention.BeginsAt (mention : TableMention) (token : Token) : Prop :=
  mention.line = token.line ∧ mention.start = token.start

theorem mem_significant_of_isInfix {inner outer : List Token} {token : Token}
    (h : inner <:+: outer) (htoken : token ∈ significant inner) :
    token ∈ significant outer := by
  rw [mem_significant] at htoken ⊢
  exact ⟨h.mem htoken.1, htoken.2⟩

namespace Statement

/-- Every table that a statement uses is named in the statement, on any level of
nesting. -/
theorem exists_beginsAt_of_mem_tableUses {schema : String} {visible : List String}
    {levels : Nat} {passage : Passage} {use : TableUse}
    (h : use ∈ (ofPassage levels passage).tableUses schema visible) :
    ∃ token ∈ significant passage.tokens, use.mention.BeginsAt token := by
  obtain ⟨frames, name, hwrites, rfl, -, -⟩ := mem_tableUses_iff.1 h
  have hmem := hwrites.first_mem ⟨levels, passage, rfl⟩
  rw [tokens_ofPassage] at hmem
  exact ⟨name.first, mem_significant.2 ⟨hmem, hwrites.isTrivia_first⟩, rfl, rfl⟩

end Statement

/-! ## Aliases -/

namespace Aliases

def lastNamed? (uses : List TableUse) (name : String) : Option TableMention :=
  (uses.reverse.find? fun use => use.aliasName == some name).map TableUse.mention

theorem lastNamed?_append (first second : List TableUse) (name : String) :
    lastNamed? (first ++ second) name =
      (lastNamed? second name).or (lastNamed? first name) := by
  rw [lastNamed?, lastNamed?, lastNamed?, List.reverse_append, List.find?_append]
  cases second.reverse.find? fun use => use.aliasName == some name <;> rfl

/-- Looking an alias up finds the table of the last use with that alias. -/
theorem getElem?_ofUses (uses : List TableUse) (name : String) :
    (ofUses uses)[name]? = lastNamed? uses name := by
  induction uses using List.reverseRecOn with
  | nil => simp [ofUses, lastNamed?]
  | append_singleton uses use ih =>
    rw [lastNamed?_append, ← ih, ofUses, List.foldl_append, ← ofUses, List.foldl_cons,
      List.foldl_nil]
    cases halias : use.aliasName with
    | none => simp [lastNamed?, halias]
    | some other =>
      simp only [Std.TreeMap.getElem?_insert, lastNamed?, List.reverse_singleton,
        List.find?_singleton, halias, Std.compare_eq_iff_eq, beq_iff_eq,
        Option.some_inj]
      split <;> rfl

end Aliases

end SqlOutline
