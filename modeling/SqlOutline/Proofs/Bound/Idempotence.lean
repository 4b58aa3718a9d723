import SqlOutline.Proofs.Bound.Effect
import SqlOutline.Proofs.Bound.Wrapped

/-!
# Bounding a bounded script

Every query of a bounded script is bounded, so that bounding it again changes nothing
(`bounded_bounded`). The exception is a query that is wrapped and closes a parenthesis
it did not open: behind it a set operator combines the bounded query with another one.
-/

namespace SqlOutline

open Token

namespace Script

section Entry

variable {text : String} {statement : Statement}

theorem Writes.isUnbounded_eq (h : statement ∈ statements text) {entry : String}
    (hwrites : Writes statement.tokens entry) :
    (Statement.ofTokens (tokenize entry)).isUnbounded = statement.isUnbounded := by
  apply eq_of_significant_eq (F := Statement.isUnbounded) h
    (by simp [Statement.isUnbounded, Statement.isBounded])
  rw [map_toLexeme_significant_eq, map_toLexeme_tokenize, hwrites.significant_eq]

end Entry

section Bounded

variable {text : String} {statement : Statement} (hclosed : IsClosed text)
  (h : statement ∈ statements text) (count : Nat)

include hclosed h

private theorem isBounded_insertBound {form : BoundForm} (hform : form.IsSuffix)
    (hquery : statement.isQuery = true) :
    (Statement.ofTokens
        (tokenize (insertBound statement.plainText count form))).isBounded =
      true := by
  obtain ⟨hentry, hlexemes⟩ :=
    BoundForm.isEntry_insertBound hform (hclosed.isEntry_plainText h) count
  generalize insertBound statement.plainText count form = entry at hentry hlexemes
  have hafter : Statement.ofTokens (tokenize entry) ∈ statements entry := by
    rw [hentry.statements_eq]
    exact List.mem_singleton_self _
  have hwords : (significant (Statement.ofTokens (tokenize entry)).tokens).map
        Token.toLexeme =
      (significant statement.tokens).map Token.toLexeme ++ form.words count := by
    rw [Statement.ofTokens, Statement.tokens_ofPassage, map_toLexeme_significant_eq,
      map_toLexeme_tokenize, hlexemes, hclosed.filter_lexemes_plainText h]
  obtain ⟨-, hbound, -⟩ := condensed_of_words hclosed h hafter hform hquery hwords
  rw [Statement.isBounded, hbound (fun _ => true) rfl, bne_iff_ne]
  exact RowBound.ofNat_ne_absent count

private theorem isBounded_insertTop (hquery : statement.isQuery = true)
    (hoverhang : statement.combinesOverhang = false) :
    IsEntry (insertTop statement.plainText count) ∧
      (Statement.ofTokens
          (tokenize (insertTop statement.plainText count))).isBounded = true := by
  have hplain := hclosed.isEntry_plainText h
  cases hoffset : topOffset? statement.plainText with
  | some offset =>
    apply hplain.insertTop_of_offset hoffset count
    rw [hclosed.eq_plainText (F := Statement.isQuery) h (by simp), hquery]
  | none =>
    have hnone : (Statement.ofTokens
          (tokenize statement.plainText)).combinesOverhang = false := by
      rw [Statement.combinesOverhang_eq_of_significant_eq
          (hclosed.significant_tokenize_plainText h), Statement.ofTokens_tokens h,
        hoverhang]
    exact ⟨hplain.insertTop_of_none hoffset count,
      hplain.isBounded_insertTop_of_none hoffset count hnone⟩

theorem isUnbounded_boundedEntry {dialect : Dialect}
    (hoverhang : dialect.primary = .top → statement.isUnbounded = true →
      statement.combinesOverhang = false) :
    IsEntry (boundedEntry count dialect statement) ∧
      (Statement.ofTokens
          (tokenize (boundedEntry count dialect statement))).isUnbounded = false := by
  have hplain := hclosed.isEntry_plainText h
  rw [boundedEntry, Statement.lacksBound_eq]
  cases hunbounded : statement.isUnbounded with
  | false =>
    refine ⟨hplain, ?_⟩
    rw [if_neg Bool.false_ne_true, hclosed.eq_plainText (F := Statement.isUnbounded) h
      (by simp [Statement.isUnbounded, Statement.isBounded]), hunbounded]
  | true =>
    have hquery : statement.isQuery = true := by
      rw [Statement.isUnbounded, Bool.and_eq_true] at hunbounded
      exact hunbounded.1
    have hbounded : IsEntry (insertBound statement.plainText count dialect.primary) ∧
        (Statement.ofTokens
            (tokenize
              (insertBound statement.plainText count dialect.primary))).isBounded =
          true := by
      cases hprimary : dialect.primary with
      | limit =>
        exact ⟨(BoundForm.isEntry_insertBound (Or.inl rfl) hplain count).1,
          isBounded_insertBound hclosed h count (Or.inl rfl) hquery⟩
      | fetch =>
        exact ⟨(BoundForm.isEntry_insertBound (Or.inr rfl) hplain count).1,
          isBounded_insertBound hclosed h count (Or.inr rfl) hquery⟩
      | top =>
        exact isBounded_insertTop hclosed h count hquery
          (hoverhang hprimary hunbounded)
    refine ⟨hbounded.1, ?_⟩
    rw [if_pos rfl, Statement.isUnbounded, hbounded.2, Bool.not_true, Bool.and_false]

end Bounded

/-- Bounding a closed script keeps the number of its statements and leaves no query
unbounded. A query that combines queries behind a `)` that closes nothing would be
wrapped where `TOP` is written, and the `)` would end the wrapping. -/
theorem statements_bounded {text : String} (hclosed : IsClosed text)
    {dialect : Dialect}
    (hoverhang : dialect.primary = .top →
      ∀ statement ∈ statements text, statement.isUnbounded = true →
        statement.combinesOverhang = false) (count : Nat) :
    (statements (bounded text count dialect)).length = (statements text).length ∧
      ∀ statement ∈ statements (bounded text count dialect),
        statement.isUnbounded = false := by
  by_cases hunbounded : ∃ statement ∈ statements text, statement.isUnbounded = true
  · have hspec : ∀ entry ∈ (statements text).map (boundedEntry count dialect),
        IsEntry entry ∧
        (Statement.ofTokens (tokenize entry)).isUnbounded = false := by
      rw [List.forall_mem_map]
      intro statement hstatement
      exact isUnbounded_boundedEntry hclosed hstatement count fun hprimary =>
        hoverhang hprimary statement hstatement
    have hwritten :=
      forall₂_statements_written fun entry hentry => (hspec entry hentry).1
    rw [← bounded_eq_written hunbounded] at hwritten
    refine ⟨hwritten.length_eq.trans (List.length_map _), fun after hafter => ?_⟩
    obtain ⟨index, hlt, hindex⟩ := List.getElem_of_mem hafter
    have hentry := hwritten.length_eq ▸ hlt
    have hwrites := hwritten.get hlt hentry
    rw [List.get_eq_getElem, List.get_eq_getElem, hindex] at hwrites
    rw [← hwrites.isUnbounded_eq hafter]
    exact (hspec _ (List.getElem_mem hentry)).2
  · have hnone : ∀ statement ∈ statements text, statement.isUnbounded = false := by
      simpa using hunbounded
    rw [bounded_eq_self hnone]
    exact ⟨rfl, hnone⟩

/-- Bounding a closed script leaves as many statements and no unbounded query, so that
bounding it again, with whatever count, changes nothing. Where `TOP` is written, no
unbounded query may combine queries behind a `)` that closes nothing. -/
theorem bounded_bounded {text : String} (hclosed : IsClosed text) {dialect : Dialect}
    (hoverhang : dialect.primary = .top →
      ∀ statement ∈ statements text, statement.isUnbounded = true →
        statement.combinesOverhang = false) (n m : Nat) :
    (statements (bounded text n dialect)).length = (statements text).length ∧
      (∀ statement ∈ statements (bounded text n dialect),
        statement.isUnbounded = false) ∧
      bounded (bounded text n dialect) m dialect = bounded text n dialect := by
  obtain ⟨hlength, hbounded⟩ := statements_bounded hclosed hoverhang n
  exact ⟨hlength, hbounded, bounded_eq_self hbounded m dialect⟩

def topScript : String :=
  "select all(a) from t; (select b) union select c; drop table t"

theorem bounded_bounded_topScript :
    IsClosed topScript ∧
      (Dialect.sqlServer.primary = .top →
        ∀ statement ∈ statements topScript, statement.isUnbounded = true →
          statement.combinesOverhang = false) ∧
      bounded topScript 5 .sqlServer =
        "select all top 5(a) from t;\n" ++
          "select top 5 * from ((select b) union select c) as limited;\ndrop table t;" ∧
      (statements (bounded topScript 5 .sqlServer)).length =
        (statements topScript).length ∧
      (∀ statement ∈ statements (bounded topScript 5 .sqlServer),
        statement.isUnbounded = false) ∧
      bounded (bounded topScript 5 .sqlServer) 0xFFFFFFFFFFFFFFFF .sqlServer =
        bounded topScript 5 .sqlServer := by
  have hclosed : IsClosed topScript :=
    IsClosed.of_space (by decide +kernel) (by decide +kernel)
  have hoverhang : ∀ statement ∈ statements topScript, statement.isUnbounded = true →
      statement.combinesOverhang = false := by
    decide +kernel
  exact ⟨hclosed, fun _ => hoverhang, by decide +kernel,
    bounded_bounded hclosed (fun _ => hoverhang) 5 0xFFFFFFFFFFFFFFFF⟩

def overhangScript : String := "select a from t) union select b from u"

/-- The `)` ends the wrapping, and the bound is the one of the first query alone: the
other one is unbounded still, and all is wrapped again. -/
theorem bounded_bounded_ne_overhangScript :
    IsClosed overhangScript ∧
      bounded overhangScript 10 .sqlServer =
        "select top 10 * from (select a from t) union select b from u) as limited;" ∧
      bounded (bounded overhangScript 10 .sqlServer) 20 .sqlServer =
        "select top 20 * from (select top 10 * from (select a from t) union select b from u) " ++
          "as limited) as limited;" ∧
      bounded (bounded overhangScript 10 .sqlServer) 20 .sqlServer ≠
        bounded overhangScript 10 .sqlServer := by
  have hclosed : IsClosed overhangScript :=
    IsClosed.of_space (by decide +kernel) (by decide +kernel)
  have hfirst : bounded overhangScript 10 .sqlServer =
      "select top 10 * from (select a from t) union select b from u) as limited;" := by
    decide +kernel
  have hsecond : bounded (bounded overhangScript 10 .sqlServer) 20 .sqlServer =
      "select top 20 * from (select top 10 * from (select a from t) union select b from u) " ++
        "as limited) as limited;" := by
    rw [hfirst]
    decide +kernel
  refine ⟨hclosed, hfirst, hsecond, ?_⟩
  rw [hsecond, hfirst]
  decide

end Script

end SqlOutline
