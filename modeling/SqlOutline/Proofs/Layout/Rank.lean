import SqlOutline.Proofs.Layout.Analysis
import SqlOutline.Proofs.Token.Tiling

/-!
# The layout of a text by ranks

White space and comments left out, all on one line, and every offset replaced by the
number of significant tokens before it: in this layout a text is known by its
significant lexemes alone. The order of its mentions stays what it was.
-/

namespace SqlOutline

open Token

/-! ## Ranks -/

private theorem map_countP_of_pairwise {α : Type} {f : α → Nat} {before l : List α}
    (h : (before ++ l).Pairwise fun x y => f x < f y) :
    (l.map fun x => (before ++ l).countP fun y => f y < f x) =
      List.range' before.length l.length := by
  induction l generalizing before with
  | nil => rfl
  | cons x l ih =>
    have hsplit : before ++ x :: l = (before ++ [x]) ++ l := by simp
    have htail := ih (hsplit ▸ h)
    rw [← hsplit, List.length_append, List.length_singleton] at htail
    rw [List.map_cons, List.length_cons, List.range'_succ, htail]
    congr 1
    rw [List.pairwise_append, List.pairwise_cons] at h
    obtain ⟨-, ⟨hafter, -⟩, hbefore⟩ := h
    -- all elements before `x` are smaller, and no other one is
    have hall : before.countP (fun y => decide (f y < f x)) = before.length := by
      apply List.countP_eq_length.2
      intro y hy
      simpa using hbefore y hy x (List.mem_cons_self ..)
    have hnone : (x :: l).countP (fun y => decide (f y < f x)) = 0 := by
      apply List.countP_eq_zero.2
      intro y hy
      rcases List.mem_cons.1 hy with rfl | hy
      · simp
      · simpa using (hafter y hy).le
    rw [List.countP_append, hall, hnone, Nat.add_zero]

private theorem countP_getElem_of_pairwise {α : Type} {f : α → Nat} {l : List α}
    (h : l.Pairwise fun x y => f x < f y) {index : Nat} (hindex : index < l.length) :
    (l.countP fun y => f y < f l[index]) = index := by
  rw [← List.nil_append l] at h
  have hranks := congrArg (·[index]?) (map_countP_of_pairwise h)
  simpa [hindex] using hranks

private theorem countP_le_countP_iff {α : Type} {f : α → Nat} {l : List α} {x y : α}
    (hy : y ∈ l) :
    (l.countP fun z => f z < f x) ≤ (l.countP fun z => f z < f y) ↔ f x ≤ f y := by
  constructor
  · intro hle
    by_contra hlt
    obtain ⟨before, after, rfl⟩ := List.append_of_mem hy
    have hbefore : before.countP (fun z => decide (f z < f y)) ≤
        before.countP fun z => decide (f z < f x) :=
      List.countP_mono_left fun z _ hz => by simp at hz ⊢; omega
    have hafter : after.countP (fun z => decide (f z < f y)) ≤
        after.countP fun z => decide (f z < f x) :=
      List.countP_mono_left fun z _ hz => by simp at hz ⊢; omega
    have hxy : f y < f x := by omega
    simp only [List.countP_append, List.countP_cons, hxy, decide_true, if_true,
      Nat.lt_irrefl, decide_false, Bool.false_eq_true, if_false] at hle
    omega
  · intro hle
    exact List.countP_mono_left fun z _ hz => by simp at hz ⊢; omega

/-! ## Significant tokens of a text -/

private theorem pairwise_significant {text : String} {tokens : List Token}
    (h : tokens <:+: tokenize text) :
    (significant tokens).Pairwise fun token later =>
      token.start < later.start ∧ token.stop < later.stop := by
  have hplaces :
      (tokenize text).Pairwise fun token later => token.stop ≤ later.start :=
    pairwise_place 0 0 (lexemes text.toList)
  have htokens :
      (significant tokens).Pairwise fun token later => token.stop ≤ later.start :=
    (hplaces.sublist h.sublist).filter _
  have hmem : ∀ token ∈ significant tokens, token.start < token.stop :=
    fun token htoken =>
      start_lt_stop_of_mem_tokenize (h.mem (mem_significant.1 htoken).1)
  refine htokens.imp_of_mem fun {token later} htoken hlater hle => ?_
  have hfirst := hmem token htoken
  have hsecond := hmem later hlater
  omega

def ranked (ls : List Lexeme) : List Token :=
  ls.zipIdx.map fun lexeme => ⟨lexeme.1, 0, lexeme.2, lexeme.2⟩

namespace Relayout

def ranksAmong (tokens : List Token) : Relayout where
  keeps token := !token.isTrivia
  line _ := 0
  start offset := (significant tokens).countP fun token => token.start < offset
  stop offset := (significant tokens).countP fun token => token.stop < offset
  keeps_of_isTrivia := Token.not_isTrivia_eq_true

instance (tokens : List Token) : (ranksAmong tokens).Verbatim :=
  ⟨fun _ => rfl⟩

/-- In the layout by ranks nothing but the significant lexemes is left of some
tokens. -/
theorem tokens_ranksAmong {text : String} {tokens : List Token}
    (h : tokens <:+: tokenize text) :
    (ranksAmong tokens).tokens tokens =
      ranked ((significant tokens).map Token.toLexeme) := by
  have hpairwise := pairwise_significant h
  have hkeeps : (ranksAmong tokens).tokens tokens =
    (significant tokens).map (ranksAmong tokens).token := rfl
  rw [hkeeps, ranked, List.zipIdx_map, List.map_map]
  apply List.ext_getElem (by simp)
  intro index hindex _
  rw [List.length_map] at hindex
  have hstart := countP_getElem_of_pairwise (hpairwise.imp And.left) hindex
  have hstop := countP_getElem_of_pairwise (hpairwise.imp And.right) hindex
  simp [Relayout.token, ranksAmong, hstart, hstop]

theorem precedes_mention_ranksAmong {text : String} {tokens : List Token}
    (h : tokens <:+: tokenize text) {first second : TableMention}
    (hfirst : ∃ token ∈ significant tokens, first.BeginsAt token)
    (hsecond : ∃ token ∈ significant tokens, second.BeginsAt token) :
    first.precedes second =
      ((ranksAmong tokens).mention first).precedes
        ((ranksAmong tokens).mention second) := by
  obtain ⟨token, htoken, hline, hstart⟩ := hfirst
  obtain ⟨other, hother, hotherLine, hotherStart⟩ := hsecond
  have hrank :=
    countP_le_countP_iff (f := fun token : Token => token.start) (x := token) hother
  -- lines ascend with the offsets, so the offsets alone decide
  have hlines : ∀ {a b : Token}, a ∈ tokens → b ∈ tokens → a.start ≤ b.start →
      a.line ≤ b.line := by
    intro a b ha hb hle
    rw [line_of_mem_tokenize (h.mem ha), line_of_mem_tokenize (h.mem hb)]
    exact (List.take_prefix_take_left hle).sublist.count_le _
  have hle := hlines (mem_significant.1 htoken).1 (mem_significant.1 hother).1
  have hge := hlines (mem_significant.1 hother).1 (mem_significant.1 htoken).1
  rw [Bool.eq_iff_iff]
  simp only [TableMention.precedes, Relayout.mention, ranksAmong, hline, hstart,
    hotherLine, hotherStart, Nat.lt_irrefl, decide_false, Bool.false_or, BEq.rfl,
    Bool.true_and, decide_eq_true_eq, hrank, Bool.or_eq_true, Bool.and_eq_true,
    beq_iff_eq]
  omega

def ranks (text : String) : Relayout where
  keeps token := !token.isTrivia
  line _ := 0
  start offset :=
    (significant (tokenize text)).countP fun token => token.start < offset
  stop offset := (significant (tokenize text)).countP fun token => token.stop < offset
  keeps_of_isTrivia := Token.not_isTrivia_eq_true

instance (text : String) : (ranks text).Verbatim :=
  ⟨fun _ => rfl⟩

theorem ranks_eq (text : String) : ranks text = ranksAmong (tokenize text) :=
  rfl

end Relayout

end SqlOutline
