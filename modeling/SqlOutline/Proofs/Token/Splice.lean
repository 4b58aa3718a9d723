import SqlOutline.Proofs.Statement.PlainText

/-!
# Text written behind a word

A text that is cut behind a keyword can go on with anything that begins with a break:
all that comes before is read as it was (`exists_splice`).
-/

namespace SqlOutline.Token

theorem form_eq_word_of_keyword? {form : Form} {c : Char} {next : Option Char}
    {chars : List Char} (hform : Form.ofChars c next = form)
    (h : (form.kind chars).keyword?.isSome = true) : form = .word := by
  cases form with
  | word => rfl
  | single kind =>
    have hnone : (Form.singleKind c).keyword? = none := by
      unfold Form.singleKind
      repeat' split
      all_goals rfl
    rw [kind_of_ofChars_eq_single hform, Form.kind, hnone] at h
    exact Bool.noConfusion h
  | _ => exact Bool.noConfusion h

private theorem of_isOperatorChar {p : Char → Bool}
    (hp : ['+', '-', '*', '/', '%', '<', '>', '=', '!', '|', '&', '^', '~', ':', '?',
        '@'].all p = true) {c : Char} (h : isOperatorChar c = true) : p c = true := by
  rw [isOperatorChar, decide_eq_true_iff] at h
  exact List.all_eq_true.1 hp c h

private theorem isOperatorChar_of_continuesWord {c : Char}
    (h : continuesWord c = true) : isOperatorChar c = false := by
  by_contra hop
  have hnot : (!continuesWord c) = true :=
    of_isOperatorChar (p := fun c => !continuesWord c) (by decide +kernel)
      (by simpa using hop)
  rw [h] at hnot
  exact Bool.noConfusion hnot

private theorem isOperatorChar_of_ofChars {c : Char} {next : Option Char}
    (h : Form.ofChars c next = .word) : isOperatorChar c = false := by
  have halone : Form.ofChars c none = .word :=
    (Form.ofChars_of_looksAhead (by rw [h]; rfl)).symm.trans h
  by_contra hop
  have hnot : decide (Form.ofChars c none ≠ .word) = true :=
    of_isOperatorChar (p := fun c => decide (Form.ofChars c none ≠ .word))
      (by decide +kernel) (by simpa using hop)
  exact (of_decide_eq_true hnot) halone

theorem operatorLength_append_of_getLast? {cs rest rest' : List Char} (hne : cs ≠ [])
    (hlast : ∀ c ∈ cs.getLast?, isOperatorChar c = false)
    (h : operatorLength (cs ++ rest) = 0) : operatorLength (cs ++ rest') = 0 := by
  match cs with
  | [] => exact absurd rfl hne
  | [c] =>
    apply operatorLength_cons_eq_zero_iff.2
    intro hop
    rw [hlast c rfl] at hop
    exact Bool.noConfusion hop
  | c :: d :: cs =>
    rw [List.cons_append, operatorLength_cons_eq_zero_iff] at h ⊢
    exact h

/-- All lexemes up to a keyword stay as they are when the text goes on otherwise after
a break. -/
theorem exists_splice {cs : List Char} {front later : List Lexeme} {word : Lexeme}
    (h : lexemes cs = front ++ word :: later) (hword : word.keyword?.isSome = true)
    (hfront : ∀ lexeme ∈ front, lexeme.isComment = false) :
    ∃ before after, cs = before ++ after ∧ before ≠ [] ∧
      (∀ c ∈ before.getLast?, isOperatorChar c = false) ∧
      (∀ c ∈ after.head?, continuesWord c = false) ∧ lexemes after = later ∧
      ∀ rest : List Char, (∀ c ∈ rest.head?, Text.isBreak c = true) →
        lexemes (before ++ rest) = front ++ word :: lexemes rest := by
  induction cs using induction_lexemes generalizing front with
  | nil => simp at h
  | cons c w after form hform hlength ih =>
    rw [lexemes_cons_append hform hlength] at h
    cases front with
    | nil =>
      obtain ⟨rfl, rfl⟩ := List.cons.inj h
      have hformWord := form_eq_word_of_keyword? hform hword
      subst hformWord
      obtain ⟨hchars, hhead⟩ := runLength_append_eq_iff.1 hlength
      refine ⟨c :: w, after, rfl, List.cons_ne_nil _ _, ?_, hhead, rfl,
        fun rest hrest => ?_⟩
      · intro e he
        rw [List.getLast?_cons, Option.mem_some_iff] at he
        rw [← he]
        cases hw : w.getLast? with
        | none => exact isOperatorChar_of_ofChars hform
        | some d =>
          exact isOperatorChar_of_continuesWord (hchars d (List.mem_of_getLast? hw))
      · have hcut : Cut after rest := Cut.stop hrest
        have hform' := (Form.ofChars_append_of_cut (by rwa [hform]) hcut).trans hform
        have hlength' : Form.word.length (w ++ rest) = w.length := by
          have hle : runLength continuesWord (w ++ after) ≤ w.length := hlength.le
          exact (runLength_append_of_cut (fun _ => Text.continuesWord_of_isBreak) hle
            hcut).trans hlength
        exact lexemes_cons_append hform' hlength'
    | cons first front =>
      obtain ⟨rfl, hlater⟩ := List.cons.inj h
      have hcomment := hfront _ (List.mem_cons_self ..)
      obtain ⟨before, rest, rfl, hne, hlast, hhead, hread, hsplice⟩ :=
        ih hlater fun lexeme hlexeme => hfront lexeme (List.mem_cons_of_mem _ hlexeme)
      refine ⟨c :: (w ++ before), rest, by simp, List.cons_ne_nil _ _, ?_, hhead,
        hread, fun more hmore => ?_⟩
      · rw [← List.cons_append, List.getLast?_append_of_ne_nil _ hne]
        exact hlast
      · have hcut : Cut (before ++ rest) (before ++ more) :=
          (Cut.stop hmore).append_left before
        have hform' := (Form.ofChars_append_of_cut (by rwa [hform]) hcut).trans hform
        have hlength' : form.length (w ++ (before ++ more)) = w.length := by
          by_cases hblanks : form = .blanks
          · subst hblanks
            apply runLength_append_of_head? hlength
            rw [List.head?_append_of_ne_nil _ hne, List.head?_append_of_ne_nil _ hne]
          · have hline : form ≠ .lineComment := by
              rintro rfl
              exact Bool.noConfusion hcomment
            apply Form.length_append_of_cut hform hblanks hline hlength hcut
            · exact operatorLength_append_of_getLast? hne hlast
            · intro hend
              exact absurd (List.append_eq_nil_iff.1 hend).1 hne
        rw [List.cons_append, List.append_assoc, lexemes_cons_append hform' hlength',
          hsplice more hmore, List.cons_append]

end SqlOutline.Token
