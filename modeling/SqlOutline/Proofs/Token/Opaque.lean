import Mathlib.Data.List.Infix
import SqlOutline.Proofs.Layout.Moved
import SqlOutline.Proofs.Token.Solid

/-!
# Opaque spans

Literals, names between backquotes, block comments and templates hide what they hold:
whatever is written between the marks is one token, and behind it the text is read as
if it began there (`tokenize_span_append`). Each span has a rule of its own for what
it can hold. Quotation marks hold anything with their mark doubled, pairs of marks
anything without the closing one, and braces anything whose own braces balance.
-/

namespace SqlOutline

namespace Token

/-- The marks around text that is not read. -/
inductive Enclosure where
  | singleQuotes
  | doubleQuotes
  | backquotes
  | blockComment
  | templateComment
  | templateStatement
  | templateExpression
  | templateVariable
  deriving DecidableEq, Repr

/-- Whether every `}` closes a `{` before it, and every `{` is closed. -/
structure BalancesBraces (cs : List Char) : Prop where
  count_eq : cs.count '}' = cs.count '{'
  count_le : ∀ front, front <+: cs → front.count '}' ≤ front.count '{'

instance (cs : List Char) : Decidable (BalancesBraces cs) :=
  decidable_of_iff
    (cs.count '}' = cs.count '{' ∧
      ∀ front ∈ cs.inits, front.count '}' ≤ front.count '{') ⟨fun ⟨heq, hle⟩ =>
      ⟨heq, fun front hfront => hle front ((List.mem_inits front cs).2 hfront)⟩,
    fun h => ⟨h.count_eq,
      fun front hfront => h.count_le front ((List.mem_inits front cs).1 hfront)⟩⟩

def doubled (mark : Char) (cs : List Char) : List Char :=
  cs.flatMap fun c => if c = mark then [c, c] else [c]

namespace Enclosure

def kind : Enclosure → TokenKind
  | .singleQuotes | .doubleQuotes => .string
  | .backquotes => .identifier
  | .blockComment => .blockComment
  | .templateComment | .templateStatement | .templateExpression | .templateVariable =>
    .template

def opening : Enclosure → List Char
  | .singleQuotes => ['\x27']
  | .doubleQuotes => ['\x22']
  | .backquotes => ['\x60']
  | .blockComment => ['/', '*']
  | .templateComment => ['{', '#']
  | .templateStatement => ['{', '%']
  | .templateExpression => ['{', '{']
  | .templateVariable => ['$', '{']

def closing : Enclosure → List Char
  | .singleQuotes => ['\x27']
  | .doubleQuotes => ['\x22']
  | .backquotes => ['\x60']
  | .blockComment => ['*', '/']
  | .templateComment => ['#', '}']
  | .templateStatement => ['%', '}']
  | .templateExpression => ['}', '}']
  | .templateVariable => ['}']

def written (enclosure : Enclosure) (payload : List Char) : List Char :=
  match enclosure with
  | .singleQuotes => doubled '\x27' payload
  | .doubleQuotes => doubled '\x22' payload
  | _ => payload

/-- Whether the marks can stand around a payload. -/
def Admits (enclosure : Enclosure) (payload : List Char) : Prop :=
  match enclosure with
  | .singleQuotes | .doubleQuotes => True
  | .templateExpression | .templateVariable => BalancesBraces payload
  | _ => ¬ enclosure.closing <:+: payload

/-- Whether the span ends before the text: a quotation mark right behind one would be
a doubled mark. -/
def EndsBefore (enclosure : Enclosure) (rest : List Char) : Prop :=
  match enclosure with
  | .singleQuotes | .doubleQuotes => rest.head? ≠ enclosure.closing.head?
  | _ => True

def span (enclosure : Enclosure) (payload : String) : String :=
  String.ofList
    (enclosure.opening ++ (enclosure.written payload.toList ++ enclosure.closing))

example : singleQuotes.span "it's" = "'it''s'" := by decide

end Enclosure

/-! ## Reading a payload -/

private theorem lexemes_of_reader {State : Type} {reader : Reader State}
    {start last : State} {form : Form} {c : Char} {w rest : List Char}
    (hlength : ∀ cs, form.length cs = reader.length start cs)
    (hform : Form.ofChars c (w ++ rest).head? = form)
    (hread : w.foldlM reader.next start = some last)
    (hends : ∀ d ∈ rest.head?, reader.next last d = none) :
    lexemes (c :: w ++ rest) =
      ⟨form.kind (c :: w), String.ofList (c :: w)⟩ :: lexemes rest := by
  have hlast : form.length (w ++ rest) = w.length := by
    rw [hlength]
    exact Reader.length_append_eq_iff.2 ⟨last, hread, hends⟩
  exact lexemes_cons_append hform hlast

private theorem Reader.foldlM_quoted_doubled (mark : Char) (cs : List Char) :
    (doubled mark cs).foldlM (quoted mark).next false = some false := by
  induction cs with
  | nil => rfl
  | cons c cs ih =>
    rw [doubled, List.flatMap_cons, List.foldlM_append, ← doubled]
    by_cases hc : c = mark
    · rw [if_pos hc]
      simpa [hc] using ih
    · rw [if_neg hc]
      simpa [beq_eq_false_iff_ne.2 hc] using ih

private theorem Reader.foldlM_through {mark : Char} {cs : List Char} (h : mark ∉ cs) :
    cs.foldlM (through mark).next false = some false := by
  induction cs with
  | nil => rfl
  | cons c cs ih =>
    rw [List.mem_cons, not_or] at h
    have hc : (c == mark) = false := beq_eq_false_iff_ne.2 (Ne.symm h.1)
    rw [List.foldlM_cons, next_through_false, hc]
    exact ih h.2

private theorem Reader.exists_foldlM_pair {a b : Char} {cs : List Char} (half : Bool)
    (h : ¬ [a, b] <:+: cs) (hhalf : half = true → cs.head? ≠ some b) :
    ∃ half', cs.foldlM (pair a b).next (.inside half) = some (.inside half') := by
  induction cs generalizing half with
  | nil => exact ⟨half, rfl⟩
  | cons c cs ih =>
    have hnext : (pair a b).next (.inside half) c = some (.inside (c == a)) := by
      have hopen : (half && c == b) = false := by
        cases half with
        | false => rfl
        | true => simpa using hhalf rfl
      rw [next_pair_inside, hopen]
      rfl
    have hcs : ¬ [a, b] <:+: cs :=
      fun hpair => h (hpair.trans (List.suffix_cons c cs).isInfix)
    rw [List.foldlM_cons, hnext]
    apply ih _ hcs
    -- the pair would begin with `c`
    intro hc hhead
    obtain ⟨rest, rfl⟩ := List.head?_eq_some_iff.1 hhead
    rw [beq_iff_eq] at hc
    subst hc
    exact h ⟨[], rest, rfl⟩

private theorem Reader.foldlM_braced {depth : Nat} {cs : List Char}
    (h : ∀ front, front <+: cs → front.count '}' < depth + front.count '{') :
    cs.foldlM braced.next (some depth) =
      some (some (depth + cs.count '{' - cs.count '}')) := by
  induction cs using List.reverseRecOn with
  | nil => rfl
  | append_singleton cs c ih =>
    have hall := h (cs ++ [c]) (List.prefix_refl _)
    have hinit :=
      ih fun front hfront => h front (hfront.trans (List.prefix_append cs [c]))
    rw [List.foldlM_append, hinit, Option.bind_eq_bind, Option.bind_some,
      List.foldlM_cons, next_braced_some]
    rw [List.count_append, List.count_append] at hall ⊢
    by_cases hopen : c = '{'
    · subst hopen
      simp at hall ⊢
      omega
    · by_cases hclose : c = '}'
      · subst hclose
        simp at hall ⊢
        omega
      · simp [hopen, hclose] at hall ⊢

theorem BalancesBraces.foldlM_eq {cs : List Char} (h : BalancesBraces cs)
    (depth : Nat) :
    cs.foldlM Reader.braced.next (some (depth + 1)) = some (some (depth + 1)) := by
  have hfront : ∀ front, front <+: cs →
      front.count '}' < depth + 1 + front.count '{' := by
    intro front hfront
    have hle := h.count_le front hfront
    omega
  rw [Reader.foldlM_braced hfront, h.count_eq, Nat.add_sub_cancel]

/-! ## Reading a span -/

section Span

variable {c : Char} (payload : List Char) {rest : List Char}

theorem lexemes_quoted_append (hform : Form.ofChars c none = .quoted c)
    (hlead : ∀ lead ∈ Form.leadPairs, lead.1 ≠ c) (hrest : rest.head? ≠ some c) :
    lexemes (c :: (doubled c payload ++ [c]) ++ rest) =
      ⟨.string, String.ofList (c :: (doubled c payload ++ [c]))⟩ :: lexemes rest := by
  have hlength : ∀ cs, (Form.quoted c).length cs =
      (Reader.quoted c).length false cs :=
    fun cs => (Reader.length_quoted c cs).symm
  have hread :
      (doubled c payload ++ [c]).foldlM (Reader.quoted c).next false = some true := by
    rw [List.foldlM_append, Reader.foldlM_quoted_doubled]
    simp
  refine lexemes_of_reader hlength (Form.ofChars_eq_of_alone hform hlead _) hread
    fun d hd => ?_
  have hne : d ≠ c := by
    rintro rfl
    exact hrest hd
  rw [Reader.next_quoted_true, if_neg hne]

theorem lexemes_backquoted_append (hpayload : Lexeme.backquote ∉ payload) :
    lexemes (Lexeme.backquote :: (payload ++ [Lexeme.backquote]) ++ rest) =
      ⟨.identifier,
          String.ofList (Lexeme.backquote :: (payload ++ [Lexeme.backquote]))⟩ ::
        lexemes rest := by
  have hlength : ∀ cs, Form.backquoted.length cs =
      (Reader.through Lexeme.backquote).length false cs :=
    fun cs => (Reader.length_through _ cs).symm
  have hread : (payload ++ [Lexeme.backquote]).foldlM
        (Reader.through Lexeme.backquote).next false = some true := by
    rw [List.foldlM_append, Reader.foldlM_through hpayload]
    rfl
  exact lexemes_of_reader hlength (Form.ofChars_eq_of_alone rfl (by decide) _) hread
    fun _ _ => rfl

theorem lexemes_pair_append {d a b : Char} {form : Form}
    (hform : Form.ofChars c (some d) = form)
    (hlength : ∀ cs, form.length cs = lengthAfterPair a b cs) (hne : a ≠ b)
    (hpayload : ¬ [a, b] <:+: payload) :
    lexemes (c :: d :: (payload ++ [a, b]) ++ rest) =
      ⟨form.kind (c :: d :: (payload ++ [a, b])),
          String.ofList (c :: d :: (payload ++ [a, b]))⟩ :: lexemes rest := by
  have hlength' : ∀ cs, form.length cs = (Reader.pair a b).length .opening cs :=
    fun cs => (hlength cs).trans (Reader.length_pair a b cs).symm
  have hread : (d :: (payload ++ [a, b])).foldlM (Reader.pair a b).next .opening =
      some .closed := by
    obtain ⟨half, hhalf⟩ := Reader.exists_foldlM_pair false hpayload nofun
    rw [List.foldlM_cons, Reader.next_pair_opening, Option.bind_eq_bind,
      Option.bind_some, List.foldlM_append, hhalf]
    simp [hne]
  exact lexemes_of_reader hlength' (w := d :: (payload ++ [a, b])) hform hread
    fun _ _ => rfl

theorem lexemes_braced_append {depth : Nat} {closing : List Char}
    (hform : Form.ofChars c (some '{') = .bracedTemplate depth)
    (hclosing : closing.foldlM Reader.braced.next (some (depth + 1)) = some none)
    (hpayload : BalancesBraces payload) :
    lexemes (c :: '{' :: (payload ++ closing) ++ rest) =
      ⟨.template, String.ofList (c :: '{' :: (payload ++ closing))⟩ ::
        lexemes rest := by
  have hlength : ∀ cs, (Form.bracedTemplate depth).length cs =
      Reader.braced.length (some depth) cs :=
    fun cs => (Reader.length_braced depth cs).symm
  have hread : ('{' :: (payload ++ closing)).foldlM Reader.braced.next (some depth) =
      some none := by
    rw [List.foldlM_cons, Reader.next_braced_some, if_pos rfl, Option.bind_eq_bind,
      Option.bind_some, List.foldlM_append, hpayload.foldlM_eq]
    exact hclosing
  exact lexemes_of_reader hlength (w := '{' :: (payload ++ closing)) hform hread
    fun _ _ => rfl

end Span

namespace Enclosure

theorem lexemes_span_append {enclosure : Enclosure} {payload : String}
    {rest : List Char} (hpayload : enclosure.Admits payload.toList)
    (hrest : enclosure.EndsBefore rest) :
    lexemes ((enclosure.span payload).toList ++ rest) =
      ⟨enclosure.kind, enclosure.span payload⟩ :: lexemes rest := by
  rw [span, String.toList_ofList]
  cases enclosure with
  | singleQuotes => exact lexemes_quoted_append payload.toList rfl (by decide) hrest
  | doubleQuotes => exact lexemes_quoted_append payload.toList rfl (by decide) hrest
  | backquotes =>
    have hmem : Lexeme.backquote ∉ payload.toList := fun hmem =>
      hpayload ((List.singleton_infix_iff _ _).2 hmem)
    exact lexemes_backquoted_append payload.toList hmem
  | blockComment =>
    exact lexemes_pair_append payload.toList rfl (fun _ => rfl) (by decide) hpayload
  | templateComment =>
    exact lexemes_pair_append payload.toList rfl (fun _ => rfl) (by decide) hpayload
  | templateStatement =>
    exact lexemes_pair_append payload.toList rfl (fun _ => rfl) (by decide) hpayload
  | templateExpression => exact lexemes_braced_append payload.toList rfl rfl hpayload
  | templateVariable => exact lexemes_braced_append payload.toList rfl rfl hpayload

end Enclosure

theorem tokenize_eq_cons {text rest : String} {lexeme : Lexeme}
    (h : lexemes text.toList = lexeme :: lexemes rest.toList) :
    tokenize text = ⟨lexeme, 0, 0, lexeme.text.length⟩ ::
      (tokenize rest).map (moved (lineBreaks lexeme.text) lexeme.text.length) := by
  rw [tokenize, h, place, tokenize, ← place_moved]
  simp only [Nat.zero_add]

/-- A payload between marks that can stand around it is one token of their kind,
whatever the payload is, and the text behind it is read as if it began there. -/
theorem tokenize_span_append (enclosure : Enclosure) {payload rest : String}
    (hpayload : enclosure.Admits payload.toList)
    (hrest : enclosure.EndsBefore rest.toList) :
    tokenize (enclosure.span payload ++ rest) =
      ⟨⟨enclosure.kind, enclosure.span payload⟩, 0, 0,
          (enclosure.span payload).length⟩ ::
        (tokenize rest).map
          (moved (lineBreaks (enclosure.span payload))
            (enclosure.span payload).length) := by
  apply tokenize_eq_cons
  rw [String.toList_append]
  exact Enclosure.lexemes_span_append hpayload hrest

def bracedPayload : String := " \x7b'a': '\x22'\x7d['a'] -- ;\n"

theorem tokenize_span_append_bracedPayload :
    Enclosure.templateExpression.Admits bracedPayload.toList ∧
      Enclosure.templateExpression.EndsBefore "\x7d from t".toList ∧
      tokenize (Enclosure.templateExpression.span bracedPayload ++ "\x7d from t") =
        ⟨⟨.template, Enclosure.templateExpression.span bracedPayload⟩, 0, 0,
          (Enclosure.templateExpression.span bracedPayload).length⟩ ::
          (tokenize "\x7d from t").map (moved
            (lineBreaks (Enclosure.templateExpression.span bracedPayload))
            (Enclosure.templateExpression.span bracedPayload).length) := by
  have hpayload : BalancesBraces bracedPayload.toList := by decide +kernel
  exact ⟨hpayload, trivial, tokenize_span_append .templateExpression hpayload trivial⟩

end Token

end SqlOutline
