import SqlOutline.Proofs.Indexed.Basic
import SqlOutline.Token.Lexer

/-!
# Tokens by index

The characters of a text are scanned with one position that only moves on. Each
lexical form has a loop of its own for the end of a token; the token is then the slice
between the two positions.
-/

namespace SqlOutline.Indexed

open Token

/-! ## The end of a lexeme -/

def runStop (cs : List Char) (continues : Char → Option Char → Bool) (start : Nat) :
    Checked Nat :=
  loop cs.length
    (fun index (_ : Unit) => do
      let c ← element cs index
      if continues c cs[index + 1]? then .ok (.next (index + 1) ())
      else .ok (.stop index))
    (fun index _ => index) start ()

def pairStop (cs : List Char) (a b : Char) (start : Nat) : Checked Nat := do
  let index ← runStop cs (fun c next => !(c == a && next == some b)) start
  .ok (min (index + 2) cs.length)

def quotedStop (cs : List Char) (mark : Char) (start : Nat) : Checked Nat :=
  loop cs.length
    (fun index (_ : Unit) => do
      let c ← element cs index
      if c = mark then
        if cs[index + 1]? = some mark then .ok (.next (index + 2) ())
        else .ok (.stop (index + 1))
      else .ok (.next (index + 1) ()))
    (fun index _ => index) start ()

def bracedStop (cs : List Char) (start depth : Nat) : Checked Nat :=
  loop cs.length
    (fun index depth => do
      let c ← element cs index
      if c = '{' then .ok (.next (index + 1) (depth + 1))
      else if c = '}' then
        if depth - 1 = 0 then .ok (.stop (index + 1))
        else .ok (.next (index + 1) (depth - 1))
      else .ok (.next (index + 1) depth))
    (fun index _ => index) start depth

def digitsStop (cs : List Char) (start : Nat) : Checked Nat :=
  runStop cs (fun c _ => c.isDigit) start

def fractionStop (cs : List Char) (start : Nat) : Checked Nat :=
  if cs[start]? = some '.' ∧ cs[start + 1]?.any Char.isDigit then
    digitsStop cs (start + 1)
  else .ok start

def exponentStop (cs : List Char) (start : Nat) : Checked Nat :=
  if cs[start]? = some 'e' ∨ cs[start]? = some 'E' then
    let sign := if cs[start + 1]? = some '+' ∨ cs[start + 1]? = some '-' then 1 else 0
    if cs[start + 1 + sign]?.any Char.isDigit then digitsStop cs (start + 1 + sign)
    else .ok start
  else .ok start

def numberStop (cs : List Char) (start : Nat) : Checked Nat := do
  let whole ← digitsStop cs start
  let fraction ← fractionStop cs whole
  exponentStop cs fraction

def stopOf (cs : List Char) (start : Nat) : Form → Checked Nat
  | .blanks => runStop cs (fun c _ => Text.isBlank c) start
  | .lineComment => runStop cs (fun c _ => c != '\n') start
  | .blockComment => pairStop cs '*' '/' (start + 2)
  | .quoted mark => quotedStop cs mark (start + 1)
  | .backquoted => do
    let index ← runStop cs (fun c _ => c != Lexeme.backquote) (start + 1)
    .ok (min (index + 1) cs.length)
  | .markedTemplate mark => pairStop cs mark '}' (start + 2)
  | .bracedTemplate depth => bracedStop cs (start + 1) depth
  | .number => numberStop cs start
  | .word => runStop cs (fun c _ => continuesWord c) start
  | .operator =>
    runStop cs (fun c next => isOperatorChar c && !opensComment c next) (start + 1)
  | .single _ => .ok (start + 1)

/-! ## Lengths of runs -/

def runSpan (continues : Char → Option Char → Bool) : List Char → Nat
  | [] => 0
  | c :: cs => if continues c cs.head? then runSpan continues cs + 1 else 0

private theorem runLength_eq_runSpan (p : Char → Bool) (cs : List Char) :
    runLength p cs = runSpan (fun c _ => p c) cs := by
  induction cs with
  | nil => rfl
  | cons c cs ih => rw [runLength, runSpan, ih]

private theorem operatorLength_eq_runSpan (cs : List Char) : operatorLength cs =
    runSpan (fun c next => isOperatorChar c && !opensComment c next) cs := by
  induction cs with
  | nil => rfl
  | cons c cs ih => rw [operatorLength, runSpan, ih]

private theorem lengthThrough_eq_min (mark : Char) (cs : List Char) :
    lengthThrough mark cs =
      min (runSpan (fun c _ => c != mark) cs + 1) cs.length := by
  induction cs with
  | nil => rfl
  | cons c cs ih =>
    rw [lengthThrough, runSpan, ih, List.length_cons]
    by_cases hmark : c = mark <;> simp [hmark]

private theorem lengthThroughPair_eq_min (a b : Char) (cs : List Char) :
    lengthThroughPair a b cs =
      min (runSpan (fun c next => !(c == a && next == some b)) cs + 2) cs.length := by
  fun_induction lengthThroughPair a b cs with
  | case1 => rfl
  | case2 c => simp [runSpan]
  | case3 c d cs hpair => simp [runSpan, hpair]
  | case4 c d cs hpair ih =>
    have hspan : runSpan (fun c next => !(c == a && next == some b)) (c :: d :: cs) =
        runSpan (fun c next => !(c == a && next == some b)) (d :: cs) + 1 :=
      if_pos (by simpa [Decidable.imp_iff_not_or] using hpair)
    rw [ih, hspan, List.length_cons (a := c)]
    omega

private theorem quotedLength_cons (mark c : Char) (cs : List Char) :
    quotedLength mark (c :: cs) =
      if c = mark then if cs.head? = some mark then quotedLength mark cs.tail + 2
        else 1
    else quotedLength mark cs + 1 := by
  cases cs with
  | nil => simp [quotedLength]
  | cons d cs => simp [quotedLength]

/-! ## Where the loops stop -/

variable {cs : List Char} {start : Nat}

theorem runStop_eq_ok (cs : List Char) (continues : Char → Option Char → Bool)
    (start : Nat) :
    runStop cs continues start = .ok (start + runSpan continues (cs.drop start)) := by
  refine loop_eq_ok (fun index _ => index + runSpan continues (cs.drop index) =
    start + runSpan continues (cs.drop start)) ?_ ?_ rfl
  · intro index _ hlength hinv
    rwa [List.drop_eq_nil_of_le hlength] at hinv
  · intro index _ hlt hinv
    have hc := List.getElem?_eq_getElem hlt
    rw [drop_eq_cons hc, runSpan, List.head?_drop] at hinv
    rw [element_eq_ok hc, ok_bind]
    split
    · next hcontinues =>
      rw [if_pos hcontinues] at hinv
      exact ⟨_, rfl, Nat.lt_succ_self _, by omega⟩
    · next hcontinues =>
      rw [if_neg hcontinues] at hinv
      exact ⟨_, rfl, hinv⟩

theorem quotedStop_eq_ok (cs : List Char) (mark : Char) (start : Nat) :
    quotedStop cs mark start = .ok (start + quotedLength mark (cs.drop start)) := by
  refine loop_eq_ok (fun index _ => index + quotedLength mark (cs.drop index) =
    start + quotedLength mark (cs.drop start)) ?_ ?_ rfl
  · intro index _ hlength hinv
    rwa [List.drop_eq_nil_of_le hlength] at hinv
  · intro index _ hlt hinv
    have hc := List.getElem?_eq_getElem hlt
    rw [drop_eq_cons hc, quotedLength_cons, List.head?_drop, List.tail_drop] at hinv
    rw [element_eq_ok hc, ok_bind]
    split
    · next hmark =>
      rw [if_pos hmark] at hinv
      split
      · next hdouble =>
        rw [if_pos hdouble] at hinv
        refine ⟨_, rfl, by omega, ?_⟩
        rw [← hinv]
        exact Nat.add_right_comm ..
      · next hdouble =>
        rw [if_neg hdouble] at hinv
        exact ⟨_, rfl, hinv⟩
    · next hmark =>
      rw [if_neg hmark] at hinv
      exact ⟨_, rfl, by omega, by omega⟩

theorem bracedStop_eq_ok (cs : List Char) (start depth : Nat) :
    bracedStop cs start depth = .ok (start + bracedLength depth (cs.drop start)) := by
  refine loop_eq_ok (fun index inner => index + bracedLength inner (cs.drop index) =
    start + bracedLength depth (cs.drop start)) ?_ ?_ rfl
  · intro index inner hlength hinv
    rwa [List.drop_eq_nil_of_le hlength, bracedLength] at hinv
  · intro index inner hlt hinv
    have hc := List.getElem?_eq_getElem hlt
    rw [drop_eq_cons hc, bracedLength] at hinv
    rw [element_eq_ok hc, ok_bind]
    split
    · next hopen =>
      rw [if_pos hopen] at hinv
      exact ⟨_, rfl, Nat.lt_succ_self _, by omega⟩
    · next hopen =>
      rw [if_neg hopen] at hinv
      split
      · next hclose =>
        rw [if_pos hclose] at hinv
        split
        · next hzero =>
          rw [if_pos (Nat.sub_eq_zero_iff_le.1 hzero)] at hinv
          exact ⟨_, rfl, hinv⟩
        · next hzero =>
          rw [if_neg fun hle => hzero (Nat.sub_eq_zero_of_le hle)] at hinv
          exact ⟨_, rfl, Nat.lt_succ_self _, by omega⟩
      · next hclose =>
        rw [if_neg hclose] at hinv
        exact ⟨_, rfl, Nat.lt_succ_self _, by omega⟩

theorem digitsStop_eq_ok (cs : List Char) (start : Nat) :
    digitsStop cs start = .ok (start + runLength Char.isDigit (cs.drop start)) := by
  rw [digitsStop, runStop_eq_ok, runLength_eq_runSpan]

private theorem runLength_drop_pos_iff (p : Char → Bool) (cs : List Char)
    (index : Nat) : 0 < runLength p (cs.drop index) ↔ cs[index]?.any p = true := by
  rw [← List.head?_drop]
  cases cs.drop index with
  | nil => simp [runLength]
  | cons c cs =>
    rw [runLength, List.head?_cons, Option.any_some]
    split <;> simp_all

theorem fractionStop_eq_ok (cs : List Char) (start : Nat) :
    fractionStop cs start = .ok (start + fractionLength (cs.drop start)) := by
  simp only [fractionStop, digitsStop_eq_ok, ← runLength_drop_pos_iff]
  cases hc : cs[start]? with
  | none =>
    rw [List.drop_eq_nil_of_le (List.getElem?_eq_none_iff.1 hc)]
    rfl
  | some c =>
    simp only [drop_eq_cons hc, fractionLength, Option.some.injEq]
    split
    · exact congrArg _ (by omega)
    · rfl

theorem exponentStop_eq_ok (cs : List Char) (start : Nat) :
    exponentStop cs start = .ok (start + exponentLength (cs.drop start)) := by
  simp only [exponentStop, digitsStop_eq_ok, ← runLength_drop_pos_iff]
  cases hc : cs[start]? with
  | none =>
    rw [List.drop_eq_nil_of_le (List.getElem?_eq_none_iff.1 hc)]
    rfl
  | some c =>
    rw [drop_eq_cons hc, exponentLength, List.head?_drop]
    generalize (if cs[start + 1]? = some '+' ∨ cs[start + 1]? = some '-' then 1
        else 0) = sign
    simp only [List.drop_drop, Option.some.injEq, ite_and]
    split
    · split
      · exact congrArg _ (by omega)
      · rfl
    · rfl

theorem numberStop_eq_ok (cs : List Char) (start : Nat) :
    numberStop cs start = .ok (start + numberLength (cs.drop start)) := by
  rw [numberStop, digitsStop_eq_ok, ok_bind, fractionStop_eq_ok, ok_bind,
    exponentStop_eq_ok, numberLength]
  simp only [List.drop_drop, Nat.add_assoc]

def Begins (c : Char) (next : Option Char) : Form → Prop
  | .blanks => Text.isBlank c = true
  | .lineComment => c = '-'
  | .blockComment | .markedTemplate _ => next.isSome = true
  | .number => c.isDigit = true
  | .word => startsWord c = true
  | _ => True

private theorem begins_ite {c : Char} {next : Option Char} {p : Prop} [Decidable p]
    {first second : Form} (hfirst : p → Begins c next first)
    (hsecond : Begins c next second) :
    Begins c next (if p then first else second) := by
  by_cases hp : p
  · rw [if_pos hp]
    exact hfirst hp
  · rwa [if_neg hp]

private theorem begins_ofChars (c : Char) (next : Option Char) :
    Begins c next (Form.ofChars c next) := by
  have hsome {d : Char} (h : next = some d) : next.isSome = true := h ▸ rfl
  unfold Form.ofChars
  refine begins_ite (fun hblank => hblank) ?_
  refine begins_ite (fun hline => hline.1) ?_
  refine begins_ite (fun hblock => hsome hblock.2) ?_
  refine begins_ite (fun _ => trivial) <| begins_ite (fun _ => trivial) <|
    begins_ite (fun _ => trivial) ?_
  refine begins_ite (fun hcomment => hsome hcomment.2) ?_
  refine begins_ite (fun hstatement => hsome hstatement.2) ?_
  refine begins_ite (fun _ => trivial) ?_
  refine begins_ite (fun hdigit => hdigit) ?_
  refine begins_ite (fun hword => hword) ?_
  exact begins_ite (fun _ => trivial) trivial

variable {c : Char}

private theorem continuesWord_of_startsWord (h : startsWord c = true) :
    continuesWord c = true := by
  rw [startsWord, Bool.or_eq_true] at h
  rw [continuesWord, Text.isAlphanumeric, Bool.or_eq_true, Bool.or_eq_true,
    Bool.or_eq_true]
  exact .inl (h.imp_left .inl)

private theorem numberLength_cons (h : c.isDigit = true) (cs : List Char) :
    numberLength (c :: cs) = numberLength cs + 1 := by
  simp only [numberLength, runLength, h, ↓reduceIte, Nat.add_right_comm _ 1,
    List.drop_succ_cons]

theorem runStop_of_first (hc : cs[start]? = some c) {p : Char → Bool}
    (hp : p c = true) :
    runStop cs (fun c _ => p c) start =
      .ok (start + 1 + runLength p (cs.drop (start + 1))) := by
  rw [runStop_eq_ok, ← runLength_eq_runSpan, drop_eq_cons hc, runLength, if_pos hp]
  exact congrArg _ (by omega)

theorem pairStop_eq_ok (hnext : cs[start + 1]?.isSome = true) (a b : Char) :
    pairStop cs a b (start + 2) =
      .ok (start + 1 + lengthAfterPair a b (cs.drop (start + 1))) := by
  obtain ⟨d, hd⟩ := Option.isSome_iff_exists.1 hnext
  have hlt := (List.getElem?_eq_some_iff.1 hd).1
  have hdrop : cs.drop (start + 1) = d :: cs.drop (start + 2) := drop_eq_cons hd
  rw [pairStop, runStop_eq_ok, ok_bind, hdrop, lengthAfterPair,
    lengthThroughPair_eq_min, List.length_drop]
  exact congrArg _ (by omega)

theorem stopOf_eq_ok (hc : cs[start]? = some c) {form : Form}
    (hbegins : Begins c cs[start + 1]? form) :
    stopOf cs start form = .ok (start + 1 + form.length (cs.drop (start + 1))) := by
  cases form with
  | blanks => exact runStop_of_first hc hbegins
  | lineComment =>
    exact runStop_of_first hc (p := (· != '\n')) (by rw [hbegins]; decide)
  | blockComment => exact pairStop_eq_ok hbegins '*' '/'
  | quoted mark => exact quotedStop_eq_ok cs mark (start + 1)
  | backquoted =>
    have hlt := (List.getElem?_eq_some_iff.1 hc).1
    rw [stopOf, runStop_eq_ok, ok_bind, Form.length, lengthThrough_eq_min,
      List.length_drop]
    exact congrArg _ (by omega)
  | markedTemplate mark => exact pairStop_eq_ok hbegins mark '\x7d'
  | bracedTemplate depth => exact bracedStop_eq_ok cs (start + 1) depth
  | number =>
    rw [stopOf, numberStop_eq_ok, drop_eq_cons hc, numberLength_cons hbegins]
    exact congrArg Except.ok (by rw [Form.length]; omega)
  | word =>
    exact runStop_of_first hc (continuesWord_of_startsWord hbegins)
  | operator =>
    rw [stopOf, runStop_eq_ok, ← operatorLength_eq_runSpan]
    rfl
  | single kind => rfl

/-! ## Tokens -/

structure Scanned where
  tokens : List Token
  line : Nat

def Scanned.turn (cs : List Char) (start : Nat) (scanned : Scanned) :
    Checked (Turn Scanned (List Token)) := do
  let c ← element cs start
  let form := Form.ofChars c cs[start + 1]?
  let stop ← stopOf cs start form
  let chars ← slice cs start stop
  let lexeme : Lexeme := ⟨form.kind chars, String.ofList chars⟩
  .ok (.next stop ⟨scanned.tokens ++ [⟨lexeme, scanned.line, start, stop⟩],
    scanned.line + lineBreaks lexeme.text⟩)

def tokenize (text : String) : Checked (List Token) :=
  loop text.toList.length (Scanned.turn text.toList) (fun _ scanned => scanned.tokens)
    0 ⟨[], 0⟩

theorem Scanned.exists_turn_eq_ok (hlt : start < cs.length) (scanned : Scanned) :
    ∃ lexeme stop, stop = start + lexeme.text.length ∧ start < stop ∧
      lexemes (cs.drop start) = lexeme :: lexemes (cs.drop stop) ∧
      scanned.turn cs start = .ok (.next stop
        ⟨scanned.tokens ++ [⟨lexeme, scanned.line, start, stop⟩],
          scanned.line + lineBreaks lexeme.text⟩) := by
  have hc := List.getElem?_eq_getElem hlt
  generalize cs[start] = c at hc
  generalize hform : Form.ofChars c cs[start + 1]? = form
  have hstop := stopOf_eq_ok hc (hform ▸ begins_ofChars c _)
  have hlength := form.length_le_length (cs.drop (start + 1))
  generalize hcount : form.length (cs.drop (start + 1)) = count at hstop hlength
  rw [List.length_drop] at hlength
  have hslice : slice cs start (start + 1 + count) =
      .ok (c :: (cs.drop (start + 1)).take count) := by
    rw [slice_eq_ok (by omega) (by omega), drop_eq_cons hc, Nat.add_assoc,
      Nat.add_sub_cancel_left, Nat.add_comm 1, List.take_succ_cons]
  refine ⟨⟨form.kind (c :: (cs.drop (start + 1)).take count),
      String.ofList (c :: (cs.drop (start + 1)).take count)⟩, start + 1 + count, ?_,
    by omega, ?_, ?_⟩
  · rw [String.length_ofList, List.length_cons, List.length_take, List.length_drop]
    omega
  · rw [drop_eq_cons hc, lexemes, List.head?_drop, hform]
    simp only [hcount, List.drop_drop]
  · simp only [Scanned.turn, element_eq_ok hc, hform, hstop, hslice, ok_bind]

theorem tokenize_eq_ok (text : String) :
    tokenize text = .ok (Token.tokenize text) := by
  refine loop_eq_ok (fun start scanned =>
    scanned.tokens ++ place scanned.line start (lexemes (text.toList.drop start)) =
      Token.tokenize text) ?_ ?_ rfl
  · intro start scanned hlength hinv
    rwa [List.drop_eq_nil_of_le hlength, lexemes_nil, place, List.append_nil] at hinv
  · intro start scanned hlt hinv
    obtain ⟨lexeme, stop, hstop, hadvance, hlexemes, hturn⟩ :=
      scanned.exists_turn_eq_ok hlt
    refine ⟨_, hturn, hadvance, ?_⟩
    rw [hlexemes, place, ← hstop] at hinv
    rw [List.append_assoc, List.singleton_append]
    exact hinv

end SqlOutline.Indexed
