import SqlOutline.Proofs.Text.Blank

/-!
# Readers

Words, literals, templates and block comments are read by a state and one character at
a time. The state after the last character says all there is to know about what may
follow: either some character ends the lexeme, and then so does every break, or no
character does.

`Form.HasReader` says that a form is of this sort. Numbers and operators look further
ahead and have lemmas of their own.
-/

namespace SqlOutline.Token

/-- A way to read a lexeme: the state after each character, or nothing where the
lexeme ends before the character. -/
structure Reader (State : Type) where
  next : State → Char → Option State

namespace Reader

variable {State : Type} (reader : Reader State)

def length : State → List Char → Nat
  | _, [] => 0
  | state, c :: cs =>
    match reader.next state c with
    | some state => length state cs + 1
    | none => 0

def Open (state : State) : Prop :=
  ∀ c, (reader.next state c).isSome = true

/-- Breaks end whatever anything ends, and what a blank does not end nothing ends
after it. -/
structure HeedsBlanks : Prop where
  ends : ∀ {state c b}, reader.next state c = none → Text.isBreak b = true →
    reader.next state b = none
  opens : ∀ {state later b}, Text.isBlank b = true →
    reader.next state b = some later → reader.Open later

variable {reader}

theorem length_cons_some {state later : State} {c : Char} (cs : List Char)
    (h : reader.next state c = some later) :
    reader.length state (c :: cs) = reader.length later cs + 1 := by
  rw [length, h]

theorem length_cons_none {state : State} {c : Char} (cs : List Char)
    (h : reader.next state c = none) : reader.length state (c :: cs) = 0 := by
  rw [length, h]

/-- Exactly `w` is read before `rest` if no character of `w` ends the lexeme and the
first one of `rest` does. -/
theorem length_append_eq_iff {state : State} {w rest : List Char} :
    reader.length state (w ++ rest) = w.length ↔
      ∃ last, w.foldlM reader.next state = some last ∧
        ∀ c ∈ rest.head?, reader.next last c = none := by
  induction w generalizing state with
  | nil =>
    cases rest with
    | nil => simp [length]
    | cons c rest =>
      cases hnext : reader.next state c with
      | none => simp [length, hnext]
      | some later => simp [length, hnext]
  | cons c w ih =>
    rw [List.cons_append, length, List.foldlM_cons, List.length_cons]
    cases hnext : reader.next state c with
    | none => simp
    | some later =>
      simp only [Nat.add_right_cancel_iff]
      exact ih

theorem foldlM_of_length_eq {state : State} {w rest : List Char}
    (h : reader.length state (w ++ rest) = w.length) :
    ∃ last, w.foldlM reader.next state = some last := by
  obtain ⟨last, hlast, -⟩ := length_append_eq_iff.1 h
  exact ⟨last, hlast⟩

theorem length_of_prefix {state : State} {u v rest : List Char}
    (h : reader.length state (u ++ v ++ rest) = (u ++ v).length) :
    reader.length state u = u.length := by
  obtain ⟨last, hlast⟩ := foldlM_of_length_eq h
  rw [List.foldlM_append, Option.bind_eq_bind, Option.bind_eq_some_iff] at hlast
  obtain ⟨middle, hmiddle, -⟩ := hlast
  have hu : reader.length state (u ++ []) = u.length :=
    length_append_eq_iff.2 ⟨middle, hmiddle, by simp⟩
  rwa [List.append_nil] at hu

/-- A lexeme that something ends stays as it is before an end, a break, or what was
there. -/
theorem length_append_of_head (hblank : reader.HeedsBlanks) {state : State}
    {w rest rest' : List Char} (h : reader.length state (w ++ rest) = w.length)
    (hend : rest' = [] ∨ ∃ c, reader.length state (w ++ [c]) = w.length)
    (hhead : ∀ c ∈ rest'.head?, Text.isBreak c = true ∨ c ∈ rest.head?) :
    reader.length state (w ++ rest') = w.length := by
  obtain ⟨last, hlast, hrest⟩ := length_append_eq_iff.1 h
  refine length_append_eq_iff.2 ⟨last, hlast, ?_⟩
  intro c hc
  rcases hhead c hc with hcbreak | hcrest
  · rcases hend with rfl | ⟨d, hd⟩
    · simp at hc
    · obtain ⟨last', hlast', hdnone⟩ := length_append_eq_iff.1 hd
      have hsame : last' = last := Option.some.inj (hlast'.symm.trans hlast)
      subst hsame
      exact hblank.ends (hdnone d rfl) hcbreak
  · exact hrest c hcrest

theorem open_of_getLast? (hblank : reader.HeedsBlanks) {state last : State}
    {w : List Char} {b : Char} (hlast : w.foldlM reader.next state = some last)
    (hb : b ∈ w.getLast?) (hbblank : Text.isBlank b = true) : reader.Open last := by
  obtain ⟨u, rfl⟩ := List.getLast?_eq_some_iff.1 hb
  rw [List.foldlM_append, Option.bind_eq_bind, Option.bind_eq_some_iff] at hlast
  obtain ⟨middle, -, hmiddle⟩ := hlast
  exact hblank.opens hbblank (by simpa using hmiddle)

/-- A lexeme that ends in a blank ends with the text, and any character could be
added. -/
theorem length_append_of_getLast? (hblank : reader.HeedsBlanks) {state : State}
    {w rest : List Char} {b : Char} (h : reader.length state (w ++ rest) = w.length)
    (hb : b ∈ w.getLast?) (hbblank : Text.isBlank b = true) :
    rest = [] ∧ ∀ c, reader.length state (w ++ [c]) = w.length + 1 := by
  obtain ⟨last, hlast, hrest⟩ := length_append_eq_iff.1 h
  have hopen := open_of_getLast? hblank hlast hb hbblank
  constructor
  · cases rest with
    | nil => rfl
    | cons c rest =>
      have hc := hopen c
      rw [hrest c rfl] at hc
      simp at hc
  · intro c
    obtain ⟨later, hlater⟩ := Option.isSome_iff_exists.1 (hopen c)
    have hwhole : reader.length state ((w ++ [c]) ++ []) = (w ++ [c]).length := by
      refine length_append_eq_iff.2 ⟨later, ?_, by simp⟩
      rw [List.foldlM_append, hlast]
      simpa using hlater
    simpa using hwhole

/-! ## The readers of the forms -/

def run (p : Char → Bool) : Reader Unit where
  next _ c := if p c then some () else none

@[simp] theorem next_run (p : Char → Bool) (c : Char) :
    (run p).next () c = if p c then some () else none := rfl

theorem length_run (p : Char → Bool) (cs : List Char) :
    (run p).length () cs = runLength p cs := by
  induction cs with
  | nil => rfl
  | cons c cs ih =>
    rw [runLength]
    by_cases hc : p c
    · rw [if_pos hc, ← ih]
      exact length_cons_some cs (by simp [hc])
    · rw [if_neg hc]
      exact length_cons_none cs (by simp [hc])

theorem heedsBlanks_run {p : Char → Bool}
    (hp : ∀ b, Text.isBreak b = true → p b = false) : (run p).HeedsBlanks where
  ends := by
    rintro ⟨⟩ c b - hb
    simp [hp b hb]
  opens := by
    rintro ⟨⟩ later b hb h
    simp [hp b (Text.isBreak_of_isBlank hb)] at h

def through (mark : Char) : Reader Bool where
  next closed c := if closed then none else some (c == mark)

@[simp] theorem next_through_false (mark c : Char) :
    (through mark).next false c = some (c == mark) := rfl

@[simp] theorem next_through_true (mark c : Char) :
    (through mark).next true c = none := rfl

private theorem length_through_true (mark : Char) (cs : List Char) :
    (through mark).length true cs = 0 := by
  cases cs <;> simp [length]

theorem length_through (mark : Char) (cs : List Char) :
    (through mark).length false cs = lengthThrough mark cs := by
  induction cs with
  | nil => rfl
  | cons c cs ih =>
    rw [lengthThrough, length_cons_some cs (next_through_false mark c)]
    by_cases hc : c = mark
    · rw [if_pos hc, beq_iff_eq.2 hc, length_through_true]
    · rw [if_neg hc, beq_eq_false_iff_ne.2 hc, ih]

theorem heedsBlanks_through {mark : Char} (hmark : mark ∈ Text.marks) :
    (through mark).HeedsBlanks where
  ends := by
    intro closed c b hc _
    cases closed <;> simp_all
  opens := by
    intro closed later b hb h
    cases closed with
    | false =>
      rw [next_through_false, beq_eq_false_iff_ne.2 (Text.ne_of_isBlank hb hmark),
        Option.some.injEq] at h
      intro c
      simp [← h]
    | true => simp at h

/-- Reads a quoted span after its opening mark. The state says whether a mark has been
read that is either the closing one or the first half of a doubled one. -/
def quoted (mark : Char) : Reader Bool where
  next pending c :=
    if pending then (if c = mark then some false else none) else some (c == mark)

@[simp] theorem next_quoted_false (mark c : Char) :
    (quoted mark).next false c = some (c == mark) := rfl

@[simp] theorem next_quoted_true (mark c : Char) :
    (quoted mark).next true c = if c = mark then some false else none := rfl

theorem length_quoted (mark : Char) (cs : List Char) :
    (quoted mark).length false cs = quotedLength mark cs := by
  fun_induction quotedLength mark cs with
  | case1 => rfl
  | case2 c => simp [length]
  | case3 cs ih => simp [length, ih]
  | case4 d cs hd => simp [length, hd]
  | case5 c d cs hc ih =>
    rw [length_cons_some _ (next_quoted_false mark c), beq_eq_false_iff_ne.2 hc, ← ih]

theorem heedsBlanks_quoted {mark : Char} (hmark : mark ∈ Text.marks) :
    (quoted mark).HeedsBlanks where
  ends := by
    intro pending c b hc hb
    cases pending with
    | false => simp at hc
    | true => simp [Text.ne_of_isBreak hb hmark]
  opens := by
    intro pending later b hb h
    cases pending with
    | false =>
      rw [next_quoted_false, beq_eq_false_iff_ne.2 (Text.ne_of_isBlank hb hmark),
        Option.some.injEq] at h
      intro c
      simp [← h]
    | true => simp [Text.ne_of_isBlank hb hmark] at h

/-- How much of the closing pair of a span has been read. The second character of the
opening pair is no part of it. -/
inductive PairState where
  | opening
  | inside (half : Bool)
  | closed

def pair (a b : Char) : Reader PairState where
  next
    | .opening, _ => some (.inside false)
    | .inside half, c =>
      if half && c == b then some .closed else some (.inside (c == a))
    | .closed, _ => none

@[simp] theorem next_pair_opening (a b c : Char) :
    (pair a b).next .opening c = some (.inside false) := rfl

@[simp] theorem next_pair_inside (a b c : Char) (half : Bool) :
    (pair a b).next (.inside half) c =
      if half && c == b then some .closed else some (.inside (c == a)) := rfl

@[simp] theorem next_pair_closed (a b c : Char) : (pair a b).next .closed c = none :=
  rfl

private theorem length_pair_closed (a b : Char) (cs : List Char) :
    (pair a b).length .closed cs = 0 := by
  cases cs <;> simp [length]

theorem length_pair_inside (a b c : Char) (cs : List Char) :
    (pair a b).length (.inside (c == a)) cs + 1 =
      lengthThroughPair a b (c :: cs) := by
  induction cs generalizing c with
  | nil => rfl
  | cons d cs ih =>
    rw [length, next_pair_inside, lengthThroughPair]
    by_cases hpair : c = a ∧ d = b
    · rw [if_pos hpair, if_pos (by simpa using hpair)]
      simp [length_pair_closed]
    · rw [if_neg hpair, if_neg (by simpa using hpair), ← ih d]

private theorem length_pair_half (a b : Char) (cs : List Char) :
    (pair a b).length (.inside false) cs = lengthThroughPair a b cs := by
  cases cs with
  | nil => rfl
  | cons c cs =>
    rw [length, next_pair_inside, ← length_pair_inside]
    simp

theorem length_pair (a b : Char) (cs : List Char) :
    (pair a b).length .opening cs = lengthAfterPair a b cs := by
  cases cs with
  | nil => rfl
  | cons c cs =>
    rw [length, next_pair_opening, lengthAfterPair, ← length_pair_half]

theorem heedsBlanks_pair {a b : Char} (hb : b ∈ Text.marks) :
    (pair a b).HeedsBlanks where
  ends := by
    intro state c blank hc _
    cases state with
    | opening => simp at hc
    | inside half => rw [next_pair_inside] at hc; split at hc <;> simp at hc
    | closed => simp
  opens := by
    intro state later blank hblank h
    have hinside : ∃ half, later = .inside half := by
      cases state with
      | opening => exact ⟨false, by simpa using h.symm⟩
      | inside half =>
        exact ⟨blank == a, by simpa [Text.ne_of_isBlank hblank hb] using h.symm⟩
      | closed => simp at h
    obtain ⟨half, rfl⟩ := hinside
    intro c
    rw [next_pair_inside]
    split <;> rfl

/-- Reads up to the brace that closes the outermost open one. The state is the number
of open braces, or nothing behind the last one. -/
def braced : Reader (Option Nat) where
  next
    | some depth, c =>
      if c = '{' then some (some (depth + 1))
      else if c = '}' then some (if depth ≤ 1 then none else some (depth - 1))
      else some (some depth)
    | none, _ => none

@[simp] theorem next_braced_some (depth : Nat) (c : Char) :
    braced.next (some depth) c =
      if c = '{' then some (some (depth + 1))
      else if c = '}' then some (if depth ≤ 1 then none else some (depth - 1))
      else some (some depth) := rfl

@[simp] theorem next_braced_none (c : Char) : braced.next none c = none := rfl

private theorem length_braced_none (cs : List Char) : braced.length none cs = 0 := by
  cases cs <;> simp [length]

theorem length_braced (depth : Nat) (cs : List Char) :
    braced.length (some depth) cs = bracedLength depth cs := by
  induction cs generalizing depth with
  | nil => rfl
  | cons c cs ih =>
    rw [bracedLength]
    by_cases hopen : c = '{'
    · rw [if_pos hopen, ← ih]
      exact length_cons_some cs (by simp [hopen])
    · rw [if_neg hopen]
      by_cases hclose : c = '}'
      · rw [if_pos hclose]
        by_cases hdepth : depth ≤ 1
        · have hclosed : braced.next (some depth) c = some none := by
            simp [hclose, hdepth]
          rw [if_pos hdepth, length_cons_some cs hclosed, length_braced_none]
        · rw [if_neg hdepth, ← ih]
          exact length_cons_some cs (by simp [hclose, hdepth])
      · rw [if_neg hclose, ← ih]
        exact length_cons_some cs (by simp [hopen, hclose])

theorem open_braced_some (depth : Nat) : braced.Open (some depth) := by
  intro c
  rw [next_braced_some]
  split
  · rfl
  · split <;> rfl

theorem heedsBlanks_braced : braced.HeedsBlanks where
  ends := by
    intro state c b hc _
    cases state with
    | none => rfl
    | some depth =>
      have hopen := open_braced_some depth c
      simp [hc] at hopen
  opens := by
    intro state later b hb h
    cases state with
    | none => simp at h
    | some depth =>
      have hopen : b ≠ '{' := Text.ne_of_isBlank hb (by decide)
      have hclose : b ≠ '}' := Text.ne_of_isBlank hb (by decide)
      rw [next_braced_some, if_neg hopen, if_neg hclose, Option.some.injEq] at h
      rw [← h]
      exact open_braced_some depth

end Reader

/-- Whether a reader that heeds blanks reads the lexemes of a form. -/
def Form.HasReader (form : Form) : Prop :=
  ∃ (State : Type) (reader : Reader State) (start : State),
    reader.HeedsBlanks ∧ ∀ cs, form.length cs = reader.length start cs

namespace Form

theorem hasReader_blockComment : blockComment.HasReader :=
  ⟨_, Reader.pair '*' '/', .opening, Reader.heedsBlanks_pair (by decide),
    fun cs => (Reader.length_pair _ _ cs).symm⟩

theorem hasReader_quoted {mark : Char} (hmark : mark ∈ Text.marks) :
    (quoted mark).HasReader :=
  ⟨_, Reader.quoted mark, false, Reader.heedsBlanks_quoted hmark,
    fun cs => (Reader.length_quoted mark cs).symm⟩

theorem hasReader_backquoted : backquoted.HasReader :=
  ⟨_, Reader.through Lexeme.backquote, false, Reader.heedsBlanks_through (by decide),
    fun cs => (Reader.length_through _ cs).symm⟩

theorem hasReader_markedTemplate (mark : Char) : (markedTemplate mark).HasReader :=
  ⟨_, Reader.pair mark '}', .opening, Reader.heedsBlanks_pair (by decide),
    fun cs => (Reader.length_pair _ _ cs).symm⟩

theorem hasReader_bracedTemplate (depth : Nat) : (bracedTemplate depth).HasReader :=
  ⟨_, Reader.braced, some depth, Reader.heedsBlanks_braced,
    fun cs => (Reader.length_braced depth cs).symm⟩

theorem hasReader_word : word.HasReader :=
  ⟨_, Reader.run continuesWord, (),
    Reader.heedsBlanks_run fun _ => Text.continuesWord_of_isBreak,
    fun cs => (Reader.length_run _ cs).symm⟩

end Form

end SqlOutline.Token
