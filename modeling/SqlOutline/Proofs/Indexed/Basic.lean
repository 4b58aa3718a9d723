import SqlOutline.Proofs.Piece.Group

/-!
# Reading by index

The analyses cut lists of tokens into ever shorter lists. Read by index instead, they
keep one list and move positions over it: slices of the list, loops over its indexes,
differences of positions. Here every such use is checked when it is made, and a wrong
one is a fault that ends the reading.
-/

namespace SqlOutline.Indexed

/-- What can go wrong in a reading by index. -/
inductive Fault where
  /-- An index is not below the length. -/
  | index
  /-- The bounds of a slice are out of order, or the last one is above the length. -/
  | slice
  /-- A search for the end of a group does not begin at a `(`. -/
  | unopened
  /-- A number is taken from a smaller one. -/
  | underflow
  /-- An offset in bytes lies within a character, or past the end. -/
  | boundary
  /-- A loop does not advance, or what is nested in some tokens is not shorter than
  they are. -/
  | stuck
  deriving DecidableEq, Repr

abbrev Checked (α : Type) := Except Fault α

variable {α β : Type}

@[simp] theorem ok_bind (x : α) (f : α → Checked β) :
    (Except.ok x : Checked α) >>= f = f x := rfl

def element (xs : List α) (index : Nat) : Checked α :=
  match xs[index]? with
  | some x => .ok x
  | none => .error .index

def slice (xs : List α) (start stop : Nat) : Checked (List α) :=
  if start ≤ stop ∧ stop ≤ xs.length then .ok ((xs.take stop).drop start)
  else .error .slice

def minus (m n : Nat) : Checked Nat :=
  if n ≤ m then .ok (m - n) else .error .underflow

theorem element_eq_ok {xs : List α} {index : Nat} {x : α} (h : xs[index]? = some x) :
    element xs index = .ok x := by
  rw [element, h]

theorem slice_eq_ok {xs : List α} {start stop : Nat} (h : start ≤ stop)
    (hstop : stop ≤ xs.length) :
    slice xs start stop = .ok ((xs.drop start).take (stop - start)) := by
  rw [slice, if_pos ⟨h, hstop⟩, List.drop_take]

theorem slice_length_eq_ok {xs : List α} {start : Nat} (h : start ≤ xs.length) :
    slice xs start xs.length = .ok (xs.drop start) := by
  rw [slice_eq_ok h (Nat.le_refl _), ← List.length_drop, List.take_length]

theorem minus_eq_ok {m n : Nat} (h : n ≤ m) : minus m n = .ok (m - n) :=
  if_pos h

/-- Tokens before an index, and the token there. -/
theorem drop_eq_cons {xs : List α} {index : Nat} {x : α} (h : xs[index]? = some x) :
    xs.drop index = x :: xs.drop (index + 1) := by
  obtain ⟨hlt, rfl⟩ := List.getElem?_eq_some_iff.1 h
  exact List.drop_eq_getElem_cons hlt

/-! ## Readings one after another -/

theorem mapM_eq_ok {read : α → Checked β} {found : α → β}
    (h : ∀ x, read x = .ok (found x)) (xs : List α) :
    xs.mapM read = .ok (xs.map found) := by
  rw [funext h]
  exact List.mapM_pure

def sequence (readings : List (Checked (List α))) : Checked (List α) :=
  readings.foldr (fun reading rest => do
    let found ← reading
    let more ← rest
    .ok (found ++ more)) (.ok [])

theorem sequence_map_eq_ok {xs : List α} {read : α → Checked (List β)}
    {found : α → List β} (h : ∀ x ∈ xs, read x = .ok (found x)) :
    sequence (xs.map read) = .ok (xs.flatMap found) := by
  induction xs with
  | nil => rfl
  | cons x xs ih =>
    obtain ⟨hx, hxs⟩ := List.forall_mem_cons.1 h
    rw [List.map_cons, sequence, List.foldr_cons, hx, ok_bind, ← sequence, ih hxs]
    rfl

/-! ## Loops -/

/-- What a turn of a loop ends in: the next index with a new state, or the result. -/
inductive Turn (σ ρ : Type) where
  | next (index : Nat) (state : σ)
  | stop (result : ρ)

variable {σ ρ : Type}

/-- A loop over the indexes below a length. It may leave out indexes, but not stay at
one or go back. -/
def loop (length : Nat) (turn : Nat → σ → Checked (Turn σ ρ)) (exit : Nat → σ → ρ)
    (index : Nat) (state : σ) : Checked ρ :=
  if _ : index < length then do
    match ← turn index state with
    | .stop result => .ok result
    | .next index' state' =>
      if _ : index < index' then loop length turn exit index' state'
      else .error .stuck
  else
    .ok (exit index state)
termination_by length - index

/-- Whether a turn at an index advances and keeps an invariant, or ends the loop with
a result as wanted. -/
def Turn.Keeps (inv : Nat → σ → Prop) (post : ρ → Prop) (index : Nat) :
    Turn σ ρ → Prop
  | .next index' state => index < index' ∧ inv index' state
  | .stop result => post result

/-- A loop ends without a fault, with a result as wanted, if that is so of each turn
that begins where the invariant holds. -/
theorem exists_loop_eq_ok {length : Nat} {turn : Nat → σ → Checked (Turn σ ρ)}
    {exit : Nat → σ → ρ} {post : ρ → Prop} (inv : Nat → σ → Prop)
    (hexit : ∀ index state, length ≤ index → inv index state →
      post (exit index state))
    (hturn : ∀ index state, index < length → inv index state →
      ∃ after, turn index state = .ok after ∧ after.Keeps inv post index)
    (index : Nat) (state : σ) (h : inv index state) :
    ∃ result, loop length turn exit index state = .ok result ∧ post result := by
  fun_induction loop length turn exit index state with
  | case1 index state hindex ih =>
    obtain ⟨after, hafter, hkeeps⟩ := hturn index state hindex h
    rw [hafter, ok_bind]
    cases after with
    | stop result => exact ⟨result, rfl, hkeeps⟩
    | next index' state' =>
      simp only [hkeeps.1, ↓reduceDIte]
      exact ih index' state' hkeeps.1 hkeeps.2
  | case2 index state hindex =>
    exact ⟨_, rfl, hexit index state (Nat.le_of_not_lt hindex) h⟩

/-- The loop rule for a result that is known. -/
theorem loop_eq_ok {length : Nat} {turn : Nat → σ → Checked (Turn σ ρ)}
    {exit : Nat → σ → ρ} (inv : Nat → σ → Prop) {result : ρ}
    (hexit : ∀ index state, length ≤ index → inv index state →
      exit index state = result)
    (hturn : ∀ index state, index < length → inv index state →
      ∃ after, turn index state = .ok after ∧ after.Keeps inv (· = result) index)
    {index : Nat} {state : σ} (h : inv index state) :
    loop length turn exit index state = .ok result := by
  obtain ⟨_, hloop, rfl⟩ := exists_loop_eq_ok inv hexit hturn index state h
  exact hloop

end SqlOutline.Indexed
