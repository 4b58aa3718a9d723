import SqlOutline.Proofs.Indexed.Statement
import SqlOutline.Proofs.Piece.Cut

/-!
# Scripts by index

The statements of a script are found in one loop over its tokens, which keeps the
depth of parentheses and the index at which the statement at hand begins.
-/

namespace SqlOutline.Indexed

structure Split where
  found : List Statement
  start : Nat
  depth : Nat

def push (found : List Statement) (part : List Token) : Checked (List Statement) :=
  if part.any (!·.isTrivia) then do
    let statement ← parse Statement.nestingLimit false part
    .ok (found ++ [statement])
  else .ok found

def Split.turn (tokens : List Token) (index : Nat) (split : Split) :
    Checked (Turn Split Split) := do
  let token ← element tokens index
  if split.depth = 0 ∧ token.kind = .semicolon then do
    let part ← slice tokens split.start index
    let found ← push split.found part
    .ok (.next (index + 1) ⟨found, index + 1, 0⟩)
  else .ok (.next (index + 1) { split with depth := depthStep split.depth token })

def statements (tokens : List Token) : Checked (List Statement) := do
  let split ← loop tokens.length (Split.turn tokens) (fun _ split => split) 0
    ⟨[], 0, 0⟩
  let part ← slice tokens split.start tokens.length
  push split.found part

def ofParts (parts : List (List Token)) : List Statement :=
  (parts.filter fun part => part.any (!·.isTrivia)).map Statement.ofTokens

private theorem ofParts_cons (part : List Token) (parts : List (List Token)) :
    ofParts (part :: parts) = ofParts [part] ++ ofParts parts := by
  rw [ofParts, ofParts, ofParts, ← List.map_append, ← List.filter_append,
    List.singleton_append]

theorem push_eq_ok (found : List Statement) (part : List Token) :
    push found part = .ok (found ++ ofParts [part]) := by
  rw [push, ofParts, List.filter_singleton]
  split
  · next hpart =>
    rw [parse_eq_ok, ok_bind, hpart]
    rfl
  · next hpart =>
    rw [eq_false_of_ne_true hpart, Bool.cond_false, List.map_nil, List.append_nil]

theorem ofTokens_eq_ofParts (tokens : List Token) :
    Script.ofTokens tokens = ofParts (cutAt .semicolon 0 tokens) := by
  rw [cutAt_eq_splitOnP TokenKind.noConfusion]
  rfl

private theorem take_drop_append_singleton {tokens : List Token} {start index : Nat}
    {token : Token} (hle : start ≤ index) (htoken : tokens[index]? = some token) :
    (tokens.drop start).take (index - start) ++ [token] =
      (tokens.drop start).take (index + 1 - start) := by
  have hlast : (tokens.drop start)[index - start]? = some token := by
    rw [List.getElem?_drop, Nat.add_sub_cancel' hle, htoken]
  rw [Nat.succ_sub hle, List.take_add_one, hlast]
  rfl

def Split.Keeps (split : Split) (tokens : List Token) (index : Nat) : Prop :=
  split.start ≤ index ∧ index ≤ tokens.length ∧
    split.found ++
        ofParts ((cutAt .semicolon split.depth (tokens.drop index)).modifyHead
          ((tokens.drop split.start).take (index - split.start) ++ ·)) =
      Script.ofTokens tokens

theorem Split.Keeps.exists_turn_eq_ok {split : Split} {tokens : List Token}
    {index : Nat} (hkeeps : split.Keeps tokens index) (hlt : index < tokens.length) :
    ∃ next, split.turn tokens index = .ok (.next (index + 1) next) ∧
      next.Keeps tokens (index + 1) := by
  obtain ⟨hstart, hlength, hfound⟩ := hkeeps
  have htoken := List.getElem?_eq_getElem hlt
  rw [drop_eq_cons htoken, cutAt] at hfound
  rw [Split.turn, element_eq_ok htoken, ok_bind]
  split
  · next hcut =>
    rw [if_pos hcut, List.modifyHead_cons, List.append_nil, ofParts_cons,
      ← List.append_assoc] at hfound
    rw [slice_eq_ok hstart hlength, ok_bind, push_eq_ok, ok_bind]
    refine ⟨_, rfl, Nat.le_refl _, hlt, ?_⟩
    rw [Nat.sub_self, List.take_zero]
    exact (congrArg _ (congrArg _ (congrFun List.modifyHead_id _))).trans hfound
  · next hcut =>
    rw [if_neg hcut, List.modifyHead_modifyHead] at hfound
    refine ⟨_, rfl, Nat.le_succ_of_le hstart, hlt, ?_⟩
    rw [← take_drop_append_singleton hstart htoken]
    simpa [Function.comp_def] using hfound

theorem statements_eq_ok (tokens : List Token) :
    statements tokens = .ok (Script.ofTokens tokens) := by
  have hfirst : (⟨[], 0, 0⟩ : Split).Keeps tokens 0 :=
    ⟨Nat.le_refl _, Nat.zero_le _, by
      rw [ofTokens_eq_ofParts]
      exact congrArg ofParts (congrFun List.modifyHead_id _)⟩
  have hloop : ∃ split,
      loop tokens.length (Split.turn tokens) (fun _ split => split) 0 ⟨[], 0, 0⟩ =
        .ok split ∧
      split.Keeps tokens tokens.length :=
    exists_loop_eq_ok (fun index split => split.Keeps tokens index)
      (fun index split hle hkeeps => Nat.le_antisymm hkeeps.2.1 hle ▸ hkeeps)
      (fun index split hlt hkeeps => by
        obtain ⟨next, hnext, hnextKeeps⟩ := hkeeps.exists_turn_eq_ok hlt
        exact ⟨_, hnext, Nat.lt_succ_self _, hnextKeeps⟩) 0 _ hfirst
  obtain ⟨split, hsplit, hstart, -, hfound⟩ := hloop
  rw [List.drop_length, cutAt, List.modifyHead_cons, List.append_nil,
    ← List.length_drop, List.take_length] at hfound
  rw [statements, hsplit, ok_bind, slice_length_eq_ok hstart, ok_bind, push_eq_ok,
    hfound]

end SqlOutline.Indexed
