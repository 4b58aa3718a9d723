import Mathlib.Data.List.Forall2
import SqlOutline.Proofs.Piece.Depth
import SqlOutline.Proofs.Piece.Stretch
import SqlOutline.Proofs.Token.Significant
import SqlOutline.Statement.Kind

/-!
# What stands outside parentheses

Two token lists with the same shell differ in the contents of their groups alone. What
follows `EXCEPT` or `TOP` may be read into, so there the contents have to agree a
little more: pieces that are alike outside agree on which groups after an `EXCEPT`
open a query, and have no group after a `TOP`.
-/

namespace SqlOutline

/-- The lexemes outside parentheses where `depth` of these are open, the outermost
parentheses among them. -/
def shell : Nat → List Token → List Lexeme
  | _, [] => []
  | depth, token :: tokens =>
    let after := depthStep depth token
    if depth = 0 ∨ after = 0 then token.toLexeme :: shell after tokens
    else shell after tokens

private theorem shell_succ (depth : Nat) (tokens : List Token) :
    shell (depth + 1) tokens =
      tokens[groupLength depth tokens]?.toList.map Token.toLexeme ++
        shell 0 (tokens.drop (groupLength depth tokens + 1)) := by
  induction tokens generalizing depth with
  | nil => simp [shell]
  | cons token tokens ih =>
    rw [shell, groupLength, depthStep]
    by_cases hopens : token.opens = true
    · simp [hopens, ih]
    by_cases hcloses : token.closes = true
    · cases depth with
      | zero => simp [hopens, hcloses]
      | succ depth => simp [hopens, hcloses, ih]
    · simp [hopens, hcloses, ih]

namespace Piece

/-- The lexeme of a single token, or those of the parentheses of a group. -/
def shell : Piece → List Lexeme
  | .single token => [token.toLexeme]
  | .group opening _ closing => opening.toLexeme :: closing.toList.map Token.toLexeme

def groupsAfter (p : Lexeme → Bool) : Option Lexeme → List Piece → List (List Token)
  | _, [] => []
  | previous, .single token :: pieces =>
    groupsAfter p (if token.isTrivia then previous else some token.toLexeme) pieces
  | previous, .group _ inner _ :: pieces =>
    (if previous.any p then [inner] else []) ++ groupsAfter p none pieces

end Piece

theorem shell_zero (tokens : List Token) :
    shell 0 tokens = (Piece.ofTokens tokens).flatMap Piece.shell := by
  induction tokens using Piece.induction_ofTokens with
  | nil => rw [Piece.ofTokens_nil, shell, List.flatMap_nil]
  | group token tokens hopens ih =>
    rw [Piece.ofTokens_cons_of_opens tokens hopens, List.flatMap_cons, ← ih, shell,
      depthStep, if_pos hopens, if_pos (Or.inl rfl), shell_succ]
    rfl
  | single token tokens hopens ih =>
    have hstep : depthStep 0 token = 0 := by simp [depthStep, hopens]
    rw [Piece.ofTokens_cons_of_not_opens tokens hopens, List.flatMap_cons, ← ih,
      shell, hstep]
    rfl

def groupsAfter (p : Lexeme → Bool) (tokens : List Token) : List (List Token) :=
  Piece.groupsAfter p none (Piece.ofTokens tokens)

namespace Piece

/-- Pieces that differ in the contents of groups alone. What a group after `EXCEPT`
opens with is the same, and no group follows `TOP`. `previous` is the last significant
token before the pieces, if no group stands between. -/
inductive AlikeOutside : Option Lexeme → List Piece → List Piece → Prop
  | nil (previous : Option Lexeme) : AlikeOutside previous [] []
  | single {previous : Option Lexeme} {token token' : Token}
      {pieces pieces' : List Piece} (hopens : token.opens = false)
      (htoken : token.toLexeme = token'.toLexeme)
      (hrest : AlikeOutside (if token.isTrivia then previous else some token.toLexeme)
        pieces pieces') :
      AlikeOutside previous (.single token :: pieces) (.single token' :: pieces')
  | group {previous : Option Lexeme} {opening opening' : Token}
      {inner inner' : List Token} {closing closing' : Option Token}
      {pieces pieces' : List Piece} (hopens : opening.opens = true)
      (hopening : opening.toLexeme = opening'.toLexeme)
      (hclosing : closing.map Token.toLexeme = closing'.map Token.toLexeme)
      (hexcept : previous.any (·.isKeyword .except) = true →
        opensQuery inner = opensQuery inner')
      (htop : previous.any (·.isWord "top") = false)
      (hrest : AlikeOutside none pieces pieces') :
      AlikeOutside previous (.group opening inner closing :: pieces)
        (.group opening' inner' closing' :: pieces')

private theorem shell_drop_eq_nil {tokens : List Token} {index : Nat}
    (h : tokens[index]? = none) :
    (ofTokens (tokens.drop (index + 1))).flatMap shell = [] := by
  rw [List.drop_eq_nil_of_le (Nat.le_succ_of_le (List.getElem?_eq_none_iff.1 h)),
    ofTokens_nil, List.flatMap_nil]

theorem closing_eq_of_shell_eq {first second : List Token} {before after : Nat}
    (h : first[before]?.toList.map Token.toLexeme ++
        (ofTokens (first.drop (before + 1))).flatMap shell =
      second[after]?.toList.map Token.toLexeme ++
        (ofTokens (second.drop (after + 1))).flatMap shell) :
    first[before]?.map Token.toLexeme = second[after]?.map Token.toLexeme ∧
      (ofTokens (first.drop (before + 1))).flatMap shell =
        (ofTokens (second.drop (after + 1))).flatMap shell := by
  cases hclosing : first[before]? with
  | none =>
    cases hclosing' : second[after]? with
    | none =>
      exact ⟨rfl,
        (shell_drop_eq_nil hclosing).trans (shell_drop_eq_nil hclosing').symm⟩
    | some closing' =>
      rw [hclosing, hclosing', shell_drop_eq_nil hclosing] at h
      simp at h
  | some closing =>
    cases hclosing' : second[after]? with
    | none =>
      rw [hclosing, hclosing', shell_drop_eq_nil hclosing'] at h
      simp at h
    | some closing' =>
      rw [hclosing, hclosing'] at h
      obtain ⟨hlexeme, hrest⟩ := List.cons.inj h
      exact ⟨congrArg some hlexeme, hrest⟩

private theorem head?_flatMap_shell (tokens : List Token) :
    ((ofTokens tokens).flatMap shell).head? = tokens.head?.map Token.toLexeme := by
  cases tokens with
  | nil =>
    rw [ofTokens_nil, List.flatMap_nil, List.head?_nil, List.head?_nil,
      Option.map_none]
  | cons token tokens =>
    rw [← shell_zero, SqlOutline.shell, if_pos (Or.inl rfl), List.head?_cons,
      List.head?_cons, Option.map_some]

private theorem head?_eq_of_shell_eq {first second : List Token}
    (h : (ofTokens first).flatMap shell = (ofTokens second).flatMap shell) :
    first.head?.map Token.toLexeme = second.head?.map Token.toLexeme := by
  rw [← head?_flatMap_shell, h, head?_flatMap_shell]

/-- Tokens with the same shell are alike outside parentheses, if their groups after
`EXCEPT` and `TOP` are. -/
theorem alikeOutside_of_shell_eq {previous : Option Lexeme}
    {first second : List Token}
    (hshell : (ofTokens first).flatMap shell = (ofTokens second).flatMap shell)
    (hexcept : (groupsAfter (·.isKeyword .except) previous (ofTokens first)).map
        opensQuery =
      (groupsAfter (·.isKeyword .except) previous (ofTokens second)).map opensQuery)
    (htop : groupsAfter (·.isWord "top") previous (ofTokens first) = []) :
    AlikeOutside previous (ofTokens first) (ofTokens second) := by
  induction first using induction_ofTokens generalizing second previous with
  | nil =>
    have hhead := head?_eq_of_shell_eq hshell
    cases second with
    | nil =>
      rw [ofTokens_nil]
      exact .nil previous
    | cons token' tokens' => simp at hhead
  | group token tokens hopens ih =>
    have hhead := head?_eq_of_shell_eq hshell
    cases second with
    | nil => simp at hhead
    | cons token' tokens' =>
      have htoken : token.toLexeme = token'.toLexeme := Option.some_inj.1 hhead
      have hopens' : token'.opens = true := by rwa [← htoken]
      rw [ofTokens_cons_of_opens tokens hopens,
        ofTokens_cons_of_opens tokens' hopens'] at *
      obtain ⟨-, hshell⟩ := List.cons.inj hshell
      obtain ⟨hclosing, hrest⟩ := closing_eq_of_shell_eq hshell
      obtain ⟨htop, htopRest⟩ := List.append_eq_nil_iff.1 htop
      rw [groupsAfter, groupsAfter, List.map_append, List.map_append] at hexcept
      refine .group hopens htoken hclosing ?_ ?_ (ih hrest ?_ htopRest)
      · intro hafter
        rw [if_pos hafter, if_pos hafter] at hexcept
        exact (List.cons.inj hexcept).1
      · by_contra hafter
        rw [if_pos (by simpa using hafter)] at htop
        simp at htop
      · split at hexcept
        · exact (List.cons.inj hexcept).2
        · exact hexcept
  | single token tokens hopens ih =>
    have hhead := head?_eq_of_shell_eq hshell
    cases second with
    | nil => simp at hhead
    | cons token' tokens' =>
      have htoken : token.toLexeme = token'.toLexeme := Option.some_inj.1 hhead
      have hopens' : token'.opens = false := by rwa [← htoken]
      rw [ofTokens_cons_of_not_opens tokens hopens,
        ofTokens_cons_of_not_opens tokens' hopens'] at *
      rw [groupsAfter, groupsAfter, ← htoken] at hexcept
      exact .single hopens htoken (ih (List.cons.inj hshell).2 hexcept htop)

namespace AlikeOutside

variable {previous : Option Lexeme} {pieces pieces' : List Piece}

theorem map_eq {β : Type} {f : Piece → β} (h : AlikeOutside previous pieces pieces')
    (hsingle : ∀ token token' : Token, token.toLexeme = token'.toLexeme →
      f (.single token) = f (.single token'))
    (hgroup : ∀ opening opening' : Token, ∀ inner inner' closing closing',
      f (.group opening inner closing) = f (.group opening' inner' closing')) :
    pieces.map f = pieces'.map f := by
  induction h with
  | nil => rfl
  | single hopens htoken hrest ih =>
    rw [List.map_cons, List.map_cons, ih, hsingle _ _ htoken]
  | group hopens hopening hclosing hexcept htop hrest ih =>
    rw [List.map_cons, List.map_cons, ih, hgroup]

theorem map_keyword?_eq (h : AlikeOutside previous pieces pieces') :
    pieces.map keyword? = pieces'.map keyword? :=
  h.map_eq (fun _ _ htoken => by rw [keyword?, htoken, keyword?])
    fun _ _ _ _ _ _ => rfl

theorem map_isTrivia_eq (h : AlikeOutside previous pieces pieces') :
    pieces.map isTrivia = pieces'.map isTrivia :=
  h.map_eq (fun _ _ htoken => by rw [isTrivia, htoken, isTrivia])
    fun _ _ _ _ _ _ => rfl

theorem significant (h : AlikeOutside previous pieces pieces') :
    AlikeOutside previous (significant pieces) (significant pieces') := by
  induction h with
  | nil previous => exact .nil previous
  | @single previous token token' pieces pieces' hopens htoken hrest ih =>
    by_cases htrivia : token.isTrivia = true
    · have htrivia' : token'.isTrivia = true := by rwa [← htoken]
      rw [if_pos htrivia] at ih
      simpa [Piece.significant, Piece.isTrivia, htrivia, htrivia'] using ih
    · have htrivia' : ¬ token'.isTrivia = true := by rwa [← htoken]
      have hpiece := AlikeOutside.single hopens htoken ih
      simpa [Piece.significant, Piece.isTrivia, htrivia, htrivia'] using hpiece
  | group hopens hopening hclosing hexcept htop hrest ih =>
    exact .group hopens hopening hclosing hexcept htop ih

theorem take (h : AlikeOutside previous pieces pieces') (count : Nat) :
    AlikeOutside previous (pieces.take count) (pieces'.take count) := by
  induction h generalizing count with
  | nil previous => simpa using AlikeOutside.nil previous
  | single hopens htoken hrest ih =>
    cases count with
    | zero => exact .nil _
    | succ count => exact .single hopens htoken (ih count)
  | group hopens hopening hclosing hexcept htop hrest ih =>
    cases count with
    | zero => exact .nil _
    | succ count => exact .group hopens hopening hclosing hexcept htop (ih count)

theorem exists_drop (h : AlikeOutside previous pieces pieces') (count : Nat) :
    ∃ last, AlikeOutside last (pieces.drop count) (pieces'.drop count) := by
  induction h generalizing count with
  | nil previous => exact ⟨previous, by simpa using AlikeOutside.nil previous⟩
  | single hopens htoken hrest ih =>
    cases count with
    | zero => exact ⟨_, .single hopens htoken hrest⟩
    | succ count => exact ih count
  | group hopens hopening hclosing hexcept htop hrest ih =>
    cases count with
    | zero => exact ⟨_, .group hopens hopening hclosing hexcept htop hrest⟩
    | succ count => exact ih count

theorem map_toLexeme_eq (h : AlikeOutside previous pieces pieces')
    (hsingle : ∀ piece ∈ pieces, piece.isGroup = false) :
    (pieces.flatMap tokens).map Token.toLexeme =
      (pieces'.flatMap tokens).map Token.toLexeme := by
  induction h with
  | nil => rfl
  | single hopens htoken hrest ih =>
    have hrest := ih fun piece hpiece => hsingle piece (List.mem_cons_of_mem _ hpiece)
    simpa [tokens, htoken] using hrest
  | group => simpa [isGroup] using hsingle _ (List.mem_cons_self ..)

end AlikeOutside

end Piece

end SqlOutline
