import JassExpr.Proofs.Phrase.Grammatical

/-!
# Leaving out parentheses

Parentheses around a part of a phrase mean nothing by themselves, so a phrase without some of them
writes the same expression if it is still one. The tokens of such a phrase are tokens of the other
one in the same order, and it is nested no deeper.
-/

namespace JassExpr

namespace Phrase

variable {τ : Type}

/-- A phrase is another one without some of its parentheses. -/
inductive Plainer : Phrase τ → Phrase τ → Prop
  | leftOut {phrase other : Phrase τ} {opening closing : τ} (inside : Plainer phrase other) :
      Plainer phrase (.group opening other closing)
  | literal {token : τ} {value : Literal} :
      Plainer (.literal token value) (.literal token value)
  | name {token : τ} {name : String} :
      Plainer (.name token name) (.name token name)
  | group {phrase other : Phrase τ} {opening closing : τ} (inside : Plainer phrase other) :
      Plainer (.group opening phrase closing) (.group opening other closing)
  | unary {operator : UnaryOp} {token : τ} {phrase other : Phrase τ}
      (inside : Plainer phrase other) :
      Plainer (.unary operator token phrase) (.unary operator token other)
  | binary {operator : BinaryOp} {token : τ} {left right left' right' : Phrase τ}
      (onLeft : Plainer left left') (onRight : Plainer right right') :
      Plainer (.binary operator left token right) (.binary operator left' token right')
  | call {callee opening closing : τ} {name : String} {arguments others : List (Phrase τ)}
      {commas : List τ} (count : arguments.length = others.length)
      (each : ∀ pair ∈ arguments.zip others, Plainer pair.1 pair.2) :
      Plainer (.call callee name opening arguments commas closing)
        (.call callee name opening others commas closing)
  | index {array opening closing : τ} {name : String} {subscript other : Phrase τ}
      (inside : Plainer subscript other) :
      Plainer (.index array name opening subscript closing)
        (.index array name opening other closing)

namespace Plainer

variable {phrase other : Phrase τ}

theorem tokens_sublist (plainer : Plainer phrase other) : phrase.tokens.Sublist other.tokens := by
  induction plainer with
  | leftOut inside ih =>
      exact (ih.trans (List.sublist_append_left _ _)).cons _
  | literal => exact List.Sublist.refl _
  | name => exact List.Sublist.refl _
  | group inside ih => exact (ih.append (List.Sublist.refl _)).cons_cons _
  | unary inside ih => exact ih.cons_cons _
  | binary onLeft onRight ihLeft ihRight => exact ihLeft.append (ihRight.cons_cons _)
  | call count each ih =>
      refine (((weave_sublist _ ?_ ?_).append (List.Sublist.refl _)).cons_cons _).cons_cons _
      · rw [tokensOfEach_eq_map, tokensOfEach_eq_map, List.length_map, List.length_map, count]
      · rw [tokensOfEach_eq_map, tokensOfEach_eq_map, List.zip_map, List.forall_mem_map]
        exact ih
  | index inside ih =>
      exact ((ih.append (List.Sublist.refl _)).cons_cons _).cons_cons _

theorem depthOfEach_le {phrases others : List (Phrase τ)} (count : phrases.length = others.length)
    (each : ∀ pair ∈ phrases.zip others, pair.1.depth ≤ pair.2.depth) :
    depthOfEach phrases ≤ depthOfEach others := by
  induction phrases generalizing others with
  | nil => exact Nat.zero_le _
  | cons first rest ih =>
      cases others with
      | nil => cases count
      | cons other others =>
          have here : first.depth ≤ other.depth := each (first, other) List.mem_cons_self
          have restLe := ih (Nat.succ.inj count) fun pair member =>
            each pair (List.mem_cons_of_mem _ member)
          simp only [depthOfEach]
          omega

theorem depth_le (plainer : Plainer phrase other) : phrase.depth ≤ other.depth := by
  induction plainer with
  | leftOut inside ih => exact Nat.le_succ_of_le ih
  | literal => exact Nat.le.refl
  | name => exact Nat.le.refl
  | group inside ih => exact Nat.succ_le_succ ih
  | unary inside ih => exact Nat.succ_le_succ ih
  | binary onLeft onRight ihLeft ihRight =>
      simp only [depth]
      omega
  | call count each ih => exact depthOfEach_le count ih
  | index inside ih => exact Nat.succ_le_succ ih

end Plainer

end Phrase

end JassExpr
