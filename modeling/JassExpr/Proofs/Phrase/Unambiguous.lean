import Mathlib.Data.List.Induction
import JassExpr.Proofs.Phrase.Accepts
import JassExpr.Proofs.Phrase.Folding

/-!
# The grammar is unambiguous

Folding loses nothing: a derivation can be told from its phrase, since the first operand of a
chain binds more tightly than the operators of that chain. And a phrase can be told from its
tokens, since reading them leads back to it. So what is accepted has one derivation, and the tree
that is built is the tree of that derivation.
-/

namespace JassExpr

/-- Lists are equal when a function agrees on them that tells their members apart. -/
theorem eq_of_map_eq {α β : Type} {function : α → β} {first second : List α}
    (apart : ∀ left ∈ first, ∀ right ∈ second, function left = function right → left = right)
    (same : first.map function = second.map function) : first = second := by
  induction first generalizing second with
  | nil => simpa [eq_comm] using same
  | cons left rest ih =>
      cases second with
      | nil => cases same
      | cons right others =>
          obtain ⟨sameHere, sameRest⟩ := List.cons.inj same
          rw [apart left (by simp) right (by simp) sameHere, ih ?_ sameRest]
          intro left inRest right inOthers
          exact apart left (List.mem_cons_of_mem _ inRest) right (List.mem_cons_of_mem _ inOthers)

namespace Phrase

/-- The operands of a chain can be told from the phrase that they fold to when the first of them
is no part of the same chain. -/
theorem foldl_extend_injective {precedence : Nat} {first second : Phrase Token}
    {links others : List (Link (Phrase Token))}
    (tightFirst : precedence < first.level) (tightSecond : precedence < second.level)
    (same : ∀ link ∈ links, link.operator.precedence = precedence)
    (sameOthers : ∀ link ∈ others, link.operator.precedence = precedence)
    (equal : links.foldl extend first = others.foldl extend second) :
    first = second ∧ links = others := by
  have loose : ∀ {init : List (Link (Phrase Token))} {link : Link (Phrase Token)}
      {left whole : Phrase Token}, link.operator.precedence = precedence →
        precedence < whole.level → whole ≠ (init ++ [link]).foldl extend left := by
    rintro init link left _ isSame tight rfl
    rw [List.foldl_append] at tight
    exact absurd isSame (Nat.ne_of_gt tight)
  -- The last link stands outermost in the phrase, so both chains are taken apart from the end.
  induction links using List.reverseRecOn generalizing others with
  | nil =>
      induction others using List.reverseRecOn with
      | nil => exact ⟨equal, rfl⟩
      | append_singleton init link _ =>
          exact absurd equal (loose (sameOthers link (by simp)) tightFirst)
  | append_singleton init link ih =>
      induction others using List.reverseRecOn with
      | nil => exact absurd equal.symm (loose (same link (by simp)) tightSecond)
      | append_singleton init' link' _ =>
          rw [List.foldl_append, List.foldl_append] at equal
          obtain ⟨sameOperator, sameLeft, sameToken, sameRight⟩ := Phrase.binary.inj equal
          obtain ⟨rfl, rfl⟩ := ih (fun other member => same other (by simp [member]))
            (fun other member => sameOthers other (by simp [member])) sameLeft
          obtain ⟨operator, token, operand⟩ := link
          subst sameOperator sameToken sameRight
          exact ⟨rfl, rfl⟩

end Phrase

namespace Derives

open JassExpr.Derivation

/-- No primary is written with an operator in front. -/
theorem phrase_ne_unary {derivation : Derivation} (derives : Derives .primary derivation)
    {operator : UnaryOp} {token : Token} {operand : Phrase Token} :
    derivation.phrase ≠ .unary operator token operand := by
  intro same
  have tight := derives.grammatical.2
  rw [same] at tight
  exact absurd tight (Nat.not_succ_le_self _)

theorem eq_literal {derivation : Derivation} (derives : Derives .primary derivation)
    {token : Token} {value : Literal} (same : derivation.phrase = .literal token value) :
    derivation = .literal token value := by
  cases derives with
  | chain chains => cases chains
  | literal reads | constant word reads =>
      cases same
      rfl
  | _ => cases same

/-- The derivations from a nonterminal can be told apart by the phrases that they fold to. -/
theorem eq_of_phrase_eq {nonterminal : Nonterminal} {first second : Derivation}
    (derives : Derives nonterminal first) (derives' : Derives nonterminal second)
    (same : first.phrase = second.phrase) : first = second := by
  induction derives generalizing second with
  | @chain outer inner first others chains count operators writes head operands ihHead ihOperands =>
      cases derives' with
      | @chain _ inner' second others' chains' count' operators' writes' head' operands' =>
          obtain rfl := Option.some.inj (chains.symm.trans chains')
          have between := Nonterminal.level_of_operand? chains
          rw [Derivation.phrase, Derivation.phrase, phraseOfLinks_eq_map,
            phraseOfLinks_eq_map] at same
          obtain ⟨sameHead, sameLinks⟩ := Phrase.foldl_extend_injective
            (Nat.lt_of_lt_of_le (by omega) head.grammatical.2)
            (Nat.lt_of_lt_of_le (by omega) head'.grammatical.2)
            (List.forall_mem_map.mpr fun link member =>
              (Nonterminal.mem_operators_iff chains).mp (operators link member))
            (List.forall_mem_map.mpr fun link member =>
              (Nonterminal.mem_operators_iff chains).mp (operators' link member)) same
          rw [ihHead head' sameHead, eq_of_map_eq ?_ sameLinks]
          intro left inLinks right inOthers sameLink
          obtain ⟨sameOperator, sameToken, sameOperand⟩ := Link.mk.inj sameLink
          have sameDerivation := ihOperands left inLinks (operands' right inOthers) sameOperand
          cases left
          cases right
          cases sameOperator
          cases sameToken
          cases sameDerivation
          rfl
      | _ => cases chains
  | @applied operator token operand writes inside ih =>
      cases derives' with
      | chain chains => cases chains
      | applied writes' inside' =>
          obtain ⟨rfl, rfl, sameOperand⟩ := Phrase.unary.inj same
          rw [ih inside' sameOperand]
      | primary inside' => exact absurd same.symm inside'.phrase_ne_unary
  | primary inside ih =>
      cases derives' with
      | chain chains => cases chains
      | applied writes' inside' => exact absurd same inside.phrase_ne_unary
      | primary inside' => exact ih inside' same
  | literal reads => exact (derives'.eq_literal same.symm).symm
  | constant word reads => exact (derives'.eq_literal same.symm).symm
  | group opens closes inside ih =>
      cases derives' with
      | chain chains => cases chains
      | group opens' closes' inside' =>
          obtain ⟨rfl, sameInner, rfl⟩ := Phrase.group.inj same
          rw [ih inside' sameInner]
      | _ => cases same
  | call word free opens closes separate count inside ih =>
      cases derives' with
      | chain chains => cases chains
      | call word' free' opens' closes' separate' count' inside' =>
          obtain ⟨rfl, -, rfl, sameArguments, rfl, rfl⟩ := Phrase.call.inj same
          rw [phraseOfEach_eq_map, phraseOfEach_eq_map] at sameArguments
          rw [eq_of_map_eq (fun left inLeft right inRight =>
            ih left inLeft (inside' right inRight)) sameArguments]
      | _ => cases same
  | index word free opens closes inside ih =>
      cases derives' with
      | chain chains => cases chains
      | index word' free' opens' closes' inside' =>
          obtain ⟨rfl, -, rfl, sameSubscript, rfl⟩ := Phrase.index.inj same
          rw [ih inside' sameSubscript]
      | _ => cases same
  | name word free =>
      cases derives' with
      | chain chains => cases chains
      | name word' free' =>
          cases same
          rfl
      | _ => cases same

end Derives

/-- Tokens are accepted as one expression just when the whole grammar derives them with no more
nested steps than are allowed. What is built is the phrase that the derivation folds to, with the
tree of the derivation, and no tokens have two derivations. -/
theorem parseExpression_eq_ok_iff_derives (tokens : List Token) :
    (∀ phrase, parseExpression tokens = .ok phrase ↔
      ∃ derivation, Derives .disjunction derivation ∧ derivation.tokens = tokens ∧
        derivation.depth ≤ defaultLimit ∧ derivation.phrase = phrase ∧
          derivation.expr = phrase.expr) ∧
    ∀ first second, Derives .disjunction first → Derives .disjunction second →
      first.tokens = tokens → second.tokens = tokens → first = second := by
  constructor
  · intro phrase
    rw [parseExpression_eq_ok_iff]
    constructor
    · rintro ⟨whole, grammatical, shallow⟩
      obtain ⟨derivation, derives, rfl⟩ :=
        Derives.exists_of_grammatical grammatical .disjunction phrase.one_le_level
      rw [derivation.tokens_phrase] at whole
      rw [derivation.depth_phrase] at shallow
      exact ⟨derivation, derives, whole, shallow, rfl, derivation.expr_phrase.symm⟩
    · rintro ⟨derivation, derives, whole, shallow, rfl, -⟩
      rw [derivation.tokens_phrase, derivation.depth_phrase]
      exact ⟨whole, derives.grammatical.1, shallow⟩
  · intro first second derives derives' whole whole'
    apply derives.eq_of_phrase_eq derives'
    apply derives.grammatical.1.eq_of_tokens_eq derives'.grammatical.1
    rw [first.tokens_phrase, second.tokens_phrase, whole, whole']

end JassExpr
