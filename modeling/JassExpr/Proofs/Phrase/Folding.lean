import JassExpr.Proofs.Phrase.Derivation
import JassExpr.Proofs.Phrase.Grammatical

/-!
# Derivations and phrases

Grouping the chains of a derivation to the left makes a phrase of it. The phrase is grammatical,
binds as tightly as its nonterminal asks for and has the tokens, the depth and the tree of the
derivation, and every grammatical phrase is made that way.
-/

namespace JassExpr

/-- Goes on with a chain whose phrase so far is on the left. -/
def Phrase.extend (left : Phrase Token) (link : Link (Phrase Token)) : Phrase Token :=
  .binary link.operator left link.token link.operand

namespace Derivation

mutual

/-- The phrase that a derivation folds to, with chains grouped to the left. -/
def phrase : Derivation → Phrase Token
  | literal token value => .literal token value
  | name token => .name token token.text
  | group opening inner closing => .group opening inner.phrase closing
  | call callee opening arguments commas closing =>
      .call callee callee.text opening (phraseOfEach arguments) commas closing
  | index array opening subscript closing =>
      .index array array.text opening subscript.phrase closing
  | applied operator token operand => .unary operator token operand.phrase
  | chain first others => (phraseOfLinks others).foldl Phrase.extend first.phrase

def phraseOfEach : List Derivation → List (Phrase Token)
  | [] => []
  | first :: rest => first.phrase :: phraseOfEach rest

def phraseOfLinks : List (Link Derivation) → List (Link (Phrase Token))
  | [] => []
  | ⟨operator, token, operand⟩ :: rest => ⟨operator, token, operand.phrase⟩ :: phraseOfLinks rest

end

/-- The further operand of a chain with its phrase in place of its derivation. -/
def linkPhrase (link : Link Derivation) : Link (Phrase Token) :=
  ⟨link.operator, link.token, link.operand.phrase⟩

theorem phraseOfEach_eq_map (derivations : List Derivation) :
    phraseOfEach derivations = derivations.map phrase := by
  induction derivations with
  | nil => rfl
  | cons first rest ih => simp [phraseOfEach, ih]

theorem phraseOfLinks_eq_map (links : List (Link Derivation)) :
    phraseOfLinks links = links.map linkPhrase := by
  induction links with
  | nil => rfl
  | cons first rest ih => simp [phraseOfLinks, linkPhrase, ih]

theorem tokens_chain {first : Derivation} {others : List (Link Derivation)}
    (sameFirst : first.phrase.tokens = first.tokens)
    (sameOthers : ∀ link ∈ others, link.operand.phrase.tokens = link.operand.tokens) :
    ((phraseOfLinks others).foldl Phrase.extend first.phrase).tokens =
      first.tokens ++ tokensOfLinks others := by
  rw [← sameFirst]
  generalize first.phrase = left
  induction others generalizing left with
  | nil => simp [phraseOfLinks, tokensOfLinks]
  | cons link rest ih =>
      obtain ⟨same, sameRest⟩ := List.forall_mem_cons.mp sameOthers
      simp [phraseOfLinks, tokensOfLinks, ih sameRest, Phrase.extend, Phrase.tokens, same]

/-- A derivation and its phrase have the same tokens. -/
theorem tokens_phrase (derivation : Derivation) :
    derivation.phrase.tokens = derivation.tokens := by
  induction derivation with
  | literal token value => rfl
  | name token => rfl
  | group opening inner closing ih => simp [phrase, tokens, Phrase.tokens, ih]
  | call callee opening arguments commas closing ih =>
      have each : Phrase.tokensOfEach (phraseOfEach arguments) = tokensOfEach arguments := by
        induction arguments with
        | nil => rfl
        | cons first rest ihRest =>
            obtain ⟨same, sameRest⟩ := List.forall_mem_cons.mp ih
            simp [phraseOfEach, Phrase.tokensOfEach, tokensOfEach, same, ihRest sameRest]
      simp [phrase, tokens, Phrase.tokens, each]
  | index array opening subscript closing ih => simp [phrase, tokens, Phrase.tokens, ih]
  | applied operator token operand ih => simp [phrase, tokens, Phrase.tokens, ih]
  | chain first others ih ihOthers => exact tokens_chain ih ihOthers

theorem depth_chain {first : Derivation} {others : List (Link Derivation)}
    (sameFirst : first.phrase.depth = first.depth)
    (sameOthers : ∀ link ∈ others, link.operand.phrase.depth = link.operand.depth) :
    ((phraseOfLinks others).foldl Phrase.extend first.phrase).depth =
      max first.depth (depthOfLinks others) := by
  rw [← sameFirst]
  generalize first.phrase = left
  induction others generalizing left with
  | nil => simp [phraseOfLinks, depthOfLinks]
  | cons link rest ih =>
      obtain ⟨same, sameRest⟩ := List.forall_mem_cons.mp sameOthers
      simp [phraseOfLinks, depthOfLinks, ih sameRest, Phrase.extend, Phrase.depth, same,
        Nat.max_assoc]

/-- The steps that a derivation takes to operands, arguments and into brackets are the levels of
its phrase. -/
theorem depth_phrase (derivation : Derivation) :
    derivation.phrase.depth = derivation.depth := by
  induction derivation with
  | literal token value => rfl
  | name token => rfl
  | group opening inner closing ih => simp [phrase, depth, Phrase.depth, ih]
  | call callee opening arguments commas closing ih =>
      have each : Phrase.depthOfEach (phraseOfEach arguments) = depthOfEach arguments := by
        induction arguments with
        | nil => rfl
        | cons first rest ihRest =>
            obtain ⟨same, sameRest⟩ := List.forall_mem_cons.mp ih
            simp [phraseOfEach, Phrase.depthOfEach, depthOfEach, same, ihRest sameRest]
      simp [phrase, depth, Phrase.depth, each]
  | index array opening subscript closing ih => simp [phrase, depth, Phrase.depth, ih]
  | applied operator token operand ih => simp [phrase, depth, Phrase.depth, ih]
  | chain first others ih ihOthers => exact depth_chain ih ihOthers

theorem expr_chain {first : Derivation} {others : List (Link Derivation)}
    (sameFirst : first.phrase.expr = first.expr)
    (sameOthers : ∀ link ∈ others, link.operand.phrase.expr = link.operand.expr) :
    ((phraseOfLinks others).foldl Phrase.extend first.phrase).expr =
      (exprOfLinks others).foldl (fun left link => .binary link.operator left link.operand)
        first.expr := by
  rw [← sameFirst]
  generalize first.phrase = left
  induction others generalizing left with
  | nil => rfl
  | cons link rest ih =>
      obtain ⟨same, sameRest⟩ := List.forall_mem_cons.mp sameOthers
      simp [phraseOfLinks, exprOfLinks, ih sameRest, Phrase.extend, Phrase.expr, same]

/-- The phrase of a derivation writes the tree of that derivation. -/
theorem expr_phrase (derivation : Derivation) :
    derivation.phrase.expr = derivation.expr := by
  induction derivation with
  | literal token value => rfl
  | name token => rfl
  | group opening inner closing ih => simp [phrase, expr, Phrase.expr, ih]
  | call callee opening arguments commas closing ih =>
      have each : Phrase.exprOfEach (phraseOfEach arguments) = exprOfEach arguments := by
        induction arguments with
        | nil => rfl
        | cons first rest ihRest =>
            obtain ⟨same, sameRest⟩ := List.forall_mem_cons.mp ih
            simp [phraseOfEach, Phrase.exprOfEach, exprOfEach, same, ihRest sameRest]
      simp [phrase, expr, Phrase.expr, each]
  | index array opening subscript closing ih => simp [phrase, expr, Phrase.expr, ih]
  | applied operator token operand ih => simp [phrase, expr, Phrase.expr, ih]
  | chain first others ih ihOthers => exact expr_chain ih ihOthers

end Derivation

namespace Nonterminal

/-- How tightly the phrases of a nonterminal bind at least. -/
def level : Nonterminal → Nat
  | disjunction => BinaryOp.or.precedence
  | conjunction => BinaryOp.and.precedence
  | relation => BinaryOp.comparisonPrecedence
  | sum => BinaryOp.add.precedence
  | product => BinaryOp.multiply.precedence
  | unary => BinaryOp.operandPrecedence
  | primary => BinaryOp.operandPrecedence + 1

theorem level_injective {first second : Nonterminal} (same : first.level = second.level) :
    first = second := by
  cases first <;> cases second <;> first | rfl | exact absurd same (by decide)

theorem level_le_primary (nonterminal : Nonterminal) : nonterminal.level ≤ primary.level := by
  cases nonterminal <;> decide

theorem level_of_operand? {outer inner : Nonterminal} (chains : outer.operand? = some inner) :
    inner.level = outer.level + 1 := by
  cases outer <;> cases chains <;> rfl

/-- The operators of a chain are those of one precedence. -/
theorem mem_operators_iff {outer inner : Nonterminal} (chains : outer.operand? = some inner)
    {operator : BinaryOp} :
    operator ∈ outer.operators ↔ operator.precedence = outer.level := by
  cases outer <;> cases chains <;> cases operator <;> decide

theorem allows_of_ne {outer : Nonterminal} {count : Nat} (several : outer ≠ relation) :
    outer.Allows count := by
  cases outer with
  | relation => exact absurd rfl several
  | _ => trivial

/-- Every binary operator stands in the chains of one nonterminal. -/
theorem exists_operand?_eq_some (operator : BinaryOp) :
    ∃ outer inner : Nonterminal, outer.operand? = some inner ∧
      outer.level = operator.precedence := by
  cases operator with
  | or => exact ⟨disjunction, conjunction, rfl, rfl⟩
  | and => exact ⟨conjunction, relation, rfl, rfl⟩
  | add | subtract => exact ⟨sum, product, rfl, rfl⟩
  | multiply | divide => exact ⟨product, unary, rfl, rfl⟩
  | _ => exact ⟨relation, sum, rfl, rfl⟩

end Nonterminal

namespace Derives

open JassExpr.Derivation

/-- Going on with a chain that groups to the left keeps to the grammar at each step. -/
theorem grammatical_foldl {precedence : Nat}
    (groups : precedence ≠ BinaryOp.comparisonPrecedence)
    {left : Phrase Token} {links : List (Link (Phrase Token))}
    (same : ∀ link ∈ links, link.operator.precedence = precedence)
    (writes : ∀ link ∈ links, link.token.kind = link.operator.kind)
    (tight : ∀ link ∈ links, precedence + 1 ≤ link.operand.level)
    (operands : ∀ link ∈ links, link.operand.Grammatical Token.toLexeme)
    (tightLeft : precedence ≤ left.level) (onLeft : left.Grammatical Token.toLexeme) :
    (links.foldl Phrase.extend left).Grammatical Token.toLexeme ∧
      precedence ≤ (links.foldl Phrase.extend left).level := by
  induction links generalizing left with
  | nil => exact ⟨onLeft, tightLeft⟩
  | cons link rest ih =>
      obtain ⟨sameHere, sameRest⟩ := List.forall_mem_cons.mp same
      obtain ⟨writesHere, writesRest⟩ := List.forall_mem_cons.mp writes
      obtain ⟨tightHere, tightRest⟩ := List.forall_mem_cons.mp tight
      obtain ⟨onRight, operandsRest⟩ := List.forall_mem_cons.mp operands
      subst sameHere
      refine ih sameRest writesRest tightRest operandsRest Nat.le.refl ?_
      refine .binary writesHere ?_ tightHere onLeft onRight
      rw [BinaryOp.leftPrecedence_of_ne groups]
      exact tightLeft

/-- The phrase of a chain is grammatical when its operands are. -/
theorem grammatical_chain {outer inner : Nonterminal} {first : Derivation}
    {others : List (Link Derivation)} (chains : outer.operand? = some inner)
    (count : outer.Allows others.length)
    (operators : ∀ link ∈ others, link.operator ∈ outer.operators)
    (writes : ∀ link ∈ others, link.token.kind = link.operator.kind)
    (head : first.phrase.Grammatical Token.toLexeme ∧ inner.level ≤ first.phrase.level)
    (operands : ∀ link ∈ others, link.operand.phrase.Grammatical Token.toLexeme ∧
      inner.level ≤ link.operand.phrase.level) :
    (Derivation.chain first others).phrase.Grammatical Token.toLexeme ∧
      outer.level ≤ (Derivation.chain first others).phrase.level := by
  rw [Nonterminal.level_of_operand? chains] at head operands
  rw [Derivation.phrase, phraseOfLinks_eq_map]
  by_cases compares : outer = .relation
  · -- Comparisons do not group, but there is one at most.
    subst compares
    match others with
    | [] => exact ⟨head.1, Nat.le_of_succ_le head.2⟩
    | [link] =>
        have same := (Nonterminal.mem_operators_iff chains).mp (operators link (by simp))
        obtain ⟨onRight, tightRight⟩ := operands link (by simp)
        refine ⟨.binary (writes link (by simp)) ?_ ?_ head.1 onRight, Nat.le_of_eq same.symm⟩
        · rw [linkPhrase, BinaryOp.leftPrecedence_of_eq same, same]
          exact head.2
        · rw [linkPhrase, BinaryOp.rightPrecedence, same]
          exact tightRight
    | _ :: _ :: _ => exact absurd count (by simp [Nonterminal.Allows])
  · have groups : outer.level ≠ BinaryOp.comparisonPrecedence := fun same =>
      compares (Nonterminal.level_injective same)
    refine grammatical_foldl groups ?_ ?_ ?_ ?_ (Nat.le_of_succ_le head.2) head.1
    · exact List.forall_mem_map.mpr fun link member =>
        (Nonterminal.mem_operators_iff chains).mp (operators link member)
    · exact List.forall_mem_map.mpr writes
    · exact List.forall_mem_map.mpr fun link member => (operands link member).2
    · exact List.forall_mem_map.mpr fun link member => (operands link member).1

/-- What is derived from a nonterminal is a grammatical phrase that binds as tightly as that. -/
theorem grammatical {nonterminal : Nonterminal} {derivation : Derivation}
    (derives : Derives nonterminal derivation) :
    derivation.phrase.Grammatical Token.toLexeme ∧
      nonterminal.level ≤ derivation.phrase.level := by
  induction derives with
  | chain chains count operators writes head operands ihHead ihOperands =>
      exact grammatical_chain chains count operators writes ihHead ihOperands
  | applied writes inside ih => exact ⟨.unary writes ih.2 ih.1, Nat.le.refl⟩
  | primary inside ih => exact ⟨ih.1, Nat.le_of_succ_le ih.2⟩
  | literal reads => exact ⟨.literal reads, Nat.le.refl⟩
  | constant word reads => exact ⟨.constant word reads, Nat.le.refl⟩
  | group opens closes inside ih => exact ⟨.group opens closes ih.1, Nat.le.refl⟩
  | call word free opens closes separate count inside ih =>
      refine ⟨.call word free rfl opens closes separate ?_ ?_, Nat.le.refl⟩
      · rw [phraseOfEach_eq_map, List.length_map]
        exact count
      · rw [phraseOfEach_eq_map]
        exact List.forall_mem_map.mpr fun argument member => (ih argument member).1
  | index word free opens closes inside ih =>
      exact ⟨.index word free rfl opens closes ih.1, Nat.le.refl⟩
  | name word free => exact ⟨.name word free rfl, Nat.le.refl⟩

/-- Every nonterminal but the tightest derives the phrases that the next tighter one derives. -/
theorem exists_looser {nonterminal : Nonterminal} (loose : nonterminal ≠ .primary) :
    ∃ next : Nonterminal, next.level = nonterminal.level + 1 ∧
      ∀ derivation, Derives next derivation →
        ∃ looser, Derives nonterminal looser ∧ looser.phrase = derivation.phrase := by
  cases chains : nonterminal.operand? with
  | some inner =>
      refine ⟨inner, Nonterminal.level_of_operand? chains, fun derivation derives =>
        ⟨.chain derivation [], ?_, rfl⟩⟩
      refine .chain chains ?_ (by simp) (by simp) derives (by simp)
      cases nonterminal <;> simp [Nonterminal.Allows]
  | none =>
      cases nonterminal with
      | unary =>
          exact ⟨.primary, rfl, fun derivation derives => ⟨derivation, .primary derives, rfl⟩⟩
      | primary => exact absurd rfl loose
      | _ => cases chains

/-- A nonterminal derives the phrases of all tighter ones. -/
theorem exists_of_level_le {loose : Nonterminal} (tight : Nonterminal)
    (below : loose.level ≤ tight.level)
    {derivation : Derivation} (derives : Derives tight derivation) :
    ∃ looser, Derives loose looser ∧ looser.phrase = derivation.phrase := by
  obtain ⟨gap, same⟩ := Nat.exists_eq_add_of_le below
  induction gap generalizing loose with
  | zero =>
      obtain rfl := Nonterminal.level_injective same
      exact ⟨derivation, derives, rfl⟩
  | succ gap ih =>
      have notPrimary : loose ≠ .primary := by
        rintro rfl
        have tightest := tight.level_le_primary
        omega
      obtain ⟨next, levelNext, step⟩ := exists_looser notPrimary
      obtain ⟨between, derivesNext, samePhrase⟩ := @ih next (by omega) (by omega)
      obtain ⟨looser, derivesLoose, sameLoose⟩ := step between derivesNext
      exact ⟨looser, derivesLoose, sameLoose.trans samePhrase⟩

/-- A chain can be left open for one more operand, unless it is a comparison that has two. -/
theorem exists_open_chain {outer inner : Nonterminal} (chains : outer.operand? = some inner)
    {operator : BinaryOp} (same : outer.level = operator.precedence) {left : Phrase Token}
    (tight : operator.leftPrecedence ≤ left.level)
    (derivable : ∀ nonterminal : Nonterminal, nonterminal.level ≤ left.level →
      ∃ derivation, Derives nonterminal derivation ∧ derivation.phrase = left) :
    ∃ first others, Derives outer (.chain first others) ∧
      (Derivation.chain first others).phrase = left ∧ outer.Allows (others.length + 1) := by
  by_cases compares : outer = .relation
  · subst compares
    rw [BinaryOp.leftPrecedence_of_eq same.symm, ← same,
      ← Nonterminal.level_of_operand? chains] at tight
    obtain ⟨derivation, derives, samePhrase⟩ := derivable inner tight
    exact ⟨derivation, [], .chain chains (Nat.zero_le 1) (by simp) (by simp) derives (by simp),
      samePhrase, Nat.le.refl⟩
  · have groups : operator.precedence ≠ BinaryOp.comparisonPrecedence := fun compare =>
      compares (Nonterminal.level_injective (same.trans compare))
    rw [BinaryOp.leftPrecedence_of_ne groups, ← same] at tight
    obtain ⟨derivation, derives, samePhrase⟩ := derivable outer tight
    have several : ∀ count, outer.Allows count := fun _ => Nonterminal.allows_of_ne compares
    cases derives with
    | @chain _ _ first others chains count operators writes head operands =>
        exact ⟨first, others, .chain chains count operators writes head operands, samePhrase,
          several _⟩
    | _ => cases chains

/-- A derived chain with room for one more operand derives that as well. -/
theorem snoc {outer inner : Nonterminal} (chains : outer.operand? = some inner)
    {first : Derivation} {others : List (Link Derivation)}
    (derives : Derives outer (.chain first others)) (link : Link Derivation)
    (count : outer.Allows (others.length + 1)) (operator : link.operator ∈ outer.operators)
    (writes : link.token.kind = link.operator.kind) (operand : Derives inner link.operand) :
    Derives outer (.chain first (others ++ [link])) := by
  cases derives with
  | chain chains' count' operators' writes' head operands =>
      obtain rfl := Option.some.inj (chains.symm.trans chains')
      refine .chain chains (by simpa using count) ?_ ?_ head ?_
      · exact List.forall_mem_append.mpr ⟨operators', by simpa using operator⟩
      · exact List.forall_mem_append.mpr ⟨writes', by simpa using writes⟩
      · exact List.forall_mem_append.mpr ⟨operands, by simpa using operand⟩
  | primary inside => cases chains

theorem phrase_snoc (first : Derivation) (others : List (Link Derivation))
    (link : Link Derivation) :
    (Derivation.chain first (others ++ [link])).phrase =
      (Derivation.chain first others).phrase.extend (linkPhrase link) := by
  simp [Derivation.phrase, phraseOfLinks_eq_map]

theorem exists_each {nonterminal : Nonterminal} {phrases : List (Phrase Token)}
    (each : ∀ phrase ∈ phrases,
      ∃ derivation, Derives nonterminal derivation ∧ derivation.phrase = phrase) :
    ∃ derivations, (∀ derivation ∈ derivations, Derives nonterminal derivation) ∧
      phraseOfEach derivations = phrases := by
  induction phrases with
  | nil => exact ⟨[], by simp, rfl⟩
  | cons first rest ih =>
      obtain ⟨⟨derivation, derives, same⟩, eachRest⟩ := List.forall_mem_cons.mp each
      obtain ⟨derivations, derivesRest, sameRest⟩ := ih eachRest
      exact ⟨derivation :: derivations, List.forall_mem_cons.mpr ⟨derives, derivesRest⟩, by
        rw [phraseOfEach, same, sameRest]⟩

/-- Every grammatical phrase is derived from each nonterminal that it binds as tightly as. -/
theorem exists_of_grammatical {phrase : Phrase Token}
    (grammatical : phrase.Grammatical Token.toLexeme) :
    ∀ nonterminal : Nonterminal, nonterminal.level ≤ phrase.level →
      ∃ derivation, Derives nonterminal derivation ∧ derivation.phrase = phrase := by
  induction grammatical with
  | @literal token value reads =>
      intro nonterminal below
      exact exists_of_level_le .primary below (.literal reads)
  | @constant token value word reads =>
      intro nonterminal below
      exact exists_of_level_le .primary below (.constant word reads)
  | @name token name word free same =>
      subst same
      intro nonterminal below
      exact exists_of_level_le .primary below (.name word free)
  | @group opening closing inner opens closes inside ih =>
      intro nonterminal below
      obtain ⟨derivation, derives, rfl⟩ := ih .disjunction inner.one_le_level
      exact exists_of_level_le .primary below (.group opens closes derives)
  | @unary operator token operand writes tight inside ih =>
      intro nonterminal below
      obtain ⟨derivation, derives, rfl⟩ := ih .unary tight
      exact exists_of_level_le .unary below (.applied writes derives)
  | @binary operator token left right writes tightLeft tightRight onLeft onRight ihLeft ihRight =>
      intro nonterminal below
      obtain ⟨outer, inner, chains, same⟩ := Nonterminal.exists_operand?_eq_some operator
      obtain ⟨first, others, derives, rfl, count⟩ :=
        exists_open_chain chains same tightLeft ihLeft
      rw [BinaryOp.rightPrecedence, ← same, ← Nonterminal.level_of_operand? chains] at tightRight
      obtain ⟨derivation, derivesRight, rfl⟩ := ihRight inner tightRight
      have isOperator := (Nonterminal.mem_operators_iff chains).mpr same.symm
      have longer := derives.snoc chains ⟨operator, token, derivation⟩ count
        isOperator writes derivesRight
      have levelBelow : nonterminal.level ≤ outer.level := by
        rw [same]
        exact below
      obtain ⟨looser, derivesLoose, samePhrase⟩ := exists_of_level_le outer levelBelow longer
      exact ⟨looser, derivesLoose, samePhrase.trans (phrase_snoc _ _ _)⟩
  | @call callee opening closing name arguments commas word free same opens closes separate count
      inside ih =>
      subst same
      intro nonterminal below
      obtain ⟨derivations, derives, rfl⟩ := exists_each fun argument member =>
        ih argument member .disjunction argument.one_le_level
      rw [phraseOfEach_eq_map, List.length_map] at count
      exact exists_of_level_le .primary below
        (.call word free opens closes separate count derives)
  | @index array opening closing name subscript word free same opens closes inside ih =>
      subst same
      intro nonterminal below
      obtain ⟨derivation, derives, rfl⟩ := ih .disjunction subscript.one_le_level
      exact exists_of_level_le .primary below (.index word free opens closes derives)

end Derives

end JassExpr
