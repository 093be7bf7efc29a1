import JassExpr.Phrase.Canonical
import JassExpr.Proofs.Phrase.Map
import JassExpr.Proofs.Phrase.Plainer

/-!
# The canonical phrase is a phrase

The canonical phrase of what a grammatical phrase writes is grammatical as well. It is that phrase
without some of its parentheses, since it has parentheses only where every phrase of that
expression needs some.
-/

namespace JassExpr

theorem BinaryOp.leftPrecedence_le (operator : BinaryOp) :
    operator.leftPrecedence ≤ operandPrecedence := by
  cases operator <;> decide

theorem BinaryOp.rightPrecedence_le (operator : BinaryOp) :
    operator.rightPrecedence ≤ operandPrecedence :=
  operator.precedence_lt_operandPrecedence

theorem TokenKind.spelling?_eq_none_of_isLiteral {kind : TokenKind}
    (isLiteral : kind.isLiteral = true) : kind.spelling? = none := by
  cases kind <;> first | rfl | cases isLiteral

namespace Lexeme

/-- A lexeme with nothing but what its kind needs: no value if the kind is always spelled the same
way, and its text as the value otherwise. -/
def plain (lexeme : Lexeme) : Lexeme :=
  match lexeme.kind.spelling? with
  | some _ => fixed lexeme.kind
  | none => valued lexeme.kind lexeme.text

theorem plain_of_spelled {lexeme : Lexeme} {kind : TokenKind} {spelling : String}
    (same : lexeme.kind = kind) (spelled : kind.spelling? = some spelling) :
    lexeme.plain = fixed kind := by
  rw [plain, same, spelled]

theorem plain_of_unspelled {lexeme : Lexeme} {kind : TokenKind} (same : lexeme.kind = kind)
    (unspelled : kind.spelling? = none) : lexeme.plain = valued kind lexeme.text := by
  rw [plain, same, unspelled]

@[simp]
theorem kind_plain (lexeme : Lexeme) : lexeme.plain.kind = lexeme.kind := by
  unfold plain
  split <;> rfl

end Lexeme

namespace Literal

/-- A literal can be read off its own lexeme as well as off the one that it was read from. -/
theorem ofLexeme?_lexeme {lexeme : Lexeme} {value : Literal}
    (reads : ofLexeme? lexeme = some value) : ofLexeme? value.lexeme = some value := by
  rw [lexeme_of_ofLexeme? reads, ← reads]
  obtain ⟨kind, text⟩ := lexeme
  cases kind <;> rfl

theorem ofLexeme?_plain (lexeme : Lexeme) : ofLexeme? lexeme.plain = ofLexeme? lexeme := by
  obtain ⟨kind, text⟩ := lexeme
  cases kind <;> rfl

/-- The lexeme of a constant is the word that names it. -/
theorem lexeme_of_ofWord? {word : String} {value : Literal} (reads : ofWord? word = some value) :
    value.lexeme = Lexeme.valued .identifier word := by
  unfold ofWord? at reads
  split at reads
  · rename_i same
    cases reads
    rw [same, lexeme]
  · split at reads
    · rename_i same
      cases reads
      rw [same, lexeme]
    · split at reads
      · rename_i same
        cases reads
        rw [same, lexeme]
      · cases reads

end Literal

namespace Expr

theorem precedence_le_level (expr : Expr) : expr.precedence ≤ expr.canonical.level := by
  cases expr with
  | binary operator left right => exact Nat.le.refl
  | unary operator operand => exact Nat.le.refl
  | _ => exact Nat.le_succ _

end Expr

namespace Phrase

theorem le_level_groupBelow {needed : Nat} (expr : Expr)
    (bounded : needed ≤ BinaryOp.operandPrecedence) :
    needed ≤ (groupBelow needed expr expr.canonical).level := by
  unfold groupBelow
  split
  · exact Nat.le_succ_of_le bounded
  · rename_i tight
    exact Nat.le_trans (Nat.le_of_not_lt tight) expr.precedence_le_level

theorem Grammatical.groupBelow {expr : Expr} {phrase : Phrase Lexeme}
    (grammatical : phrase.Grammatical id) (needed : Nat) :
    (groupBelow needed expr phrase).Grammatical id := by
  unfold Phrase.groupBelow
  split
  · exact .group rfl rfl grammatical
  · exact grammatical

variable {τ : Type} {lexeme : τ → Lexeme} {phrase : Phrase τ}

/-- Whatever the parentheses of a phrase, the canonical phrase of its expression is grammatical. -/
theorem Grammatical.canonical (grammatical : phrase.Grammatical lexeme) :
    phrase.expr.canonical.Grammatical id := by
  induction grammatical with
  | literal reads => exact .literal (Literal.ofLexeme?_lexeme reads)
  | @constant token value word reads =>
      have same := Literal.lexeme_of_ofWord? reads
      refine .constant ?_ ?_
      · rw [id_eq, same]
        rfl
      · rw [id_eq, same]
        exact reads
  | name word free same => exact .name rfl free rfl
  | group opens closes inside ih => exact ih
  | unary writes tight inside ih =>
      exact .unary rfl (le_level_groupBelow _ Nat.le.refl) (ih.groupBelow _)
  | @binary operator token left right writes tightLeft tightRight onLeft onRight ihLeft ihRight =>
      exact .binary rfl (le_level_groupBelow _ operator.leftPrecedence_le)
        (le_level_groupBelow _ operator.rightPrecedence_le) (ihLeft.groupBelow _)
        (ihRight.groupBelow _)
  | call word free same opens closes separate count inside ih =>
      refine .call rfl free rfl rfl rfl ?_ ?_ ?_
      · intro comma member
        rw [List.eq_of_mem_replicate member]
        rfl
      · rw [Expr.canonicalOfEach_eq_map, List.length_map, List.length_replicate]
      · rw [Expr.canonicalOfEach_eq_map, exprOfEach_eq_map, List.map_map]
        exact List.forall_mem_map.mpr ih
  | index word free same opens closes inside ih => exact .index rfl free rfl rfl rfl ih

theorem groupBelow_of_le {needed : Nat} {expr : Expr} (tight : needed ≤ expr.precedence)
    (phrase : Phrase Lexeme) : groupBelow needed expr phrase = phrase := by
  rw [groupBelow, if_neg (Nat.not_lt_of_le tight)]

/-- A phrase with its tokens in the plainest form. -/
def plain (lexeme : τ → Lexeme) (phrase : Phrase τ) : Phrase Lexeme :=
  phrase.map fun token => (lexeme token).plain

theorem Grammatical.map_plain (grammatical : phrase.Grammatical lexeme) :
    (phrase.plain lexeme).Grammatical id := by
  have kind : ∀ {token : τ} {kind : TokenKind}, (lexeme token).kind = kind →
      (id (lexeme token).plain).kind = kind := fun same => (Lexeme.kind_plain _).trans same
  have text : ∀ {token : τ} {text : String}, (lexeme token).kind = .identifier →
      (lexeme token).text = text → (id (lexeme token).plain).text = text := by
    rintro token _ word rfl
    rw [id_eq, Lexeme.plain_of_unspelled word rfl, Lexeme.text_valued]
  induction grammatical with
  | literal reads => exact .literal ((Literal.ofLexeme?_plain _).trans reads)
  | constant word reads => exact .constant (kind word) (by rwa [text word rfl])
  | name word free same => exact .name (kind word) free (text word same)
  | group opens closes inside ih => exact .group (kind opens) (kind closes) ih
  | unary writes tight inside ih => exact .unary (kind writes) (by rwa [level_map]) ih
  | binary writes tightLeft tightRight onLeft onRight ihLeft ihRight =>
      exact .binary (kind writes) (by rwa [level_map]) (by rwa [level_map]) ihLeft ihRight
  | call word free same opens closes separate count inside ih =>
      refine .call (kind word) free (text word same) (kind opens) (kind closes) ?_ ?_ ?_
      · exact List.forall_mem_map.mpr fun comma member => kind (separate comma member)
      · rw [mapEach_eq_map, List.length_map, List.length_map, count]
      · rw [mapEach_eq_map]
        exact List.forall_mem_map.mpr ih
  | index word free same opens closes inside ih =>
      exact .index (kind word) free (text word same) (kind opens) (kind closes) ih

/-- The canonical phrase of an expression is plainer than a phrase that writes it, by itself and
with the parentheses that it needs as an operand where that phrase can stand. -/
structure CanonicalPlainer (lexeme : τ → Lexeme) (phrase : Phrase τ) : Prop where
  alone : phrase.expr.canonical.Plainer (phrase.plain lexeme)
  operand : ∀ needed ≤ BinaryOp.operandPrecedence, needed ≤ phrase.level →
    (groupBelow needed phrase.expr phrase.expr.canonical).Plainer (phrase.plain lexeme)

/-- Where a phrase needs no parentheses, neither does its expression, unless the phrase has some
already. -/
theorem CanonicalPlainer.of_alone
    (notGroup : ∀ opening inner closing, phrase ≠ .group opening inner closing)
    (alone : phrase.expr.canonical.Plainer (phrase.plain lexeme)) :
    phrase.CanonicalPlainer lexeme where
  alone := alone
  operand needed bounded tight := by
    have enough : needed ≤ phrase.expr.precedence := by
      cases phrase with
      | group opening inner closing => exact absurd rfl (notGroup opening inner closing)
      | binary operator left token right => exact tight
      | _ => exact bounded
    rwa [groupBelow_of_le enough]

/-- Leaving out parentheses is all that it takes to come to the canonical phrase, and every pair
that the canonical phrase has is one that the phrase has as well. -/
theorem Grammatical.canonicalPlainer (grammatical : phrase.Grammatical lexeme) :
    phrase.CanonicalPlainer lexeme := by
  have named : ∀ {token : τ} {name : String}, (lexeme token).kind = .identifier →
      (lexeme token).text = name → (lexeme token).plain = Lexeme.valued .identifier name := by
    rintro token _ word rfl
    exact Lexeme.plain_of_unspelled word rfl
  induction grammatical with
  | @literal token value reads =>
      have same : (lexeme token).plain = value.lexeme := by
        rw [Literal.lexeme_of_ofLexeme? reads]
        exact Lexeme.plain_of_unspelled rfl (TokenKind.spelling?_eq_none_of_isLiteral
          (Literal.isLiteral_of_ofLexeme? reads))
      refine .of_alone (by simp) ?_
      simp only [plain, map, same]
      exact .literal
  | @constant token value word reads =>
      have same : (lexeme token).plain = value.lexeme := by
        rw [Literal.lexeme_of_ofWord? reads]
        exact named word rfl
      refine .of_alone (by simp) ?_
      simp only [plain, map, same]
      exact .literal
  | name word free same =>
      refine .of_alone (by simp) ?_
      simp only [plain, map, named word same]
      exact .name
  | @group opening closing inner opens closes inside ih =>
      refine ⟨.leftOut ih.alone, fun needed bounded tight => ?_⟩
      simp only [plain, map, Lexeme.plain_of_spelled opens rfl, Lexeme.plain_of_spelled closes rfl]
      unfold Phrase.groupBelow
      split
      · exact .group ih.alone
      · exact .leftOut ih.alone
  | @unary operator token operand writes tight inside ih =>
      refine .of_alone (by simp) ?_
      simp only [plain, map, Lexeme.plain_of_spelled writes operator.spelling?_kind]
      exact .unary (ih.operand _ Nat.le.refl tight)
  | @binary operator token left right writes tightLeft tightRight onLeft onRight ihLeft ihRight =>
      refine .of_alone (by simp) ?_
      simp only [plain, map, Lexeme.plain_of_spelled writes operator.spelling?_kind]
      exact .binary (ihLeft.operand _ operator.leftPrecedence_le tightLeft)
        (ihRight.operand _ operator.rightPrecedence_le tightRight)
  | @call callee opening closing name arguments commas word free same opens closes separate count
      inside ih =>
      have separators : commas.map (fun comma => (lexeme comma).plain) =
          List.replicate (arguments.length - 1) (Lexeme.fixed .comma) := by
        rw [← count, List.eq_replicate_iff, List.length_map]
        refine ⟨rfl, List.forall_mem_map.mpr fun comma member => ?_⟩
        exact Lexeme.plain_of_spelled (separate comma member) rfl
      refine .of_alone (by simp) ?_
      simp only [plain, map, named word same, Lexeme.plain_of_spelled opens rfl,
        Lexeme.plain_of_spelled closes rfl, separators, expr, Expr.canonical, exprOfEach_eq_map,
        List.length_map, Expr.canonicalOfEach_eq_map, mapEach_eq_map, List.map_map]
      refine .call (by simp) ?_
      rw [List.zip_map', List.forall_mem_map]
      exact fun argument member => (ih argument member).alone
  | index word free same opens closes inside ih =>
      refine .of_alone (by simp) ?_
      simp only [plain, map, named word same, Lexeme.plain_of_spelled opens rfl,
        Lexeme.plain_of_spelled closes rfl]
      exact .index ih.alone

/-- The tokens of the canonical phrase are among those of the phrase, in the same order. -/
theorem Grammatical.tokens_canonical_sublist (grammatical : phrase.Grammatical lexeme) :
    phrase.expr.canonical.tokens.Sublist (phrase.tokens.map fun token => (lexeme token).plain) := by
  have sublist := grammatical.canonicalPlainer.alone.tokens_sublist
  rwa [plain, tokens_map] at sublist

theorem Grammatical.exists_plain_eq (grammatical : phrase.Grammatical lexeme) {word : Lexeme}
    (member : word ∈ phrase.expr.canonical.tokens) :
    ∃ token ∈ phrase.tokens, (lexeme token).plain = word :=
  List.mem_map.mp (grammatical.tokens_canonical_sublist.subset member)

theorem Grammatical.depth_canonical_le (grammatical : phrase.Grammatical lexeme) :
    phrase.expr.canonical.depth ≤ phrase.depth := by
  have le := grammatical.canonicalPlainer.alone.depth_le
  rwa [plain, depth_map] at le

/-- A phrase whose tokens carry the canonical phrase of its expression. -/
structure IsCanonical (phrase : Phrase Token) : Prop where
  grammatical : phrase.Grammatical Token.toLexeme
  same : phrase.map Token.toLexeme = phrase.expr.canonical

/-- Tokens that carry the canonical phrase of an expression are those of a phrase of it. -/
theorem Grammatical.exists_isCanonical {phrase : Phrase Token}
    (grammatical : phrase.Grammatical Token.toLexeme) {tokens : List Token}
    (carried : tokens.map Token.toLexeme = phrase.expr.canonical.tokens) :
    ∃ again : Phrase Token, again.tokens = tokens ∧ again.IsCanonical ∧
      again.expr = phrase.expr ∧ again.depth ≤ phrase.depth := by
  obtain ⟨again, same, rfl⟩ := grammatical.canonical.exists_map_eq carried
  have sameExpr : again.expr = phrase.expr := by
    rw [← expr_map Token.toLexeme, same, Expr.expr_canonical]
  have mapped : (again.map Token.toLexeme).Grammatical id := by
    rw [same]
    exact grammatical.canonical
  refine ⟨again, rfl, ⟨mapped.of_map, by rw [same, sameExpr]⟩, sameExpr, ?_⟩
  rw [← depth_map Token.toLexeme, same]
  exact grammatical.depth_canonical_le

end Phrase

end JassExpr
