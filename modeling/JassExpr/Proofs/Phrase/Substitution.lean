import JassExpr.Proofs.Phrase.Groups
import JassExpr.Proofs.Phrase.Partition

/-!
# Substituting an expression for a variable

A variable in a phrase may be replaced by any phrase in parentheses. Whatever operators that phrase
has, nothing around it is read in another way, and the parentheses cost one level of nesting beside
those of the phrase.
-/

namespace JassExpr

/-- The items of a list, of which the first stands at `base`, with others in place of the one at a
position. -/
def spliceFrom {α : Type} (position : Nat) (new : List α) (base : Nat) : List α → List α
  | [] => []
  | item :: rest =>
      (if base = position then new else [item]) ++ spliceFrom position new (base + 1) rest

section

variable {α : Type} {position base : Nat} {new : List α}

theorem spliceFrom_append (first second : List α) :
    spliceFrom position new base (first ++ second) =
      spliceFrom position new base first ++
        spliceFrom position new (base + first.length) second := by
  induction first generalizing base with
  | nil => rfl
  | cons item first ih =>
      have next : base + 1 + first.length = base + (first.length + 1) := by omega
      rw [List.cons_append, spliceFrom, spliceFrom, ih, List.length_cons, next, List.append_assoc]

theorem spliceFrom_cons_of_ne {item : α} (apart : base ≠ position) (rest : List α) :
    spliceFrom position new base (item :: rest) =
      item :: spliceFrom position new (base + 1) rest := by
  rw [spliceFrom, if_neg apart, List.singleton_append]

theorem spliceFrom_of_outside (items : List α)
    (outside : position < base ∨ base + items.length ≤ position) :
    spliceFrom position new base items = items := by
  induction items generalizing base with
  | nil => rfl
  | cons item items ih =>
      rw [List.length_cons] at outside
      rw [spliceFrom_cons_of_ne (by omega), ih (by omega)]

theorem spliceFrom_middle (before after : List α) (item : α) :
    spliceFrom before.length new 0 (before ++ item :: after) = before ++ (new ++ after) := by
  rw [spliceFrom_append, spliceFrom_of_outside before (.inr (by omega)), Nat.zero_add, spliceFrom,
    if_pos rfl, spliceFrom_of_outside after (.inl (Nat.lt_succ_self _))]

end

namespace Phrase

variable {τ : Type} {lexeme : τ → Lexeme} {phrase new other : Phrase τ} {position base : Nat}

mutual

/-- A phrase, of which the first token stands at `base`, with another phrase in place of the
variable that stands at a position. -/
def substituteFrom (position : Nat) (new : Phrase τ) (base : Nat) : Phrase τ → Phrase τ
  | literal token value => .literal token value
  | name token identifier => if base = position then new else .name token identifier
  | group opening inner closing =>
      .group opening (substituteFrom position new (base + 1) inner) closing
  | unary operator token operand =>
      .unary operator token (substituteFrom position new (base + 1) operand)
  | binary operator left token right =>
      .binary operator (substituteFrom position new base left) token
        (substituteFrom position new (base + left.tokens.length + 1) right)
  | call callee identifier opening arguments commas closing =>
      .call callee identifier opening (substituteOfEach position new (base + 2) arguments) commas
        closing
  | index array identifier opening subscript closing =>
      .index array identifier opening (substituteFrom position new (base + 2) subscript) closing

/-- The same for arguments with a comma between each two. -/
def substituteOfEach (position : Nat) (new : Phrase τ) (base : Nat) :
    List (Phrase τ) → List (Phrase τ)
  | [] => []
  | first :: rest =>
      substituteFrom position new base first ::
        substituteOfEach position new (base + first.tokens.length + 1) rest

end

/-- A phrase with another one in place of the variable that is its token at a position. -/
def substitute (phrase : Phrase τ) (position : Nat) (new : Phrase τ) : Phrase τ :=
  substituteFrom position new 0 phrase

theorem length_substituteOfEach (arguments : List (Phrase τ)) :
    (substituteOfEach position new base arguments).length = arguments.length := by
  induction arguments generalizing base with
  | nil => rfl
  | cons first rest ih => rw [substituteOfEach, List.length_cons, List.length_cons, ih]

/-- Each argument is one of the given ones with the substitution made in it. -/
theorem exists_of_mem_substituteOfEach {arguments : List (Phrase τ)} {argument : Phrase τ}
    (member : argument ∈ substituteOfEach position new base arguments) :
    ∃ given ∈ arguments, ∃ base, argument = substituteFrom position new base given := by
  induction arguments generalizing base with
  | nil => cases member
  | cons first rest ih =>
      rcases List.mem_cons.mp member with rfl | later
      · exact ⟨first, List.mem_cons_self, base, rfl⟩
      · obtain ⟨given, among, same⟩ := ih later
        exact ⟨given, List.mem_cons_of_mem _ among, same⟩

/-- A primary in place of a variable leaves what stands outermost as tight as it was. -/
theorem level_substituteFrom (tight : new.level = BinaryOp.operandPrecedence + 1)
    (phrase : Phrase τ) : (substituteFrom position new base phrase).level = phrase.level := by
  cases phrase with
  | name token name =>
      rw [substituteFrom]
      split
      · exact tight
      · rfl
  | _ => rfl

theorem depth_substituteFrom_le (phrase : Phrase τ) (base : Nat) :
    (substituteFrom position new base phrase).depth ≤ phrase.depth + new.depth := by
  induction phrase generalizing base with
  | literal token value => exact Nat.zero_le _
  | name token name =>
      rw [substituteFrom]
      split
      · exact Nat.le_add_left _ _
      · exact Nat.zero_le _
  | group opening inner closing ih =>
      have inside := ih (base + 1)
      simp only [substituteFrom, depth]
      omega
  | unary operator token operand ih =>
      have inside := ih (base + 1)
      simp only [substituteFrom, depth]
      omega
  | binary operator left token right ihLeft ihRight =>
      have onLeft := ihLeft base
      have onRight := ihRight (base + left.tokens.length + 1)
      simp only [substituteFrom, depth]
      omega
  | call callee name opening arguments commas closing ih =>
      have each : ∀ base, depthOfEach (substituteOfEach position new base arguments) ≤
          depthOfEach arguments + new.depth := by
        induction arguments with
        | nil => exact fun _ => Nat.zero_le _
        | cons first rest ihRest =>
            intro base
            rw [List.forall_mem_cons] at ih
            have here := ih.1 base
            have later := ihRest ih.2 (base + first.tokens.length + 1)
            simp only [substituteOfEach, depthOfEach]
            omega
      exact each (base + 2)
  | index array name opening subscript closing ih =>
      have inside := ih (base + 2)
      simp only [substituteFrom, depth]
      omega

/-- What is substituted for a variable makes a difference only by the expression that it writes. -/
theorem expr_substituteFrom_congr (same : new.expr = other.expr) (phrase : Phrase τ) :
    (substituteFrom position new base phrase).expr =
      (substituteFrom position other base phrase).expr := by
  induction phrase generalizing base with
  | literal token value => rfl
  | name token name =>
      rw [substituteFrom, substituteFrom]
      split
      · exact same
      · rfl
  | group opening inner closing ih => exact ih
  | unary operator token operand ih => simp only [substituteFrom, expr, ih]
  | binary operator left token right ihLeft ihRight =>
      simp only [substituteFrom, expr, ihLeft, ihRight]
  | call callee name opening arguments commas closing ih =>
      have each : ∀ base, exprOfEach (substituteOfEach position new base arguments) =
          exprOfEach (substituteOfEach position other base arguments) := by
        induction arguments with
        | nil => exact fun _ => rfl
        | cons first rest ihRest =>
            intro base
            rw [List.forall_mem_cons] at ih
            exact congrArg₂ _ ih.1 (ihRest ih.2 _)
      simp only [substituteFrom, expr, each]
  | index array name opening subscript closing ih => simp only [substituteFrom, expr, ih]

/-- A grammatical phrase stays grammatical, whatever primary takes the place of a variable. -/
theorem Grammatical.substituteFrom (grammatical : phrase.Grammatical lexeme)
    (grammaticalNew : new.Grammatical lexeme)
    (tight : new.level = BinaryOp.operandPrecedence + 1) (base : Nat) :
    (substituteFrom position new base phrase).Grammatical lexeme := by
  induction grammatical generalizing base with
  | literal reads => exact .literal reads
  | constant word reads => exact .constant word reads
  | name word free same =>
      rw [Phrase.substituteFrom]
      split
      · exact grammaticalNew
      · exact .name word free same
  | group opens closes inside ih => exact .group opens closes (ih _)
  | unary writes tightOperand inside ih =>
      exact .unary writes (by rwa [level_substituteFrom tight]) (ih _)
  | binary writes tightLeft tightRight onLeft onRight ihLeft ihRight =>
      exact .binary writes (by rwa [level_substituteFrom tight])
        (by rwa [level_substituteFrom tight]) (ihLeft _) (ihRight _)
  | call word free same opens closes separate count inside ih =>
      refine .call word free same opens closes separate ?_ ?_
      · rw [length_substituteOfEach, count]
      · intro argument member
        obtain ⟨given, among, base, rfl⟩ := exists_of_mem_substituteOfEach member
        exact ih given among base
  | index word free same opens closes inside ih =>
      exact .index word free same opens closes (ih _)

/-- What stands at a position among some tokens, of which the first stands at `base`, is a variable
if it is one of them: a name that nothing behind it makes a call or an element. -/
def VariableAt (lexeme : τ → Lexeme) (position base : Nat) (tokens : List τ) : Prop :=
  ∀ before token after, tokens = before ++ token :: after → base + before.length = position →
    (lexeme token).IsName ∧ ∀ next ∈ after.head?,
      (lexeme next).kind ≠ .leftParenthesis ∧ (lexeme next).kind ≠ .leftBracket

theorem VariableAt.of_append {first second : List τ}
    (isVariable : VariableAt lexeme position base (first ++ second)) :
    VariableAt lexeme position base first ∧
      VariableAt lexeme position (base + first.length) second := by
  constructor
  · rintro before token after rfl here
    obtain ⟨isName, alone⟩ := isVariable before token (after ++ second) (by simp) here
    refine ⟨isName, fun next member => alone next ?_⟩
    rw [List.head?_append, member]
    rfl
  · rintro before token after rfl here
    refine isVariable (first ++ before) token after (by simp) ?_
    rw [List.length_append]
    omega

theorem VariableAt.tail {token : τ} {rest : List τ}
    (isVariable : VariableAt lexeme position base (token :: rest)) :
    VariableAt lexeme position (base + 1) rest := by
  have apart : VariableAt lexeme position base ([token] ++ rest) := isVariable
  exact apart.of_append.2

/-- A token that is no name is not at the position of a variable. -/
theorem VariableAt.ne {token : τ} {rest : List τ} {kind : TokenKind}
    (isVariable : VariableAt lexeme position base (token :: rest))
    (same : (lexeme token).kind = kind) (notWord : kind ≠ .identifier) : base ≠ position :=
  fun here =>
    Lexeme.not_isName_of_ne same notWord (isVariable [] token rest rfl here).1

/-- A name in front of a parenthesis or bracket is not at the position of a variable. -/
theorem VariableAt.ne_of_opening {token opening : τ} {rest : List τ}
    (isVariable : VariableAt lexeme position base (token :: opening :: rest))
    (opens : (lexeme opening).kind = .leftParenthesis ∨ (lexeme opening).kind = .leftBracket) :
    base ≠ position := by
  intro here
  obtain ⟨notParenthesis, notBracket⟩ := (isVariable [] token _ rfl here).2 opening rfl
  exact opens.elim notParenthesis notBracket

theorem tokens_substituteOfEach {arguments : List (Phrase τ)} {commas : List τ}
    (each : ∀ argument ∈ arguments, ∀ base, VariableAt lexeme position base argument.tokens →
      (substituteFrom position new base argument).tokens =
        spliceFrom position new.tokens base argument.tokens)
    (separate : ∀ comma ∈ commas, (lexeme comma).kind = .comma)
    (count : commas.length = arguments.length - 1) (base : Nat)
    (isVariable : VariableAt lexeme position base
      (weave (tokensOfEach arguments) (commas.map ([·])))) :
    weave (tokensOfEach (substituteOfEach position new base arguments)) (commas.map ([·])) =
      spliceFrom position new.tokens base
        (weave (tokensOfEach arguments) (commas.map ([·]))) := by
  have alternating := Alternating.of_length count
  clear count
  induction alternating generalizing base with
  | nil => rfl
  | singleton argument =>
      have alone : ∀ argument : Phrase τ,
          weave (tokensOfEach [argument]) (([] : List τ).map ([·])) = argument.tokens := by
        simp [tokensOfEach, weave]
      rw [alone] at isVariable
      rw [substituteOfEach, substituteOfEach, alone, alone]
      exact each argument List.mem_cons_self base isVariable
  | @cons argument comma arguments commas some alternating ih =>
      rw [List.forall_mem_cons] at each separate
      rw [tokensOfEach, List.map_cons, weave, List.append_assoc, List.singleton_append]
        at isVariable
      obtain ⟨inFirst, inLater⟩ := isVariable.of_append
      have notComma := inLater.ne separate.1 (by decide)
      rw [substituteOfEach, tokensOfEach, tokensOfEach, List.map_cons, weave, weave,
        List.append_assoc, List.append_assoc, List.singleton_append, List.singleton_append,
        spliceFrom_append, spliceFrom_cons_of_ne notComma, each.1 base inFirst,
        ih each.2 separate.2 _ inLater.tail]

/-- Substituting for a variable replaces its token and no other. -/
theorem Grammatical.tokens_substituteFrom (grammatical : phrase.Grammatical lexeme) (base : Nat)
    (isVariable : VariableAt lexeme position base phrase.tokens) :
    (Phrase.substituteFrom position new base phrase).tokens =
      spliceFrom position new.tokens base phrase.tokens := by
  induction grammatical generalizing base with
  | @literal token value reads =>
      have apart : base ≠ position := by
        apply isVariable.ne rfl
        intro word
        have isLiteral := Literal.isLiteral_of_ofLexeme? reads
        rw [word] at isLiteral
        cases isLiteral
      exact (spliceFrom_cons_of_ne apart []).symm
  | @constant token value word reads =>
      have apart : base ≠ position := by
        intro here
        have free := (isVariable [] token [] rfl here).1.2
        rw [reads] at free
        cases free
      exact (spliceFrom_cons_of_ne apart []).symm
  | name word free same =>
      rw [Phrase.substituteFrom, tokens, spliceFrom, spliceFrom, List.append_nil]
      split <;> rfl
  | group opens closes inside ih =>
      have notOpening := isVariable.ne opens (by decide)
      obtain ⟨inInner, atClosing⟩ := isVariable.tail.of_append
      have notClosing := atClosing.ne closes (by decide)
      rw [Phrase.substituteFrom, tokens, tokens, spliceFrom_cons_of_ne notOpening,
        spliceFrom_append, spliceFrom_cons_of_ne notClosing, spliceFrom, ih _ inInner]
  | @unary operator token operand writes tight inside ih =>
      have notOperator := isVariable.ne writes (by cases operator <;> decide)
      rw [Phrase.substituteFrom, tokens, tokens, spliceFrom_cons_of_ne notOperator,
        ih _ isVariable.tail]
  | @binary operator token left right writes tightLeft tightRight onLeft onRight ihLeft ihRight =>
      obtain ⟨inLeft, behind⟩ := isVariable.of_append
      have notOperator := behind.ne writes (by cases operator <;> decide)
      rw [Phrase.substituteFrom, tokens, tokens, spliceFrom_append,
        spliceFrom_cons_of_ne notOperator, ihLeft _ inLeft, ihRight _ behind.tail]
  | call word free same opens closes separate count inside ih =>
      have notCallee := isVariable.ne_of_opening (.inl opens)
      have notOpening := isVariable.tail.ne opens (by decide)
      obtain ⟨inArguments, atClosing⟩ := isVariable.tail.tail.of_append
      have notClosing := atClosing.ne closes (by decide)
      rw [Phrase.substituteFrom, tokens, tokens, spliceFrom_cons_of_ne notCallee,
        spliceFrom_cons_of_ne notOpening, spliceFrom_append, spliceFrom_cons_of_ne notClosing,
        spliceFrom, tokens_substituteOfEach ih separate count _ inArguments]
  | index word free same opens closes inside ih =>
      have notArray := isVariable.ne_of_opening (.inr opens)
      have notOpening := isVariable.tail.ne opens (by decide)
      obtain ⟨inSubscript, atClosing⟩ := isVariable.tail.tail.of_append
      have notClosing := atClosing.ne closes (by decide)
      rw [Phrase.substituteFrom, tokens, tokens, spliceFrom_cons_of_ne notArray,
        spliceFrom_cons_of_ne notOpening, spliceFrom_append, spliceFrom_cons_of_ne notClosing,
        spliceFrom, ih _ inSubscript]

theorem VariableAt.of_middle {before after : List τ} {token : τ} (isName : (lexeme token).IsName)
    (alone : ∀ next ∈ after.head?,
      (lexeme next).kind ≠ .leftParenthesis ∧ (lexeme next).kind ≠ .leftBracket) :
    VariableAt lexeme before.length 0 (before ++ token :: after) := by
  intro before' token' after' same here
  rw [Nat.zero_add] at here
  obtain ⟨-, sameBehind⟩ := List.append_inj same here.symm
  obtain ⟨rfl, rfl⟩ := List.cons.inj sameBehind
  exact ⟨isName, alone⟩

end Phrase

section

variable {limit limit' : Nat} {before after inserted : List Token} {token opening closing : Token}
  {host phrase : Phrase Token}

/-- An expression in parentheses is one as well, one level deeper. -/
theorem parseWith_group (parsed : parseWith limit inserted = .ok [phrase])
    (opens : opening.kind = .leftParenthesis) (closes : closing.kind = .rightParenthesis) :
    parseWith (limit + 1) (opening :: (inserted ++ [closing])) =
      .ok [.group opening phrase closing] := by
  obtain ⟨rfl, stands⟩ := parseWith_eq_singleton_iff.mp parsed
  exact parseWith_tokens (.group opens closes stands.grammatical) stands.shallow

/-- An expression in any number of parentheses writes what it writes alone. -/
theorem exists_parseWith_groups (pairs : List (Token × Token))
    (enclose : ∀ pair ∈ pairs,
      pair.1.kind = .leftParenthesis ∧ pair.2.kind = .rightParenthesis)
    (parsed : parseWith limit inserted = .ok [phrase]) :
    ∃ again, parseWith (limit + pairs.length)
        (pairs.map Prod.fst ++ (inserted ++ (pairs.map Prod.snd).reverse)) = .ok [again] ∧
      again.expr = phrase.expr := by
  induction pairs with
  | nil => exact ⟨phrase, by simpa using parsed, rfl⟩
  | cons pair pairs ih =>
      rw [List.forall_mem_cons] at enclose
      obtain ⟨again, parsedAgain, same⟩ := ih enclose.2
      refine ⟨.group pair.1 again pair.2, ?_, same⟩
      simpa [Nat.add_assoc] using parseWith_group parsedAgain enclose.1.1 enclose.1.2

/-- An expression in parentheses is read in place of any variable as it is read alone, and nothing
around it is read in another way. It may stand in any number of parentheses by itself. -/
theorem parseWith_substitute (parsedHost : parseWith limit (before ++ token :: after) = .ok [host])
    (word : token.kind = .identifier) (free : Literal.ofWord? token.text = none)
    (alone : ∀ next ∈ after.head?, next.kind ≠ .leftParenthesis ∧ next.kind ≠ .leftBracket)
    (parsed : parseWith limit' inserted = .ok [phrase])
    (opens : opening.kind = .leftParenthesis) (closes : closing.kind = .rightParenthesis) :
    let group := Phrase.group opening phrase closing
    parseWith (limit + 1 + limit') (before ++ opening :: (inserted ++ closing :: after)) =
        .ok [host.substitute before.length group] ∧
      (host.substitute before.length group).expr =
        (host.substitute before.length phrase).expr ∧
      ∀ pairs : List (Token × Token),
        (∀ pair ∈ pairs, pair.1.kind = .leftParenthesis ∧ pair.2.kind = .rightParenthesis) →
          ∃ again, parseWith (limit' + pairs.length)
              (pairs.map Prod.fst ++ (inserted ++ (pairs.map Prod.snd).reverse)) = .ok [again] ∧
            again.expr = phrase.expr := by
  intro group
  obtain ⟨whole, stands⟩ := parseWith_eq_singleton_iff.mp parsedHost
  obtain ⟨rfl, standsInside⟩ := parseWith_eq_singleton_iff.mp parsed
  have isGroup : group.Grammatical Token.toLexeme := .group opens closes standsInside.grammatical
  have sameExpr : group.expr = phrase.expr := rfl
  refine ⟨?_, Phrase.expr_substituteFrom_congr sameExpr host,
    fun pairs enclose => exists_parseWith_groups pairs enclose parsed⟩
  have tokens : (host.substitute before.length group).tokens =
      before ++ opening :: (phrase.tokens ++ closing :: after) := by
    have isVariable : Phrase.VariableAt Token.toLexeme before.length 0 host.tokens := by
      rw [whole]
      exact .of_middle ⟨word, free⟩ alone
    rw [Phrase.substitute, stands.grammatical.tokens_substituteFrom 0 isVariable, whole,
      spliceFrom_middle]
    simp [group, Phrase.tokens]
  have shallow : (host.substitute before.length group).depth ≤ limit + 1 + limit' := by
    have sum : (host.substitute before.length group).depth ≤ host.depth + group.depth :=
      Phrase.depth_substituteFrom_le host 0
    have shallowHost := stands.shallow
    have shallowInside := standsInside.shallow
    have deeper : group.depth = phrase.depth + 1 := rfl
    omega
  rw [← tokens]
  exact parseWith_tokens (stands.grammatical.substituteFrom isGroup rfl 0) shallow

/-- A disjunction in place of an argument under `not`, on the left of a comparison. -/
theorem parseWith_substitute_argument :
    let word (text : String) : Token := ⟨.valued .identifier text, Span.origin⟩
    let mark (kind : TokenKind) : Token := ⟨.fixed kind, Span.origin⟩
    let name (text : String) : Phrase Token := .name (word text) text
    let call (argument : Phrase Token) : Phrase Token := .call (word "f") "f"
      (mark .leftParenthesis) [name "a", argument] [mark .comma] (mark .rightParenthesis)
    let host (argument : Phrase Token) : Phrase Token := .binary .equal
      (.unary .not (mark .not) (call argument)) (mark BinaryOp.equal.kind) (name "b")
    let inserted : Phrase Token := .binary .or (name "c") (mark BinaryOp.or.kind) (name "d")
    let group : Phrase Token := .group (mark .leftParenthesis) inserted (mark .rightParenthesis)
    parseWith 2 (host (name "x")).tokens = .ok [host (name "x")] ∧
      (host (name "x")).tokens[5]? = some (word "x") ∧
        parseWith 0 inserted.tokens = .ok [inserted] ∧
          parseWith 3 (host group).tokens = .ok [host group] ∧
            (host group).expr = ((host (name "x")).substitute 5 inserted).expr := by
  intro word mark name call host inserted group
  have isName : ∀ text, Literal.ofWord? text = none → (name text).Grammatical Token.toLexeme :=
    fun text free => .name rfl free rfl
  have isCall : (call (name "x")).Grammatical Token.toLexeme :=
    .call rfl (by decide) rfl rfl rfl (List.forall_mem_singleton.mpr rfl) rfl
      (List.forall_mem_cons.mpr ⟨isName "a" (by decide),
        List.forall_mem_singleton.mpr (isName "x" (by decide))⟩)
  have isHost : (host (name "x")).Grammatical Token.toLexeme :=
    .binary rfl (by decide) (by decide) (.unary rfl (by decide) isCall) (isName "b" (by decide))
  have isInserted : inserted.Grammatical Token.toLexeme :=
    .binary rfl (by decide) (by decide) (isName "c" (by decide)) (isName "d" (by decide))
  let before := [mark .not, word "f", mark .leftParenthesis, word "a", mark .comma]
  let after := [mark .rightParenthesis, mark BinaryOp.equal.kind, word "b"]
  have parsedHost : parseWith 2 (before ++ word "x" :: after) = .ok [host (name "x")] :=
    parseWith_tokens isHost (by decide)
  have parsed : parseWith 0 inserted.tokens = .ok [inserted] :=
    parseWith_tokens isInserted (by decide)
  have opens : (mark .leftParenthesis).kind = .leftParenthesis := rfl
  have closes : (mark .rightParenthesis).kind = .rightParenthesis := rfl
  obtain ⟨parsedGroup, sameExpr, -⟩ :=
    parseWith_substitute parsedHost rfl (by decide) (by rintro _ ⟨⟩; decide) parsed opens closes
  exact ⟨parsedHost, rfl, parsed, parsedGroup, sameExpr⟩

end

end JassExpr
