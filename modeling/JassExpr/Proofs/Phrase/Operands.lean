import JassExpr.Proofs.Phrase.Reads

/-!
# Operands and arguments

The operands of binary operators are read by the first of their tokens: a literal, a word, an
opening parenthesis or an operator in front of another operand. Where these contain expressions,
they lie one level deeper, so that the bound on the nesting goes up by one.
-/

namespace JassExpr

namespace Production

variable {argument : Production} {inner : Construct → Production} {bound : Nat}

/-! ## Arguments -/

theorem argumentsFrom_last {phrase : Phrase Token} {tokens rest : List Token}
    (reading : argument.read tokens = .ok (phrase, rest))
    (notComma : ∀ token ∈ rest.head?, token.kind ≠ .comma) :
    argumentsFrom argument tokens = .ok ([phrase], [], rest) := by
  rw [argumentsFrom]
  split
  · simp_all
  · simp_all
  · rename_i first token after reading'
    rw [reading] at reading'
    cases reading'
    rw [if_neg (notComma token rfl)]

theorem argumentsFrom_comma {phrase : Phrase Token} {phrases : List (Phrase Token)}
    {tokens after commas rest : List Token} {token : Token}
    (reading : argument.read tokens = .ok (phrase, token :: after))
    (isComma : token.kind = .comma)
    (readingOthers : argumentsFrom argument after = .ok (phrases, commas, rest)) :
    argumentsFrom argument tokens = .ok (phrase :: phrases, token :: commas, rest) := by
  rw [argumentsFrom]
  split
  · simp_all
  · simp_all
  · rename_i first token' after' reading'
    rw [reading] at reading'
    cases reading'
    rw [if_pos isComma, readingOthers]

/-- An expression is read up to a comma or to what closes a bracket. -/
theorem Reads.read_enclosed (reads : argument.Reads BinaryOp.or.precedence bound)
    {phrase : Phrase Token} (grammatical : phrase.Grammatical Token.toLexeme)
    (shallow : phrase.depth < bound) (next : Token) (rest : List Token)
    (encloses : next.kind ∈ [.comma, .rightParenthesis, .rightBracket]) :
    argument.read (phrase.tokens ++ next :: rest) = .ok (phrase, next :: rest) := by
  have ends : phrase.EndsBefore BinaryOp.or.precedence (next :: rest) := by
    simp only [List.mem_cons, List.not_mem_nil, or_false] at encloses
    apply Phrase.EndsBefore.of_notOperator
    · rcases encloses with same | same | same <;> rw [same] <;> rfl
    · rintro -
      rcases encloses with same | same | same <;> rw [same] <;> decide
  exact reads.complete _ ⟨grammatical, phrase.one_le_level, shallow, ends⟩

/-- Arguments that are to be written with commas between them. -/
structure AreArguments (bound : Nat) (phrases : List (Phrase Token)) (commas : List Token) :
    Prop where
  separate : ∀ comma ∈ commas, comma.kind = .comma
  count : commas.length = phrases.length - 1
  inside : ∀ phrase ∈ phrases, phrase.Grammatical Token.toLexeme
  shallow : ∀ phrase ∈ phrases, phrase.depth < bound

theorem AreArguments.singleton {phrase : Phrase Token}
    (grammatical : phrase.Grammatical Token.toLexeme) (shallow : phrase.depth < bound) :
    AreArguments bound [phrase] [] :=
  ⟨by simp, rfl, by simpa using grammatical, by simpa using shallow⟩

theorem AreArguments.cons {phrase : Phrase Token} {phrases : List (Phrase Token)} {comma : Token}
    {commas : List Token} (grammatical : phrase.Grammatical Token.toLexeme)
    (shallow : phrase.depth < bound) (isComma : comma.kind = .comma) (nonempty : phrases ≠ [])
    (are : AreArguments bound phrases commas) :
    AreArguments bound (phrase :: phrases) (comma :: commas) where
  separate := List.forall_mem_cons.mpr ⟨isComma, are.separate⟩
  count := by
    have positive := List.length_pos_iff.mpr nonempty
    have count := are.count
    simp only [List.length_cons]
    omega
  inside := List.forall_mem_cons.mpr ⟨grammatical, are.inside⟩
  shallow := List.forall_mem_cons.mpr ⟨shallow, are.shallow⟩

theorem argumentsFrom_sound (reads : argument.Reads BinaryOp.or.precedence bound)
    {phrases : List (Phrase Token)} {tokens commas rest : List Token}
    (found : argumentsFrom argument tokens = .ok (phrases, commas, rest)) :
    phrases ≠ [] ∧ AreArguments bound phrases commas := by
  fun_induction argumentsFrom argument tokens generalizing phrases commas rest with
  | case1 tokens stop stopped => cases found
  | case2 tokens first reading =>
      cases found
      have stands := reads.sound reading
      exact ⟨by simp, .singleton stands.grammatical stands.shallow⟩
  | case3 tokens first token after reading isComma stop stopped ih => cases found
  | case4 tokens first token after reading isComma others otherCommas rest' readingOthers ih =>
      cases found
      have stands := reads.sound reading
      obtain ⟨some, are⟩ := ih readingOthers
      exact ⟨by simp, .cons stands.grammatical stands.shallow isComma some are⟩
  | case5 tokens first token after reading notComma =>
      cases found
      have stands := reads.sound reading
      exact ⟨by simp, .singleton stands.grammatical stands.shallow⟩

/-- Arguments are read up to a closing parenthesis. -/
theorem argumentsFrom_complete (reads : argument.Reads BinaryOp.or.precedence bound)
    {phrases : List (Phrase Token)} {commas : List Token} (rest : List Token) {closing : Token}
    (nonempty : phrases ≠ []) (are : AreArguments bound phrases commas)
    (closes : closing.kind = .rightParenthesis) :
    argumentsFrom argument
        (weave (Phrase.tokensOfEach phrases) (commas.map ([·])) ++ closing :: rest) =
      .ok (phrases, commas, closing :: rest) := by
  obtain ⟨separate, count, inside, shallow⟩ := are
  have alternating := Alternating.of_length count
  clear count
  induction alternating with
  | nil => exact absurd rfl nonempty
  | singleton phrase =>
      have reading := reads.read_enclosed (inside phrase (by simp)) (shallow phrase (by simp))
        closing rest (by simp [closes])
      have alone := argumentsFrom_last reading (by simp [closes])
      simpa [Phrase.tokensOfEach, weave] using alone
  | @cons phrase comma phrases commas some others ih =>
      obtain ⟨isComma, separateRest⟩ := List.forall_mem_cons.mp separate
      obtain ⟨grammatical, insideRest⟩ := List.forall_mem_cons.mp inside
      obtain ⟨shallowHere, shallowRest⟩ := List.forall_mem_cons.mp shallow
      have more := ih some separateRest insideRest shallowRest
      rw [Phrase.tokensOfEach, List.map_cons, weave, List.append_assoc, List.append_assoc,
        List.singleton_append]
      refine argumentsFrom_comma ?_ isComma more
      exact reads.read_enclosed grammatical shallowHere comma _ (by simp [isComma])

theorem argumentList_sound (reads : argument.Reads BinaryOp.or.precedence bound)
    {phrases : List (Phrase Token)} {tokens commas rest : List Token}
    (found : argumentList argument tokens = .ok (phrases, commas, rest)) :
    AreArguments bound phrases commas := by
  unfold argumentList at found
  split at found
  · exact (argumentsFrom_sound reads found).2
  · split at found
    · cases found
      exact ⟨by simp, rfl, by simp, by simp⟩
    · exact (argumentsFrom_sound reads found).2

/-- What begins with an argument is read as one argument or several. -/
theorem argumentList_cons {first : Phrase Token} (grammatical : first.Grammatical Token.toLexeme)
    (others : List (Phrase Token)) (commas rest : List Token) :
    argumentList argument
        (weave (Phrase.tokensOfEach (first :: others)) (commas.map ([·])) ++ rest) =
      argumentsFrom argument
        (weave (Phrase.tokensOfEach (first :: others)) (commas.map ([·])) ++ rest) := by
  obtain ⟨tail, begins⟩ : ∃ tail,
      weave (Phrase.tokensOfEach (first :: others)) (commas.map ([·])) ++ rest =
        first.first :: tail := by
    obtain ⟨tail, same⟩ := List.head?_eq_some_iff.mp first.head?_tokens
    cases commas <;> simp [Phrase.tokensOfEach, weave, same]
  have notClosing : first.first.kind ≠ .rightParenthesis := by
    have begins := grammatical.beginsPhrase
    intro isClosing
    rw [isClosing] at begins
    cases begins
  rw [begins, argumentList, if_neg notClosing]

theorem argumentList_complete (reads : argument.Reads BinaryOp.or.precedence bound)
    {phrases : List (Phrase Token)} {commas : List Token} (rest : List Token) {closing : Token}
    (are : AreArguments bound phrases commas) (closes : closing.kind = .rightParenthesis) :
    argumentList argument
        (weave (Phrase.tokensOfEach phrases) (commas.map ([·])) ++ closing :: rest) =
      .ok (phrases, commas, closing :: rest) := by
  cases phrases with
  | nil =>
      obtain rfl : commas = [] := List.length_eq_zero_iff.mp are.count
      rw [Phrase.tokensOfEach, List.map_nil, weave]
      · rw [List.flatten_nil, List.nil_append, argumentList, if_pos closes]
      · simp
  | cons first others =>
      rw [argumentList_cons (are.inside first (by simp))]
      exact argumentsFrom_complete reads rest (by simp) are closes

/-! ## Operands -/

/-- The productions for what lies one level deeper read just that. -/
structure ReadsInner (inner : Construct → Production) (bound : Nat) : Prop where
  operand : (inner .operand).Reads BinaryOp.operandPrecedence bound
  expression : (inner .expression).Reads BinaryOp.or.precedence bound

theorem expect_of_kind {kind : TokenKind} {token : Token} {rest : List Token}
    (same : token.kind = kind) : expect kind (token :: rest) = .ok (token, rest) := by
  rw [expect, if_pos same]

theorem kind_of_expect {kind : TokenKind} {token : Token} {tokens rest : List Token}
    (found : expect kind tokens = .ok (token, rest)) : token.kind = kind := by
  unfold expect at found
  split at found
  · cases found
  · split at found
    · rename_i same
      cases found
      exact same
    · cases found

theorem named_sound (reads : ReadsInner inner bound) {token : Token} {tokens rest : List Token}
    {phrase : Phrase Token} (word : token.kind = .identifier)
    (free : Literal.ofWord? token.text = none)
    (found : named inner token tokens = .ok (phrase, rest)) :
    phrase.Stands (BinaryOp.operandPrecedence + 1) (bound + 1) rest := by
  unfold named at found
  split at found
  · cases found
    exact ⟨.name word free rfl, Nat.le.refl, Nat.succ_pos _, .nil⟩
  · rename_i opening after
    split at found
    · rename_i opens
      split at found
      · cases found
      · rename_i arguments commas others reading
        have are := argumentList_sound reads.expression reading
        split at found
        · cases found
        · rename_i closing rest' closed
          cases found
          exact .of_closed (.call word free rfl opens (kind_of_expect closed) are.separate
            are.count are.inside) rfl (Phrase.depthOfEach_lt_iff.mpr are.shallow) rfl
    · rename_i notParenthesis
      split at found
      · rename_i opens
        split at found
        · cases found
        · rename_i subscript others reading
          have stands := reads.expression.sound reading
          split at found
          · cases found
          · rename_i closing rest' closed
            cases found
            exact .of_closed (.index word free rfl opens (kind_of_expect closed)
              stands.grammatical) rfl (Nat.succ_lt_succ stands.shallow) rfl
      · rename_i notBracket
        cases found
        refine ⟨.name word free rfl, Nat.le.refl, Nat.succ_pos _, .of_tight (Nat.le_succ _) ?_⟩
        rintro - _ ⟨⟩
        exact ⟨notParenthesis, notBracket⟩

theorem grouped_sound (reads : ReadsInner inner bound) {opening : Token}
    {tokens rest : List Token} {phrase : Phrase Token} (opens : opening.kind = .leftParenthesis)
    (found : grouped inner opening tokens = .ok (phrase, rest)) :
    phrase.Stands (BinaryOp.operandPrecedence + 1) (bound + 1) rest := by
  unfold grouped at found
  split at found
  · cases found
  · rename_i phrase others reading
    have stands := reads.expression.sound reading
    split at found
    · cases found
    · rename_i closing rest' closed
      cases found
      exact .of_closed (.group opens (kind_of_expect closed) stands.grammatical) rfl
        (Nat.succ_lt_succ stands.shallow) rfl

theorem primary_sound (reads : ReadsInner inner bound) {tokens rest : List Token}
    {phrase : Phrase Token} (found : (primary inner).read tokens = .ok (phrase, rest)) :
    phrase.Stands (BinaryOp.operandPrecedence + 1) (bound + 1) rest := by
  match tokens with
  | [] => cases found
  | token :: after =>
      simp only [primary] at found
      split at found
      · split at found
        · rename_i value reading
          cases found
          exact .of_closed (.literal reading) rfl (Nat.succ_pos _) rfl
        · cases found
      · split at found
        · rename_i word
          split at found
          · rename_i value reading
            cases found
            exact .of_closed (.constant word reading) rfl (Nat.succ_pos _) rfl
          · rename_i free
            exact named_sound reads word free found
        · split at found
          · rename_i opens
            exact grouped_sound reads opens found
          · cases found

theorem primary_complete (reads : ReadsInner inner bound) {rest : List Token}
    {phrase : Phrase Token}
    (stands : phrase.Stands (BinaryOp.operandPrecedence + 1) (bound + 1) rest) :
    (primary inner).read (phrase.tokens ++ rest) = .ok (phrase, rest) := by
  obtain ⟨grammatical, tight, shallow, ends⟩ := stands
  cases grammatical with
  | @literal token value reads =>
      have isLiteral := Literal.isLiteral_of_ofLexeme? reads
      simp [primary, Phrase.tokens, isLiteral, reads]
  | @constant token value word reads =>
      simp [primary, Phrase.tokens, word, TokenKind.isLiteral, reads]
  | @name token name word free same =>
      subst same
      have alone : named inner token rest = .ok (.name token token.text, rest) := by
        cases rest with
        | nil => rfl
        | cons next after =>
            obtain ⟨notParenthesis, notBracket⟩ := ends.bracket rfl next rfl
            rw [named, if_neg notParenthesis, if_neg notBracket]
      simp [primary, Phrase.tokens, word, TokenKind.isLiteral, free, alone]
  | @group opening closing phrase opens closes inside =>
      have reading := reads.expression.read_enclosed inside (Nat.lt_of_succ_lt_succ shallow)
        closing rest (by simp [closes])
      simp [primary, grouped, Phrase.tokens, opens, TokenKind.isLiteral, reading,
        expect_of_kind closes]
  | @call callee opening closing name arguments commas word free same opens closes separate count
      inside =>
      subst same
      have reading := argumentList_complete reads.expression rest
        ⟨separate, count, inside, Phrase.depthOfEach_lt_iff.mp shallow⟩ closes
      simp [primary, named, Phrase.tokens, word, TokenKind.isLiteral, free, opens, reading,
        expect_of_kind closes]
  | @index array opening closing name subscript word free same opens closes inside =>
      subst same
      have reading := reads.expression.read_enclosed inside (Nat.lt_of_succ_lt_succ shallow)
        closing rest (by simp [closes])
      simp [primary, named, Phrase.tokens, word, TokenKind.isLiteral, free, opens, reading,
        expect_of_kind closes]
  | unary writes loose inside => exact absurd tight (Nat.not_succ_le_self _)
  | @binary operator token left right writes tightLeft tightRight onLeft onRight =>
      have loose := operator.precedence_lt_operandPrecedence
      exact absurd tight (Nat.not_le_of_gt (Nat.lt_succ_of_lt loose))

/-- An operand that begins with no operator is read as a primary. -/
theorem read_unary_of_not {tokens : List Token}
    (others : ∀ token ∈ tokens.head?, UnaryOp.ofKind? token.kind = none) :
    (unary inner).read tokens = (Production.primary inner).read tokens := by
  cases tokens with
  | nil => rfl
  | cons token rest => simp only [unary, others token rfl]

theorem Reads.unary (reads : ReadsInner inner bound) :
    (unary inner).Reads BinaryOp.operandPrecedence (bound + 1) where
  sound {tokens rest phrase} found := by
    have asPrimary : (Production.primary inner).read tokens = .ok (phrase, rest) →
        phrase.Stands BinaryOp.operandPrecedence (bound + 1) rest := by
      intro found
      have stands := primary_sound reads found
      exact ⟨stands.grammatical, Nat.le_of_succ_le stands.tight, stands.shallow,
        .of_tight Nat.le.refl stands.ends.bracket⟩
    match tokens with
    | [] => exact asPrimary found
    | token :: after =>
        simp only [Production.unary] at found
        split at found
        · exact asPrimary found
        · rename_i operator isOperator
          split at found
          · cases found
          · rename_i operand rest' reading
            cases found
            have stands := reads.operand.sound reading
            exact ⟨.unary (UnaryOp.ofKind?_eq_some_iff.mp isOperator).symm stands.tight
              stands.grammatical, Nat.le.refl, Nat.succ_lt_succ stands.shallow,
              Phrase.endsBefore_unary_iff.mpr stands.ends⟩
  complete rest phrase stands := by
    obtain ⟨grammatical, tight, shallow, ends⟩ := stands
    rcases Nat.lt_or_eq_of_le tight with tighter | same
    · have notUnary := grammatical.ofKind?_first_eq_none tighter
      rw [read_unary_of_not]
      · exact primary_complete reads ⟨grammatical, tighter, shallow, ends.raise⟩
      · obtain ⟨tail, begins⟩ := List.head?_eq_some_iff.mp phrase.head?_tokens
        rw [begins]
        rintro _ ⟨⟩
        exact notUnary
    · cases grammatical with
      | unary writes loose inside =>
          have reading := reads.operand.complete rest
            ⟨inside, loose, Nat.lt_of_succ_lt_succ shallow, Phrase.endsBefore_unary_iff.mp ends⟩
          have isOperator := UnaryOp.ofKind?_eq_some_iff.mpr writes.symm
          simp [Production.unary, Phrase.tokens, isOperator, reading]
      | @binary operator token left right writes tightLeft tightRight onLeft onRight =>
          exact absurd same.symm (Nat.ne_of_lt operator.precedence_lt_operandPrecedence)
      | _ => cases same

end Production

end JassExpr
