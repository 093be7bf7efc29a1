import JassExpr.Proofs.Text.CharacterClass
import JassExpr.Proofs.Token.Writing

/-!
# A cut takes a lexeme that ends there

Whatever is cut off a text writes its lexeme, and what is left lets that text end. There is one
fact for each way of cutting, and `front_recognised` puts them together.
-/

namespace JassExpr

/-- The ends of the texts of any kind but integers depend on the next character alone. -/
theorem TokenKind.Ends.of_apart {kind : TokenKind} {text rest : List Char}
    (notInteger : kind ≠ .integer)
    (apart : ∀ next ∈ rest.head?, kind.attracts text next = false) :
    kind.Ends text rest where
  apart := apart
  noPlaces isInteger := absurd isInteger notInteger

namespace Cut

/-- What was taken writes the lexeme of a cut, and what is left lets it end. -/
structure Recognised (cut : Cut) : Prop where
  written : cut.lexeme.Written cut.written
  ends : cut.lexeme.kind.Ends cut.written cut.rest

/-- A kind of which no text attracts anything ends wherever it does. -/
theorem Recognised.of_solid {cut : Cut} (written : cut.lexeme.Written cut.written)
    (notInteger : cut.lexeme.kind ≠ .integer)
    (solid : ∀ next, cut.lexeme.kind.attracts cut.written next = false) :
    cut.Recognised :=
  ⟨written, .of_apart notInteger fun next _ => solid next⟩

theorem spelling?_of_wordOperator? {text : List Char} {kind : TokenKind}
    (found : wordOperator? text = some kind) :
    kind.spelling? = some (String.ofList text) ∧
      kind ≠ .integer ∧ ∀ next, kind.attracts text next = continuesWord next := by
  unfold wordOperator? at found
  split at found
  · cases found
    exact ⟨rfl, by decide, fun next => rfl⟩
  · cases found
    exact ⟨rfl, by decide, fun next => rfl⟩
  · cases found
    exact ⟨rfl, by decide, fun next => rfl⟩
  · simp at found

theorem word_recognised {first : Char} {rest : List Char} (starts : startsWord first = true) :
    (word (first :: rest)).Recognised := by
  have continues := Text.continuesWord_of_startsWord starts
  have taken : (first :: rest).takeWhile continuesWord =
      first :: rest.takeWhile continuesWord := by
    simp [continues]
  have stops : ∀ next ∈ ((first :: rest).dropWhile continuesWord).head?,
      continuesWord next = false :=
    Text.head?_dropWhile _
  simp only [word]
  split
  · rename_i kind found
    obtain ⟨spelled, notInteger, attracts⟩ := spelling?_of_wordOperator? found
    refine ⟨.fixed spelled, .of_apart notInteger ?_⟩
    intro next member
    exact (attracts next).trans (stops next member)
  · rename_i notOperator
    refine ⟨?_, .of_apart (by simp [plain, Lexeme.valued]) stops⟩
    simp only [plain, taken] at notOperator ⊢
    exact .identifier starts (Text.forall_mem_takeWhile rest) notOperator

/-- The digits after a mark are recognised when the first of them is one. -/
theorem radixDigits_recognised {kind : TokenKind} {radix : Radix} {mark : List Char}
    {digit : Char} {rest : List Char} (isDigit : radix.isDigit digit = true)
    (notInteger : kind ≠ .integer)
    (writes : ∀ digits : List Char, digits ≠ [] →
      (∀ character ∈ digits, radix.isDigit character = true) →
        (Lexeme.valued kind (String.ofList digits)).Written (mark ++ digits))
    (attracts : ∀ text next, kind.attracts text next = radix.isDigit next) :
    (radixDigits kind radix mark (digit :: rest)).Recognised where
  written := by
    have nonempty : (digit :: rest).takeWhile radix.isDigit ≠ [] := takeWhile_ne_nil isDigit
    simpa [radixDigits, enclosing] using
      writes _ nonempty (Text.forall_mem_takeWhile (digit :: rest))
  ends := by
    refine .of_apart notInteger ?_
    intro next member
    exact (attracts _ next).trans (Text.head?_dropWhile (digit :: rest) next member)

theorem hexadecimal_recognised {mark : List Char} {digit : Char} {rest : List Char}
    (marked : mark ∈ hexadecimalMarks) (isDigit : Radix.hexadecimal.isDigit digit = true) :
    (radixDigits .hexInteger .hexadecimal mark (digit :: rest)).Recognised :=
  radixDigits_recognised isDigit (by decide)
    (fun _ nonempty digits => .hexadecimal marked nonempty digits) fun _ _ => rfl

theorem octal_recognised {digit : Char} {rest : List Char}
    (isDigit : Radix.octal.isDigit digit = true) :
    (radixDigits .octalInteger .octal ['0'] (digit :: rest)).Recognised :=
  radixDigits_recognised isDigit (by decide)
    (fun _ nonempty digits => .octal nonempty digits) fun _ _ => rfl

/-- The digits with which a number begins are those of a decimal integer unless they announce
another radix. -/
theorem isDecimal_takeWhile {first : Char} {rest : List Char} (digit : first.isDigit = true)
    (unmarked : ∀ second after, first :: rest = '0' :: second :: after →
      Radix.octal.isDigit second = false) :
    IsDecimal ((first :: rest).takeWhile Char.isDigit) := by
  have digits : ∀ digit ∈ rest.takeWhile Char.isDigit, digit.isDigit = true :=
    Text.forall_mem_takeWhile rest
  rw [List.takeWhile_cons_of_pos digit]
  by_cases isZero : first = '0'
  · subst isZero
    cases rest with
    | nil => exact .zero
    | cons second after =>
        by_cases another : second.isDigit = true
        · rw [List.takeWhile_cons_of_pos another] at digits ⊢
          refine .padded (Text.large_of_not_octal another (unmarked second after rfl)) ?_
          intro other member
          exact digits other (List.mem_cons_of_mem _ member)
        · rw [List.takeWhile_cons_of_neg another]
          exact .zero
  · exact .leading digit isZero digits

theorem decimal_recognised {first : Char} {rest : List Char} (digit : first.isDigit = true)
    (unmarked : ∀ second after, first :: rest = '0' :: second :: after →
      second ≠ 'x' ∧ second ≠ 'X' ∧ Radix.octal.isDigit second = false) :
    (decimal (first :: rest)).Recognised := by
  have whole := isDecimal_takeWhile digit fun second after same =>
    (unmarked second after same).2.2
  have parts : (first :: rest).takeWhile Char.isDigit ++ (first :: rest).dropWhile Char.isDigit =
      first :: rest :=
    List.takeWhile_append_dropWhile
  have apart : ∀ next ∈ ((first :: rest).dropWhile Char.isDigit).head?,
      TokenKind.integer.attracts ((first :: rest).takeWhile Char.isDigit) next = false := by
    intro next member
    have notDigit := Text.head?_dropWhile (first :: rest) next member
    simp only [TokenKind.attracts, notDigit, Bool.false_or, Bool.and_eq_false_iff,
      beq_eq_false_iff_ne]
    by_cases alone : (first :: rest).takeWhile Char.isDigit = ['0']
    · obtain ⟨after, follows⟩ : ∃ after, (first :: rest).dropWhile Char.isDigit = next :: after :=
        List.head?_eq_some_iff.mp member
      rw [alone, follows] at parts
      obtain ⟨notLower, notUpper, -⟩ := unmarked next after parts.symm
      exact .inr (by simp [notLower, notUpper])
    · exact .inl alone
  simp only [decimal]
  split
  · rename_i second after follows
    rw [follows] at apart
    split
    · rename_i isPlace
      refine ⟨?_, .of_apart (by simp [plain, Lexeme.valued]) (Text.head?_dropWhile after)⟩
      refine .real whole (List.cons_ne_nil _ _) ?_
      intro place member
      rcases List.mem_cons.mp member with rfl | later
      · exact isPlace
      · exact Text.forall_mem_takeWhile after place later
    · rename_i noPlace
      refine ⟨.integer whole, apart, ?_⟩
      intro _ place others same
      simp only [plain, List.cons.injEq, true_and] at same
      obtain ⟨rfl, -⟩ := same
      simpa using noPlace
  · rename_i noPlaces
    refine ⟨.integer whole, apart, ?_⟩
    intro _ place others same
    exact absurd same (noPlaces place others)

theorem number_recognised {first : Char} {rest : List Char} {cut : Cut}
    (digit : first.isDigit = true) (found : number (first :: rest) = .ok cut) :
    cut.Recognised := by
  unfold number at found
  split at found
  · rename_i second after same
    split at found
    · rename_i isMark
      unfold markedHexadecimal at found
      split at found
      · simp at found
      · split at found
        · rename_i isDigit
          cases found
          refine hexadecimal_recognised ?_ isDigit
          rcases isMark with rfl | rfl <;> simp [hexadecimalMarks]
        · simp at found
    · rename_i notMark
      split at found
      · rename_i isOctal
        cases found
        exact octal_recognised isOctal
      · rename_i notOctal
        cases found
        refine decimal_recognised digit ?_
        intro second' after' same'
        obtain ⟨rfl, rfl⟩ : second = second' ∧ after = after' := by simp_all
        exact ⟨(not_or.mp notMark).1, (not_or.mp notMark).2, by simpa using notOctal⟩
  · rename_i unmarked
    cases found
    refine decimal_recognised digit ?_
    intro second after same
    exact absurd same (unmarked second after)

theorem mem_escapeLetters_of_meaning {letter meaning : Char}
    (known : Text.escapeMeaning? letter = some meaning) :
    letter ∈ escapeLetters := by
  unfold Text.escapeMeaning? at known
  split at known <;> cases known <;> simp [escapeLetters]

theorem isStringBody_of_closed {text body rest : List Char}
    (closed : stringBody text = .closed body rest) :
    IsStringBody body := by
  fun_induction stringBody text generalizing body rest with
  | case1 => simp at closed
  | case2 => simp at closed
  | case3 letter after meaning known ih =>
      cases inner : stringBody after with
      | closed innerBody innerRest =>
          simp only [inner, Body.after, Body.closed.injEq] at closed
          obtain ⟨rfl, rfl⟩ := closed
          exact .escape (mem_escapeLetters_of_meaning known) (ih inner)
      | unclosed => simp [inner, Body.after] at closed
      | refused before character => simp [inner, Body.after] at closed
  | case4 => simp at closed
  | case5 =>
      cases closed
      exact .empty
  | case6 character after notEnd notEscape notQuote ih =>
      have notBackslash : character ≠ '\\' := by
        rintro rfl
        cases after with
        | nil => exact notEnd rfl rfl
        | cons letter others => exact notEscape letter others rfl rfl
      cases inner : stringBody after with
      | closed innerBody innerRest =>
          simp only [inner, Body.after, Body.closed.injEq] at closed
          obtain ⟨rfl, rfl⟩ := closed
          exact .character notQuote notBackslash (ih inner)
      | unclosed => simp [inner, Body.after] at closed
      | refused before refusal => simp [inner, Body.after] at closed

theorem isAlphanum_of_closed {text body rest : List Char}
    (closed : quotedBody text = .closed body rest) :
    ∀ character ∈ body, character.isAlphanum = true := by
  fun_induction quotedBody text generalizing body rest with
  | case1 => simp at closed
  | case2 =>
      cases closed
      simp
  | case3 character after notQuote alphanumeric ih =>
      cases inner : quotedBody after with
      | closed innerBody innerRest =>
          simp only [inner, Body.after, Body.closed.injEq] at closed
          obtain ⟨rfl, rfl⟩ := closed
          simpa [alphanumeric] using ih inner
      | unclosed => simp [inner, Body.after] at closed
      | refused before refusal => simp [inner, Body.after] at closed
  | case4 => simp at closed

theorem string_recognised {rest : List Char} {cut : Cut} (found : string rest = .ok cut) :
    cut.Recognised := by
  unfold string at found
  split at found
  · rename_i body after closed
    cases found
    exact .of_solid (.string (isStringBody_of_closed closed))
      (by simp [enclosing, Lexeme.valued]) fun _ => rfl
  · simp at found
  · simp at found

theorem quotedInteger_recognised {rest : List Char} {cut : Cut}
    (found : quotedInteger rest = .ok cut) :
    cut.Recognised := by
  unfold quotedInteger at found
  split at found
  · rename_i body after closed
    cases found
    exact .of_solid (.quotedInteger (isAlphanum_of_closed closed))
      (by simp [enclosing, Lexeme.valued]) fun _ => rfl
  · simp at found
  · simp at found

/-- The text of a block comment goes up to the first end mark. -/
theorem unclosed_of_splitBlock? {text block rest : List Char}
    (found : splitBlock? text = some (block, rest)) :
    ∃ body, block = body ++ ['*', '/'] ∧ ¬ ['*', '/'] <:+: body := by
  fun_induction splitBlock? text generalizing block rest with
  | case1 => simp at found
  | case2 =>
      cases found
      exact ⟨[], rfl, by simp⟩
  | case3 character after notEnd ih =>
      simp only [Option.map_eq_some_iff, Prod.exists, Prod.mk.injEq] at found
      obtain ⟨innerBlock, innerRest, inner, rfl, rfl⟩ := found
      obtain ⟨body, rfl, unclosed⟩ := ih inner
      refine ⟨character :: body, rfl, ?_⟩
      intro closed
      rcases List.infix_cons_iff.mp closed with ⟨others, here⟩ | later
      · have follows := splitBlock?_append inner
        cases body with
        | nil => simp at here
        | cons second body =>
            simp only [List.cons_append, List.nil_append, List.cons.injEq] at here
            obtain ⟨rfl, rfl, -⟩ := here
            exact notEnd _ rfl follows.symm
      · exact unclosed later

theorem lineComment_recognised (rest : List Char) :
    (lineComment ('/' :: '/' :: rest)).Recognised := by
  have taken : ('/' :: '/' :: rest).takeWhile continuesLine =
      '/' :: '/' :: rest.takeWhile continuesLine := by
    simp [continuesLine]
  refine ⟨?_, .of_apart (by simp [lineComment, plain, Lexeme.valued]) ?_⟩
  · simp only [lineComment, plain, taken]
    refine .lineComment ?_
    intro character member
    simpa [continuesLine] using Text.forall_mem_takeWhile rest character member
  · intro next member
    have stops : continuesLine next = false :=
      Text.head?_dropWhile ('/' :: '/' :: rest) next member
    simp [lineComment, plain, Lexeme.valued, TokenKind.attracts, stops]

theorem blockComment_recognised {rest : List Char} {cut : Cut}
    (found : blockComment rest = .ok cut) :
    cut.Recognised := by
  unfold blockComment at found
  split at found
  · rename_i block after split
    cases found
    obtain ⟨body, rfl, unclosed⟩ := unclosed_of_splitBlock? split
    exact .of_solid (.blockComment unclosed) (by simp [plain, Lexeme.valued]) fun _ => rfl
  · simp at found

theorem singleSymbol?_eq_some_iff {character : Char} {kind : TokenKind} :
    singleSymbol? character = some kind ↔ kind.spelling? = some (String.singleton character) := by
  rw [String.singleton_eq_ofList]
  constructor
  · intro found
    unfold singleSymbol? at found
    split at found <;> cases found <;> rfl
  · intro spelled
    cases kind <;> simp only [TokenKind.spelling?, Option.some.injEq, reduceCtorEq] at spelled
    all_goals
      have letters := congrArg String.toList spelled
      simp at letters
    all_goals
      subst letters
      rfl

theorem doubleSymbol?_eq_some_iff {first second : Char} {kind : TokenKind} :
    doubleSymbol? first second = some kind ↔
      second = '=' ∧ ((first = '>' ∧ kind = .greaterEqual) ∨ (first = '<' ∧ kind = .lessEqual) ∨
        (first = '=' ∧ kind = .equal) ∨ (first = '!' ∧ kind = .notEqual)) := by
  unfold doubleSymbol?
  split <;> grind

/-- What a single symbol attracts is the second character of a longer symbol or of the mark of a
comment. -/
theorem attracts_singleSymbol? {first next : Char} {kind : TokenKind}
    (found : singleSymbol? first = some kind) :
    kind.attracts [first] next = true ↔
      (∃ longer, doubleSymbol? first next = some longer) ∨
        (first = '/' ∧ (next = '/' ∨ next = '*')) := by
  simp only [doubleSymbol?_eq_some_iff]
  unfold singleSymbol? at found
  split at found <;> cases found <;> simp [TokenKind.attracts]

theorem ne_integer_of_singleSymbol? {character : Char} {kind : TokenKind}
    (found : singleSymbol? character = some kind) :
    kind ≠ .integer := by
  rintro rfl
  rw [singleSymbol?_eq_some_iff] at found
  simp [TokenKind.spelling?] at found

/-- A symbol of one character is recognised in front of what does not make it a longer one. -/
theorem single_recognised {first : Char} {rest : List Char} (notBlank : isBlank first = false)
    (notWord : startsWord first = false) (notDigit : first.isDigit = false)
    (notQuote : first ≠ '\x22') (notApostrophe : first ≠ '\x27')
    (undoubled : ∀ next ∈ rest.head?, doubleSymbol? first next = none)
    (noComment : first = '/' → ∀ next ∈ rest.head?, next ≠ '/' ∧ next ≠ '*')
    (noHexadecimal : first = '$' → ∀ next ∈ rest.head?, Radix.hexadecimal.isDigit next = false) :
    (single first rest).Recognised := by
  unfold single
  split
  · rename_i kind found
    have spelled := singleSymbol?_eq_some_iff.mp found
    rw [String.singleton_eq_ofList] at spelled
    refine ⟨.fixed spelled, .of_apart (ne_integer_of_singleSymbol? found) ?_⟩
    intro next member
    rw [← Bool.not_eq_true]
    intro attracted
    rcases (attracts_singleSymbol? found).mp attracted with ⟨longer, doubled⟩ | ⟨isSlash, mark⟩
    · rw [undoubled next member] at doubled
      simp at doubled
    · have := noComment isSlash next member
      rcases mark with isMark | isMark
      · exact this.1 isMark
      · exact this.2 isMark
  · rename_i unclaimed
    have isOther : IsOther first := by
      refine ⟨notBlank, notWord, notDigit, notQuote, notApostrophe, ?_⟩
      intro kind spelled
      rw [singleSymbol?_eq_some_iff.mpr spelled] at unclaimed
      simp at unclaimed
    refine ⟨?_, .of_apart (by simp [plain, Lexeme.valued]) ?_⟩
    · have written := Lexeme.Written.other isOther
      rw [String.singleton_eq_ofList] at written
      exact written
    · intro next member
      change ([first] == ['!'] && next == '=' ||
        [first] == ['$'] && Radix.hexadecimal.isDigit next) = false
      rw [Bool.or_eq_false_iff]
      constructor
      · by_cases isMark : first = '!'
        · have notEqual : next ≠ '=' := by
            rintro rfl
            have := undoubled '=' member
            simp [isMark, doubleSymbol?] at this
          simp [notEqual]
        · simp [isMark]
      · by_cases isDollar : first = '$'
        · simp [noHexadecimal isDollar next member]
        · simp [isDollar]

theorem symbol_recognised {first : Char} {rest : List Char} (notBlank : isBlank first = false)
    (notWord : startsWord first = false) (notDigit : first.isDigit = false)
    (notQuote : first ≠ '\x22') (notApostrophe : first ≠ '\x27')
    (noComment : first = '/' → ∀ next ∈ rest.head?, next ≠ '/' ∧ next ≠ '*')
    (noHexadecimal : first = '$' → ∀ next ∈ rest.head?, Radix.hexadecimal.isDigit next = false) :
    (symbol first rest).Recognised := by
  unfold symbol
  split
  · exact single_recognised notBlank notWord notDigit notQuote notApostrophe (by simp) noComment
      noHexadecimal
  · rename_i second after
    split
    · rename_i kind found
      rw [doubleSymbol?_eq_some_iff] at found
      obtain ⟨rfl, ⟨rfl, rfl⟩ | ⟨rfl, rfl⟩ | ⟨rfl, rfl⟩ | ⟨rfl, rfl⟩⟩ := found <;>
        exact .of_solid (.fixed rfl) (by simp [bare, Lexeme.fixed]) fun _ => rfl
    · rename_i undoubled
      refine single_recognised notBlank notWord notDigit notQuote notApostrophe ?_ noComment
        noHexadecimal
      intro next member
      obtain rfl : second = next := Option.some.inj member
      exact undoubled

theorem dollar_recognised (rest : List Char) : (dollar rest).Recognised := by
  have alone : ∀ after : List Char,
      (∀ next ∈ after.head?, Radix.hexadecimal.isDigit next = false) →
        (single '$' after).Recognised := by
    intro after noHexadecimal
    exact single_recognised rfl rfl rfl (by decide) (by decide) (fun _ _ => rfl)
      (fun isSlash => absurd isSlash (by decide)) fun _ => noHexadecimal
  unfold dollar
  split
  · exact alone [] (by simp)
  · rename_i digit after
    split
    · rename_i isDigit
      exact hexadecimal_recognised (by simp [hexadecimalMarks]) isDigit
    · rename_i notDigit
      refine alone _ ?_
      intro next member
      obtain rfl : digit = next := Option.some.inj member
      simpa using notDigit

theorem slash_recognised {rest : List Char} {cut : Cut} (found : slash rest = .ok cut) :
    cut.Recognised := by
  unfold slash at found
  split at found
  · cases found
    exact lineComment_recognised _
  · exact blockComment_recognised found
  · rename_i notLine notBlock
    cases found
    refine symbol_recognised rfl rfl rfl (by decide) (by decide) ?_
      fun isDollar => absurd isDollar (by decide)
    intro _ next member
    obtain ⟨after, rfl⟩ := List.head?_eq_some_iff.mp member
    exact ⟨by rintro rfl; exact notLine after rfl, by rintro rfl; exact notBlock after rfl⟩

/-- Whatever lexeme is cut off a text is written as its class says and ends where the cut is. -/
theorem front_recognised {first : Char} {rest : List Char} {cut : Cut}
    (notBlank : isBlank first = false) (found : front first rest = .ok cut) :
    cut.Recognised := by
  unfold front at found
  split at found
  · rename_i starts
    cases found
    exact word_recognised starts
  · rename_i notWord
    split at found
    · rename_i digit
      exact number_recognised digit found
    · rename_i notDigit
      split at found
      · exact string_recognised found
      · rename_i notQuote
        split at found
        · exact quotedInteger_recognised found
        · rename_i notApostrophe
          split at found
          · cases found
            exact dollar_recognised rest
          · rename_i notDollar
            split at found
            · exact slash_recognised found
            · rename_i notSlash
              cases found
              exact symbol_recognised notBlank (by simpa using notWord) (by simpa using notDigit)
                notQuote notApostrophe (fun isSlash => absurd isSlash notSlash)
                fun isDollar => absurd isDollar notDollar

end Cut

end JassExpr
