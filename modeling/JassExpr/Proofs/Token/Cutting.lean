import JassExpr.Proofs.Token.Recognition

/-!
# A written lexeme is cut off as it was written

In front of anything that lets it end, the text of a lexeme is cut off whole and gives that
lexeme. Again there is one fact for each class; `front_of_written` puts them together. With
`front_recognised` this says exactly what is cut off a text.
-/

namespace JassExpr

theorem IsDecimal.isDigit {digits : List Char} (decimal : IsDecimal digits) :
    ∀ digit ∈ digits, digit.isDigit = true := by
  cases decimal with
  | zero => simp
  | leading digit nonzero others => simpa [digit] using others
  | padded large others =>
      rcases large with rfl | rfl <;> simpa using others

theorem IsDecimal.head {digits : List Char} (decimal : IsDecimal digits) :
    ∃ first rest, digits = first :: rest ∧ first.isDigit = true := by
  cases decimal with
  | zero => exact ⟨_, _, rfl, rfl⟩
  | leading digit nonzero others => exact ⟨_, _, rfl, digit⟩
  | padded large others => exact ⟨_, _, rfl, rfl⟩

theorem escapeMeaning?_isSome {letter : Char} (known : letter ∈ escapeLetters) :
    ∃ meaning, Text.escapeMeaning? letter = some meaning := by
  simp only [escapeLetters, List.mem_cons, List.not_mem_nil, or_false] at known
  rcases known with rfl | rfl | rfl | rfl | rfl | rfl | rfl <;> exact ⟨_, rfl⟩

/-- A spelling is that of a word, of a symbol of one character, or of a longer symbol. -/
theorem TokenKind.spelling?_cases {kind : TokenKind} {text : List Char}
    (spelled : kind.spelling? = some (String.ofList text)) :
    Cut.wordOperator? text = some kind ∨
      (∃ character, text = [character] ∧ Cut.singleSymbol? character = some kind) ∨
        ∃ first second, text = [first, second] ∧ Cut.doubleSymbol? first second = some kind := by
  have letters : kind.spelling?.map String.toList = some text := by simp [spelled]
  cases kind <;> simp only [TokenKind.spelling?, Option.map_some, Option.map_none,
    Option.some.injEq, reduceCtorEq] at letters <;> subst letters
  case and | or | not => exact .inl rfl
  case equal | notEqual | greaterEqual | lessEqual => exact .inr (.inr ⟨_, _, rfl, rfl⟩)
  all_goals exact .inr (.inl ⟨_, rfl, rfl⟩)

namespace Cut

theorem front_word {first : Char} {rest : List Char} (starts : startsWord first = true) :
    front first rest = .ok (word (first :: rest)) := by
  simp [front, starts]

theorem front_number {first : Char} {rest : List Char} (digit : first.isDigit = true) :
    front first rest = number (first :: rest) := by
  simp [front, Text.not_startsWord_of_isDigit digit, digit]

theorem front_symbol {first : Char} {rest : List Char} (notWord : startsWord first = false)
    (notDigit : first.isDigit = false) (notQuote : first ≠ '\x22')
    (notApostrophe : first ≠ '\x27') (notDollar : first ≠ '$') (notSlash : first ≠ '/') :
    front first rest = .ok (symbol first rest) := by
  simp [front, notWord, notDigit, notQuote, notApostrophe, notDollar, notSlash]

/-- A run of word characters is cut off as an operator or as an identifier. -/
theorem word_run {first : Char} {others rest : List Char} (starts : startsWord first = true)
    (continues : ∀ other ∈ others, continuesWord other = true)
    (stops : ∀ next ∈ rest.head?, continuesWord next = false) :
    word (first :: others ++ rest) =
      match wordOperator? (first :: others) with
      | some kind => bare kind (first :: others) rest
      | none => plain .identifier (first :: others) rest := by
  have all : ∀ character ∈ first :: others, continuesWord character = true := by
    intro character member
    rcases List.mem_cons.mp member with rfl | later
    · exact Text.continuesWord_of_startsWord starts
    · exact continues character later
  cases found : wordOperator? (first :: others) <;>
    simp only [word, Text.takeWhile_run all stops, Text.dropWhile_run all stops, found]

theorem wordOperator?_letters {text : List Char} {kind : TokenKind}
    (found : wordOperator? text = some kind) :
    ∃ first others, text = first :: others ∧ startsWord first = true ∧
      ∀ other ∈ others, continuesWord other = true := by
  unfold wordOperator? at found
  split at found
  · exact ⟨_, _, rfl, by decide, List.all_eq_true.mp rfl⟩
  · exact ⟨_, _, rfl, by decide, List.all_eq_true.mp rfl⟩
  · exact ⟨_, _, rfl, by decide, List.all_eq_true.mp rfl⟩
  · simp at found

theorem radixDigits_run (kind : TokenKind) {radix : Radix} (mark : List Char)
    {digits rest : List Char}
    (all : ∀ digit ∈ digits, radix.isDigit digit = true)
    (stops : ∀ next ∈ rest.head?, radix.isDigit next = false) :
    radixDigits kind radix mark (digits ++ rest) =
      ⟨Lexeme.valued kind (String.ofList digits), mark ++ digits, rest⟩ := by
  simp [radixDigits, enclosing, Text.takeWhile_run all stops, Text.dropWhile_run all stops]

theorem decimal_integer {digits rest : List Char}
    (all : ∀ digit ∈ digits, digit.isDigit = true)
    (stops : ∀ next ∈ rest.head?, next.isDigit = false)
    (noPlaces : ∀ digit after, rest = '.' :: digit :: after → digit.isDigit = false) :
    decimal (digits ++ rest) = plain .integer digits rest := by
  simp only [decimal, Text.takeWhile_run all stops, Text.dropWhile_run all stops]
  split
  · rename_i digit after
    simp [noPlaces digit after rfl]
  · rfl

theorem decimal_real {whole places rest : List Char}
    (all : ∀ digit ∈ whole, digit.isDigit = true)
    (nonempty : places ≠ []) (digits : ∀ place ∈ places, place.isDigit = true)
    (stops : ∀ next ∈ rest.head?, next.isDigit = false) :
    decimal (whole ++ '.' :: places ++ rest) = plain .real (whole ++ '.' :: places) rest := by
  obtain ⟨place, others, rfl⟩ := List.exists_cons_of_ne_nil nonempty
  rw [List.forall_mem_cons] at digits
  have taken : (whole ++ '.' :: place :: (others ++ rest)).takeWhile Char.isDigit = whole :=
    Text.takeWhile_run all (by simp)
  have left : (whole ++ '.' :: place :: (others ++ rest)).dropWhile Char.isDigit =
      '.' :: place :: (others ++ rest) :=
    Text.dropWhile_run all (by simp)
  simp only [decimal, List.append_assoc, List.cons_append, taken, left, digits.1, if_true,
    Text.takeWhile_run digits.2 stops, Text.dropWhile_run digits.2 stops]

/-- A decimal integer announces no other radix, alone or in front of its places. -/
theorem number_decimal {digits : List Char} (rest : List Char) (isDecimal : IsDecimal digits)
    (unmarked : digits = ['0'] → ∀ next ∈ rest.head?,
      next ≠ 'x' ∧ next ≠ 'X' ∧ Radix.octal.isDigit next = false) :
    number (digits ++ rest) = .ok (decimal (digits ++ rest)) := by
  cases isDecimal with
  | zero =>
      cases rest with
      | nil => rfl
      | cons next after =>
          obtain ⟨notLower, notUpper, notOctal⟩ := unmarked rfl next rfl
          simp [number, notLower, notUpper, notOctal]
  | leading digit nonzero others =>
      unfold number
      split
      · rename_i second after same
        exact absurd (List.cons.inj same).1 nonzero
      · rfl
  | padded large others =>
      rcases large with rfl | rfl
      · simp [number, show Radix.octal.isDigit '8' = false by decide]
      · simp [number, show Radix.octal.isDigit '9' = false by decide]

theorem Body.after_nil (body : Body) : body.after [] = body := by
  cases body <;> rfl

theorem Body.after_after (first second : List Char) (body : Body) :
    (body.after second).after first = body.after (first ++ second) := by
  cases body <;> simp [Body.after]

/-- The inside of a string literal is passed over, whatever it is that follows. -/
theorem stringBody_append {body : List Char} (escaped : IsStringBody body) (rest : List Char) :
    stringBody (body ++ rest) = (stringBody rest).after body := by
  induction escaped with
  | empty => exact (Body.after_nil _).symm
  | character notQuote notBackslash others ih =>
      rename_i first remaining
      rw [List.cons_append, stringBody.eq_4, if_neg notQuote, ih, Body.after_after]
      · rfl
      · intro same
        exact absurd same notBackslash
      · intro letter after same
        exact absurd same notBackslash
  | @escape letter remaining known others ih =>
      obtain ⟨meaning, found⟩ := escapeMeaning?_isSome known
      simp only [List.cons_append, stringBody, found, ih, Body.after_after, List.nil_append]

theorem stringBody_run {body : List Char} (escaped : IsStringBody body) (rest : List Char) :
    stringBody (body ++ '\x22' :: rest) = .closed body rest := by
  simp [stringBody_append escaped, stringBody, Body.after]

theorem quotedBody_append {code : List Char}
    (alphanumeric : ∀ character ∈ code, character.isAlphanum = true) (rest : List Char) :
    quotedBody (code ++ rest) = (quotedBody rest).after code := by
  induction code with
  | nil => exact (Body.after_nil _).symm
  | cons character others ih =>
      rw [List.forall_mem_cons] at alphanumeric
      have notQuote : character ≠ '\x27' := by
        rintro rfl
        exact absurd alphanumeric.1 (by decide)
      rw [List.cons_append, quotedBody, if_neg notQuote, if_pos alphanumeric.1, ih alphanumeric.2,
        Body.after_after, List.singleton_append]

theorem quotedBody_run {code : List Char}
    (alphanumeric : ∀ character ∈ code, character.isAlphanum = true) (rest : List Char) :
    quotedBody (code ++ '\x27' :: rest) = .closed code rest := by
  simp [quotedBody_append alphanumeric, quotedBody, Body.after]

theorem splitBlock?_run {body : List Char} (unclosed : ¬ ['*', '/'] <:+: body)
    (rest : List Char) :
    splitBlock? (body ++ '*' :: '/' :: rest) = some (body ++ ['*', '/'], rest) := by
  induction body with
  | nil => simp [splitBlock?]
  | cons character others ih =>
      have later : ¬ ['*', '/'] <:+: others := fun inside =>
        unclosed (List.infix_cons_iff.mpr (.inr inside))
      rw [List.cons_append, splitBlock?.eq_3]
      · simp [ih later]
      · intro after isStar follows
        cases others with
        | nil => simp at follows
        | cons second remaining =>
            simp only [List.cons_append, List.cons.injEq] at follows
            obtain ⟨rfl, -⟩ := follows
            subst isStar
            exact unclosed (List.infix_cons_iff.mpr (.inl ⟨remaining, rfl⟩))

theorem symbol_single {first : Char} {rest : List Char}
    (undoubled : ∀ next ∈ rest.head?, doubleSymbol? first next = none) :
    symbol first rest = single first rest := by
  cases rest with
  | nil => rfl
  | cons next after => simp [symbol, undoubled next rfl]

theorem front_singleSymbol {character : Char} {kind : TokenKind} {rest : List Char}
    (found : singleSymbol? character = some kind)
    (apart : ∀ next ∈ rest.head?, kind.attracts [character] next = false) :
    front character rest = .ok (bare kind [character] rest) := by
  have free : ∀ next ∈ rest.head?, doubleSymbol? character next = none ∧
      ¬ (character = '/' ∧ (next = '/' ∨ next = '*')) := by
    intro next member
    have alone := apart next member
    rw [← Bool.not_eq_true, attracts_singleSymbol? found, not_or] at alone
    exact ⟨Option.eq_none_iff_forall_ne_some.mpr fun longer doubled => alone.1 ⟨longer, doubled⟩,
      alone.2⟩
  have cut : symbol character rest = bare kind [character] rest := by
    rw [symbol_single fun next member => (free next member).1, single, found]
  by_cases isSlash : character = '/'
  · subst isSlash
    rw [← cut]
    change slash rest = .ok (symbol '/' rest)
    unfold slash
    split
    · exact absurd ⟨rfl, .inl rfl⟩ (free '/' rfl).2
    · exact absurd ⟨rfl, .inr rfl⟩ (free '*' rfl).2
    · rfl
  · rw [← cut]
    unfold singleSymbol? at found
    split at found <;> first | contradiction | rfl

theorem front_other {character : Char} {rest : List Char} (unclaimed : IsOther character)
    (apart : ∀ next ∈ rest.head?, TokenKind.other.attracts [character] next = false) :
    front character rest = .ok (plain .other [character] rest) := by
  obtain ⟨-, notWord, notDigit, notQuote, notApostrophe, noSpelling⟩ := unclaimed
  have unspelled : ∀ other kind, singleSymbol? other = some kind → character ≠ other := by
    rintro other kind found rfl
    exact noSpelling kind (singleSymbol?_eq_some_iff.mp found)
  have notSymbol : singleSymbol? character = none :=
    Option.eq_none_iff_forall_ne_some.mpr fun kind found => unspelled character kind found rfl
  have free : ∀ next ∈ rest.head?, doubleSymbol? character next = none ∧
      (character = '$' → Radix.hexadecimal.isDigit next = false) := by
    intro next member
    have alone := apart next member
    simp only [TokenKind.attracts, Bool.or_eq_false_iff] at alone
    constructor
    · refine Option.eq_none_iff_forall_ne_some.mpr fun longer doubled => ?_
      obtain ⟨rfl, ⟨same, -⟩ | ⟨same, -⟩ | ⟨same, -⟩ | ⟨rfl, -⟩⟩ :=
        doubleSymbol?_eq_some_iff.mp doubled
      · exact unspelled '>' _ rfl same
      · exact unspelled '<' _ rfl same
      · exact unspelled '=' _ rfl same
      · simp at alone
    · rintro rfl
      simpa using alone.2
  have cut : symbol character rest = plain .other [character] rest := by
    rw [symbol_single fun next member => (free next member).1, single, notSymbol]
  by_cases isDollar : character = '$'
  · subst isDollar
    change Except.ok (dollar rest) = _
    cases rest with
    | nil => rfl
    | cons next after => simp [dollar, (free next rfl).2 rfl, single, notSymbol]
  · rw [front_symbol notWord notDigit notQuote notApostrophe isDollar
      (unspelled '/' _ rfl), cut]

/-- A text with something after it begins with a character from which a lexeme is cut off: that
text, with the rest left over. -/
def Takes (lexeme : Lexeme) (text rest : List Char) : Prop :=
  ∃ first more, text ++ rest = first :: more ∧ front first more = .ok ⟨lexeme, text, rest⟩

variable {rest : List Char}

theorem takes_fixed {kind : TokenKind} {text : List Char}
    (spelled : kind.spelling? = some (String.ofList text)) (ends : kind.Ends text rest) :
    Takes (Lexeme.fixed kind) text rest := by
  rcases TokenKind.spelling?_cases spelled with isWord | ⟨character, rfl, isSingle⟩ |
    ⟨first, second, rfl, isDouble⟩
  · obtain ⟨letter, others, rfl, starts, continues⟩ := wordOperator?_letters isWord
    have attracts := (spelling?_of_wordOperator? isWord).2.2
    refine ⟨letter, others ++ rest, rfl, ?_⟩
    rw [front_word starts, ← List.cons_append, word_run starts continues, isWord]
    · rfl
    · intro next member
      exact (attracts next).symm.trans (ends.apart next member)
  · exact ⟨character, rest, rfl, front_singleSymbol isSingle ends.apart⟩
  · refine ⟨first, second :: rest, rfl, ?_⟩
    rw [doubleSymbol?_eq_some_iff] at isDouble
    obtain ⟨rfl, ⟨rfl, rfl⟩ | ⟨rfl, rfl⟩ | ⟨rfl, rfl⟩ | ⟨rfl, rfl⟩⟩ := isDouble <;> rfl

theorem takes_identifier {first : Char} {others : List Char} (starts : startsWord first = true)
    (continues : ∀ other ∈ others, continuesWord other = true)
    (notOperator : wordOperator? (first :: others) = none)
    (stops : ∀ next ∈ rest.head?, continuesWord next = false) :
    Takes (Lexeme.valued .identifier (String.ofList (first :: others))) (first :: others) rest := by
  refine ⟨first, others ++ rest, rfl, ?_⟩
  rw [front_word starts, ← List.cons_append, word_run starts continues stops, notOperator]
  rfl

/-- Digits that are followed by no further word character are cut off as a number. -/
theorem takes_number {digits text : List Char} {lexeme : Lexeme} (isDecimal : IsDecimal digits)
    (begins : ∃ places, text = digits ++ places)
    (found : number (text ++ rest) = .ok ⟨lexeme, text, rest⟩) :
    Takes lexeme text rest := by
  obtain ⟨places, rfl⟩ := begins
  obtain ⟨first, others, rfl, digit⟩ := isDecimal.head
  exact ⟨first, others ++ places ++ rest, rfl, (front_number digit).trans found⟩

theorem takes_integer {digits : List Char} (isDecimal : IsDecimal digits)
    (ends : TokenKind.integer.Ends digits rest) :
    Takes (Lexeme.valued .integer (String.ofList digits)) digits rest := by
  have free : ∀ next ∈ rest.head?, next.isDigit = false ∧
      (digits = ['0'] → next ≠ 'x' ∧ next ≠ 'X') := by
    intro next member
    have alone := ends.apart next member
    simp only [TokenKind.attracts, Bool.or_eq_false_iff] at alone
    exact ⟨alone.1, by rintro rfl; simpa using alone.2⟩
  refine takes_number isDecimal ⟨[], (List.append_nil digits).symm⟩ ?_
  rw [number_decimal rest isDecimal, decimal_integer isDecimal.isDigit
    (fun next member => (free next member).1) (ends.noPlaces rfl)]
  · rfl
  · intro alone next member
    obtain ⟨notDigit, notMark⟩ := free next member
    refine ⟨(notMark alone).1, (notMark alone).2, ?_⟩
    rw [← Bool.not_eq_true]
    intro octal
    rw [Text.isDigit_of_octal octal] at notDigit
    simp at notDigit

theorem takes_real {whole places : List Char} (isDecimal : IsDecimal whole)
    (nonempty : places ≠ []) (digits : ∀ place ∈ places, place.isDigit = true)
    (stops : ∀ next ∈ rest.head?, next.isDigit = false) :
    Takes (Lexeme.valued .real (String.ofList (whole ++ '.' :: places)))
      (whole ++ '.' :: places) rest := by
  refine takes_number isDecimal ⟨'.' :: places, rfl⟩ ?_
  have unmarked := number_decimal ('.' :: places ++ rest) isDecimal
  rw [← List.append_assoc] at unmarked
  rw [unmarked, decimal_real isDecimal.isDigit nonempty digits stops]
  · rfl
  · intro _ next member
    obtain rfl : '.' = next := Option.some.inj member
    decide

theorem takes_octal {digits : List Char} (nonempty : digits ≠ [])
    (octal : ∀ digit ∈ digits, Radix.octal.isDigit digit = true)
    (stops : ∀ next ∈ rest.head?, Radix.octal.isDigit next = false) :
    Takes (Lexeme.valued .octalInteger (String.ofList digits)) ('0' :: digits) rest := by
  have cut := radixDigits_run .octalInteger ['0'] octal stops
  obtain ⟨digit, others, rfl⟩ := List.exists_cons_of_ne_nil nonempty
  have isOctal := octal digit List.mem_cons_self
  have notMark : ¬ (digit = 'x' ∨ digit = 'X') := by
    rintro (rfl | rfl) <;> exact absurd isOctal (by decide)
  refine ⟨'0', digit :: others ++ rest, rfl, ?_⟩
  rw [front_number rfl]
  simpa only [List.cons_append, List.nil_append, number, notMark, if_false, isOctal,
    if_true] using congrArg Except.ok cut

theorem takes_hexadecimal {mark digits : List Char} (marked : mark ∈ hexadecimalMarks)
    (nonempty : digits ≠ [])
    (hexadecimal : ∀ digit ∈ digits, Radix.hexadecimal.isDigit digit = true)
    (stops : ∀ next ∈ rest.head?, Radix.hexadecimal.isDigit next = false) :
    Takes (Lexeme.valued .hexInteger (String.ofList digits)) (mark ++ digits) rest := by
  have cut := radixDigits_run .hexInteger mark hexadecimal stops
  obtain ⟨digit, others, rfl⟩ := List.exists_cons_of_ne_nil nonempty
  have isDigit := hexadecimal digit List.mem_cons_self
  simp only [hexadecimalMarks, List.mem_cons, List.not_mem_nil, or_false] at marked
  rcases marked with rfl | rfl | rfl
  · refine ⟨'0', 'x' :: (digit :: others ++ rest), rfl, ?_⟩
    rw [front_number rfl]
    simpa [number, markedHexadecimal, isDigit] using cut
  · refine ⟨'0', 'X' :: (digit :: others ++ rest), rfl, ?_⟩
    rw [front_number rfl]
    simpa [number, markedHexadecimal, isDigit] using cut
  · refine ⟨'$', digit :: others ++ rest, rfl, ?_⟩
    change Except.ok (dollar _) = _
    simpa [dollar, isDigit] using cut

theorem takes_quotedInteger {code : List Char}
    (alphanumeric : ∀ character ∈ code, character.isAlphanum = true) :
    Takes (Lexeme.valued .quotedInteger (String.ofList code)) ('\x27' :: (code ++ ['\x27']))
      rest := by
  refine ⟨'\x27', code ++ '\x27' :: rest, by simp, ?_⟩
  change quotedInteger _ = _
  rw [quotedInteger, quotedBody_run alphanumeric]
  rfl

theorem takes_string {body : List Char} (escaped : IsStringBody body) :
    Takes (Lexeme.valued .string (String.ofList body)) ('\x22' :: (body ++ ['\x22'])) rest := by
  refine ⟨'\x22', body ++ '\x22' :: rest, by simp, ?_⟩
  change string _ = _
  rw [string, stringBody_run escaped]
  rfl

theorem takes_lineComment {line : List Char}
    (oneLine : ∀ character ∈ line, character ≠ '\n' ∧ character ≠ '\r')
    (stops : ∀ next ∈ rest.head?, continuesLine next = false) :
    Takes (Lexeme.valued .comment (String.ofList ('/' :: '/' :: line))) ('/' :: '/' :: line)
      rest := by
  have all : ∀ character ∈ '/' :: '/' :: line, continuesLine character = true := by
    simpa [continuesLine] using oneLine
  refine ⟨'/', '/' :: (line ++ rest), rfl, ?_⟩
  change Except.ok (lineComment ('/' :: '/' :: line ++ rest)) = _
  rw [lineComment, Text.takeWhile_run all stops, Text.dropWhile_run all stops]
  rfl

theorem takes_blockComment {body : List Char} (unclosed : ¬ ['*', '/'] <:+: body) :
    Takes (Lexeme.valued .comment (String.ofList ('/' :: '*' :: (body ++ ['*', '/']))))
      ('/' :: '*' :: (body ++ ['*', '/'])) rest := by
  refine ⟨'/', '*' :: (body ++ '*' :: '/' :: rest), by simp, ?_⟩
  change blockComment (body ++ '*' :: '/' :: rest) = _
  rw [blockComment, splitBlock?_run unclosed]
  rfl

/-- A text that writes a lexeme is cut off as that lexeme in front of what lets it end. -/
theorem takes_of_written {lexeme : Lexeme} {text : List Char} (written : lexeme.Written text)
    (ends : lexeme.kind.Ends text rest) :
    Takes lexeme text rest := by
  have apart := ends.apart
  cases written with
  | fixed spelled => exact takes_fixed spelled ends
  | identifier starts continues notOperator =>
      exact takes_identifier starts continues notOperator apart
  | integer isDecimal => exact takes_integer isDecimal ends
  | real isDecimal nonempty digits => exact takes_real isDecimal nonempty digits apart
  | octal nonempty octal => exact takes_octal nonempty octal apart
  | hexadecimal marked nonempty hexadecimal =>
      exact takes_hexadecimal marked nonempty hexadecimal apart
  | quotedInteger alphanumeric => exact takes_quotedInteger alphanumeric
  | string escaped => exact takes_string escaped
  | lineComment oneLine => exact takes_lineComment oneLine apart
  | blockComment unclosed => exact takes_blockComment unclosed
  | other unclaimed =>
      refine ⟨_, rest, rfl, ?_⟩
      rw [front_other unclaimed apart, String.singleton_eq_ofList]
      rfl

end Cut

end JassExpr
