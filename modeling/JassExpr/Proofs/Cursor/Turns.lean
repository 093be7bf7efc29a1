import JassExpr.Proofs.Cursor.Literals

/-!
# Each turn of the cursor cuts a lexeme

From a boundary between characters, a turn of the cursor does what cutting a lexeme off the text
there does, and takes only slices of the source. There is one fact for each way of cutting;
`gives_turn` puts them together.
-/

namespace JassExpr

namespace Cursor

open Source Text

variable {source : String} {before text rest : List Char} {first : Char}

theorem takeWhile_dropWhile (test : Char → Bool) (whole : source.toList = before ++ text) :
    source.toList = before ++ (text.takeWhile test ++ text.dropWhile test) := by
  rwa [List.takeWhile_append_dropWhile]

theorem gives_word (whole : source.toList = before ++ text) :
    (word source (byteLength before)).Gives source
      (.ofFront source (byteLength before) (.ok (Cut.word text))) := by
  have stops := pass_append bytewise_continuesWord whole
  have parts := takeWhile_dropWhile Cut.continuesWord whole
  have partsSlice := parts
  rw [← List.append_assoc] at partsSlice
  apply Sliced.Gives.bind (.slice partsSlice rfl stops)
  rw [String.toList_ofList, Cut.word]
  cases Cut.wordOperator? (text.takeWhile Cut.continuesWord) with
  | some kind => exact gives_bare kind stops
  | none => exact gives_plain parts stops

theorem gives_radixDigits (kind : TokenKind) {radix : Radix} (bytewise : Bytewise radix.isDigit)
    {mark : List Char} {digits : Nat} (whole : source.toList = before ++ (mark ++ text))
    (starts : digits = byteLength (before ++ mark)) :
    (radixDigits source kind radix (byteLength before) digits).Gives source
      (.ofFront source (byteLength before) (.ok (Cut.radixDigits kind radix mark text))) := by
  have wholeDigits : source.toList = before ++ mark ++ text := by rw [whole, List.append_assoc]
  have stops := pass_append bytewise wholeDigits
  have parts : source.toList = before ++ (mark ++ text.takeWhile radix.isDigit ++ [] ++
      text.dropWhile radix.isDigit) := by
    rw [List.append_nil, List.append_assoc, List.takeWhile_append_dropWhile]
    exact whole
  rw [← starts] at stops
  exact gives_valued parts starts stops

/-- The bytes behind some digits tell whether a point and another digit stand there. -/
theorem point_and_digit_iff {digits behind : List Char}
    (whole : source.toList = before ++ digits ++ behind) :
    (byteAt? source (byteLength (before ++ digits)) = some '.' ∧
        (byteAt? source (byteLength (before ++ digits) + 1)).any Char.isDigit = true) ↔
      ∃ digit places, behind = '.' :: digit :: places ∧ digit.isDigit = true := by
  have isAscii : '.'.toNat < 128 := by decide
  have next := next_place (before ++ digits) (rfl : '.'.utf8Size = 1)
  rw [byteAt?_eq_some_iff isAscii whole, next]
  constructor
  · rintro ⟨point, anyDigit⟩
    obtain ⟨places, rfl⟩ := List.head?_eq_some_iff.mp point
    have wholePlaces : source.toList = before ++ digits ++ ['.'] ++ places := by simpa using whole
    rw [any_byteAt? bytewise_isDigit wholePlaces] at anyDigit
    cases places with
    | nil => cases anyDigit
    | cons digit places => exact ⟨digit, places, rfl, anyDigit⟩
  · rintro ⟨digit, places, rfl, isDigit⟩
    have wholePlaces : source.toList = before ++ digits ++ ['.'] ++ digit :: places := by
      simpa using whole
    rw [any_byteAt? bytewise_isDigit wholePlaces]
    exact ⟨rfl, isDigit⟩

theorem gives_decimal (whole : source.toList = before ++ text) :
    (decimal source (byteLength before)).Gives source
      (.ofFront source (byteLength before) (.ok (Cut.decimal text))) := by
  have stops := pass_append bytewise_isDigit whole
  have parts := takeWhile_dropWhile Char.isDigit whole
  have allDigits : ∀ digit ∈ text.takeWhile Char.isDigit, digit.isDigit = true :=
    forall_mem_takeWhile text
  have noDigit : ∀ next ∈ (text.dropWhile Char.isDigit).head?, next.isDigit = false :=
    head?_dropWhile text
  have textParts : text.takeWhile Char.isDigit ++ text.dropWhile Char.isDigit = text :=
    List.takeWhile_append_dropWhile
  rw [decimal, stops]
  generalize text.takeWhile Char.isDigit = digits at parts allDigits textParts ⊢
  generalize text.dropWhile Char.isDigit = behind at parts noDigit textParts
  rw [← textParts]
  have partsBehind := parts
  rw [← List.append_assoc] at partsBehind
  have places_iff := point_and_digit_iff partsBehind
  by_cases hasPlaces : ∃ digit places, behind = '.' :: digit :: places ∧ digit.isDigit = true
  · rw [if_pos (places_iff.mpr hasPlaces)]
    obtain ⟨digit, places, rfl, isDigit⟩ := hasPlaces
    have next := next_place (before ++ digits) (rfl : '.'.utf8Size = 1)
    have partsPlaces : source.toList = before ++ digits ++ ['.'] ++ digit :: places := by
      simpa using parts
    have stopsPlaces := pass_append bytewise_isDigit partsPlaces
    have runDigits : ∀ place ∈ digit :: places.takeWhile Char.isDigit, place.isDigit = true :=
      List.forall_mem_cons.mpr ⟨isDigit, forall_mem_takeWhile places⟩
    have run : digits ++ '.' :: digit :: places = digits ++ '.' :: (digit ::
        places.takeWhile Char.isDigit) ++ places.dropWhile Char.isDigit := by simp
    rw [List.takeWhile_cons_of_pos isDigit, ← next] at stopsPlaces
    rw [run, Cut.decimal_real allDigits (List.cons_ne_nil _ _) runDigits (head?_dropWhile places)]
    rw [run] at parts
    apply gives_plain parts
    rw [stopsPlaces]
    simp
  · have noPlaces : ∀ digit after, behind = '.' :: digit :: after → digit.isDigit = false := by
      intro digit after begins
      rw [← Bool.not_eq_true]
      exact fun isDigit => hasPlaces ⟨digit, after, begins, isDigit⟩
    rw [if_neg (hasPlaces ∘ places_iff.mp), Cut.decimal_integer allDigits noDigit noPlaces]
    exact gives_plain parts rfl

theorem gives_markedHexadecimal {second : Char} (isMark : second = 'x' ∨ second = 'X')
    (whole : source.toList = before ++ (['0', second] ++ text))
    (marked : (splitMark source.toList).1 <+: before) :
    (markedHexadecimal source (byteLength before)).Gives source
      (.ofFront source (byteLength before) (Cut.markedHexadecimal ['0', second] text)) := by
  have wholeDigits : source.toList = before ++ ['0', second] ++ text := by
    rw [whole, List.append_assoc]
  have next : byteLength before + 2 = byteLength (before ++ ['0', second]) := by
    rw [byteLength_append]
    rcases isMark with rfl | rfl <;> rfl
  have stops := pass_append bytewise_hexadecimal wholeDigits
  have noDigits_iff : byteLength (before ++ ['0', second] ++
      text.takeWhile Radix.hexadecimal.isDigit) = byteLength (before ++ ['0', second]) ↔
        text.takeWhile Radix.hexadecimal.isDigit = [] := by
    rw [byteLength_append (before ++ ['0', second]), Nat.add_eq_left, byteLength_eq_zero_iff]
  have digits := gives_radixDigits .hexInteger bytewise_hexadecimal whole next
  rw [markedHexadecimal, next, stops]
  simp only [noDigits_iff]
  cases text with
  | nil => exact gives_fail .emptyHexLiteral whole marked
  | cons digit after =>
      by_cases isDigit : Radix.hexadecimal.isDigit digit = true
      · rw [Cut.markedHexadecimal, if_pos isDigit, List.takeWhile_cons_of_pos isDigit,
          if_neg (List.cons_ne_nil _ _), ← next]
        exact digits
      · rw [Cut.markedHexadecimal, if_neg isDigit, List.takeWhile_cons_of_neg isDigit, if_pos rfl]
        exact gives_fail .emptyHexLiteral whole marked

theorem gives_number (whole : source.toList = before ++ text)
    (marked : (splitMark source.toList).1 <+: before) :
    (number source (byteLength before)).Gives source
      (.ofFront source (byteLength before) (Cut.number text)) := by
  have isAscii : '0'.toNat < 128 := by decide
  have isZero := byteAt?_eq_some_iff isAscii whole
  rw [Cut.number.eq_def]
  split
  · rename_i second after
    have wholeZero : source.toList = before ++ ['0'] ++ second :: after :=
    whole.trans (List.append_cons _ _ _)
    have next := next_place before (rfl : '0'.utf8Size = 1)
    obtain ⟨lead, found, same, same_iff⟩ := byteAt?_cons wholeZero
    have isLower : 'x'.toNat < 128 := by decide
    have isUpper : 'X'.toNat < 128 := by decide
    have isMark_iff : lead = 'x' ∨ lead = 'X' ↔ second = 'x' ∨ second = 'X' := by
      rw [same_iff isLower, same_iff isUpper]
    rw [number, if_pos (isZero.mpr rfl), next, found]
    simp only [isMark_iff, same bytewise_octal]
    split
    · rename_i isMark
      exact gives_markedHexadecimal isMark whole marked
    · split
      · exact gives_radixDigits .octalInteger bytewise_octal whole rfl
      · exact gives_decimal whole
  · rename_i noSecond
    have decimal := gives_decimal whole
    rw [number]
    split
    · rename_i zero
      obtain ⟨after, rfl⟩ := List.head?_eq_some_iff.mp (isZero.mp zero)
      cases after with
      | nil =>
          have next := next_place before (rfl : '0'.utf8Size = 1)
          rw [next, byteAt?_nil whole]
          exact decimal
      | cons second after => exact absurd rfl (noSecond second after)
    · exact decimal

theorem gives_lineComment (whole : source.toList = before ++ text) :
    (lineComment source (byteLength before)).Gives source
      (.ofFront source (byteLength before) (.ok (Cut.lineComment text))) :=
  gives_plain (takeWhile_dropWhile Cut.continuesLine whole)
    (pass_append bytewise_continuesLine whole)

theorem gives_blockComment (whole : source.toList = before ++ '/' :: '*' :: text)
    (marked : (splitMark source.toList).1 <+: before) :
    (blockComment source (byteLength before)).Gives source
      (.ofFront source (byteLength before) (Cut.blockComment text)) := by
  have next : byteLength before + 2 = byteLength (before ++ ['/', '*']) := by
    rw [byteLength_append]
    rfl
  have wholeText : source.toList = before ++ ['/', '*'] ++ text ++ [] := by
    rw [whole]
    simp
  have stops : source.utf8ByteSize = byteLength (before ++ ['/', '*'] ++ text) := by
    rw [utf8ByteSize_eq, wholeText, List.append_nil]
  rw [blockComment, next]
  apply Sliced.Gives.bind (.slice wholeText rfl stops)
  rw [String.toList_ofList, Cut.blockComment]
  cases found : Cut.splitBlock? text with
  | none => exact gives_fail .unterminatedBlockComment whole marked
  | some split =>
      obtain ⟨block, rest⟩ := split
      have parts := Cut.splitBlock?_append found
      have wholeBlock : source.toList = before ++ ('/' :: '*' :: block ++ rest) := by
        rw [whole, ← parts]
        rfl
      apply gives_plain wholeBlock
      rw [← byteLength_append, List.append_assoc]
      rfl

theorem gives_other (whole : source.toList = before ++ first :: rest) :
    (other source (byteLength before)).Gives source
      (.ofFront source (byteLength before) (.ok (Cut.plain .other [first] rest))) := by
  have stops : byteLength before + first.utf8Size = byteLength (before ++ [first]) := by
    rw [byteLength_append]
    rfl
  apply Sliced.Gives.bind (gives_characterAt whole)
  exact gives_plain whole stops

/-- No symbol begins or goes on with a character of several bytes. -/
theorem utf8Size_of_singleSymbol {kind : TokenKind} (found : Cut.singleSymbol? first = some kind) :
    first.utf8Size = 1 := by
  unfold Cut.singleSymbol? at found
  split at found <;> first | rfl | cases found

theorem utf8Size_of_doubleSymbol {second : Char} {kind : TokenKind}
    (found : Cut.doubleSymbol? first second = some kind) :
    first.utf8Size = 1 ∧ second.utf8Size = 1 := by
  unfold Cut.doubleSymbol? at found
  split at found <;> first | exact ⟨rfl, rfl⟩ | cases found

theorem gives_single (whole : source.toList = before ++ first :: rest) :
    (match Cut.singleSymbol? first with
      | some kind => fixed kind (byteLength before) (byteLength before + 1)
      | none => other source (byteLength before)).Gives source
        (.ofFront source (byteLength before) (.ok (Cut.single first rest))) := by
  rw [Cut.single]
  cases found : Cut.singleSymbol? first with
  | some kind =>
      apply gives_bare
      rw [byteLength_append, byteLength_cons, utf8Size_of_singleSymbol found]
      rfl
  | none => exact gives_other whole

/-- The next byte makes a longer symbol just where the next character does. Behind a character of
several bytes there is none in either case. -/
theorem bind_doubleSymbol (whole : source.toList = before ++ first :: rest) :
    (byteAt? source (byteLength before + 1)).bind (Cut.doubleSymbol? first) =
      rest.head?.bind (Cut.doubleSymbol? first) := by
  by_cases isAscii : first.toNat < 128
  · have next := next_place before (utf8Size_of_lt isAscii)
    have wholeNext : source.toList = before ++ [first] ++ rest :=
    whole.trans (List.append_cons _ _ _)
    have same := congrArg (Option.bind · id) (map_byteAt? (bytewise_doubleSymbol first) wholeNext)
    rw [next]
    simpa [Option.bind_map] using same
  · have noDouble : Cut.doubleSymbol? first = fun _ => none := by
      funext second
      rw [Option.eq_none_iff_forall_ne_some]
      intro kind found
      have size := (utf8Size_of_doubleSymbol found).1
      rw [Char.utf8Size_eq_one_iff] at size
      exact isAscii (Nat.lt_succ_of_le size)
    rw [noDouble, Option.bind_fun_none, Option.bind_fun_none]

theorem gives_symbol (whole : source.toList = before ++ first :: rest) :
    (symbol source first (byteLength before)).Gives source
      (.ofFront source (byteLength before) (.ok (Cut.symbol first rest))) := by
  have single := gives_single whole
  rw [symbol, bind_doubleSymbol whole]
  cases rest with
  | nil => exact single
  | cons second after =>
      rw [Cut.symbol, List.head?_cons, Option.bind_some]
      cases found : Cut.doubleSymbol? first second with
      | none => exact single
      | some kind =>
          obtain ⟨size, sizeSecond⟩ := utf8Size_of_doubleSymbol found
          apply gives_bare
          rw [byteLength_append, byteLength_cons, byteLength_cons, size, sizeSecond]
          rfl

theorem gives_dollar (whole : source.toList = before ++ '$' :: rest) :
    (if (byteAt? source (byteLength before + 1)).any Radix.hexadecimal.isDigit then
      radixDigits source .hexInteger .hexadecimal (byteLength before) (byteLength before + 1)
    else symbol source '$' (byteLength before)).Gives source
      (.ofFront source (byteLength before) (.ok (Cut.dollar rest))) := by
  have next := next_place before (rfl : '$'.utf8Size = 1)
  have wholeNext : source.toList = before ++ ['$'] ++ rest :=
    whole.trans (List.append_cons _ _ _)
  have single := gives_symbol whole
  have noDouble : ∀ second, Cut.doubleSymbol? '$' second = none := fun _ => rfl
  rw [next, any_byteAt? bytewise_hexadecimal wholeNext]
  cases rest with
  | nil => exact single
  | cons digit after =>
      rw [Cut.symbol, noDouble] at single
      rw [Cut.dollar, List.head?_cons, Option.any_some]
      split
      · exact gives_radixDigits .hexInteger bytewise_hexadecimal whole rfl
      · exact single

theorem gives_slash (whole : source.toList = before ++ '/' :: rest)
    (marked : (splitMark source.toList).1 <+: before) :
    (if byteAt? source (byteLength before + 1) = some '/' then
      lineComment source (byteLength before)
    else if byteAt? source (byteLength before + 1) = some '*' then
      blockComment source (byteLength before)
    else symbol source '/' (byteLength before)).Gives source
      (.ofFront source (byteLength before) (Cut.slash rest)) := by
  have next := next_place before (rfl : '/'.utf8Size = 1)
  have wholeNext : source.toList = before ++ ['/'] ++ rest :=
    whole.trans (List.append_cons _ _ _)
  have isAscii : '/'.toNat < 128 ∧ '*'.toNat < 128 := by decide
  have isSlash := byteAt?_eq_some_iff isAscii.1 wholeNext
  have isStar := byteAt?_eq_some_iff isAscii.2 wholeNext
  rw [next]
  simp only [isSlash, isStar]
  cases rest with
  | nil => exact gives_symbol whole
  | cons second after =>
      simp only [List.head?_cons, Option.some.injEq]
      by_cases slash : second = '/'
      · subst slash
        exact gives_lineComment whole
      · by_cases star : second = '*'
        · subst star
          exact gives_blockComment whole marked
        · have symbolAlone : Cut.slash (second :: after) =
              .ok (Cut.symbol '/' (second :: after)) := by
            unfold Cut.slash
            split <;> simp_all
          rw [if_neg slash, if_neg star, symbolAlone]
          exact gives_symbol whole

theorem turn_finished (whole : source.toList = before) :
    turn source (byteLength before) = pure .finished := by
  rw [turn, byteAt?_nil whole]

section

variable (whole : source.toList = before ++ first :: rest)
  (marked : (splitMark source.toList).1 <+: before)

include whole

theorem turn_blank (blank : isBlank first = true) :
    turn source (byteLength before) = pure (.onwards none (byteLength before + 1)) := by
  obtain ⟨lead, found, same, -⟩ := byteAt?_cons whole
  rw [turn, found]
  exact if_pos ((same bytewise_isBlank).trans blank)

include marked

/-- A turn that does not pass a blank does what cutting a lexeme off the text does. -/
theorem gives_turn (notBlank : isBlank first = false) :
    (turn source (byteLength before)).Gives source
      (.ofFront source (byteLength before) (Cut.front first rest)) := by
  obtain ⟨lead, found, same, same_iff⟩ := byteAt?_cons whole
  have isQuote : '\x22'.toNat < 128 ∧ '\x27'.toNat < 128 := by decide
  have isMark : '$'.toNat < 128 ∧ '/'.toNat < 128 := by decide
  have sameSymbol : symbol source lead (byteLength before) =
      symbol source first (byteLength before) := by
    have sameDouble : Cut.doubleSymbol? lead = Cut.doubleSymbol? first :=
      funext fun second => same (bytewise_doubleSymbol_left second)
    rw [symbol, symbol, sameDouble, same bytewise_singleSymbol]
  rw [turn, found]
  simp only [same bytewise_isBlank, notBlank, same bytewise_startsWord, same bytewise_isDigit,
    same_iff isQuote.1, same_iff isQuote.2, same_iff isMark.1, same_iff isMark.2, sameSymbol,
    Cut.front, Bool.false_eq_true, if_false]
  split
  · exact gives_word whole
  split
  · exact gives_number whole marked
  split
  · rename_i isQuote
    exact gives_string (isQuote ▸ whole) marked
  split
  · rename_i isQuote
    exact gives_quotedInteger (isQuote ▸ whole) marked
  by_cases isDollar : first = '$'
  · subst isDollar
    simpa using gives_dollar whole
  · by_cases isSlash : first = '/'
    · subst isSlash
      simpa using gives_slash whole marked
    · simpa [isDollar, isSlash] using gives_symbol whole

end

end Cursor

end JassExpr
