import JassExpr.Proofs.Document.Literals

/-!
# What string literals stand for

The inside of a string literal is a sequence of items: characters that stand for themselves, and
seven escapes of two characters. Scanning accepts such sequences and nothing else, and resolving the
escapes takes off one item after another, so it never meets a backslash that begins no escape.
-/

namespace JassExpr

/-- One item of the inside of a string literal. -/
inductive StringItem where
  /-- A character that is neither a quote nor a backslash. -/
  | character (value : Char) (notQuote : value ≠ '\x22') (notBackslash : value ≠ '\\')
  | lineFeed
  | tab
  | carriageReturn
  | backspace
  | formFeed
  | quote
  | backslash

namespace StringItem

/-- How an item is written. -/
def text : StringItem → List Char
  | character value _ _ => [value]
  | lineFeed => ['\\', 'n']
  | tab => ['\\', 't']
  | carriageReturn => ['\\', 'r']
  | backspace => ['\\', 'b']
  | formFeed => ['\\', 'f']
  | quote => ['\\', '\x22']
  | backslash => ['\\', '\\']

/-- The character that an item stands for. -/
def meaning : StringItem → Char
  | character value _ _ => value
  | lineFeed => '\n'
  | tab => '\t'
  | carriageReturn => '\r'
  | backspace => '\x08'
  | formFeed => '\x0c'
  | quote => '\x22'
  | backslash => '\\'

def texts (items : List StringItem) : List Char :=
  items.flatMap text

def meanings (items : List StringItem) : List Char :=
  items.map meaning

/-- An item is a character that stands for itself, or a backslash and a letter with a meaning. -/
theorem text_cases (item : StringItem) :
    (item.text = [item.meaning] ∧ item.meaning ≠ '\x22' ∧ item.meaning ≠ '\\') ∨
      ∃ letter, item.text = ['\\', letter] ∧ letter ∈ escapeLetters ∧
        Text.escapeMeaning? letter = some item.meaning := by
  cases item with
  | character value notQuote notBackslash => exact .inl ⟨rfl, notQuote, notBackslash⟩
  | _ => exact .inr ⟨_, rfl, by decide, rfl⟩

theorem exists_escape {letter : Char} (known : letter ∈ escapeLetters) :
    ∃ item : StringItem, item.text = ['\\', letter] := by
  simp only [escapeLetters, List.mem_cons, List.not_mem_nil, or_false] at known
  rcases known with rfl | rfl | rfl | rfl | rfl | rfl | rfl
  · exact ⟨lineFeed, rfl⟩
  · exact ⟨tab, rfl⟩
  · exact ⟨carriageReturn, rfl⟩
  · exact ⟨backspace, rfl⟩
  · exact ⟨formFeed, rfl⟩
  · exact ⟨quote, rfl⟩
  · exact ⟨backslash, rfl⟩

theorem isStringBody_texts (items : List StringItem) : IsStringBody (texts items) := by
  induction items with
  | nil => exact .empty
  | cons item items ih =>
      rw [texts, List.flatMap_cons]
      rcases item.text_cases with ⟨same, notQuote, notBackslash⟩ | ⟨letter, same, known, -⟩
      · rw [same]
        exact .character notQuote notBackslash ih
      · rw [same]
        exact .escape known ih

/-- The insides of string literals are the sequences of items. -/
theorem isStringBody_iff {body : List Char} : IsStringBody body ↔ ∃ items, body = texts items := by
  constructor
  · intro escaped
    induction escaped with
    | empty => exact ⟨[], rfl⟩
    | @character first rest notQuote notBackslash others ih =>
        obtain ⟨items, rfl⟩ := ih
        exact ⟨.character first notQuote notBackslash :: items, rfl⟩
    | escape known others ih =>
        obtain ⟨items, rfl⟩ := ih
        obtain ⟨item, same⟩ := exists_escape known
        exact ⟨item :: items, by simp [texts, same]⟩
  · rintro ⟨items, rfl⟩
    exact isStringBody_texts items

end StringItem

namespace Text

/-- The text that the inside of a string literal stands for, if every backslash in it begins an
escape. -/
def resolve? : List Char → Option (List Char)
  | [] => some []
  | ['\\'] => none
  | '\\' :: letter :: rest =>
      (escapeMeaning? letter).bind fun meaning => (resolve? rest).map (meaning :: ·)
  | character :: rest => (resolve? rest).map (character :: ·)

/-- Only a backslash that begins no escape makes a difference between the two ways to resolve
escapes. -/
theorem unescape_of_resolve? {text resolved : List Char} (found : resolve? text = some resolved) :
    unescape text = resolved := by
  fun_induction resolve? text generalizing resolved with
  | case1 => exact Option.some.inj found
  | case2 => cases found
  | case3 letter rest ih =>
      obtain ⟨meaning, isMeaning, found⟩ := Option.bind_eq_some_iff.mp found
      obtain ⟨others, resolvedRest, rfl⟩ := Option.map_eq_some_iff.mp found
      rw [unescape, isMeaning, ih resolvedRest]
  | case4 character rest notLast notEscape ih =>
      obtain ⟨others, resolvedRest, rfl⟩ := Option.map_eq_some_iff.mp found
      rw [unescape, ih resolvedRest]
      · exact notLast
      · exact notEscape

end Text

namespace StringItem

/-- Resolving the escapes of a text that begins with an item takes off that item. -/
theorem resolve?_text_append (item : StringItem) (rest : List Char) :
    Text.resolve? (item.text ++ rest) = (Text.resolve? rest).map (item.meaning :: ·) := by
  rcases item.text_cases with ⟨same, -, notBackslash⟩ | ⟨letter, same, -, isMeaning⟩
  · rw [same, List.singleton_append, Text.resolve?]
    all_goals simp [notBackslash]
  · rw [same, List.cons_append, List.singleton_append, Text.resolve?, isMeaning, Option.bind_some]

theorem resolve?_texts (items : List StringItem) :
    Text.resolve? (texts items) = some (meanings items) := by
  induction items with
  | nil => rfl
  | cons item items ih =>
      rw [texts, List.flatMap_cons, resolve?_text_append, ← texts, ih]
      rfl

/-- The item that stands for a character when only quotes and backslashes are escaped. -/
def ofChar (value : Char) : StringItem :=
  if isQuote : value = '\x22' then quote
  else if isBackslash : value = '\\' then backslash
  else character value isQuote isBackslash

theorem meaning_ofChar (value : Char) : (ofChar value).meaning = value := by
  unfold ofChar
  split
  · rename_i isQuote
    exact isQuote.symm
  · split
    · rename_i isBackslash
      exact isBackslash.symm
    · rfl

end StringItem

namespace Text

/-- A character with a backslash in front if it is a quote or a backslash. -/
def escapeMark (character : Char) : List Char :=
  if character = '\x22' ∨ character = '\\' then ['\\', character] else [character]

/-- A text with its backslashes doubled and a backslash in front of its quotes. -/
def escapeMarks (text : List Char) : List Char :=
  text.flatMap escapeMark

theorem escapeMarks_eq_texts (text : List Char) :
    escapeMarks text = StringItem.texts (text.map StringItem.ofChar) := by
  have each : ∀ character, escapeMark character = (StringItem.ofChar character).text := by
    intro character
    unfold escapeMark StringItem.ofChar
    split
    · rename_i isMark
      rcases isMark with rfl | rfl <;> rfl
    · rename_i notMark
      obtain ⟨notQuote, notBackslash⟩ := not_or.mp notMark
      rw [dif_neg notQuote, dif_neg notBackslash]
      rfl
  rw [escapeMarks, StringItem.texts, List.flatMap_map, funext each]

end Text

/-- A string literal between its quotes. -/
def quoteRaw (raw : String) : String :=
  "\"" ++ raw ++ "\""

/-- The items between quotes are read as the string literal of their meanings. -/
theorem parseSource_texts (items : List StringItem) :
    ∃ phrase : Phrase Token,
      parseSource (quoteRaw (String.ofList (StringItem.texts items))) = .ok [phrase] ∧
        phrase.expr = .literal (.string (String.ofList (StringItem.texts items))
          (String.ofList (StringItem.meanings items))) := by
  have written := Lexeme.Written.string (StringItem.isStringBody_texts items)
  have reads : Literal.ofLexeme?
      (Lexeme.valued .string (String.ofList (StringItem.texts items))) =
        some (.string (String.ofList (StringItem.texts items))
          (String.ofList (StringItem.meanings items))) := by
    rw [← Text.unescape_of_resolve? (StringItem.resolve?_texts items)]
    simp [Literal.ofLexeme?, Lexeme.valued, Lexeme.text]
  have parsed := written.parseSource_eq reads
  have same : String.ofList ('\x22' :: (StringItem.texts items ++ ['\x22'])) =
      quoteRaw (String.ofList (StringItem.texts items)) := by
    simp [quoteRaw, ← String.toList_inj]
  rw [same] at parsed
  exact ⟨_, parsed, rfl⟩

/-- A string token is written as items, and every backslash in it begins an escape. -/
theorem Lexeme.Written.exists_items {lexeme : Lexeme} {text : List Char}
    (written : lexeme.Written text) (isString : lexeme.kind = .string) :
    ∃ items, lexeme.text = String.ofList (StringItem.texts items) ∧
      Text.resolve? lexeme.text.toList = some (StringItem.meanings items) ∧
        Text.unescape lexeme.text.toList = StringItem.meanings items := by
  cases written with
  | string escaped =>
      obtain ⟨items, rfl⟩ := StringItem.isStringBody_iff.mp escaped
      have resolved := StringItem.resolve?_texts items
      rw [Lexeme.text_valued, String.toList_ofList]
      exact ⟨items, rfl, resolved, Text.unescape_of_resolve? resolved⟩
  | fixed spelled =>
      change _ = TokenKind.string at isString
      subst isString
      cases spelled
  | _ => cases isString

/-- A string literal that was read was scanned as a token of its own. -/
theorem Phrase.IsScanned.exists_items {phrase : Phrase Token} (isScanned : phrase.IsScanned)
    {raw value : String} (isString : phrase.expr = .literal (.string raw value)) :
    ∃ items, raw = String.ofList (StringItem.texts items) := by
  have inside : Lexeme.valued .string raw ∈ phrase.expr.canonical.tokens := by
    rw [isString]
    exact List.mem_singleton_self _
  obtain ⟨token, member, same⟩ := isScanned.grammatical.exists_plain_eq inside
  obtain ⟨text, written⟩ := isScanned.written token member
  rw [written.plain_eq] at same
  rw [same] at written
  obtain ⟨items, isText, -⟩ := written.exists_items rfl
  exact ⟨items, isText⟩

/-- Between quotes, the sequences of items are the texts that are read as one string literal, whose
value is the meanings of the items. No string token of a source has a backslash that begins no
escape. Every text is the value of what it becomes when its backslashes are doubled and its quotes
get a backslash in front. -/
theorem parseSource_quoteRaw :
    (∀ raw value, (∃ phrase, parseSource (quoteRaw raw) = .ok [phrase] ∧
        phrase.expr = .literal (.string raw value)) ↔
      ∃ items, raw = String.ofList (StringItem.texts items) ∧
        value = String.ofList (StringItem.meanings items)) ∧
    (∀ source tokens, tokenize source = .ok tokens → ∀ token ∈ tokens, token.kind = .string →
      ∃ items, token.text = String.ofList (StringItem.texts items) ∧
        Text.resolve? token.text.toList = some (StringItem.meanings items) ∧
          Text.unescape token.text.toList = StringItem.meanings items) ∧
    ∀ value : String, ∃ phrase,
      parseSource (quoteRaw (String.ofList (Text.escapeMarks value.toList))) = .ok [phrase] ∧
        phrase.expr = .literal (.string (String.ofList (Text.escapeMarks value.toList)) value) := by
  refine ⟨fun raw value => ⟨?_, ?_⟩, ?_, fun value => ?_⟩
  · rintro ⟨phrase, parsed, isString⟩
    have isScanned := (isScanned_of_parseSource parsed phrase (List.mem_singleton_self _)).1
    obtain ⟨items, rfl⟩ := isScanned.exists_items isString
    obtain ⟨again, parsedAgain, isString'⟩ := parseSource_texts items
    rw [parsed] at parsedAgain
    cases parsedAgain
    rw [isString] at isString'
    cases isString'
    exact ⟨items, rfl, rfl⟩
  · rintro ⟨items, rfl, rfl⟩
    exact parseSource_texts items
  · intro source tokens scanned token member isString
    obtain ⟨text, written⟩ := (tokenize_eq_ok_iff.mp scanned).exists_written token member
    exact written.exists_items isString
  · have found := parseSource_texts (value.toList.map StringItem.ofChar)
    have meanings : StringItem.meanings (value.toList.map StringItem.ofChar) = value.toList := by
      simp [StringItem.meanings, Function.comp_def, StringItem.meaning_ofChar]
    rwa [← Text.escapeMarks_eq_texts, meanings, String.ofList_toList] at found

/-- A letter of two bytes, an escaped quote, an escaped backslash and a line break. -/
theorem parseSource_quoteRaw_escapes :
    let raw := "é\\\"\\\\\n"
    let token : Token := ⟨.valued .string raw, ⟨0, 9⟩⟩
    (∃ phrase, parseSource (quoteRaw raw) = .ok [phrase] ∧
      phrase.expr = .literal (.string raw "é\"\\\n")) ∧
    tokenize (quoteRaw raw) = .ok [token] ∧
    ∃ items, token.text = String.ofList (StringItem.texts items) ∧
      Text.resolve? token.text.toList = some (StringItem.meanings items) ∧
        Text.unescape token.text.toList = StringItem.meanings items := by
  intro raw token
  let items : List StringItem := [.character 'é' (by decide) (by decide), .quote, .backslash,
    .character '\n' (by decide) (by decide)]
  have isRaw : raw = String.ofList (StringItem.texts items) := by cbv
  have isValue : "é\"\\\n" = String.ofList (StringItem.meanings items) := by cbv
  have scanned : tokenize (quoteRaw raw) = .ok [token] := by cbv
  exact ⟨(parseSource_quoteRaw.1 raw _).mpr ⟨items, isRaw, isValue⟩, scanned,
    parseSource_quoteRaw.2.1 _ [token] scanned token (List.mem_singleton_self _) rfl⟩

end JassExpr
