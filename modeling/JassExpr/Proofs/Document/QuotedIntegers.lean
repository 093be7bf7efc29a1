import JassExpr.Proofs.Document.Literals
import JassExpr.Proofs.Number.BigEndian
import JassExpr.Proofs.Text.Bytewise
import JassExpr.Proofs.Token.Faults

/-!
# What quoted integers stand for

Between its quotes, a quoted integer has ASCII letters and digits only. Each is one byte other than
zero, so up to four of them are the digits of a number that no other such sequence stands for,
whatever its length.
-/

namespace JassExpr

/-- A text of ASCII letters and digits. -/
def IsCode (code : String) : Prop :=
  ∀ character ∈ code.toList, character.isAlphanum = true

/-- A text between the quotes of a quoted integer. -/
def quoteCode (code : String) : String :=
  "'" ++ code ++ "'"

theorem toList_quoteCode (code : String) :
    (quoteCode code).toList = '\x27' :: (code.toList ++ ['\x27']) := by
  simp [quoteCode]

/-! ## Between quotes -/

/-- Letters and digits between quotes are read as one quoted integer. -/
theorem IsCode.exists_parseSource {code : String} (isCode : IsCode code) :
    ∃ phrase : Phrase Token, parseSource (quoteCode code) = .ok [phrase] ∧
      phrase.expr = .literal (.quotedInteger code) := by
  have written := Lexeme.Written.quotedInteger isCode
  rw [← toList_quoteCode, String.ofList_toList] at written
  have reads : Literal.ofLexeme? (Lexeme.valued .quotedInteger code) =
      some (.quotedInteger code) := rfl
  have parsed := written.parseSource_eq reads
  rw [String.ofList_toList] at parsed
  exact ⟨_, parsed, rfl⟩

/-- The first character of a text that is no letter and no digit. -/
theorem exists_refused_of_not_isCode {code : String} (notCode : ¬ IsCode code) :
    ∃ front refused rest, code.toList = front ++ refused :: rest ∧
      (∀ character ∈ front, character.isAlphanum = true) ∧ refused.isAlphanum = false := by
  have whole : code.toList.takeWhile Char.isAlphanum ++ code.toList.dropWhile Char.isAlphanum =
      code.toList :=
    List.takeWhile_append_dropWhile
  have taken : ∀ character ∈ code.toList.takeWhile Char.isAlphanum,
      character.isAlphanum = true :=
    Text.forall_mem_takeWhile code.toList
  cases others : code.toList.dropWhile Char.isAlphanum with
  | nil =>
      rw [others, List.append_nil] at whole
      rw [whole] at taken
      exact absurd taken notCode
  | cons refused rest =>
      have stops : refused.isAlphanum = false := by
        apply Text.head?_dropWhile code.toList
        rw [others]
        rfl
      exact ⟨_, refused, rest, by rw [← others, whole], taken, stops⟩

/-- Any other character but a quote is refused between quotes. -/
theorem parseSource_quoteCode_of_not_isCode {code : String} (noQuote : '\x27' ∉ code.toList)
    (notCode : ¬ IsCode code) :
    ∃ error, parseSource (quoteCode code) = .error (.lexical error) := by
  obtain ⟨front, refused, rest, characters, alphanumeric, notAlphanumeric⟩ :=
    exists_refused_of_not_isCode notCode
  have notQuote : refused ≠ '\x27' := by
    rintro rfl
    rw [characters] at noQuote
    exact noQuote (List.mem_append_right front List.mem_cons_self)
  have text : (quoteCode code).toList =
      '\x27' :: (front ++ refused :: (rest ++ ['\x27'])) := by
    rw [toList_quoteCode, characters, List.append_assoc, List.cons_append]
  have shown : CutFault.ShownBy ⟨.invalidQuotedCharacter refused, '\x27' :: front⟩
      ('\x27' :: (front ++ refused :: (rest ++ ['\x27']))) :=
    .wrongCharacter alphanumeric notAlphanumeric notQuote
  obtain ⟨first, others, begins, notBlank, fails⟩ := Cut.front_of_shownBy shown
  have noMark : (quoteCode code).toList.head? ≠ some Source.byteOrderMark := by
    rw [text, List.head?_cons]
    decide
  have scan : Scan.ofSource (quoteCode code) = Scan.textFrom 0 (first :: others) := by
    rw [Scan.ofSource, Source.splitMark_of_head?_ne noMark, text, begins]
    rfl
  have failed : tokenize (quoteCode code) = .error (.inSource (quoteCode code)
      (.invalidQuotedCharacter refused) (0 + Source.byteLength ('\x27' :: front))) := by
    rw [tokenize, scan, Scan.textFrom_fault notBlank fails]
  exact ⟨_, parseSource_eq_lexical_iff.mpr failed⟩

theorem parseSource_quoteCode_iff {code : String} (noQuote : '\x27' ∉ code.toList) :
    (∃ phrases, parseSource (quoteCode code) = .ok phrases) ↔ IsCode code := by
  constructor
  · rintro ⟨phrases, parsed⟩
    by_contra notCode
    obtain ⟨error, failed⟩ := parseSource_quoteCode_of_not_isCode noQuote notCode
    rw [parsed] at failed
    cases failed
  · intro isCode
    obtain ⟨phrase, parsed, -⟩ := isCode.exists_parseSource
    exact ⟨[phrase], parsed⟩

/-! ## Values -/

namespace IsCode

variable {code first second : String}

theorem codeBytes_eq (isCode : IsCode code) :
    Literal.codeBytes code = code.toList.map fun character => UInt8.ofNat character.toNat := by
  rw [Literal.codeBytes, List.map_eq_flatMap]
  exact List.flatMap_congr fun character member =>
    Text.utf8EncodeChar_of_lt (Text.lt_of_isAlphanum (isCode character member))

theorem length_codeBytes (isCode : IsCode code) :
    (Literal.codeBytes code).length = code.length := by
  rw [isCode.codeBytes_eq, List.length_map, String.length_toList]

/-- No letter and no digit is a zero byte. -/
theorem ne_zero (isCode : IsCode code) : ∀ byte ∈ Literal.codeBytes code, byte ≠ 0 := by
  intro byte member isZero
  rw [isCode.codeBytes_eq] at member
  obtain ⟨character, inCode, rfl⟩ := List.mem_map.mp member
  have alphanumeric := isCode character inCode
  have same := Text.toChar_ofNat (Text.lt_of_isAlphanum alphanumeric)
  rw [isZero] at same
  rw [← same] at alphanumeric
  cases alphanumeric

theorem map_toChar (isCode : IsCode code) :
    (Literal.codeBytes code).map UInt8.toChar = code.toList := by
  rw [isCode.codeBytes_eq, List.map_map]
  refine (List.map_congr_left fun character member => ?_).trans (List.map_id _)
  exact Text.toChar_ofNat (Text.lt_of_isAlphanum (isCode character member))

theorem eq_of_codeBytes_eq (isCode : IsCode first) (isCode' : IsCode second)
    (same : Literal.codeBytes first = Literal.codeBytes second) : first = second := by
  rw [← String.toList_inj, ← isCode.map_toChar, ← isCode'.map_toChar, same]

theorem quotedValue?_eq_none_iff (isCode : IsCode code) :
    Literal.quotedValue? (.quotedInteger code) = none ↔ 4 < code.length := by
  obtain ⟨long, short⟩ := Literal.quotedValue?_eq code
  rw [isCode.length_codeBytes] at long short
  refine ⟨fun noValue => ?_, long⟩
  by_contra notLong
  obtain ⟨value, found, -⟩ := short (Nat.le_of_not_lt notLong)
  rw [noValue] at found
  cases found

theorem toNat_of_quotedValue? {value : UInt32}
    (found : Literal.quotedValue? (.quotedInteger code) = some value) :
    value.toNat = bigEndian (Literal.codeBytes code) := by
  obtain ⟨long, short⟩ := Literal.quotedValue?_eq code
  rcases Nat.lt_or_ge 4 (Literal.codeBytes code).length with isLong | isShort
  · rw [long isLong] at found
    cases found
  · obtain ⟨same, found', number⟩ := short isShort
    rw [found] at found'
    cases found'
    exact number

/-- Quoted integers of one value have one code. -/
theorem eq_of_quotedValue?_eq {value : UInt32} (isCode : IsCode first) (isCode' : IsCode second)
    (found : Literal.quotedValue? (.quotedInteger first) = some value)
    (found' : Literal.quotedValue? (.quotedInteger second) = some value) : first = second := by
  apply isCode.eq_of_codeBytes_eq isCode'
  apply eq_of_bigEndian_eq isCode.ne_zero isCode'.ne_zero
  rw [← toNat_of_quotedValue? found, ← toNat_of_quotedValue? found']

end IsCode

/-- A text without a quote is read between quotes just when all its characters are ASCII letters and
digits, and then as one quoted integer. It has a value unless it is longer than four characters:
the number of its bytes in base 256. Quoted integers of one value have one code. -/
theorem parseSource_quoteCode :
    (∀ code : String, '\x27' ∉ code.toList →
      ((∃ phrases, parseSource (quoteCode code) = .ok phrases) ↔ IsCode code) ∧
        ∀ phrases, parseSource (quoteCode code) = .ok phrases →
          ∃ phrase, phrases = [phrase] ∧ phrase.expr = .literal (.quotedInteger code)) ∧
    (∀ code : String, IsCode code →
      (Literal.quotedValue? (.quotedInteger code) = none ↔ 4 < code.length) ∧
        ∀ value, Literal.quotedValue? (.quotedInteger code) = some value →
          value.toNat = bigEndian (Literal.codeBytes code)) ∧
    ∀ (first second : String) (value : UInt32), IsCode first → IsCode second →
      Literal.quotedValue? (.quotedInteger first) = some value →
        Literal.quotedValue? (.quotedInteger second) = some value → first = second := by
  refine ⟨fun code noQuote => ⟨parseSource_quoteCode_iff noQuote, fun phrases parsed => ?_⟩,
    fun code isCode => ⟨isCode.quotedValue?_eq_none_iff, fun value => IsCode.toNat_of_quotedValue?⟩,
    fun first second value => IsCode.eq_of_quotedValue?_eq⟩
  have isCode := (parseSource_quoteCode_iff noQuote).mp ⟨phrases, parsed⟩
  obtain ⟨phrase, parsed', isLiteral⟩ := isCode.exists_parseSource
  rw [parsed] at parsed'
  cases parsed'
  exact ⟨phrase, rfl, isLiteral⟩

/-- Four characters have a value and five do not, and an underscore is no part of a quoted
integer. -/
theorem parseSource_quoteCode_bounds :
    ((∃ phrases, parseSource (quoteCode "Az09") = .ok phrases) ↔ IsCode "Az09") ∧
      (¬ ∃ phrases, parseSource (quoteCode "A_") = .ok phrases) ∧
        (∃ phrase, parseSource (quoteCode "Az09") = .ok [phrase] ∧
          phrase.expr = .literal (.quotedInteger "Az09")) ∧
          (1098526777 : UInt32).toNat = bigEndian (Literal.codeBytes "Az09") ∧
            Literal.quotedValue? (.quotedInteger "Az09b") = none ∧ "Az09" = "Az09" := by
  have isCode : IsCode "Az09" := by simp [IsCode]
  have isCode' : IsCode "Az09b" := by simp [IsCode]
  have notCode : ¬ IsCode "A_" := by simp [IsCode]
  have found : Literal.quotedValue? (.quotedInteger "Az09") = some 1098526777 := by cbv
  have accepted := parseSource_quoteCode.1 "Az09" (by decide)
  obtain ⟨phrases, parsed⟩ := accepted.1.mpr isCode
  obtain ⟨phrase, rfl, isLiteral⟩ := accepted.2 phrases parsed
  have refused := (parseSource_quoteCode.1 "A_" (by decide)).1.not.mpr notCode
  exact ⟨accepted.1, refused, ⟨phrase, parsed, isLiteral⟩,
    (parseSource_quoteCode.2.1 "Az09" isCode).2 _ found,
    (parseSource_quoteCode.2.1 "Az09b" isCode').1.mpr (by decide),
    parseSource_quoteCode.2.2 "Az09" "Az09" _ isCode isCode found found⟩

end JassExpr
