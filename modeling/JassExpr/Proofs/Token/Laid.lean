import JassExpr.Proofs.Token.Cutting

/-!
# How tokens are laid out in a text

A text is laid out as some tokens when it consists of blanks and of the texts of these tokens, in
order, each at its span and each in front of something that lets it end. Scanning a text without
a fault finds exactly the tokens as which it is laid out, so nothing else has to be known of the
scanner.
-/

namespace JassExpr

/-- A text that begins at an offset is blanks and the texts of some tokens at their spans. -/
inductive Laid : Nat → List Char → List Token → Prop
  | empty {offset : Nat} : Laid offset [] []
  | blank {offset : Nat} {first : Char} {rest : List Char} {tokens : List Token}
      (isBlank : isBlank first = true) (others : Laid (offset + 1) rest tokens) :
      Laid offset (first :: rest) tokens
  | token {offset : Nat} {lexeme : Lexeme} {text rest : List Char} {tokens : List Token}
      (written : lexeme.Written text) (ends : lexeme.kind.Ends text rest)
      (others : Laid (offset + Source.byteLength text) rest tokens) :
      Laid offset (text ++ rest) (⟨lexeme, ⟨offset, offset + Source.byteLength text⟩⟩ :: tokens)

theorem isBlank_iff {character : Char} :
    isBlank character = true ↔
      character = ' ' ∨ character = '\t' ∨ character = '\r' ∨ character = '\n' := by
  simp [isBlank, or_assoc]

theorem utf8Size_blank {character : Char} (blank : isBlank character = true) :
    character.utf8Size = 1 := by
  rcases isBlank_iff.mp blank with rfl | rfl | rfl | rfl <;> rfl

/-- What a text attracts continues a word or a line comment, or is one of three marks. -/
theorem TokenKind.attracts_eq_false {kind : TokenKind} {text : List Char} {next : Char}
    (notWord : Cut.continuesWord next = false) (notEqual : next ≠ '=') (notSlash : next ≠ '/')
    (notStar : next ≠ '*')
    (line : kind = .comment → isLine text = true → Cut.continuesLine next = false) :
    kind.attracts text next = false := by
  have notAlphanum : next.isAlphanum = false := by
    rw [Cut.continuesWord, Bool.or_eq_false_iff] at notWord
    exact notWord.1
  have notDigit : next.isDigit = false := by
    rw [Char.isAlphanum, Bool.or_eq_false_iff] at notAlphanum
    exact notAlphanum.2
  have notOctal : Radix.octal.isDigit next = false := by
    rw [← Bool.not_eq_true] at notDigit ⊢
    exact fun octal => notDigit (Text.isDigit_of_octal octal)
  have notHexadecimal : Radix.hexadecimal.isDigit next = false := by
    rw [← Bool.not_eq_true] at notAlphanum ⊢
    exact fun hexadecimal => notAlphanum (Text.isAlphanum_of_hexadecimal hexadecimal)
  have notMark : next ≠ 'x' ∧ next ≠ 'X' := by
    constructor <;> (rintro rfl; exact absurd notWord (by decide))
  cases kind with
  | comment =>
      rw [attracts, Bool.and_eq_false_iff]
      by_cases inLine : isLine text = true
      · exact .inr (line rfl inLine)
      · exact .inl (by simpa using inLine)
  | _ => simp [attracts, notWord, notDigit, notOctal, notHexadecimal, notMark, notEqual, notSlash,
      notStar]

/-- A character that is attracted by no text and is no point lets every text end. -/
theorem TokenKind.Ends.of_delimiter {kind : TokenKind} {text rest : List Char}
    (delimited : ∀ next ∈ rest.head?, Cut.continuesWord next = false ∧ next ≠ '=' ∧ next ≠ '/' ∧
      next ≠ '*' ∧ next ≠ '.')
    (line : kind = .comment → isLine text = true →
      ∀ next ∈ rest.head?, Cut.continuesLine next = false) :
    kind.Ends text rest where
  apart := by
    intro next member
    obtain ⟨notWord, notEqual, notSlash, notStar, -⟩ := delimited next member
    exact attracts_eq_false notWord notEqual notSlash notStar fun isComment inLine =>
      line isComment inLine next member
  noPlaces := by
    rintro - digit after rfl
    exact absurd rfl (delimited '.' rfl).2.2.2.2

/-- Blanks in front of a text only move its tokens. -/
theorem Laid.blanks {offset : Nat} {gap rest : List Char} {tokens : List Token}
    (blank : ∀ character ∈ gap, isBlank character = true)
    (others : Laid (offset + Source.byteLength gap) rest tokens) :
    Laid offset (gap ++ rest) tokens := by
  induction gap generalizing offset with
  | nil => exact others
  | cons first gap ih =>
      rw [List.forall_mem_cons] at blank
      refine .blank blank.1 (ih blank.2 ?_)
      rw [Source.byteLength_cons, utf8Size_blank blank.1] at others
      rwa [Nat.add_assoc]

/-- What lets a text end still does when it is one line and other lines follow. -/
theorem TokenKind.Ends.append_line {kind : TokenKind} {text line : List Char}
    (ends : kind.Ends text line) (rest : List Char) : kind.Ends text (line ++ '\n' :: rest) := by
  cases line with
  | nil =>
      refine .of_delimiter ?_ ?_
      · rintro _ ⟨⟩
        decide
      · rintro - - _ ⟨⟩
        rfl
  | cons first line =>
      refine ⟨ends.apart, fun isInteger digit after begins => ?_⟩
      obtain ⟨rfl, behind⟩ := List.cons.inj begins
      cases line with
      | nil =>
          obtain ⟨rfl, -⟩ := List.cons.inj behind
          rfl
      | cons second line =>
          obtain ⟨rfl, -⟩ := List.cons.inj behind
          exact ends.noPlaces isInteger second line rfl

theorem TokenKind.head_of_spelling? {kind : TokenKind} {text : List Char}
    (spelled : kind.spelling? = some (String.ofList text)) :
    ∃ first rest, text = first :: rest ∧ isBlank first = false := by
  have letters : kind.spelling?.map String.toList = some text := by simp [spelled]
  cases kind <;> simp only [TokenKind.spelling?, Option.map_some, Option.map_none,
    Option.some.injEq, reduceCtorEq] at letters <;> subst letters <;> exact ⟨_, _, rfl, rfl⟩

/-- No lexeme begins with a blank. -/
theorem Lexeme.Written.head {lexeme : Lexeme} {text : List Char}
    (written : lexeme.Written text) :
    ∃ first rest, text = first :: rest ∧ isBlank first = false := by
  have notBlank : ∀ (test : Char → Bool) (first : Char), test first = true →
      test ' ' = false → test '\t' = false → test '\r' = false → test '\n' = false →
        isBlank first = false := by
    intro test first passes space tab return_ feed
    rw [← Bool.not_eq_true, isBlank_iff]
    rintro (rfl | rfl | rfl | rfl) <;> simp_all
  cases written with
  | fixed spelled => exact TokenKind.head_of_spelling? spelled
  | identifier starts continues notOperator =>
      exact ⟨_, _, rfl, notBlank Cut.startsWord _ starts rfl rfl rfl rfl⟩
  | integer decimal =>
      obtain ⟨first, rest, rfl, digit⟩ := decimal.head
      exact ⟨first, rest, rfl, notBlank Char.isDigit first digit rfl rfl rfl rfl⟩
  | real decimal nonempty digits =>
      obtain ⟨first, rest, rfl, digit⟩ := decimal.head
      exact ⟨first, _, rfl, notBlank Char.isDigit first digit rfl rfl rfl rfl⟩
  | hexadecimal marked nonempty hexadecimal =>
      simp only [hexadecimalMarks, List.mem_cons, List.not_mem_nil, or_false] at marked
      rcases marked with rfl | rfl | rfl <;> exact ⟨_, _, rfl, rfl⟩
  | other unclaimed => exact ⟨_, _, rfl, unclaimed.1⟩
  | octal | quotedInteger | string | lineComment | blockComment => exact ⟨_, _, rfl, rfl⟩

namespace Scan

theorem laid_textFrom (offset : Nat) (text : List Char)
    (faultless : (textFrom offset text).fault? = none) :
    Laid offset text (textFrom offset text).tokens := by
  fun_induction textFrom offset text with
  | case1 => exact .empty
  | case2 offset first rest blank ih => exact .blank blank (ih faultless)
  | case3 offset first rest notBlank cut found ih =>
      have whole := (Cut.front_consumes found).1
      have recognised := Cut.front_recognised (by simpa using notBlank) found
      rw [← whole]
      exact .token recognised.written recognised.ends (ih faultless)
  | case4 => simp at faultless

/-- In front of anything that lets it end, the text of a lexeme is scanned as one token. -/
theorem textFrom_of_written {offset : Nat} {lexeme : Lexeme} {text rest : List Char}
    (written : lexeme.Written text) (ends : lexeme.kind.Ends text rest) :
    textFrom offset (text ++ rest) =
      (textFrom (offset + Source.byteLength text) rest).after
        ⟨lexeme, ⟨offset, offset + Source.byteLength text⟩⟩ := by
  obtain ⟨first, more, whole, found⟩ := Cut.takes_of_written written ends
  obtain ⟨first', others, rfl, notBlank⟩ := written.head
  obtain ⟨rfl, -⟩ := List.cons.inj whole
  rw [whole, textFrom_cut notBlank found]
  rfl

theorem textFrom_of_laid {offset : Nat} {text : List Char} {tokens : List Token}
    (laid : Laid offset text tokens) :
    textFrom offset text = ⟨tokens, none⟩ := by
  induction laid with
  | empty => exact textFrom_nil _
  | blank isBlank others ih => rw [textFrom_blank isBlank, ih]
  | token written ends others ih =>
      rw [textFrom_of_written written ends, ih]
      rfl

/-- Scanning finds exactly the tokens as which a text is laid out. -/
theorem textFrom_eq_iff_laid {offset : Nat} {text : List Char} {tokens : List Token} :
    textFrom offset text = ⟨tokens, none⟩ ↔ Laid offset text tokens := by
  constructor
  · intro scanned
    have laid := laid_textFrom offset text (by rw [scanned])
    rwa [scanned] at laid
  · exact textFrom_of_laid

/-- A scan with some tokens in front of those that it found. -/
def behind (tokens : List Token) (scan : Scan) : Scan :=
  { scan with tokens := tokens ++ scan.tokens }

/-- A line is scanned as it is alone, whatever is on the lines after it. -/
theorem textFrom_append_line {offset : Nat} {line : List Char} {tokens : List Token}
    (laid : Laid offset line tokens) (rest : List Char) :
    textFrom offset (line ++ '\n' :: rest) =
      (textFrom (offset + Source.byteLength line + 1) rest).behind tokens := by
  induction laid with
  | empty => exact textFrom_blank rfl
  | blank isBlank others ih =>
      rw [List.cons_append, textFrom_blank isBlank, ih, Source.byteLength_cons,
        utf8Size_blank isBlank, Nat.add_assoc _ 1]
  | token written ends others ih =>
      rw [List.append_assoc, textFrom_of_written written (ends.append_line rest), ih,
        Source.byteLength_append, ← Nat.add_assoc]
      rfl

end Scan

theorem Laid.append_line {offset : Nat} {line rest : List Char} {tokens others : List Token}
    (laid : Laid offset line tokens)
    (laidRest : Laid (offset + Source.byteLength line + 1) rest others) :
    Laid offset (line ++ '\n' :: rest) (tokens ++ others) := by
  rw [← Scan.textFrom_eq_iff_laid, Scan.textFrom_append_line laid, Scan.textFrom_of_laid laidRest]
  rfl

/-- Every token as which a text is laid out is written by some part of that text. -/
theorem Laid.exists_written {offset : Nat} {text : List Char} {tokens : List Token}
    (laid : Laid offset text tokens) :
    ∀ token ∈ tokens, ∃ text, token.toLexeme.Written text := by
  induction laid with
  | empty => simp
  | blank isBlank others ih => exact ih
  | token written ends others ih => exact List.forall_mem_cons.mpr ⟨⟨_, written⟩, ih⟩

/-- Only a character that begins nothing else can be a byte-order mark. -/
theorem Lexeme.Written.head?_ne_mark {lexeme : Lexeme} {text : List Char}
    (written : lexeme.Written text) (known : lexeme.kind ≠ .other) :
    text.head? ≠ some Source.byteOrderMark := by
  have notMark : ∀ (test : Char → Bool) (first : Char), test first = true →
      test Source.byteOrderMark = false → some first ≠ some Source.byteOrderMark := by
    rintro test first passes fails ⟨⟩
    rw [passes] at fails
    cases fails
  cases written with
  | @fixed kind text spelled =>
      have letters : kind.spelling?.map String.toList = some text := by simp [spelled]
      cases kind <;> cases letters <;> decide
  | identifier starts continues notOperator => exact notMark Cut.startsWord _ starts rfl
  | integer decimal =>
      obtain ⟨first, rest, rfl, digit⟩ := decimal.head
      exact notMark Char.isDigit _ digit rfl
  | real decimal nonempty digits =>
      obtain ⟨first, rest, rfl, digit⟩ := decimal.head
      exact notMark Char.isDigit _ digit rfl
  | hexadecimal marked nonempty hexadecimal =>
      simp only [hexadecimalMarks, List.mem_cons, List.not_mem_nil, or_false] at marked
      rcases marked with rfl | rfl | rfl <;> simp [Source.byteOrderMark]
  | other unclaimed => exact absurd rfl known
  | _ => simp [Source.byteOrderMark]

theorem Laid.head?_ne_mark {offset : Nat} {text : List Char} {tokens : List Token}
    (laid : Laid offset text tokens) (known : ∀ token ∈ tokens.head?, token.kind ≠ .other) :
    text.head? ≠ some Source.byteOrderMark := by
  cases laid with
  | empty => simp
  | blank isBlank others =>
      rintro ⟨⟩
      cases isBlank
  | token written ends others =>
      obtain ⟨first, rest, rfl, -⟩ := written.head
      exact written.head?_ne_mark (known _ rfl)

/-- The tokens of a source are those as which the text after its mark is laid out. -/
theorem tokenize_eq_ok_iff {source : String} {tokens : List Token} :
    tokenize source = .ok tokens ↔
      Laid (Source.byteLength (Source.splitMark source.toList).1)
        (Source.splitMark source.toList).2 tokens := by
  rw [← Scan.textFrom_eq_iff_laid]
  simp only [tokenize, Scan.ofSource]
  generalize Scan.textFrom _ _ = scan
  obtain ⟨found, fault⟩ := scan
  cases fault with
  | none => simp
  | some fault => simp

end JassExpr
