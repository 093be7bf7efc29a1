import JassExpr.Proofs.Token.Cutting

/-!
# Texts from which no lexeme is cut

Just as for lexemes, which texts show which fault is said here without a scanner: a literal or a
comment that the text does not close, a character that must not stand in one, and the mark of a
hexadecimal integer without a digit. Cutting fails on exactly these texts.
-/

namespace JassExpr

/-- The texts that show a fault at their front. -/
inductive CutFault.ShownBy : CutFault → List Char → Prop
  | openString {body : List Char} (escaped : IsStringBody body) :
      ShownBy ⟨.unterminatedString, []⟩ ('\x22' :: body)
  | openEscape {body : List Char} (escaped : IsStringBody body) :
      ShownBy ⟨.unterminatedString, []⟩ ('\x22' :: (body ++ ['\\']))
  | wrongEscape {body rest : List Char} {letter : Char} (escaped : IsStringBody body)
      (unknown : letter ∉ escapeLetters) :
      ShownBy ⟨.invalidEscape letter, '\x22' :: body⟩ ('\x22' :: (body ++ '\\' :: letter :: rest))
  | openQuotedInteger {code : List Char}
      (alphanumeric : ∀ character ∈ code, character.isAlphanum = true) :
      ShownBy ⟨.unterminatedQuotedInteger, []⟩ ('\x27' :: code)
  | wrongCharacter {code rest : List Char} {refused : Char}
      (alphanumeric : ∀ character ∈ code, character.isAlphanum = true)
      (notAlphanumeric : refused.isAlphanum = false) (notQuote : refused ≠ '\x27') :
      ShownBy ⟨.invalidQuotedCharacter refused, '\x27' :: code⟩
        ('\x27' :: (code ++ refused :: rest))
  | openComment {body : List Char} (unclosed : ¬ ['*', '/'] <:+: body) :
      ShownBy ⟨.unterminatedBlockComment, []⟩ ('/' :: '*' :: body)
  | bareMark {letter : Char} {rest : List Char} (isMark : letter = 'x' ∨ letter = 'X')
      (noDigit : ∀ next ∈ rest.head?, Radix.hexadecimal.isDigit next = false) :
      ShownBy ⟨.emptyHexLiteral, []⟩ ('0' :: letter :: rest)

namespace Cut

/-! ## Cutting fails on them -/

theorem stringBody_unknown {letter : Char} (unknown : letter ∉ escapeLetters) (rest : List Char) :
    stringBody ('\\' :: letter :: rest) = .refused [] letter := by
  have noMeaning : Text.escapeMeaning? letter = none := by
    rw [Option.eq_none_iff_forall_ne_some]
    intro meaning known
    exact unknown (mem_escapeLetters_of_meaning known)
  rw [stringBody, noMeaning]

theorem quotedBody_refused {character : Char} (notAlphanumeric : character.isAlphanum = false)
    (notQuote : character ≠ '\x27') (rest : List Char) :
    quotedBody (character :: rest) = .refused [] character := by
  rw [quotedBody, if_neg notQuote, if_neg (by simp [notAlphanumeric])]

/-- A text has no end of a block comment unless the mark that ends one stands in it. -/
theorem splitBlock?_eq_none_iff {text : List Char} :
    splitBlock? text = none ↔ ¬ ['*', '/'] <:+: text := by
  fun_induction splitBlock? text with
  | case1 => simp
  | case2 rest => simpa using ⟨[], rest, rfl⟩
  | case3 character rest notEnd ih =>
      have notHere : ¬ ['*', '/'] <+: character :: rest := by
        rintro ⟨after, begins⟩
        obtain ⟨rfl, rfl⟩ := List.cons.inj begins
        exact notEnd after rfl rfl
      rw [Option.map_eq_none_iff, ih, List.infix_cons_iff]
      simp [notHere]

/-- From a text that shows a fault, no lexeme is cut, for that fault. -/
theorem front_of_shownBy {fault : CutFault} {text : List Char} (shown : fault.ShownBy text) :
    ∃ first rest, text = first :: rest ∧ isBlank first = false ∧
      front first rest = .error fault := by
  cases shown with
  | @openString body escaped =>
      refine ⟨'\x22', body, rfl, rfl, ?_⟩
      have closed := stringBody_append escaped []
      rw [List.append_nil] at closed
      change string body = _
      rw [string, closed]
      rfl
  | openEscape escaped =>
      refine ⟨'\x22', _, rfl, rfl, ?_⟩
      change string _ = _
      rw [string, stringBody_append escaped]
      rfl
  | @wrongEscape body rest letter escaped unknown =>
      refine ⟨'\x22', _, rfl, rfl, ?_⟩
      change string _ = _
      rw [string, stringBody_append escaped, stringBody_unknown unknown]
      simp [Body.after]
  | @openQuotedInteger code alphanumeric =>
      refine ⟨'\x27', code, rfl, rfl, ?_⟩
      have closed := quotedBody_append alphanumeric []
      rw [List.append_nil] at closed
      change quotedInteger code = _
      rw [quotedInteger, closed]
      rfl
  | wrongCharacter alphanumeric notAlphanumeric notQuote =>
      refine ⟨'\x27', _, rfl, rfl, ?_⟩
      change quotedInteger _ = _
      rw [quotedInteger, quotedBody_append alphanumeric,
        quotedBody_refused notAlphanumeric notQuote]
      simp [Body.after]
  | @openComment body unclosed =>
      refine ⟨'/', '*' :: body, rfl, rfl, ?_⟩
      change blockComment body = _
      rw [blockComment, splitBlock?_eq_none_iff.mpr unclosed]
  | @bareMark letter rest isMark noDigit =>
      refine ⟨'0', letter :: rest, rfl, rfl, ?_⟩
      rw [front_number rfl, number, if_pos isMark]
      cases rest with
      | nil => rfl
      | cons next after => simp [markedHexadecimal, noDigit next rfl]

/-! ## It fails on no others -/

/-- What a string literal begins with when it does not come to its closing quote. -/
theorem stringBody_shape (text : List Char) :
    match stringBody text with
    | .closed _ _ => True
    | .unclosed => IsStringBody text ∨ ∃ body, IsStringBody body ∧ text = body ++ ['\\']
    | .refused before letter =>
        IsStringBody before ∧ letter ∉ escapeLetters ∧
          ∃ rest, text = before ++ '\\' :: letter :: rest := by
  fun_induction stringBody text with
  | case1 => exact .inl .empty
  | case2 => exact .inr ⟨[], .empty, rfl⟩
  | case3 letter after meaning known ih =>
      have isEscape := mem_escapeLetters_of_meaning known
      cases inner : stringBody after with
      | closed body rest => trivial
      | unclosed =>
          rw [inner] at ih
          rcases ih with escaped | ⟨body, escaped, rfl⟩
          · exact .inl (.escape isEscape escaped)
          · exact .inr ⟨'\\' :: letter :: body, .escape isEscape escaped, rfl⟩
      | refused before character =>
          rw [inner] at ih
          obtain ⟨escaped, unknown, rest, rfl⟩ := ih
          exact ⟨.escape isEscape escaped, unknown, rest, rfl⟩
  | case4 letter after noMeaning =>
      refine ⟨.empty, ?_, after, rfl⟩
      intro isEscape
      obtain ⟨meaning, known⟩ := escapeMeaning?_isSome isEscape
      rw [noMeaning] at known
      cases known
  | case5 => trivial
  | case6 character after notEnd notEscape notQuote ih =>
      have notBackslash : character ≠ '\\' := by
        rintro rfl
        cases after with
        | nil => exact notEnd rfl rfl
        | cons letter others => exact notEscape letter others rfl rfl
      cases inner : stringBody after with
      | closed body rest => trivial
      | unclosed =>
          rw [inner] at ih
          rcases ih with escaped | ⟨body, escaped, rfl⟩
          · exact .inl (.character notQuote notBackslash escaped)
          · exact .inr ⟨character :: body, .character notQuote notBackslash escaped, rfl⟩
      | refused before letter =>
          rw [inner] at ih
          obtain ⟨escaped, unknown, rest, rfl⟩ := ih
          exact ⟨.character notQuote notBackslash escaped, unknown, rest, rfl⟩

/-- What a quoted integer begins with when it does not come to its closing quote. -/
theorem quotedBody_shape (text : List Char) :
    match quotedBody text with
    | .closed _ _ => True
    | .unclosed => ∀ character ∈ text, character.isAlphanum = true
    | .refused before refused =>
        (∀ character ∈ before, character.isAlphanum = true) ∧ refused.isAlphanum = false ∧
          refused ≠ '\x27' ∧ ∃ rest, text = before ++ refused :: rest := by
  fun_induction quotedBody text with
  | case1 => exact List.forall_mem_nil _
  | case2 => trivial
  | case3 character after notQuote alphanumeric ih =>
      cases inner : quotedBody after with
      | closed body rest => trivial
      | unclosed =>
          rw [inner] at ih
          exact List.forall_mem_cons.mpr ⟨alphanumeric, ih⟩
      | refused before refused =>
          rw [inner] at ih
          obtain ⟨others, notAlphanumeric, notClosing, rest, rfl⟩ := ih
          exact ⟨List.forall_mem_cons.mpr ⟨alphanumeric, others⟩, notAlphanumeric, notClosing, rest,
            rfl⟩
  | case4 character after notQuote notAlphanumeric =>
      exact ⟨List.forall_mem_nil _, by simpa using notAlphanumeric, notQuote, after, rfl⟩

theorem string_shownBy {rest : List Char} {fault : CutFault} (found : string rest = .error fault) :
    fault.ShownBy ('\x22' :: rest) := by
  have shape := stringBody_shape rest
  unfold string at found
  split at found
  · cases found
  · rename_i unclosed
    rw [unclosed] at shape
    cases found
    rcases shape with escaped | ⟨body, escaped, rfl⟩
    · exact .openString escaped
    · exact .openEscape escaped
  · rename_i before letter refused
    rw [refused] at shape
    cases found
    obtain ⟨escaped, unknown, after, rfl⟩ := shape
    exact .wrongEscape escaped unknown

theorem quotedInteger_shownBy {rest : List Char} {fault : CutFault}
    (found : quotedInteger rest = .error fault) : fault.ShownBy ('\x27' :: rest) := by
  have shape := quotedBody_shape rest
  unfold quotedInteger at found
  split at found
  · cases found
  · rename_i unclosed
    rw [unclosed] at shape
    cases found
    exact .openQuotedInteger shape
  · rename_i before character refused
    rw [refused] at shape
    cases found
    obtain ⟨alphanumeric, notAlphanumeric, notQuote, after, rfl⟩ := shape
    exact .wrongCharacter alphanumeric notAlphanumeric notQuote

theorem number_shownBy {text : List Char} {fault : CutFault} (found : number text = .error fault) :
    fault.ShownBy text := by
  unfold number at found
  split at found
  · rename_i second rest
    split at found
    · rename_i isMark
      unfold markedHexadecimal at found
      split at found
      · cases found
        exact .bareMark isMark (by simp)
      · split at found
        · cases found
        · rename_i next after notDigit
          cases found
          refine .bareMark isMark ?_
          rintro _ ⟨⟩
          simpa using notDigit
    · split at found <;> cases found
  · cases found

theorem slash_shownBy {rest : List Char} {fault : CutFault} (found : slash rest = .error fault) :
    fault.ShownBy ('/' :: rest) := by
  unfold slash at found
  split at found
  · cases found
  · unfold blockComment at found
    split at found
    · cases found
    · rename_i unclosed
      cases found
      exact .openComment (splitBlock?_eq_none_iff.mp unclosed)
  · cases found

/-- A text from which no lexeme is cut shows the fault. -/
theorem shownBy_of_front {first : Char} {rest : List Char} {fault : CutFault}
    (found : front first rest = .error fault) : fault.ShownBy (first :: rest) := by
  unfold front at found
  split at found
  · cases found
  · split at found
    · exact number_shownBy found
    · split at found
      · rename_i quote
        exact quote ▸ string_shownBy found
      · split at found
        · rename_i quote
          exact quote ▸ quotedInteger_shownBy found
        · split at found
          · cases found
          · split at found
            · rename_i isSlash
              exact isSlash ▸ slash_shownBy found
            · cases found

end Cut

end JassExpr
