import JassExpr.Proofs.Source.LineEnds
import JassExpr.Proofs.Token.Completion

/-!
# Ends of lines

A text in which lines end with a carriage return and a line feed says the same as with line feeds
alone. Where such a pair is replaced, it stands between tokens or inside of a string literal or a
block comment, so the tokens are the same ones, nearer to the start by one byte for each pair in
front, and they are in the same lines and columns.
-/

namespace JassExpr

open Source

/-! ## Lexemes and faults -/

/-- A lexeme with a line feed for each pair of a carriage return and a line feed in its value. -/
def Lexeme.withLineFeeds (lexeme : Lexeme) : Lexeme :=
  { lexeme with value := lexeme.value.map JassExpr.withLineFeeds }

/-- No escape is made with a carriage return. -/
theorem ne_return_of_escape {letter : Char} (known : letter ∈ escapeLetters) : letter ≠ '\r' := by
  rintro rfl
  exact absurd known (by decide)

theorem IsStringBody.unifyLineEnds {body : List Char} (escaped : IsStringBody body) :
    IsStringBody (Source.unifyLineEnds body) := by
  induction escaped with
  | empty => exact .empty
  | @character first rest notQuote notBackslash others ih =>
      rcases unifyLineEnds_cons first rest with ⟨after, -, -, same⟩ | ⟨-, kept⟩
      · rwa [same]
      · rw [kept]
        exact .character notQuote notBackslash ih
  | @escape letter rest known others ih =>
      rw [unifyLineEnds_cons_of_ne (by decide),
        unifyLineEnds_cons_of_ne (ne_return_of_escape known)]
      exact .escape known ih

/-- No mark that ends a block comment comes about: where a carriage return is left out, a line feed
stays. -/
theorem unclosed_unifyLineEnds {body : List Char} (unclosed : ¬ ['*', '/'] <:+: body) :
    ¬ ['*', '/'] <:+: Source.unifyLineEnds body := by
  induction body with
  | nil => exact unclosed
  | cons first rest ih =>
      rw [List.infix_cons_iff, not_or] at unclosed
      obtain ⟨notHere, notLater⟩ := unclosed
      rcases unifyLineEnds_cons first rest with ⟨after, -, -, same⟩ | ⟨-, kept⟩
      · rw [same]
        exact ih notLater
      · rw [kept, List.infix_cons_iff, not_or]
        refine ⟨?_, ih notLater⟩
        rintro ⟨others, begins⟩
        obtain ⟨rfl, follows⟩ := List.cons.inj begins
        have next : (Source.unifyLineEnds rest).head? = some '/' := by
          rw [← follows]
          rfl
        rcases head?_unifyLineEnds rest with same | ⟨-, isFeed⟩
        · rw [same] at next
          obtain ⟨after, rfl⟩ := List.head?_eq_some_iff.mp next
          exact notHere ⟨after, rfl⟩
        · rw [isFeed] at next
          cases next

/-- No line ends within the text of a lexeme unless that is a string literal or a block comment. -/
theorem Lexeme.Written.notMem_or {lexeme : Lexeme} {text : List Char}
    (written : lexeme.Written text) {ending : Char} (ends : ending = '\n' ∨ ending = '\r') :
    (ending ∉ text ∧ ∀ value ∈ lexeme.value, ending ∉ value.toList) ∨
      (∃ body, IsStringBody body ∧ text = '\x22' :: (body ++ ['\x22']) ∧
        lexeme = .valued .string (String.ofList body)) ∨
        ∃ body, (¬ ['*', '/'] <:+: body) ∧ text = '/' :: '*' :: (body ++ ['*', '/']) ∧
          lexeme = .valued .comment (String.ofList text) := by
  have notMem : ∀ {test : Char → Bool} {run : List Char}, (∀ other ∈ run, test other = true) →
      test '\n' = false → test '\r' = false → ending ∉ run := by
    intro test run passes failsFeed failsReturn member
    have passed := passes _ member
    rcases ends with rfl | rfl
    · exact absurd passed (Bool.eq_false_iff.mp failsFeed)
    · exact absurd passed (Bool.eq_false_iff.mp failsReturn)
  have notMark : ∀ {mark : Char}, mark ≠ '\n' → mark ≠ '\r' → ending ≠ mark := by
    intro mark notFeed notReturn
    rcases ends with rfl | rfl
    · exact notFeed.symm
    · exact notReturn.symm
  cases written with
  | @fixed kind text spelled =>
      have letters : kind.spelling?.map String.toList = some text := by simp [spelled]
      have noEnding : '\n' ∉ text ∧ '\r' ∉ text := by
        cases kind <;> cases letters <;> decide
      refine .inl ⟨?_, by simp [Lexeme.fixed]⟩
      rcases ends with rfl | rfl
      · exact noEnding.1
      · exact noEnding.2
  | @identifier first rest starts continues notOperator =>
      have noEnding : ending ∉ first :: rest :=
        notMem (List.forall_mem_cons.mpr ⟨Text.continuesWord_of_startsWord starts, continues⟩)
          rfl rfl
      exact .inl ⟨noEnding, by simpa [Lexeme.valued] using noEnding⟩
  | integer decimal =>
      have noEnding := notMem decimal.isDigit rfl rfl
      exact .inl ⟨noEnding, by simpa [Lexeme.valued] using noEnding⟩
  | @real whole places decimal nonempty digits =>
      have notPoint : ending ≠ '.' := notMark (by decide) (by decide)
      have noEnding : ending ∉ whole ++ '.' :: places := by
        simp [notMem decimal.isDigit rfl rfl, notMem digits rfl rfl, notPoint]
      exact .inl ⟨noEnding, by simpa [Lexeme.valued] using noEnding⟩
  | octal nonempty octal =>
      have noEnding := notMem octal rfl rfl
      have notZero : ending ≠ '0' := notMark (by decide) (by decide)
      exact .inl ⟨by simpa [notZero] using noEnding, by simpa [Lexeme.valued] using noEnding⟩
  | @hexadecimal mark digits marked nonempty hexadecimal =>
      have noEnding := notMem hexadecimal rfl rfl
      have noEndingMark : ∀ mark ∈ hexadecimalMarks, '\n' ∉ mark ∧ '\r' ∉ mark := by decide
      refine .inl ⟨?_, by simpa [Lexeme.valued] using noEnding⟩
      rw [List.mem_append, not_or]
      refine ⟨?_, noEnding⟩
      rcases ends with rfl | rfl
      · exact (noEndingMark mark marked).1
      · exact (noEndingMark mark marked).2
  | quotedInteger alphanumeric =>
      have noEnding := notMem alphanumeric rfl rfl
      have notQuote : ending ≠ '\x27' := notMark (by decide) (by decide)
      exact .inl ⟨by simpa [notQuote] using noEnding, by simpa [Lexeme.valued] using noEnding⟩
  | string escaped => exact .inr (.inl ⟨_, escaped, rfl, rfl⟩)
  | @lineComment line oneLine =>
      have noEnding : ending ∉ line := by
        intro member
        rcases ends with rfl | rfl
        · exact (oneLine _ member).1 rfl
        · exact (oneLine _ member).2 rfl
      have notSlash : ending ≠ '/' := notMark (by decide) (by decide)
      exact .inl ⟨by simpa [notSlash] using noEnding,
        by simpa [Lexeme.valued, notSlash] using noEnding⟩
  | blockComment unclosed => exact .inr (.inr ⟨_, unclosed, rfl, rfl⟩)
  | @other character unclaimed =>
      have notEnding : ending ≠ character := by
        rintro rfl
        rcases ends with rfl | rfl <;> cases unclaimed.1
      exact .inl ⟨by simpa using notEnding, by simpa [Lexeme.valued] using notEnding⟩

theorem Lexeme.Written.getLast?_ne_return {lexeme : Lexeme} {text : List Char}
    (written : lexeme.Written text) : text.getLast? ≠ some '\r' := by
  rcases written.notMem_or (.inr rfl) with ⟨noReturn, -⟩ | ⟨body, -, rfl, -⟩ |
    ⟨body, -, rfl, -⟩
  · intro isLast
    exact noReturn (List.mem_of_getLast? isLast)
  · rw [← List.cons_append, List.getLast?_concat]
    decide
  · have whole : '/' :: '*' :: (body ++ ['*', '/']) = '/' :: '*' :: (body ++ ['*']) ++ ['/'] := by
      simp
    rw [whole, List.getLast?_concat]
    decide

theorem Lexeme.Written.head?_append_ne_feed {lexeme : Lexeme} {text : List Char}
    (written : lexeme.Written text) (rest : List Char) : (text ++ rest).head? ≠ some '\n' := by
  obtain ⟨first, others, rfl, notBlank⟩ := written.head
  rintro ⟨⟩
  cases notBlank

/-- A text with unified line ends writes the lexeme with unified line ends. -/
theorem Lexeme.Written.withLineFeeds {lexeme : Lexeme} {text : List Char}
    (written : lexeme.Written text) :
    lexeme.withLineFeeds.Written (Source.unifyLineEnds text) := by
  rcases written.notMem_or (.inr rfl) with ⟨noReturn, noReturnValue⟩ | ⟨body, escaped, rfl, rfl⟩ |
    ⟨body, unclosed, rfl, rfl⟩
  · have sameValue : lexeme.value.map JassExpr.withLineFeeds = lexeme.value := by
      cases found : lexeme.value with
      | none => rfl
      | some value =>
          have same := unifyLineEnds_of_notMem (noReturnValue value found)
          rw [Option.map_some, JassExpr.withLineFeeds, same, String.ofList_toList]
    have sameLexeme : lexeme.withLineFeeds = lexeme := by
      rw [Lexeme.withLineFeeds, sameValue]
    rwa [sameLexeme, unifyLineEnds_of_notMem noReturn]
  · have unified := Lexeme.Written.string escaped.unifyLineEnds
    have whole : Source.unifyLineEnds ('\x22' :: (body ++ ['\x22'])) =
        '\x22' :: (Source.unifyLineEnds body ++ ['\x22']) := by
      rw [unifyLineEnds_cons_of_ne (by decide), unifyLineEnds_append_cons body (by decide)]
      rfl
    simpa [Lexeme.withLineFeeds, Lexeme.valued, JassExpr.withLineFeeds, whole] using unified
  · have unified := Lexeme.Written.blockComment (unclosed_unifyLineEnds unclosed)
    have whole : Source.unifyLineEnds ('/' :: '*' :: (body ++ ['*', '/'])) =
        '/' :: '*' :: (Source.unifyLineEnds body ++ ['*', '/']) := by
      rw [unifyLineEnds_cons_of_ne (by decide), unifyLineEnds_cons_of_ne (by decide),
        unifyLineEnds_append_cons body (by decide)]
      rfl
    simpa [Lexeme.withLineFeeds, Lexeme.valued, JassExpr.withLineFeeds, whole] using unified

theorem Lexeme.Written.attracts_unifyLineEnds {lexeme : Lexeme} {text : List Char}
    (written : lexeme.Written text) (next : Char) :
    lexeme.kind.attracts (Source.unifyLineEnds text) next = lexeme.kind.attracts text next := by
  rcases written.notMem_or (.inr rfl) with ⟨noReturn, -⟩ | ⟨body, -, -, rfl⟩ |
    ⟨body, -, rfl, rfl⟩
  · rw [unifyLineEnds_of_notMem noReturn]
  · rfl
  · rw [unifyLineEnds_cons_of_ne (by decide), unifyLineEnds_cons_of_ne (by decide)]
    rfl

/-- What lets the text of a lexeme end still does: a line feed belongs to no text in front of it. -/
theorem Lexeme.Written.ends_unifyLineEnds {lexeme : Lexeme} {text rest : List Char}
    (written : lexeme.Written text) (ends : lexeme.kind.Ends text rest) :
    lexeme.kind.Ends (Source.unifyLineEnds text) (Source.unifyLineEnds rest) where
  apart := by
    intro next member
    rw [written.attracts_unifyLineEnds]
    rcases head?_unifyLineEnds rest with same | ⟨-, isFeed⟩
    · rw [same] at member
      exact ends.apart next member
    · rw [isFeed] at member
      cases member
      apply TokenKind.attracts_eq_false rfl (by decide) (by decide) (by decide)
      intro _ _
      rfl
  noPlaces := by
    intro isInteger digit after begins
    cases rest with
    | nil => cases begins
    | cons first others =>
        rcases unifyLineEnds_cons first others with ⟨behind, rfl, rfl, -⟩ | ⟨-, kept⟩
        · cases (List.cons.inj begins).1
        · rw [kept] at begins
          obtain ⟨rfl, follows⟩ := List.cons.inj begins
          rcases head?_unifyLineEnds others with same | ⟨-, isFeed⟩
          · rw [follows] at same
            obtain ⟨behind, rfl⟩ := List.head?_eq_some_iff.mp same.symm
            exact ends.noPlaces isInteger digit behind rfl
          · rw [follows] at isFeed
            cases isFeed
            rfl

/-- A text that shows a fault still does. A carriage return that is refused may have been left out,
and then the line feed behind it is refused. -/
theorem CutFault.ShownBy.unifyLineEnds {fault : CutFault} {text : List Char}
    (shown : fault.ShownBy text) :
    ∃ other : CutFault, other.ShownBy (Source.unifyLineEnds text) := by
  have noReturn : ∀ {code : List Char}, (∀ character ∈ code, character.isAlphanum = true) →
      Source.unifyLineEnds code = code := by
    intro code alphanumeric
    apply unifyLineEnds_of_notMem
    intro member
    exact absurd (alphanumeric _ member) (by decide)
  cases shown with
  | openString escaped =>
      rw [unifyLineEnds_cons_of_ne (by decide)]
      exact ⟨_, .openString escaped.unifyLineEnds⟩
  | openEscape escaped =>
      rw [unifyLineEnds_cons_of_ne (by decide), unifyLineEnds_append_cons _ (by decide)]
      exact ⟨_, .openEscape escaped.unifyLineEnds⟩
  | @wrongEscape body rest letter escaped unknown =>
      rw [unifyLineEnds_cons_of_ne (by decide), unifyLineEnds_append_cons _ (by decide),
        unifyLineEnds_cons_of_ne (by decide)]
      rcases unifyLineEnds_cons letter rest with ⟨after, rfl, rfl, same⟩ | ⟨-, kept⟩
      · rw [same, unifyLineEnds_cons_of_ne (by decide)]
        exact ⟨_, .wrongEscape escaped.unifyLineEnds (by decide)⟩
      · rw [kept]
        exact ⟨_, .wrongEscape escaped.unifyLineEnds unknown⟩
  | openQuotedInteger alphanumeric =>
      rw [unifyLineEnds_cons_of_ne (by decide), noReturn alphanumeric]
      exact ⟨_, .openQuotedInteger alphanumeric⟩
  | @wrongCharacter code rest refused alphanumeric notAlphanumeric notQuote =>
      have uncut : code.getLast? = some '\r' → (refused :: rest).head? ≠ some '\n' := by
        intro isLast
        exact absurd (alphanumeric _ (List.mem_of_getLast? isLast)) (by decide)
      rw [unifyLineEnds_cons_of_ne (by decide), unifyLineEnds_append uncut, noReturn alphanumeric]
      rcases unifyLineEnds_cons refused rest with ⟨after, rfl, rfl, same⟩ | ⟨-, kept⟩
      · rw [same, unifyLineEnds_cons_of_ne (by decide)]
        exact ⟨_, .wrongCharacter alphanumeric rfl (by decide)⟩
      · rw [kept]
        exact ⟨_, .wrongCharacter alphanumeric notAlphanumeric notQuote⟩
  | openComment unclosed =>
      rw [unifyLineEnds_cons_of_ne (by decide), unifyLineEnds_cons_of_ne (by decide)]
      exact ⟨_, .openComment (unclosed_unifyLineEnds unclosed)⟩
  | @bareMark letter rest isMark noDigit =>
      have notReturn : letter ≠ '\r' := by
        rintro rfl
        simp at isMark
      rw [unifyLineEnds_cons_of_ne (by decide), unifyLineEnds_cons_of_ne notReturn]
      refine ⟨_, .bareMark isMark ?_⟩
      intro next member
      rcases head?_unifyLineEnds rest with same | ⟨-, isFeed⟩
      · rw [same] at member
        exact noDigit next member
      · rw [isFeed] at member
        cases member
        rfl

/-! ## Scans -/

/-- A token of a text that begins at an offset, and the one for it where line ends are unified in
the text, which then begins at another offset. -/
structure Token.CarriedOver (offset moved : Nat) (text : List Char) (token other : Token) :
    Prop where
  lexeme : other.toLexeme = token.toLexeme.withLineFeeds
  place : ∃ front written back, text = front ++ written ++ back ∧ token.Written written ∧
    token.span = ⟨offset + byteLength front, offset + byteLength (front ++ written)⟩ ∧
      other.span = ⟨moved + byteLength (unifyLineEnds front),
        moved + byteLength (unifyLineEnds (front ++ written))⟩

namespace Token.CarriedOver

variable {offset moved : Nat} {text : List Char} {token other : Token}

theorem behind {before : List Char} {further : Nat}
    (carried : CarriedOver (offset + byteLength before) further text token other)
    (places : ∀ front back, text = front ++ back → (front = [] → back.head? ≠ some '\n') →
      further + byteLength (unifyLineEnds front) =
        moved + byteLength (unifyLineEnds (before ++ front))) :
    CarriedOver offset moved (before ++ text) token other where
  lexeme := carried.lexeme
  place := by
    obtain ⟨front, written, back, rfl, isWritten, span, otherSpan⟩ := carried.place
    have nonempty : written ≠ [] := by
      obtain ⟨first, rest, rfl, -⟩ := isWritten.head
      exact List.cons_ne_nil first rest
    have starts := places front (written ++ back) (List.append_assoc _ _ _) fun _ =>
      isWritten.head?_append_ne_feed back
    have stops := places (front ++ written) back rfl fun isEmpty =>
      absurd (List.append_eq_nil_iff.mp isEmpty).2 nonempty
    refine ⟨before ++ front, written, back, by simp, isWritten, ?_, ?_⟩
    · rw [span, List.append_assoc, byteLength_append before, byteLength_append before]
      simp only [Nat.add_assoc]
    · rw [otherSpan, starts, stops, List.append_assoc]

/-- A carriage return in front of a line feed makes no difference. -/
theorem behind_return (carried : CarriedOver (offset + 1) moved ('\n' :: text) token other) :
    CarriedOver offset moved ('\r' :: '\n' :: text) token other := by
  have places : ∀ front back, '\n' :: text = front ++ back → (front = [] → back.head? ≠ some '\n') →
      moved + byteLength (unifyLineEnds front) =
        moved + byteLength (unifyLineEnds (['\r'] ++ front)) := by
    intro front back whole noFeed
    cases front with
    | nil =>
        rw [List.nil_append] at whole
        exact absurd (by rw [← whole]; rfl) (noFeed rfl)
    | cons first front =>
        obtain ⟨rfl, -⟩ := List.cons.inj whole
        rfl
  exact carried.behind places

/-- So does a text that ends without a part of a pair. -/
theorem behind_text {before : List Char}
    (carried : CarriedOver (offset + byteLength before)
      (moved + byteLength (unifyLineEnds before)) text token other)
    (uncut : before.getLast? = some '\r' → text.head? ≠ some '\n') :
    CarriedOver offset moved (before ++ text) token other := by
  apply carried.behind
  rintro front back rfl -
  have uncutFront : before.getLast? = some '\r' → front.head? ≠ some '\n' := by
    intro isLast isFeed
    apply uncut isLast
    rw [List.head?_append, isFeed]
    rfl
  rw [unifyLineEnds_append uncutFront, byteLength_append, Nat.add_assoc]

end Token.CarriedOver

/-- The scans of a text and of the text with unified line ends find tokens for each other, and both
of them or none ends with a fault. -/
theorem Scan.textFrom_unifyLineEnds (offset moved : Nat) (text : List Char) :
    List.Forall₂ (Token.CarriedOver offset moved text) (textFrom offset text).tokens
        (textFrom moved (unifyLineEnds text)).tokens ∧
      (textFrom moved (unifyLineEnds text)).fault?.isSome =
        (textFrom offset text).fault?.isSome := by
  fun_induction textFrom offset text generalizing moved with
  | case1 offset =>
      rw [unifyLineEnds, textFrom_nil]
      exact ⟨.nil, rfl⟩
  | case2 offset first rest blank ih =>
      rcases unifyLineEnds_cons first rest with ⟨after, rfl, rfl, same⟩ | ⟨uncut, kept⟩
      · rw [same]
        obtain ⟨carried, sameFault⟩ := ih moved
        exact ⟨carried.imp fun token other each => each.behind_return, sameFault⟩
      · rw [kept, textFrom_blank blank]
        obtain ⟨carried, sameFault⟩ := ih (moved + 1)
        refine ⟨carried.imp fun token other each => ?_, sameFault⟩
        have size : byteLength [first] = 1 := utf8Size_blank blank
        have sizeUnified : byteLength (unifyLineEnds [first]) = 1 := by
          rcases isBlank_iff.mp blank with rfl | rfl | rfl | rfl <;> rfl
        have eachBehind : Token.CarriedOver (offset + byteLength [first])
            (moved + byteLength (unifyLineEnds [first])) rest token other := by
          rwa [size, sizeUnified]
        apply eachBehind.behind_text
        intro isLast
        exact uncut (Option.some.inj isLast)
  | case3 offset first rest notBlank cut found ih =>
      have recognised := Cut.front_recognised (by simpa using notBlank) found
      have whole := (Cut.front_consumes found).1
      have uncut : cut.written.getLast? = some '\r' → cut.rest.head? ≠ some '\n' := fun isLast =>
        absurd isLast recognised.written.getLast?_ne_return
      obtain ⟨carried, sameFault⟩ := ih (moved + byteLength (unifyLineEnds cut.written))
      rw [← whole, unifyLineEnds_append uncut,
        textFrom_of_written recognised.written.withLineFeeds
          (recognised.written.ends_unifyLineEnds recognised.ends)]
      refine ⟨.cons ?_ (carried.imp fun token other each => each.behind_text uncut), sameFault⟩
      exact ⟨rfl, [], cut.written, cut.rest, rfl, recognised.written, rfl, rfl⟩
  | case4 offset first rest notBlank fault found =>
      obtain ⟨other, shown⟩ := (Cut.shownBy_of_front found).unifyLineEnds
      obtain ⟨next, others, begins, notBlankNext, foundNext⟩ := Cut.front_of_shownBy shown
      rw [begins, textFrom_fault notBlankNext foundNext]
      exact ⟨.nil, rfl⟩

/-- A token of a source and the one for it where each pair of a carriage return and a line feed is
replaced by the line feed. -/
structure Token.SameWithLineFeeds (source : String) (token other : Token) : Prop where
  kind : other.kind = token.kind
  value : other.value = token.value.map withLineFeeds
  start : other.span.start + lineEndPairs token.span.start 0 source.toList = token.span.start
  stop : other.span.stop + lineEndPairs token.span.stop 0 source.toList = token.span.stop
  position : (LineMap.ofSource (withLineFeeds source)).position other.span.start =
    (LineMap.ofSource source).position token.span.start

theorem Token.CarriedOver.sameWithLineFeeds {source : String} {token other : Token}
    (carried : CarriedOver (textStart source.toList) (textStart source.toList)
      (splitMark source.toList).2 token other) : SameWithLineFeeds source token other := by
  obtain ⟨lexeme, front, written, back, whole, isWritten, span, otherSpan⟩ := carried
  have sameKind := congrArg Lexeme.kind lexeme
  have sameValue := congrArg Lexeme.value lexeme
  have wholeStart : (splitMark source.toList).2 = front ++ (written ++ back) := by
    rw [whole, List.append_assoc]
  have split := splitMark_unifyLineEnds source.toList
  have characters : (withLineFeeds source).toList = unifyLineEnds source.toList :=
    String.toList_ofList
  have sameStart : textStart source.toList = textStart (withLineFeeds source).toList := by
    rw [textStart, textStart, characters, split]
  exact {
    kind := sameKind
    value := sameValue
    start := by
      rw [span, otherSpan]
      exact byteLength_unifyLineEnds_behind wholeStart
    stop := by
      rw [span, otherSpan]
      exact byteLength_unifyLineEnds_behind whole
    position := by
      have uncut : front.getLast? = some '\r' → (written ++ back).head? ≠ some '\n' := by
        intro _
        exact isWritten.head?_append_ne_feed back
      have wholeUnified : (splitMark (withLineFeeds source).toList).2 =
          unifyLineEnds front ++ unifyLineEnds (written ++ back) := by
        rw [characters, split, wholeStart, unifyLineEnds_append uncut]
      have position := LineMap.position_eq_advance wholeUnified
      rw [← sameStart, Position.advance_unifyLineEnds] at position
      rw [span, otherSpan, position, LineMap.position_eq_advance wholeStart] }

/-- Carriage returns in front of line feeds make no difference to the tokens of a source: without
them it has tokens if it has any with them, and these are the same ones, at the same lines and
columns. The value of each is without them as well, and its bounds are nearer to the start by the
number of them in front. -/
theorem tokenize_withLineFeeds (source : String) :
    ((∃ tokens, tokenize source = .ok tokens) ↔
      ∃ others, tokenize (withLineFeeds source) = .ok others) ∧
    ∀ tokens others, tokenize source = .ok tokens →
      tokenize (withLineFeeds source) = .ok others →
        List.Forall₂ (Token.SameWithLineFeeds source) tokens others := by
  have split := splitMark_unifyLineEnds source.toList
  have characters : (withLineFeeds source).toList = unifyLineEnds source.toList :=
    String.toList_ofList
  have scan : Scan.ofSource (withLineFeeds source) =
      Scan.textFrom (textStart source.toList) (unifyLineEnds (splitMark source.toList).2) := by
    rw [Scan.ofSource_eq, textStart, textStart, characters, split]
  obtain ⟨carried, sameFault⟩ := Scan.textFrom_unifyLineEnds (textStart source.toList)
    (textStart source.toList) (splitMark source.toList).2
  rw [tokenize, tokenize, scan, Scan.ofSource_eq]
  generalize Scan.textFrom _ (splitMark source.toList).2 = first at carried sameFault ⊢
  generalize Scan.textFrom _ (unifyLineEnds _) = second at carried sameFault ⊢
  cases faulty : first.fault? with
  | some fault =>
      rw [faulty] at sameFault
      obtain ⟨other, faultyOther⟩ := Option.isSome_iff_exists.mp sameFault
      simp [faultyOther]
  | none =>
      rw [faulty] at sameFault
      have faultless : second.fault? = none := by simpa using sameFault
      simp only [faultless, Except.ok.injEq, exists_eq', true_and]
      rintro tokens others rfl rfl
      exact carried.imp fun token other each => each.sameWithLineFeeds

/-- A pair ends a comment, another one stands in a string literal, and the carriage return behind
that is alone and stays. -/
theorem tokenize_withLineFeeds_alone :
    let source := "//x\r\n\"\r\n\"\r y"
    let tokens : List Token := [⟨.valued .comment "//x", ⟨0, 3⟩⟩, ⟨.valued .string "\r\n", ⟨5, 9⟩⟩,
      ⟨.valued .identifier "y", ⟨11, 12⟩⟩]
    let others : List Token := [⟨.valued .comment "//x", ⟨0, 3⟩⟩, ⟨.valued .string "\n", ⟨4, 7⟩⟩,
      ⟨.valued .identifier "y", ⟨9, 10⟩⟩]
    tokenize source = .ok tokens ∧ tokenize (withLineFeeds source) = .ok others ∧
      List.Forall₂ (Token.SameWithLineFeeds source) tokens others := by
  intro source tokens others
  have scanned : tokenize source = .ok tokens := by cbv
  have scannedOther : tokenize (withLineFeeds source) = .ok others := by cbv
  exact ⟨scanned, scannedOther,
    (tokenize_withLineFeeds source).2 tokens others scanned scannedOther⟩

end JassExpr
