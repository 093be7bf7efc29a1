import JassExpr.Document.Basic
import JassExpr.Proofs.Token.Lossless

/-!
# Comments are blanks

A comment lets the token before it end, keeps it apart from the token after it, and says nothing.
Blanks of the same length do just that. With a space in place of each byte of its comments, a source
has its other tokens at the places where they were, and so it is read as the same expressions or
refused for the same error.
-/

namespace JassExpr

instance (span : Span) (offset : Nat) : Decidable (span.Contains offset) :=
  inferInstanceAs (Decidable (_ ∧ _))

namespace Token

/-- A byte offset lies inside a comment. -/
def InComment (tokens : List Token) (offset : Nat) : Prop :=
  ∃ token ∈ tokens, token.kind = .comment ∧ token.span.Contains offset

instance (tokens : List Token) : DecidablePred (InComment tokens) := fun offset =>
  inferInstanceAs (Decidable (∃ token ∈ tokens, token.kind = .comment ∧ token.span.Contains offset))

theorem not_inComment_of_lt {tokens : List Token} {offset : Nat}
    (before : ∀ token ∈ tokens, offset < token.span.start) : ¬InComment tokens offset := by
  rintro ⟨token, member, -, contains⟩
  have := before token member
  have := contains.1
  omega

theorem inComment_cons_iff_of_le {token : Token} {tokens : List Token} {offset : Nat}
    (passed : token.span.stop ≤ offset) :
    InComment (token :: tokens) offset ↔ InComment tokens offset := by
  have outside : ¬token.span.Contains offset := by
    intro contains
    have := contains.2
    omega
  simp [InComment, outside]

theorem inComment_cons_iff_of_ne {token : Token} {tokens : List Token} {offset : Nat}
    (notComment : token.kind ≠ .comment) :
    InComment (token :: tokens) offset ↔ InComment tokens offset := by
  simp [InComment, notComment]

end Token

namespace Source

variable {hidden other : Nat → Prop} [DecidablePred hidden] [DecidablePred other]

/-- A text that begins at an offset, in which each character that begins at a hidden offset is
replaced by as many spaces as it has bytes. -/
def blankOut (hidden : Nat → Prop) [DecidablePred hidden] (offset : Nat) : List Char → List Char
  | [] => []
  | character :: rest =>
      (if hidden offset then List.replicate character.utf8Size ' ' else [character]) ++
        blankOut hidden (offset + character.utf8Size) rest

theorem blankOut_append (offset : Nat) (first second : List Char) :
    blankOut hidden offset (first ++ second) =
      blankOut hidden offset first ++ blankOut hidden (offset + byteLength first) second := by
  induction first generalizing offset with
  | nil => rfl
  | cons character first ih => simp [blankOut, ih, Nat.add_assoc]

theorem blankOut_congr {offset : Nat} (text : List Char)
    (same : ∀ index, offset ≤ index → (hidden index ↔ other index)) :
    blankOut hidden offset text = blankOut other offset text := by
  induction text generalizing offset with
  | nil => rfl
  | cons character text ih =>
      have sameLater : ∀ index, offset + character.utf8Size ≤ index →
          (hidden index ↔ other index) := fun index from_ => same index (by omega)
      simp only [blankOut, same offset Nat.le.refl, ih sameLater]

theorem blankOut_of_outside {offset : Nat} {text : List Char}
    (outside : ∀ index, offset ≤ index → index < offset + byteLength text → ¬hidden index) :
    blankOut hidden offset text = text := by
  induction text generalizing offset with
  | nil => rfl
  | cons character text ih =>
      have positive := character.utf8Size_pos
      rw [byteLength_cons] at outside
      have here : ¬hidden offset := outside offset Nat.le.refl (by omega)
      rw [blankOut, if_neg here, ih, List.singleton_append]
      intro index from_ upTo
      exact outside index (by omega) (by omega)

theorem blankOut_of_inside {offset : Nat} {text : List Char}
    (inside : ∀ index, offset ≤ index → index < offset + byteLength text → hidden index) :
    blankOut hidden offset text = List.replicate (byteLength text) ' ' := by
  induction text generalizing offset with
  | nil => rfl
  | cons character text ih =>
      have positive := character.utf8Size_pos
      rw [byteLength_cons] at inside ⊢
      have here : hidden offset := inside offset Nat.le.refl (by omega)
      rw [blankOut, if_pos here, ih, List.replicate_append_replicate]
      intro index from_ upTo
      exact inside index (by omega) (by omega)

theorem head?_blankOut {offset : Nat} {text : List Char} :
    ∀ next ∈ (blankOut hidden offset text).head?, next = ' ' ∨ next ∈ text.head? := by
  intro next member
  cases text with
  | nil => cases member
  | cons character rest =>
      obtain ⟨more, size⟩ := Nat.exists_eq_add_one_of_ne_zero (Nat.ne_of_gt character.utf8Size_pos)
      by_cases isHidden : hidden offset
      · left
        simpa [blankOut, isHidden, size, List.replicate_succ, eq_comm] using member
      · right
        simpa [blankOut, isHidden] using member

theorem byteLength_spaces (count : Nat) : byteLength (List.replicate count ' ') = count := by
  induction count with
  | zero => rfl
  | succ count ih =>
      have size : ' '.utf8Size = 1 := rfl
      rw [List.replicate_succ, byteLength_cons, ih, size, Nat.add_comm]

theorem bytes_spaces (count : Nat) :
    bytes (List.replicate count ' ') = List.replicate count 0x20 := by
  induction count with
  | zero => rfl
  | succ count ih =>
      rw [List.replicate_succ, bytes_cons, ih]
      rfl

/-- Where a text is cut in two, no character is cut. -/
theorem byteLength_apart {before after front back : List Char} {character : Char}
    (cut : before ++ character :: after = front ++ back) :
    byteLength front ≤ byteLength before ∨
      byteLength before + character.utf8Size ≤ byteLength front := by
  rcases List.append_eq_append_iff.mp cut with ⟨more, rfl, same⟩ | ⟨more, rfl, -⟩
  · cases more with
    | nil => simp
    | cons first more =>
        obtain ⟨rfl, -⟩ := List.cons.inj same
        right
        simp only [byteLength_append, byteLength_cons]
        omega
  · left
    simp

/-- If no character is hidden in part, blanking out a text puts a space in place of each hidden
byte. -/
theorem bytes_blankOut (before text : List Char)
    (uniform : ∀ front character back, before ++ text = front ++ character :: back →
      ∀ index < character.utf8Size,
        (hidden (byteLength front + index) ↔ hidden (byteLength front))) :
    bytes (blankOut hidden (byteLength before) text) =
      (bytes text).mapIdx fun index byte =>
        if hidden (byteLength before + index) then 0x20 else byte := by
  induction text generalizing before with
  | nil => rfl
  | cons character text ih =>
      have later := ih (before ++ [character]) (by simpa using uniform)
      have size : (String.utf8EncodeChar character).length = character.utf8Size :=
        String.length_utf8EncodeChar character
      have here : bytes (if hidden (byteLength before) then
          List.replicate character.utf8Size ' ' else [character]) =
            (String.utf8EncodeChar character).mapIdx fun index byte =>
              if hidden (byteLength before + index) then 0x20 else byte := by
        have alike := uniform before character text rfl
        by_cases isHidden : hidden (byteLength before)
        · rw [if_pos isHidden, bytes_spaces]
          apply List.ext_getElem
          · simp [size]
          · intro index inside _
            rw [List.length_replicate] at inside
            simp [(alike index inside).mpr isHidden]
        · rw [if_neg isHidden]
          apply List.ext_getElem
          · simp [bytes]
          · intro index inside _
            have upTo : index < character.utf8Size := by simpa [bytes, size] using inside
            simp [bytes, mt (alike index upTo).mp isHidden]
      rw [byteLength_append, byteLength_cons, byteLength_nil, Nat.add_zero] at later
      rw [blankOut, bytes_append, bytes_cons, List.mapIdx_append, here, later, size]
      simp only [Nat.add_assoc, Nat.add_comm character.utf8Size]

theorem splitMark_blankOut {text : List Char}
    (outside : ∀ index < byteLength (splitMark text).1, ¬hidden index) :
    splitMark (blankOut hidden 0 text) =
      ((splitMark text).1,
        blankOut hidden (byteLength (splitMark text).1) (splitMark text).2) := by
  cases text with
  | nil => rfl
  | cons first rest =>
      by_cases isMark : first = byteOrderMark
      · have marked : splitMark (first :: rest) = ([first], rest) := by simp [splitMark, isMark]
        rw [marked] at outside ⊢
        have here : ¬hidden 0 := outside 0 first.utf8Size_pos
        simp [blankOut, here, splitMark, isMark]
      · have unmarked : splitMark (first :: rest) = ([], first :: rest) := by
          simp [splitMark, isMark]
        rw [unmarked]
        apply splitMark_of_head?_ne
        intro begins
        rcases head?_blankOut byteOrderMark begins with isSpace | member
        · exact absurd isSpace (by decide)
        · exact isMark (Option.some.inj member)

end Source

/-- What lets a token end that is no comment still does when some of it is blanked out. -/
theorem TokenKind.Ends.blankOut {kind : TokenKind} {text rest : List Char} {hidden : Nat → Prop}
    [DecidablePred hidden] {offset : Nat} (ends : kind.Ends text rest)
    (notComment : kind ≠ .comment) : kind.Ends text (Source.blankOut hidden offset rest) where
  apart := by
    intro next member
    rcases Source.head?_blankOut next member with rfl | begins
    · exact attracts_eq_false rfl (by decide) (by decide) (by decide)
        fun isComment => absurd isComment notComment
    · exact ends.apart next begins
  noPlaces := by
    intro isInteger digit after begins
    have head : '.' ∈ (Source.blankOut hidden offset rest).head? := by
      rw [begins]
      rfl
    rcases Source.head?_blankOut '.' head with isSpace | isPoint
    · exact absurd isSpace (by decide)
    obtain ⟨behind, rfl⟩ := List.head?_eq_some_iff.mp isPoint
    by_cases isHidden : hidden offset
    · simp only [Source.blankOut, if_pos isHidden] at begins
      exact absurd (List.cons.inj begins).1 (by decide)
    · simp only [Source.blankOut, if_neg isHidden, List.singleton_append] at begins
      have second := (List.cons.inj begins).2
      rcases Source.head?_blankOut digit (by rw [second]; rfl) with rfl | isDigit
      · rfl
      · obtain ⟨others, rfl⟩ := List.head?_eq_some_iff.mp isDigit
        exact ends.noPlaces isInteger digit others rfl

namespace Laid

variable {offset : Nat} {text : List Char} {tokens : List Token}

/-- With its comments blanked out, a text is laid out as its other tokens. -/
theorem blankOut (laid : Laid offset text tokens) :
    Laid offset (Source.blankOut (Token.InComment tokens) offset text)
      (Token.stripComments tokens) := by
  induction laid with
  | empty => exact .empty
  | @blank offset first rest tokens isBlank others ih =>
      have here : ¬Token.InComment tokens offset :=
        Token.not_inComment_of_lt fun token member => others.le_start token member
      rw [Source.blankOut, if_neg here, utf8Size_blank isBlank]
      exact .blank isBlank ih
  | @token offset lexeme text rest tokens written ends others ih =>
      let token : Token := ⟨lexeme, ⟨offset, offset + Source.byteLength text⟩⟩
      have passed : Source.blankOut (Token.InComment (token :: tokens))
          (offset + Source.byteLength text) rest =
            Source.blankOut (Token.InComment tokens) (offset + Source.byteLength text) rest :=
        Source.blankOut_congr rest fun index from_ => Token.inComment_cons_iff_of_le from_
      rw [Source.blankOut_append, passed]
      -- A comment becomes blanks, which belong to no token. Any other token stays as it is.
      by_cases isComment : lexeme.kind = .comment
      · have inside : ∀ index, offset ≤ index → index < offset + Source.byteLength text →
            Token.InComment (token :: tokens) index := fun index from_ upTo =>
          ⟨token, List.mem_cons_self, isComment, from_, upTo⟩
        have stripped : Token.stripComments (token :: tokens) = Token.stripComments tokens := by
          simp [Token.stripComments, token, isComment]
        rw [Source.blankOut_of_inside inside, stripped]
        apply Laid.blanks
        · intro character member
          rw [List.eq_of_mem_replicate member]
          rfl
        · rwa [Source.byteLength_spaces]
      · have outside : ∀ index, offset ≤ index → index < offset + Source.byteLength text →
            ¬Token.InComment (token :: tokens) index := by
          intro index from_ upTo
          rw [Token.inComment_cons_iff_of_ne isComment]
          apply Token.not_inComment_of_lt
          intro later member
          have := others.le_start later member
          omega
        have stripped : Token.stripComments (token :: tokens) =
            token :: Token.stripComments tokens := by
          simp [Token.stripComments, token, isComment]
        rw [Source.blankOut_of_outside outside, stripped]
        exact .token written (ends.blankOut isComment) ih

/-- Each comment hides whole characters. -/
theorem inComment_uniform (laid : Laid offset text tokens) {before : List Char}
    (places : Source.byteLength before = offset) {front back : List Char} {character : Char}
    (cut : before ++ text = front ++ character :: back) {index : Nat}
    (inside : index < character.utf8Size) :
    Token.InComment tokens (Source.byteLength front + index) ↔
      Token.InComment tokens (Source.byteLength front) := by
  have contains_iff : ∀ token ∈ tokens, (token.span.Contains (Source.byteLength front + index) ↔
      token.span.Contains (Source.byteLength front)) := by
    intro token member
    obtain ⟨-, written, sliced, -⟩ := laid.slice places token member
    obtain ⟨first, last, whole, starts, stops⟩ := Source.slice?_eq_some_iff.mp sliced
    have cutAtStart : front ++ character :: back = first ++ (written ++ last) := by
      rw [← cut, ← whole, List.append_assoc]
    have cutAtStop : front ++ character :: back = first ++ written ++ last := by
      rw [← cut, ← whole]
    have startApart := Source.byteLength_apart cutAtStart
    have stopApart := Source.byteLength_apart cutAtStop
    simp only [Span.Contains]
    omega
  constructor
  · rintro ⟨token, member, isComment, contains⟩
    exact ⟨token, member, isComment, (contains_iff token member).mp contains⟩
  · rintro ⟨token, member, isComment, contains⟩
    exact ⟨token, member, isComment, (contains_iff token member).mpr contains⟩

end Laid

/-- A source with its comments blanked out, given its tokens. -/
def Token.blankComments (tokens : List Token) (source : String) : String :=
  String.ofList (Source.blankOut (Token.InComment tokens) 0 source.toList)

theorem Token.stripComments_stripComments (tokens : List Token) :
    stripComments (stripComments tokens) = stripComments tokens := by
  simp [stripComments, List.filter_filter]

/-- With a space in place of each byte of its comments, a source has the same tokens, without the
comments, and reading it makes no difference to what is read or to what is wrong. -/
theorem tokenize_blankComments {source : String} {tokens : List Token}
    (scanned : tokenize source = .ok tokens) :
    (Token.blankComments tokens source).toUTF8.data.toList =
      (source.toUTF8.data.toList.mapIdx fun offset byte =>
        if Token.InComment tokens offset then 0x20 else byte) ∧
    tokenize (Token.blankComments tokens source) = .ok (Token.stripComments tokens) ∧
    parseSource (Token.blankComments tokens source) = parseSource source := by
  have laid := tokenize_eq_ok_iff.mp scanned
  have characters : (Token.blankComments tokens source).toList =
      Source.blankOut (Token.InComment tokens) 0 source.toList := String.toList_ofList
  have blanked : tokenize (Token.blankComments tokens source) =
      .ok (Token.stripComments tokens) := by
    rw [tokenize_eq_ok_iff, characters, Source.splitMark_blankOut]
    · exact laid.blankOut
    · intro index inMark
      apply Token.not_inComment_of_lt
      intro token member
      have := laid.le_start token member
      omega
  refine ⟨?_, blanked, ?_⟩
  · rw [Source.bytes_toList, Source.bytes_toList, characters]
    have uniform : ∀ front character back, [] ++ source.toList = front ++ character :: back →
        ∀ index < character.utf8Size,
          (Token.InComment tokens (Source.byteLength front + index) ↔
            Token.InComment tokens (Source.byteLength front)) := by
      intro front character back cut index inside
      rw [List.nil_append, ← Source.splitMark_append source.toList] at cut
      exact laid.inComment_uniform rfl cut inside
    have bytes := Source.bytes_blankOut [] source.toList uniform
    simpa only [Source.byteLength_nil, Nat.zero_add] using bytes
  · simp only [parseSource, scanned, blanked, Token.stripComments_stripComments]

/-- A comment between two characters that would be one operator, text in quotes that is no comment,
and a comment that ends with the source. -/
theorem tokenize_blankComments_quoted :
    let source := "a=/*é*/=\"//\"//b"
    let blanked := "a=      =\"//\"   "
    let tokens : List Token := [⟨.valued .identifier "a", ⟨0, 1⟩⟩, ⟨.fixed .assign, ⟨1, 2⟩⟩,
      ⟨.valued .comment "/*é*/", ⟨2, 8⟩⟩, ⟨.fixed .assign, ⟨8, 9⟩⟩, ⟨.valued .string "//", ⟨9, 13⟩⟩,
      ⟨.valued .comment "//b", ⟨13, 16⟩⟩]
    tokenize source = .ok tokens ∧ Token.blankComments tokens source = blanked ∧
      tokenize blanked = .ok (Token.stripComments tokens) ∧
        parseSource blanked = parseSource source := by
  intro source blanked tokens
  have scanned : tokenize source = .ok tokens := by cbv
  have isBlanked : Token.blankComments tokens source = blanked := by cbv
  have same := tokenize_blankComments scanned
  rw [isBlanked] at same
  exact ⟨scanned, isBlanked, same.2⟩

end JassExpr
