import Mathlib
import JassExpr.Phrase.Basic
import JassExpr.Proofs.Token.Laid

/-!
# Tokens lose nothing of a source

The spans of the tokens of a source are slices of it, in order and apart. The slice of a token is
one of the few texts that its kind and its value leave open, and what lies outside of all spans is
blank, a mark in front excepted. Tokens and gaps therefore make up the source again.
-/

namespace JassExpr

/-- The texts with which a lexeme of its kind and value can be written. Only a hexadecimal integer
has several, for its value does not tell by which mark it was announced. -/
def Lexeme.spellings (lexeme : Lexeme) : List String :=
  match lexeme.kind, lexeme.value with
  | kind, none => kind.spelling?.toList
  | .hexInteger, some value => ["0x" ++ value, "0X" ++ value, "$" ++ value]
  | .octalInteger, some value => ["0" ++ value]
  | .string, some value => ["\"" ++ value ++ "\""]
  | .quotedInteger, some value => ["'" ++ value ++ "'"]
  | kind, some value => if kind.spelling?.isNone then [value] else []

theorem Lexeme.Written.mem_spellings {lexeme : Lexeme} {text : List Char}
    (written : lexeme.Written text) :
    String.ofList text ∈ lexeme.spellings := by
  cases written with
  | fixed spelled => simp [spellings, Lexeme.fixed, spelled]
  | hexadecimal marked nonempty hexadecimal =>
      simp only [hexadecimalMarks, List.mem_cons, List.not_mem_nil, or_false] at marked
      rcases marked with rfl | rfl | rfl <;>
        simp [spellings, Lexeme.valued, ← String.toList_inj]
  | octal => simp [spellings, Lexeme.valued]
  | quotedInteger => simp [spellings, Lexeme.valued, ← String.toList_inj]
  | string => simp [spellings, Lexeme.valued, ← String.toList_inj]
  | other => simp [spellings, Lexeme.valued, TokenKind.spelling?]
  | identifier | integer | real | lineComment | blockComment =>
      simp [spellings, Lexeme.valued, TokenKind.spelling?]

namespace Source

/-- The bytes of the UTF-8 form of a text. -/
def bytes (text : List Char) : List UInt8 :=
  text.flatMap String.utf8EncodeChar

theorem bytes_cons (character : Char) (rest : List Char) :
    bytes (character :: rest) = String.utf8EncodeChar character ++ bytes rest :=
  rfl

theorem bytes_append (first second : List Char) :
    bytes (first ++ second) = bytes first ++ bytes second :=
  List.flatMap_append

theorem length_bytes (text : List Char) : (bytes text).length = byteLength text := by
  induction text with
  | nil => rfl
  | cons character rest ih => simp [bytes_cons, ih]

/-- The bytes of a string are those of its characters. -/
theorem bytes_toList (source : String) : source.toUTF8.data.toList = bytes source.toList := by
  rw [String.toUTF8, ← String.utf8Encode_toList]
  simp [List.utf8Encode, bytes]

theorem utf8ByteSize_eq (source : String) :
    source.utf8ByteSize = byteLength source.toList := by
  rw [← length_bytes, ← bytes_toList]
  rfl

end Source

/-- The bytes of a space, a tab, a carriage return and a line feed. -/
def blankBytes : List UInt8 :=
  [0x20, 0x09, 0x0d, 0x0a]

/-- Whether a byte offset lies inside a span. -/
def Span.Contains (span : Span) (offset : Nat) : Prop :=
  span.start ≤ offset ∧ offset < span.stop

theorem utf8EncodeChar_blank {character : Char} (blank : isBlank character = true) :
    ∃ byte ∈ blankBytes, String.utf8EncodeChar character = [byte] := by
  rcases isBlank_iff.mp blank with rfl | rfl | rfl | rfl
  · exact ⟨0x20, by decide, rfl⟩
  · exact ⟨0x09, by decide, rfl⟩
  · exact ⟨0x0d, by decide, rfl⟩
  · exact ⟨0x0a, by decide, rfl⟩

theorem Lexeme.Written.byteLength_pos {lexeme : Lexeme} {text : List Char}
    (written : lexeme.Written text) :
    0 < Source.byteLength text := by
  obtain ⟨first, rest, rfl, -⟩ := written.head
  have := first.utf8Size_pos
  simp only [Source.byteLength_cons]
  omega

namespace Laid

variable {offset : Nat} {text : List Char} {tokens : List Token}

theorem le_start (laid : Laid offset text tokens) :
    ∀ token ∈ tokens, offset ≤ token.span.start := by
  induction laid with
  | empty => simp
  | blank isBlank others ih =>
      intro token member
      have := ih token member
      omega
  | token written ends others ih =>
      intro token member
      rcases List.mem_cons.mp member with rfl | later
      · exact Nat.le_refl _
      · have := ih token later
        omega

theorem pairwise (laid : Laid offset text tokens) :
    tokens.Pairwise fun earlier later => earlier.span.stop ≤ later.span.start := by
  induction laid with
  | empty => exact .nil
  | blank isBlank others ih => exact ih
  | token written ends others ih => exact .cons others.le_start ih

/-- Each token is written at its span, whatever stands in front of the text. -/
theorem slice (laid : Laid offset text tokens) {before : List Char}
    (places : Source.byteLength before = offset) :
    ∀ token ∈ tokens, token.span.start < token.span.stop ∧ ∃ written,
      Source.slice? token.span.start token.span.stop (before ++ text) = some written ∧
        token.Written written := by
  induction laid generalizing before with
  | empty => simp
  | @blank offset first rest tokens isBlank others ih =>
      have same : before ++ first :: rest = before ++ [first] ++ rest := by simp
      rw [same]
      exact ih (by simp [utf8Size_blank isBlank, places])
  | @token offset lexeme text rest tokens written ends others ih =>
      intro token member
      rcases List.mem_cons.mp member with rfl | later
      · refine ⟨Nat.lt_add_of_pos_right written.byteLength_pos, text, ?_, written⟩
        exact Source.slice?_eq_some_iff.mpr ⟨before, rest, by simp, places, by simp [places]⟩
      · rw [← List.append_assoc]
        exact ih (by simp [places]) token later

/-- A byte outside of all spans is that of a blank. -/
theorem mem_blankBytes (laid : Laid offset text tokens) (index : Nat) {byte : UInt8}
    (found : (Source.bytes text)[index]? = some byte)
    (outside : ∀ token ∈ tokens, ¬ token.span.Contains (offset + index)) :
    byte ∈ blankBytes := by
  induction laid generalizing index with
  | empty => simp [Source.bytes] at found
  | @blank offset first rest tokens isBlank others ih =>
      obtain ⟨code, isCode, encoded⟩ := utf8EncodeChar_blank isBlank
      rw [Source.bytes_cons, encoded] at found
      cases index with
      | zero =>
          obtain rfl : code = byte := by simpa using found
          exact isCode
      | succ index =>
          refine ih index (by simpa using found) ?_
          intro token member
          rw [Nat.add_assoc, Nat.add_comm 1]
          exact outside token member
  | @token offset lexeme text rest tokens written ends others ih =>
      rw [List.forall_mem_cons] at outside
      obtain ⟨notFirst, notLater⟩ := outside
      simp only [Span.Contains] at notFirst
      rw [Source.bytes_append, List.getElem?_append_right (by rw [Source.length_bytes]; omega),
        Source.length_bytes] at found
      refine ih _ found ?_
      intro token member
      have same : offset + Source.byteLength text + (index - Source.byteLength text) =
          offset + index := by
        omega
      rw [same]
      exact notLater token member

/-- A laid out text is its gaps and the texts of its tokens by turns. -/
theorem weave (laid : Laid offset text tokens) :
    ∃ gaps texts, text = JassExpr.weave gaps texts ∧ gaps.length = tokens.length + 1 ∧
      (∀ gap ∈ gaps, ∀ character ∈ gap, isBlank character = true) ∧
        List.Forall₂ (fun token written => token.Written written) (tokens.map Token.toLexeme)
          texts := by
  induction laid with
  | empty => exact ⟨[[]], [], rfl, rfl, by simp, .nil⟩
  | @blank offset first rest tokens isBlank others ih =>
      obtain ⟨gaps, texts, same, count, blank, written⟩ := ih
      obtain ⟨gap, gaps, rfl⟩ := List.exists_cons_of_length_eq_add_one count
      rw [List.forall_mem_cons] at blank
      refine ⟨(first :: gap) :: gaps, texts, ?_, count, ?_, written⟩
      · rw [same]
        cases texts <;> rfl
      · exact List.forall_mem_cons.mpr ⟨List.forall_mem_cons.mpr ⟨isBlank, blank.1⟩, blank.2⟩
  | @token offset lexeme text rest tokens written ends others ih =>
      obtain ⟨gaps, texts, same, count, blank, each⟩ := ih
      refine ⟨[] :: gaps, text :: texts, ?_, by simp [count], ?_, .cons written each⟩
      · rw [same]
        rfl
      · exact List.forall_mem_cons.mpr ⟨by simp, blank⟩

end Laid

/-- Outside of the spans there are only blanks and a mark in front. -/
theorem mem_blankBytes_of_tokenize {source : String} {tokens : List Token}
    (scanned : tokenize source = .ok tokens) {offset : Nat} {byte : UInt8}
    (found : source.toUTF8.data[offset]? = some byte)
    (outside : ∀ token ∈ tokens, ¬ token.span.Contains offset) :
    byte ∈ blankBytes ∨ (source.toList.head? = some Source.byteOrderMark ∧ offset < 3) := by
  have laid := tokenize_eq_ok_iff.mp scanned
  rw [← Array.getElem?_toList, Source.bytes_toList] at found
  cases characters : source.toList with
  | nil => simp [characters, Source.bytes] at found
  | cons first rest =>
      rw [characters] at laid found
      simp only [Source.splitMark] at laid
      split at laid
      · rename_i isMark
        subst isMark
        by_cases inMark : offset < 3
        · exact .inr ⟨rfl, inMark⟩
        · refine .inl (laid.mem_blankBytes (offset - 3) ?_ ?_)
          · have size : (String.utf8EncodeChar Source.byteOrderMark).length = 3 := rfl
            rw [Source.bytes_cons, List.getElem?_append_right (by omega), size] at found
            exact found
          · intro token member
            have same : Source.byteLength [Source.byteOrderMark] + (offset - 3) = offset := by
              change 3 + (offset - 3) = offset
              omega
            rw [same]
            exact outside token member
      · refine .inl (laid.mem_blankBytes offset found ?_)
        simpa using outside

/-- The tokens of a source lose nothing of it. Their spans are not empty, lie between characters,
and follow one another; the slice of each is a way to write its kind and value; what is outside of
the spans is blank, or the mark in front; and the mark, the gaps and these slices are all of the
source. -/
theorem tokenize_lossless {source : String} {tokens : List Token}
    (scanned : tokenize source = .ok tokens) :
    (∀ token ∈ tokens, token.span.start < token.span.stop ∧
      ∃ text ∈ token.spellings, token.span.slice? source = some text) ∧
    (tokens.Pairwise fun earlier later => earlier.span.stop ≤ later.span.start) ∧
    (∀ offset byte, source.toUTF8.data[offset]? = some byte →
      (∀ token ∈ tokens, ¬ token.span.Contains offset) →
        byte ∈ blankBytes ∨ (source.toList.head? = some Source.byteOrderMark ∧ offset < 3)) ∧
    ∃ gaps texts : List (List Char),
      source.toList = (Source.splitMark source.toList).1 ++ weave gaps texts ∧
        gaps.length = tokens.length + 1 ∧
        (∀ gap ∈ gaps, ∀ character ∈ gap, isBlank character = true) ∧
        List.Forall₂ (fun lexeme text => String.ofList text ∈ Lexeme.spellings lexeme)
          (tokens.map Token.toLexeme) texts := by
  have laid := tokenize_eq_ok_iff.mp scanned
  refine ⟨?_, laid.pairwise, fun offset byte => mem_blankBytes_of_tokenize scanned, ?_⟩
  · intro token member
    obtain ⟨nonempty, text, sliced, written⟩ := laid.slice rfl token member
    rw [Source.splitMark_append] at sliced
    exact ⟨nonempty, _, written.mem_spellings, congrArg (Option.map String.ofList) sliced⟩
  · obtain ⟨gaps, texts, same, count, blank, written⟩ := laid.weave
    refine ⟨gaps, texts, ?_, count, blank, written.imp fun _ _ each => each.mem_spellings⟩
    rw [← same, Source.splitMark_append]

/-- A mark, a character that begins nothing, a hexadecimal integer with a dollar sign and a
comment. -/
theorem tokenize_lossless_marked :
    let source := "\ufeffé $F//x"
    let tokens : List Token := [⟨.valued .other "é", ⟨3, 5⟩⟩, ⟨.valued .hexInteger "F", ⟨6, 8⟩⟩,
      ⟨.valued .comment "//x", ⟨8, 11⟩⟩]
    tokenize source = .ok tokens ∧
      (tokens.Pairwise fun earlier later => earlier.span.stop ≤ later.span.start) ∧
        ∀ token ∈ tokens, ∃ text ∈ token.spellings, token.span.slice? source = some text := by
  intro source tokens
  have scanned : tokenize source = .ok tokens := by cbv
  have lossless := tokenize_lossless scanned
  exact ⟨scanned, lossless.2.1, fun token member => (lossless.1 token member).2⟩

end JassExpr
