/-!
# The mark in front of a text

A text may begin with a byte-order mark, which is no part of what it says. Only one in front is
passed over: anywhere else it is a character like others.
-/

namespace JassExpr

namespace Source

/-- The byte-order mark that may stand in front of a text. -/
def byteOrderMark : Char :=
  '\uFEFF'

/-- A leading byte-order mark, if there is one, and the text after it. -/
def splitMark : List Char → List Char × List Char
  | [] => ([], [])
  | character :: rest =>
      if character = byteOrderMark then ([character], rest) else ([], character :: rest)

theorem splitMark_append (text : List Char) :
    (splitMark text).1 ++ (splitMark text).2 = text := by
  cases text with
  | nil => rfl
  | cons character rest =>
      simp only [splitMark]
      split <;> rfl

theorem splitMark_of_head?_ne {text : List Char} (noMark : text.head? ≠ some byteOrderMark) :
    splitMark text = ([], text) := by
  cases text with
  | nil => rfl
  | cons first rest =>
      have : first ≠ byteOrderMark := by simpa using noMark
      simp [splitMark, this]

/-- What comes behind a complete line makes no difference to the mark in front. -/
theorem splitMark_append_line (first second : List Char) :
    splitMark (first ++ '\n' :: second) =
      ((splitMark first).1, (splitMark first).2 ++ '\n' :: second) := by
  cases first with
  | nil => rfl
  | cons character first =>
      rw [List.cons_append, splitMark, splitMark]
      split <;> rfl

end Source

end JassExpr
