/-!
# The lines of a text

A line of a text ends with a line feed and with nothing else. What comes after the last line feed is
a line as well, unless there is nothing.
-/

namespace JassExpr

namespace Text

/-- The lines of a text, without the line feeds that end them. -/
def lines : List Char → List (List Char)
  | [] => []
  | character :: rest =>
      if character = '\n' then
        [] :: lines rest
      else
        match lines rest with
        | [] => [[character]]
        | line :: others => (character :: line) :: others

/-- The number of line feeds in some texts. -/
def lineFeeds (texts : List String) : Nat :=
  (texts.flatMap String.toList).count '\n'

@[simp]
theorem lineFeeds_nil : lineFeeds [] = 0 :=
  rfl

theorem lineFeeds_cons (text : String) (texts : List String) :
    lineFeeds (text :: texts) = text.toList.count '\n' + lineFeeds texts := by
  rw [lineFeeds, List.flatMap_cons, List.count_append]
  rfl

theorem lineFeeds_append (first second : List String) :
    lineFeeds (first ++ second) = lineFeeds first + lineFeeds second := by
  rw [lineFeeds, List.flatMap_append, List.count_append]
  rfl

/-- What is ended by a line feed is one line if it has no line feed in it. -/
theorem lines_append_feed {line : List Char} (oneLine : '\n' ∉ line) (rest : List Char) :
    lines (line ++ '\n' :: rest) = line :: lines rest := by
  induction line with
  | nil => rw [List.nil_append, lines, if_pos rfl]
  | cons character line ih =>
      rw [List.mem_cons, not_or] at oneLine
      rw [List.cons_append, lines, if_neg (Ne.symm oneLine.1), ih oneLine.2]

/-- Each line feed in what is ended by one makes a line more. -/
theorem length_lines_append_feed (text rest : List Char) :
    (lines (text ++ '\n' :: rest)).length = text.count '\n' + 1 + (lines rest).length := by
  induction text with
  | nil =>
      rw [List.nil_append, lines, if_pos rfl, List.length_cons, List.count_nil]
      omega
  | cons character text ih =>
      rw [List.cons_append, lines]
      by_cases isFeed : character = '\n'
      · rw [if_pos isFeed, isFeed, List.length_cons, List.count_cons_self, ih]
        omega
      · rw [if_neg isFeed, List.count_cons_of_ne isFeed, ← ih]
        cases found : lines (text ++ '\n' :: rest) with
        | nil =>
            rw [found, List.length_nil] at ih
            omega
        | cons line others => rfl

end Text

end JassExpr
