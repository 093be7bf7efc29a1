import JassExpr.Expr.Basic

/-!
# Phrases

A phrase is an expression as it stands in a text: a tree that keeps every token it was read from,
the grouping parentheses among them. Its tokens in order are the text of the phrase, and
forgetting them leaves the expression. Tokens may be of any type, so that the same trees serve
for what was read, with places, and for what is to be written, without.
-/

namespace JassExpr

/-- An expression with the tokens that write it. -/
inductive Phrase (τ : Type) where
  | literal (token : τ) (value : Literal)
  | name (token : τ) (name : String)
  /-- A phrase in parentheses, which mean nothing by themselves. -/
  | group (opening : τ) (inner : Phrase τ) (closing : τ)
  | unary (operator : UnaryOp) (token : τ) (operand : Phrase τ)
  | binary (operator : BinaryOp) (left : Phrase τ) (token : τ) (right : Phrase τ)
  /-- A call, with one comma between each two arguments. -/
  | call (callee : τ) (name : String) (opening : τ) (arguments : List (Phrase τ))
      (commas : List τ) (closing : τ)
  | index (array : τ) (name : String) (opening : τ) (subscript : Phrase τ) (closing : τ)

/-- Parts in order with a separator after each but the last. -/
def weave {α : Type} : List (List α) → List (List α) → List α
  | first :: rest, separator :: separators => first ++ separator ++ weave rest separators
  | parts, _ => parts.flatten

namespace Phrase

variable {τ : Type}

mutual

/-- What holds of a phrase when it holds of those it is made of holds of them all. -/
theorem induction {motive : Phrase τ → Prop}
    (literal : ∀ token value, motive (.literal token value))
    (name : ∀ token name, motive (.name token name))
    (group : ∀ opening inner closing, motive inner → motive (.group opening inner closing))
    (unary : ∀ operator token operand, motive operand →
      motive (.unary operator token operand))
    (binary : ∀ operator left token right, motive left → motive right →
      motive (.binary operator left token right))
    (call : ∀ callee name opening arguments commas closing,
      (∀ argument ∈ arguments, motive argument) →
        motive (.call callee name opening arguments commas closing))
    (index : ∀ array name opening subscript closing, motive subscript →
      motive (.index array name opening subscript closing)) :
    ∀ phrase, motive phrase
  | .literal token value => literal token value
  | .name token identifier => name token identifier
  | .group opening inner closing =>
      group opening inner closing
        (induction literal name group unary binary call index inner)
  | .unary operator token operand =>
      unary operator token operand
        (induction literal name group unary binary call index operand)
  | .binary operator left token right =>
      binary operator left token right
        (induction literal name group unary binary call index left)
        (induction literal name group unary binary call index right)
  | .call callee function opening arguments commas closing =>
      call callee function opening arguments commas closing
        (inductionAll literal name group unary binary call index arguments)
  | .index token array opening subscript closing =>
      index token array opening subscript closing
        (induction literal name group unary binary call index subscript)

/-- The same for all the phrases of a list. -/
theorem inductionAll {motive : Phrase τ → Prop}
    (literal : ∀ token value, motive (.literal token value))
    (name : ∀ token name, motive (.name token name))
    (group : ∀ opening inner closing, motive inner → motive (.group opening inner closing))
    (unary : ∀ operator token operand, motive operand →
      motive (.unary operator token operand))
    (binary : ∀ operator left token right, motive left → motive right →
      motive (.binary operator left token right))
    (call : ∀ callee name opening arguments commas closing,
      (∀ argument ∈ arguments, motive argument) →
        motive (.call callee name opening arguments commas closing))
    (index : ∀ array name opening subscript closing, motive subscript →
      motive (.index array name opening subscript closing)) :
    ∀ phrases : List (Phrase τ), ∀ phrase ∈ phrases, motive phrase
  | [], _, member => absurd member List.not_mem_nil
  | first :: rest, phrase, member =>
      match List.mem_cons.mp member with
      | .inl same =>
          same ▸ induction literal name group unary binary call index first
      | .inr later =>
          inductionAll literal name group unary binary call index rest phrase later

end

attribute [induction_eliminator] induction

mutual

/-- The tokens of a phrase in the order in which they are written. -/
def tokens : Phrase τ → List τ
  | literal token _ => [token]
  | name token _ => [token]
  | group opening inner closing => opening :: (inner.tokens ++ [closing])
  | unary _ token operand => token :: operand.tokens
  | binary _ left token right => left.tokens ++ token :: right.tokens
  | call callee _ opening arguments commas closing =>
      callee :: opening :: (weave (tokensOfEach arguments) (commas.map ([·])) ++ [closing])
  | index array _ opening subscript closing =>
      array :: opening :: (subscript.tokens ++ [closing])

def tokensOfEach : List (Phrase τ) → List (List τ)
  | [] => []
  | first :: rest => first.tokens :: tokensOfEach rest

end

mutual

/-- The expression that a phrase writes. -/
def expr : Phrase τ → Expr
  | literal _ value => .literal value
  | name _ identifier => .name identifier
  | group _ inner _ => inner.expr
  | unary operator _ operand => .unary operator operand.expr
  | binary operator left _ right => .binary operator left.expr right.expr
  | call _ function _ arguments _ _ => .call function (exprOfEach arguments)
  | index _ array _ subscript _ => .index array subscript.expr

def exprOfEach : List (Phrase τ) → List Expr
  | [] => []
  | first :: rest => first.expr :: exprOfEach rest

end

def first : Phrase τ → τ
  | literal token _ => token
  | name token _ => token
  | group opening _ _ => opening
  | unary _ token _ => token
  | binary _ left _ _ => left.first
  | call callee _ _ _ _ _ => callee
  | index array _ _ _ _ => array

def last : Phrase τ → τ
  | literal token _ => token
  | name token _ => token
  | group _ _ closing => closing
  | unary _ _ operand => operand.last
  | binary _ _ _ right => right.last
  | call _ _ _ _ _ closing => closing
  | index _ _ _ _ closing => closing

theorem tokensOfEach_eq_map (phrases : List (Phrase τ)) :
    tokensOfEach phrases = phrases.map tokens := by
  induction phrases with
  | nil => rfl
  | cons first rest ih => simp [tokensOfEach, ih]

theorem exprOfEach_eq_map (phrases : List (Phrase τ)) :
    exprOfEach phrases = phrases.map expr := by
  induction phrases with
  | nil => rfl
  | cons first rest ih => simp [exprOfEach, ih]

theorem tokens_ne_nil (phrase : Phrase τ) : phrase.tokens ≠ [] := by
  cases phrase <;> simp [tokens]

theorem head?_tokens (phrase : Phrase τ) :
    phrase.tokens.head? = some phrase.first := by
  induction phrase with
  | literal token value => rfl
  | name token name => rfl
  | group opening inner closing ih => rfl
  | unary operator token operand ih => rfl
  | binary operator left token right ihLeft ihRight =>
      simp [tokens, first, ihLeft]
  | call callee name opening arguments commas closing ih => rfl
  | index array name opening subscript closing ih => rfl

theorem getLast?_tokens (phrase : Phrase τ) :
    phrase.tokens.getLast? = some phrase.last := by
  induction phrase with
  | literal token value => rfl
  | name token name => rfl
  | group opening inner closing ih => simp [tokens, last, List.getLast?_cons]
  | unary operator token operand ih => simp [tokens, last, List.getLast?_cons, ih]
  | binary operator left token right ihLeft ihRight =>
      simp [tokens, last, List.getLast?_append, List.getLast?_cons, ihRight]
  | call callee name opening arguments commas closing ih =>
      simp [tokens, last, List.getLast?_cons]
  | index array name opening subscript closing ih =>
      simp [tokens, last, List.getLast?_cons]

/-- The span from the first to the last token of a phrase. -/
def span (phrase : Phrase Token) : Span :=
  phrase.first.span.cover phrase.last.span

/-- The span of a phrase is that of all its tokens. -/
theorem span_eq_extent (phrase : Phrase Token) :
    phrase.span = Token.extent phrase.tokens := by
  rw [Token.extent, head?_tokens, getLast?_tokens]
  rfl

/-- The text of a phrase in its source, with all that stands between its tokens. -/
def sourceText? (phrase : Phrase Token) (source : String) : Option String :=
  phrase.span.slice? source

end Phrase

end JassExpr
