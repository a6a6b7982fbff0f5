import LessSheet.Error
import LessSheet.Grammar.Lexeme

/-! # Parsers

A parser runs on the text that is left and either fails, naming the text left where the fault was
noticed, or answers a result and the text left after it. Positions are not tracked on the way: the
place of a failure is how much of the source is left.

Repetition is one combinator, `iterate`. It is bounded by a text, and `loop` takes the text it
starts on: every step that asks for another one has consumed at least one character, so the bound
is never what ends a loop.
-/

namespace LessSheet.Grammar

/-- A fault, and the text left where it was noticed. -/
structure Failure where
  cause : ParseError.Cause
  rest : List Char
deriving DecidableEq, Repr, Inhabited

/-- A parser for `α`. -/
abbrev Parse (α : Type) := StateT (List Char) (Except Failure) α

/-- Fails here. -/
def fail {α : Type} (cause : ParseError.Cause) : Parse α := fun s => .error ⟨cause, s⟩

/-- Passes over white space and comments. -/
def trivia : Parse Unit := fun s => .ok ((), skipTrivia s)

/-- Takes the character `c`. Another one counts as consumed when it is reported. -/
def expect (c : Char) : Parse Unit
  | [] => .error ⟨.expected c none, []⟩
  | d :: r => if d = c then .ok ((), r) else .error ⟨.expected c (some d), r⟩

/-- Takes the character `c` if it comes next. -/
def optional (c : Char) : Parse Unit
  | [] => .ok ((), [])
  | d :: r => .ok ((), if d = c then r else d :: r)

/-- Takes the importance marker if it comes next, and answers whether it did. -/
def importance : Parse Bool := fun s =>
  match important? s with
  | some r => .ok (true, r)
  | none => .ok (false, s)

/-- The first parser, or the second on the same text if the first fails. -/
def orElse {α : Type} (p q : Parse α) : Parse α := fun s =>
  match p s with
  | .ok r => .ok r
  | .error _ => q s

/-- Repeats `step` until it answers a result, at most once more than `fuel` is long. -/
def iterate {σ α : Type} (step : σ → Parse (σ ⊕ α)) : (fuel : List Char) → σ → Parse α
  | [], a => do
    match ← step a with
    | .inl _ => fail .unclosedBlock
    | .inr b => pure b
  | _ :: fuel, a => do
    match ← step a with
    | .inl a' => iterate step fuel a'
    | .inr b => pure b

/-- One round of `iterate` on a text. -/
theorem iterate_cons {σ α : Type} (step : σ → Parse (σ ⊕ α)) (c : Char) (fuel : List Char) (a : σ)
    (s : List Char) :
    iterate step (c :: fuel) a s =
      match step a s with
      | .ok (.inl a', rest) => iterate step fuel a' rest
      | .ok (.inr b, rest) => .ok (b, rest)
      | .error e => .error e := by
  simp only [iterate, bind, StateT.bind, Except.bind]
  cases step a s with
  | error e => rfl
  | ok r => obtain ⟨x, rest⟩ := r; cases x <;> rfl

/-- Repeats `step`, each time from the state it answered, until it answers a result. -/
def loop {σ α : Type} (step : σ → Parse (σ ⊕ α)) (a : σ) : Parse α := fun s => iterate step s a s

/-- The results of `step`, until it answers none. -/
def collect {α : Type} (step : Parse (Option α)) : Parse (List α) :=
  loop (fun found => do
    match ← step with
    | some a => pure (.inl (a :: found))
    | none => pure (.inr found.reverse)) []

/-- Operands joined by operators, grouped to the left. An operator is found by looking at the text
after an operand, and answered with the text its right operand starts at. -/
def chainLeft {α : Type} (operand : Parse α)
    (operator? : List Char → Option ((α → α → α) × List Char)) : Parse α := do
  loop (fun lhs s =>
    match operator? s with
    | none => .ok (.inr lhs, s)
    | some (combine, r) =>
      match operand r with
      | .ok (rhs, rest) => .ok (.inl (combine lhs rhs), rest)
      | .error e => .error e) (← operand)

/-- One or more items with separators between them. A separator is found by looking at the text
after an item, and answered with the text the next item starts at. -/
def separated {α : Type} (item : Parse α) (separator? : List Char → Option (List Char)) :
    Parse (List α) := do
  let first ← item
  let more ← collect fun s =>
    match separator? s with
    | none => .ok (none, s)
    | some r =>
      match item r with
      | .ok (a, rest) => .ok (some a, rest)
      | .error e => .error e
  pure (first :: more)

/-- The productions that an opening bracket leads into, one level of nesting further in: a block
up to its closing brace, and in parentheses a sum, a list of words, or a guard. -/
structure Level where
  document : Nat
  block : Parse (List Item)
  sum : Parse Expr
  words : Parse Expr
  guard : Parse Condition

/-- The site of a literal that starts at this text. -/
def Level.site (L : Level) (s : List Char) : Site := ⟨L.document, s.length⟩

end LessSheet.Grammar
