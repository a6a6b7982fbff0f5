import LessSheet.Grammar.Value

/-! # The grammar of guards

A guard is a disjunction, written with `or` or a comma, of conjunctions of atoms that may be
negated. An atom stands in parentheses. It is read as a comparison or a single value if it can be,
and as a guard otherwise.
-/

namespace LessSheet.Grammar

/-- The comparison sign at the start of a text and what is left. -/
def comparison? : List Char → Option (Comparison × List Char)
  | '>' :: '=' :: r => some (.greaterOrEqual, r)
  | '<' :: '=' :: r => some (.lessOrEqual, r)
  | '=' :: '<' :: r => some (.lessOrEqual, r)
  | '>' :: r => some (.greater, r)
  | '<' :: r => some (.less, r)
  | '=' :: r => some (.equal, r)
  | _ => none

/-- A comparison or a single value, after the opening parenthesis and up to the closing one. -/
def comparison (L : Level) : Parse Condition := do
  trivia
  let lhs ← sum L true
  trivia
  match comparison? (← get) with
  | some (op, r) =>
    set r
    trivia
    let rhs ← sum L true
    trivia
    expect ')'
    pure (.compare op lhs rhs)
  | none =>
    expect ')'
    pure (.truthy lhs)

/-- A guard in parentheses, after the opening one and up to the closing one. -/
def nestedGuard (L : Level) : Parse Condition := do
  let inner ← L.guard
  trivia
  expect ')'
  pure inner

/-- A condition in parentheses. -/
def guardAtom (L : Level) : Parse Condition := do
  trivia
  expect '('
  orElse (comparison L) (nestedGuard L)

/-- An atom, or `not` and an atom. -/
def guardFactor (L : Level) : Parse Condition := do
  trivia
  match keyword? "not".toList (← get) with
  | some r =>
    set r
    .not <$> guardAtom L
  | none => guardAtom L

/-- The word `and` after a factor. -/
def andOperator? (s : List Char) : Option ((Condition → Condition → Condition) × List Char) :=
  (keyword? "and".toList (skipTrivia s)).map fun r => (.and, r)

/-- A comma or the word `or` after a conjunction. -/
def orOperator? (s : List Char) : Option ((Condition → Condition → Condition) × List Char) :=
  match skipTrivia s with
  | ',' :: r => some (.or, r)
  | t => (keyword? "or".toList t).map fun r => (.or, r)

/-- Factors joined by `and`. -/
def conjunction (L : Level) : Parse Condition := chainLeft (guardFactor L) andOperator?

/-- Conjunctions joined by `or` or commas. -/
def guard (L : Level) : Parse Condition := chainLeft (conjunction L) orOperator?

/-- The guard of a definition or rule, if there is one, and what separates it from the block. -/
def optionalGuard (L : Level) : Parse (Option Condition) := do
  trivia
  match keyword? "when".toList (← get) with
  | some r =>
    set r
    let condition ← guard L
    trivia
    pure (some condition)
  | none => pure none

end LessSheet.Grammar
