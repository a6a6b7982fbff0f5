import LessSheet.Evaluation

/-! # Guards and the choice among candidates

A guard may ask by `default()` whether no other candidate of the call matches. What one candidate
can say about itself is therefore a pair: whether its guard holds if `default()` is false, and
whether it holds if `default()` is true. That pair is a `Verdict`, and verdicts of several guards
combine by conjunction in each component.

`choose` settles the rest when all verdicts are known: `default()` is true exactly when no
candidate matches either way.
-/

namespace LessSheet

/-- What a candidate's guards say. -/
inductive Verdict where
  | use
  | doNotUse
  /-- Only if no other candidate matches. -/
  | useAsDefault
  /-- Only if another candidate matches. -/
  | useUnlessDefault
deriving DecidableEq, Repr, Inhabited

namespace Verdict

/-- The verdict from the two answers, with `default()` false and with `default()` true. -/
def ofOutcomes : (plain assumed : Bool) → Verdict
  | true, true => .use
  | false, true => .useAsDefault
  | true, false => .useUnlessDefault
  | false, false => .doNotUse

/-- The two answers of a verdict. -/
def outcomes : Verdict → Bool × Bool
  | .use => (true, true)
  | .useAsDefault => (false, true)
  | .useUnlessDefault => (true, false)
  | .doNotUse => (false, false)

/-- The verdict of two guards together. -/
def and (v w : Verdict) : Verdict :=
  ofOutcomes (v.outcomes.1 && w.outcomes.1) (v.outcomes.2 && w.outcomes.2)

/-- A verdict is its two answers. -/
@[simp] theorem ofOutcomes_outcomes (v : Verdict) : ofOutcomes v.outcomes.1 v.outcomes.2 = v := by
  cases v <;> rfl

/-- Any two answers make a verdict. -/
@[simp] theorem outcomes_ofOutcomes (p q : Bool) : (ofOutcomes p q).outcomes = (p, q) := by
  cases p <;> cases q <;> rfl

/-- Guards together hold where each of them does. -/
@[simp] theorem outcomes_and (v w : Verdict) :
    (v.and w).outcomes = (v.outcomes.1 && w.outcomes.1, v.outcomes.2 && w.outcomes.2) :=
  outcomes_ofOutcomes _ _

end Verdict

/-- Whether an order of two values is what a comparison asks for. -/
def Comparison.accepts : Comparison → Option Ordering → Bool
  | .equal, o => o == some .eq
  | .greater, o => o == some .gt
  | .less, o => o == some .lt
  | .greaterOrEqual, o => o == some .gt || o == some .eq
  | .lessOrEqual, o => o == some .lt || o == some .eq

namespace Condition

/-- Whether a condition holds. The right side of a connective is evaluated only if needed. -/
def holds (view : View) : Condition → Except EvalError Bool
  | .truthy e => do return (← e.eval view).isTrue
  | .compare op lhs rhs => do
    let left ← lhs.eval view
    let right ← rhs.eval view
    return op.accepts (left.compare right)
  | .not inner => do return !(← inner.holds view)
  | .and lhs rhs => do if ← lhs.holds view then rhs.holds view else pure false
  | .or lhs rhs => do if ← lhs.holds view then pure true else rhs.holds view

/-- The verdict of one guard in a scope. -/
def verdict (arena : Arena) (scope : ScopeId) (guard : Condition) : Except EvalError Verdict := do
  let plain ← guard.holds ⟨arena, scope, some false⟩
  let assumed ← guard.holds ⟨arena, scope, some true⟩
  return .ofOutcomes plain assumed

end Condition

/-- A guard and the scope it is evaluated in. -/
abbrev ScopedGuard := Condition × ScopeId

/-- The verdict of guards, given that of the guards before them. Once nothing can match, the
remaining guards are not evaluated. -/
def verdictFrom (arena : Arena) (v : Verdict) : List ScopedGuard → Except EvalError Verdict
  | [] => .ok v
  | (guard, scope) :: rest => do
    let w := v.and (← guard.verdict arena scope)
    if w = .doNotUse then return w else verdictFrom arena w rest

/-- A guard with a verdict, and those after it. -/
theorem verdictFrom_cons {arena : Arena} {guard : Condition} {scope : ScopeId} {w : Verdict}
    (h : guard.verdict arena scope = .ok w) (v : Verdict) (rest : List ScopedGuard) :
    verdictFrom arena v ((guard, scope) :: rest) =
      if v.and w = .doNotUse then .ok (v.and w) else verdictFrom arena (v.and w) rest := by
  rw [verdictFrom, h]
  rfl

/-- The verdict of all guards on the way to a candidate. -/
def verdictOf (arena : Arena) (guards : List ScopedGuard) : Except EvalError Verdict :=
  verdictFrom arena .use guards

/-- A rule has no candidates beside it: its guard has to hold either way. -/
def allowsRule (arena : Arena) (scope : ScopeId) (guard : Condition) : Except EvalError Bool := do
  return (← guard.verdict arena scope) = .use

/-- Whether a candidate with this verdict is kept, given whether some candidate matches either
way. -/
def Verdict.isKept (matched : Bool) : Verdict → Bool
  | .use => true
  | .useUnlessDefault => matched
  | .useAsDefault => !matched
  | .doNotUse => false

/-- The candidates to expand, in order. -/
def choose {α : Type} (candidates : List (Verdict × α)) : List α :=
  let matched := candidates.any fun c => c.1 == .use
  (candidates.filter fun c => c.1.isKept matched).map Prod.snd

end LessSheet
