import LessSheet.Error
import LessSheet.Scope.Arena
import LessSheet.Text.Hole

/-! # Evaluating expressions

An expression is evaluated in a `View`: a scope of an arena, and what `default()` stands for, which
is something only in a guard. Evaluation reads the arena and never changes it.
-/

namespace LessSheet

/-- Where an expression is evaluated. -/
structure View where
  arena : Arena
  scope : ScopeId
  default? : Option Bool := none

namespace View

/-- The value of a variable. -/
def lookup (view : View) (name : String) : Except EvalError Value :=
  match view.arena.lookup view.scope name with
  | some value => .ok value
  | none => .error (.undefinedVariable name)

/-- The text of pieces, where a hole is filled with the content of its variable. -/
def fill (view : View) : List Text.Piece → Except EvalError (List Char)
  | [] => .ok []
  | .char c :: rest => do return c :: (← view.fill rest)
  | .hole name _ :: rest => do
    let value ← view.lookup (String.ofList name)
    return value.content.toList ++ (← view.fill rest)

/-- A text with its placeholders `@{name}` filled in. -/
def interpolate (view : View) (text : String) : Except EvalError String :=
  String.ofList <$> view.fill (Text.pieces Text.braced? text.toList)

/-- The text of pieces, where a hole whose variable is unknown stays as it is written. -/
def fillKnown (view : View) : List Text.Piece → List Char
  | [] => []
  | .char c :: rest => c :: view.fillKnown rest
  | .hole name raw :: rest =>
    (match view.arena.lookup view.scope (String.ofList name) with
      | some value => value.content.toList
      | none => raw) ++ view.fillKnown rest

/-- The parameters of an at-rule with the known variables in them filled in. -/
def substitute (view : View) (params : String) : String :=
  String.ofList (view.fillKnown (Text.pieces Text.loose? params.toList))

end View

namespace Value

/-- The opposite of a number; a keyword gets a minus sign in front. -/
def negate : Value → Except EvalError Value
  | .number q => .ok (.number ⟨-q.value, q.unit⟩)
  | .keyword text => .ok (.keyword ("-" ++ text))
  | v => .error (.notNegatable v.text)

/-- The unit of a result: the left one, or the right one if the left operand has none. -/
def resultUnit (left right : String) : String := if left == "" then right else left

/-- Below this magnitude, 2⁻⁵², a divisor counts as zero. -/
def leastDivisor : Float := 2.220446049250313e-16

/-- Arithmetic on two numbers. -/
def calculate (op : Operator) (x y : Float) : Except EvalError Float :=
  match op with
  | .add => .ok (x + y)
  | .subtract => .ok (x - y)
  | .multiply => .ok (x * y)
  | .divide => if y.abs < leastDivisor then .error .divisionByZero else .ok (x / y)

/-- Arithmetic on two values. -/
def operate (op : Operator) : Value → Value → Except EvalError Value
  | .number p, .number q => do
    let value ← calculate op p.value q.value
    return .number ⟨value, resultUnit p.unit q.unit⟩
  | v, w => .error (.notNumeric v.text op w.text)

end Value

namespace Expr

mutual

/-- The value of an expression. -/
def eval (view : View) : Expr → Except EvalError Value
  | .number value unit => .ok (.number ⟨value, unit⟩)
  | .keyword text => .ok (.keyword text)
  | .quoted text quote escaped => do
    let text ← view.interpolate text
    return if escaped then .keyword text else .quoted text quote
  | .ref name => view.lookup name
  | .negate inner => do (← inner.eval view).negate
  | .operation op lhs rhs => do
    let left ← lhs.eval view
    let right ← rhs.eval view
    Value.operate op left right
  | .list separator items => do return .list separator (← evalAll view items)
  | .function name args =>
    if name == "default" && args.isEmpty then
      match view.default? with
      | some b => .ok (.ofBool b)
      | none => .error .defaultOutsideGuard
    else do return .function name (← evalAll view args)
  | .ruleset site body => .ok (.ruleset site body view.scope)

/-- The values of several expressions; the first error counts. -/
def evalAll (view : View) : List Expr → Except EvalError (List Value)
  | [] => .ok []
  | e :: es => do
    let v ← e.eval view
    return v :: (← evalAll view es)

end

end Expr

end LessSheet
