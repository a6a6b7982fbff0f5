import LessSheet.Text.CharClass

/-! # Stylesheets as trees

What a source text says before anything is looked up: expressions, guard conditions, the statements
of a block (`Item`) and the whole `Stylesheet`.

A mixin definition and a ruleset used as a value are compared by where they are written, not by
what they say: two literals with equal text are two things, and one literal reached twice is one.
That place is a `Site`.

The arity of a mixin is settled here too, because it depends on the parameters alone.
-/

namespace LessSheet

/-- The place of a literal: the text it was read from, and how many characters of that text were
left at its start. -/
structure Site where
  document : Nat
  remaining : Nat
deriving DecidableEq, Repr, Inhabited

/-- Block comments attached to a statement: those before it, and those after it on its line. -/
structure Comments where
  leading : List String := []
  trailing : List String := []
deriving DecidableEq, Repr, Inhabited

/-- The arithmetic operators. -/
inductive Operator where
  | add
  | subtract
  | multiply
  | divide
deriving DecidableEq, Repr, Inhabited

/-- How an operator is written. -/
def Operator.symbol : Operator → String
  | .add => "+"
  | .subtract => "-"
  | .multiply => "*"
  | .divide => "/"

/-- What stands between the items of a list. -/
inductive Separator where
  | space
  | comma
  | slash
deriving DecidableEq, Repr, Inhabited

/-- The comparisons of a guard. -/
inductive Comparison where
  | equal
  | greater
  | greaterOrEqual
  | less
  | lessOrEqual
deriving DecidableEq, Repr, Inhabited

mutual

/-- An expression before evaluation. An escaped string stands for its bare text, and a ruleset
literal for a block to be called later. -/
inductive Expr where
  | number (value : Float) (unit : String)
  | keyword (text : String)
  | quoted (text : String) (quote : Char) (escaped : Bool)
  | ref (name : String)
  | negate (inner : Expr)
  | operation (op : Operator) (lhs rhs : Expr)
  | list (separator : Separator) (items : List Expr)
  | function (name : String) (args : List Expr)
  | ruleset (site : Site) (body : List Item)

/-- The condition of a guard. -/
inductive Condition where
  | truthy (expr : Expr)
  | compare (op : Comparison) (lhs rhs : Expr)
  | not (inner : Condition)
  | and (lhs rhs : Condition)
  | or (lhs rhs : Condition)

/-- A parameter of a mixin: a variable, the collector of what is left over, or an expression that
the argument has to equal. -/
inductive Param where
  | named (name : String) (default : Option Expr)
  | rest (name : Option String)
  | pattern (expr : Expr)

/-- A mixin: what a call of that name can be replaced by. -/
structure Mixin where
  name : String
  params : List Param
  guard : Option Condition
  body : List Item

/-- A block of style rules under one or more selectors. -/
structure Rule where
  selectors : List String
  guard : Option Condition
  body : List Item

/-- An argument of a call, by name or by position. -/
structure Argument where
  name : Option String
  value : Expr

/-- The call of a mixin, reached through the namespaces on its path. -/
structure Call where
  path : List String
  args : List Argument
  important : Bool
  comments : Comments

/-- A property with a value still to be evaluated. -/
structure Declaration where
  name : String
  value : Expr
  important : Bool
  comments : Comments

/-- A statement of a block. -/
inductive Item where
  | declaration (declaration : Declaration)
  | rule (rule : Rule)
  | atRule (name params : String) (body : List Item)
  | detachedCall (name : String) (comments : Comments)
  | assign (name : String) (value : Expr)
  | mixin (site : Site) (mixin : Mixin)
  | call (call : Call)

end

/-- A whole source text: its imports, which are passed through, and its statements. -/
structure Stylesheet where
  imports : List String
  body : List Item

/-- A path as it is shown in messages. -/
def Call.displayName (call : Call) : String := " > ".intercalate call.path

/-- A class or id name and nothing else: `.` or `#`, then an identifier. -/
def isCallableName : List Char → Bool
  | c :: d :: r => (c == '.' || c == '#') && (d :: r).all Text.isIdentChar
  | _ => false

/-- A rule with one class or id selector can be called like a mixin without parameters; this is
the name it is called by. -/
def Rule.mixinName? (rule : Rule) : Option String :=
  match rule.selectors with
  | [selector] => if isCallableName selector.toList then some selector else none
  | _ => none

/-- A rule as a mixin without parameters. -/
def Rule.toMixin (rule : Rule) (name : String) : Mixin := ⟨name, [], rule.guard, rule.body⟩

/-! ## Arity -/

/-- A parameter that collects what is left over. -/
def Param.isRest : Param → Bool
  | .rest _ => true
  | _ => false

/-- A parameter that needs an argument. -/
def Param.isRequired : Param → Bool
  | .named _ default => default.isNone
  | .rest _ => false
  | .pattern _ => true

/-- Whether a mixin takes any number of arguments from some count on. -/
def Mixin.hasRest (m : Mixin) : Bool := m.params.any Param.isRest

/-- The number of parameters that need an argument. -/
def Mixin.requiredCount (m : Mixin) : Nat := m.params.countP Param.isRequired

/-- The number of parameters that hold one argument each. -/
def Mixin.positionalCount (m : Mixin) : Nat := m.params.countP fun p => !p.isRest

/-- Whether a call with this many arguments can be meant for the mixin. -/
def Mixin.acceptsArity (m : Mixin) (arity : Nat) : Bool :=
  decide (m.requiredCount ≤ arity) && (m.hasRest || decide (arity ≤ m.positionalCount))

end LessSheet
