import LessSheet.Decimal.FixedPlaces
import LessSheet.Stylesheet

/-! # Values

What expressions evaluate to, how a value is written, and how two values compare.

Numbers compare by size when their units agree or one of them has none. Rulesets compare by place
and captured scope. Any other two values are equal when their texts are, where a string counts
without its quotes; they have no order beyond that.
-/

namespace LessSheet

/-- The number of a scope in its arena. -/
abbrev ScopeId := Nat

/-- A number with a unit; the empty unit is none. -/
structure Quantity where
  value : Float
  unit : String

/-- The result of evaluating an expression. A ruleset keeps the scope it was written in. -/
inductive Value where
  | number (quantity : Quantity)
  | keyword (text : String)
  | quoted (text : String) (quote : Char)
  | list (separator : Separator) (items : List Value)
  | function (name : String) (args : List Value)
  | ruleset (site : Site) (body : List Item) (scope : ScopeId)

/-- Numbers are written with at most four places after the point. -/
def Quantity.places : Nat := 4

/-- A quantity as text: the number, then the unit. -/
def Quantity.text (q : Quantity) : String := Decimal.fixedPlaces Quantity.places q.value ++ q.unit

/-- What is written between the items of a list. -/
def Separator.glue : Separator → String
  | .space => " "
  | .comma => ", "
  | .slash => "/"

namespace Value

mutual

/-- A value as text. -/
def text : Value → String
  | .number q => q.text
  | .keyword t => t
  | .quoted t quote => toString quote ++ t ++ toString quote
  | .list separator items => separator.glue.intercalate (texts items)
  | .function name args => name ++ "(" ++ ", ".intercalate (texts args) ++ ")"
  | .ruleset _ _ _ => "[detached ruleset]"

/-- The texts of several values. -/
def texts : List Value → List String
  | [] => []
  | v :: vs => v.text :: texts vs

end

/-- A value as it is filled into a text: a string gives its content, anything else its text. -/
def content : Value → String
  | .quoted t _ => t
  | v => v.text

/-- In a guard only the keyword `true` holds. -/
def isTrue : Value → Bool
  | .keyword t => t == "true"
  | _ => false

/-- The keyword for a truth value. -/
def ofBool (b : Bool) : Value := .keyword (if b then "true" else "false")

/-- The order of two doubles; there is none if either is not a number. -/
def compareFloat (x y : Float) : Option Ordering :=
  if x < y then some .lt else if y < x then some .gt else if x == y then some .eq else none

/-- Whether quantities in these units can be put in order. -/
def comparableUnits (u v : String) : Bool := u == v || u == "" || v == ""

/-- How a value compares with another: smaller, equal, greater or not at all. -/
def compare : Value → Value → Option Ordering
  | .number p, .number q =>
    if comparableUnits p.unit q.unit then compareFloat p.value q.value else none
  | .ruleset s _ k, .ruleset t _ l => if s = t ∧ k = l then some .eq else none
  | .ruleset _ _ _, _ => none
  | _, .ruleset _ _ _ => none
  | v, w => if v.content == w.content then some .eq else none

end Value

end LessSheet
