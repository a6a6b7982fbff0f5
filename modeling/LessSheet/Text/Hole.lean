import LessSheet.Text.CharClass

/-! # Texts with holes

A text may name variables to be filled in. A shape of hole is a function `hole?` that looks at the
start of a text and answers the name a hole there carries and the number of characters it spans.
`pieces` cuts a text, from left to right, into the holes of one shape and the single characters
outside them. Holes do not overlap: what a hole spans is passed over, and what is filled in later is
never looked at again.

Three shapes occur. `braced?` is `@{name}`, the placeholder of strings, selectors and property
names. `bare?` is `@name`. `loose?` is `@name` or `@{name}` where either brace may be missing, the
form in the parameters of an at-rule.
-/

namespace LessSheet.Text

/-- A hole at the start of a text: its variable's name and how many characters it spans. -/
structure Hole where
  name : List Char
  width : Nat

/-- A piece of a text: a character of its own, or a hole together with the text it stands for. -/
inductive Piece where
  | char (c : Char)
  | hole (name raw : List Char)

/-- The pieces of a text, where the first `skip` characters belong to a hole already found. -/
def piecesFrom (hole? : List Char → Option Hole) : (skip : Nat) → List Char → List Piece
  | _, [] => []
  | skip + 1, _ :: r => piecesFrom hole? skip r
  | 0, c :: r =>
    match hole? (c :: r) with
    | some h => .hole h.name ((c :: r).take h.width) :: piecesFrom hole? (h.width - 1) r
    | none => .char c :: piecesFrom hole? 0 r

/-- The pieces of a text, from left to right. -/
def pieces (hole? : List Char → Option Hole) (s : List Char) : List Piece := piecesFrom hole? 0 s

/-- The name at the start of a text, in characters a hole may use; `none` if there is none. -/
def holeName? (s : List Char) : Option (List Char) :=
  match s.takeWhile isHoleChar with
  | [] => none
  | name => some name

/-- A hole of the shape `@{name}`. -/
def braced? : List Char → Option Hole
  | '@' :: '{' :: r =>
    match holeName? r with
    | some name =>
      match r.drop name.length with
      | '}' :: _ => some ⟨name, name.length + 3⟩
      | _ => none
    | none => none
  | _ => none

/-- A hole of the shape `@name`. -/
def bare? : List Char → Option Hole
  | '@' :: r => (holeName? r).map fun name => ⟨name, name.length + 1⟩
  | _ => none

/-- A hole of the shape `@name`, where a brace may open before the name and one may close after
it, each by itself. -/
def loose? : List Char → Option Hole
  | '@' :: '{' :: r => (holeName? r).map fun name => ⟨name, name.length + 2 + closing name r⟩
  | '@' :: r => (holeName? r).map fun name => ⟨name, name.length + 1 + closing name r⟩
  | _ => none
where
  /-- One if a closing brace follows the name at the start of the text. -/
  closing (name r : List Char) : Nat :=
    if (r.drop name.length).head? = some '}' then 1 else 0

/-- Every `@name` of a text written as `@{name}`. -/
def braceNames (s : List Char) : List Char :=
  (pieces bare? s).flatMap fun
    | .char c => [c]
    | .hole name _ => '@' :: '{' :: name ++ ['}']

end LessSheet.Text
