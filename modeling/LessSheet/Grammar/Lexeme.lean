import LessSheet.Decimal.FixedPlaces
import LessSheet.Grammar.Trivia

/-! # Lexemes

The smallest parts of a source text: identifiers, keywords, strings, bracketed text, numbers, and
the raw texts of selectors, property names and at-rule parameters. Each scanner is one walk along
the text, so it is recursive on the list it reads.
-/

namespace LessSheet.Grammar

open Text

/-! ## Words -/

/-- What follows `word`, if the text starts with it. -/
def strip? : (word : List Char) → List Char → Option (List Char)
  | [], s => some s
  | _ :: _, [] => none
  | w :: word, c :: s => if w = c then strip? word s else none

/-- The identifier at the start of a text, possibly empty, and what is left. -/
def identifier (s : List Char) : List Char × List Char :=
  (s.takeWhile isIdentChar, s.dropWhile isIdentChar)

/-- What follows `word`, if the text starts with it and no identifier goes on after it. -/
def keyword? (word s : List Char) : Option (List Char) :=
  (strip? word s).filter fun r => !r.head?.any isIdentChar

/-- What follows the importance marker, if the text starts with it. -/
def important? (s : List Char) : Option (List Char) := strip? "!important".toList s

/-- Whether a character ends a value. -/
def endsValue (c : Char) : Bool := c == ',' || c == ')' || c == ';' || c == '}' || c == '!'

/-- A piece of a value of no other form, up to white space, an opening parenthesis or the end of
the value. -/
def bareWord (s : List Char) : List Char × List Char :=
  let inWord c := !(isBlank c || endsValue c || c == '(')
  (s.takeWhile inWord, s.dropWhile inWord)

/-! ## Strings and brackets -/

/-- The content of a string up to its closing quote, and what is left. A backslash is kept and
takes the next character with it. -/
def stringBody (quote : Char) : List Char → Option (List Char × List Char)
  | [] => none
  | '\\' :: [] => none
  | '\\' :: c :: r => (stringBody quote r).map fun (t, rest) => ('\\' :: c :: t, rest)
  | c :: r =>
    if c = quote then some ([], r) else (stringBody quote r).map fun (t, rest) => (c :: t, rest)

/-- The text up to the parenthesis that closes the one before it, and what is left. `depth` counts
further open parentheses, and `quote` is the quote of the string being read, in which parentheses
do not count. -/
def balancedFrom (depth : Nat) : (quote : Option Char) → List Char → Option (List Char × List Char)
  | _, [] => none
  | some _, '\\' :: [] => none
  | some q, '\\' :: c :: r =>
    (balancedFrom depth (some q) r).map fun (t, rest) => ('\\' :: c :: t, rest)
  | some q, c :: r =>
    (balancedFrom depth (if c = q then none else some q) r).map fun (t, rest) => (c :: t, rest)
  | none, c :: r =>
    if c = ')' then
      match depth with
      | 0 => some ([], r)
      | depth + 1 => (balancedFrom depth none r).map fun (t, rest) => (c :: t, rest)
    else if c = '(' then (balancedFrom (depth + 1) none r).map fun (t, rest) => (c :: t, rest)
    else
      let quote := if isQuote c then some c else none
      (balancedFrom depth quote r).map fun (t, rest) => (c :: t, rest)

/-- The text between the parenthesis at the start and the one that closes it, and what is left. -/
def balanced? : List Char → Option (List Char × List Char)
  | '(' :: r => balancedFrom 0 none r
  | _ => none

/-- Whether a semicolon comes before the bracket that closes the one already open, outside strings
and further brackets. -/
def hasSemicolonFrom (depth : Nat) : (quote : Option Char) → List Char → Bool
  | _, [] => false
  | some _, '\\' :: [] => false
  | some q, '\\' :: _ :: r => hasSemicolonFrom depth (some q) r
  | some q, c :: r => hasSemicolonFrom depth (if c = q then none else some q) r
  | none, c :: r =>
    if c = ')' || c = '}' || c = ']' then
      match depth with
      | 0 => false
      | depth + 1 => hasSemicolonFrom depth none r
    else if c = '(' || c = '{' || c = '[' then hasSemicolonFrom (depth + 1) none r
    else if c = ';' && depth == 0 then true
    else hasSemicolonFrom depth (if isQuote c then some c else none) r

/-- Whether arguments are separated by semicolons: one stands outside all brackets and strings
before the parenthesis that ends them. -/
def hasSemicolon (s : List Char) : Bool := hasSemicolonFrom 0 none s

/-- The text up to an opening brace outside parentheses, and what is left from that brace on. -/
def uptoBrace (depth : Nat) : List Char → List Char × List Char
  | [] => ([], [])
  | c :: r =>
    if c = '{' && depth == 0 then ([], c :: r)
    else
      let (t, rest) :=
        uptoBrace (if c = '(' then depth + 1 else if c = ')' then depth - 1 else depth) r
      (c :: t, rest)

/-- Whether an opening brace outside parentheses comes before any semicolon. -/
def reachesBrace (depth : Nat) : List Char → Bool
  | [] => false
  | c :: r =>
    if c = '{' && depth == 0 then true
    else if c = ';' then false
    else reachesBrace (if c = '(' then depth + 1 else if c = ')' then depth - 1 else depth) r

/-! ## Texts with placeholders -/

/-- Where a walk stands relative to a placeholder: outside, after an `@`, or inside its braces. -/
inductive HoleMode where
  | plain
  | marked
  | inside
deriving DecidableEq, Repr, Inhabited

/-- The raw name of a property and what is left: up to a colon, a semicolon, a control character or
a brace that opens no placeholder. -/
def propertyNameFrom : HoleMode → List Char → List Char × List Char
  | _, [] => ([], [])
  | .inside, c :: r =>
    let (t, rest) := propertyNameFrom (if c = '}' then .plain else .inside) r
    (c :: t, rest)
  | mode, c :: r =>
    if c = ':' || c = ';' || isControl c || (c = '{' && mode != .marked) then ([], c :: r)
    else
      let next : HoleMode :=
        if c = '@' then .marked
        else if c = '{' then .inside
        else if isBlank c then mode
        else .plain
      let (t, rest) := propertyNameFrom next r
      (c :: t, rest)

/-- Where a walk along a selector stands: after white space, after anything else, or inside the
braces of a placeholder. -/
inductive SelectorMode where
  | blank
  | solid
  | inside
deriving DecidableEq, Repr, Inhabited

/-- The raw text of a selector list and what is left: up to an opening brace or to the keyword
`when` after white space. -/
def selectorFrom : SelectorMode → List Char → List Char × List Char
  | _, [] => ([], [])
  | .inside, c :: r =>
    let (t, rest) := selectorFrom (if c = '}' then .solid else .inside) r
    (c :: t, rest)
  | mode, c :: r =>
    if c = '{' || (mode == .blank && (keyword? "when".toList (c :: r)).isSome) then ([], c :: r)
    else
      let next : SelectorMode :=
        if c = '@' && r.head? == some '{' then .inside else if isBlank c then .blank else .solid
      let (t, rest) := selectorFrom next r
      (c :: t, rest)

/-- The parts of a text between commas that stand outside round and square brackets. -/
def splitCommas (depth : Nat) : List Char → List (List Char)
  | [] => [[]]
  | c :: r =>
    if c = ',' && depth == 0 then [] :: splitCommas depth r
    else
      let depth :=
        if c = '(' || c = '[' then depth + 1 else if c = ')' || c = ']' then depth - 1 else depth
      match splitCommas depth r with
      | [] => [[c]]
      | part :: parts => (c :: part) :: parts

/-- What kind of statement a text without a keyword of its own starts with. -/
inductive StatementKind where
  | declaration
  | rule
deriving DecidableEq, Repr, Inhabited

/-- A statement is a rule if a brace that opens no placeholder comes first, and a declaration if a
semicolon does, or the end of the block after a colon. -/
def statementKindFrom (sawColon : Bool) : HoleMode → List Char → Option StatementKind
  | _, [] => if sawColon then some .declaration else none
  | .inside, c :: r => statementKindFrom sawColon (if c = '}' then .plain else .inside) r
  | mode, c :: r =>
    if c = '@' then statementKindFrom sawColon .marked r
    else if c = '{' then
      if mode = .marked then statementKindFrom sawColon .inside r else some .rule
    else if c = ';' then some .declaration
    else if c = '}' then if sawColon then some .declaration else none
    else if c = ':' then statementKindFrom true mode r
    else statementKindFrom sawColon .plain r

/-! ## Numbers -/

/-- A number as it is written: sign, digits before and after the point, unit. -/
structure Numeral where
  negative : Bool
  whole : List Char
  point : Bool
  fraction : List Char
  unit : List Char

/-- The number without its unit, as it is written. -/
def Numeral.digits (n : Numeral) : List Char :=
  (if n.negative then ['-'] else []) ++ n.whole ++ (if n.point then '.' :: n.fraction else [])

/-- The value of a number written in ASCII digits; digits of other scripts have none. -/
def Numeral.value? (n : Numeral) : Option Float :=
  if n.whole.all Char.isDigit && n.fraction.all Char.isDigit then
    some (Decimal.ofDigits n.negative n.whole n.fraction)
  else none

/-- The unit at the start of a text, a percent sign or ASCII letters, and what is left. -/
def unitText : List Char → List Char × List Char
  | '%' :: r => (['%'], r)
  | s => (s.takeWhile Char.isAlpha, s.dropWhile Char.isAlpha)

/-- The number at the start of a text, without a sign, and what is left: digits, then a point if
digits follow it, then a unit. -/
def unsignedNumeral? (negative : Bool) (s : List Char) : Option (Numeral × List Char) :=
  let whole := s.takeWhile isDecimalDigit
  let rest := s.dropWhile isDecimalDigit
  let fraction := match rest with
    | '.' :: r => r.takeWhile isDecimalDigit
    | _ => []
  if fraction.isEmpty && whole.isEmpty then none
  else
    let point := !fraction.isEmpty
    let (unit, rest) := unitText (if point then rest.drop (fraction.length + 1) else rest)
    some (⟨negative, whole, point, fraction, unit⟩, rest)

/-- The number at the start of a text and what is left. -/
def numeral? : List Char → Option (Numeral × List Char)
  | '-' :: r => unsignedNumeral? true r
  | s => unsignedNumeral? false s

/-! ## Mixin paths -/

/-- Whether a class or id may start here. -/
def startsSegment : List Char → Bool
  | c :: _ => c == '.' || c == '#'
  | [] => false

/-- The class or id name at the start of a text and what is left. -/
def segment? : List Char → Option (String × List Char)
  | c :: r =>
    if c = '.' || c = '#' then
      match identifier r with
      | ([], _) => none
      | (name, rest) => some (String.ofList (c :: name), rest)
    else none
  | [] => none

/-- Where the next segment of a path starts: right here, or after a `>` with white space around
it. -/
def nextSegment? (s : List Char) : Option (List Char) :=
  if startsSegment s then some s
  else match skipBlank s with
    | '>' :: r => if startsSegment (skipBlank r) then some (skipBlank r) else none
    | _ => none

/-- The further segments of a path and what is left. A segment takes at least one character, so
`fuel` may be any text at least as long as the one read. -/
def segments? : (fuel : List Char) → List Char → Option (List String × List Char)
  | [], s => some ([], s)
  | _ :: fuel, s =>
    match nextSegment? s with
    | none => some ([], s)
    | some t =>
      match segment? t with
      | none => none
      | some (name, r) => (segments? fuel r).map fun (names, rest) => (name :: names, rest)

/-- The path of a call and what is left. -/
def path? (s : List Char) : Option (List String × List Char) :=
  match segment? s with
  | none => none
  | some (name, r) => (segments? r r).map fun (names, rest) => (name :: names, rest)

end LessSheet.Grammar
