import LessSheet.Grammar.Parse
import LessSheet.Text.Hole

/-! # The grammar of values

A value is a comma list of space lists of slash lists of sums of products. A list of one item is
that item. Where a `/` or a sign belongs depends on the brackets: outside parentheses `/` separates
and a sign with white space before it only starts the next word, inside them both calculate.
-/

namespace LessSheet.Grammar

open Text

/-- A list, or its only item. -/
def listOf (separator : Separator) : List Expr → Expr
  | [item] => item
  | items => .list separator items

/-- A string, from its opening quote on. -/
def quotedString (escaped : Bool) : Parse Expr
  | quote :: r =>
    match stringBody quote r with
    | some (text, rest) => .ok (.quoted (String.ofList text) quote escaped, rest)
    | none => .error ⟨.unclosedString, quote :: r⟩
  | [] => .error ⟨.unclosedString, []⟩

/-- Functions whose argument is kept as it is written, apart from the variables in it. -/
def rawFunctions : List String := ["url", "calc", "var", "env"]

/-- Whether a function name, in any case, is one of `rawFunctions`. -/
def isRawFunction (name : List Char) : Bool :=
  rawFunctions.contains (String.ofList (name.map Char.toLower))

/-- The argument of a raw function, from its parenthesis on. -/
def rawFunction (name : List Char) : Parse Expr := fun s =>
  match balanced? s with
  | some (inner, rest) =>
    let text := name ++ '(' :: braceNames inner ++ [')']
    .ok (.quoted (String.ofList text) '"' true, rest)
  | none => .error ⟨.unclosedParens, []⟩

/-- The arguments of a function, after its parenthesis. A comma between two of them may be left
out. -/
def functionArguments (L : Level) (name : String) : Parse (List Expr) :=
  collect do
    trivia
    match ← get with
    | [] => fail (.unclosedFunction name)
    | ')' :: r => set r; pure none
    | _ =>
      let arg ← L.words
      trivia
      optional ','
      pure (some arg)

/-- A keyword, or a function if a parenthesis follows its name. -/
def keywordOrFunction (L : Level) : Parse Expr := fun s =>
  let (name, rest) := identifier s
  match rest with
  | '(' :: r =>
    if isRawFunction name then rawFunction name rest
    else (Expr.function (String.ofList name) <$> functionArguments L (String.ofList name)) r
  | _ => .ok (.keyword (String.ofList name), rest)

/-- Whether a keyword may start with this character. -/
def startsKeyword (c : Char) : Bool := isLetter c || c == '-' || c == '_'

/-- A number, a keyword, a function, or a piece of a value of no other form. -/
def plainTerm (L : Level) : Parse Expr := fun s =>
  match numeral? s with
  | some (n, rest) =>
    match n.value? with
    | some value => .ok (.number value (String.ofList n.unit), rest)
    | none => .error ⟨.badNumber (String.ofList n.digits), s⟩
  | none =>
    if s.head?.any startsKeyword then keywordOrFunction L s
    else match bareWord s with
      | ([], _) => .error ⟨.unknownValue, s⟩
      | (word, rest) => .ok (.keyword (String.ofList word), rest)

/-- A value without operators around it. -/
def term (L : Level) : Parse Expr := fun s =>
  match s with
  | '(' :: r => (do trivia; let inner ← L.sum; trivia; expect ')'; pure inner : Parse Expr) r
  | '@' :: r =>
    match identifier r with
    | ([], rest) => .error ⟨.missingVariableName, rest⟩
    | (name, rest) => .ok (.ref (String.ofList name), rest)
  | '{' :: r => (Expr.ruleset (L.site s) <$> L.block) r
  | '#' :: r => .ok (.keyword (String.ofList ('#' :: (identifier r).1)), (identifier r).2)
  | '~' :: '"' :: r => quotedString true ('"' :: r)
  | '~' :: '\'' :: r => quotedString true ('\'' :: r)
  | '"' :: r => quotedString false ('"' :: r)
  | '\'' :: r => quotedString false ('\'' :: r)
  | _ => plainTerm L s

/-- A term, negated by a minus sign right before a parenthesis or a variable. -/
def signedTerm (L : Level) : Parse Expr := fun s =>
  match s with
  | '-' :: '(' :: r => (Expr.negate <$> term L) ('(' :: r)
  | '-' :: '@' :: r => (Expr.negate <$> term L) ('@' :: r)
  | _ => term L s

/-- The operator of a product after an operand, and where its right operand starts. -/
def productOperator? (inParens : Bool) (s : List Char) :
    Option ((Expr → Expr → Expr) × List Char) :=
  match skipTrivia s with
  | '*' :: r => some (.operation .multiply, skipTrivia r)
  | '/' :: r => if inParens then some (.operation .divide, skipTrivia r) else none
  | _ => none

/-- Products; outside parentheses `/` is not a division. -/
def product (L : Level) (inParens : Bool) : Parse Expr :=
  chainLeft (signedTerm L) (productOperator? inParens)

/-- Outside parentheses a sign with white space before it and none after it starts a new word. -/
def startsWord (inParens : Bool) (before after : List Char) : Bool :=
  startsTrivia before && !after.head?.all isBlank && !inParens

/-- The operator of a sum after an operand, and where its right operand starts. -/
def sumOperator? (inParens : Bool) (s : List Char) : Option ((Expr → Expr → Expr) × List Char) :=
  match skipTrivia s with
  | '+' :: r => if startsWord inParens s r then none else some (.operation .add, skipTrivia r)
  | '-' :: r => if startsWord inParens s r then none else some (.operation .subtract, skipTrivia r)
  | _ => none

/-- Sums of products. -/
def sum (L : Level) (inParens : Bool) : Parse Expr :=
  chainLeft (product L inParens) (sumOperator? inParens)

/-- A slash that starts no comment separates, if it follows directly. -/
def slash? : List Char → Option (List Char)
  | '/' :: r => if startsTrivia ('/' :: r) then none else some r
  | _ => none

/-- Sums with slashes between them. -/
def slashList (L : Level) (inParens : Bool) : Parse Expr :=
  listOf .slash <$> separated (sum L inParens) slash?

/-- One or more words up to the end of the value. -/
def words (L : Level) (inParens : Bool) : Parse Expr := do
  let items ← collect do
    trivia
    if (← get).head?.all endsValue then pure none else some <$> slashList L inParens
  if items.isEmpty then fail .missingValue else pure (listOf .space items)

/-- A comma separates after white space and comments. -/
def comma? (s : List Char) : Option (List Char) :=
  match skipTrivia s with
  | ',' :: r => some r
  | _ => none

/-- A value. Where commas separate arguments they are not part of it. -/
def value (L : Level) (allowComma : Bool) : Parse Expr :=
  if allowComma then listOf .comma <$> separated (words L false) comma? else words L false

end LessSheet.Grammar
