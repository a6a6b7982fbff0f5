import LessSheet.Grammar.Guard
import LessSheet.Text.Trim

/-! # The grammar of statements

What kind of statement comes next is decided by looking ahead. Each `…Head?` function does that for
one kind: it answers the name or path the statement starts with and the text after it, and `none` if
the text does not go on like that kind of statement.

`level` ties the grammar together. Productions take the next level as an argument and enter it only
after an opening bracket, so as many levels as the source has characters are enough.
-/

namespace LessSheet.Grammar

open Text

/-! ## Looking ahead -/

/-- The name after an `@`, if there is one, and what is left. -/
def atName? : List Char → Option (List Char × List Char)
  | '@' :: r =>
    match identifier r with
    | ([], _) => none
    | (name, rest) => some (name, rest)
  | _ => none

/-- A variable name with a colon after it, and the text after the colon. -/
def assignHead? (s : List Char) : Option (String × List Char) :=
  match atName? s with
  | none => none
  | some (name, rest) =>
    match skipBlank rest with
    | ':' :: r => some (String.ofList name, r)
    | _ => none

/-- The text after `@import`, the word in any case. -/
def importHead? (s : List Char) : Option (List Char) :=
  match atName? s with
  | none => none
  | some (name, rest) => if name.map Char.toLower = "import".toList then some rest else none

/-- Whether a statement may end here. -/
def endsStatement : List Char → Bool
  | c :: _ => c == ';' || c == '}'
  | [] => false

/-- The name of a called ruleset, and the text after its opening parenthesis. -/
def detachedHead? (s : List Char) : Option (String × List Char) :=
  match atName? s with
  | none => none
  | some (name, rest) =>
    let parens := skipTrivia rest
    match balanced? parens with
    | none => none
    | some (_, after) =>
      if endsStatement (skipTrivia after) then some (String.ofList name, parens.drop 1) else none

/-- The name of an at-rule with a block, and the text after the name. -/
def atRuleHead? (s : List Char) : Option (String × List Char) :=
  match atName? s with
  | none => none
  | some (name, rest) =>
    if reachesBrace 0 (skipTrivia rest) then some (String.ofList name, rest) else none

/-- The name of a mixin definition, and the text after the name. -/
def mixinHead? (s : List Char) : Option (String × List Char) :=
  match segment? s with
  | none => none
  | some (name, rest) =>
    match balanced? (skipTrivia rest) with
    | none => none
    | some (_, after) =>
      let after := skipTrivia after
      let blockStart := match keyword? "when".toList after with
        | some guard => (uptoBrace 0 guard).2
        | none => after
      if blockStart.head? = some '{' then some (name, rest) else none

/-- The text after the arguments of a call, if they are closed. -/
def afterArguments? (s : List Char) : Option (List Char) :=
  match s with
  | '(' :: _ => (balanced? s).map Prod.snd
  | _ => some s

/-- The path of a mixin call, and the text after the path. -/
def callHead? (s : List Char) : Option (List String × List Char) :=
  match path? s with
  | none => none
  | some (path, rest) =>
    match afterArguments? (skipTrivia rest) with
    | none => none
    | some after =>
      let after := skipTrivia after
      if endsStatement (skipTrivia ((important? after).getD after)) then some (path, rest) else none

/-! ## Productions -/

/-- The block comments before a statement. -/
def leadingComments : Parse (List String) := fun s =>
  let (comments, rest) := scanTrivia s
  .ok (comments.map String.ofList, rest)

/-- The block comments around a statement, those before it being known. -/
def withTrailing (leading : List String) : Parse Comments := fun s =>
  let (comments, rest) := trailingComments s
  .ok (⟨leading, comments.map String.ofList⟩, rest)

/-- The semicolon that ends a statement may be left out. -/
def endStatement : Parse Unit := do
  trivia
  optional ';'

/-- The value of a variable. An importance marker becomes a word after it. -/
def assignedValue (L : Level) : Parse Expr := fun s =>
  match s with
  | '{' :: r => (Expr.ruleset (L.site s) <$> L.block) r
  | _ =>
    (do
      let v ← value L true
      trivia
      if ← importance then pure (.list .space [v, .keyword "!important"]) else pure v
      : Parse Expr) s

/-- A variable assignment, after its colon. -/
def assignment (L : Level) (name : String) : Parse Item := do
  trivia
  let v ← assignedValue L
  endStatement
  pure (.assign name v)

/-- The call of a ruleset, after its opening parenthesis. -/
def detachedCall (name : String) (leading : List String) : Parse Item := do
  trivia
  match ← get with
  | ')' :: r =>
    set r
    endStatement
    .detachedCall name <$> withTrailing leading
  | _ => fail .detachedArguments

/-- A block with its opening brace. -/
def bracedBlock (L : Level) : Parse (List Item) := do
  expect '{'
  L.block

/-- An at-rule, after its name. -/
def atRule (L : Level) (name : String) : Parse Item := do
  trivia
  let (params, rest) := uptoBrace 0 (← get)
  set rest
  .atRule name (String.ofList (trim params)) <$> bracedBlock L

/-- The separator after a parameter or argument, unless the closing parenthesis follows. -/
def separator (semicolons : Bool) (cause : ParseError.Cause) : Parse Unit := do
  trivia
  match ← get with
  | ';' :: r => if semicolons then set r else fail cause
  | ',' :: r => if semicolons then fail cause else set r
  | ')' :: _ => pure ()
  | _ => fail cause

/-- Items in parentheses, after the opening one: `item` is told whether semicolons separate, in
which case commas belong to the items. -/
def parenthesised {α : Type} (item : Bool → Parse α) (unclosed unseparated : ParseError.Cause) :
    Parse (List α) := do
  let semicolons := hasSemicolon (← get)
  collect do
    trivia
    match ← get with
    | [] => fail unclosed
    | ')' :: r => set r; pure none
    | _ =>
      let a ← item semicolons
      separator semicolons unseparated
      pure (some a)

/-- A parameter of a mixin. -/
def param (L : Level) (semicolons : Bool) : Parse Param := fun s =>
  match strip? "...".toList s with
  | some r => .ok (.rest none, r)
  | none =>
    match assignHead? s with
    | some (name, r) =>
      (do trivia; .named name <$> some <$> value L semicolons : Parse Param) r
    | none =>
      match s with
      | '@' :: r =>
        match identifier r with
        | ([], rest) => .error ⟨.missingParamName, rest⟩
        | (name, rest) =>
          match strip? "...".toList rest with
          | some rest => .ok (.rest (some (String.ofList name)), rest)
          | none => .ok (.named (String.ofList name) none, rest)
      | _ => (Param.pattern <$> value L semicolons) s

/-- A mixin definition that starts at `start`, after its name. -/
def mixinDefinition (L : Level) (start : List Char) (name : String) : Parse Item := do
  trivia
  expect '('
  let params ← parenthesised (param L) .unclosedParams .missingParamSeparator
  let condition ← optionalGuard L
  let body ← bracedBlock L
  pure (.mixin (L.site start) ⟨name, params, condition, body⟩)

/-- An argument of a call. -/
def argument (L : Level) (semicolons : Bool) : Parse Argument := fun s =>
  match assignHead? s with
  | some (name, r) =>
    (do trivia; Argument.mk (some name) <$> value L semicolons : Parse Argument) r
  | none => (Argument.mk none <$> value L semicolons) s

/-- The arguments of a call, which may be left out with their parentheses. -/
def callArguments (L : Level) : Parse (List Argument) := fun s =>
  match s with
  | '(' :: r => parenthesised (argument L) .unclosedArguments .missingArgumentSeparator r
  | _ => .ok ([], s)

/-- A mixin call, after its path. -/
def mixinCall (L : Level) (path : List String) (leading : List String) : Parse Item := do
  trivia
  let args ← callArguments L
  trivia
  let important ← importance
  endStatement
  let comments ← withTrailing leading
  pure (.call ⟨path, args, important, comments⟩)

/-- A property with its value. -/
def declaration (L : Level) (leading : List String) : Parse Item := do
  let (name, rest) := propertyNameFrom .plain (← get)
  set rest
  trivia
  expect ':'
  trivia
  let v ← value L true
  trivia
  let important ← importance
  endStatement
  let comments ← withTrailing leading
  pure (.declaration ⟨String.ofList (trim name), v, important, comments⟩)

/-- The selectors of a raw selector text: its parts between commas, trimmed, empty ones left
out. -/
def selectorsOf (raw : List Char) : List String :=
  (((splitCommas 0 raw).map trim).filter fun s => !s.isEmpty).map String.ofList

/-- A rule with its selectors and its block. -/
def rule (L : Level) : Parse Item := do
  let (raw, rest) := selectorFrom .blank (← get)
  set rest
  let selectors := selectorsOf raw
  if selectors.isEmpty then fail .missingSelector
  let condition ← optionalGuard L
  let body ← bracedBlock L
  pure (.rule ⟨selectors, condition, body⟩)

/-- A statement that starts with no `@` of its own: a mixin definition, a mixin call, a declaration
or a rule. -/
def plainItem (L : Level) (leading : List String) : Parse Item := fun s =>
  match mixinHead? s with
  | some (name, r) => mixinDefinition L s name r
  | none =>
    match callHead? s with
    | some (path, r) => mixinCall L path leading r
    | none =>
      match statementKindFrom false .plain s with
      | some .declaration => declaration L leading s
      | some .rule => rule L s
      | none => .error ⟨.unknownStatement, s⟩

/-- A statement, the comments before it being known. -/
def item (L : Level) (leading : List String) : Parse Item := fun s =>
  match assignHead? s with
  | some (name, r) => assignment L name r
  | none =>
    if (importHead? s).isSome then .error ⟨.nestedImport, s⟩
    else match detachedHead? s with
      | some (name, r) => detachedCall name leading r
      | none =>
        match atRuleHead? s with
        | some (name, r) => atRule L name r
        | none => plainItem L leading s

/-- The statements of a block up to its closing brace. -/
def block (L : Level) : Parse (List Item) :=
  collect do
    let leading ← leadingComments
    match ← get with
    | [] => fail .unclosedBlock
    | '}' :: r => set r; pure none
    | _ => some <$> item L leading

/-- The productions inside brackets, for a text shorter than `depth`. There is no such text at depth
zero, so what fails there is never asked. -/
def level (document : Nat) : (depth : Nat) → Level
  | 0 => ⟨document, fail .unclosedBlock, fail .unclosedParens, fail .unclosedParens,
      fail .unclosedParens⟩
  | depth + 1 =>
    { document
      block := fun s => block (level document depth) s
      sum := fun s => sum (level document depth) true s
      words := fun s => words (level document depth) true s
      guard := fun s => guard (level document depth) s }

/-- An import statement, after its name, as it is passed through. -/
def importStatement : Parse String := fun s =>
  match s.dropWhile (· != ';') with
  | ';' :: rest =>
    let target := String.ofList (trim (s.takeWhile (· != ';')))
    .ok ("@import " ++ target ++ ";", rest)
  | _ => .error ⟨.expected ';' none, []⟩

/-- A statement of the top level: an import or any other. -/
def topItem (L : Level) : Parse (Option (String ⊕ Item)) := do
  let leading ← leadingComments
  let s ← get
  if s.isEmpty then pure none
  else match importHead? s with
    | some r =>
      set r
      some <$> .inl <$> importStatement
    | none => some <$> .inr <$> item L leading

/-- A whole source text. -/
def stylesheet (L : Level) : Parse Stylesheet := do
  let items ← collect (topItem L)
  pure ⟨items.filterMap Sum.getLeft?, items.filterMap Sum.getRight?⟩

/-- The number of bytes of a text in UTF-8. -/
def byteLength : List Char → Nat
  | [] => 0
  | c :: r => c.utf8Size + byteLength r

end LessSheet.Grammar

namespace LessSheet

/-- Reads a source text. Literals from texts with different `document` numbers are different. -/
def Stylesheet.parse (source : String) (document : Nat := 0) : Except ParseError Stylesheet :=
  let text := source.toList
  match Grammar.stylesheet (Grammar.level document text.length) text with
  | .ok (sheet, _) => .ok sheet
  | .error f => .error ⟨f.cause, Grammar.byteLength text - Grammar.byteLength f.rest⟩

end LessSheet
