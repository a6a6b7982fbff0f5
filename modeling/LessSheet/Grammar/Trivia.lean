import LessSheet.Text.CharClass

/-! # Comments and white space between tokens

Grammar functions work on the text that is left, a list of characters, and answer what they took
together with what is left after it.

`scanTrivia` passes over white space, line comments and block comments, and answers the block
comments it passed: `skipTrivia` is where it stops. A comment that is not closed reaches to the end.
`trailingComments` takes the block comments that follow on the same line.
-/

namespace LessSheet.Grammar

open Text

/-- The text from its first character that is not white space. -/
def skipBlank (s : List Char) : List Char := s.dropWhile isBlank

mutual

/-- Passes over white space and comments: the block comments on the way, and what is left. -/
def scanTrivia : List Char → List (List Char) × List Char
  | '/' :: '/' :: r => scanLineComment r
  | '/' :: '*' :: r =>
    let (comment, more, rest) := scanBlockComment r
    (('/' :: '*' :: comment) :: more, rest)
  | c :: r => if isBlank c then scanTrivia r else ([], c :: r)
  | [] => ([], [])

/-- `scanTrivia` from inside a line comment. -/
def scanLineComment : List Char → List (List Char) × List Char
  | c :: r => if c = '\n' then scanTrivia r else scanLineComment r
  | [] => ([], [])

/-- `scanTrivia` from inside a block comment: the rest of that comment comes first. -/
def scanBlockComment : List Char → List Char × List (List Char) × List Char
  | '*' :: '/' :: r =>
    let (more, rest) := scanTrivia r
    (['*', '/'], more, rest)
  | c :: r =>
    let (comment, more, rest) := scanBlockComment r
    (c :: comment, more, rest)
  | [] => ([], [], [])

end

/-- The text from its first character that is neither white space nor in a comment. -/
def skipTrivia (s : List Char) : List Char := (scanTrivia s).2

/-- Whether white space or a comment comes first. -/
def startsTrivia : List Char → Bool
  | '/' :: '/' :: _ => true
  | '/' :: '*' :: _ => true
  | c :: _ => isBlank c
  | [] => false

mutual

/-- Takes block comments separated by spaces and tabs only. `start` is where to stop if no comment
follows: white space before something else is not taken. -/
def trailingFrom : (start : List Char) → List Char → List (List Char) × List Char
  | _, '/' :: '*' :: r =>
    let (comment, more, rest) := trailingInside r
    (('/' :: '*' :: comment) :: more, rest)
  | start, c :: r => if c = ' ' || c = '\t' then trailingFrom start r else ([], start)
  | start, [] => ([], start)

/-- `trailingFrom` from inside a block comment: the rest of that comment comes first. -/
def trailingInside : List Char → List Char × List (List Char) × List Char
  | '*' :: '/' :: r =>
    let (more, rest) := trailingFrom r r
    (['*', '/'], more, rest)
  | c :: r =>
    let (comment, more, rest) := trailingInside r
    (c :: comment, more, rest)
  | [] => ([], [], [])

end

/-- The block comments that follow on the same line, and what is left. -/
def trailingComments (s : List Char) : List (List Char) × List Char := trailingFrom s s

end LessSheet.Grammar
