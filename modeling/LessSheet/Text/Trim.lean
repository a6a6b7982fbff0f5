import LessSheet.Text.CharClass

/-! # White space at the ends and between words

Texts are handled as lists of characters; the `String` forms wrap them. `trim` removes the white
space at both ends. `words` are the maximal runs without white space, so `collapse`, which puts one
space between words, also trims.
-/

namespace LessSheet.Text

/-- A text without the white space at its ends. -/
def trim (s : List Char) : List Char :=
  ((s.dropWhile isBlank).reverse.dropWhile isBlank).reverse

/-- The maximal runs of characters that are not white space. -/
def words : List Char → List (List Char)
  | [] => []
  | c :: r =>
    if isBlank c then words r
    else if r.head?.all isBlank then [c] :: words r
    else match words r with
      | [] => [[c]]
      | w :: ws => (c :: w) :: ws

/-- The words of a text with one space between two of them. -/
def collapse (s : List Char) : List Char := [' '].intercalate (words s)

/-- `trim` on strings. -/
def trimString (s : String) : String := String.ofList (trim s.toList)

/-- `collapse` on strings. -/
def collapseString (s : String) : String := String.ofList (collapse s.toList)

end LessSheet.Text
