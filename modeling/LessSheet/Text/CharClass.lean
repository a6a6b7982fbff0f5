import LessSheet.Text.Alphabetic
import LessSheet.Text.Mark
import LessSheet.Text.Numeral

/-! # Character classes

The classes by which a stylesheet is cut into words. They are Unicode classes: an identifier may
hold any letter or numeral of any script, and any white space separates. The class of an ASCII
character is decided by comparison alone; only beyond U+007F a table of ranges is consulted.

Two classes for names stand side by side and differ. `isIdentChar` is what an identifier is read
with: letters, numerals of every kind, `-` and `_`. `isHoleChar` is what a variable name inside a
placeholder such as `@{name}` is made of: letters, decimal digits, marks, connectors, joiners
and `-`.

They also follow two editions of the Unicode standard. Identifiers take in the letters and numerals
of edition 17. Placeholders, and the digits of a number, stay with edition 16: a letter that only
edition 17 knows ends the name in a placeholder.
-/

namespace LessSheet.Text

/-- Membership of a code point in a table of closed ranges. -/
def inRanges (ranges : List (Nat × Nat)) (n : Nat) : Bool :=
  ranges.any fun r => decide (r.1 ≤ n) && decide (n ≤ r.2)

/-- An ASCII character is classified by `ascii`, any other by a table. -/
def classify (ascii : Char → Bool) (ranges : List (Nat × Nat)) (c : Char) : Bool :=
  if c.toNat < 128 then ascii c else inRanges ranges c.toNat

/-- White space: the Unicode property White_Space. -/
def isBlank (c : Char) : Bool :=
  classify (fun c => c == ' ' || (decide (9 ≤ c.toNat) && decide (c.toNat ≤ 13)))
    [(0x85, 0x85), (0xa0, 0xa0), (0x1680, 0x1680), (0x2000, 0x200a), (0x2028, 0x2029),
     (0x202f, 0x202f), (0x205f, 0x205f), (0x3000, 0x3000)] c

/-- Control characters: the general category Cc. -/
def isControl (c : Char) : Bool :=
  decide (c.toNat < 32) || (decide (127 ≤ c.toNat) && decide (c.toNat < 160))

/-- Letters of edition 16: the Unicode property Alphabetic there. -/
def isSettledLetter (c : Char) : Bool := classify Char.isAlpha alphabeticRanges c

/-- Letters that edition 17 brings. -/
def isRecentLetter (c : Char) : Bool := classify (fun _ => false) recentAlphabeticRanges c

/-- Letters: the Unicode property Alphabetic, in edition 17. -/
def isLetter (c : Char) : Bool := isSettledLetter c || isRecentLetter c

/-- Decimal digits of any script: the general category Nd, in edition 16. -/
def isDecimalDigit (c : Char) : Bool := classify Char.isDigit decimalDigitRanges c

/-- Numerals that edition 17 brings. -/
def isRecentNumeral (c : Char) : Bool := classify (fun _ => false) recentNumeralRanges c

/-- Numerals of any kind: the general category N, in edition 17. -/
def isNumeral (c : Char) : Bool :=
  isDecimalDigit c || classify (fun _ => false) otherNumeralRanges c || isRecentNumeral c

/-- Combining marks: the general category M, in edition 16. -/
def isMark (c : Char) : Bool := classify (fun _ => false) markRanges c

/-- Connector punctuation: the general category Pc. -/
def isConnector (c : Char) : Bool :=
  classify (· == '_')
    [(0x203f, 0x2040), (0x2054, 0x2054), (0xfe33, 0xfe34), (0xfe4d, 0xfe4f), (0xff3f, 0xff3f)] c

/-- The two joiners U+200C and U+200D, the property Join_Control. -/
def isJoiner (c : Char) : Bool := c.toNat == 0x200c || c.toNat == 0x200d

/-- A character of an identifier. -/
def isIdentChar (c : Char) : Bool := isLetter c || isNumeral c || c == '-' || c == '_'

/-- A character of the variable name in a placeholder. -/
def isHoleChar (c : Char) : Bool :=
  isSettledLetter c || isMark c || isDecimalDigit c || isConnector c || isJoiner c || c == '-'

/-- The two characters that delimit a string. -/
def isQuote (c : Char) : Bool := c == '"' || c == '\''

end LessSheet.Text
