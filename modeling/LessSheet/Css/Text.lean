import LessSheet.Css.Sheet

/-! # Stylesheet text

Two layouts of a flat stylesheet. `pretty` puts each property on a line, indents by two spaces a
level and keeps comments. `minified` leaves out what it can and drops comments. A rule without
properties is not written in either.
-/

namespace LessSheet.Css

/-- Two spaces for each level. -/
def indent (level : Nat) : String := String.join (List.replicate level "  ")

/-- Imports, one a line. -/
def importLines (imports : List String) : String :=
  String.join (imports.map fun i => Text.trimString i ++ "\n")

/-! ## Pretty -/

/-- Comments before something, one a line. -/
def leadingText (level : Nat) (comments : Comments) : String :=
  String.join (comments.leading.map fun c => indent level ++ c ++ "\n")

/-- Comments after something, on its line. -/
def trailingText (comments : Comments) : String :=
  String.join (comments.trailing.map fun c => " " ++ c)

namespace Property

/-- A property on a line of its own, with its comments. -/
def pretty (level : Nat) (p : Property) : String :=
  leadingText level p.comments ++ indent level ++ Text.trimString p.name ++ ": " ++
    Text.trimString p.value ++ (if p.important then " !important" else "") ++ ";" ++
    trailingText p.comments ++ "\n"

/-- A property without white space to spare. -/
def minified (p : Property) : String :=
  Text.trimString p.name ++ ":" ++ Text.collapseString p.value ++
    (if p.important then "!important" else "")

end Property

/-- Properties, one a line. -/
def prettyProperties (level : Nat) (properties : List Property) : String :=
  String.join (properties.map (Property.pretty level))

mutual

/-- A block at a level of indentation. -/
def Block.pretty (level : Nat) : Block → String
  | .rule selectors properties comments =>
    if properties.isEmpty then ""
    else
      leadingText level comments ++ indent level ++ ", ".intercalate selectors ++ " \x7b\n" ++
        prettyProperties (level + 1) properties ++ indent level ++ "\x7d" ++
        trailingText comments ++ "\n"
  | .atRule name params properties children comments =>
    leadingText level comments ++ indent level ++ "@" ++ name ++
      (if params == "" then "" else " " ++ Text.trimString params) ++ " \x7b\n" ++
      prettyProperties (level + 1) properties ++ prettyBlocks (level + 1) children ++
      indent level ++ "\x7d\n"

/-- Blocks one after the other. -/
def prettyBlocks (level : Nat) : List Block → String
  | [] => ""
  | b :: bs => b.pretty level ++ prettyBlocks level bs

end

/-- The pretty layout: imports, an empty line, and blocks with an empty line between them. -/
def Sheet.pretty (sheet : Sheet) : String :=
  Text.trimString <|
    importLines sheet.imports ++
      (if sheet.imports.isEmpty || sheet.blocks.isEmpty then "" else "\n") ++
      "\n".intercalate (sheet.blocks.map (Block.pretty 0))

/-! ## Minified -/

/-- Properties with a semicolon between two of them. -/
def minifiedProperties (properties : List Property) : String :=
  ";".intercalate (properties.map Property.minified)

mutual

/-- A block without white space to spare. -/
def Block.minified : Block → String
  | .rule selectors properties _ =>
    if properties.isEmpty then ""
    else ",".intercalate selectors ++ "\x7b" ++ minifiedProperties properties ++ "\x7d"
  | .atRule name params properties children _ =>
    "@" ++ name ++
      (if Text.trimString params == "" then "" else " " ++ Text.collapseString params) ++
      "\x7b" ++ minifiedProperties properties ++ minifiedBlocks children ++ "\x7d"

/-- Blocks one after the other. -/
def minifiedBlocks : List Block → String
  | [] => ""
  | b :: bs => b.minified ++ minifiedBlocks bs

end

/-- A text without the line breaks at its end. -/
def dropLineEnds (s : String) : String :=
  String.ofList (s.toList.reverse.dropWhile (· == '\n')).reverse

/-- The minified layout: imports, one a line, and blocks. -/
def Sheet.minified (sheet : Sheet) : String :=
  dropLineEnds (importLines sheet.imports ++ minifiedBlocks sheet.blocks)

/-- A stylesheet in either layout. -/
def Sheet.render (minify : Bool) (sheet : Sheet) : String :=
  if minify then sheet.minified else sheet.pretty

end LessSheet.Css
