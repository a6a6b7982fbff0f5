import LessSheet.Css.Text
import LessSheet.Expansion
import LessSheet.Grammar.Statement

/-! # Compiling a stylesheet

From source text to style sheet text: read the source, expand it, flatten the result and write it
down. Problems with single calls are collected on the way; the first error ends the compilation.
-/

namespace LessSheet

/-- How a source text is compiled. -/
structure Options where
  /-- Whether the output is minified. -/
  minify : Bool := false
  /-- How many calls may be expanded inside each other. -/
  maxDepth : Nat := 256

/-- The text of a compiled stylesheet and the problems found on the way. -/
structure Output where
  css : String
  problems : List Problem

namespace Stylesheet

/-- The name of the first property that is in no rule. -/
def stray? (nodes : List Css.Node) : Option String :=
  (nodes.findSome? Css.Node.property?).map (·.name)

/-- The expansion of a stylesheet, in the root scope. -/
def script (sheet : Stylesheet) (maxDepth : Nat) : Expand (List Css.Node) :=
  expandBlock (expandBody maxDepth maxDepth) sheet.body Arena.root

/-- The expanded style tree of a stylesheet, and the scopes and problems it leaves. -/
def expand (sheet : Stylesheet) (maxDepth : Nat) : Except Error (List Css.Node) × Progress :=
  (sheet.script maxDepth).run Progress.start

/-- The flat stylesheet that a stylesheet stands for, and the problems found on the way. -/
def evaluate (sheet : Stylesheet) (maxDepth : Nat) : Except Error (Css.Sheet × List Problem) :=
  match sheet.expand maxDepth with
  | (.error e, _) => .error e
  | (.ok nodes, progress) =>
    match stray? nodes with
    | some name => .error (.eval (.strayDeclaration name))
    | none => .ok (⟨sheet.imports, Css.blocksOf [] nodes⟩, progress.problems)

end Stylesheet

/-- Compiles a source text. -/
def compile (source : String) (options : Options := {}) : Except Error Output := do
  let sheet ← (Stylesheet.parse source).mapError Error.parse
  let (flat, problems) ← sheet.evaluate options.maxDepth
  return ⟨flat.render options.minify, problems⟩

end LessSheet
