import LessSheet.Stylesheet

/-! # Style trees

The result of expanding a stylesheet, before selectors are combined: properties with their final
texts, under rules and at-rules that may still nest. The selectors of a rule are relative to the
rules around it.
-/

namespace LessSheet.Css

/-- A property with the text of its value. -/
structure Property where
  name : String
  value : String
  important : Bool := false
  comments : Comments := {}
deriving DecidableEq, Repr, Inhabited

/-- A node of a style tree. -/
inductive Node where
  | property (property : Property)
  | rule (selectors : List String) (children : List Node) (comments : Comments)
  | atRule (name params : String) (children : List Node) (comments : Comments)

namespace Node

mutual

/-- A node with every property in it marked important. -/
def markImportant : Node → Node
  | .property p => .property { p with important := true }
  | .rule selectors children comments => .rule selectors (markAllImportant children) comments
  | .atRule name params children comments =>
    .atRule name params (markAllImportant children) comments

/-- Nodes with every property in them marked important. -/
def markAllImportant : List Node → List Node
  | [] => []
  | n :: ns => n.markImportant :: markAllImportant ns

end

/-- Changes the comments of a node. -/
def mapComments (f : Comments → Comments) : Node → Node
  | .property p => .property { p with comments := f p.comments }
  | .rule selectors children comments => .rule selectors children (f comments)
  | .atRule name params children comments => .atRule name params children (f comments)

/-- Puts comments before those that lead a node. -/
def lead (comments : List String) : Node → Node :=
  mapComments fun c => { c with leading := comments ++ c.leading }

/-- Puts comments after those that trail a node. -/
def trail (comments : List String) : Node → Node :=
  mapComments fun c => { c with trailing := c.trailing ++ comments }

end Node

/-- Changes the last item of a list. -/
def modifyLast {α : Type} (f : α → α) : List α → List α
  | [] => []
  | [a] => [f a]
  | a :: b :: rest => a :: modifyLast f (b :: rest)

/-- The comments of a call move to what it expands to: those before it to the first node, those
after it to the last. -/
def attachComments (comments : Comments) (nodes : List Node) : List Node :=
  modifyLast (Node.trail comments.trailing) (nodes.modifyHead (Node.lead comments.leading))

end LessSheet.Css
