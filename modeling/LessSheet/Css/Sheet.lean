import LessSheet.Css.Node
import LessSheet.Text.Trim

/-! # Flat stylesheets

A flat stylesheet has no rules inside rules. `Node.blocks` flattens a style tree: the selectors of
nested rules are combined with those around them, the properties of a rule come before the rules
nested in it, and an at-rule inside a rule takes that rule's selectors in.
-/

namespace LessSheet.Css

/-- A rule without rules inside it, or an at-rule around such blocks. -/
inductive Block where
  | rule (selectors : List String) (properties : List Property) (comments : Comments)
  | atRule (name params : String) (properties : List Property) (children : List Block)
      (comments : Comments)

/-- A stylesheet ready to be written. -/
structure Sheet where
  imports : List String
  blocks : List Block

/-- The text with each `&` replaced by `parent`. -/
def replaceParent (parent selector : List Char) : List Char :=
  selector.flatMap fun c => if c = '&' then parent else [c]

/-- A nested selector under one of the selectors around it: in place of each `&`, or as a
descendant if there is no `&`. -/
def combine (parent child : String) : String :=
  if child.toList.contains '&' then
    String.ofList (Text.trim (replaceParent parent.toList child.toList))
  else Text.trimString parent ++ " " ++ Text.trimString child

/-- The selectors of a nested rule: each under each selector around it. -/
def combineAll (parents selectors : List String) : List String :=
  if parents.isEmpty then selectors
  else parents.flatMap fun parent => selectors.map (combine parent)

/-- The property of a node, if it is one. -/
def Node.property? : Node → Option Property
  | .property p => some p
  | _ => none

/-- The properties among nodes. -/
def properties (nodes : List Node) : List Property := nodes.filterMap Node.property?

/-- A rule with these properties, if there are any. -/
def ruleOf (selectors : List String) (properties : List Property) (comments : Comments) :
    List Block :=
  if properties.isEmpty then [] else [.rule selectors properties comments]

mutual

/-- The blocks of a node under the selectors around it. Properties are not blocks of their own: the
node around them takes them. -/
def Node.blocks (parents : List String) : Node → List Block
  | .property _ => []
  | .rule selectors children comments =>
    let own := combineAll parents selectors
    ruleOf own (properties children) comments ++ blocksOf own children
  | .atRule name params children comments =>
    if parents.isEmpty then
      [.atRule name params (properties children) (blocksOf parents children) comments]
    else
      [.atRule name params [] (ruleOf parents (properties children) {} ++ blocksOf parents children)
        comments]

/-- The blocks of several nodes, in order. -/
def blocksOf (parents : List String) : List Node → List Block
  | [] => []
  | n :: ns => n.blocks parents ++ blocksOf parents ns

end

end LessSheet.Css
