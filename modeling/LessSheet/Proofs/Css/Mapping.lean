import LessSheet.Css.Sheet

/-! # Changing the properties of a tree

`mapPropertiesOf f` applies `f` to every property in nodes, at any depth, and leaves the rest of the
tree as it is. Whatever `f` does, flattening does not depend on it: it moves properties without
looking into them, so they may be changed before it or after it (`blocksOf_mapProperties`).

Marking nodes important is one such change (`markAllImportant_eq`), and it has nothing to do with
the comments that a call puts at them (`attachComments_markAllImportant`).
-/

namespace LessSheet.Css

mutual

/-- A node with `f` applied to every property in it. -/
def Node.mapProperties (f : Property → Property) : Node → Node
  | .property p => .property (f p)
  | .rule selectors children comments => .rule selectors (mapPropertiesOf f children) comments
  | .atRule name params children comments =>
    .atRule name params (mapPropertiesOf f children) comments

/-- Nodes with `f` applied to every property in them. -/
def mapPropertiesOf (f : Property → Property) : List Node → List Node
  | [] => []
  | n :: ns => n.mapProperties f :: mapPropertiesOf f ns

end

mutual

/-- A block with `f` applied to every property in it. -/
def Block.mapProperties (f : Property → Property) : Block → Block
  | .rule selectors properties comments => .rule selectors (properties.map f) comments
  | .atRule name params properties children comments =>
    .atRule name params (properties.map f) (Block.mapPropertiesOf f children) comments

/-- Blocks with `f` applied to every property in them. -/
def Block.mapPropertiesOf (f : Property → Property) : List Block → List Block
  | [] => []
  | b :: bs => b.mapProperties f :: Block.mapPropertiesOf f bs

end

section
variable {f : Property → Property}

/-! ## Comments -/

/-- A property with other comments. -/
def Property.mapComments (h : Comments → Comments) (p : Property) : Property :=
  { p with comments := h p.comments }

/-- The comments of a node and its properties may be changed in any order, if those of the
properties may. -/
theorem Node.mapComments_mapProperties (hf : ∀ h p, f (p.mapComments h) = (f p).mapComments h)
    (h : Comments → Comments) (n : Node) :
    (n.mapProperties f).mapComments h = (n.mapComments h).mapProperties f := by
  cases n with
  | property p => exact congrArg Node.property (hf h p).symm
  | rule _ _ _ | atRule _ _ _ _ => rfl

/-- Changing the properties of all nodes commutes with what changes the first node and commutes with
it there. -/
theorem mapPropertiesOf_modifyHead {h : Node → Node}
    (hf : ∀ n, h (n.mapProperties f) = (h n).mapProperties f) (ns : List Node) :
    (mapPropertiesOf f ns).modifyHead h = mapPropertiesOf f (ns.modifyHead h) := by
  cases ns with
  | nil => rfl
  | cons n ns => simp only [mapPropertiesOf, List.modifyHead_cons, hf]

/-- Changing the properties of all nodes commutes with what changes the last node and commutes with
it there. -/
theorem mapPropertiesOf_modifyLast {h : Node → Node}
    (hf : ∀ n, h (n.mapProperties f) = (h n).mapProperties f) : ∀ ns : List Node,
    modifyLast h (mapPropertiesOf f ns) = mapPropertiesOf f (modifyLast h ns)
  | [] => rfl
  | [n] => by simp only [mapPropertiesOf, modifyLast, hf]
  | n :: m :: ns => by
    have hrest := mapPropertiesOf_modifyLast hf (m :: ns)
    simp only [mapPropertiesOf, modifyLast] at hrest ⊢
    rw [hrest]

/-- The comments of a call go to the same places whatever becomes of the properties. -/
theorem attachComments_mapProperties
    (hf : ∀ h p, f (p.mapComments h) = (f p).mapComments h) (comments : Comments) (ns : List Node) :
    attachComments comments (mapPropertiesOf f ns) =
      mapPropertiesOf f (attachComments comments ns) := by
  have hlead := mapPropertiesOf_modifyHead (h := Node.lead comments.leading)
    (Node.mapComments_mapProperties hf _) ns
  have htrail := mapPropertiesOf_modifyLast (h := Node.trail comments.trailing)
    (Node.mapComments_mapProperties hf _)
  rw [attachComments, hlead, htrail, attachComments]

/-! ## Flattening -/

/-- Changing the properties of two lists of blocks. -/
theorem Block.mapPropertiesOf_append (bs cs : List Block) : Block.mapPropertiesOf f (bs ++ cs) =
    Block.mapPropertiesOf f bs ++ Block.mapPropertiesOf f cs := by
  induction bs with
  | nil => rfl
  | cons b bs ih => rw [List.cons_append, Block.mapPropertiesOf, ih, Block.mapPropertiesOf,
      List.cons_append]

/-- Changed nodes are properties where they were. -/
theorem properties_mapProperties (ns : List Node) :
    properties (mapPropertiesOf f ns) = (properties ns).map f := by
  induction ns with
  | nil => rfl
  | cons n ns ih =>
    rw [mapPropertiesOf]
    cases n with
    | property p => exact congrArg (f p :: ·) ih
    | rule _ _ _ | atRule _ _ _ _ => exact ih

/-- The rule of changed properties is the rule with its properties changed. -/
theorem ruleOf_mapProperties (selectors : List String) (ps : List Property) (comments : Comments) :
    ruleOf selectors (ps.map f) comments =
      Block.mapPropertiesOf f (ruleOf selectors ps comments) := by
  cases ps <;> rfl

mutual

/-- Flattening commutes with changing properties, by recursion on the node. -/
theorem Node.blocks_mapProperties (parents : List String) : ∀ n : Node,
    (n.mapProperties f).blocks parents = Block.mapPropertiesOf f (n.blocks parents)
  | .property _ => rfl
  | .rule selectors children comments => by
    rw [Node.mapProperties, Node.blocks, properties_mapProperties, ruleOf_mapProperties,
      blocksOf_mapProperties _ children, ← Block.mapPropertiesOf_append, Node.blocks]
  | .atRule name params children comments => by
    rw [Node.mapProperties, Node.blocks, properties_mapProperties, ruleOf_mapProperties,
      blocksOf_mapProperties _ children, ← Block.mapPropertiesOf_append, Node.blocks]
    split <;> rfl

/-- Properties may be changed before flattening or after it. -/
theorem blocksOf_mapProperties (parents : List String) : ∀ ns : List Node,
    blocksOf parents (mapPropertiesOf f ns) = Block.mapPropertiesOf f (blocksOf parents ns)
  | [] => rfl
  | n :: ns => by
    rw [mapPropertiesOf, blocksOf, Node.blocks_mapProperties parents n,
      blocksOf_mapProperties parents ns, ← Block.mapPropertiesOf_append, blocksOf]

end

end

/-! ## Marks -/

/-- A property that is important. -/
def Property.marked (p : Property) : Property := { p with important := true }

mutual

/-- Marking a node is marking every property in it. -/
theorem Node.markImportant_eq : ∀ n : Node, n.markImportant = n.mapProperties Property.marked
  | .property _ => rfl
  | .rule selectors children comments =>
    congrArg (Node.rule selectors · comments) (markAllImportant_eq children)
  | .atRule name params children comments =>
    congrArg (Node.atRule name params · comments) (markAllImportant_eq children)

/-- Marking nodes changes every property in them and nothing else. -/
theorem markAllImportant_eq : ∀ ns : List Node,
    Node.markAllImportant ns = mapPropertiesOf Property.marked ns
  | [] => rfl
  | n :: ns => by
    rw [Node.markAllImportant, Node.markImportant_eq n, markAllImportant_eq ns, mapPropertiesOf]

end

/-- A mark is no comment. -/
theorem attachComments_markAllImportant (comments : Comments) (ns : List Node) :
    attachComments comments (Node.markAllImportant ns) =
      mapPropertiesOf Property.marked (attachComments comments ns) := by
  rw [markAllImportant_eq]
  exact attachComments_mapProperties (fun _ _ => rfl) comments ns

end LessSheet.Css
