import LessSheet.Css.Sheet
import Mathlib.Data.List.Perm.Basic

/-! # Flattening keeps every property in its place

A property of a style tree stands under at-rules and under the combined selectors of the rules
around it. `placedOf` reads that off the blocks of a flat stylesheet, and `occurrencesOf` off the
tree, where each property is also known by its place: the node it is a child of and its number
there.

Flattening loses no property, adds none and puts none elsewhere (`blocksOf_placed`). It only moves
properties in front of what is nested beside them, so the properties of one node stay in order. The
rules that come out have selectors and properties.
-/

namespace LessSheet.Css

/-! ## Properties in a tree -/

/-- What stands around something in a style tree. -/
inductive Frame where
  | rule (selectors : List String)
  | atRule (name params : String)

/-- The selectors of a rule. -/
def Frame.selectors? : Frame → Option (List String)
  | .rule selectors => some selectors
  | .atRule _ _ => none

/-- The name and the parameters of an at-rule. -/
def Frame.atRule? : Frame → Option (String × String)
  | .rule _ => none
  | .atRule name params => some (name, params)

/-- The selectors inside frames, which are given from the outside in: those of each rule under those
of the rules around it. -/
def selectorsIn (frames : List Frame) : List String :=
  (frames.filterMap Frame.selectors?).foldl combineAll []

/-- The at-rules among frames. -/
def atRulesIn (frames : List Frame) : List (String × String) := frames.filterMap Frame.atRule?

/-- A property with the at-rules around it, from the outside in, and its selectors. -/
abbrev Placed := List (String × String) × List String × Property

/-- A property as it occurs in a tree: the place of the node it is a child of, as child numbers from
the top; its own number among the children of that node; and the frames around it. -/
structure Occurrence where
  parent : List Nat
  index : Nat
  frames : List Frame
  property : Property

/-- What an occurrence comes to in a flat stylesheet. -/
def Occurrence.placed (x : Occurrence) : Placed :=
  (atRulesIn x.frames, selectorsIn x.frames, x.property)

mutual

/-- The properties in a node that is child number `index` of the node at `parent`. -/
def Node.occurrences (frames : List Frame) (parent : List Nat) (index : Nat) :
    Node → List Occurrence
  | .property p => [⟨parent, index, frames, p⟩]
  | .rule selectors children _ =>
    occurrencesOf (frames ++ [.rule selectors]) (parent ++ [index]) 0 children
  | .atRule name params children _ =>
    occurrencesOf (frames ++ [.atRule name params]) (parent ++ [index]) 0 children

/-- The properties in the children of the node at `parent`, from child number `index` on. -/
def occurrencesOf (frames : List Frame) (parent : List Nat) (index : Nat) :
    List Node → List Occurrence
  | [] => []
  | n :: ns => n.occurrences frames parent index ++ occurrencesOf frames parent (index + 1) ns

end

mutual

/-- Whether every rule in a node has a selector. -/
def Node.HasSelectors : Node → Prop
  | .property _ => True
  | .rule selectors children _ => selectors ≠ [] ∧ HaveSelectors children
  | .atRule _ _ children _ => HaveSelectors children

/-- Whether every rule in several nodes has a selector. -/
def HaveSelectors : List Node → Prop
  | [] => True
  | n :: ns => n.HasSelectors ∧ HaveSelectors ns

end

/-! ## Properties in blocks -/

mutual

/-- The properties in a block that stands under at-rules. -/
def Block.placed (around : List (String × String)) : Block → List Placed
  | .rule selectors properties _ => properties.map fun p => (around, selectors, p)
  | .atRule name params properties children _ =>
    properties.map (fun p => (around ++ [(name, params)], [], p)) ++
      placedOf (around ++ [(name, params)]) children

/-- The properties in several blocks, in order. -/
def placedOf (around : List (String × String)) : List Block → List Placed
  | [] => []
  | b :: bs => b.placed around ++ placedOf around bs

end

mutual

/-- The rules in a block, at any depth: their selectors and properties. -/
def Block.rules : Block → List (List String × List Property)
  | .rule selectors properties _ => [(selectors, properties)]
  | .atRule _ _ _ children _ => rulesOf children

/-- The rules in several blocks. -/
def rulesOf : List Block → List (List String × List Property)
  | [] => []
  | b :: bs => b.rules ++ rulesOf bs

end

@[simp] theorem placedOf_append (around : List (String × String)) (bs cs : List Block) :
    placedOf around (bs ++ cs) = placedOf around bs ++ placedOf around cs := by
  induction bs with
  | nil => rfl
  | cons b bs ih => rw [List.cons_append, placedOf, ih, placedOf, List.append_assoc]

@[simp] theorem rulesOf_append (bs cs : List Block) :
    rulesOf (bs ++ cs) = rulesOf bs ++ rulesOf cs := by
  induction bs with
  | nil => rfl
  | cons b bs ih => rw [List.cons_append, rulesOf, ih, rulesOf, List.append_assoc]

@[simp] theorem placedOf_singleton (around : List (String × String)) (b : Block) :
    placedOf around [b] = b.placed around := List.append_nil _

@[simp] theorem rulesOf_singleton (b : Block) : rulesOf [b] = b.rules := List.append_nil _

/-- A rule that is left out for want of properties is missed by none. -/
@[simp] theorem placedOf_ruleOf (around : List (String × String)) (selectors : List String)
    (properties : List Property) (comments : Comments) :
    placedOf around (ruleOf selectors properties comments) =
      properties.map fun p => (around, selectors, p) := by
  cases properties with
  | nil => rfl
  | cons p ps => exact placedOf_singleton _ _

/-- A rule is put down only with properties. -/
theorem rulesOf_ruleOf {selectors : List String} {properties : List Property}
    {comments : Comments} {r : List String × List Property}
    (hr : r ∈ rulesOf (ruleOf selectors properties comments)) :
    r = (selectors, properties) ∧ properties ≠ [] := by
  cases properties with
  | nil => cases hr
  | cons p ps => exact ⟨List.mem_singleton.1 hr, List.cons_ne_nil _ _⟩

/-! ## Frames -/

@[simp] theorem selectorsIn_rule (frames : List Frame) (selectors : List String) :
    selectorsIn (frames ++ [.rule selectors]) = combineAll (selectorsIn frames) selectors := by
  rw [selectorsIn, List.filterMap_append, List.foldl_append]
  rfl

@[simp] theorem selectorsIn_atRule (frames : List Frame) (name params : String) :
    selectorsIn (frames ++ [.atRule name params]) = selectorsIn frames := by
  rw [selectorsIn, List.filterMap_append, List.foldl_append]
  rfl

@[simp] theorem atRulesIn_rule (frames : List Frame) (selectors : List String) :
    atRulesIn (frames ++ [.rule selectors]) = atRulesIn frames := by
  simp [atRulesIn, Frame.atRule?]

@[simp] theorem atRulesIn_atRule (frames : List Frame) (name params : String) :
    atRulesIn (frames ++ [.atRule name params]) = atRulesIn frames ++ [(name, params)] := by
  simp [atRulesIn, Frame.atRule?]

/-- Selectors under selectors are selectors. -/
theorem combineAll_ne_nil (parents : List String) {selectors : List String}
    (h : selectors ≠ []) : combineAll parents selectors ≠ [] := by
  obtain ⟨s, ss, rfl⟩ := List.exists_cons_of_ne_nil h
  cases parents with
  | nil => exact h
  | cons parent parents => exact List.cons_ne_nil _ _

/-! ## The order of a flat stylesheet -/

/-- The properties among the children of the node at `parent`, from child number `index` on. -/
def own (frames : List Frame) (parent : List Nat) (index : Nat) : List Node → List Occurrence
  | [] => []
  | .property p :: ns => ⟨parent, index, frames, p⟩ :: own frames parent (index + 1) ns
  | _ :: ns => own frames parent (index + 1) ns

mutual

/-- The properties inside a node in the order of a flat stylesheet: those that are its children come
before those nested deeper. -/
def Node.nested (frames : List Frame) (parent : List Nat) (index : Nat) : Node → List Occurrence
  | .property _ => []
  | .rule selectors children _ =>
    own (frames ++ [.rule selectors]) (parent ++ [index]) 0 children ++
      nestedOf (frames ++ [.rule selectors]) (parent ++ [index]) 0 children
  | .atRule name params children _ =>
    own (frames ++ [.atRule name params]) (parent ++ [index]) 0 children ++
      nestedOf (frames ++ [.atRule name params]) (parent ++ [index]) 0 children

/-- The properties inside the children of the node at `parent`, from child number `index` on. -/
def nestedOf (frames : List Frame) (parent : List Nat) (index : Nat) : List Node → List Occurrence
  | [] => []
  | n :: ns => n.nested frames parent index ++ nestedOf frames parent (index + 1) ns

end

/-- The properties among nodes, with what they come to. -/
theorem map_placed_own (frames : List Frame) (parent : List Nat) (index : Nat)
    (nodes : List Node) :
    (own frames parent index nodes).map Occurrence.placed =
      (properties nodes).map fun p => (atRulesIn frames, selectorsIn frames, p) := by
  induction nodes generalizing index with
  | nil => rfl
  | cons n ns ih =>
    cases n with
    | property p => exact congrArg ((atRulesIn frames, selectorsIn frames, p) :: ·) (ih _)
    | rule _ _ _ | atRule _ _ _ _ => exact ih _

mutual

/-- The blocks of a node have the properties inside the node, in the order of a flat stylesheet. -/
theorem Node.placedOf_blocks (frames : List Frame) (parent : List Nat) (index : Nat) :
    ∀ n : Node, placedOf (atRulesIn frames) (n.blocks (selectorsIn frames)) =
      (n.nested frames parent index).map Occurrence.placed
  | .property _ => rfl
  | .rule selectors children comments => by
    have inside := placedOf_blocksOf (frames ++ [.rule selectors]) (parent ++ [index]) 0 children
    rw [selectorsIn_rule, atRulesIn_rule] at inside
    simp only [Node.blocks, Node.nested, placedOf_append, placedOf_ruleOf, List.map_append,
      map_placed_own, selectorsIn_rule, atRulesIn_rule, inside]
  | .atRule name params children comments => by
    have inside :=
      placedOf_blocksOf (frames ++ [.atRule name params]) (parent ++ [index]) 0 children
    rw [selectorsIn_atRule, atRulesIn_atRule] at inside
    rw [Node.blocks, Node.nested, List.map_append, map_placed_own, selectorsIn_atRule,
      atRulesIn_atRule]
    -- without selectors around it, an at-rule keeps its properties itself
    split
    · next hempty =>
      have hnil : selectorsIn frames = [] := List.isEmpty_iff.1 hempty
      rw [placedOf_singleton, Block.placed, inside, hnil]
    · rw [placedOf_singleton, Block.placed, placedOf_append, placedOf_ruleOf, inside]
      rfl

/-- Flat blocks have the properties of the nodes, in the order of the nested ones, with their
at-rules and selectors. -/
theorem placedOf_blocksOf (frames : List Frame) (parent : List Nat) (index : Nat) :
    ∀ nodes : List Node, placedOf (atRulesIn frames) (blocksOf (selectorsIn frames) nodes) =
      (nestedOf frames parent index nodes).map Occurrence.placed
  | [] => rfl
  | n :: ns => by
    rw [blocksOf, placedOf_append, Node.placedOf_blocks frames parent index n,
      placedOf_blocksOf frames parent (index + 1) ns, nestedOf, List.map_append]

end

mutual

/-- The order of a flat stylesheet is a rearrangement of the tree's. -/
theorem Node.nested_perm (frames : List Frame) (parent : List Nat) (index : Nat) :
    ∀ n : Node, (own frames parent index [n] ++ n.nested frames parent index).Perm
      (n.occurrences frames parent index)
  | .property _ => .refl _
  | .rule selectors children _ =>
    own_append_nestedOf_perm (frames ++ [.rule selectors]) (parent ++ [index]) 0 children
  | .atRule name params children _ =>
    own_append_nestedOf_perm (frames ++ [.atRule name params]) (parent ++ [index]) 0 children

/-- The properties of the children and those nested deeper are all properties in the tree. -/
theorem own_append_nestedOf_perm (frames : List Frame) (parent : List Nat) (index : Nat) :
    ∀ nodes : List Node, (own frames parent index nodes ++ nestedOf frames parent index nodes).Perm
      (occurrencesOf frames parent index nodes)
  | [] => .refl _
  | n :: ns => by
    have hcons : own frames parent index (n :: ns) =
        own frames parent index [n] ++ own frames parent (index + 1) ns := by
      cases n <;> rfl
    have hswap : (own frames parent index [n] ++ own frames parent (index + 1) ns ++
          (n.nested frames parent index ++ nestedOf frames parent (index + 1) ns)).Perm
        ((own frames parent index [n] ++ n.nested frames parent index) ++
          (own frames parent (index + 1) ns ++ nestedOf frames parent (index + 1) ns)) := by
      simp only [List.append_assoc]
      exact (List.perm_append_comm_assoc _ _ _).append_left _
    rw [hcons, nestedOf, occurrencesOf]
    exact hswap.trans ((Node.nested_perm frames parent index n).append
      (own_append_nestedOf_perm frames parent (index + 1) ns))

end

/-! ## Properties of one node stay in order -/

/-- One occurrence comes before another of the same node only if its number is smaller. -/
def InOrder (x y : Occurrence) : Prop := x.parent = y.parent → x.index < y.index

/-- The properties among the children have the node for their parent, and numbers from the first
on. -/
theorem mem_own {frames : List Frame} {parent : List Nat} {index : Nat} {nodes : List Node}
    {x : Occurrence} (hx : x ∈ own frames parent index nodes) :
    x.parent = parent ∧ index ≤ x.index := by
  induction nodes generalizing index with
  | nil => cases hx
  | cons n ns ih =>
    have later (h : x ∈ own frames parent (index + 1) ns) : x.parent = parent ∧ index ≤ x.index :=
      ⟨(ih h).1, Nat.le_of_succ_le (ih h).2⟩
    cases n with
    | property p =>
      rcases List.mem_cons.1 hx with rfl | hx
      · exact ⟨rfl, Nat.le_refl _⟩
      · exact later hx
    | rule _ _ _ | atRule _ _ _ _ => exact later hx

/-- The properties among the children are in the order of their numbers. -/
theorem pairwise_own (frames : List Frame) (parent : List Nat) (index : Nat) (nodes : List Node) :
    (own frames parent index nodes).Pairwise InOrder := by
  induction nodes generalizing index with
  | nil => exact .nil
  | cons n ns ih =>
    cases n with
    | property p => exact List.pairwise_cons.2 ⟨fun y hy _ => (mem_own hy).2, ih _⟩
    | rule _ _ _ | atRule _ _ _ _ => exact ih _

mutual

/-- What is inside a node is at places below it. -/
theorem Node.mem_nested {frames : List Frame} {parent : List Nat} {index : Nat} {x : Occurrence} :
    ∀ {n : Node}, x ∈ n.nested frames parent index → parent ++ [index] <+: x.parent
  | .property _, hx => nomatch hx
  | .rule _ _ _, hx | .atRule _ _ _ _, hx => by
    rcases List.mem_append.1 hx with hx | hx
    · exact (mem_own hx).1 ▸ List.prefix_rfl
    · obtain ⟨i, -, hi⟩ := mem_nestedOf hx
      exact (List.prefix_append _ _).trans hi

/-- What is nested deeper stands under one of the children. -/
theorem mem_nestedOf {frames : List Frame} {parent : List Nat} {index : Nat} {x : Occurrence} :
    ∀ {nodes : List Node}, x ∈ nestedOf frames parent index nodes →
      ∃ i, index ≤ i ∧ parent ++ [i] <+: x.parent
  | [], hx => nomatch hx
  | n :: ns, hx => by
    rcases List.mem_append.1 hx with hx | hx
    · exact ⟨index, Nat.le_refl _, Node.mem_nested hx⟩
    · obtain ⟨i, hi, hx⟩ := mem_nestedOf hx
      exact ⟨i, Nat.le_of_succ_le hi, hx⟩

end

/-- Places below different children of a node are different. -/
theorem child_unique {parent place : List Nat} {i j : Nat} (hi : parent ++ [i] <+: place)
    (hj : parent ++ [j] <+: place) : i = j := by
  obtain ⟨rest, rfl⟩ := hi
  rw [List.append_assoc, List.prefix_append_right_inj] at hj
  exact (List.cons_prefix_cons.1 hj).1.symm

/-- A node is not at a place below it. -/
theorem child_ne {parent : List Nat} {i : Nat} : ¬ parent ++ [i] <+: parent := by
  intro h
  have hle := h.length_le
  rw [List.length_append, List.length_singleton] at hle
  omega

/-- The properties that are children of a node, and then those nested deeper. -/
theorem pairwise_own_append {frames : List Frame} {parent : List Nat} {index : Nat}
    {nodes : List Node} (h : (nestedOf frames parent index nodes).Pairwise InOrder) :
    (own frames parent index nodes ++ nestedOf frames parent index nodes).Pairwise InOrder := by
  refine List.pairwise_append.2 ⟨pairwise_own _ _ _ _, h, fun x hx y hy hxy => ?_⟩
  obtain ⟨i, -, hi⟩ := mem_nestedOf hy
  rw [← hxy, (mem_own hx).1] at hi
  exact absurd hi child_ne

mutual

/-- Inside a node properties of one parent are in order. -/
theorem Node.pairwise_nested (frames : List Frame) (parent : List Nat) (index : Nat) :
    ∀ n : Node, (n.nested frames parent index).Pairwise InOrder
  | .property _ => .nil
  | .rule _ _ _ => pairwise_own_append (pairwise_nestedOf _ _ _ _)
  | .atRule _ _ _ _ => pairwise_own_append (pairwise_nestedOf _ _ _ _)

/-- Inside nodes properties of one parent are in order, for different children have none in
common. -/
theorem pairwise_nestedOf (frames : List Frame) (parent : List Nat) (index : Nat) :
    ∀ nodes : List Node, (nestedOf frames parent index nodes).Pairwise InOrder
  | [] => .nil
  | n :: ns => by
    refine List.pairwise_append.2 ⟨Node.pairwise_nested _ _ _ n, pairwise_nestedOf _ _ _ ns,
      fun x hx y hy hxy => ?_⟩
    obtain ⟨i, hindex, hi⟩ := mem_nestedOf hy
    have hx' := Node.mem_nested hx
    rw [hxy] at hx'
    have := child_unique hx' hi
    omega

end

/-! ## Rules are not empty -/

mutual

/-- Under selectors or none, the rules that a node comes to have selectors and properties. -/
theorem Node.rules_filled {parents : List String} {r : List String × List Property} :
    ∀ {n : Node}, n.HasSelectors → r ∈ rulesOf (n.blocks parents) → r.1 ≠ [] ∧ r.2 ≠ []
  | .property _, _, hr => nomatch hr
  | .rule selectors children _, ⟨hsel, hchildren⟩, hr => by
    rw [Node.blocks, rulesOf_append] at hr
    rcases List.mem_append.1 hr with hr | hr
    · obtain ⟨rfl, hprops⟩ := rulesOf_ruleOf hr
      exact ⟨combineAll_ne_nil parents hsel, hprops⟩
    · exact rulesOf_filled hchildren hr
  | .atRule name params children _, hchildren, hr => by
    rw [Node.blocks] at hr
    split at hr
    · rw [rulesOf_singleton, Block.rules] at hr
      exact rulesOf_filled hchildren hr
    · next hne =>
      rw [rulesOf_singleton, Block.rules, rulesOf_append] at hr
      rcases List.mem_append.1 hr with hr | hr
      · obtain ⟨rfl, hprops⟩ := rulesOf_ruleOf hr
        exact ⟨fun h => hne (List.isEmpty_iff.2 h), hprops⟩
      · exact rulesOf_filled hchildren hr

/-- No rule of a flat stylesheet lacks selectors or properties. -/
theorem rulesOf_filled {parents : List String} {r : List String × List Property} :
    ∀ {nodes : List Node}, HaveSelectors nodes → r ∈ rulesOf (blocksOf parents nodes) →
      r.1 ≠ [] ∧ r.2 ≠ []
  | [], _, hr => nomatch hr
  | n :: ns, ⟨hn, hns⟩, hr => by
    rw [blocksOf, rulesOf_append] at hr
    rcases List.mem_append.1 hr with hr | hr
    · exact Node.rules_filled hn hr
    · exact rulesOf_filled hns hr

end

/-- No property is a child of the top if none is among the nodes there. -/
theorem own_eq_nil {frames : List Frame} {parent : List Nat} {index : Nat} {nodes : List Node}
    (h : ∀ p, Node.property p ∉ nodes) : own frames parent index nodes = [] := by
  induction nodes generalizing index with
  | nil => rfl
  | cons n ns ih =>
    have hns : ∀ p, Node.property p ∉ ns := fun p hp => h p (.tail _ hp)
    cases n with
    | property p => exact absurd (.head _) (h p)
    | rule _ _ _ | atRule _ _ _ _ => exact ih hns

/-- A tree whose rules have selectors, without properties at its top, is flattened to blocks with
the same properties in the same places: each as often as in the tree, under the same at-rules and
under the selectors of the rules around it, combined from the outside in. The blocks have them in
the order `arranged`, in which the properties that are children of the same node follow each other
as they do there. Every rule among the blocks, at any depth, has selectors and properties. -/
theorem blocksOf_placed (nodes : List Node) (hsel : HaveSelectors nodes)
    (htop : ∀ p, Node.property p ∉ nodes) :
    (placedOf [] (blocksOf [] nodes)).Perm
      ((occurrencesOf [] [] 0 nodes).map Occurrence.placed) ∧
    (∃ arranged : List Occurrence, arranged.Perm (occurrencesOf [] [] 0 nodes) ∧
      placedOf [] (blocksOf [] nodes) = arranged.map Occurrence.placed ∧
      arranged.Pairwise fun x y => x.parent = y.parent → x.index < y.index) ∧
    ∀ r ∈ rulesOf (blocksOf [] nodes), r.1 ≠ [] ∧ r.2 ≠ [] := by
  have hperm := own_append_nestedOf_perm [] [] 0 nodes
  rw [own_eq_nil htop, List.nil_append] at hperm
  have hplaced : placedOf [] (blocksOf [] nodes) =
      (nestedOf [] [] 0 nodes).map Occurrence.placed := placedOf_blocksOf [] [] 0 nodes
  refine ⟨?_, ⟨nestedOf [] [] 0 nodes, hperm, hplaced, pairwise_nestedOf [] [] 0 nodes⟩,
    fun r hr => rulesOf_filled hsel hr⟩
  rw [hplaced]
  exact hperm.map _

/-- A rule with a property between a nested rule and an at-rule that have one each. -/
theorem blocksOf_placed_nested :
    let tree : List Node := [.rule [".a", ".b"] [
      .rule ["&:hover"] [.property ⟨"top", "0", false, {}⟩] {},
      .property ⟨"left", "1", false, {}⟩,
      .atRule "media" "print" [.property ⟨"right", "2", false, {}⟩] {}] {}]
    HaveSelectors tree ∧
    ([([], [".a", ".b"], ⟨"left", "1", false, {}⟩),
      ([], [".a:hover", ".b:hover"], ⟨"top", "0", false, {}⟩),
      ([("media", "print")], [".a", ".b"], ⟨"right", "2", false, {}⟩)] : List Placed).Perm
        ((occurrencesOf [] [] 0 tree).map Occurrence.placed) := by
  intro tree
  have hsel : HaveSelectors tree := by simp [tree, HaveSelectors, Node.HasSelectors]
  have h := (blocksOf_placed tree hsel fun p => by simp [tree]).1
  exact ⟨hsel, h⟩

end LessSheet.Css
