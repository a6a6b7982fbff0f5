import LessSheet.Proofs.Css.Comments
import LessSheet.Proofs.Css.Flattening

/-! # What a call does to the properties of its expansion

A call moves its comments to the first and the last node of its expansion, and an important call
marks every property in it. Neither changes the value of a property (`valuesOf_attachComments`,
`valuesOf_markAllImportant`), so the values of nodes are among the values of every tree they stand
in (`StandsIn.values`). A property that is marked stays as it is but for its comments
(`StandsIn.declared`), down to the flat stylesheet (`flatOf_perm`).
-/

namespace LessSheet.Css

@[simp] theorem declaredOf_append (ns ms : List Node) :
    declaredOf (ns ++ ms) = declaredOf ns ++ declaredOf ms := by
  induction ns with
  | nil => rfl
  | cons n ns ih => rw [List.cons_append, declaredOf, ih, declaredOf, List.append_assoc]

/-- The values of the properties in nodes, at any depth. -/
def valuesOf (nodes : List Node) : List String := (declaredOf nodes).map Property.value

@[simp] theorem valuesOf_append (ns ms : List Node) :
    valuesOf (ns ++ ms) = valuesOf ns ++ valuesOf ms := by
  rw [valuesOf, declaredOf_append, List.map_append, valuesOf, valuesOf]

@[simp] theorem valuesOf_rule (selectors : List String) (children : List Node)
    (comments : Comments) : valuesOf [.rule selectors children comments] = valuesOf children := by
  rw [valuesOf, declaredOf, Node.declared, declaredOf, List.append_nil, valuesOf]

@[simp] theorem valuesOf_atRule (name params : String) (children : List Node)
    (comments : Comments) :
    valuesOf [.atRule name params children comments] = valuesOf children := by
  rw [valuesOf, declaredOf, Node.declared, declaredOf, List.append_nil, valuesOf]

/-! ## Comments -/

section
variable {α : Type} {f : Property → α}

/-- What of a property does not depend on its comments. -/
theorem Node.declared_mapComments (hf : ∀ p comments, f { p with comments := comments } = f p)
    (g : Comments → Comments) (n : Node) : (n.mapComments g).declared.map f = n.declared.map f := by
  cases n with
  | property p => exact congrArg ([·]) (hf p _)
  | rule _ _ _ | atRule _ _ _ _ => rfl

/-- Changing the first node in a way that shows in none of its properties shows in none at all. -/
theorem declaredOf_modifyHead {g : Node → Node}
    (hg : ∀ n, (g n).declared.map f = n.declared.map f) (ns : List Node) :
    (declaredOf (ns.modifyHead g)).map f = (declaredOf ns).map f := by
  cases ns with
  | nil => rfl
  | cons n ns => simp only [List.modifyHead_cons, declaredOf, List.map_append, hg]

/-- Changing the last node in such a way shows in no properties. -/
theorem declaredOf_modifyLast {g : Node → Node}
    (hg : ∀ n, (g n).declared.map f = n.declared.map f) : ∀ ns : List Node,
    (declaredOf (modifyLast g ns)).map f = (declaredOf ns).map f
  | [] => rfl
  | [n] => by simp only [modifyLast, declaredOf, List.map_append, hg]
  | n :: m :: ns => by
    simp only [modifyLast, declaredOf, List.map_append]
    have ih := declaredOf_modifyLast hg (m :: ns)
    rw [ih]
    simp only [declaredOf, List.map_append]

/-- Attaching comments changes nothing but comments. -/
theorem declaredOf_attachComments (hf : ∀ p comments, f { p with comments := comments } = f p)
    (comments : Comments) (nodes : List Node) :
    (declaredOf (attachComments comments nodes)).map f = (declaredOf nodes).map f := by
  have htrail := declaredOf_modifyLast (g := Node.trail comments.trailing)
    (Node.declared_mapComments hf _)
  have hlead := declaredOf_modifyHead (g := Node.lead comments.leading)
    (Node.declared_mapComments hf _)
  rw [attachComments, htrail, hlead]

end

@[simp] theorem valuesOf_attachComments (comments : Comments) (nodes : List Node) :
    valuesOf (attachComments comments nodes) = valuesOf nodes :=
  declaredOf_attachComments (fun _ _ => rfl) comments nodes

/-! ## Marks -/

section
variable {f : Property → Property}

mutual

/-- Changing every property of a node changes those declared in it. -/
theorem Node.declared_mapProperties : ∀ n : Node,
    (n.mapProperties f).declared = n.declared.map f
  | .property _ => rfl
  | .rule _ children _ => declaredOf_mapProperties children
  | .atRule _ _ children _ => declaredOf_mapProperties children

/-- The properties of nodes are changed one by one. -/
theorem declaredOf_mapProperties : ∀ ns : List Node,
    declaredOf (mapPropertiesOf f ns) = (declaredOf ns).map f
  | [] => rfl
  | n :: ns => by
    rw [mapPropertiesOf, declaredOf, Node.declared_mapProperties n, declaredOf_mapProperties ns,
      declaredOf, List.map_append]

end

end

/-- Marking nodes marks every property in them. -/
theorem declaredOf_markAllImportant (ns : List Node) : declaredOf (Node.markAllImportant ns) =
    (declaredOf ns).map fun p => { p with important := true } := by
  rw [markAllImportant_eq, declaredOf_mapProperties]
  rfl

@[simp] theorem valuesOf_markAllImportant (ns : List Node) :
    valuesOf (Node.markAllImportant ns) = valuesOf ns := by
  rw [valuesOf, declaredOf_markAllImportant, List.map_map]
  rfl

/-- The values of nodes are among those of every tree they stand in. -/
theorem StandsIn.values {inner nodes : List Node} (h : StandsIn inner nodes) :
    valuesOf inner ⊆ valuesOf nodes := by
  induction h with
  | here => exact List.Subset.refl _
  | beside before after _ ih =>
    rw [valuesOf_append, valuesOf_append]
    exact List.subset_append_of_subset_left _ (List.subset_append_of_subset_right _ ih)
  | rule selectors comments _ ih =>
    rw [valuesOf_rule]
    exact ih
  | atRule name params comments _ ih =>
    rw [valuesOf_atRule]
    exact ih
  | call comments important _ ih =>
    rw [valuesOf_attachComments]
    cases important with
    | false => exact ih
    | true =>
      rw [if_pos rfl, valuesOf_markAllImportant]
      exact ih

/-- An important property of nodes is in every tree they stand in, but for its comments. -/
theorem StandsIn.declared {inner nodes : List Node} (h : StandsIn inner nodes) {d : Property}
    (hd : d ∈ declaredOf inner) (himportant : d.important = true) :
    ∃ e ∈ declaredOf nodes, e = { d with comments := e.comments } := by
  induction h with
  | here => exact ⟨d, hd, rfl⟩
  | beside before after _ ih =>
    obtain ⟨e, he, heq⟩ := ih
    rw [declaredOf_append, declaredOf_append]
    exact ⟨e, List.mem_append_left _ (List.mem_append_right _ he), heq⟩
  | rule selectors comments _ ih =>
    obtain ⟨e, he, heq⟩ := ih
    exact ⟨e, List.mem_append_left _ he, heq⟩
  | atRule name params comments _ ih =>
    obtain ⟨e, he, heq⟩ := ih
    exact ⟨e, List.mem_append_left _ he, heq⟩
  | @call ns comments important _ ih =>
    obtain ⟨e, he, heq⟩ := ih
    have hmarked : e ∈ declaredOf (if important then Node.markAllImportant ns else ns) := by
      cases important with
      | false => exact he
      | true =>
        rw [if_pos rfl, declaredOf_markAllImportant]
        refine List.mem_map.2 ⟨e, he, ?_⟩
        rw [heq, ← himportant]
    have hbare := declaredOf_attachComments (f := fun p => { p with comments := {} })
      (fun _ _ => rfl) comments (if important then Node.markAllImportant ns else ns)
    obtain ⟨e', he', heq'⟩ := List.mem_map.1 (hbare ▸ List.mem_map_of_mem hmarked)
    refine ⟨e', he', ?_⟩
    have hsame : e' = { e with comments := e'.comments } :=
      congrArg (fun p : Property => { p with comments := e'.comments }) heq'
    rw [hsame, heq]

/-! ## Flattening -/

mutual

/-- The occurrences in a node are of the properties declared in it. -/
theorem Node.map_property_occurrences (frames : List Frame) (parent : List Nat) (index : Nat) :
    ∀ n : Node, (n.occurrences frames parent index).map Occurrence.property = n.declared
  | .property _ => rfl
  | .rule _ children _ => map_property_occurrencesOf _ _ _ children
  | .atRule _ _ children _ => map_property_occurrencesOf _ _ _ children

/-- The occurrences in nodes are of the properties declared in them. -/
theorem map_property_occurrencesOf (frames : List Frame) (parent : List Nat) (index : Nat) :
    ∀ nodes : List Node,
      (occurrencesOf frames parent index nodes).map Occurrence.property = declaredOf nodes
  | [] => rfl
  | n :: ns => by
    rw [occurrencesOf, List.map_append, Node.map_property_occurrences frames parent index n,
      map_property_occurrencesOf frames parent (index + 1) ns, declaredOf]

end

/-- The properties in blocks, at any depth. -/
def flatOf (blocks : List Block) : List Property := (placedOf [] blocks).map fun x => x.2.2

/-- Flattening keeps the properties of a tree that has none at its top. -/
theorem flatOf_perm {nodes : List Node} (htop : properties nodes = []) :
    (flatOf (blocksOf [] nodes)).Perm (declaredOf nodes) := by
  have hnone : ∀ p, Node.property p ∉ nodes := by
    intro p hp
    have hfound := List.filterMap_eq_nil_iff.1 htop _ hp
    cases hfound
  have hperm := own_append_nestedOf_perm [] [] 0 nodes
  rw [own_eq_nil hnone, List.nil_append] at hperm
  have hplaced : placedOf [] (blocksOf [] nodes) =
      (nestedOf [] [] 0 nodes).map Occurrence.placed := placedOf_blocksOf [] [] 0 nodes
  rw [flatOf, hplaced, List.map_map, ← map_property_occurrencesOf [] [] 0 nodes]
  exact hperm.map _

end LessSheet.Css
