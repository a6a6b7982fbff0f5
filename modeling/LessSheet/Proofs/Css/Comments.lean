import LessSheet.Css.Text
import LessSheet.Proofs.Css.Mapping
import LessSheet.Proofs.Text.Appearance

/-! # Comments in the pretty layout

What the pretty layout writes of comments and properties is a sequence of texts (`marksOf`): each
property between its comments, the properties of a block in order, the comments of a rule around
them. An at-rule has its leading comments only, and a rule without properties has none. They appear
in the stylesheet in that order (`Sheet.appear_pretty`).

For a style tree, that sequence is the marks of the properties at its top and then those of its
blocks (`written`). Nodes that stand anywhere in a tree contribute theirs to it, whatever is added
to them from outside (`StandsIn.written_sublist`).

The comments of a call are put at the first and the last of the nodes that replace it. Which
properties come after the leading ones, and which come before the trailing ones, depends on these
two nodes (`AfterLead`, `BeforeTrail`).
-/

namespace LessSheet.Css

open Text

/-! ## Marks -/

/-- A property as it is written, up to what marks it important. -/
def Property.text (p : Property) : String := trimString p.name ++ ": " ++ trimString p.value

/-- A property between its comments. -/
def Property.marks (p : Property) : List String :=
  p.comments.leading ++ (p.text :: ";" :: p.comments.trailing)

/-- A property is among its marks, with the semicolon behind it. -/
theorem Property.text_marks (p : Property) : [p.text, ";"].Sublist p.marks :=
  (((List.nil_sublist _).cons_cons _).cons_cons _).trans (List.sublist_append_right _ _)

mutual

/-- The comments and properties that are written of a block, in order. -/
def Block.marks : Block → List String
  | .rule _ properties comments =>
    if properties.isEmpty then []
    else comments.leading ++ (properties.flatMap Property.marks ++ comments.trailing)
  | .atRule _ _ properties children comments =>
    comments.leading ++ (properties.flatMap Property.marks ++ marksOf children)

/-- The comments and properties that are written of several blocks. -/
def marksOf : List Block → List String
  | [] => []
  | b :: bs => b.marks ++ marksOf bs

end

@[simp] theorem marksOf_append (bs cs : List Block) :
    marksOf (bs ++ cs) = marksOf bs ++ marksOf cs := by
  induction bs with
  | nil => rfl
  | cons b bs ih => rw [List.cons_append, marksOf, ih, marksOf, List.append_assoc]

/-- Leading comments appear in order. -/
theorem appear_leadingText (level : Nat) (comments : Comments) :
    Appear comments.leading (leadingText level comments) := by
  have hline : ∀ c : String, Appear [c] (indent level ++ c ++ "\n") :=
    fun c => ((appear_self c).append_left _).append_right _
  have h := appear_join hline comments.leading
  rwa [List.flatMap_singleton'] at h

/-- Trailing comments appear in order. -/
theorem appear_trailingText (comments : Comments) :
    Appear comments.trailing (trailingText comments) := by
  have hpart : ∀ c : String, Appear [c] (" " ++ c) := fun c => (appear_self c).append_left _
  have h := appear_join hpart comments.trailing
  rwa [List.flatMap_singleton'] at h

/-- A property appears between its comments. -/
theorem Property.appear_marks (level : Nat) (p : Property) : Appear p.marks (p.pretty level) := by
  have htext : Appear [p.text, ";"]
      (p.text ++ (if p.important then " !important" else "") ++ ";") :=
    ((appear_self p.text).append_right _).append (appear_self ";")
  have h := ((appear_leadingText level p.comments).append_right (indent level)).append
    (htext.append (appear_trailingText p.comments))
  simpa [Property.pretty, Property.text, Property.marks, String.append_assoc] using
    h.append_right "\n"

/-- Properties appear in order, each between its comments. -/
theorem appear_prettyProperties (level : Nat) (ps : List Property) :
    Appear (ps.flatMap Property.marks) (prettyProperties level ps) :=
  appear_join (Property.appear_marks level) ps

mutual

/-- The marks of a block appear in its text, by recursion on its children. -/
theorem Block.appear_marks (level : Nat) : ∀ b : Block, Appear b.marks (b.pretty level)
  | .rule selectors properties comments => by
    rw [Block.marks, Block.pretty]
    split
    · trivial
    · have hbefore := (appear_leadingText level comments).append_right
        (indent level ++ ", ".intercalate selectors ++ " \x7b\n")
      have hinside := (appear_prettyProperties (level + 1) properties).append_right
        (indent level ++ "\x7d")
      have h := hbefore.append (hinside.append (appear_trailingText comments))
      simpa [String.append_assoc] using h.append_right "\n"
  | .atRule name params properties children comments => by
    have hbefore := (appear_leadingText level comments).append_right
      (indent level ++ "@" ++ name ++
        (if params == "" then "" else " " ++ Text.trimString params) ++ " \x7b\n")
    have hinside := (appear_prettyProperties (level + 1) properties).append
      (appear_marksOf (level + 1) children)
    simpa [Block.marks, Block.pretty, String.append_assoc] using
      (hbefore.append hinside).append_right (indent level ++ "\x7d\n")

/-- The marks of blocks appear where they are written. -/
theorem appear_marksOf (level : Nat) : ∀ bs : List Block,
    Appear (marksOf bs) (prettyBlocks level bs)
  | [] => trivial
  | b :: bs => (b.appear_marks level).append (appear_marksOf level bs)

end

/-- Blocks with a text between two of them have the same marks. -/
theorem appear_intercalate (glue : String) (level : Nat) (bs : List Block) :
    Appear (marksOf bs) (glue.intercalate (bs.map (Block.pretty level))) := by
  induction bs with
  | nil => trivial
  | cons b bs ih =>
    cases bs with
    | nil => simpa [marksOf] using b.appear_marks level
    | cons c cs =>
      rw [marksOf, List.map_cons, List.map_cons, String.intercalate_cons_cons]
      exact ((b.appear_marks level).append_right glue).append ih

/-- Some of the marks of a stylesheet, if there is no white space before the first or after the
last, appear in its text. -/
theorem Sheet.appear_pretty (sheet : Sheet) {ts : List String}
    (hsub : ts.Sublist (marksOf sheet.blocks)) (hfirst : ∃ t ∈ ts.head?, FirmStart t.toList)
    (hlast : ∃ t ∈ ts.getLast?, FirmEnd t.toList) : Appear ts sheet.pretty := by
  have h := (appear_intercalate "\n" 0 sheet.blocks).append_left (importLines sheet.imports ++
    (if sheet.imports.isEmpty || sheet.blocks.isEmpty then "" else "\n"))
  rw [Appear, Sheet.pretty, trimString, String.toList_ofList]
  refine AppearIn.trim (h.sublist hsub) ?_ ?_
  · obtain ⟨t, ht, hstart⟩ := hfirst
    exact ⟨t.toList, by rw [List.head?_map, ht]; rfl, hstart⟩
  · obtain ⟨t, ht, hend⟩ := hlast
    exact ⟨t.toList, by rw [List.getLast?_map, ht]; rfl, hend⟩

/-- A property does not begin with white space. -/
theorem Property.text_firmStart (p : Property) : FirmStart p.text.toList := by
  rw [Property.text, String.toList_append, String.toList_append, trimString, String.toList_ofList]
  rcases trim_firm p.name.toList with h | ⟨h, -⟩
  · rw [h]
    exact ⟨':', ' ' :: (trimString p.value).toList, rfl, rfl⟩
  · exact (h.append_right _).append_right _

/-! ## Marks of a style tree -/

/-- The marks of the properties among nodes. -/
def ownMarks (nodes : List Node) : List String := (properties nodes).flatMap Property.marks

mutual

/-- The marks of the blocks of a node, whatever selectors are around it. -/
def Node.nestedMarks : Node → List String
  | .property _ => []
  | .rule _ children comments =>
    (if (properties children).isEmpty then []
      else comments.leading ++ (ownMarks children ++ comments.trailing)) ++ nestedMarksOf children
  | .atRule _ _ children comments =>
    comments.leading ++ (ownMarks children ++ nestedMarksOf children)

/-- The marks of the blocks of several nodes. -/
def nestedMarksOf : List Node → List String
  | [] => []
  | n :: ns => n.nestedMarks ++ nestedMarksOf ns

end

/-- What is written of nodes that are the children of a node: the properties among them come before
the blocks. -/
def written (nodes : List Node) : List String := ownMarks nodes ++ nestedMarksOf nodes

@[simp] theorem marksOf_ruleOf (selectors : List String) (properties : List Property)
    (comments : Comments) :
    marksOf (ruleOf selectors properties comments) = if properties.isEmpty then [] else
      comments.leading ++ (properties.flatMap Property.marks ++ comments.trailing) := by
  cases properties with
  | nil => rfl
  | cons p ps => exact List.append_nil _

mutual

/-- The marks of the blocks of a node do not depend on the selectors around it. -/
theorem Node.marksOf_blocks (parents : List String) : ∀ n : Node,
    marksOf (n.blocks parents) = n.nestedMarks
  | .property _ => rfl
  | .rule selectors children comments => by
    rw [Node.blocks, marksOf_append, marksOf_ruleOf, marksOf_blocksOf _ children, Node.nestedMarks,
      ownMarks]
  | .atRule name params children comments => by
    have hown : ∀ ps : List Property,
        (if ps.isEmpty then [] else ps.flatMap Property.marks) = ps.flatMap Property.marks := by
      intro ps
      cases ps <;> rfl
    rw [Node.blocks, Node.nestedMarks]
    split
    · simp [marksOf, Block.marks, marksOf_blocksOf parents children, ownMarks]
    · simp only [marksOf, Block.marks, marksOf_append, marksOf_ruleOf, hown,
        marksOf_blocksOf parents children, List.flatMap_nil, List.nil_append, List.append_nil,
        ownMarks]

/-- The marks of the blocks that nodes are flattened to. -/
theorem marksOf_blocksOf (parents : List String) : ∀ nodes : List Node,
    marksOf (blocksOf parents nodes) = nestedMarksOf nodes
  | [] => rfl
  | n :: ns => by
    rw [blocksOf, marksOf_append, Node.marksOf_blocks parents n, marksOf_blocksOf parents ns,
      nestedMarksOf]

end

/-- The properties among nodes and others. -/
theorem properties_append (ns ms : List Node) :
    properties (ns ++ ms) = properties ns ++ properties ms := List.filterMap_append

@[simp] theorem ownMarks_append (ns ms : List Node) :
    ownMarks (ns ++ ms) = ownMarks ns ++ ownMarks ms := by
  rw [ownMarks, properties_append, List.flatMap_append]
  rfl

@[simp] theorem nestedMarksOf_append (ns ms : List Node) :
    nestedMarksOf (ns ++ ms) = nestedMarksOf ns ++ nestedMarksOf ms := by
  induction ns with
  | nil => rfl
  | cons n ns ih => rw [List.cons_append, nestedMarksOf, ih, nestedMarksOf, List.append_assoc]

/-- Nodes with at least the marks that others have. -/
theorem written_sublist {ns ms : List Node} (hown : (ownMarks ns).Sublist (ownMarks ms))
    (hnested : (nestedMarksOf ns).Sublist (nestedMarksOf ms)) :
    (written ns).Sublist (written ms) := hown.append hnested

/-- A rule writes its children. -/
theorem written_sublist_rule (selectors : List String) (children : List Node)
    (comments : Comments) :
    (written children).Sublist (Node.rule selectors children comments).nestedMarks := by
  rw [Node.nestedMarks]
  refine List.Sublist.append ?_ (List.Sublist.refl _)
  split
  · next h =>
    rw [ownMarks, List.isEmpty_iff.1 h]
    exact List.nil_sublist _
  · exact (List.sublist_append_left _ _).trans (List.sublist_append_right _ _)

/-- An at-rule writes its children. -/
theorem written_sublist_atRule (name params : String) (children : List Node)
    (comments : Comments) :
    (written children).Sublist (Node.atRule name params children comments).nestedMarks :=
  List.sublist_append_right _ _

/-! ## Properties in a style tree -/

mutual

/-- The properties in a node, at any depth, in the order of the tree. -/
def Node.declared : Node → List Property
  | .property p => [p]
  | .rule _ children _ => declaredOf children
  | .atRule _ _ children _ => declaredOf children

/-- The properties in several nodes. -/
def declaredOf : List Node → List Property
  | [] => []
  | n :: ns => n.declared ++ declaredOf ns

end

mutual

/-- A property inside a rule or at-rule is written with it. -/
theorem Node.declared_nestedMarks {d : Property} : ∀ {n : Node}, n.property? = none →
    d ∈ n.declared → [d.text, ";"].Sublist n.nestedMarks
  | .property _, hn, _ => nomatch hn
  | .rule selectors children comments, _, hd =>
    (declared_written hd).trans (written_sublist_rule selectors children comments)
  | .atRule name params children comments, _, hd =>
    (declared_written hd).trans (written_sublist_atRule name params children comments)

/-- A property in nodes is written with them. -/
theorem declared_written {d : Property} : ∀ {ns : List Node}, d ∈ declaredOf ns →
    [d.text, ";"].Sublist (written ns)
  | n :: ns, hd => by
    rcases List.mem_append.1 hd with hd | hd
    · cases hn : n.property? with
      | none =>
        refine (Node.declared_nestedMarks hn hd).trans ?_
        exact (List.sublist_append_left _ _).trans (List.sublist_append_right _ _)
      | some p =>
        cases n with
        | property q =>
          cases List.mem_singleton.1 hd
          refine d.text_marks.trans (List.Sublist.trans ?_ (List.sublist_append_left _ _))
          exact List.sublist_append_left _ _
        | rule _ _ _ | atRule _ _ _ _ => cases hn
    · refine (declared_written hd).trans (written_sublist ?_ (List.sublist_append_right _ _))
      rw [← List.singleton_append (x := n), ownMarks_append]
      exact List.sublist_append_right _ _

end

/-! ## Comments added from outside -/

/-- A node with at least the marks that another has. -/
structure Node.Extends (n m : Node) : Prop where
  own : (ownMarks [n]).Sublist (ownMarks [m])
  nested : n.nestedMarks.Sublist m.nestedMarks

/-- A node has its own marks. -/
theorem Node.Extends.refl (n : Node) : n.Extends n := ⟨.refl _, .refl _⟩

/-- Nodes with more marks write these as well. -/
theorem written_sublist_of_extends {ns ms : List Node} (h : List.Forall₂ Node.Extends ns ms) :
    (written ns).Sublist (written ms) := by
  refine written_sublist ?_ ?_
  · induction h with
    | nil => exact .refl _
    | @cons n m ns ms hn _ ih =>
      rw [← List.singleton_append (x := n), ← List.singleton_append (x := m), ownMarks_append,
        ownMarks_append]
      exact hn.own.append ih
  · induction h with
    | nil => exact .refl _
    | cons hn _ ih => exact hn.nested.append ih

/-- More comments are more marks. -/
theorem Node.extends_mapComments {f : Comments → Comments}
    (hleading : ∀ c : Comments, c.leading.Sublist (f c).leading)
    (htrailing : ∀ c : Comments, c.trailing.Sublist (f c).trailing) (n : Node) :
    n.Extends (n.mapComments f) := by
  cases n with
  | property p =>
    refine ⟨?_, .refl _⟩
    simp only [ownMarks, properties, List.filterMap_cons, Node.property?, Node.mapComments,
      List.filterMap_nil, List.flatMap_cons, List.flatMap_nil, List.append_nil, Property.marks]
    exact (hleading _).append (((htrailing _).cons_cons _).cons_cons _)
  | rule selectors children comments =>
    refine ⟨.refl _, List.Sublist.append ?_ (.refl _)⟩
    split
    · exact .refl _
    · exact (hleading _).append (.append (.refl _) (htrailing _))
  | atRule name params children comments => exact ⟨.refl _, (hleading _).append (.refl _)⟩

/-- Comments that lead a node are more marks. -/
theorem Node.extends_lead (comments : List String) (n : Node) : n.Extends (n.lead comments) := by
  refine n.extends_mapComments (fun c => ?_) fun c => ?_
  · exact List.sublist_append_right comments c.leading
  · exact .refl _

/-- Comments that trail a node are more marks. -/
theorem Node.extends_trail (comments : List String) (n : Node) : n.Extends (n.trail comments) := by
  refine n.extends_mapComments (fun c => ?_) fun c => ?_
  · exact .refl _
  · exact List.sublist_append_left c.trailing comments

/-- Adding marks to the first node leaves the others as they are. -/
theorem extends_modifyHead {f : Node → Node} (hf : ∀ n : Node, n.Extends (f n)) (ns : List Node) :
    List.Forall₂ Node.Extends ns (ns.modifyHead f) := by
  cases ns with
  | nil => exact .nil
  | cons n ns => exact .cons (hf n) (List.forall₂_same.2 fun m _ => .refl m)

/-- The last item is the one behind the others. -/
theorem modifyLast_concat {α : Type} (f : α → α) (init : List α) (last : α) :
    modifyLast f (init ++ [last]) = init ++ [f last] := by
  induction init with
  | nil => rfl
  | cons a init ih =>
    cases init with
    | nil => rfl
    | cons b init => exact congrArg (a :: ·) ih

/-- Adding marks to the last node leaves the others as they are. -/
theorem extends_modifyLast {f : Node → Node} (hf : ∀ n : Node, n.Extends (f n)) (ns : List Node) :
    List.Forall₂ Node.Extends ns (modifyLast f ns) := by
  rcases List.eq_nil_or_concat ns with rfl | ⟨init, last, rfl⟩
  · exact .nil
  · rw [List.concat_eq_append, modifyLast_concat]
    exact List.rel_append (List.forall₂_same.2 fun m _ => .refl m) (.cons (hf last) .nil)

/-- The comments that trail a call may be put in place before those that lead it. -/
theorem attachComments_eq (comments : Comments) (nodes : List Node) :
    attachComments comments nodes =
      (modifyLast (Node.trail comments.trailing) nodes).modifyHead
        (Node.lead comments.leading) := by
  match nodes with
  | [] => rfl
  | [n] => cases n <;> rfl
  | _ :: _ :: _ => rfl

/-- What is written with the leading comments of a call is written with all of them. -/
theorem written_modifyHead_sublist (comments : Comments) (nodes : List Node) :
    (written (nodes.modifyHead (Node.lead comments.leading))).Sublist
      (written (attachComments comments nodes)) :=
  written_sublist_of_extends (extends_modifyLast (Node.extends_trail _) _)

/-- What is written with the trailing comments of a call is written with all of them. -/
theorem written_modifyLast_sublist (comments : Comments) (nodes : List Node) :
    (written (modifyLast (Node.trail comments.trailing) nodes)).Sublist
      (written (attachComments comments nodes)) := by
  rw [attachComments_eq]
  exact written_sublist_of_extends (extends_modifyHead (Node.extends_lead _) _)

/-- The properties of nodes that are marked important. -/
theorem properties_markAllImportant (nodes : List Node) :
    properties (Node.markAllImportant nodes) = (properties nodes).map Property.marked := by
  rw [markAllImportant_eq, properties_mapProperties]

/-- Whether properties are important is no mark. -/
theorem ownMarks_markAllImportant (nodes : List Node) :
    ownMarks (Node.markAllImportant nodes) = ownMarks nodes := by
  rw [ownMarks, properties_markAllImportant, List.flatMap_map]
  rfl

mutual

/-- Importance is not among the marks. -/
theorem Node.nestedMarks_markImportant : ∀ n : Node, n.markImportant.nestedMarks = n.nestedMarks
  | .property _ => rfl
  | .rule selectors children comments => by
    have hempty : (properties (Node.markAllImportant children)).isEmpty =
        (properties children).isEmpty := by
      rw [properties_markAllImportant, List.isEmpty_map]
    rw [Node.markImportant, Node.nestedMarks, Node.nestedMarks, hempty,
      ownMarks_markAllImportant, nestedMarksOf_markAllImportant children]
  | .atRule name params children comments => by
    rw [Node.markImportant, Node.nestedMarks, Node.nestedMarks, ownMarks_markAllImportant,
      nestedMarksOf_markAllImportant children]

/-- Importance is not among the marks of several nodes. -/
theorem nestedMarksOf_markAllImportant : ∀ nodes : List Node,
    nestedMarksOf (Node.markAllImportant nodes) = nestedMarksOf nodes
  | [] => rfl
  | n :: ns => by
    rw [Node.markAllImportant, nestedMarksOf, nestedMarksOf, n.nestedMarks_markImportant,
      nestedMarksOf_markAllImportant ns]

end

/-! ## Nodes in a tree -/

/-- `StandsIn inner nodes`: the nodes `inner` stand side by side somewhere in `nodes`. A call that
they are part of the expansion of may have made them important and put its comments there. -/
inductive StandsIn (inner : List Node) : List Node → Prop where
  | here : StandsIn inner inner
  | beside {ns : List Node} (before after : List Node) :
    StandsIn inner ns → StandsIn inner (before ++ ns ++ after)
  | rule {ns : List Node} (selectors : List String) (comments : Comments) :
    StandsIn inner ns → StandsIn inner [.rule selectors ns comments]
  | atRule {ns : List Node} (name params : String) (comments : Comments) :
    StandsIn inner ns → StandsIn inner [.atRule name params ns comments]
  | call {ns : List Node} (comments : Comments) (important : Bool) :
    StandsIn inner ns →
    StandsIn inner (attachComments comments (if important then Node.markAllImportant ns else ns))

/-- What is written of nodes is written of every tree they stand in. -/
theorem StandsIn.written_sublist {inner nodes : List Node} (h : StandsIn inner nodes) :
    (written inner).Sublist (written nodes) := by
  induction h with
  | here => exact .refl _
  | beside before after _ ih =>
    refine ih.trans (Css.written_sublist ?_ ?_)
    · rw [ownMarks_append, ownMarks_append]
      exact (List.sublist_append_right _ _).trans (List.sublist_append_left _ _)
    · rw [nestedMarksOf_append, nestedMarksOf_append]
      exact (List.sublist_append_right _ _).trans (List.sublist_append_left _ _)
  | @rule ns selectors comments _ ih =>
    refine ih.trans ((written_sublist_rule selectors ns comments).trans ?_)
    exact List.sublist_append_left _ _
  | @atRule ns name params comments _ ih =>
    refine ih.trans ((written_sublist_atRule name params ns comments).trans ?_)
    exact List.sublist_append_left _ _
  | @call ns comments important _ ih =>
    have hmarked : written (if important then Node.markAllImportant ns else ns) = written ns := by
      cases important with
      | false => rfl
      | true => simp [written, ownMarks_markAllImportant, nestedMarksOf_markAllImportant]
    rw [← hmarked] at ih
    refine ih.trans (List.Sublist.trans ?_ (written_modifyLast_sublist comments _))
    exact written_sublist_of_extends (extends_modifyLast (Node.extends_trail _) _)

/-- What stands in nodes stands in whatever these stand in. -/
theorem StandsIn.trans {ns ms ks : List Node} (h : StandsIn ns ms) (hm : StandsIn ms ks) :
    StandsIn ns ks := by
  induction hm with
  | here => exact h
  | beside before after _ ih => exact .beside before after ih
  | rule selectors comments _ ih => exact .rule selectors comments ih
  | atRule name params comments _ ih => exact .atRule name params comments ih
  | call comments important _ ih => exact .call comments important ih

/-! ## Around the comments of a call -/

/-- A property in the rules and at-rules among nodes. -/
def InBlocks (nodes : List Node) (d : Property) : Prop :=
  ∃ n ∈ nodes, n.property? = none ∧ d ∈ n.declared

/-- The properties in nodes that are written after the comments that lead the first node. If that
node is a property, these are all of them. If it is a rule with properties of its own, or an
at-rule, they are those in rules and at-rules, for the others come before any block. A rule without
properties of its own does not write its comments. -/
def AfterLead : List Node → Property → Prop
  | [], _ => False
  | .property p :: rest, d => d ∈ declaredOf (.property p :: rest)
  | .rule selectors children own :: rest, d =>
    properties children ≠ [] ∧ InBlocks (.rule selectors children own :: rest) d
  | .atRule name params children own :: rest, d =>
    InBlocks (.atRule name params children own :: rest) d

/-- The properties in nodes that are written before the comments that trail the last node. If that
node is a property, these are the properties among the nodes, for blocks come later. If it is a rule
with properties of its own, they are these and all in the nodes before it. Neither a rule without
properties of its own nor an at-rule writes such comments. -/
def BeforeTrail (nodes : List Node) (d : Property) : Prop :=
  ∃ init last, nodes = init ++ [last] ∧
    match last with
    | .property _ => d ∈ properties nodes
    | .rule _ children _ =>
      properties children ≠ [] ∧ (d ∈ declaredOf init ∨ d ∈ properties children)
    | .atRule _ _ _ _ => False

/-- A property among nodes is written among them. -/
theorem text_ownMarks {nodes : List Node} {d : Property} (h : d ∈ properties nodes) :
    [d.text, ";"].Sublist (ownMarks nodes) := by
  obtain ⟨before, after, hsplit⟩ := List.append_of_mem h
  rw [ownMarks, hsplit, List.flatMap_append, List.flatMap_cons]
  exact d.text_marks.trans ((List.sublist_append_left _ _).trans (List.sublist_append_right _ _))

/-- A property in the rules and at-rules among nodes is written in the blocks of these. -/
theorem InBlocks.sublist {nodes : List Node} {d : Property} (h : InBlocks nodes d) :
    [d.text, ";"].Sublist (nestedMarksOf nodes) := by
  obtain ⟨n, hn, hnone, hd⟩ := h
  obtain ⟨before, after, rfl⟩ := List.append_of_mem hn
  rw [nestedMarksOf_append]
  refine (Node.declared_nestedMarks hnone hd).trans ?_
  exact (List.sublist_append_left _ _).trans (List.sublist_append_right _ _)

/-- The comments that lead a call come before the properties after them. -/
theorem AfterLead.sublist {nodes : List Node} {d : Property} (h : AfterLead nodes d)
    (comments : Comments) :
    (comments.leading ++ [d.text, ";"]).Sublist (written (attachComments comments nodes)) := by
  refine List.Sublist.trans ?_ (written_modifyHead_sublist comments nodes)
  -- the comments come before the blocks of the first node, and so before the blocks of all
  have hblocks : ∀ {first : Node} {rest : List Node},
      (first.lead comments.leading).nestedMarks = comments.leading ++ first.nestedMarks →
      InBlocks (first :: rest) d →
      (comments.leading ++ [d.text, ";"]).Sublist
        (written (first.lead comments.leading :: rest)) := by
    intro first rest hfirst hd
    refine List.Sublist.trans ?_ (List.sublist_append_right _ _)
    rw [nestedMarksOf, hfirst, List.append_assoc]
    exact List.Sublist.append (.refl _) hd.sublist
  match nodes, h with
  | .property p :: rest, hd =>
    have hwritten : written ((Node.property p).lead comments.leading :: rest) =
        comments.leading ++ written (.property p :: rest) := by
      simp [written, ownMarks, properties, Node.property?, Node.lead, Node.mapComments,
        nestedMarksOf, Node.nestedMarks, Property.marks, Property.text]
    rw [List.modifyHead_cons, hwritten]
    exact List.Sublist.append (.refl _) (declared_written hd)
  | .rule selectors children own :: rest, ⟨hne, hd⟩ =>
    refine hblocks ?_ hd
    simp [Node.lead, Node.mapComments, Node.nestedMarks, hne]
  | .atRule name params children own :: rest, hd =>
    refine hblocks ?_ hd
    simp [Node.lead, Node.mapComments, Node.nestedMarks]

/-- The comments that trail a call come after the properties before them. -/
theorem BeforeTrail.sublist {nodes : List Node} {d : Property} (h : BeforeTrail nodes d)
    (comments : Comments) :
    (d.text :: ";" :: comments.trailing).Sublist (written (attachComments comments nodes)) := by
  refine List.Sublist.trans ?_ (written_modifyLast_sublist comments nodes)
  obtain ⟨init, last, rfl, hd⟩ := h
  rw [modifyLast_concat]
  cases last with
  | property p =>
    have hown : ownMarks (init ++ [(Node.property p).trail comments.trailing]) =
        ownMarks (init ++ [.property p]) ++ comments.trailing := by
      simp [ownMarks, properties, Node.property?, Node.trail, Node.mapComments, Property.marks,
        Property.text]
    rw [written, hown]
    refine List.Sublist.trans ?_ (List.sublist_append_left _ _)
    exact (text_ownMarks hd).append (.refl _)
  | rule selectors children own =>
    obtain ⟨hne, hd⟩ := hd
    -- the nodes before, then the rule with its own properties, and the comments after these
    have hwritten :
        written (init ++ [(Node.rule selectors children own).trail comments.trailing]) =
          written init ++
            ((Node.rule selectors children own).trail comments.trailing).nestedMarks := by
      simp [written, ownMarks, properties, Node.property?, Node.trail, Node.mapComments,
        nestedMarksOf]
    have hinside : (ownMarks children ++ comments.trailing).Sublist
        ((Node.rule selectors children own).trail comments.trailing).nestedMarks := by
      simp only [Node.trail, Node.mapComments, Node.nestedMarks, List.isEmpty_iff, if_neg hne]
      refine List.Sublist.trans ?_ (List.sublist_append_left _ _)
      refine List.Sublist.trans ?_ (List.sublist_append_right _ _)
      exact List.Sublist.append (.refl _) (List.sublist_append_right _ _)
    rw [hwritten]
    refine List.Sublist.trans ?_ (List.Sublist.append (.refl _) hinside)
    rcases hd with hd | hd
    · exact (declared_written hd).append (List.sublist_append_right _ _)
    · refine List.Sublist.trans ?_ (List.sublist_append_right _ _)
      exact (text_ownMarks hd).append (.refl _)
  | atRule name params children own => cases hd

/-! ## Around the comments of a call, in the text -/

section
variable {nodes bare : List Node} {comments : Comments} {d : Property} {imports : List String}

/-- What is written of nodes is written of the stylesheet that they stand in. -/
theorem StandsIn.sublist_marksOf {inner : List Node} (h : StandsIn inner nodes)
    (htop : properties nodes = []) : (written inner).Sublist (marksOf (blocksOf [] nodes)) := by
  have hnested : written nodes = nestedMarksOf nodes := by
    rw [written, ownMarks, htop, List.flatMap_nil, List.nil_append]
  rw [marksOf_blocksOf, ← hnested]
  exact h.written_sublist

/-- The comments that lead a call appear before a property that is written after them. -/
theorem AfterLead.appear (hd : AfterLead bare d)
    (hstands : StandsIn (attachComments comments bare) nodes) (htop : properties nodes = [])
    (hleading : ∀ t ∈ comments.leading, FirmStart t.toList) :
    Appear (comments.leading ++ [d.text]) (Sheet.pretty ⟨imports, blocksOf [] nodes⟩) := by
  -- with the semicolon after the property, the last text does not end with white space
  have happear : Appear (comments.leading ++ [d.text, ";"])
      (Sheet.pretty ⟨imports, blocksOf [] nodes⟩) := by
    refine Sheet.appear_pretty _ ((hd.sublist comments).trans (hstands.sublist_marksOf htop)) ?_ ?_
    · cases hcomments : comments.leading with
      | nil => exact ⟨d.text, rfl, d.text_firmStart⟩
      | cons t _ => exact ⟨t, rfl, hleading t (hcomments ▸ List.mem_cons_self)⟩
    · exact ⟨";", by simp, [], ';', rfl, rfl⟩
  refine happear.sublist (List.Sublist.append (.refl _) ?_)
  exact (List.nil_sublist _).cons_cons _

/-- The comments that trail a call appear after a property that is written before them. -/
theorem BeforeTrail.appear (hd : BeforeTrail bare d)
    (hstands : StandsIn (attachComments comments bare) nodes) (htop : properties nodes = [])
    (htrailing : ∀ t ∈ comments.trailing, FirmEnd t.toList) :
    Appear (d.text :: comments.trailing) (Sheet.pretty ⟨imports, blocksOf [] nodes⟩) := by
  have happear : Appear (d.text :: ";" :: comments.trailing)
      (Sheet.pretty ⟨imports, blocksOf [] nodes⟩) := by
    refine Sheet.appear_pretty _ ((hd.sublist comments).trans (hstands.sublist_marksOf htop)) ?_ ?_
    · exact ⟨d.text, rfl, d.text_firmStart⟩
    · rcases List.eq_nil_or_concat comments.trailing with hnone | ⟨init, t, hcomments⟩
      · rw [hnone]
        exact ⟨";", rfl, [], ';', rfl, rfl⟩
      · rw [List.concat_eq_append] at hcomments
        refine ⟨t, ?_, htrailing t (hcomments ▸ List.mem_concat_self)⟩
        rw [hcomments, ← List.cons_append, ← List.cons_append, List.getLast?_concat]
        rfl
  exact happear.sublist ((List.sublist_cons_self _ _).cons_cons _)

end

end LessSheet.Css
