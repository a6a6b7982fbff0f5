import LessSheet.Proofs.Css.Mapping
import LessSheet.Proofs.Expansion.Bodies

/-! # Important calls

An important call does all that the same call does without the mark, and marks the properties of
what comes of it at the end (`Call.expand_marked`). So nothing but marks is different afterwards, in
the tree and in the flat stylesheet that it comes to (`Call.expand_important`).
-/

namespace LessSheet

open Css Script

section
variable (call : Call) (expand : Expander) (caller : ScopeId)

/-- The nodes of an important call are those of the same call without the mark, marked. -/
theorem Call.finish_marked (nodes : List Node) :
    { call with important := true }.finish nodes =
      mapPropertiesOf Property.marked ({ call with important := false }.finish nodes) :=
  attachComments_markAllImportant call.comments nodes

/-- What a call settles on does not depend on whether it is important, and neither does carrying it
out but for the nodes at the end. -/
theorem Call.expand_marked :
    { call with important := true }.expand expand caller =
      mapPropertiesOf Property.marked <$>
        { call with important := false }.expand expand caller := by
  have hcarryOut : ∀ selected, { call with important := true }.carryOut expand caller selected =
      mapPropertiesOf Property.marked <$>
        { call with important := false }.carryOut expand caller selected := by
    intro selected
    cases selected with
    | none => rfl
    | some selected => simp only [Call.carryOut, Call.finish_marked, map_bind, map_pure]
  have hselect : { call with important := true }.select caller =
      { call with important := false }.select caller := rfl
  rw [Call.expand_eq, Call.expand_eq, map_bind, hselect, funext hcarryOut]

/-- A call that is important and the same call that is not, from any state. They leave the same
state and have a result or the same error, and the nodes of the first are those of the second with
every property in them marked and nothing else changed. It makes no difference whether nodes are
marked before they are flattened or the blocks are afterwards. -/
theorem Call.expand_important (p : Progress) :
    let plain := ({ call with important := false }.expand expand caller).run p
    let marked := ({ call with important := true }.expand expand caller).run p
    (marked.2 = plain.2 ∧ marked.1 = plain.1.map (mapPropertiesOf Property.marked)) ∧
    ∀ (parents : List String) (nodes : List Node),
      blocksOf parents (Node.markAllImportant nodes) =
        Block.mapPropertiesOf Property.marked (blocksOf parents nodes) ∧
      properties (Node.markAllImportant nodes) = (properties nodes).map Property.marked := by
  intro plain marked
  have hmarked : marked = (plain.1.map (mapPropertiesOf Property.marked), plain.2) := by
    show (Call.expand _ expand caller).run p = _
    rw [Call.expand_marked, run_map]
  refine ⟨⟨by rw [hmarked], by rw [hmarked]⟩, fun parents nodes => ?_⟩
  rw [markAllImportant_eq]
  exact ⟨blocksOf_mapProperties parents nodes, properties_mapProperties nodes⟩

end

end LessSheet
