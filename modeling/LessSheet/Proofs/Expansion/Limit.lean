import LessSheet.Compile
import LessSheet.Proofs.Script.Steps

/-! # The limit on nested calls

A limit on the calls that are expanded inside each other only ever ends an expansion: it influences
nothing else. So an expansion that does not hit its limit is the same under every higher one
(`Stylesheet.evaluate_limit`).

`Agrees x y` compares two scripts that differ in the limit: from any state, `x` hits its limit or
`y` does exactly what `x` does. It goes through everything an expansion is made of, and through the
recursion by induction on the levels that are left.
-/

namespace LessSheet

open Script

/-- A result that comes from calls nested too deeply. -/
def HitsLimit {α : Type} (r : Except Error α) : Prop :=
  ∃ name limit, r = .error (.tooDeep name limit)

/-- From any state the first script hits its limit, or the second does the same as the first. -/
def Agrees {α : Type} (x y : Expand α) : Prop :=
  ∀ p, HitsLimit (x.run p).1 ∨ y.run p = x.run p

section
variable {α β : Type}

/-- Every script agrees with itself. -/
theorem Agrees.refl (x : Expand α) : Agrees x x := fun _ => .inr rfl

/-- What follows two scripts that agree may differ like them, if it passes on that a limit was
hit. -/
theorem Agrees.andThen {x y : Expand α} {j k : Except Error α → Expand β} (h : Agrees x y)
    (hlimit : ∀ r q, HitsLimit r → HitsLimit ((j r).run q).1) (hjk : ∀ r, Agrees (j r) (k r)) :
    Agrees (x.andThen j) (y.andThen k) := by
  intro p
  rw [run_andThen, run_andThen]
  rcases h p with h | h
  · exact .inl (hlimit _ _ h)
  · rw [h]
    exact hjk _ _

/-- Steps that agree, with continuations that do. -/
theorem Agrees.bind {x y : Expand α} {f g : α → Expand β} (h : Agrees x y)
    (hfg : ∀ a, Agrees (f a) (g a)) : Agrees (x >>= f) (y >>= g) := by
  refine h.andThen ?_ fun r => ?_
  · rintro r q ⟨name, limit, rfl⟩
    exact ⟨name, limit, rfl⟩
  · cases r with
    | ok a => exact hfg a
    | error e => exact .refl _

/-- One step before continuations that agree. -/
theorem Agrees.after (x : Expand α) {f g : α → Expand β} (hfg : ∀ a, Agrees (f a) (g a)) :
    Agrees (x >>= f) (x >>= g) := (Agrees.refl x).bind hfg

/-- Going back to a snapshot afterwards passes on any error. -/
theorem Agrees.restoring {x y : Expand α} (h : Agrees x y) (snapshot : Snapshot) :
    Agrees (Expand.restoring snapshot x) (Expand.restoring snapshot y) :=
  h.andThen (fun _ _ hr => hr) fun _ => .refl _

/-- Going one level deeper passes on any error. -/
theorem Agrees.nested {x y : Expand α} (h : Agrees x y) :
    Agrees (Expand.nested x) (Expand.nested y) := by
  have hback := h.andThen (j := fun r => Script.level (· - 1) fun _ => Script.done r)
    (fun _ _ hr => hr) fun _ => .refl _
  exact fun p => hback { p with depth := p.depth + 1 }

/-- A lower limit is hit, or it makes no difference which of the two limits there is. -/
theorem Agrees.deeper {x y : Expand α} (h : Agrees x y) (name : String) {L L' : Nat}
    (hL : L ≤ L') : Agrees (Expand.deeper L (.tooDeep name L) x)
      (Expand.deeper L' (.tooDeep name L') y) := by
  intro p
  simp only [Expand.deeper, run_level, id_eq]
  by_cases hdepth : L ≤ p.depth
  · rw [if_pos hdepth]
    exact .inl ⟨name, L, rfl⟩
  · have hdepth' : ¬ L' ≤ p.depth := by omega
    rw [if_neg hdepth, if_neg hdepth']
    exact h.nested p

end

/-! ## Calls -/

/-- Two ways to expand what a call reaches that agree. -/
def Expander.Agrees (d e : Expander) : Prop := ∀ fetched, LessSheet.Agrees (d fetched) (e fetched)

variable {d e : Expander}

/-- Chosen candidates, expanded in turn in two ways that agree. -/
theorem expandSelected_agrees (h : d.Agrees e) (caller : ScopeId) (selected : List Selected) :
    Agrees (expandSelected d caller selected) (expandSelected e caller selected) := by
  induction selected with
  | nil => exact .refl _
  | cons s rest ih =>
    refine (h _).bind fun expanded => ?_
    exact .after _ fun exports => ih.bind fun _ => .refl _

/-- Calls find and choose their candidates without recursion, so only the bodies may differ. -/
theorem Call.expand_agrees (h : d.Agrees e) (call : Call) (caller : ScopeId) :
    Agrees (call.expand d caller) (call.expand e caller) := by
  refine .after _ fun args => .after _ fun candidates => ?_
  split
  · exact .refl _
  · refine .after _ fun trials => .after _ fun _ => ?_
    exact (expandSelected_agrees h caller _).bind fun _ => .refl _

/-- The body of a detached ruleset is expanded by the two ways. -/
theorem expandDetached_agrees (h : d.Agrees e) (caller : ScopeId) (name : String)
    (comments : Comments) :
    Agrees (expandDetached d caller name comments) (expandDetached e caller name comments) := by
  refine .after _ fun v => ?_
  split
  · exact .after _ fun working => (h _).bind fun _ => .refl _
  · exact .refl _

/-! ## Statements -/

section
variable {i j : ScopeId → Expand (List Css.Node)}

/-- A rule guarded alike, with bodies that agree in every scope. -/
theorem expandRule_agrees (h : ∀ u, Agrees (i u) (j u)) (scope : ScopeId) (selectors : List String)
    (guard : Option Condition) :
    Agrees (expandRule scope selectors guard i) (expandRule scope selectors guard j) := by
  refine .after _ fun applies => ?_
  split
  · exact .after _ fun _ => .after _ fun child => (h child).bind fun _ => .refl _
  · exact .refl _

/-- An at-rule with bodies that agree in every scope. -/
theorem expandAtRule_agrees (h : ∀ u, Agrees (i u) (j u)) (scope : ScopeId)
    (name params : String) :
    Agrees (expandAtRule scope name params i) (expandAtRule scope name params j) :=
  .after _ fun _ => .after _ fun child => (h child).bind fun _ => .refl _

/-- Hoisting comes first in both, and then what agrees. -/
theorem enterBlock_agrees (h : ∀ u, Agrees (i u) (j u)) (body : List Item) (scope : ScopeId) :
    Agrees (enterBlock body i scope) (enterBlock body j scope) := .after _ fun _ => h scope

end

mutual

/-- Items, expanded in two ways that agree, by recursion on what they contain. -/
theorem Item.expand_agrees (h : d.Agrees e) (scope : ScopeId) :
    ∀ item : Item, Agrees (item.expand d scope) (item.expand e scope)
  | .assign _ _ | .declaration _ | .mixin _ _ => .refl _
  | .rule ⟨selectors, guard, body⟩ =>
    expandRule_agrees (enterBlock_agrees (fun u => expandItems_agrees h u body) body) scope
      selectors guard
  | .atRule name params body =>
    expandAtRule_agrees (enterBlock_agrees (fun u => expandItems_agrees h u body) body) scope
      name params
  | .call call => call.expand_agrees h scope
  | .detachedCall name comments => expandDetached_agrees h scope name comments

/-- Items one after the other. -/
theorem expandItems_agrees (h : d.Agrees e) (scope : ScopeId) :
    ∀ items : List Item, Agrees (expandItems d scope items) (expandItems e scope items)
  | [] => .refl _
  | item :: rest =>
    (Item.expand_agrees h scope item).bind fun _ =>
      (expandItems_agrees h scope rest).bind fun _ => .refl _

end

/-- A block, hoisted and expanded in two ways that agree. -/
theorem expandBlock_agrees (h : d.Agrees e) (body : List Item) (scope : ScopeId) :
    Agrees (expandBlock d body scope) (expandBlock e body scope) :=
  enterBlock_agrees (fun u => expandItems_agrees h u body) body scope

/-! ## The recursion through calls -/

/-- The body that a call reaches, in its fresh scope. -/
theorem expandFetched_agrees (h : d.Agrees e) :
    Expander.Agrees (expandFetched d) (expandFetched e) := by
  intro fetched
  refine .after _ fun snapshot => .after _ fun scope => ?_
  exact ((expandBlock_agrees h fetched.body scope).restoring snapshot).bind fun _ => .refl _

/-- Expanding what a call reaches agrees with doing so under a higher limit and with more levels
left. -/
theorem expandBody_agrees {L L' : Nat} (hL : L ≤ L') {left left' : Nat} (hleft : left ≤ left') :
    Expander.Agrees (expandBody L left) (expandBody L' left') := by
  induction left generalizing left' with
  | zero => exact fun fetched p => .inl ⟨fetched.name, L, rfl⟩
  | succ left ih =>
    obtain ⟨more, rfl⟩ : ∃ more, left' = more + 1 := ⟨left' - 1, by omega⟩
    have hmore := ih (show left ≤ more by omega)
    exact fun fetched => (expandFetched_agrees hmore fetched).deeper fetched.name hL

/-! ## Whole stylesheets -/

/-- If a stylesheet is evaluated without hitting a limit, then under every higher limit it comes to
exactly the same: the same sheet with the same problems in the same order, or the same error. So
where a limit is hit, every lower one is. -/
theorem Stylesheet.evaluate_limit (sheet : Stylesheet) {L L' : Nat} (hL : L ≤ L') :
    (¬ HitsLimit (sheet.evaluate L) → sheet.evaluate L' = sheet.evaluate L) ∧
    (HitsLimit (sheet.evaluate L') → HitsLimit (sheet.evaluate L)) := by
  have hagrees : Agrees (sheet.script L) (sheet.script L') :=
    expandBlock_agrees (expandBody_agrees hL hL) sheet.body Arena.root
  have key : HitsLimit (sheet.evaluate L) ∨ sheet.evaluate L' = sheet.evaluate L := by
    rcases hagrees Progress.start with ⟨name, limit, h⟩ | h
    · refine .inl ⟨name, limit, ?_⟩
      rw [evaluate, expand, ← Prod.eta ((sheet.script L).run Progress.start), h]
    · refine .inr ?_
      rw [evaluate, evaluate, expand, expand, h]
  refine ⟨fun h => key.resolve_left h, fun h => ?_⟩
  rcases key with hit | heq
  · exact hit
  · exact heq ▸ h

/-- A rule that calls a mixin needs one level, so two make no difference. -/
theorem Stylesheet.evaluate_limit_call :
    let sheet : Stylesheet := ⟨[], [
      .mixin ⟨0, 1⟩ ⟨".m", [], none, [.assign "a" (.keyword "x")]⟩,
      .rule ⟨["p"], none, [.call ⟨[".m"], [], false, {}⟩]⟩]⟩
    sheet.evaluate 2 = sheet.evaluate 1 := by
  intro sheet
  refine (Stylesheet.evaluate_limit sheet (by decide : 1 ≤ 2)).1 ?_
  rintro ⟨name, limit, h⟩
  cases h

end LessSheet
