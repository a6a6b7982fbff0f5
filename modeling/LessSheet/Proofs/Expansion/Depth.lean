import LessSheet.Expansion
import LessSheet.Proofs.Script.Steps

/-! # Steps that stay at their depth

Expanding the body of a call raises the depth, and comes down again when it is through. Nothing else
in an expansion touches the depth: finding the candidates of a call, opening namespaces on the way,
binding parameters, evaluating guards and exporting names are scripts without a change of it
(`Script.Flat`). So none of them expands a body, whatever it finds in the arena, and each leaves the
depth it was started at (`Script.Flat.depth`).
-/

namespace LessSheet

namespace Script

variable {ε ε' α β : Type}

/-- No operation of the script reads or sets the depth. -/
def Flat : Script ε α → Prop
  | .done _ => True
  | .look _ next => ∀ a, (next a).Flat
  | .mark _ _ next => ∀ snapshot, (next snapshot).Flat
  | .create _ next => ∀ s, (next s).Flat
  | .change _ next => next.Flat
  | .report _ next => next.Flat
  | .level _ _ => False

/-- A script that stays at its depth leaves the depth it was started at. -/
theorem Flat.depth {x : Script ε α} (h : x.Flat) (p : Progress) :
    (x.run p).2.depth = p.depth := by
  induction x generalizing p with
  | done r => rfl
  | look _ next ih => exact ih _ (h _) p
  | mark _ _ next ih => exact ih _ (h _) p
  | create c next ih => exact ih _ (h _) _
  | change c next ih => exact ih h _
  | report more next ih => exact ih h _
  | level f next ih => exact h.elim

/-- Going on, whatever the outcome is, with scripts that leave the depth alone. -/
theorem Flat.andThen {x : Script ε α} {k : Except ε α → Script ε' β} (h : x.Flat)
    (hk : ∀ r, (k r).Flat) : (x.andThen k).Flat := by
  induction x with
  | done r => exact hk r
  | look _ next ih => exact fun a => ih a (h a)
  | mark _ _ next ih => exact fun snapshot => ih snapshot (h snapshot)
  | create c next ih => exact fun s => ih s (h s)
  | change c next ih => exact ih h
  | report more next ih => exact ih h
  | level f next ih => exact h.elim

/-- Going on with a result. -/
theorem Flat.bind {x : Script ε α} {f : α → Script ε β} (h : x.Flat) (hf : ∀ a, (f a).Flat) :
    (x >>= f).Flat :=
  h.andThen fun
    | .ok a => hf a
    | .error _ => trivial

/-- Errors in other terms are no further operations. -/
theorem Flat.mapError {x : Script ε α} (h : x.Flat) (f : ε → ε') : (x.mapError f).Flat :=
  h.andThen fun _ => trivial

end Script

open Script

/-- Creating a scope is one operation, and not on the depth. -/
theorem Scoped.create_flat (c : Creation) : (Scoped.create c).Flat := fun _ => trivial

/-- A change of the arena is one operation, and not on the depth. -/
theorem Scoped.change_flat (c : Change) : (Scoped.change c).Flat := trivial

/-- Taking a snapshot is one operation, and not on the depth. -/
theorem Scoped.mark_flat (scope : ScopeId) (kind : Snapshot.Kind) :
    (Scoped.mark scope kind).Flat := fun _ => trivial

/-- Reading the arena is one operation, and not on the depth. -/
theorem Scoped.observe_flat {α : Type} (scopes : List ScopeId) (f : Arena → Except EvalError α) :
    (Scoped.observe scopes f).Flat := fun _ => trivial

/-- Work on the scopes leaves the depth alone as a part of the expansion too. -/
theorem Expand.onScopes_flat {α : Type} {x : Scoped α} (h : x.Flat) : (Expand.onScopes x).Flat :=
  h.mapError _

/-- Evaluating something in a scope reads the arena and nothing else. -/
theorem Expand.view_flat {α : Type} (scope : ScopeId) (f : View → Except EvalError α) :
    (Expand.view scope f).Flat := onScopes_flat (Scoped.observe_flat _ _)

/-- Problems are noted without regard to the depth. -/
theorem Expand.report_flat (problems : List Problem) : (Expand.report problems).Flat := trivial

/-! ## Namespaces -/

/-- Registering what a statement defines reads the log and adds to it. -/
theorem hoistItem_flat (scope : ScopeId) (item : Item) : (hoistItem scope item).Flat := by
  refine (Scoped.observe_flat _ _).bind fun found => ?_
  cases found with
  | none => exact trivial
  | some r => exact Scoped.change_flat _

/-- Registering what a block defines goes through its statements. -/
theorem hoist_flat (scope : ScopeId) (body : List Item) : (hoist scope body).Flat := by
  induction body with
  | nil => exact trivial
  | cons item rest ih => exact (hoistItem_flat scope item).bind fun _ => ih

/-- Evaluating the variables of a namespace, each in turn. -/
theorem defineVariables_flat (scope : ScopeId) (body : List Item) :
    (defineVariables scope body).Flat := by
  induction body with
  | nil => exact trivial
  | cons item rest ih =>
    cases item with
    | assign name value =>
      exact (Scoped.observe_flat _ _).bind fun v => (Scoped.change_flat _).bind fun _ => ih
    | _ => exact ih

/-- Opening a namespace expands none of its statements. -/
theorem openNamespace_flat (r : Registration) : (openNamespace r).Flat :=
  (Scoped.create_flat _).bind fun scope =>
    (hoist_flat scope _).bind fun _ => (defineVariables_flat scope _).bind fun _ => trivial

/-- Opening a namespace and looking for its members expands no body. -/
theorem namespaceMembers_flat (caller : ScopeId) (name : String) (arity : Option Nat)
    (c : Candidate) : (namespaceMembers caller name arity c).Flat :=
  (openNamespace_flat _).bind fun _ =>
    (Scoped.create_flat _).bind fun _ => (Scoped.observe_flat _ _).bind fun _ => trivial

/-- A look-up for mixins only reads. -/
theorem visibleMixins_flat (scope : ScopeId) (name : String) (arity : Option Nat) :
    (visibleMixins scope name arity).Flat := (Scoped.observe_flat _ _).bind fun _ => trivial

/-! ## Trials -/

/-- Binding a parameter evaluates its default at most. -/
theorem bindSlot_flat (scope : ScopeId) (rest : List Value) (slot : Slot) :
    (bindSlot scope rest slot).Flat := by
  have hdefine : ∀ name value (values : List Value),
      (Scoped.define scope name value >>= fun _ => pure values : Scoped _).Flat :=
    fun _ _ _ => (Scoped.change_flat _).bind fun _ => trivial
  rcases slot with ⟨⟨name, _ | default⟩ | ⟨_ | name⟩ | e, _ | value⟩
  case named.some.none => exact (Scoped.observe_flat _ _).bind fun v => hdefine name v _
  case named.none.some | named.some.some => exact hdefine _ _ _
  case rest.some.none | rest.some.some => exact hdefine _ _ _
  all_goals exact trivial

/-- Binding parameters, one after the other. -/
theorem bindSlots_flat (scope : ScopeId) (rest : List Value) (slots : List Slot) :
    (bindSlots scope rest slots).Flat := by
  induction slots with
  | nil => exact trivial
  | cons slot slots ih =>
    exact (bindSlot_flat scope rest slot).bind fun _ => ih.bind fun _ => trivial

/-- Binding arguments that have their places, in a new scope. -/
theorem Placement.bind_flat (closure : ScopeId) (placement : Placement) :
    (placement.bind closure).Flat :=
  (Scoped.create_flat _).bind fun scope =>
    (bindSlots_flat scope _ _).bind fun _ => (Scoped.change_flat _).bind fun _ => trivial

/-- Binding the arguments of a call, whether they fit or not. -/
theorem Mixin.bind_flat (m : Mixin) (closure : ScopeId) (call : String) (args : List Actual) :
    (m.bind closure call args).Flat := by
  unfold Mixin.bind
  split
  · exact trivial
  · refine (Scoped.observe_flat _ _).bind fun fault => ?_
    cases fault with
    | none => exact Placement.bind_flat closure _
    | some fault => exact trivial

/-- Binding a candidate and evaluating its guards does not expand its body. -/
theorem Candidate.attempt_flat (c : Candidate) (call : String) (args : List Actual)
    (caller : ScopeId) : (c.attempt call args caller).Flat := by
  refine (Mixin.bind_flat _ _ call args).bind fun binding => ?_
  cases binding with
  | bound scope =>
    exact (Scoped.create_flat _).bind fun _ => (Scoped.observe_flat _ _).bind fun _ => trivial
  | patternMismatch => exact trivial
  | rejected problem => exact trivial

/-- Trying a candidate, with all its guards, expands no body. -/
theorem Candidate.trial_flat (c : Candidate) (call : String) (args : List Actual)
    (caller : ScopeId) : (c.trial call args caller).Flat := by
  refine (Scoped.mark_flat _ _).bind fun snapshot =>
    (c.attempt_flat call args caller).bind fun t => ?_
  unfold Trial.settle
  split
  · exact trivial
  · exact (Scoped.change_flat _).bind fun _ => trivial

/-- Trying candidates, one after the other. -/
theorem tryAll_flat (call : String) (args : List Actual) (caller : ScopeId)
    (candidates : List Candidate) : (tryAll call args caller candidates).Flat := by
  induction candidates with
  | nil => exact trivial
  | cons c rest ih =>
    exact (c.trial_flat call args caller).bind fun _ => ih.bind fun _ => trivial

/-- Evaluating the guard of a rule expands no body. -/
theorem ruleApplies_flat (scope : ScopeId) (guard : Option Condition) :
    (ruleApplies scope guard).Flat := by
  cases guard with
  | none => exact trivial
  | some guard => exact Expand.onScopes_flat (Scoped.observe_flat _ _)

/-! ## Arguments and exports -/

/-- Evaluating the arguments of a call. -/
theorem evalArguments_flat (caller : ScopeId) (args : List Argument) :
    (evalArguments caller args).Flat := by
  induction args with
  | nil => exact trivial
  | cons arg rest ih => exact (Expand.view_flat _ _).bind fun _ => ih.bind fun _ => trivial

/-- A value that is exported may need a join, and nothing more. -/
theorem exportValue_flat (caller : ScopeId) (value : Value) : (exportValue caller value).Flat := by
  cases value with
  | ruleset site body scope => exact (Scoped.create_flat _).bind fun _ => trivial
  | _ => exact trivial

/-- Exporting variables, one after the other. -/
theorem exportVariables_flat (caller exports : ScopeId) (vars : List (String × Value)) :
    (exportVariables caller exports vars).Flat := by
  induction vars with
  | nil => exact trivial
  | cons var rest ih =>
    exact (exportValue_flat caller _).bind fun _ => (Scoped.change_flat _).bind fun _ => ih

/-- Exporting mixins, one after the other. -/
theorem exportMixins_flat (exports : ScopeId) (rs : List Registration) :
    (exportMixins exports rs).Flat := by
  induction rs with
  | nil => exact trivial
  | cons r rest ih => exact (Scoped.change_flat _).bind fun _ => ih

/-- Collecting what a body has defined, once it has been expanded. -/
theorem collectExports_flat (withVariables : Bool) (caller body : ScopeId) :
    (collectExports withVariables caller body).Flat :=
  (Scoped.create_flat _).bind fun exports => (Scoped.observe_flat _ _).bind fun vars =>
    (exportVariables_flat caller exports vars).bind fun _ =>
      (Scoped.observe_flat _ _).bind fun rs => (exportMixins_flat exports rs).bind fun _ => trivial

/-- Staging exports, one after the other. -/
theorem stageAll_flat (caller : ScopeId) (exports : List ScopeId) :
    (stageAll caller exports).Flat := by
  induction exports with
  | nil => exact trivial
  | cons e rest ih => exact (Scoped.change_flat _).bind fun _ => ih

/-- Bringing exports into force: opening a stage, staging and committing. -/
theorem commitExports_flat (caller : ScopeId) (exports : List ScopeId) :
    (commitExports caller exports).Flat :=
  (Scoped.change_flat _).bind fun _ =>
    (stageAll_flat caller exports).bind fun _ => Scoped.change_flat _

end LessSheet
