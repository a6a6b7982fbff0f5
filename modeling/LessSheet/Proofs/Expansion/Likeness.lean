import LessSheet.Expansion
import LessSheet.Proofs.Css.Importance
import LessSheet.Proofs.Script.Likeness

/-! # Blocks that are alike expand alike

Every script of the expansion is alike to the one of a stylesheet that is alike (`Script.Alike`),
from placing arguments to the recursion through calls (`expandBody_alike`). The proofs follow the
scripts.

Only two of them look at the order of a block's statements beyond carrying them out one by one.
Registering mixins passes over all other statements, and carrying out statements passes over mixin
definitions, so a definition that is moved past statements that define nothing callable changes
neither (`hoist_move`, `expandItems_move`).
-/

namespace LessSheet

open Script
open List (Forall₂)

variable {D : Diction}

/-! ## Placing arguments -/

/-- Arguments of one name with values that are alike. -/
structure Actual.Alike (D : Diction) (x y : Actual) : Prop where
  name : y.name = x.name
  value : Value.Alike D x.value y.value

/-- Parameters that are alike, with nothing given or values that are alike. -/
structure Slot.Alike (D : Diction) (x y : Slot) : Prop where
  param : Param.Alike D.leaf x.param y.param
  value : Option.Rel (Value.Alike D) x.value y.value

/-- Arguments that are placed in parameters alike, with others left that are alike. -/
structure Placement.Alike (D : Diction) (x y : Placement) : Prop where
  slots : Forall₂ (Slot.Alike D) x.slots y.slots
  rest : Forall₂ (Value.Alike D) x.rest y.rest
  surplus : Forall₂ (Value.Alike D) x.surplus y.surplus

/-- A named argument is placed by names, which are the same in both. -/
theorem placeNamed_alike (name : String) {v w : Value} (hvw : Value.Alike D v w)
    {xs ys : List Slot} (h : Forall₂ (Slot.Alike D) xs ys) :
    Outcome.Alike (Forall₂ (Slot.Alike D)) (placeNamed name v xs) (placeNamed name w ys) := by
  induction h with
  | nil => exact .error _
  | @cons x y _ _ hxy hrest ih =>
    rw [placeNamed, placeNamed, hxy.param.kind.2.2, isSome_of_rel hxy.value]
    split
    · split
      · exact .error _
      · exact .ok (.cons ⟨hxy.param, .some hvw⟩ hrest)
    · exact ih.bind fun _ _ hslots => .ok (.cons hxy hslots)

/-- Named arguments have the same places, or the first without one has the same fault. -/
theorem placeAllNamed_alike (reject : NamedFault → String → Problem) {as bs : List Actual}
    (h : Forall₂ (Actual.Alike D) as bs) {xs ys : List Slot}
    (hslots : Forall₂ (Slot.Alike D) xs ys) :
    Outcome.Alike (Forall₂ (Slot.Alike D)) (placeAllNamed reject as xs)
      (placeAllNamed reject bs ys) := by
  induction h generalizing xs ys with
  | nil => exact .ok hslots
  | @cons a b _ _ hab _ ih =>
    obtain ⟨name, v⟩ := a
    obtain ⟨name', w⟩ := b
    obtain ⟨hname, hvw⟩ := hab
    cases hname
    cases name with
    | none => exact ih hslots
    | some name =>
      have hplaced := placeNamed_alike name hvw hslots
      simp only [placeAllNamed]
      generalize placeNamed name v xs = r at hplaced ⊢
      generalize placeNamed name w ys = s at hplaced ⊢
      cases hplaced with
      | ok hslots => exact ih hslots
      | error fault => exact .error _

/-- Positional arguments are placed by kinds of parameters, which are the same in both. -/
theorem placePositional_alike {xs ys : List Slot} (h : Forall₂ (Slot.Alike D) xs ys)
    {vs ws : List Value} (hvalues : Forall₂ (Value.Alike D) vs ws) :
    Placement.Alike D (placePositional xs vs) (placePositional ys ws) := by
  induction h generalizing vs ws with
  | nil => exact ⟨.nil, .nil, hvalues⟩
  | @cons x y _ _ hxy _ ih =>
    obtain ⟨param, value⟩ := x
    obtain ⟨param', value'⟩ := y
    obtain ⟨hparam, hvalue⟩ := hxy
    simp only [placePositional, hparam.kind.1]
    split
    · have hplaced := ih .nil
      exact ⟨.cons ⟨hparam, hvalue⟩ hplaced.slots, List.rel_append hvalues hplaced.rest,
        hplaced.surplus⟩
    · cases hvalue with
      | some hvalue =>
        have hplaced := ih hvalues
        exact ⟨.cons ⟨hparam, .some hvalue⟩ hplaced.slots, hplaced.rest, hplaced.surplus⟩
      | none =>
        cases hvalues with
        | nil =>
          have hplaced := ih .nil
          exact ⟨.cons ⟨hparam, .none⟩ hplaced.slots, hplaced.rest, hplaced.surplus⟩
        | cons hvw hvalues =>
          have hplaced := ih hvalues
          exact ⟨.cons ⟨hparam, .some hvw⟩ hplaced.slots, hplaced.rest, hplaced.surplus⟩

/-- Lists that are related one by one are empty together. -/
theorem isEmpty_of_forall₂ {α β : Type} {R : α → β → Prop} {xs : List α} {ys : List β}
    (h : Forall₂ R xs ys) : ys.isEmpty = xs.isEmpty := by
  cases h <;> rfl

/-- Arguments that are alike fit mixins that are in the same way, or not for the same reason. -/
theorem Mixin.place_alike {m n : Mixin} (hmn : Mixin.Alike D.leaf m n) (call : String)
    {as bs : List Actual} (h : Forall₂ (Actual.Alike D) as bs) :
    Outcome.Alike (Placement.Alike D) (m.place call as) (n.place call bs) := by
  have hslots : Forall₂ (Slot.Alike D) (m.params.map fun p => ⟨p, none⟩)
      (n.params.map fun p => ⟨p, none⟩) :=
    List.rel_map (fun _ _ hpq => ⟨hpq, .none⟩) hmn.params
  have hpositional : Forall₂ (Value.Alike D)
      (as.filterMap fun a => if a.name.isNone then some a.value else none)
      (bs.filterMap fun b => if b.name.isNone then some b.value else none) := by
    refine List.rel_filterMap (fun a b hab => ?_) h
    rw [hab.name]
    split
    · exact .some hab.value
    · exact .none
  simp only [Mixin.place, hmn.arityMismatch, ← h.length_eq]
  refine (placeAllNamed_alike _ h hslots).bind fun xs ys hplaced => ?_
  have hplacement := placePositional_alike hplaced hpositional
  rw [isEmpty_of_forall₂ hplacement.surplus]
  split
  · exact .ok hplacement
  · exact .error _

/-! ## Binding arguments -/

section
variable (hD : D.Lawful)
include hD

/-- A check of the parameters has the same outcome: patterns that are alike match alike. -/
theorem checkSlots_alike (arity : Problem) {v w : View} (hvw : View.Alike D v w)
    {xs ys : List Slot} (h : Forall₂ (Slot.Alike D) xs ys) :
    checkSlots arity w ys = checkSlots arity v xs := by
  induction h with
  | nil => rfl
  | @cons x y _ _ hxy _ ih =>
    obtain ⟨param, value⟩ := x
    obtain ⟨param', value'⟩ := y
    obtain ⟨hparam, hvalue⟩ := hxy
    cases hparam with
    | pattern hexpr =>
      cases hvalue with
      | none => rfl
      | some hvalue =>
        refine Outcome.Alike.eq ((hexpr.eval hD hvw).bind fun a b hab => ?_)
        rw [hab.compare hvalue, ih]
        exact .refl _
    | named name => cases hvalue <;> first | rfl | exact ih
    | default name _ => cases hvalue <;> exact ih
    | rest name => cases hvalue <;> exact ih

/-- A parameter is bound to values that are alike, be they given or defaults. -/
theorem bindSlot_alike (s : ScopeId) {vs ws : List Value} (hrest : Forall₂ (Value.Alike D) vs ws)
    {x y : Slot} (h : Slot.Alike D x y) :
    Script.Alike D (Forall₂ (Value.Alike D)) (bindSlot s vs x) (bindSlot s ws y) := by
  obtain ⟨param, value⟩ := x
  obtain ⟨param', value'⟩ := y
  obtain ⟨hparam, hvalue⟩ := h
  have hgiven : ∀ (name : String) (v w : Value), Value.Alike D v w →
      Script.Alike D (Forall₂ (Value.Alike D))
        (Scoped.define s name v >>= fun _ => pure [v])
        (Scoped.define s name w >>= fun _ => pure [w]) := fun name v w hvw =>
    (Scoped.alike_define s name hvw).bind fun _ _ _ => .pure (.cons hvw .nil)
  cases hparam with
  | named name =>
    cases hvalue with
    | none => exact .pure .nil
    | some hvw => exact hgiven name _ _ hvw
  | default name hexpr =>
    cases hvalue with
    | none => exact (Scoped.alike_eval hD s hexpr).bind fun v w hvw => hgiven name v w hvw
    | some hvw => exact hgiven name _ _ hvw
  | rest name =>
    cases name with
    | none => exact .pure hrest
    | some name =>
      exact (Scoped.alike_define s name (.list .space (Value.listAlike_of_forall₂ hrest))).bind
        fun _ _ _ => .pure hrest
  | pattern _ =>
    cases hvalue with
    | none => exact .pure .nil
    | some hvw => exact .pure (.cons hvw .nil)

/-- Parameters are bound one after the other, each to values that are alike. -/
theorem bindSlots_alike (s : ScopeId) {vs ws : List Value} (hrest : Forall₂ (Value.Alike D) vs ws)
    {xs ys : List Slot} (h : Forall₂ (Slot.Alike D) xs ys) :
    Script.Alike D (Forall₂ (Value.Alike D)) (bindSlots s vs xs) (bindSlots s ws ys) := by
  induction h with
  | nil => exact .pure .nil
  | cons hxy _ ih =>
    refine (bindSlot_alike hD s hrest hxy).bind fun _ _ hvalues => ?_
    exact ih.bind fun _ _ hmore => .pure (List.rel_append hvalues hmore)

/-- The new scope has the same number, and its log is alike. -/
theorem Placement.bind_alike (closure : ScopeId) {x y : Placement} (h : Placement.Alike D x y) :
    Script.Alike D Eq (x.bind closure) (y.bind closure) := by
  refine (Scoped.alike_create (.child closure)).bind ?_
  rintro s _ rfl
  refine (bindSlots_alike hD s h.rest h.slots).bind fun _ _ hvalues => ?_
  refine (Scoped.alike_define s _ (.list .space (Value.listAlike_of_forall₂ hvalues))).bind ?_
  exact fun _ _ _ => .pure rfl

/-- Arguments are bound in the same scope, or do not fit for the same reason. -/
theorem Mixin.bind_alike {m n : Mixin} (hmn : Mixin.Alike D.leaf m n) (closure : ScopeId)
    (call : String) {as bs : List Actual} (h : Forall₂ (Actual.Alike D) as bs) :
    Script.Alike D Eq (m.bind closure call as) (n.bind closure call bs) := by
  have hplaced := Mixin.place_alike hmn call h
  rw [Mixin.bind, Mixin.bind, hmn.arityMismatch, ← h.length_eq]
  generalize m.place call as = x at hplaced ⊢
  generalize n.place call bs = y at hplaced ⊢
  cases hplaced with
  | error problem => exact .pure rfl
  | ok hplacement =>
    refine Script.Alike.bind (R := Eq) (Scoped.alike_observe fun a b hab => ?_) ?_
    · rw [checkSlots_alike hD _ (hab.view closure none) hplacement.slots]
      exact .refl _
    · rintro fault _ rfl
      cases fault with
      | some fault => exact .pure rfl
      | none => exact Placement.bind_alike hD closure hplacement

end

/-! ## Registering mixins -/

/-- Statements that are alike define mixins that are, of the same origin, or nothing. -/
theorem Item.registration?_alike {x y : Item} (h : Item.Alike D.leaf x y) (s : ScopeId)
    (position : Nat) : Option.Rel (Registration.Alike D) (x.registration? s position)
      (y.registration? s position) := by
  cases h with
  | rule selectors hguard hbody =>
    simp only [Item.registration?, Rule.mixinName?]
    split
    · split
      · exact .some ⟨rfl, rfl, .mk _ .nil hguard hbody⟩
      · exact .none
    · exact .none
  | mixin site hmn => exact .some ⟨rfl, rfl, hmn⟩
  | declaration _ _ _ _ | atRule _ _ _ | detachedCall _ _ | assign _ _ | call _ _ _ _ => exact .none

/-- Registering what statements define that are alike. -/
theorem hoistItem_alike (s : ScopeId) {x y : Item} (h : Item.Alike D.leaf x y) :
    Script.Alike D Eq (hoistItem s x) (hoistItem s y) := by
  refine Script.Alike.bind (R := Option.Rel (Registration.Alike D))
    (Scoped.alike_observe fun a b hab => ?_) fun r q hrq => ?_
  · rw [← (hab.log s).length_eq]
    exact .ok (Item.registration?_alike h s _)
  · cases hrq with
    | none => exact .pure rfl
    | some hrq => exact Scoped.alike_register s hrq

/-- A statement that defines nothing callable registers nothing. -/
theorem hoistItem_of_isQuiet {x : Item} (h : x.isQuiet) (s : ScopeId) (p : Progress) :
    (hoistItem s x).run p = (.ok (), p) := by
  have hnone : ∀ position, x.registration? s position = none := by
    intro position
    cases x with
    | mixin _ _ => cases h
    | rule r =>
      have hr : r.mixinName? = none := Option.isNone_iff_eq_none.1 h
      rw [Item.registration?, hr, Option.map_none]
    | declaration _ | atRule _ _ _ | detachedCall _ _ | assign _ _ | call _ => rfl
  refine run_bind_ok (a := none) (q := p) ?_
  show (Except.ok (x.registration? s _), p) = _
  rw [hnone]

section
variable {between : List Item} (hquiet : ∀ x ∈ between, x.isQuiet)
include hquiet

/-- Statements that define nothing callable register nothing. -/
theorem hoist_append_of_isQuiet (s : ScopeId) (rest : List Item) (p : Progress) :
    (hoist s (between ++ rest)).run p = (hoist s rest).run p := by
  induction between with
  | nil => rfl
  | cons x between ih =>
    rw [List.forall_mem_cons] at hquiet
    rw [List.cons_append, hoist, run_bind_ok (hoistItem_of_isQuiet hquiet.1 s p)]
    exact ih hquiet.2

/-- A definition may be registered before or after statements that define nothing callable. -/
theorem hoist_move (s : ScopeId) (d : Item) (rest : List Item) (p : Progress) :
    (hoist s (d :: (between ++ rest))).run p = (hoist s (between ++ d :: rest)).run p := by
  rw [hoist_append_of_isQuiet hquiet, hoist, hoist, bind_eq, bind_eq, run_andThen, run_andThen]
  cases ((hoistItem s d).run p).1 with
  | ok _ => exact hoist_append_of_isQuiet hquiet s rest _
  | error e => rfl

end

/-- Blocks that are alike register definitions that are, in the same order: those that were moved
passed none of the others. -/
theorem hoist_alike (s : ScopeId) : ∀ {xs ys : List Item}, Body.Alike D.leaf xs ys →
    Script.Alike D Eq (hoist s xs) (hoist s ys)
  | _, _, .nil => .pure rfl
  | _, _, .cons hxy h => (hoistItem_alike s hxy).bind fun _ _ _ => hoist_alike s h
  | _, _, .later _ _ hquiet h => (hoist_alike s h).of_run (hoist_move hquiet s _ _)
  | _, _, .earlier _ _ hquiet h =>
    (hoist_alike s h).of_run fun p => (hoist_move hquiet s _ _ p).symm

/-! ## Finding candidates -/

/-- A definition among the statements of a namespace is no variable. -/
theorem defineVariables_append (s : ScopeId) (site : Site) (m : Mixin) (between rest : List Item) :
    defineVariables s (between ++ .mixin site m :: rest) = defineVariables s (between ++ rest) := by
  induction between with
  | nil => rfl
  | cons x between ih =>
    cases x with
    | assign name value =>
      simp only [List.cons_append, defineVariables, ih]
    | declaration _ | rule _ | atRule _ _ _ | detachedCall _ _ | mixin _ _ | call _ => exact ih

/-- Candidates with definitions and guards on the way that are alike. -/
structure Candidate.Alike (D : Diction) (c d : Candidate) : Prop where
  registration : Registration.Alike D c.registration d.registration
  pathGuards : Forall₂ (ScopedGuard.Alike D) c.pathGuards d.pathGuards

/-- A guard added to those on the way. -/
theorem guards_alike {gs hs : List ScopedGuard} (h : Forall₂ (ScopedGuard.Alike D) gs hs)
    {g k : Option Condition} (hguard : Guard.Alike D.leaf g k) (s : ScopeId) :
    Forall₂ (ScopedGuard.Alike D) (gs ++ (g.map fun c => (c, s)).toList)
      (hs ++ (k.map fun c => (c, s)).toList) := by
  refine List.rel_append h ?_
  cases hguard with
  | none => exact .nil
  | some hcd => exact .cons ⟨hcd, rfl⟩ .nil

/-- Candidates that are alike for each of several are so for all of them. -/
theorem gather_alike {f g : Candidate → Scoped (List Candidate)}
    (hfg : ∀ c d, Candidate.Alike D c d →
      Script.Alike D (Forall₂ (Candidate.Alike D)) (f c) (g d)) {cs ds : List Candidate}
    (h : Forall₂ (Candidate.Alike D) cs ds) :
    Script.Alike D (Forall₂ (Candidate.Alike D)) (gather f cs) (gather g ds) := by
  induction h with
  | nil => exact .pure .nil
  | cons hcd _ ih =>
    exact (hfg _ _ hcd).bind fun _ _ hfound => ih.bind fun _ _ hmore =>
      .pure (List.rel_append hfound hmore)

/-- Scopes of arenas that are alike see definitions that are. -/
theorem visibleMixins_alike (s : ScopeId) (name : String) (arity : Option Nat) :
    Script.Alike D (Forall₂ (Candidate.Alike D)) (visibleMixins s name arity)
      (visibleMixins s name arity) :=
  Script.Alike.bind (Scoped.alike_observe fun _ _ hab => .ok (hab.lookupMixins s name arity))
    fun _ _ hfound => .pure (List.rel_map (fun _ _ hrq => ⟨hrq, .nil⟩) hfound)

section
variable (hD : D.Lawful)
include hD

/-- Blocks that are alike give the same variables values that are alike. -/
theorem defineVariables_alike (s : ScopeId) : ∀ {xs ys : List Item}, Body.Alike D.leaf xs ys →
    Script.Alike D Eq (defineVariables s xs) (defineVariables s ys)
  | _, _, .nil => .pure rfl
  | _, _, .cons hxy h => by
    have ih := defineVariables_alike s h
    cases hxy with
    | assign name hvalue =>
      refine (Scoped.alike_eval hD s hvalue).bind fun _ _ hvw => ?_
      exact (Scoped.alike_define s name hvw).bind fun _ _ _ => ih
    | declaration _ _ _ _ | rule _ _ _ | atRule _ _ _ | detachedCall _ _ | mixin _ _
    | call _ _ _ _ => exact ih
  | _, _, .later site m _ h => by
    have ih := defineVariables_alike s h
    rw [defineVariables_append] at ih
    exact ih
  | _, _, .earlier site m _ h => by
    have ih := defineVariables_alike s h
    rw [defineVariables_append]
    exact ih

/-- Namespaces that are alike are opened with logs that are. -/
theorem openNamespace_alike {r q : Registration} (h : Registration.Alike D r q) :
    Script.Alike D Eq (openNamespace r) (openNamespace q) := by
  rw [openNamespace, openNamespace, h.closure]
  refine (Scoped.alike_create (.child r.closure)).bind ?_
  rintro s _ rfl
  refine (hoist_alike s h.mixin.body).bind fun _ _ _ => ?_
  exact (defineVariables_alike hD s h.mixin.body).bind fun _ _ _ => .pure rfl

/-- Namespaces that are alike have members that are, with guards on the way that are. -/
theorem namespaceMembers_alike (caller : ScopeId) (name : String) (arity : Option Nat)
    {c d : Candidate} (h : Candidate.Alike D c d) :
    Script.Alike D (Forall₂ (Candidate.Alike D)) (namespaceMembers caller name arity c)
      (namespaceMembers caller name arity d) := by
  refine (openNamespace_alike hD h.registration).bind ?_
  rintro s _ rfl
  refine (Scoped.alike_create (.join caller s)).bind ?_
  rintro guardScope _ rfl
  have hguards := guards_alike h.pathGuards h.registration.mixin.guard guardScope
  refine Script.Alike.bind (Scoped.alike_observe fun a b hab => .ok (hab.ownMixins s name arity))
    fun _ _ hmembers => .pure (List.rel_map (fun _ _ hrq => ?_) hmembers)
  exact ⟨hrq, hguards⟩

/-- Following a path from namespaces that are alike. -/
theorem descend_alike (caller : ScopeId) (arity : Option Nat) (path : List String)
    {cs ds : List Candidate} (h : Forall₂ (Candidate.Alike D) cs ds) :
    Script.Alike D (Forall₂ (Candidate.Alike D)) (descend caller arity path cs)
      (descend caller arity path ds) := by
  induction path generalizing cs ds with
  | nil => exact .pure h
  | cons name rest ih =>
    exact gather_alike (fun _ _ hcd => (namespaceMembers_alike hD caller name _ hcd).bind
      fun _ _ hfound => ih hfound) h

/-- A call may be meant for candidates that are alike. -/
theorem findMixins_alike (caller : ScopeId) (arity : Option Nat) (path : List String) :
    Script.Alike D (Forall₂ (Candidate.Alike D)) (findMixins caller arity path)
      (findMixins caller arity path) := by
  match path with
  | [] => exact .pure .nil
  | [name] => exact visibleMixins_alike caller name arity
  | name :: next :: rest =>
    exact (visibleMixins_alike caller name (some 0)).bind fun _ _ hfound =>
      descend_alike hD caller arity (next :: rest) hfound

/-! ## Trying candidates -/

/-- Candidates that are alike bind alike, and their guards say the same. -/
theorem Candidate.attempt_alike {c d : Candidate} (h : Candidate.Alike D c d) (call : String)
    {as bs : List Actual} (hargs : Forall₂ (Actual.Alike D) as bs) (caller : ScopeId) :
    Script.Alike D Eq (c.attempt call as caller) (d.attempt call bs caller) := by
  rw [Candidate.attempt, Candidate.attempt, h.registration.closure]
  refine (Mixin.bind_alike hD h.registration.mixin c.registration.closure call hargs).bind ?_
  rintro bound _ rfl
  cases bound with
  | patternMismatch => exact .pure rfl
  | rejected problem => exact .pure rfl
  | bound scope =>
    refine (Scoped.alike_create (.join caller scope)).bind ?_
    rintro working _ rfl
    have hguards : Forall₂ (ScopedGuard.Alike D) (c.guards working) (d.guards working) :=
      guards_alike h.pathGuards h.registration.mixin.guard working
    refine Script.Alike.bind (R := Eq) (Scoped.alike_observe fun a b hab => ?_) ?_
    · rw [verdictOf, verdictOf, verdictFrom_alike hD hab hguards]
      exact .ok rfl
    · rintro verdict _ rfl
      refine .pure ?_
      cases verdict with
      | error e => simp only [Candidate.judge, h.registration.mixin.name]
      | ok verdict => cases verdict <;> rfl

/-- Their trials have the same outcome, and are undone together. -/
theorem Candidate.trial_alike {c d : Candidate} (h : Candidate.Alike D c d) (call : String)
    {as bs : List Actual} (hargs : Forall₂ (Actual.Alike D) as bs) (caller : ScopeId) :
    Script.Alike D Eq (c.trial call as caller) (d.trial call bs caller) := by
  refine (Scoped.alike_mark caller .attempt).bind ?_
  rintro snapshot _ rfl
  refine (Candidate.attempt_alike hD h call hargs caller).bind ?_
  rintro t _ rfl
  rw [Trial.settle]
  split
  · exact .pure rfl
  · exact (Scoped.alike_change (.restore snapshot)).bind fun _ _ _ => .pure rfl

/-- Candidates that are alike, to be expanded in the same scope. -/
structure Selected.Alike (D : Diction) (x y : Selected) : Prop where
  candidate : Candidate.Alike D x.candidate y.candidate
  working : y.working = x.working

/-- Candidates with the same verdict that work in the same scope. -/
def VerdictAlike (D : Diction) (x y : Verdict × Selected) : Prop :=
  y.1 = x.1 ∧ Selected.Alike D x.2 y.2

/-- Trials that accept candidates alike and note the same problems. -/
structure Trials.Alike (D : Diction) (x y : Trials) : Prop where
  accepted : Forall₂ (VerdictAlike D) x.accepted y.accepted
  problems : y.problems = x.problems

/-- Trials of several candidates that are alike come to trials that are. -/
theorem tryAll_alike (call : String) {as bs : List Actual}
    (hargs : Forall₂ (Actual.Alike D) as bs) (caller : ScopeId) {cs ds : List Candidate}
    (h : Forall₂ (Candidate.Alike D) cs ds) :
    Script.Alike D (Trials.Alike D) (tryAll call as caller cs) (tryAll call bs caller ds) := by
  induction h with
  | nil => exact .pure ⟨.nil, rfl⟩
  | cons hcd _ ih =>
    refine (Candidate.trial_alike hD hcd call hargs caller).bind ?_
    rintro ⟨accepted, problem⟩ _ rfl
    refine ih.bind fun _ _ hrest => .pure ⟨?_, congrArg (problem.toList ++ ·) hrest.problems⟩
    cases accepted with
    | none => exact hrest.accepted
    | some accepted => exact .cons ⟨rfl, hcd, rfl⟩ hrest.accepted

end

/-- The choice is by verdicts, so it falls on candidates that are alike. -/
theorem choose_alike {xs ys : List (Verdict × Selected)} (h : Forall₂ (VerdictAlike D) xs ys) :
    Forall₂ (Selected.Alike D) (choose xs) (choose ys) := by
  have hmatched : ys.any (fun c => c.1 == .use) = xs.any (fun c => c.1 == .use) :=
    any_of_forall₂ (fun _ _ hxy => by rw [hxy.1]) h
  rw [choose, choose, hmatched]
  exact List.rel_map (fun _ _ hxy => hxy.2)
    (filter_of_forall₂ (fun _ _ hxy => by rw [hxy.1]) h)

/-! ## Exports -/

/-- Values that are alike are exported as such. -/
theorem exportValue_alike (caller : ScopeId) {v w : Value} (h : Value.Alike D v w) :
    Script.Alike D (Value.Alike D) (exportValue caller v) (exportValue caller w) := by
  cases h with
  | ruleset site scope hbody =>
    refine (Scoped.alike_create (.join caller scope)).bind ?_
    rintro s _ rfl
    exact .pure (.ruleset site s hbody)
  | number value hunit => exact .pure (.number value hunit)
  | keyword htext => exact .pure (.keyword htext)
  | quoted hcontent htext => exact .pure (.quoted hcontent htext)
  | list separator hvalues => exact .pure (.list separator hvalues)
  | function hname hvalues => exact .pure (.function hname hvalues)

/-- Variables with values that are alike are exported one after the other. -/
theorem exportVariables_alike (caller exports : ScopeId) {vs ws : List (String × Value)}
    (h : Forall₂ (VariableAlike D) vs ws) :
    Script.Alike D Eq (exportVariables caller exports vs) (exportVariables caller exports ws) := by
  induction h with
  | nil => exact .pure rfl
  | @cons x y _ _ hxy _ ih =>
    obtain ⟨name, v⟩ := x
    obtain ⟨name', w⟩ := y
    obtain ⟨rfl, hvw⟩ : name' = name ∧ Value.Alike D v w := hxy
    refine (exportValue_alike caller hvw).bind fun _ _ hvalue => ?_
    exact (Scoped.alike_define exports name' hvalue).bind fun _ _ _ => ih

/-- Mixins that are alike are exported one after the other. -/
theorem exportMixins_alike (exports : ScopeId) {rs qs : List Registration}
    (h : Forall₂ (Registration.Alike D) rs qs) :
    Script.Alike D Eq (exportMixins exports rs) (exportMixins exports qs) := by
  induction h with
  | nil => exact .pure rfl
  | cons hrq _ ih => exact (Scoped.alike_register exports hrq).bind fun _ _ _ => ih

/-- What is exported is read in logs that are alike. -/
theorem collectExports_alike (withVariables : Bool) (caller body : ScopeId) :
    Script.Alike D Eq (collectExports withVariables caller body)
      (collectExports withVariables caller body) := by
  refine (Scoped.alike_create .detached).bind ?_
  rintro exports _ rfl
  refine Script.Alike.bind (R := Forall₂ (VariableAlike D))
    (Scoped.alike_observe fun a b hab => .ok ?_) fun _ _ hvars => ?_
  · cases withVariables with
    | true => exact hab.ownVariables body
    | false => exact .nil
  refine (exportVariables_alike caller exports hvars).bind fun _ _ _ => ?_
  refine Script.Alike.bind (Scoped.alike_observe fun a b hab => .ok (hab.mixins body))
    fun _ _ hmixins => ?_
  exact (exportMixins_alike exports hmixins).bind fun _ _ _ => .pure rfl

/-- Exports of the same scopes are staged. -/
theorem stageAll_alike (caller : ScopeId) (exports : List ScopeId) :
    Script.Alike D Eq (stageAll caller exports) (stageAll caller exports) := by
  induction exports with
  | nil => exact .pure rfl
  | cons e rest ih => exact (Scoped.alike_change (.stage caller e)).bind fun _ _ _ => ih

/-- Exports of the same scopes are brought into force together. -/
theorem commitExports_alike (caller : ScopeId) (exports : List ScopeId) :
    Script.Alike D Eq (commitExports caller exports) (commitExports caller exports) := by
  refine (Scoped.alike_change (.openStaging caller)).bind fun _ _ _ => ?_
  refine (stageAll_alike caller exports).bind fun _ _ _ => ?_
  exact Scoped.alike_change (.commit caller)

/-! ## Calls -/

/-- Nodes that are the same, with values that come of the texts of the stylesheet. -/
def NodesAlike (D : Diction) (ns ms : List Css.Node) : Prop :=
  ms = ns ∧ ∀ t ∈ Css.valuesOf ns, D.filled t

/-- No nodes. -/
theorem NodesAlike.nil : NodesAlike D [] [] := ⟨rfl, nofun⟩

/-- Nodes after each other. -/
theorem NodesAlike.append {ns ms ns' ms' : List Css.Node} (h : NodesAlike D ns ms)
    (h' : NodesAlike D ns' ms') : NodesAlike D (ns ++ ns') (ms ++ ms') := by
  refine ⟨by rw [h.1, h'.1], ?_⟩
  rw [Css.valuesOf_append]
  exact List.forall_mem_append.2 ⟨h.2, h'.2⟩

/-- Comments around nodes add no value to them. -/
theorem NodesAlike.attachComments {ns ms : List Css.Node} (h : NodesAlike D ns ms)
    (comments : Comments) :
    NodesAlike D (Css.attachComments comments ns) (Css.attachComments comments ms) := by
  refine ⟨by rw [h.1], ?_⟩
  rw [Css.valuesOf_attachComments]
  exact h.2

/-- Making nodes important adds no value to them. -/
theorem NodesAlike.markAllImportant {ns ms : List Css.Node} (h : NodesAlike D ns ms) :
    NodesAlike D (Css.Node.markAllImportant ns) (Css.Node.markAllImportant ms) := by
  refine ⟨by rw [h.1], ?_⟩
  rw [Css.valuesOf_markAllImportant]
  exact h.2

/-- Bodies of one name that are alike, to be expanded in the same scopes. -/
structure Fetched.Alike (D : Diction) (x y : Fetched) : Prop where
  name : y.name = x.name
  body : Body.Alike D.leaf x.body y.body
  working : y.working = x.working
  closure : y.closure = x.closure

/-- Nodes that are alike, with the same scope. -/
structure Expanded.Alike (D : Diction) (x y : Expanded) : Prop where
  nodes : NodesAlike D x.nodes y.nodes
  scope : y.scope = x.scope

/-- A way to expand what a call reaches that expands bodies that are alike alike. -/
def Expander.Alike (D : Diction) (expand : Expander) : Prop :=
  ∀ x y, Fetched.Alike D x y → Script.Alike D (Expanded.Alike D) (expand x) (expand y)

/-- Evaluating in a scope something that is alike in views that are. -/
theorem Expand.alike_view {α β : Type} {R : α → β → Prop} (s : ScopeId)
    {f : View → Except EvalError α} {g : View → Except EvalError β}
    (h : ∀ v w, View.Alike D v w → Outcome.Alike R (f v) (g w)) :
    Script.Alike D R (Expand.view s f) (Expand.view s g) :=
  Expand.alike_onScopes (Scoped.alike_observe fun _ _ hab => h _ _ (hab.view s none))

/-- The problem of a call without candidates is the same: it has names and numbers alone. -/
theorem unmatchedProblem_alike {c c' : Call} (hcall : c'.displayName = c.displayName) (actual : Nat)
    {cs ds : List Candidate} (h : Forall₂ (Candidate.Alike D) cs ds) :
    unmatchedProblem c' actual ds = unmatchedProblem c actual cs := by
  cases h with
  | nil => rw [unmatchedProblem, unmatchedProblem, hcall]
  | cons hcd _ =>
    rw [unmatchedProblem, unmatchedProblem, hcall, hcd.registration.mixin.arityMismatch]

/-- Arguments that are alike have values that are. -/
theorem evalArguments_alike (hD : D.Lawful) (caller : ScopeId) : ∀ {as bs : List Argument},
    Argument.ListAlike D.leaf as bs →
    Script.Alike D (Forall₂ (Actual.Alike D)) (evalArguments caller as) (evalArguments caller bs)
  | _, _, .nil => .pure .nil
  | _, _, .cons _ hvalue h =>
    (Expand.alike_view caller fun _ _ hvw => hvalue.eval hD hvw).bind fun _ _ hxy =>
      (evalArguments_alike hD caller h).bind fun _ _ hargs => .pure (.cons ⟨rfl, hxy⟩ hargs)

section
variable {expand : Expander} (hD : D.Lawful) (hexpand : expand.Alike D)
include hexpand

/-- The bodies of candidates that are alike come to the same nodes and the same exports. -/
theorem expandSelected_alike (caller : ScopeId) {xs ys : List Selected}
    (h : Forall₂ (Selected.Alike D) xs ys) :
    Script.Alike D (fun x y => NodesAlike D x.1 y.1 ∧ y.2 = x.2)
      (expandSelected expand caller xs) (expandSelected expand caller ys) := by
  induction h with
  | nil => exact .pure ⟨.nil, rfl⟩
  | @cons x y _ _ hxy _ ih =>
    have hregistration := hxy.candidate.registration
    refine (hexpand _ _ ⟨hregistration.mixin.name, hregistration.mixin.body, hxy.working,
      hregistration.closure⟩).bind fun _ _ hexpanded => ?_
    rw [hexpanded.scope]
    refine (Expand.alike_onScopes (collectExports_alike true caller _)).bind ?_
    rintro exports _ rfl
    refine ih.bind fun (nodes, more) (nodes', more') hrest => .pure ⟨?_, ?_⟩
    · exact hexpanded.nodes.append hrest.1
    · exact congrArg (exports :: ·) hrest.2

/-- The call of a ruleset, which is alike in both variables. -/
theorem expandDetached_alike (caller : ScopeId) (name : String) (comments : Comments) :
    Script.Alike D (NodesAlike D) (expandDetached expand caller name comments)
      (expandDetached expand caller name comments) := by
  refine (Expand.alike_view caller fun _ _ hvw => hvw.lookup name).bind fun _ _ hvalue => ?_
  cases hvalue with
  | @ruleset site scope xs ys hbody =>
    refine (Expand.alike_onScopes (Scoped.alike_create (.join caller scope))).bind ?_
    rintro working _ rfl
    have hfetched : Fetched.Alike D ⟨"@" ++ name, xs, working, scope⟩
        ⟨"@" ++ name, ys, working, scope⟩ := ⟨rfl, hbody, rfl, rfl⟩
    refine (hexpand _ _ hfetched).bind fun _ _ hexpanded => ?_
    rw [hexpanded.scope]
    refine (Expand.alike_onScopes (collectExports_alike false caller _)).bind ?_
    rintro exports _ rfl
    refine (Expand.alike_onScopes (commitExports_alike caller _)).bind fun _ _ _ => ?_
    exact .pure (hexpanded.nodes.attachComments comments)
  | number _ _ | keyword _ | quoted _ _ | list _ _ | function _ _ => exact .throw _

include hD

/-- A call among candidates that are alike comes to the same nodes. -/
theorem Call.expandAmong_alike (path : List String) (important : Bool) (comments : Comments)
    (as' bs' : List Argument) (caller : ScopeId) {as bs : List Actual}
    (hargs : Forall₂ (Actual.Alike D) as bs) {cs ds : List Candidate}
    (h : Forall₂ (Candidate.Alike D) cs ds) :
    Script.Alike D (NodesAlike D)
      (Call.expandAmong ⟨path, as', important, comments⟩ expand caller as cs)
      (Call.expandAmong ⟨path, bs', important, comments⟩ expand caller bs ds) := by
  refine (Expand.alike_onScopes (tryAll_alike hD _ hargs caller h)).bind fun _ _ htrials => ?_
  rw [htrials.problems]
  refine (Expand.alike_report _).bind fun _ _ _ => ?_
  refine (expandSelected_alike hexpand caller (choose_alike htrials.accepted)).bind
    fun (nodes, exports) (nodes', exports') hnodes => ?_
  obtain ⟨hnodes, rfl⟩ : NodesAlike D nodes nodes' ∧ exports' = exports := hnodes
  refine (Expand.alike_onScopes (commitExports_alike caller _)).bind fun _ _ _ => .pure ?_
  cases important with
  | false => exact hnodes.attachComments comments
  | true => exact hnodes.markAllImportant.attachComments comments

/-- A call with arguments that are alike comes to the same nodes. -/
theorem Call.expand_alike (path : List String) (important : Bool) (comments : Comments)
    {as bs : List Argument} (h : Argument.ListAlike D.leaf as bs) (caller : ScopeId) :
    Script.Alike D (NodesAlike D) (Call.expand ⟨path, as, important, comments⟩ expand caller)
      (Call.expand ⟨path, bs, important, comments⟩ expand caller) := by
  refine (evalArguments_alike hD caller h).bind fun args args' hargs => ?_
  rw [← hargs.length_eq]
  refine (Expand.alike_onScopes (findMixins_alike hD caller _ path)).bind
    fun candidates _ hcandidates => ?_
  rw [isEmpty_of_forall₂ hcandidates]
  split
  · refine (Expand.alike_onScopes (findMixins_alike hD caller none path)).bind
      fun others _ hothers => ?_
    rw [unmatchedProblem_alike rfl _ hothers]
    exact (Expand.alike_report _).bind fun _ _ _ => .pure .nil
  · exact Call.expandAmong_alike hD hexpand path important comments as bs caller hargs hcandidates

end

/-! ## Statements -/

/-- A definition is passed over when the statements of a block are carried out. -/
theorem expandItems_append (expand : Expander) (s : ScopeId) (site : Site) (m : Mixin)
    (between rest : List Item) : expandItems expand s (between ++ .mixin site m :: rest) =
      expandItems expand s (between ++ rest) := by
  induction between with
  | nil =>
    show (pure [] >>= fun nodes =>
      expandItems expand s rest >>= fun more => pure (nodes ++ more)) = _
    rw [pure_bind]
    exact bind_pure _
  | cons x between ih => simp only [List.cons_append, expandItems, ih]

/-- Selectors with their placeholders filled in are the same. -/
theorem interpolateAll_alike {v w : View} (hvw : View.Alike D v w) (selectors : List String) :
    interpolateAll w selectors = interpolateAll v selectors := by
  induction selectors with
  | nil => rfl
  | cons s rest ih => rw [interpolateAll, interpolateAll, hvw.interpolate, ih]

section
variable (hD : D.Lawful)
include hD

/-- A declaration comes to the same property, whose value is made of texts of the stylesheet. -/
theorem Declaration.eval_alike {v w : View} (hvw : View.Alike D v w) (name : String)
    (important : Bool) (comments : Comments) {e f : Expr} (h : Expr.Alike D.leaf e f) :
    Outcome.Alike (fun x y => y = x ∧ D.filled x.value)
      (Declaration.eval ⟨name, e, important, comments⟩ v)
      (Declaration.eval ⟨name, f, important, comments⟩ w) := by
  rw [Declaration.eval, Declaration.eval, hvw.interpolate]
  refine (Outcome.Alike.refl (v.interpolate name)).bind ?_
  rintro text _ rfl
  refine (h.eval hD hvw).bind fun x y hxy => ?_
  have hfilled := hxy.filled hD
  have htext := hxy.text
  cases hxy with
  | ruleset _ _ _ => exact .error _
  | number _ _ | keyword _ | quoted _ _ | list _ _ | function _ _ =>
    exact .ok ⟨by rw [htext], hfilled⟩

/-- Guards of rules that are alike keep both out or none. -/
theorem ruleApplies_alike (s : ScopeId) {g h : Option Condition} (hguard : Guard.Alike D.leaf g h) :
    Script.Alike D Eq (ruleApplies s g) (ruleApplies s h) := by
  cases hguard with
  | none => exact .pure rfl
  | some hcd =>
    refine Expand.alike_onScopes (Scoped.alike_observe fun a b hab => ?_)
    rw [allowsRule_alike hD hab s hcd]
    exact .refl _

end

section
variable {inside inside' : ScopeId → Expand (List Css.Node)} (hD : D.Lawful)
  (hinside : ∀ s, Script.Alike D (NodesAlike D) (inside s) (inside' s))
include hinside

/-- An at-rule comes to the same node if its blocks do. -/
theorem expandAtRule_alike (s : ScopeId) (name params : String) :
    Script.Alike D (NodesAlike D) (expandAtRule s name params inside)
      (expandAtRule s name params inside') := by
  refine Script.Alike.bind (R := Eq) (Expand.alike_view s fun v w hvw => ?_) ?_
  · rw [hvw.substitute]
    exact .refl _
  rintro text _ rfl
  refine (Expand.alike_onScopes (Scoped.alike_create (.child s))).bind ?_
  rintro child _ rfl
  refine (hinside child).bind fun nodes nodes' hnodes => .pure ⟨by rw [hnodes.1], ?_⟩
  rw [Css.valuesOf_atRule]
  exact hnodes.2

/-- A block is entered by registering definitions that are alike. -/
theorem enterBlock_alike {xs ys : List Item} (h : Body.Alike D.leaf xs ys) (s : ScopeId) :
    Script.Alike D (NodesAlike D) (enterBlock xs inside s) (enterBlock ys inside' s) :=
  (Expand.alike_onScopes (hoist_alike s h)).bind fun _ _ _ => hinside s

include hD

/-- A rule comes to the same node if its blocks do, or is left out in both. -/
theorem expandRule_alike (s : ScopeId) (selectors : List String) {g h : Option Condition}
    (hguard : Guard.Alike D.leaf g h) :
    Script.Alike D (NodesAlike D) (expandRule s selectors g inside)
      (expandRule s selectors h inside') := by
  refine (ruleApplies_alike hD s hguard).bind ?_
  rintro applies _ rfl
  split
  · refine Script.Alike.bind (R := Eq) (Expand.alike_view s fun v w hvw => ?_) ?_
    · rw [interpolateAll_alike hvw]
      exact .refl _
    rintro texts _ rfl
    refine (Expand.alike_onScopes (Scoped.alike_create (.child s))).bind ?_
    rintro child _ rfl
    refine (hinside child).bind fun nodes nodes' hnodes => .pure ⟨by rw [hnodes.1], ?_⟩
    rw [Css.valuesOf_rule]
    exact hnodes.2
  · exact .pure .nil

end

variable {expand : Expander}

mutual

/-- Statements that are alike do the same. -/
theorem Item.expand_alike (hD : D.Lawful) (hexpand : expand.Alike D) : ∀ {x y : Item},
    Item.Alike D.leaf x y → ∀ s : ScopeId,
    Script.Alike D (NodesAlike D) (x.expand expand s) (y.expand expand s)
  | _, _, .assign name hvalue, s =>
    (Expand.alike_view s fun _ _ hvw => hvalue.eval hD hvw).bind fun _ _ hxy =>
      (Expand.alike_onScopes (Scoped.alike_define s name hxy)).bind fun _ _ _ => .pure .nil
  | _, _, .declaration name important comments hvalue, s => by
    refine (Expand.alike_view s fun _ _ hvw =>
      Declaration.eval_alike hD hvw name important comments hvalue).bind fun x y hxy => ?_
    refine .pure ⟨by rw [hxy.1], fun t ht => ?_⟩
    rw [List.mem_singleton.1 ht]
    exact hxy.2
  | _, _, .rule selectors hguard hbody, s =>
    expandRule_alike hD (enterBlock_alike (expandItems_alike hD hexpand hbody) hbody) s selectors
      hguard
  | _, _, .atRule name params hbody, s =>
    expandAtRule_alike (enterBlock_alike (expandItems_alike hD hexpand hbody) hbody) s name params
  | _, _, .mixin _ _, _ => .pure .nil
  | _, _, .call path important comments hargs, s =>
    Call.expand_alike hD hexpand path important comments hargs s
  | _, _, .detachedCall name comments, s => expandDetached_alike hexpand s name comments

/-- The statements of blocks that are alike do the same, one after the other. -/
theorem expandItems_alike (hD : D.Lawful) (hexpand : expand.Alike D) : ∀ {xs ys : List Item},
    Body.Alike D.leaf xs ys → ∀ s : ScopeId,
    Script.Alike D (NodesAlike D) (expandItems expand s xs) (expandItems expand s ys)
  | _, _, .nil, _ => .pure .nil
  | _, _, .cons hxy h, s =>
    (Item.expand_alike hD hexpand hxy s).bind fun _ _ hnodes =>
      (expandItems_alike hD hexpand h s).bind fun _ _ hmore => .pure (hnodes.append hmore)
  | _, _, @Body.Alike.later _ site m between rest _ _ h, s => by
    have ih := expandItems_alike hD hexpand h s
    rw [expandItems_append] at ih
    rw [← List.nil_append (.mixin site m :: (between ++ rest)), expandItems_append]
    exact ih
  | _, _, @Body.Alike.earlier _ site m between rest _ _ h, s => by
    have ih := expandItems_alike hD hexpand h s
    rw [← List.nil_append (.mixin site m :: (between ++ rest)), expandItems_append] at ih
    rw [expandItems_append]
    exact ih

end

section
variable (hD : D.Lawful) (hexpand : expand.Alike D)
include hD hexpand

/-- Blocks that are alike come to the same nodes. -/
theorem expandBlock_alike {xs ys : List Item} (h : Body.Alike D.leaf xs ys) (s : ScopeId) :
    Script.Alike D (NodesAlike D) (expandBlock expand xs s) (expandBlock expand ys s) :=
  enterBlock_alike (expandItems_alike hD hexpand h) h s

/-! ## The recursion through calls -/

/-- Bodies that are alike come to the same nodes, in new scopes of the same number. -/
theorem expandFetched_alike : Expander.Alike D (expandFetched expand) := by
  intro x y h
  rw [expandFetched, expandFetched, h.closure, h.working]
  refine (Expand.alike_onScopes (Scoped.alike_mark x.closure .log)).bind ?_
  rintro snapshot _ rfl
  refine (Expand.alike_onScopes (Scoped.alike_create (.child x.working))).bind ?_
  rintro s _ rfl
  refine (Expand.alike_restoring snapshot (expandBlock_alike hD hexpand h.body s)).bind ?_
  exact fun _ _ hnodes => .pure ⟨hnodes, rfl⟩

end

/-- What a call reaches is expanded alike. -/
theorem expandBody_alike (hD : D.Lawful) (limit left : Nat) :
    Expander.Alike D (expandBody limit left) := by
  induction left with
  | zero =>
    intro x y h
    rw [expandBody, expandBody, h.name]
    exact .throw _
  | succ left ih =>
    intro x y h
    rw [expandBody, expandBody, h.name]
    exact Expand.alike_deeper (expandFetched_alike hD ih x y h) limit _

end LessSheet
