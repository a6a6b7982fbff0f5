import LessSheet.Candidate
import LessSheet.Proofs.Scope.Origins
import Mathlib.Data.List.Find

/-! # The definitions that a look-up finds

A look-up for mixins answers with those of one scope, the first in sight that has any of the name
and arity (`Arises.lookupMixins_nearest`). Of what is registered there it keeps each definition
once. A definition comes in the place of its first registration, but with the closure of its latest:
the origins found are those of the log without repetitions (`origins_ownMixins`), and each
registration found is the latest of its origin (`latestOf_of_mem_ownMixins`).
-/

namespace LessSheet

namespace Arena

/-- The registrations in a scope's own log that a call of this name and arity may be meant for. -/
def accepted (a : Arena) (name : String) (arity : Option Nat) (s : ScopeId) : List Registration :=
  (a.mixins s).filter (answers name arity)

/-- The latest among registrations of the definition with this origin. -/
def latestOf (o : Origin) (rs : List Registration) : Option Registration :=
  rs.reverse.find? fun r => r.origin = o

/-- Whether registrations of one origin are registrations of one mixin. -/
def OneMixinEach (rs : List Registration) : Prop :=
  ∀ r ∈ rs, ∀ q ∈ rs, r.origin = q.origin → r.mixin = q.mixin

section
variable {a : Arena} {s : ScopeId} {name : String} {arity : Option Nat} {o : Origin}
  {r q : Registration} {rs found : List Registration}

/-! ## The latest registrations -/

/-- The last registration of an origin is the latest. -/
theorem latestOf_concat (o : Origin) (rs : List Registration) (r : Registration) :
    latestOf o (rs ++ [r]) = if r.origin = o then some r else latestOf o rs := by
  rw [latestOf, List.reverse_append, List.reverse_singleton, List.singleton_append, List.find?_cons]
  by_cases h : r.origin = o
  · simp [h]
  · simp [h, latestOf]

/-- Where registrations of one origin are of one mixin, a call may be meant for all of them or for
none, so the latest that it may be meant for is the latest there is. -/
theorem latestOf_accepted (hrs : OneMixinEach (a.mixins s))
    (h : latestOf o (a.accepted name arity s) = some r) : latestOf o (a.mixins s) = some r := by
  rw [latestOf, accepted, ← List.filter_reverse, List.find?_filter] at h
  have hr : r ∈ a.mixins s := List.mem_reverse.1 (List.mem_of_find?_eq_some h)
  obtain ⟨hanswers, horigin⟩ := by simpa using List.find?_some h
  rw [latestOf, ← h]
  refine List.find?_congr fun q hq => ?_
  by_cases hqo : q.origin = o
  · have hmixin := hrs q (List.mem_reverse.1 hq) r hr (hqo.trans horigin.symm)
    have hq' : answers name arity q = true := by rwa [answers, hmixin]
    simp [hqo, hq']
  · simp [hqo]

/-! ## Each definition once -/

/-- A registration that is added to those found comes in the place of what was found of its
definition. -/
theorem mem_keepLatest_iff (h : (found.map Registration.origin).Nodup) :
    q ∈ keepLatest r found ↔ q = r ∨ q ∈ found ∧ q.origin ≠ r.origin := by
  induction found with
  | nil => simp [keepLatest]
  | cons p rest ih =>
    rw [List.map_cons, List.nodup_cons] at h
    obtain ⟨hp, hrest⟩ := h
    rw [keepLatest]
    split
    · next heq =>
      have hother : ∀ q ∈ rest, q.origin ≠ r.origin := fun q hq hqr =>
        hp (List.mem_map.2 ⟨q, hq, hqr.trans heq.symm⟩)
      rw [List.mem_cons]
      refine or_congr_right ⟨fun hq => ⟨.tail _ hq, hother q hq⟩, ?_⟩
      rintro ⟨hq, hne⟩
      rcases List.mem_cons.1 hq with rfl | hq
      · exact absurd heq hne
      · exact hq
    · next hne =>
      rw [List.mem_cons, List.mem_cons, ih hrest]
      constructor
      · rintro (rfl | rfl | ⟨hq, hqr⟩)
        · exact .inr ⟨.inl rfl, hne⟩
        · exact .inl rfl
        · exact .inr ⟨.inr hq, hqr⟩
      · rintro (rfl | ⟨rfl | hq, hqr⟩)
        · exact .inr (.inl rfl)
        · exact .inl rfl
        · exact .inr (.inr ⟨hq, hqr⟩)

/-- The definitions found are in the order of their first registrations. -/
theorem origins_foldl (rs : List Registration) :
    (rs.foldl (fun found r => keepLatest r found) []).map Registration.origin =
      (rs.map Registration.origin).eraseDups := by
  induction rs using List.reverseRecOn with
  | nil => rfl
  | append_singleton rs r ih =>
    rw [List.foldl_concat, origins_keepLatest, ih, List.map_append, List.eraseDups_append]
    generalize rs.map Registration.origin = os
    by_cases h : r.origin ∈ os
    · rw [if_pos (List.mem_eraseDups.2 h)]
      simp [List.removeAll, h]
    · rw [if_neg fun hmem => h (List.mem_eraseDups.1 hmem)]
      simp [List.removeAll, h, List.eraseDups_cons]

/-- Each definition is found by its latest registration. -/
theorem latestOf_of_mem_foldl (rs : List Registration) :
    ∀ q ∈ rs.foldl (fun found r => keepLatest r found) [], latestOf q.origin rs = some q := by
  induction rs using List.reverseRecOn with
  | nil => exact nofun
  | append_singleton rs r ih =>
    intro q hq
    have hnodup := (origins_foldl_keepLatest rs [] .nil).1
    rw [List.foldl_concat, mem_keepLatest_iff hnodup] at hq
    rw [latestOf_concat]
    rcases hq with rfl | ⟨hq, hne⟩
    · exact if_pos rfl
    · rw [if_neg (Ne.symm hne)]
      exact ih q hq

/-- The mixins of a scope that a call may be meant for are in the order of their first
registrations. -/
theorem origins_ownMixins (a : Arena) (s : ScopeId) (name : String) (arity : Option Nat) :
    (a.ownMixins s name arity).map Registration.origin =
      ((a.accepted name arity s).map Registration.origin).eraseDups := origins_foldl _

/-- Each of them is found by its latest registration. -/
theorem latestOf_of_mem_ownMixins (h : r ∈ a.ownMixins s name arity) :
    latestOf r.origin (a.accepted name arity s) = some r := latestOf_of_mem_foldl _ r h

/-! ## The nearest scope -/

/-- None is found if none may be meant. -/
theorem ownMixins_eq_nil_iff : a.ownMixins s name arity = [] ↔ a.accepted name arity s = [] := by
  rw [← List.map_eq_nil_iff (f := Registration.origin), origins_ownMixins]
  cases a.accepted name arity s with
  | nil => exact iff_of_true rfl rfl
  | cons r rest => rw [List.map_cons, List.eraseDups_cons]; exact iff_of_false nofun nofun

/-- A scope has no answer if none of its mixins may be meant. -/
theorem ownMixins?_eq_none_iff :
    a.ownMixins? s name arity = none ↔ a.accepted name arity s = [] := by
  rw [← ownMixins_eq_nil_iff, ownMixins?]
  split
  · next h => exact iff_of_true rfl h
  · next h => exact iff_of_false (Option.some_ne_none _) h

/-- The answer of a scope is what it has itself. -/
theorem eq_ownMixins_of_ownMixins? (h : a.ownMixins? s name arity = some found) :
    found = a.ownMixins s name arity := by
  rw [ownMixins?] at h
  split at h
  · cases h
  · exact (Option.some.inj h).symm

/-- A look-up finds nothing if nothing in sight is to be found, and otherwise what the first scope
in sight has that has any. -/
theorem lookupMixins_cases (a : Arena) (s : ScopeId) (name : String) (arity : Option Nat) :
    (a.lookupMixins s name arity = [] ∧ ∀ t ∈ a.sight s, a.accepted name arity t = []) ∨
    ∃ before t after, a.sight s = before ++ t :: after ∧
      (∀ u ∈ before, a.accepted name arity u = []) ∧ a.accepted name arity t ≠ [] ∧
      a.lookupMixins s name arity = a.ownMixins t name arity := by
  rw [lookupMixins, search_eq_findSome?]
  cases h : (a.sight s).findSome? fun t => a.ownMixins? t name arity with
  | none =>
    have hnone := List.findSome?_eq_none_iff.1 h
    exact .inl ⟨rfl, fun t ht => ownMixins?_eq_none_iff.1 (hnone t ht)⟩
  | some found =>
    obtain ⟨before, t, after, hsight, ht, hbefore⟩ := List.findSome?_eq_some_iff.1 h
    refine .inr ⟨before, t, after, hsight, fun u hu => ?_, fun hnil => ?_, ?_⟩
    · exact ownMixins?_eq_none_iff.1 (hbefore u hu)
    · rw [ownMixins?_eq_none_iff.2 hnil] at ht
      cases ht
    · exact eq_ownMixins_of_ownMixins? ht

/-- However an arena has arisen, a look-up for mixins finds nothing exactly if no scope that links
lead to has a definition of the name that accepts the arity. Otherwise it finds those of the first
scope in the order of look-ups that has one: each definition once, in the order of their first
registrations, and each as it was registered last. Where the registrations of a definition are all
of one mixin, this is its latest registration in that scope at all. As candidates, the definitions
found have no guards on the way. -/
theorem Arises.lookupMixins_nearest {taken : List Snapshot} (h : a.Arises taken) (s : ScopeId)
    (name : String) (arity : Option Nat) :
    (a.lookupMixins s name arity = [] ↔
      ∀ t, Relation.ReflTransGen a.Leads s t → a.accepted name arity t = []) ∧
    (a.lookupMixins s name arity ≠ [] →
      ∃ before t after, a.sight s = before ++ t :: after ∧
        (∀ u ∈ before, a.accepted name arity u = []) ∧ a.accepted name arity t ≠ [] ∧
        (a.lookupMixins s name arity).map Registration.origin =
          ((a.accepted name arity t).map Registration.origin).eraseDups ∧
        ∀ r ∈ a.lookupMixins s name arity,
          latestOf r.origin (a.accepted name arity t) = some r ∧
          (OneMixinEach (a.mixins t) → latestOf r.origin (a.mixins t) = some r)) ∧
    ∀ p : Progress, p.arena = a → (visibleMixins s name arity).run p =
      (.ok ((a.lookupMixins s name arity).map fun r => { registration := r, pathGuards := [] }),
        p) := by
  have hsight : ∀ t, t ∈ a.sight s ↔ Relation.ReflTransGen a.Leads s t := fun _ =>
    mem_sight_iff_reaches.trans (reaches_iff h.ordered)
  refine ⟨⟨fun hnil t ht => ?_, fun hnone => ?_⟩, fun hne => ?_, ?_⟩
  · rcases a.lookupMixins_cases s name arity with ⟨-, hnone⟩ | ⟨_, u, _, -, -, hu, hfound⟩
    · exact hnone t ((hsight t).2 ht)
    · rw [hnil] at hfound
      exact absurd (ownMixins_eq_nil_iff.1 hfound.symm) hu
  · rcases a.lookupMixins_cases s name arity with ⟨hnil, -⟩ | ⟨before, u, after, hcut, -, hu, -⟩
    · exact hnil
    · have hmem : u ∈ a.sight s := by simp [hcut]
      exact absurd (hnone u ((hsight u).1 hmem)) hu
  · rcases a.lookupMixins_cases s name arity with ⟨hnil, -⟩ | ⟨before, t, after, hcut, hbefore, ht,
      hfound⟩
    · exact absurd hnil hne
    · rw [hfound]
      refine ⟨before, t, after, hcut, hbefore, ht, origins_ownMixins a t name arity, fun r hr => ?_⟩
      have hlatest := latestOf_of_mem_ownMixins hr
      exact ⟨hlatest, fun hmixins => latestOf_accepted hmixins hlatest⟩
  · rintro p rfl
    rfl

namespace Nearest

/-- A mixin without parameters. -/
def plain : Mixin := ⟨".m", [], none, []⟩

/-- A mixin of the same name that needs an argument. -/
def needy : Mixin := ⟨".m", [.named "x" none], none, []⟩

/-- Two scopes inside the root and their join. Both definitions of the mixin without parameters are
registered in the first, one of them once more after the other; what is registered in the second
needs an argument. -/
def arena : Arena :=
  let first := (Arena.empty.child 0).2
  let both := (first.register 1 ⟨.written ⟨0, 9⟩, plain, 0⟩).register 1 ⟨.written ⟨0, 5⟩, plain, 0⟩
  let again := both.register 1 ⟨.written ⟨0, 9⟩, plain, 1⟩
  let second := (again.child 0).2.register 2 ⟨.written ⟨0, 2⟩, needy, 0⟩
  (second.join 1 2).2

/-- Operations lead to the arena. -/
theorem arises : arena.Arises [] := by
  have hregister : ∀ {a : Arena} (s : ScopeId) (r : Registration), a.Arises [] → s < a.size →
      (a.register s r).Arises [] := fun s r h hs =>
    h.change (.record s (.mixin r)) (by simpa [Change.operands] using hs) nofun
  have hfirst : (Arena.empty.child 0).2.Arises [] := Arises.start.create (.child 0) (by decide)
  have hagain := hregister 1 ⟨.written ⟨0, 9⟩, plain, 1⟩
    (hregister 1 ⟨.written ⟨0, 5⟩, plain, 0⟩
      (hregister 1 ⟨.written ⟨0, 9⟩, plain, 0⟩ hfirst (by decide)) (by decide)) (by decide)
  exact (hregister 2 ⟨.written ⟨0, 2⟩, needy, 0⟩ (hagain.create (.child 0) (by decide))
    (by decide)).create (.join 1 2) (by decide)

/-- What is registered in one scope is of one mixin. -/
theorem oneMixinEach : ∀ t ∈ [3, 2, 0, 1], OneMixinEach (arena.mixins t) := by
  have hall : ∀ (rs : List Registration) (m : Mixin), (∀ r ∈ rs, r.mixin = m) → OneMixinEach rs :=
    fun rs m hrs r hr q hq _ => (hrs r hr).trans (hrs q hq).symm
  have hfirst : arena.mixins 1 =
      [⟨.written ⟨0, 9⟩, plain, 0⟩, ⟨.written ⟨0, 5⟩, plain, 0⟩, ⟨.written ⟨0, 9⟩, plain, 1⟩] := rfl
  have hsecond : arena.mixins 2 = [⟨.written ⟨0, 2⟩, needy, 0⟩] := rfl
  simp only [List.forall_mem_cons]
  refine ⟨nofun, hall _ needy ?_, nofun, hall _ plain ?_, nofun⟩
  · rw [hsecond]
    simp
  · rw [hfirst]
    simp

end Nearest

open Nearest in
/-- The join passes over the second scope for a call without arguments. In the first scope it finds
the definition that was registered twice in front, with the closure that it has the second time. -/
theorem Arises.lookupMixins_nearest_twice :
    arena.sight 3 = [3, 2, 0, 1] ∧
    (arena.lookupMixins 3 ".m" (some 0)).map (fun r => (r.origin, r.closure)) =
      [(.written ⟨0, 9⟩, 1), (.written ⟨0, 5⟩, 0)] ∧
    ∃ before t after, arena.sight 3 = before ++ t :: after ∧
      (∀ u ∈ before, arena.accepted ".m" (some 0) u = []) ∧
      (arena.lookupMixins 3 ".m" (some 0)).map Registration.origin =
        ((arena.accepted ".m" (some 0) t).map Registration.origin).eraseDups ∧
      ∀ r ∈ arena.lookupMixins 3 ".m" (some 0),
        latestOf r.origin (arena.mixins t) = some r := by
  have hfound : (arena.lookupMixins 3 ".m" (some 0)).map (fun r => (r.origin, r.closure)) =
      [(.written ⟨0, 9⟩, 1), (.written ⟨0, 5⟩, 0)] := by decide
  have hne : arena.lookupMixins 3 ".m" (some 0) ≠ [] := by
    intro hnil
    rw [hnil] at hfound
    cases hfound
  have hall : arena.sight 3 = [3, 2, 0, 1] := by decide
  obtain ⟨before, t, after, hsight, hbefore, -, horigins, hlatest⟩ :=
    (Arises.lookupMixins_nearest arises 3 ".m" (some 0)).2.1 hne
  have ht : OneMixinEach (arena.mixins t) := oneMixinEach t (hall ▸ by simp [hsight])
  exact ⟨hall, hfound, before, t, after, hsight, hbefore, horigins,
    fun r hr => (hlatest r hr).2 ht⟩

end

end Arena

end LessSheet
