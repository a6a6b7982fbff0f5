import LessSheet.Proofs.Scope.Growth
import LessSheet.Proofs.Scope.Renaming
import Mathlib.Data.Finset.Card
import Mathlib.Data.Finset.Range

/-! # Making room among the scopes

`shift n k` makes room for `k` scopes from the number `n` on, and `Shifted n k a b` says that the
arena `b` is `a` with such room made. Whatever the `k` scopes in between are, no scope that comes
from `a` leads to them.

Everything that reads an arena reads in `b` what it reads in `a`, renumbered: walks along links
(`Shifted.search`), look-ups, expressions (`Expr.eval_shift`) and guards. A walk in the larger arena
is given more fuel, so it has to be shown that neither of the two walks runs out
(`search_eq_visit`).
-/

namespace LessSheet

/-- Makes room for `k` scopes from `n` on. -/
def shift (n k s : Nat) : Nat := if s < n then s else s + k

section
variable {n k m s t : Nat}

/-- Scopes before `n` keep their numbers. -/
theorem shift_of_lt (h : s < n) : shift n k s = s := if_pos h

/-- Scopes from `n` on come `k` later. -/
theorem shift_of_le (h : n ≤ s) : shift n k s = s + k := if_neg (Nat.not_lt.2 h)

/-- Different scopes keep different numbers. -/
@[simp] theorem shift_inj : shift n k s = shift n k t ↔ s = t := by
  refine ⟨fun h => ?_, fun h => h ▸ rfl⟩
  unfold shift at h
  split at h <;> split at h <;> omega

/-- Numbers below another stay below it when there is room made below both. -/
theorem shift_lt_iff (h : n ≤ m) : shift n k s < m + k ↔ s < m := by
  unfold shift
  split <;> omega

end

/-! ## Walks do not run out of fuel -/

namespace Arena

section
variable {α : Type} {a : Arena} {s : ScopeId} {seen : List ScopeId}

/-- The scopes that a walk has not come to. -/
def unseen (a : Arena) (seen : List ScopeId) : Finset ScopeId :=
  (Finset.range a.size).filter (· ∉ seen)

/-- A walk that comes to a scope has that one less to come to. -/
theorem unseen_cons (a : Arena) (s : ScopeId) (seen : List ScopeId) :
    a.unseen (s :: seen) = (a.unseen seen).erase s := by
  ext t
  simp only [unseen, Finset.mem_filter, Finset.mem_erase, List.mem_cons, not_or]
  tauto

/-- A scope has at most two links. -/
theorem length_targets_le (link : Link) : link.targets.length ≤ 2 := by
  cases link <;> simp [Link.targets]

/-- Coming to a scope for the first time pays for the links that are followed from it. -/
theorem length_targets_add_unseen (hs : s ∉ seen) :
    (a.scope s).link.targets.length + 2 * (a.unseen (s :: seen)).card ≤
      2 * (a.unseen seen).card := by
  rw [unseen_cons]
  by_cases hlt : s < a.size
  · have hmem : s ∈ a.unseen seen := Finset.mem_filter.2 ⟨Finset.mem_range.2 hlt, hs⟩
    have hcard := Finset.card_erase_add_one hmem
    have hlinks := length_targets_le (a.scope s).link
    omega
  · have hroot : (a.scope s).link.targets = [] := by
      rw [scope_of_size_le (Nat.le_of_not_lt hlt)]
      rfl
    have hle := Finset.card_erase_le (s := a.unseen seen) (a := s)
    rw [hroot, List.length_nil]
    omega

/-- Fuel beyond what the stack and the scopes not yet seen can take makes no difference. -/
theorem visit_add (f : ScopeId → Option α) (more : Nat) {fuel : Nat} {stack seen : List ScopeId}
    (h : stack.length + 2 * (a.unseen seen).card ≤ fuel) :
    a.visit f (fuel + more) stack seen = a.visit f fuel stack seen := by
  induction fuel generalizing stack seen with
  | zero =>
    have hstack : stack = [] := List.length_eq_zero_iff.1 (by omega)
    subst hstack
    cases more <;> rfl
  | succ fuel ih =>
    rw [Nat.succ_add]
    cases stack with
    | nil => rfl
    | cons s stack =>
      rw [List.length_cons] at h
      simp only [visit]
      split
      · exact ih (by omega)
      · next hs =>
        have hs' : s ∉ seen := by simpa using hs
        have hpaid := length_targets_add_unseen (a := a) hs'
        cases f s with
        | some x => rfl
        | none => exact ih (by rw [List.length_append]; omega)

/-- A search is a walk with any fuel that two steps for each scope and one more do not exceed. -/
theorem search_eq_visit (s : ScopeId) (f : ScopeId → Option α) {fuel : Nat}
    (h : 2 * a.size + 1 ≤ fuel) : a.search s f = a.visit f fuel [s] [] := by
  obtain ⟨more, rfl⟩ := Nat.exists_eq_add_of_le h
  refine (visit_add f more ?_).symm
  have hcard : (a.unseen []).card ≤ a.size := by
    rw [← Finset.card_range a.size]
    exact Finset.card_filter_le _ _
  rw [List.length_singleton]
  omega

end

end Arena

/-! ## Walks and look-ups -/

/-- The arena `b` is `a` with room made for `k` scopes from `n` on. -/
structure Shifted (n k : Nat) (a b : Arena) : Prop where
  floor : n ≤ a.size
  size : b.size = a.size + k
  scope : ∀ t, b.scope (shift n k t) = rename (shift n k) (a.scope t)

/-- The arena `b` has the scopes of `a`, and others after them. -/
structure Arena.Extends (a b : Arena) : Prop where
  size : a.size ≤ b.size
  scope : ∀ t < a.size, b.scope t = a.scope t

/-- An arena has its own scopes. -/
theorem Arena.Extends.refl (a : Arena) : a.Extends a := ⟨Nat.le_refl _, fun _ _ => rfl⟩

/-- Scopes may be added in two steps. -/
theorem Arena.Extends.trans {a b c : Arena} (h₁ : a.Extends b) (h₂ : b.Extends c) : a.Extends c :=
  ⟨Nat.le_trans h₁.size h₂.size, fun t ht =>
    (h₂.scope t (Nat.lt_of_lt_of_le ht h₁.size)).trans (h₁.scope t ht)⟩

/-- Work in a scope that was not there adds scopes after those that were. -/
theorem Arena.Grows.extends {a b : Arena} {s : ScopeId} (h : Grows s a b) (hs : a.size ≤ s) :
    a.Extends b := ⟨h.size, fun _ ht => h.scope_eq hs ht⟩

/-- With other scopes after its own, a closed arena corresponds to what it was: nothing in it leads
to them. -/
theorem Arena.Extends.shifted {a b : Arena} (h : a.Extends b) (ha : a.Closed) :
    Shifted a.size (b.size - a.size) a b := by
  refine ⟨Nat.le_refl _, (Nat.add_sub_cancel' h.size).symm, fun t => ?_⟩
  by_cases ht : t < a.size
  · rw [shift_of_lt ht, h.scope t ht]
    exact (rename_eq_self fun u hu => shift_of_lt (ha.mem_scope hu)).symm
  · have hta : a.size ≤ t := Nat.le_of_not_lt ht
    have htb : b.size ≤ t + (b.size - a.size) := by
      have := h.size
      omega
    rw [shift_of_le hta, Arena.scope_of_size_le htb, Arena.scope_of_size_le hta]
    rfl

section
variable {α β : Type} {n k : Nat} {a b : Arena} {s t : ScopeId}

/-- Making room keeps apart the scopes that a walk has come to and the others. -/
theorem contains_map_shift (seen : List ScopeId) (s : ScopeId) :
    (seen.map (shift n k)).contains (shift n k s) = seen.contains s := by
  induction seen with
  | nil => rfl
  | cons t seen ih =>
    simp only [List.map_cons, List.contains_cons, ih]
    congr 1
    simp only [beq_eq_decide, shift_inj]

/-- Links lead to scopes that correspond. -/
theorem Shifted.links (h : Shifted n k a b) (s : ScopeId) :
    (b.scope (shift n k s)).link.targets = (a.scope s).link.targets.map (shift n k) := by
  rw [h.scope s, link_rename, Link.targets_renumber]

/-- Logs are the same but for the numbers of scopes. -/
theorem Shifted.log (h : Shifted n k a b) (s : ScopeId) :
    b.log (shift n k s) = rename (shift n k) (a.log s) := by
  rw [Arena.log, h.scope s, log_rename, Arena.log]

/-- Walks from scopes that correspond come to scopes that correspond. -/
theorem Shifted.visit (h : Shifted n k a b) {f : ScopeId → Option α} {g : ScopeId → Option β}
    {r : α → β} (hg : ∀ t, g (shift n k t) = (f t).map r) (fuel : Nat)
    (stack seen : List ScopeId) :
    b.visit g fuel (stack.map (shift n k)) (seen.map (shift n k)) =
      (a.visit f fuel stack seen).map r := by
  induction fuel generalizing stack seen with
  | zero => rfl
  | succ fuel ih =>
    cases stack with
    | nil => rfl
    | cons s stack =>
      simp only [List.map_cons, Arena.visit, contains_map_shift, hg]
      split
      · exact ih stack seen
      · cases f s with
        | some x => rfl
        | none =>
          have := ih ((a.scope s).link.targets ++ stack) (s :: seen)
          rw [List.map_append, ← h.links] at this
          exact this

/-- Searches from scopes that correspond find what corresponds. -/
theorem Shifted.search (h : Shifted n k a b) {f : ScopeId → Option α} {g : ScopeId → Option β}
    {r : α → β} (hg : ∀ t, g (shift n k t) = (f t).map r) (s : ScopeId) :
    b.search (shift n k s) g = (a.search s f).map r := by
  have hfuel : 2 * a.size + 1 ≤ 2 * b.size + 1 := by
    rw [h.size]
    omega
  rw [Arena.search_eq_visit s f hfuel]
  exact h.visit hg _ [s] []

/-- Scopes are in sight of each other if the scopes that correspond are. -/
theorem Shifted.reaches (h : Shifted n k a b) (s t : ScopeId) :
    b.reaches (shift n k s) (shift n k t) = a.reaches s t := by
  rw [Arena.reaches, Arena.reaches,
    h.search (f := fun u => if u = t then some () else none) (r := id) ?_ s, Option.map_id, id_eq]
  intro u
  simp only [shift_inj, Option.map_id, id_eq]

end

section
variable {α β : Type} [Carries α] [Carries β] [Renames α] [Renames β] {f : ScopeId → ScopeId}

/-- Renumbering, and the order of a list. -/
theorem rename_reverse (xs : List α) : rename f xs.reverse = (rename f xs).reverse :=
  List.map_reverse

/-- What a list is searched for may be renumbered before or after. -/
theorem findSome?_rename {g : α → Option β} (hg : ∀ x, g (rename f x) = rename f (g x))
    (xs : List α) : (rename f xs).findSome? g = rename f (xs.findSome? g) := by
  induction xs with
  | nil => rfl
  | cons x xs ih =>
    rw [rename_cons, List.findSome?_cons, List.findSome?_cons, hg, ih]
    cases g x <;> rfl

/-- Picking by a function that commutes with renumbering. -/
theorem filterMap_rename {g : α → Option β} (hg : ∀ x, g (rename f x) = rename f (g x))
    (xs : List α) : (rename f xs).filterMap g = rename f (xs.filterMap g) := by
  induction xs with
  | nil => rfl
  | cons x xs ih =>
    rw [rename_cons, List.filterMap_cons, List.filterMap_cons, hg, ih]
    cases g x <;> rfl

/-- Picking by a test that does not depend on the numbers. -/
theorem filter_rename {g h : α → Bool} (hgh : ∀ x, h (rename f x) = g x) (xs : List α) :
    (rename f xs).filter h = rename f (xs.filter g) := by
  induction xs with
  | nil => rfl
  | cons x xs ih =>
    rw [rename_cons, List.filter_cons, List.filter_cons, hgh, ih]
    split <;> rfl

/-- Going through a list with a step that commutes with renumbering. -/
theorem foldl_rename {g : β → α → β} (hg : ∀ y x, g (rename f y) (rename f x) = rename f (g y x))
    (y : β) (xs : List α) : (rename f xs).foldl g (rename f y) = rename f (xs.foldl g y) := by
  induction xs generalizing y with
  | nil => rfl
  | cons x xs ih => rw [rename_cons, List.foldl_cons, List.foldl_cons, hg, ih]

/-- Whether an entry binds a variable does not depend on the numbers. -/
theorem bound?_rename (name : String) (e : Entry) :
    Arena.bound? name (rename f e) = rename f (Arena.bound? name e) := by
  cases e with
  | mixin r => rfl
  | binding n v =>
    simp only [rename_binding, Arena.bound?]
    split <;> rfl

/-- Putting a variable among others commutes with renumbering. -/
theorem put_rename (name : String) (v : Value) (vars : List (String × Value)) :
    Arena.put name (rename f v) (rename f vars) = rename f (Arena.put name v vars) := by
  induction vars with
  | nil => rfl
  | cons var vars ih =>
    obtain ⟨m, w⟩ := var
    simp only [rename_cons, rename_pair, rename_string, Arena.put, ih]
    split <;> rfl

/-- Whether an entry is a mixin does not depend on the numbers. -/
theorem registration?_rename (e : Entry) :
    Arena.registration? (rename f e) = rename f (Arena.registration? e) := by
  cases e <;> rfl

end

section
variable {n k : Nat} {a b : Arena} {s t : ScopeId}

/-- Making room keeps origins apart. -/
theorem rename_origin_inj {o q : Origin} :
    rename (shift n k) o = rename (shift n k) q ↔ o = q := by
  cases o with
  | written site =>
    cases q with
    | written site' => rfl
    | hoisted s i => simp
  | hoisted s i =>
    cases q with
    | written site => simp
    | hoisted t j => simp

/-- Keeping the latest registration of each origin commutes with making room. -/
theorem keepLatest_rename (r : Registration) (found : List Registration) :
    Arena.keepLatest (rename (shift n k) r) (rename (shift n k) found) =
      rename (shift n k) (Arena.keepLatest r found) := by
  induction found with
  | nil => rfl
  | cons q found ih =>
    simp only [rename_cons, Arena.keepLatest, origin_rename, rename_origin_inj, ih]
    split <;> rfl

/-- Looking up a variable from scopes that correspond. -/
theorem Shifted.lookup (h : Shifted n k a b) (s : ScopeId) (name : String) :
    b.lookup (shift n k s) name = rename (shift n k) (a.lookup s name) := by
  refine h.search (fun t => ?_) s
  rw [Arena.ownValue?, h.log, ← rename_reverse, findSome?_rename (bound?_rename name)]
  rfl

/-- The variables of scopes that correspond. -/
theorem Shifted.ownVariables (h : Shifted n k a b) (s : ScopeId) :
    b.ownVariables (shift n k s) = rename (shift n k) (a.ownVariables s) := by
  rw [Arena.ownVariables, h.log]
  refine foldl_rename (fun vars e => ?_) [] (a.log s)
  cases e with
  | binding name v => exact put_rename name v vars
  | mixin r => rfl

/-- The mixins of scopes that correspond. -/
theorem Shifted.mixins (h : Shifted n k a b) (s : ScopeId) :
    b.mixins (shift n k s) = rename (shift n k) (a.mixins s) := by
  rw [Arena.mixins, h.log, filterMap_rename registration?_rename]
  rfl

/-- The mixins of such scopes that a call may be meant for. -/
theorem Shifted.ownMixins (h : Shifted n k a b) (s : ScopeId) (name : String)
    (arity : Option Nat) :
    b.ownMixins (shift n k s) name arity = rename (shift n k) (a.ownMixins s name arity) := by
  rw [Arena.ownMixins, h.mixins, filter_rename (g := Arena.answers name arity) fun _ => rfl]
  exact foldl_rename (fun found r => keepLatest_rename r found) [] _

/-- Looking up mixins from scopes that correspond. -/
theorem Shifted.lookupMixins (h : Shifted n k a b) (s : ScopeId) (name : String)
    (arity : Option Nat) :
    b.lookupMixins (shift n k s) name arity = rename (shift n k) (a.lookupMixins s name arity) := by
  have hown : ∀ t, b.ownMixins? (shift n k t) name arity =
      (a.ownMixins? t name arity).map (rename (shift n k)) := by
    intro t
    rw [Arena.ownMixins?, Arena.ownMixins?, h.ownMixins]
    cases a.ownMixins t name arity <;> rfl
  rw [Arena.lookupMixins, Arena.lookupMixins, h.search hown]
  cases a.search s fun t => a.ownMixins? t name arity <;> rfl

end

end LessSheet
