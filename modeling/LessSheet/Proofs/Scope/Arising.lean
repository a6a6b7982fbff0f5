import LessSheet.Proofs.Scope.Growth
import LessSheet.Scope.Operation

/-! # Arenas that arise by operations

`Arises a taken` says that some sequence of operations leads from the root scope alone to the arena
`a`, where `taken` are the snapshots that were taken on the way. Every operation is applied to
scopes that exist at that moment. What is recorded in a log is not restricted, and neither is the
order in which snapshots are gone back to: a number may have been dropped and given out again in
between.

Whatever the sequence, links lead to older scopes (`Arises.ordered`).
-/

namespace LessSheet

/-- The scopes that a creation is applied to. -/
def Creation.operands : Creation → List ScopeId
  | .child parent => [parent]
  | .detached => []
  | .join caller callee => [caller, callee]

/-- The scopes that a change is applied to. -/
def Change.operands : Change → List ScopeId
  | .record scope _ => [scope]
  | .restore snapshot => [snapshot.scope]
  | .openStaging scope => [scope]
  | .stage scope exports => [scope, exports]
  | .commit scope => [scope]

/-- A creation leaves the arena as it is or adds a scope that links to those it is applied to. -/
theorem Creation.apply_cases (c : Creation) (a : Arena) :
    (c.apply a).2 = a ∨ ∃ link : Link, link.targets ⊆ c.operands ∧ c.apply a = a.push link := by
  cases c with
  | child parent => exact .inr ⟨.child parent, List.Subset.refl _, rfl⟩
  | detached => exact .inr ⟨.root, List.Subset.refl _, rfl⟩
  | join caller callee =>
    rw [Creation.apply, Arena.join]
    split
    · exact .inl rfl
    · exact .inr ⟨.join callee caller, by simp [Link.targets, Creation.operands], rfl⟩

namespace Arena

/-- Operations one after the other, from the root scope alone: the arena they lead to, and the
snapshots taken on the way, the latest first. -/
inductive Arises : Arena → List Snapshot → Prop where
  | start : Arises Arena.empty []
  | create {a : Arena} {taken : List Snapshot} (c : Creation) :
    Arises a taken → (∀ t ∈ c.operands, t < a.size) → Arises (c.apply a).2 taken
  | change {a : Arena} {taken : List Snapshot} (c : Change) :
    Arises a taken → (∀ t ∈ c.operands, t < a.size) →
    (∀ snapshot, c = .restore snapshot → snapshot ∈ taken) → Arises (c.apply a) taken
  | mark {a : Arena} {taken : List Snapshot} (s : ScopeId) (kind : Snapshot.Kind) :
    Arises a taken → s < a.size → Arises a (a.snapshot s kind :: taken)

/-! ## The order of links -/

/-- Links lead to older scopes. -/
def Ordered (a : Arena) : Prop := ∀ s, ∀ t ∈ (a.scope s).link.targets, t < s

section
variable {a : Arena} {s : ScopeId}

/-- In a closed arena links lead to older scopes. -/
theorem Closed.ordered (h : a.Closed) : a.Ordered := h.older

/-- There are no links in the empty arena. -/
theorem Ordered.empty : Arena.empty.Ordered := by
  intro s t ht
  cases s <;> cases ht

/-- A new scope may link to scopes that exist. -/
theorem Ordered.push (h : a.Ordered) (link : Link) (hl : ∀ t ∈ link.targets, t < a.size) :
    (a.push link).2.Ordered := by
  intro u t ht
  rw [scope_push] at ht
  split at ht
  · next hu => exact hu ▸ hl t ht
  · exact h u t ht

/-- A change that keeps the link of its scope keeps the order. -/
theorem Ordered.update (h : a.Ordered) {f : Scope → Scope}
    (hl : (f (a.scope s)).link = (a.scope s).link) : (a.update s f).Ordered := by
  intro u t ht
  rw [scope_update] at ht
  split at ht
  · next hu =>
    rw [← hu.1, hl] at ht
    exact hu.1 ▸ h s t ht
  · exact h u t ht

/-- Dropping scopes from a number on leaves the links of the others. -/
theorem Ordered.truncate (h : a.Ordered) (n : Nat) : (a.truncate n).Ordered := by
  intro u t ht
  by_cases hu : u < n
  · rw [scope_truncate hu] at ht
    exact h u t ht
  · rw [scope_truncate_of_le (Nat.le_of_not_lt hu)] at ht
    cases ht

/-- Going back adds no links. -/
theorem Ordered.restore (h : a.Ordered) (snapshot : Snapshot) : (a.restore snapshot).Ordered := by
  unfold Arena.restore
  split
  · exact (h.truncate _).update rfl
  · exact h.update rfl

/-- A scope that is added links to scopes that exist, which are older. -/
theorem Ordered.create (h : a.Ordered) {c : Creation} (hc : ∀ t ∈ c.operands, t < a.size) :
    (c.apply a).2.Ordered := by
  rcases c.apply_cases a with hsame | ⟨link, hlink, hpush⟩
  · rwa [hsame]
  · rw [hpush]
    exact h.push link fun t ht => hc t (hlink ht)

/-- A change sets no links. -/
theorem Ordered.change (h : a.Ordered) (c : Change) : (c.apply a).Ordered := by
  cases c with
  | record s e => exact h.update rfl
  | restore snapshot => exact h.restore snapshot
  | openStaging s => exact h.update rfl
  | stage s exports => exact h.update rfl
  | commit s =>
    refine h.update ?_
    split <;> rfl

/-- However an arena has arisen, its links lead to older scopes. -/
theorem Arises.ordered {taken : List Snapshot} (h : a.Arises taken) : a.Ordered := by
  induction h with
  | start => exact .empty
  | create c _ hc ih => exact ih.create hc
  | change c _ _ _ ih => exact ih.change c
  | mark s kind _ _ ih => exact ih

end

end Arena

end LessSheet
