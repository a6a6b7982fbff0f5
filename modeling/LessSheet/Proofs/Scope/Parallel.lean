import LessSheet.Proofs.Scope.Shift
import LessSheet.Proofs.Script.Safety

/-! # Operations on arenas that correspond

Of two arenas that correspond (`Shifted`), every operation leaves two that do, if it is applied to
scopes that correspond (`Creation.apply_shift`, `Change.apply_shift`). Going back to a snapshot is
the one case with a condition: the snapshot has to be younger than the room that was made, or else
going back would take the room away.
-/

namespace LessSheet

section
variable {n k : Nat} {a b : Arena} {s t : ScopeId}

/-- The next scope of the one arena corresponds to the next scope of the other. -/
theorem Shifted.next (h : Shifted n k a b) : shift n k a.size = b.size := by
  rw [shift_of_le h.floor, h.size]

/-- A scope exists if the one that corresponds to it does. -/
theorem Shifted.lt_size_iff (h : Shifted n k a b) : shift n k s < b.size ↔ s < a.size := by
  rw [h.size]
  exact shift_lt_iff h.floor

/-- Adding scopes with links that correspond. -/
theorem Shifted.push (h : Shifted n k a b) (link : Link) :
    Shifted n k (a.push link).2 (b.push (link.renumber (shift n k))).2 := by
  refine ⟨?_, ?_, fun t => ?_⟩
  · rw [Arena.size_push]
    exact Nat.le_succ_of_le h.floor
  · rw [Arena.size_push, Arena.size_push, h.size]
    omega
  · simp only [Arena.scope_push, ← h.next, shift_inj]
    split
    · rfl
    · exact h.scope t

/-- Scopes that correspond are changed alike. -/
theorem Shifted.update (h : Shifted n k a b) (s : ScopeId) {f g : Scope → Scope}
    (hfg : ∀ x, g (rename (shift n k) x) = rename (shift n k) (f x)) :
    Shifted n k (a.update s f) (b.update (shift n k s) g) := by
  refine ⟨?_, ?_, fun t => ?_⟩
  · rw [Arena.size_update]
    exact h.floor
  · rw [Arena.size_update, Arena.size_update, h.size]
  · simp only [Arena.scope_update, shift_inj, h.lt_size_iff, h.scope t]
    split
    · exact hfg _
    · rfl

/-- Recording entries that correspond. -/
theorem Shifted.record (h : Shifted n k a b) (s : ScopeId) (e : Entry) :
    Shifted n k (a.record s e) (b.record (shift n k s) (rename (shift n k) e)) := by
  refine h.update s fun x => ?_
  rw [log_rename]
  exact congrArg (fun l => { rename (shift n k) x with log := l }) (rename_append x.log [e]).symm

/-- Starting to stage entries in scopes that correspond. -/
theorem Shifted.openStaging (h : Shifted n k a b) (s : ScopeId) :
    Shifted n k (a.openStaging s) (b.openStaging (shift n k s)) := h.update s fun _ => rfl

/-- Staging entries of scopes that correspond. -/
theorem Shifted.stage (h : Shifted n k a b) (s t : ScopeId) :
    Shifted n k (a.stage s t) (b.stage (shift n k s) (shift n k t)) := by
  refine h.update s fun x => ?_
  have hstaged : ((rename (shift n k) x).staged.getD []) ++ b.log (shift n k t) =
      rename (shift n k) (x.staged.getD [] ++ a.log t) := by
    rw [h.log, rename_append]
    cases hx : x.staged <;> rw [staged_rename, hx] <;> rfl
  rw [hstaged]
  rfl

/-- Whether a log shadows an entry does not depend on the numbers of scopes. -/
theorem shadows_rename (log : List Entry) (e : Entry) :
    Arena.shadows (rename (shift n k) log) (rename (shift n k) e) = Arena.shadows log e := by
  cases e with
  | mixin r => rfl
  | binding name v =>
    simp only [rename_binding, Arena.shadows]
    induction log with
    | nil => rfl
    | cons e log ih =>
      rw [rename_cons, List.any_cons, List.any_cons, ih, bound?_rename, isSome_rename]

/-- Committing what is staged in scopes that correspond. -/
theorem Shifted.commit (h : Shifted n k a b) (s : ScopeId) :
    Shifted n k (a.commit s) (b.commit (shift n k s)) := by
  refine h.update s fun x => ?_
  rw [staged_rename]
  cases hx : x.staged with
  | none => rfl
  | some staged =>
    have hlog : rename (shift n k) x.log ++ (rename (shift n k) staged).filter
          (fun e => !Arena.shadows (rename (shift n k) x.log) e) =
        rename (shift n k) (x.log ++ staged.filter fun e => !Arena.shadows x.log e) := by
      have hkept : ∀ e, (!Arena.shadows (rename (shift n k) x.log) (rename (shift n k) e)) =
          !Arena.shadows x.log e := fun e => congrArg not (shadows_rename x.log e)
      rw [rename_append, filter_rename hkept]
    exact congrArg (fun l => { rename (shift n k) x with log := l, staged := none }) hlog

/-- Going back to sizes that correspond, if the first `n` scopes stay. -/
theorem Shifted.truncate (h : Shifted n k a b) {m : Nat} (hm : n ≤ m) :
    Shifted n k (a.truncate m) (b.truncate (m + k)) := by
  refine ⟨?_, ?_, fun t => ?_⟩
  · rw [Arena.size_truncate]
    exact Nat.le_min.2 ⟨hm, h.floor⟩
  · rw [Arena.size_truncate, Arena.size_truncate, h.size, Nat.add_min_add_right]
  · by_cases ht : t < m
    · rw [Arena.scope_truncate ((shift_lt_iff hm).2 ht), Arena.scope_truncate ht, h.scope]
    · have ht' : m ≤ t := Nat.le_of_not_lt ht
      have hs : m + k ≤ shift n k t := Nat.le_of_not_lt fun hu => ht ((shift_lt_iff hm).1 hu)
      rw [Arena.scope_truncate_of_le hs, Arena.scope_truncate_of_le ht']
      rfl

/-! ## All operations -/

/-- Renumbers a snapshot. The number of scopes is the number of the next one. -/
def Snapshot.renumber (f : ScopeId → ScopeId) (x : Snapshot) : Snapshot :=
  ⟨x.kind, f x.scope, x.entries, f x.scopes⟩

/-- Snapshots of scopes that correspond. -/
theorem Shifted.snapshot (h : Shifted n k a b) (s : ScopeId) (kind : Snapshot.Kind) :
    b.snapshot (shift n k s) kind = (a.snapshot s kind).renumber (shift n k) := by
  rw [Arena.snapshot, h.log, length_rename, ← h.next]
  rfl

/-- The first entries, renumbered, are the first of those renumbered. -/
theorem take_rename {α : Type} [Carries α] [Renames α] {f : ScopeId → ScopeId} (i : Nat)
    (xs : List α) : (rename f xs).take i = rename f (xs.take i) := List.map_take.symm

/-- Going back to snapshots that correspond, if that leaves the room that was made. -/
theorem Shifted.restore (h : Shifted n k a b) {x : Snapshot}
    (hx : x.kind = .attempt → n ≤ x.scopes) :
    Shifted n k (a.restore x) (b.restore (x.renumber (shift n k))) := by
  obtain ⟨kind, s, entries, scopes⟩ := x
  have hlog : ∀ y : Scope, { rename (shift n k) y with
      log := (rename (shift n k) y).log.take entries } =
        rename (shift n k) { y with log := y.log.take entries } := fun y =>
    congrArg (fun l => { rename (shift n k) y with log := l }) (take_rename entries y.log)
  cases kind with
  | log => exact h.update s hlog
  | attempt =>
    have hscopes : n ≤ scopes := hx rfl
    have htrunc := h.truncate hscopes
    rw [← shift_of_le hscopes] at htrunc
    exact htrunc.update s hlog

/-- Renumbers the scopes that a creation is applied to. -/
def Creation.renumber (f : ScopeId → ScopeId) : Creation → Creation
  | .child parent => .child (f parent)
  | .detached => .detached
  | .join caller callee => .join (f caller) (f callee)

/-- Renumbers the scopes that a change is applied to or brings in. -/
def Change.renumber (f : ScopeId → ScopeId) : Change → Change
  | .record s e => .record (f s) (rename f e)
  | .restore snapshot => .restore (snapshot.renumber f)
  | .openStaging s => .openStaging (f s)
  | .stage s exports => .stage (f s) (f exports)
  | .commit s => .commit (f s)

/-- A creation answers scopes that correspond and leaves arenas that do. -/
theorem Creation.apply_shift (c : Creation) (h : Shifted n k a b) :
    ((c.renumber (shift n k)).apply b).1 = shift n k (c.apply a).1 ∧
      Shifted n k (c.apply a).2 ((c.renumber (shift n k)).apply b).2 := by
  cases c with
  | child parent => exact ⟨h.next.symm, h.push (.child parent)⟩
  | detached => exact ⟨h.next.symm, h.push .root⟩
  | join caller callee =>
    simp only [Creation.renumber, Creation.apply, Arena.join, h.reaches]
    split
    · exact ⟨rfl, h⟩
    · exact ⟨h.next.symm, h.push (.join callee caller)⟩

/-- Whether a change leaves the first `n` scopes of an arena in place. -/
def Change.Keeps (n : Nat) : Change → Prop
  | .restore snapshot => snapshot.kind = .attempt → n ≤ snapshot.scopes
  | _ => True

/-- A change leaves arenas that correspond. -/
theorem Change.apply_shift {c : Change} (hc : c.Keeps n) (h : Shifted n k a b) :
    Shifted n k (c.apply a) ((c.renumber (shift n k)).apply b) := by
  cases c with
  | record s e => exact h.record s e
  | restore snapshot => exact h.restore hc
  | openStaging s => exact h.openStaging s
  | stage s exports => exact h.stage s exports
  | commit s => exact h.commit s

end

end LessSheet
