import LessSheet.Proofs.Scope.Sight
import Mathlib.Logic.Function.Iterate

/-! # Walks come to an end

The walk behind a look-up is bounded by a number of steps. Here it is taken step by step and without
a bound: `Walk` is where it stands, and `Arena.step` its next step. A walk ends when its stack is
empty.

In an arena whose links lead to older scopes, a walk from `s` stays among the scopes up to `s`. Each
step takes a scope off the stack, and puts at most two in its place if the walk has not come to it
before, so `2 * s + 3` steps are enough (`stack_iterate_step`). The bound of `search` is never what
ends one (`sight_eq_reverse_seen`).

However an arena has arisen, it has such links and a root (`Arises.rooted`). This does not depend on
what a number stood for at some other time: a number that is given out again is above the scopes
that the new one links to.
-/

namespace LessSheet

/-- Where a walk along links stands: the scopes that are still to be looked at, the next one first,
and those it has come to, the latest first. -/
structure Walk where
  stack : List ScopeId
  seen : List ScopeId
deriving DecidableEq, Repr, Inhabited

/-- The walk that starts from a scope. -/
def Walk.start (s : ScopeId) : Walk := ⟨[s], []⟩

namespace Arena

/-- The next step of a walk: the first scope is taken off the stack, and unless the walk has come to
it before, the scopes that its link leads to take its place. -/
def step (a : Arena) : Walk → Walk
  | ⟨[], seen⟩ => ⟨[], seen⟩
  | ⟨s :: stack, seen⟩ =>
    if seen.contains s then ⟨stack, seen⟩ else ⟨(a.scope s).link.targets ++ stack, s :: seen⟩

section
variable {a : Arena} {s t : ScopeId} {stack seen : List ScopeId}

/-- A scope that the walk has come to before is dropped. -/
theorem step_of_mem (h : t ∈ seen) : a.step ⟨t :: stack, seen⟩ = ⟨stack, seen⟩ :=
  if_pos (List.contains_iff_mem.2 h)

/-- A scope that is new to the walk is replaced with those that its link leads to. -/
theorem step_of_not_mem (h : t ∉ seen) :
    a.step ⟨t :: stack, seen⟩ = ⟨(a.scope t).link.targets ++ stack, t :: seen⟩ :=
  if_neg fun hmem => h (List.contains_iff_mem.1 hmem)

/-- After a walk has ended nothing happens. -/
theorem iterate_step_of_ended {w : Walk} (h : w.stack = []) (n : Nat) : a.step^[n] w = w := by
  obtain ⟨stack, seen⟩ := w
  cases h
  exact Function.iterate_fixed rfl n

/-! ## How many steps there are -/

/-- The scopes up to `s` that a walk has not come to. -/
def unseenUpTo (s : ScopeId) (seen : List ScopeId) : Finset ScopeId :=
  Finset.range (s + 1) \ seen.toFinset

/-- The steps that a walk among the scopes up to `s` has left at most. -/
def stepsLeft (s : ScopeId) (w : Walk) : Nat := w.stack.length + 2 * (unseenUpTo s w.seen).card

/-- Two steps for each scope up to the first one, and one for the start. -/
theorem stepsLeft_start (s : ScopeId) : stepsLeft s (.start s) = 2 * s + 3 := by
  rw [stepsLeft, Walk.start, unseenUpTo, List.toFinset_nil, Finset.sdiff_empty, Finset.card_range,
    List.length_singleton]
  omega

/-- Coming to a scope for the first time. -/
theorem card_unseenUpTo_cons (hs : t ≤ s) (ht : t ∉ seen) :
    (unseenUpTo s (t :: seen)).card + 1 = (unseenUpTo s seen).card := by
  have hmem : t ∈ unseenUpTo s seen := by
    rw [unseenUpTo, Finset.mem_sdiff, Finset.mem_range, List.mem_toFinset]
    exact ⟨Nat.lt_succ_of_le hs, ht⟩
  have herase : unseenUpTo s (t :: seen) = (unseenUpTo s seen).erase t := by
    rw [unseenUpTo, unseenUpTo, List.toFinset_cons, Finset.sdiff_insert]
  rw [herase, Finset.card_erase_add_one hmem]

/-- A step of a walk that has not ended leaves it among the scopes up to `s`, with fewer steps to
come. -/
theorem step_of_ordered (ha : a.Ordered) {w : Walk} (hw : ∀ t ∈ w.stack, t ≤ s)
    (hne : w.stack ≠ []) :
    (∀ t ∈ (a.step w).stack, t ≤ s) ∧ stepsLeft s (a.step w) < stepsLeft s w := by
  obtain ⟨stack, seen⟩ := w
  cases stack with
  | nil => exact absurd rfl hne
  | cons t stack =>
    obtain ⟨hts, hrest⟩ := List.forall_mem_cons.1 hw
    by_cases hmem : t ∈ seen
    · rw [step_of_mem hmem]
      exact ⟨hrest, by simp [stepsLeft]⟩
    · rw [step_of_not_mem hmem]
      refine ⟨List.forall_mem_append.2 ⟨fun u hu => ?_, hrest⟩, ?_⟩
      · exact Nat.le_trans (Nat.le_of_lt (ha t u hu)) hts
      · have hcard := card_unseenUpTo_cons hts hmem
        have hlinks := length_targets_le (a.scope t).link
        simp only [stepsLeft, List.length_append, List.length_cons]
        omega

/-- A walk has ended when no steps are left. -/
theorem stack_iterate_step (ha : a.Ordered) {w : Walk} (hw : ∀ t ∈ w.stack, t ≤ s) {n : Nat}
    (hn : stepsLeft s w ≤ n) : (a.step^[n] w).stack = [] := by
  induction n generalizing w with
  | zero =>
    have hlength := Nat.le_trans (Nat.le_add_right w.stack.length _) hn
    exact List.length_eq_zero_iff.1 (Nat.le_zero.1 hlength)
  | succ n ih =>
    by_cases hended : w.stack = []
    · rw [iterate_step_of_ended hended, hended]
    · obtain ⟨hstack, hless⟩ := step_of_ordered ha hw hended
      rw [Function.iterate_succ_apply]
      exact ih hstack (by omega)

/-- A walk from `s` has ended after `2 * s + 3` steps. -/
theorem stack_walk_start (ha : a.Ordered) (s : ScopeId) :
    (a.step^[2 * s + 3] (.start s)).stack = [] :=
  stack_iterate_step ha (s := s) (by simp [Walk.start]) (Nat.le_of_eq (stepsLeft_start s))

/-! ## Walks with a bound -/

/-- The scopes that a walk comes to in a number of steps. -/
theorem seen_iterate_step (a : Arena) (n : Nat) (w : Walk) :
    (a.step^[n] w).seen = (a.walk n w.stack w.seen).reverse ++ w.seen := by
  induction n generalizing w with
  | zero => rfl
  | succ n ih =>
    obtain ⟨stack, seen⟩ := w
    rw [Function.iterate_succ_apply, ih]
    cases stack with
    | nil => cases n <;> rfl
    | cons t stack =>
      rw [walk]
      by_cases hmem : t ∈ seen
      · rw [step_of_mem hmem, if_pos (List.contains_iff_mem.2 hmem)]
      · rw [step_of_not_mem hmem, if_neg fun h => hmem (List.contains_iff_mem.1 h),
          List.reverse_cons, List.append_assoc]
        rfl

/-- The scopes in sight are all that a walk comes to until it ends. -/
theorem sight_eq_reverse_seen (ha : a.Ordered) (hs : s < a.size) :
    a.sight s = (a.step^[2 * s + 3] (.start s)).seen.reverse := by
  have hle : 2 * s + 3 ≤ 2 * a.size + 1 :=
    Nat.succ_le_succ (Nat.mul_le_mul_left 2 (Nat.succ_le_of_lt hs))
  obtain ⟨more, hmore⟩ := Nat.exists_eq_add_of_le hle
  have hlast : a.step^[2 * a.size + 1] (.start s) = a.step^[2 * s + 3] (.start s) := by
    rw [hmore, Nat.add_comm, Function.iterate_add_apply,
      iterate_step_of_ended (stack_walk_start ha s)]
  have hseen := a.seen_iterate_step (2 * a.size + 1) (.start s)
  rw [hlast] at hseen
  rw [hseen]
  simp [Walk.start, sight]

/-! ## The root -/

/-- There is a scope, and every snapshot was taken when there was one. -/
theorem Arises.size_pos {taken : List Snapshot} (h : a.Arises taken) :
    0 < a.size ∧ ∀ snapshot ∈ taken, 0 < snapshot.scopes := by
  induction h with
  | start => exact ⟨Nat.zero_lt_one, nofun⟩
  | @create a taken c _ _ ih =>
    refine ⟨?_, ih.2⟩
    rcases c.apply_cases a with hsame | ⟨link, -, hpush⟩
    · rw [hsame]
      exact ih.1
    · rw [hpush, size_push]
      exact Nat.succ_pos _
  | @change a taken c _ _ htaken ih =>
    refine ⟨?_, ih.2⟩
    cases c with
    | record s e => rw [Change.apply, size_record]; exact ih.1
    | openStaging s => rw [Change.apply, openStaging, size_update]; exact ih.1
    | stage s exports => rw [Change.apply, stage, size_update]; exact ih.1
    | commit s => rw [Change.apply, commit, size_update]; exact ih.1
    | restore snapshot =>
      have hscopes := ih.2 snapshot (htaken snapshot rfl)
      rw [Change.apply, restore, size_update]
      split
      · rw [size_truncate]
        exact Nat.lt_min.2 ⟨hscopes, ih.1⟩
      · exact ih.1
  | mark s kind _ hs ih =>
    exact ⟨ih.1, List.forall_mem_cons.2 ⟨ih.1, ih.2⟩⟩

/-- The first of all scopes has nowhere to lead to. -/
theorem Ordered.link_root (ha : a.Ordered) : (a.scope Arena.root).link = .root := by
  have hnone := ha Arena.root
  cases hlink : (a.scope Arena.root).link with
  | root => rfl
  | child parent =>
    rw [hlink] at hnone
    exact absurd (hnone parent (.head _)) (Nat.not_lt_zero _)
  | join callee caller =>
    rw [hlink] at hnone
    exact absurd (hnone callee (.head _)) (Nat.not_lt_zero _)

/-- However an arena has arisen, there is the root scope, which leads nowhere, and the links of
every scope lead to older ones. A walk from any scope ends, and whatever is searched for from there,
it is found among the scopes that the walk has come to until then, in that order. -/
theorem Arises.rooted {taken : List Snapshot} (h : a.Arises taken) :
    (Arena.root < a.size ∧ (a.scope Arena.root).link = .root) ∧
    (∀ s < a.size, ∀ t ∈ (a.scope s).link.targets, t < s) ∧
    ∀ s < a.size, ∃ w, a.step^[2 * s + 3] (.start s) = w ∧ w.stack = [] ∧
      ∀ {α : Type} (f : ScopeId → Option α), a.search s f = w.seen.reverse.findSome? f := by
  have ha := h.ordered
  refine ⟨⟨h.size_pos.1, ha.link_root⟩, fun s _ => ha s, fun s hs => ?_⟩
  refine ⟨_, rfl, stack_walk_start ha s, fun f => ?_⟩
  rw [search_eq_findSome?, sight_eq_reverse_seen ha hs]

/-- Three scopes are dropped and their numbers given out again, the last to a join with the sides
exchanged. In between, a snapshot is gone back to that was taken of one of those dropped. -/
theorem Arises.rooted_reused :
    let early := (Arena.empty.child 0).2
    let late := ((early.child 0).2.join 1 2).2
    let dropped := (late.restore (early.snapshot 1 .attempt)).detached.2
    let a := ((dropped.restore (late.snapshot 2 .attempt)).join 2 1).2
    a.Arises [late.snapshot 2 .attempt, early.snapshot 1 .attempt] ∧
      (late.scope 3).link = .join 2 1 ∧ (a.scope 3).link = .join 1 2 ∧
      (∀ t ∈ (a.scope 3).link.targets, t < 3) ∧
      ∃ w, a.step^[9] (.start 3) = w ∧ w.stack = [] ∧ w.seen.reverse = [3, 1, 0, 2] := by
  intro early late dropped a
  have hearly : early.Arises [early.snapshot 1 .attempt] :=
    (Arises.start.create (.child 0) (by decide)).mark 1 .attempt (by decide)
  have hlate : late.Arises [late.snapshot 2 .attempt, early.snapshot 1 .attempt] :=
    ((hearly.create (.child 0) (by decide)).create (.join 1 2) (by decide)).mark 2 .attempt
      (by decide)
  have hdropped : dropped.Arises [late.snapshot 2 .attempt, early.snapshot 1 .attempt] := by
    refine (hlate.change (.restore (early.snapshot 1 .attempt)) (by decide) ?_).create .detached
      nofun
    rintro _ ⟨⟩
    exact .tail _ (.head _)
  have h : a.Arises [late.snapshot 2 .attempt, early.snapshot 1 .attempt] := by
    refine (hdropped.change (.restore (late.snapshot 2 .attempt)) (by decide) ?_).create
      (.join 2 1) (by decide)
    rintro _ ⟨⟩
    exact .head _
  obtain ⟨-, hlinks, hwalks⟩ := Arises.rooted h
  obtain ⟨w, hw, hended, -⟩ := hwalks 3 (by decide)
  exact ⟨h, by decide, by decide, hlinks 3 (by decide), w, hw, hended, by rw [← hw]; decide⟩

end

end Arena

end LessSheet
