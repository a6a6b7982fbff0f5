import LessSheet.Script

/-! # The steps of a script

`Script.run` says what a script comes to. This module says how it gets there: `step` carries out the
first operation, and `Reaches x p y q` holds if carrying out `x` from the state `p` comes, after
some steps, to the state `q` with `y` still to be done. A run is its steps to the end
(`Reaches.run_eq`), so what holds wherever a script gets holds all along its run.

Scripts are put together by `andThen`. Its run is the one run after the other (`run_andThen`), and
so are the places it gets to (`Reaches.andThen_cases`).
-/

namespace LessSheet

namespace Script

variable {ε ε' α β : Type}

/-! ## Runs -/

@[simp] theorem run_done (r : Except ε α) (p : Progress) : (done r).run p = (r, p) := rfl

@[simp] theorem run_look (scopes : List ScopeId) (next : Arena → Script ε α) (p : Progress) :
    (look scopes next).run p = (next p.arena).run p := rfl

@[simp] theorem run_mark (s : ScopeId) (kind : Snapshot.Kind) (next : Snapshot → Script ε α)
    (p : Progress) : (mark s kind next).run p = (next (p.arena.snapshot s kind)).run p := rfl

@[simp] theorem run_create (c : Creation) (next : ScopeId → Script ε α) (p : Progress) :
    (create c next).run p =
      (next (c.apply p.arena).1).run { p with arena := (c.apply p.arena).2 } := rfl

@[simp] theorem run_change (c : Change) (next : Script ε α) (p : Progress) :
    (change c next).run p = next.run { p with arena := c.apply p.arena } := rfl

@[simp] theorem run_report (more : List Problem) (next : Script ε α) (p : Progress) :
    (report more next).run p = next.run { p with problems := p.problems ++ more } := rfl

@[simp] theorem run_level (f : Nat → Nat) (next : Nat → Script ε α) (p : Progress) :
    (level f next).run p = (next p.depth).run { p with depth := f p.depth } := rfl

/-- What follows a script runs from the state the script leaves, on its result. -/
theorem run_andThen (x : Script ε α) (k : Except ε α → Script ε' β) (p : Progress) :
    (x.andThen k).run p = (k (x.run p).1).run (x.run p).2 := by
  induction x generalizing p with
  | done r => rfl
  | look _ next ih => exact ih p.arena p
  | mark _ _ next ih => exact ih _ p
  | create c next ih => exact ih _ _
  | change c next ih => exact ih _
  | report more next ih => exact ih _
  | level f next ih => exact ih _ _

/-- What follows what follows a script may be put together first. -/
theorem andThen_assoc {γ ε'' : Type} (x : Script ε α) (j : Except ε α → Script ε' β)
    (k : Except ε' β → Script ε'' γ) :
    (x.andThen j).andThen k = x.andThen fun r => (j r).andThen k := by
  induction x with
  | done r => rfl
  | look scopes next ih => exact congrArg (look scopes) (funext ih)
  | mark s kind next ih => exact congrArg (mark s kind) (funext ih)
  | create c next ih => exact congrArg (create c) (funext ih)
  | change c next ih => exact congrArg (change c) ih
  | report more next ih => exact congrArg (report more) ih
  | level f next ih => exact congrArg (level f) (funext ih)

/-- A script followed by nothing is that script. -/
theorem andThen_done (x : Script ε α) : x.andThen done = x := by
  induction x with
  | done r => rfl
  | look scopes next ih => exact congrArg (look scopes) (funext ih)
  | mark s kind next ih => exact congrArg (mark s kind) (funext ih)
  | create c next ih => exact congrArg (create c) (funext ih)
  | change c next ih => exact congrArg (change c) ih
  | report more next ih => exact congrArg (report more) ih
  | level f next ih => exact congrArg (level f) (funext ih)

instance : LawfulMonad (Script ε) := by
  refine LawfulMonad.mk' _ (fun x => ?_) (fun _ _ => rfl) fun x f g => ?_
  · refine Eq.trans (congrArg x.andThen (funext fun r => ?_)) (andThen_done x)
    cases r <;> rfl
  · refine Eq.trans (andThen_assoc x (orFail f) (orFail g)) ?_
    refine congrArg x.andThen (funext fun r => ?_)
    cases r <;> rfl

@[simp] theorem pure_eq (x : α) : (pure x : Script ε α) = done (.ok x) := rfl

@[simp] theorem throw_eq (e : ε) : (throw e : Script ε α) = done (.error e) := rfl

/-- A script and what follows it when it comes to a result. -/
theorem bind_eq (x : Script ε α) (f : α → Script ε β) : (x >>= f) = x.andThen (orFail f) := rfl

/-- After a result, a script goes on with it. -/
theorem run_bind_ok {x : Script ε α} {f : α → Script ε β} {p q : Progress} {a : α}
    (h : x.run p = (.ok a, q)) : (x >>= f).run p = (f a).run q := by
  rw [bind_eq, run_andThen, h]
  rfl

/-- A script that comes to a result has come to one at its first step. -/
theorem ok_of_run_bind {x : Script ε α} {f : α → Script ε β} {p q : Progress} {b : β}
    (h : (x >>= f).run p = (.ok b, q)) :
    ∃ a m, x.run p = (.ok a, m) ∧ (f a).run m = (.ok b, q) := by
  rw [bind_eq, run_andThen] at h
  cases hr : (x.run p).1 with
  | ok a =>
    rw [hr] at h
    exact ⟨a, (x.run p).2, Prod.ext hr rfl, h⟩
  | error e =>
    rw [hr] at h
    cases h

/-- A function of the result changes no state. -/
theorem run_map (f : α → β) (x : Script ε α) (p : Progress) :
    (f <$> x).run p = ((x.run p).1.map f, (x.run p).2) := by
  rw [map_eq_pure_bind, bind_eq, run_andThen]
  cases (x.run p).1 <;> rfl

/-- A script comes to a result with other errors too. -/
theorem run_mapError_ok {x : Script ε α} {p q : Progress} {a : α} (h : x.run p = (.ok a, q))
    (f : ε → ε') : (x.mapError f).run p = (.ok a, q) := by
  rw [mapError, run_andThen, h]
  rfl

/-- Other errors do not change a result. -/
theorem ok_of_run_mapError {x : Script ε α} {f : ε → ε'} {p q : Progress} {a : α}
    (h : (x.mapError f).run p = (.ok a, q)) : x.run p = (.ok a, q) := by
  rw [mapError, run_andThen] at h
  cases hr : (x.run p).1 with
  | ok b =>
    rw [hr] at h
    cases h
    exact Prod.ext hr rfl
  | error e =>
    rw [hr] at h
    cases h

/-! ## Steps -/

/-- The first operation of a script carried out: the rest of the script and the state then. A
script that has ended takes no step. -/
def step : Script ε α → Progress → Option (Script ε α × Progress)
  | .done _, _ => none
  | .look _ next, p => some (next p.arena, p)
  | .mark s kind next, p => some (next (p.arena.snapshot s kind), p)
  | .create c next, p =>
    some (next (c.apply p.arena).1, { p with arena := (c.apply p.arena).2 })
  | .change c next, p => some (next, { p with arena := c.apply p.arena })
  | .report more next, p => some (next, { p with problems := p.problems ++ more })
  | .level f next, p => some (next p.depth, { p with depth := f p.depth })

/-- `Reaches x p y q`: carried out from `p`, the script `x` comes to the state `q`, where `y` is
still to be done. -/
inductive Reaches (x : Script ε α) (p : Progress) : Script ε α → Progress → Prop where
  | start : Reaches x p x p
  | step {y z : Script ε α} {q r : Progress} :
    Reaches x p y q → y.step q = some (z, r) → Reaches x p z r

/-- A step does not change what a script comes to. -/
theorem run_of_step {x y : Script ε α} {p q : Progress} (h : x.step p = some (y, q)) :
    x.run p = y.run q := by
  cases x <;> cases h <;> rfl

/-- Wherever a script gets, the rest of it comes to what the whole comes to. -/
theorem Reaches.run_eq {x y : Script ε α} {p q : Progress} (h : Reaches x p y q) :
    y.run q = x.run p := by
  induction h with
  | start => rfl
  | step _ hs ih => rw [← run_of_step hs, ih]

/-- Places reached from a place that is reached are reached. -/
theorem Reaches.trans {x y z : Script ε α} {p q r : Progress} (h₁ : Reaches x p y q)
    (h₂ : Reaches y q z r) : Reaches x p z r := by
  induction h₂ with
  | start => exact h₁
  | step _ hs ih => exact ih.step hs

/-- Every run ends where its script has been done. -/
theorem reaches_done (x : Script ε α) (p : Progress) :
    Reaches x p (done (x.run p).1) (x.run p).2 := by
  induction x generalizing p with
  | done r => exact .start
  | look _ next ih => exact (Reaches.start.step rfl).trans (ih _ _)
  | mark _ _ next ih => exact (Reaches.start.step rfl).trans (ih _ _)
  | create c next ih => exact (Reaches.start.step rfl).trans (ih _ _)
  | change c next ih => exact (Reaches.start.step rfl).trans (ih _)
  | report more next ih => exact (Reaches.start.step rfl).trans (ih _)
  | level f next ih => exact (Reaches.start.step rfl).trans (ih _ _)

/-- A place reached is the start, or reached from where the first step leads. -/
theorem Reaches.cases_head {x y : Script ε α} {p q : Progress} (h : Reaches x p y q) :
    (y = x ∧ q = p) ∨ ∃ z r, x.step p = some (z, r) ∧ Reaches z r y q := by
  induction h with
  | start => exact .inl ⟨rfl, rfl⟩
  | step _ hs ih =>
    refine .inr ?_
    rcases ih with ⟨rfl, rfl⟩ | ⟨z, r, h₁, h₂⟩
    · exact ⟨_, _, hs, .start⟩
    · exact ⟨z, r, h₁, h₂.step hs⟩

/-- A script that has ended gets nowhere. -/
theorem Reaches.of_done {r : Except ε α} {y : Script ε α} {p q : Progress}
    (h : Reaches (done r) p y q) : y = done r ∧ q = p := by
  rcases h.cases_head with h | ⟨_, _, hs, _⟩
  · exact h
  · cases hs

/-- A step does not depend on what follows later. -/
theorem step_andThen {x y : Script ε α} {p q : Progress} (h : x.step p = some (y, q))
    (k : Except ε α → Script ε' β) : (x.andThen k).step p = some (y.andThen k, q) := by
  cases x <;> cases h <;> rfl

/-- Where a script gets alone, it gets with another still to be done. -/
theorem Reaches.andThen {x y : Script ε α} {p q : Progress} (h : Reaches x p y q)
    (k : Except ε α → Script ε' β) : Reaches (x.andThen k) p (y.andThen k) q := by
  induction h with
  | start => exact .start
  | step _ hs ih => exact ih.step (step_andThen hs k)

/-- A script followed by another gets where it gets alone, with the other still to be done, and then
where the other gets. -/
theorem Reaches.andThen_cases {x : Script ε α} {k : Except ε α → Script ε' β} {y : Script ε' β}
    {p q : Progress} (h : Reaches (x.andThen k) p y q) :
    (∃ z, Reaches x p z q ∧ y = z.andThen k) ∨ Reaches (k (x.run p).1) (x.run p).2 y q := by
  induction x generalizing p with
  | done r => exact .inr h
  | look _ next ih | mark _ _ next ih | create _ next ih | level _ next ih =>
    rcases h.cases_head with ⟨rfl, rfl⟩ | ⟨_, _, hs, h⟩
    · exact .inl ⟨_, .start, rfl⟩
    · cases hs
      rcases ih _ h with ⟨z, hz, rfl⟩ | h
      · exact .inl ⟨z, (Reaches.start.step rfl).trans hz, rfl⟩
      · exact .inr h
  | change _ next ih | report _ next ih =>
    rcases h.cases_head with ⟨rfl, rfl⟩ | ⟨_, _, hs, h⟩
    · exact .inl ⟨_, .start, rfl⟩
    · cases hs
      rcases ih h with ⟨z, hz, rfl⟩ | h
      · exact .inl ⟨z, (Reaches.start.step rfl).trans hz, rfl⟩
      · exact .inr h

/-- Before its end, a script that only passes on the result of another is where the other is before
its end. -/
theorem Reaches.of_andThen_done {x : Script ε α} {k : Except ε α → Script ε' β} {y : Script ε' β}
    {p q : Progress} (h : Reaches (x.andThen k) p y q) (hk : ∀ r, ∃ e, k r = done e)
    (hy : ∀ e, y ≠ done e) : ∃ z, Reaches x p z q ∧ ∀ e, z ≠ done e := by
  rcases h.andThen_cases with ⟨z, hz, rfl⟩ | h
  · refine ⟨z, hz, ?_⟩
    rintro r rfl
    obtain ⟨e, he⟩ := hk r
    exact hy e he
  · obtain ⟨e, he⟩ := hk (x.run p).1
    rw [he] at h
    exact absurd h.of_done.1 (hy e)

end Script

end LessSheet
