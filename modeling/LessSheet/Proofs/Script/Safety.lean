import LessSheet.Proofs.Scope.Shift
import LessSheet.Proofs.Script.Steps

/-! # Scripts that stay within their arena

A script under way keeps scope numbers for later. `Holds t x` says that `t` is one of those that `x`
keeps: `x` is about to use `t`, or may come to use it although no answer on the way contains it. A
number that was dropped together with its scope and is then given out again for another scope is no
better than a wrong one, so all numbers that are kept have to be in range at every moment, also
while other things are tried and undone.

`Safe n x p` says that this is so from `p` to the end of `x`: wherever `x` gets, the arena has at
least `n` scopes and is closed, the numbers held are in range, and the operation that comes next
reads nothing outside the arena and asks nothing of it that does not hold (`Orderly`).
`Steady s a x p` says that wherever `x` gets, the scopes of `a` but for `s` are as they are in `a`.

`Good s x p` is both, with what the run leaves: the arena has grown by work in `s`, and the depth is
what it was. All of this is proved for each script from its parts, by the rules for `andThen` and
`bind` below.
-/

namespace LessSheet

/-- The scopes that a creation is applied to. -/
instance : Carries Creation where
  scopesIn
    | .child parent => [parent]
    | .detached => []
    | .join caller callee => [caller, callee]

/-- The scopes that a change is applied to or brings in. -/
instance : Carries Change where
  scopesIn
    | .record s e => s :: scopesIn e
    | .restore snapshot => [snapshot.scope]
    | .openStaging s => [s]
    | .stage s exports => [s, exports]
    | .commit s => [s]

/-- Whether a creation adds a scope does not depend on what is beyond the arena. -/
def Creation.Legal (a : Arena) : Creation → Prop
  | .child _ => True
  | .detached => True
  | .join caller callee => ∀ b, a.Extends b → b.reaches callee caller = a.reaches callee caller

/-- What a change asks of the arena, beside that the scopes it is applied to exist. Staging is
started only where nothing is staged. The scope of a snapshot is still there after going back to it,
and going back to a log changes nothing. -/
def Change.Legal (a : Arena) : Change → Prop
  | .record _ _ => True
  | .restore snapshot =>
    snapshot.scope < (a.restore snapshot).size ∧ (snapshot.kind = .log → a.restore snapshot = a)
  | .openStaging s => (a.scope s).staged = none
  | .stage _ _ => True
  | .commit _ => True

namespace Script

/-! ## What comes next -/

section
variable {ε ε' α β : Type}

/-- What the operation that comes next asks of the arena. What is read does not depend on what is
beyond the arena. -/
def Legal (a : Arena) : Script ε α → Prop
  | .look _ next => ∀ b, a.Extends b → next b = next a
  | .create c _ => c.Legal a
  | .change c _ => c.Legal a
  | _ => True

/-- What comes next is the same when something else follows later. -/
theorem Legal.andThen {x : Script ε α} {k : Except ε α → Script ε' β} {a : Arena} (h : x.Legal a)
    (hk : ∀ r, x = done r → (k r).Legal a) : (x.andThen k).Legal a := by
  cases x with
  | done r => exact hk r rfl
  | look _ next => exact fun b hb => congrArg (·.andThen k) (h b hb)
  | create _ _ | change _ _ => exact h
  | mark _ _ _ | report _ _ | level _ _ => trivial

/-! ## Scopes that are left alone all along -/

/-- A script that wherever it gets leaves the scopes of `a`, but for `s`, as they are in `a`. -/
def Steady (s : ScopeId) (a : Arena) (x : Script ε α) (p : Progress) : Prop :=
  ∀ y q, Reaches x p y q → a.SameBeside s q.arena

variable {s : ScopeId} {a : Arena} {x : Script ε α} {p : Progress}

/-- A script that is over leaves the scopes as they are. -/
theorem Steady.done {r : Except ε α} (h : a.SameBeside s p.arena) : Steady s a (done r) p := by
  intro y q hq
  obtain ⟨-, rfl⟩ := hq.of_done
  exact h

/-- A script is steady if it starts with the scopes as they are and is steady from its first step
on. -/
theorem Steady.step (h : a.SameBeside s p.arena) {y : Script ε α} {q : Progress}
    (hs : x.step p = some (y, q)) (hy : Steady s a y q) : Steady s a x p := by
  intro z r hr
  rcases hr.cases_head with ⟨rfl, rfl⟩ | ⟨_, _, hs', hr⟩
  · exact h
  · rw [hs] at hs'
    cases hs'
    exact hy z r hr

/-- Two scripts, one after the other, leave the scopes as they are if each does. -/
theorem Steady.andThen {k : Except ε α → Script ε' β} (hx : Steady s a x p)
    (hk : Steady s a (k (x.run p).1) (x.run p).2) : Steady s a (x.andThen k) p := by
  intro y q h
  rcases h.andThen_cases with ⟨z, hz, -⟩ | h
  · exact hx z q hz
  · exact hk y q h

/-- A script that is steady after work in `s` is steady with regard to what was there before. -/
theorem Steady.of_grows {b : Arena} (hx : Steady s b x p) (h : Arena.Grows s a b) :
    Steady s a x p :=
  fun y q hq t ht hts =>
    (hx y q hq t (Nat.lt_of_lt_of_le ht h.size) hts).trans (h.frame t ht hts)

end

variable {ε ε' α β : Type} [Carries α] [Carries β]

/-! ## The numbers a script holds -/

/-- A script holds a number if it uses it next, or holds it after an answer that does not contain
it. At its end a script holds what its result mentions. -/
inductive Holds (t : ScopeId) : Script ε α → Prop where
  | result {r : Except ε α} : t ∈ scopesIn r → Holds t (.done r)
  | looking {scopes : List ScopeId} {next : Arena → Script ε α} :
    t ∈ scopes → Holds t (.look scopes next)
  | look {scopes : List ScopeId} {next : Arena → Script ε α} {a : Arena} :
    ¬ a.Mentions t → Holds t (next a) → Holds t (.look scopes next)
  | marking {kind : Snapshot.Kind} {next : Snapshot → Script ε α} : Holds t (.mark t kind next)
  | mark {s : ScopeId} {kind : Snapshot.Kind} {next : Snapshot → Script ε α} {snapshot : Snapshot} :
    t ∉ scopesIn snapshot → Holds t (next snapshot) → Holds t (.mark s kind next)
  | creating {c : Creation} {next : ScopeId → Script ε α} :
    t ∈ scopesIn c → Holds t (.create c next)
  | create {c : Creation} {next : ScopeId → Script ε α} {s : ScopeId} :
    s ≠ t → Holds t (next s) → Holds t (.create c next)
  | changing {c : Change} {next : Script ε α} : t ∈ scopesIn c → Holds t (.change c next)
  | change {c : Change} {next : Script ε α} : Holds t next → Holds t (.change c next)
  | report {problems : List Problem} {next : Script ε α} :
    Holds t next → Holds t (.report problems next)
  | level {f : Nat → Nat} {next : Nat → Script ε α} {n : Nat} :
    Holds t (next n) → Holds t (.level f next)

/-- At its end a script holds nothing but its result. -/
@[simp] theorem holds_done {t : ScopeId} {r : Except ε α} :
    Holds t (done r) ↔ t ∈ scopesIn r :=
  ⟨fun | .result h => h, .result⟩

/-- What a script followed by another holds is held by it or by what follows, and then it is not in
the result that is passed on. -/
theorem Holds.andThen_cases {x : Script ε α} {k : Except ε α → Script ε' β} {t : ScopeId}
    (h : Holds t (x.andThen k)) : Holds t x ∨ ∃ r, t ∉ scopesIn r ∧ Holds t (k r) := by
  induction x with
  | done r =>
    by_cases hr : t ∈ scopesIn r
    · exact .inl (.result hr)
    · exact .inr ⟨r, hr, h⟩
  | look scopes next ih =>
    cases h with
    | looking hs => exact .inl (.looking hs)
    | look ha h => exact (ih _ h).imp_left (.look ha)
  | mark s kind next ih =>
    cases h with
    | marking => exact .inl .marking
    | mark hs h => exact (ih _ h).imp_left (.mark hs)
  | create c next ih =>
    cases h with
    | creating hs => exact .inl (.creating hs)
    | create hs h => exact (ih _ h).imp_left (.create hs)
  | change c next ih =>
    cases h with
    | changing hs => exact .inl (.changing hs)
    | change h => exact (ih h).imp_left .change
  | report problems next ih =>
    cases h with
    | report h => exact (ih h).imp_left .report
  | level f next ih =>
    cases h with
    | level h => exact (ih _ h).imp_left .level

/-- What a step and its continuation hold, for a continuation that an error ends. -/
theorem Holds.bind_cases {x : Script ε α} {f : α → Script ε β} {t : ScopeId}
    (h : Holds t (x >>= f)) : Holds t x ∨ ∃ a, t ∉ scopesIn a ∧ Holds t (f a) := by
  rcases Holds.andThen_cases h with h | ⟨r, hr, h⟩
  · exact .inl h
  · cases r with
    | ok a => exact .inr ⟨a, hr, h⟩
    | error e => exact nomatch holds_done.1 h

/-- Other errors do not change what a script holds. -/
theorem Holds.of_mapError {x : Script ε α} {f : ε → ε'} {t : ScopeId}
    (h : Holds t (x.mapError f)) : Holds t x := by
  rcases Holds.andThen_cases h with h | ⟨r, hr, h⟩
  · exact h
  · rw [holds_done, scopesIn_mapError] at h
    exact absurd h hr

/-! ## Safe scripts -/

/-- What holds at a place that a script gets to, when it never goes below `n` scopes: `y` is still
to be done, and the state is `q`. -/
structure Orderly (n : Nat) (y : Script ε α) (q : Progress) : Prop where
  floor : n ≤ q.arena.size
  closed : q.arena.Closed
  held : ∀ t, Holds t y → t < q.arena.size
  legal : y.Legal q.arena

/-- A script that is orderly wherever it gets. -/
def Safe (n : Nat) (x : Script ε α) (p : Progress) : Prop :=
  ∀ y q, Reaches x p y q → Orderly n y q

section
variable {n m : Nat} {x : Script ε α} {p : Progress}

/-- A script that never goes below some size never goes below a smaller one. -/
theorem Safe.mono (h : Safe m x p) (hn : n ≤ m) : Safe n x p := by
  intro y q hq
  have := h y q hq
  exact ⟨Nat.le_trans hn this.floor, this.closed, this.held, this.legal⟩

/-- A safe script leaves a closed arena. -/
theorem Safe.closed (h : Safe n x p) : (x.run p).2.arena.Closed :=
  (h _ _ (reaches_done x p)).closed

/-- A safe script leaves at least as many scopes as it never goes below. -/
theorem Safe.floor (h : Safe n x p) : n ≤ (x.run p).2.arena.size :=
  (h _ _ (reaches_done x p)).floor

/-- The scopes in the result of a safe script exist. -/
theorem Safe.result (h : Safe n x p) {t : ScopeId} (ht : t ∈ scopesIn (x.run p).1) :
    t < (x.run p).2.arena.size :=
  (h _ _ (reaches_done x p)).held t (.result ht)

/-- A script that has ended is safe if the arena is closed and its result in range. -/
theorem Safe.done {r : Except ε α} (hp : p.arena.Closed) (hn : n ≤ p.arena.size)
    (hr : ∀ t ∈ scopesIn r, t < p.arena.size) : Safe n (done r) p := by
  intro y q h
  obtain ⟨rfl, rfl⟩ := h.of_done
  exact ⟨hn, hp, fun t ht => hr t (holds_done.1 ht), trivial⟩

/-- A script is safe if it is orderly where it starts and safe from its first step on. -/
theorem Safe.step (hx : Orderly n x p) {y : Script ε α} {q : Progress}
    (hs : x.step p = some (y, q)) (hy : Safe n y q) : Safe n x p := by
  intro z r h
  rcases h.cases_head with ⟨rfl, rfl⟩ | ⟨_, _, hs', h⟩
  · exact hx
  · rw [hs] at hs'
    cases hs'
    exact hy z r h

/-- One safe script after another is safe if what the second keeps, beside the result of the first,
was there from the start. -/
theorem Safe.andThen {k : Except ε α → Script ε' β} (hx : Safe n x p)
    (hk : ∀ r t, Holds t (k r) → t < n ∨ t ∈ scopesIn r)
    (hr : Safe n (k (x.run p).1) (x.run p).2) : Safe n (x.andThen k) p := by
  intro y q h
  obtain h | ⟨z, hz, rfl⟩ := h.andThen_cases.symm
  · exact hr y q h
  have ho := hx z q hz
  have held : ∀ t, Holds t (z.andThen k) → t < q.arena.size := by
    intro t ht
    rcases ht.andThen_cases with ht | ⟨r, hnr, ht⟩
    · exact ho.held t ht
    · rcases hk r t ht with ht | ht
      · exact Nat.lt_of_lt_of_le ht ho.floor
      · exact absurd ht hnr
  refine ⟨ho.floor, ho.closed, held, ho.legal.andThen fun r hzr => ?_⟩
  -- the first script has ended here, so this is where the second starts
  have hrun := hz.run_eq
  rw [hzr, run_done] at hrun
  refine (hr (k r) q ?_).legal
  rw [← hrun]
  exact .start

end

/-! ## Good scripts -/

/-- A script that is safe, does its work in scope `s`, and leaves the depth as it was. -/
structure Good (s : ScopeId) (x : Script ε α) (p : Progress) : Prop where
  safe : Safe p.arena.size x p
  steady : Steady s p.arena x p
  grows : Arena.Grows s p.arena (x.run p).2.arena
  depth : (x.run p).2.depth = p.depth

section
variable {s : ScopeId} {x : Script ε α} {p : Progress}

/-- A script that works in a scope it adds may be taken to work in any scope. -/
theorem Good.of_fresh {t : ScopeId} (h : Good t x p) (ht : p.arena.size ≤ t) : Good s x p :=
  ⟨h.safe, fun y q hq u hu _ => h.steady y q hq u hu (Nat.ne_of_lt (Nat.lt_of_lt_of_le hu ht)),
    h.grows.of_fresh ht, h.depth⟩

/-- A good script leaves the arena ready for further work. -/
theorem Good.ready (h : Good s x p) (hp : p.arena.Ready s) : (x.run p).2.arena.Ready s :=
  ⟨h.safe.closed, hp.settled_of_grows h.grows⟩

/-- A script that is over is good if its result mentions only scopes that exist. -/
theorem Good.done {r : Except ε α} (hp : p.arena.Closed)
    (hr : ∀ t ∈ scopesIn r, t < p.arena.size) : Good s (done r) p :=
  ⟨.done hp (Nat.le_refl _) hr, .done (.refl s _), .refl s _, rfl⟩

/-- Two good scripts, one after the other, where the second holds only scopes that exist or come out
of the first. -/
theorem Good.andThen {k : Except ε α → Script ε' β} (hx : Good s x p)
    (hk : ∀ r t, Holds t (k r) → t < p.arena.size ∨ t ∈ scopesIn r)
    (hr : Good s (k (x.run p).1) (x.run p).2) : Good s (x.andThen k) p := by
  refine ⟨hx.safe.andThen hk (hr.safe.mono hx.grows.size),
    hx.steady.andThen (hr.steady.of_grows hx.grows), ?_, ?_⟩
  · rw [run_andThen]
    exact hx.grows.trans hr.grows
  · rw [run_andThen, hr.depth, hx.depth]

/-- A good step before a continuation that is good for whatever the step leaves. -/
theorem Good.bind {f : α → Script ε β} (hx : Good s x p)
    (hk : ∀ a t, Holds t (f a) → t < p.arena.size ∨ t ∈ scopesIn a)
    (hf : ∀ a q, x.run p = (.ok a, q) → q.arena.Closed → Arena.Grows s p.arena q.arena →
      (∀ t ∈ scopesIn a, t < q.arena.size) → Good s (f a) q) : Good s (x >>= f) p := by
  refine Good.andThen hx (fun r t ht => ?_) ?_
  · cases r with
    | ok a => exact hk a t ht
    | error e => exact nomatch holds_done.1 ht
  · cases hr : (x.run p).1 with
    | ok a =>
      refine hf a _ (Prod.ext hr rfl) hx.safe.closed hx.grows fun t ht => hx.safe.result ?_
      rw [hr]
      exact ht
    | error e => exact .done hx.safe.closed fun _ h => nomatch h

/-- Reading the arena, from what follows. -/
theorem Good.look {scopes : List ScopeId} {f : Arena → Script ε α} (hp : p.arena.Closed)
    (hheld : ∀ t, Holds t (.look scopes f) → t < p.arena.size)
    (hlegal : ∀ b, p.arena.Extends b → f b = f p.arena) (hf : Good s (f p.arena) p) :
    Good s (.look scopes f) p :=
  ⟨.step ⟨Nat.le_refl _, hp, hheld, hlegal⟩ rfl hf.safe, .step (.refl s _) rfl hf.steady,
    hf.grows, hf.depth⟩

/-- Taking a snapshot, from what follows. -/
theorem Good.mark {u : ScopeId} {kind : Snapshot.Kind} {f : Snapshot → Script ε α}
    (hp : p.arena.Closed) (hheld : ∀ t, Holds t (.mark u kind f) → t < p.arena.size)
    (hf : Good s (f (p.arena.snapshot u kind)) p) : Good s (.mark u kind f) p :=
  ⟨.step ⟨Nat.le_refl _, hp, hheld, trivial⟩ rfl hf.safe, .step (.refl s _) rfl hf.steady,
    hf.grows, hf.depth⟩

/-- A creation, from what it answers and what follows. -/
theorem Good.create {c : Creation} {f : ScopeId → Script ε α} {u : ScopeId} {a : Arena}
    (happly : c.apply p.arena = (u, a)) (hp : p.arena.Closed)
    (hheld : ∀ t, Holds t (.create c f) → t < p.arena.size) (hlegal : c.Legal p.arena)
    (hgrows : Arena.Grows s p.arena a) (hf : Good s (f u) { p with arena := a }) :
    Good s (.create c f) p := by
  have hstep : (Script.create c f).step p = some (f u, { p with arena := a }) := by
    rw [step, happly]
  refine ⟨.step ⟨Nat.le_refl _, hp, hheld, hlegal⟩ hstep
    (hf.safe.mono hgrows.size), .step (.refl s _) hstep (hf.steady.of_grows hgrows), ?_, ?_⟩
  · rw [run_of_step hstep]
    exact hgrows.trans hf.grows
  · rw [run_of_step hstep]
    exact hf.depth

/-- A change, from what it leaves and what follows. -/
theorem Good.change {c : Change} {y : Script ε α} (hp : p.arena.Closed)
    (hheld : ∀ t, Holds t (.change c y) → t < p.arena.size) (hlegal : c.Legal p.arena)
    (hgrows : Arena.Grows s p.arena (c.apply p.arena))
    (hy : Good s y { p with arena := c.apply p.arena }) : Good s (.change c y) p :=
  ⟨.step ⟨Nat.le_refl _, hp, hheld, hlegal⟩ rfl (hy.safe.mono hgrows.size),
    .step (.refl s _) rfl (hy.steady.of_grows hgrows), hgrows.trans hy.grows, hy.depth⟩

/-- A good script with its errors put differently is good. -/
theorem Good.mapError {f : ε → ε'} (hx : Good s x p) : Good s (x.mapError f) p := by
  refine hx.andThen (fun r t ht => .inr ?_) (.done hx.safe.closed fun t ht => hx.safe.result ?_)
  · rw [holds_done, scopesIn_mapError] at ht
    exact ht
  · rw [scopesIn_mapError] at ht
    exact ht

end

end Script

end LessSheet
