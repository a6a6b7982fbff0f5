import LessSheet.Proofs.Scope.Parallel
import LessSheet.Proofs.Scope.Reading

/-! # Scripts that do the same to corresponding scopes

`Mirrors n k x y` says that `y` does to an arena with room made in it what `x` does to the arena
without: operation by operation, applied to scopes that correspond, and going on alike with answers
that do. Runs of the two scripts from such arenas come to the same result, up to the numbers of the
scopes, and note the same problems (`Mirrors.run`).

The relation does not speak of a state, so it goes through `andThen` and `bind` without further
conditions.
-/

namespace LessSheet

namespace Script

variable {ε ε' α β : Type} [Carries α] [Carries β] [Renames α] [Renames β] {n k : Nat}

/-- Two scripts that do the same to corresponding scopes. -/
inductive Mirrors (n k : Nat) : Script ε α → Script ε α → Prop where
  | done (r : Except ε α) : Mirrors n k (.done r) (.done (rename (shift n k) r))
  | look {scopes scopes' : List ScopeId} {next next' : Arena → Script ε α} :
    (∀ a b, Shifted n k a b → Mirrors n k (next a) (next' b)) →
    Mirrors n k (.look scopes next) (.look scopes' next')
  | mark {s : ScopeId} {kind : Snapshot.Kind} {next next' : Snapshot → Script ε α} :
    (∀ x, n ≤ x.scopes → Mirrors n k (next x) (next' (x.renumber (shift n k)))) →
    Mirrors n k (.mark s kind next) (.mark (shift n k s) kind next')
  | create {c : Creation} {next next' : ScopeId → Script ε α} :
    (∀ s, Mirrors n k (next s) (next' (shift n k s))) →
    Mirrors n k (.create c next) (.create (c.renumber (shift n k)) next')
  | change {c : Change} {next next' : Script ε α} : c.Keeps n → Mirrors n k next next' →
    Mirrors n k (.change c next) (.change (c.renumber (shift n k)) next')
  | report {problems : List Problem} {next next' : Script ε α} : Mirrors n k next next' →
    Mirrors n k (.report problems next) (.report problems next')
  | level {f : Nat → Nat} {next next' : Nat → Script ε α} :
    (∀ d, Mirrors n k (next d) (next' d)) → Mirrors n k (.level f next) (.level f next')

/-- Corresponding arenas at the same depth. -/
structure Abreast (n k : Nat) (p q : Progress) : Prop where
  arena : Shifted n k p.arena q.arena
  depth : q.depth = p.depth

/-- Scripts that do the same come to the same and note the same problems. -/
theorem Mirrors.run {x y : Script ε α} (h : Mirrors n k x y) {p q : Progress}
    (hpq : Abreast n k p q) :
    (y.run q).1 = rename (shift n k) (x.run p).1 ∧
      ∃ problems, (x.run p).2.problems = p.problems ++ problems ∧
        (y.run q).2.problems = q.problems ++ problems := by
  induction h generalizing p q with
  | done r => exact ⟨rfl, [], (List.append_nil _).symm, (List.append_nil _).symm⟩
  | look _ ih => exact ih p.arena q.arena hpq.arena hpq
  | @mark s kind _ _ _ ih =>
    have := ih (p.arena.snapshot s kind) hpq.arena.floor hpq
    rwa [← hpq.arena.snapshot] at this
  | @create c next next' _ ih =>
    obtain ⟨hscope, harena⟩ := c.apply_shift hpq.arena
    have := ih (c.apply p.arena).1 (p := { p with arena := (c.apply p.arena).2 })
      (q := { q with arena := ((c.renumber (shift n k)).apply q.arena).2 }) ⟨harena, hpq.depth⟩
    rwa [← hscope] at this
  | change hc _ ih => exact ih ⟨Change.apply_shift hc hpq.arena, hpq.depth⟩
  | @report more next next' _ ih =>
    obtain ⟨hr, problems, hp, hq⟩ := ih (p := { p with problems := p.problems ++ more })
      (q := { q with problems := q.problems ++ more }) ⟨hpq.arena, hpq.depth⟩
    refine ⟨hr, more ++ problems, ?_, ?_⟩
    · rw [← List.append_assoc]
      exact hp
    · rw [← List.append_assoc]
      exact hq
  | @level f next next' _ ih =>
    have := ih p.depth (p := { p with depth := f p.depth }) (q := { q with depth := f q.depth })
      ⟨hpq.arena, congrArg f hpq.depth⟩
    rw [run_level, run_level, hpq.depth]
    rwa [hpq.depth] at this

section
variable {x y : Script ε α}

/-- Scripts go on doing the same if they do so with any outcome and the corresponding one. -/
theorem Mirrors.andThen {j l : Except ε α → Script ε' β} (h : Mirrors n k x y)
    (hjl : ∀ r, Mirrors n k (j r) (l (rename (shift n k) r))) :
    Mirrors n k (x.andThen j) (y.andThen l) := by
  induction h with
  | done r => exact hjl r
  | look _ ih => exact .look ih
  | mark _ ih => exact .mark ih
  | create _ ih => exact .create ih
  | change hc _ ih => exact .change hc ih
  | report _ ih => exact .report ih
  | level _ ih => exact .level ih

/-- Only a result is gone on with, and the other script has the corresponding one. -/
theorem Mirrors.bind {f g : α → Script ε β} (h : Mirrors n k x y)
    (hfg : ∀ a, Mirrors n k (f a) (g (rename (shift n k) a))) :
    Mirrors n k (x >>= f) (y >>= g) := by
  refine h.andThen fun r => ?_
  cases r with
  | ok a => exact hfg a
  | error e => exact .done (.error e)

/-- A result and the corresponding one, with nothing done for them. -/
theorem Mirrors.pure (a : α) :
    Mirrors n k (pure a : Script ε α) (pure (rename (shift n k) a)) := .done (.ok a)

/-- An error on both sides, which has no scopes in it. -/
theorem Mirrors.throw (e : ε) : Mirrors n k (throw e : Script ε α) (throw e) := .done (.error e)

/-- Errors may be put in other terms. -/
theorem Mirrors.mapError {f : ε → ε'} (h : Mirrors n k x y) :
    Mirrors n k (x.mapError f) (y.mapError f) := by
  refine h.andThen fun r => ?_
  rw [← rename_mapError]
  exact .done _

end

end Script

open Script

section
variable {α : Type} [Carries α] [Renames α] {n k : Nat}

/-! ## Operations on the scopes -/

/-- A new scope with links to scopes that correspond. -/
theorem Scoped.mirrors_create (c : Creation) :
    Mirrors n k (Scoped.create c) (Scoped.create (c.renumber (shift n k))) :=
  .create fun s => .done (.ok s)

/-- A change of scopes that correspond, unless it goes back to before the room was made. -/
theorem Scoped.mirrors_change {c : Change} (hc : c.Keeps n) :
    Mirrors n k (Scoped.change c) (Scoped.change (c.renumber (shift n k))) :=
  .change hc (.done (.ok ()))

/-- A variable is given the corresponding value in the corresponding scope. -/
theorem Scoped.mirrors_define (s : ScopeId) (name : String) (v : Value) :
    Mirrors n k (Scoped.define s name v)
      (Scoped.define (shift n k s) name (rename (shift n k) v)) :=
  Scoped.mirrors_change (c := .record s (.binding name v)) trivial

/-- A mixin is registered in the corresponding scope, with the corresponding closure. -/
theorem Scoped.mirrors_register (s : ScopeId) (r : Registration) :
    Mirrors n k (Scoped.register s r)
      (Scoped.register (shift n k s) (rename (shift n k) r)) :=
  Scoped.mirrors_change (c := .record s (.mixin r)) trivial

/-- Looking at corresponding arenas, with functions that answer correspondingly there. -/
theorem Scoped.mirrors_observe {scopes scopes' : List ScopeId}
    {f g : Arena → Except EvalError α}
    (h : ∀ a b, Shifted n k a b → g b = rename (shift n k) (f a)) :
    Mirrors n k (Scoped.observe scopes f) (Scoped.observe scopes' g) := by
  refine .look fun a b hab => ?_
  rw [h a b hab]
  exact .done _

/-- Work on the scopes does the same as a part of the expansion. -/
theorem Expand.mirrors_onScopes {x y : Scoped α} (h : Mirrors n k x y) :
    Mirrors n k (Expand.onScopes x) (Expand.onScopes y) := h.mapError

/-- Noting problems does the same, for they have no scopes in them. -/
theorem Expand.mirrors_report (problems : List Problem) :
    Mirrors n k (Expand.report problems) (Expand.report problems) := .report (.done (.ok ()))

end

end LessSheet
