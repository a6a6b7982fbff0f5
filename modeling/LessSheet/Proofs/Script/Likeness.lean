import LessSheet.Binding
import LessSheet.Proofs.Scope.Evaluation
import LessSheet.Proofs.Script.Steps

/-! # Scripts that are alike

`Script.Alike D R x y` says that from states that are alike the scripts `x` and `y` come to results
that `R` relates, or to the same error, and leave states that are alike: the same problems and
depth, and arenas that differ in the bodies they hold.

The relation is about runs, so scripts with the same runs stand for each other (`Alike.of_run`). It
goes through `andThen` and `bind`.
-/

namespace LessSheet

/-- States with the same problems and depth, and arenas that are alike. -/
structure Progress.Alike (D : Diction) (p q : Progress) : Prop where
  arena : Arena.Alike D p.arena q.arena
  problems : q.problems = p.problems
  depth : q.depth = p.depth

/-- The state before a compilation is alike to itself. -/
theorem Progress.alike_start (D : Diction) : Progress.Alike D .start .start :=
  ⟨Arena.alike_empty, rfl, rfl⟩

namespace Script

variable {ε ε' α β γ δ : Type} {D : Diction} {R : α → β → Prop} {S : γ → δ → Prop}

/-- Two scripts that come to the same from states that are alike. -/
def Alike (D : Diction) (R : α → β → Prop) (x : Script ε α) (y : Script ε β) : Prop :=
  ∀ p q, Progress.Alike D p q →
    Outcome.Alike R (x.run p).1 (y.run q).1 ∧ Progress.Alike D (x.run p).2 (y.run q).2

/-- Scripts that are at their end come to results that are related. -/
theorem Alike.done {r : Except ε α} {s : Except ε β} (h : Outcome.Alike R r s) :
    Alike D R (.done r) (.done s) := fun _ _ hpq => ⟨h, hpq⟩

/-- Two results that are related, with nothing done for them. -/
theorem Alike.pure {a : α} {b : β} (h : R a b) :
    Alike D R (pure a : Script ε α) (pure b) := .done (.ok h)

/-- An error on both sides, with nothing done before it. -/
theorem Alike.throw (e : ε) : Alike D R (throw e : Script ε α) (throw e) := .done (.error e)

section
variable {x : Script ε α} {y : Script ε β}

/-- Alike scripts go on alike if they do so with any two outcomes that are related. -/
theorem Alike.andThen {j : Except ε α → Script ε' γ} {k : Except ε β → Script ε' δ}
    (h : Alike D R x y) (hjk : ∀ r s, Outcome.Alike R r s → Alike D S (j r) (k s)) :
    Alike D S (x.andThen j) (y.andThen k) := by
  intro p q hpq
  obtain ⟨hresult, hstate⟩ := h p q hpq
  rw [run_andThen, run_andThen]
  exact hjk _ _ hresult _ _ hstate

/-- After alike scripts only results are left to go on with: an error is the same for both. -/
theorem Alike.bind {f : α → Script ε γ} {g : β → Script ε δ} (h : Alike D R x y)
    (hfg : ∀ a b, R a b → Alike D S (f a) (g b)) : Alike D S (x >>= f) (y >>= g) := by
  refine h.andThen fun r s hrs => ?_
  cases hrs with
  | ok hab => exact hfg _ _ hab
  | error e => exact .done (.error e)

/-- Errors may be put in other terms. -/
theorem Alike.mapError (h : Alike D R x y) (f : ε → ε') :
    Alike D R (x.mapError f) (y.mapError f) :=
  h.andThen fun _ _ hrs => .done (hrs.mapError f)

/-- Only what scripts come to matters. -/
theorem Alike.of_run {x' : Script ε α} (h : Alike D R x y) (hrun : ∀ p, x'.run p = x.run p) :
    Alike D R x' y := by
  intro p q hpq
  rw [hrun]
  exact h p q hpq

end

end Script

open Script

section
variable {α β : Type} {D : Diction} {R : α → β → Prop}

/-! ## Operations on the scopes -/

/-- A new scope has the same number in arenas that are alike. -/
theorem Scoped.alike_create (c : Creation) :
    Script.Alike D Eq (Scoped.create c) (Scoped.create c) := by
  intro p q hpq
  obtain ⟨hscope, harena⟩ := c.apply_alike hpq.arena
  exact ⟨.ok hscope.symm, harena, hpq.problems, hpq.depth⟩

/-- Changes that are alike, made to arenas that are. -/
theorem Scoped.alike_change {c d : Change} (h : Change.Alike D c d) :
    Script.Alike D Eq (Scoped.change c) (Scoped.change d) :=
  fun _ _ hpq => ⟨.ok rfl, Change.apply_alike h hpq.arena, hpq.problems, hpq.depth⟩

/-- Giving a variable values that are alike. -/
theorem Scoped.alike_define (s : ScopeId) (name : String) {v w : Value} (h : Value.Alike D v w) :
    Script.Alike D Eq (Scoped.define s name v) (Scoped.define s name w) :=
  Scoped.alike_change (.record s (.binding name h))

/-- Registering mixins that are alike. -/
theorem Scoped.alike_register (s : ScopeId) {r q : Registration} (h : Registration.Alike D r q) :
    Script.Alike D Eq (Scoped.register s r) (Scoped.register s q) :=
  Scoped.alike_change (.record s (.mixin h))

/-- Looking at arenas that are alike, with functions that answer alike there. -/
theorem Scoped.alike_observe {scopes scopes' : List ScopeId} {f : Arena → Except EvalError α}
    {g : Arena → Except EvalError β}
    (h : ∀ a b, Arena.Alike D a b → Outcome.Alike R (f a) (g b)) :
    Script.Alike D R (Scoped.observe scopes f) (Scoped.observe scopes' g) :=
  fun _ _ hpq => ⟨h _ _ hpq.arena, hpq⟩

/-- A snapshot has the sizes of logs and arena in it, and these are the same in both. -/
theorem Scoped.alike_mark (s : ScopeId) (kind : Snapshot.Kind) :
    Script.Alike D Eq (Scoped.mark s kind) (Scoped.mark s kind) :=
  fun _ _ hpq => ⟨.ok (hpq.arena.snapshot s kind).symm, hpq⟩

/-- Expressions that are alike have values that are, in arenas that are. -/
theorem Scoped.alike_eval (hD : D.Lawful) (s : ScopeId) {e f : Expr} (h : Expr.Alike D.leaf e f) :
    Script.Alike D (Value.Alike D) (Scoped.eval s e) (Scoped.eval s f) :=
  Scoped.alike_observe fun _ _ hab => h.eval hD (hab.view s none)

/-- Work on the scopes is alike as a part of the expansion if it is by itself. -/
theorem Expand.alike_onScopes {x : Scoped α} {y : Scoped β} (h : Script.Alike D R x y) :
    Script.Alike D R (Expand.onScopes x) (Expand.onScopes y) := h.mapError _

/-- Noting the same problems is alike. -/
theorem Expand.alike_report (problems : List Problem) :
    Script.Alike D Eq (Expand.report problems) (Expand.report problems) :=
  fun _ _ hpq => ⟨.ok rfl, hpq.arena, congrArg (· ++ problems) hpq.problems, hpq.depth⟩

/-- Work that is given up with its scopes is alike if it is while it is done. -/
theorem Expand.alike_restoring (x : Snapshot) {y : Expand α} {z : Expand β}
    (h : Script.Alike D R y z) :
    Script.Alike D R (Expand.restoring x y) (Expand.restoring x z) :=
  h.andThen fun _ _ hrs _ _ hpq =>
    ⟨hrs, hpq.arena.restore x, hpq.problems, hpq.depth⟩

/-- Work at another depth, which both know, is alike if it is at every depth. -/
theorem Script.Alike.level (f : Nat → Nat) {x : Nat → Expand α} {y : Nat → Expand β}
    (h : ∀ depth, Script.Alike D R (x depth) (y depth)) :
    Script.Alike D R (.level f x) (.level f y) := by
  intro p q hpq
  rw [run_level, run_level, hpq.depth]
  exact h p.depth _ _ ⟨hpq.arena, hpq.problems, rfl⟩

/-- Work one level further down, where the limit is reached in both or in neither. -/
theorem Expand.alike_deeper {x : Expand α} {y : Expand β} (h : Script.Alike D R x y) (limit : Nat)
    (error : Error) :
    Script.Alike D R (Expand.deeper limit error x) (Expand.deeper limit error y) := by
  refine .level id fun depth => ?_
  split
  · exact .throw error
  · exact .level _ fun _ => h.andThen fun _ _ hrs => .level _ fun _ => .done hrs

end

end LessSheet
