import LessSheet.Error
import LessSheet.Scope.Operation

/-! # Scripts

What a compilation does with its scopes is written down as a `Script`: an operation, and what is
done with its answer. Between two operations there is only the state, which is a `Progress`, and the
rest of the script. So the states that a run passes through can be spoken of, and also what the rest
of the run is going to use.

`run` carries a script out from a state. A script ends with a result or with an error, and what was
done before an error stays done.
-/

namespace LessSheet

/-- The scopes of a compilation, the problems found so far, and how many calls are being expanded
inside each other. -/
structure Progress where
  arena : Arena
  problems : List Problem
  depth : Nat

/-- Before anything is done, there is the root scope alone. -/
def Progress.start : Progress := ⟨Arena.empty, [], 0⟩

/-- Operations one after the other. `look` reads the arena at some scopes, `mark` takes a snapshot
of a scope, `level` reads the depth and sets it to `f` of what it was. -/
inductive Script (ε α : Type) where
  | done (result : Except ε α)
  | look (scopes : List ScopeId) (next : Arena → Script ε α)
  | mark (scope : ScopeId) (kind : Snapshot.Kind) (next : Snapshot → Script ε α)
  | create (creation : Creation) (next : ScopeId → Script ε α)
  | change (change : Change) (next : Script ε α)
  | report (problems : List Problem) (next : Script ε α)
  | level (f : Nat → Nat) (next : Nat → Script ε α)

namespace Script

variable {ε ε' α β : Type}

/-- Carries out a script: its result, and the state it leaves. -/
def run : Script ε α → Progress → Except ε α × Progress
  | .done result, p => (result, p)
  | .look _ next, p => (next p.arena).run p
  | .mark s kind next, p => (next (p.arena.snapshot s kind)).run p
  | .create c next, ⟨arena, problems, depth⟩ =>
    let (s, arena) := c.apply arena
    (next s).run ⟨arena, problems, depth⟩
  | .change c next, ⟨arena, problems, depth⟩ => next.run ⟨c.apply arena, problems, depth⟩
  | .report more next, ⟨arena, problems, depth⟩ => next.run ⟨arena, problems ++ more, depth⟩
  | .level f next, ⟨arena, problems, depth⟩ => (next depth).run ⟨arena, problems, f depth⟩

/-- Goes on with the result of a script, be it an error or not. -/
def andThen : Script ε α → (Except ε α → Script ε' β) → Script ε' β
  | .done result, k => k result
  | .look scopes next, k => .look scopes fun a => (next a).andThen k
  | .mark s kind next, k => .mark s kind fun snapshot => (next snapshot).andThen k
  | .create c next, k => .create c fun s => (next s).andThen k
  | .change c next, k => .change c (next.andThen k)
  | .report problems next, k => .report problems (next.andThen k)
  | .level f next, k => .level f fun n => (next n).andThen k

/-- Goes on with `f` unless there is an error. -/
def orFail (f : α → Script ε β) : Except ε α → Script ε β
  | .ok x => f x
  | .error e => .done (.error e)

instance : Monad (Script ε) where
  pure x := .done (.ok x)
  bind x f := x.andThen (orFail f)

instance : MonadExceptOf ε (Script ε) where
  throw e := .done (.error e)
  tryCatch x handle := x.andThen fun
    | .ok a => .done (.ok a)
    | .error e => handle e

/-- The same script with other errors. -/
def mapError (f : ε → ε') (x : Script ε α) : Script ε' α := x.andThen fun r => .done (r.mapError f)

end Script

/-- Operations on the scopes alone, which fail where an expression has no value. -/
abbrev Scoped (α : Type) := Script EvalError α

namespace Scoped

variable {α : Type}

/-- Answers a scope, adding it if needed. -/
def create (c : Creation) : Scoped ScopeId := Script.create c fun s => .done (.ok s)

/-- Changes the arena. -/
def change (c : Change) : Scoped Unit := Script.change c (.done (.ok ()))

/-- Gives a variable a value in a scope. -/
def define (scope : ScopeId) (name : String) (value : Value) : Scoped Unit :=
  change (.record scope (.binding name value))

/-- Makes a mixin callable in a scope. -/
def register (scope : ScopeId) (r : Registration) : Scoped Unit :=
  change (.record scope (.mixin r))

/-- Reads the arena at some scopes. -/
def observe (scopes : List ScopeId) (f : Arena → Except EvalError α) : Scoped α :=
  Script.look scopes fun a => .done (f a)

/-- Takes a snapshot of a scope. -/
def mark (scope : ScopeId) (kind : Snapshot.Kind) : Scoped Snapshot :=
  Script.mark scope kind fun snapshot => .done (.ok snapshot)

/-- A script on the scopes alone, as a function of the arena. -/
instance : CoeFun (Scoped α) fun _ => Arena → Except EvalError α × Arena :=
  ⟨fun x a => match x.run ⟨a, [], 0⟩ with | (result, p) => (result, p.arena)⟩

end Scoped

/-- A step of the expansion. -/
abbrev Expand (α : Type) := Script Error α

namespace Expand

variable {α : Type}

/-- Carries out operations on the scopes. -/
def onScopes (x : Scoped α) : Expand α := x.mapError Error.eval

/-- Notes problems, in order. -/
def report (problems : List Problem) : Expand Unit := Script.report problems (.done (.ok ()))

/-- Goes back to a snapshot after a step, whether the step failed or not. -/
def restoring (snapshot : Snapshot) (x : Expand α) : Expand α :=
  x.andThen fun r => .change (.restore snapshot) (.done r)

/-- Carries out a step one level deeper, and comes back whether it failed or not. -/
def nested (x : Expand α) : Expand α :=
  .level (· + 1) fun _ => x.andThen fun r => .level (· - 1) fun _ => .done r

/-- Carries out a step one level deeper. Where the limit is reached, the error comes in its
place. -/
def deeper (limit : Nat) (error : Error) (x : Expand α) : Expand α :=
  .level id fun depth => if limit ≤ depth then .done (.error error) else nested x

end Expand

end LessSheet
