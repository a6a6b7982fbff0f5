import LessSheet.Scope.Arena

/-! # Undoing and staging

A `Snapshot` remembers how long one scope's log and the arena were. Restoring an attempt drops
everything that came after it, scopes included, and their numbers are given out again. Restoring a
log snapshot only cuts that scope's log: scopes created since stay, because what was expanded in
between refers to them.

Staged entries are invisible until they are committed, all at once. A committed variable does not
replace one that the scope has itself.
-/

namespace LessSheet

/-- What a snapshot is taken for: to undo an attempt, or to keep one scope's log as it is. -/
inductive Snapshot.Kind where
  | attempt
  | log
deriving DecidableEq, Repr, Inhabited

/-- The length of a scope's log and of the arena at some time. -/
structure Snapshot where
  kind : Snapshot.Kind
  scope : ScopeId
  entries : Nat
  scopes : Nat
deriving DecidableEq, Repr, Inhabited

namespace Arena

/-- Remembers the present state of a scope. -/
def snapshot (a : Arena) (s : ScopeId) (kind : Snapshot.Kind) : Snapshot :=
  ⟨kind, s, (a.log s).length, a.size⟩

/-- Drops the scopes from a number on. -/
def truncate (a : Arena) (size : Nat) : Arena := ⟨a.scopes.shrink size⟩

/-- Goes back to a snapshot. -/
def restore (a : Arena) (snapshot : Snapshot) : Arena :=
  let kept := match snapshot.kind with
    | .attempt => a.truncate snapshot.scopes
    | .log => a
  kept.update snapshot.scope fun scope => { scope with log := scope.log.take snapshot.entries }

/-- Starts staging entries for a scope. -/
def openStaging (a : Arena) (s : ScopeId) : Arena :=
  a.update s fun scope => { scope with staged := some [] }

/-- Stages the present entries of another scope. -/
def stage (a : Arena) (s exports : ScopeId) : Arena :=
  let entries := a.log exports
  a.update s fun scope => { scope with staged := some (scope.staged.getD [] ++ entries) }

/-- Whether a log binds the variable that an entry binds; a mixin is never in the way. -/
def shadows (log : List Entry) : Entry → Bool
  | .binding name _ => log.any fun e => (bound? name e).isSome
  | .mixin _ => false

/-- Commits what is staged: entries for variables the scope has itself are dropped, the others
follow its log. -/
def commit (a : Arena) (s : ScopeId) : Arena :=
  a.update s fun scope =>
    match scope.staged with
    | none => scope
    | some staged =>
      { scope with
        log := scope.log ++ staged.filter fun e => !shadows scope.log e
        staged := none }

end Arena

end LessSheet
