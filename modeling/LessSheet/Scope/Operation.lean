import LessSheet.Scope.History

/-! # The operations on an arena

Everything that is done to an arena is one of the operations below: those that add a scope and
answer its number, and those that change scopes that are there. As data, they can be listed,
carried out one after the other and asked which scopes they are applied to.
-/

namespace LessSheet

/-- An operation that answers a scope, adding it if needed. -/
inductive Creation where
  | child (parent : ScopeId)
  | detached
  | join (caller callee : ScopeId)
deriving DecidableEq, Repr, Inhabited

/-- The scope of a creation, and the arena with it. -/
def Creation.apply : Creation → Arena → ScopeId × Arena
  | .child parent, a => a.child parent
  | .detached, a => a.detached
  | .join caller callee, a => a.join caller callee

/-- An operation that changes scopes. -/
inductive Change where
  | record (scope : ScopeId) (entry : Entry)
  | restore (snapshot : Snapshot)
  | openStaging (scope : ScopeId)
  | stage (scope exports : ScopeId)
  | commit (scope : ScopeId)

/-- The arena after a change. -/
def Change.apply : Change → Arena → Arena
  | .record s e, a => a.record s e
  | .restore snapshot, a => a.restore snapshot
  | .openStaging s, a => a.openStaging s
  | .stage s exports, a => a.stage s exports
  | .commit s, a => a.commit s

end LessSheet
