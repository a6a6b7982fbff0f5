import LessSheet.Value

/-! # Scopes

All scopes of a compilation live in one `Arena` and are known by their number. A scope keeps a log
of what was defined in it, oldest first, and a link to where a name is looked up when the log does
not have it. A new scope may only link to scopes that exist, so links lead to smaller numbers.

A join is how a call sees names: first everything its definition sees, then everything its caller
sees. `join` creates one only if the caller is not in sight of the callee already.

Lookups walk the scopes in sight one after the other, each once. The walk is `visit`, a depth-first
search with a stack; it follows every link at most once, which bounds it by the size of the arena.
-/

namespace LessSheet

/-- What makes a callable definition the one it is. A definition written with parentheses is the
place it is written at. A rule called by its selector is a new definition in every scope it is
registered in: that scope and the position in its log. -/
inductive Origin where
  | written (site : Site)
  | hoisted (scope : ScopeId) (position : Nat)
deriving DecidableEq, Repr, Inhabited

/-- A mixin as it is known in a scope: what it is and where its free names are looked up. -/
structure Registration where
  origin : Origin
  mixin : Mixin
  closure : ScopeId

/-- A line of a scope's log. -/
inductive Entry where
  | binding (name : String) (value : Value)
  | mixin (registration : Registration)

/-- Where a scope looks for names it does not have. -/
inductive Link where
  | root
  | child (parent : ScopeId)
  | join (callee caller : ScopeId)
deriving DecidableEq, Repr, Inhabited

/-- The scopes a link leads to, in the order they are looked at. -/
def Link.targets : Link → List ScopeId
  | .root => []
  | .child parent => [parent]
  | .join callee caller => [callee, caller]

/-- A scope: its link, its log, and entries staged but not yet in force. -/
structure Scope where
  link : Link
  log : List Entry := []
  staged : Option (List Entry) := none

/-- The scopes of a compilation, by number. -/
structure Arena where
  scopes : Array Scope

namespace Arena

/-- An arena with the root scope alone. -/
def empty : Arena := ⟨#[⟨.root, [], none⟩]⟩

/-- The number of the root scope. -/
def root : ScopeId := 0

/-- The number of scopes, which is also the number of the next one. -/
def size (a : Arena) : Nat := a.scopes.size

/-- The scope of a number. A number without a scope has an empty one that leads nowhere. -/
def scope (a : Arena) (s : ScopeId) : Scope := a.scopes[s]?.getD ⟨.root, [], none⟩

/-- The log of a scope. -/
def log (a : Arena) (s : ScopeId) : List Entry := (a.scope s).log

/-- Changes one scope. -/
def update (a : Arena) (s : ScopeId) (f : Scope → Scope) : Arena := ⟨a.scopes.modify s f⟩

/-- Adds a scope: its number, and the arena with it. -/
def push (a : Arena) (link : Link) : ScopeId × Arena := (a.size, ⟨a.scopes.push ⟨link, [], none⟩⟩)

/-- Adds a scope inside another. -/
def child (a : Arena) (parent : ScopeId) : ScopeId × Arena := a.push (.child parent)

/-- Adds a scope that sees nothing but itself. -/
def detached (a : Arena) : ScopeId × Arena := a.push .root

/-- Adds an entry at the end of a scope's log. -/
def record (a : Arena) (s : ScopeId) (e : Entry) : Arena :=
  a.update s fun scope => { scope with log := scope.log ++ [e] }

/-- Gives a variable a value in a scope. -/
def define (a : Arena) (s : ScopeId) (name : String) (value : Value) : Arena :=
  a.record s (.binding name value)

/-- Makes a mixin callable in a scope. -/
def register (a : Arena) (s : ScopeId) (r : Registration) : Arena := a.record s (.mixin r)

/-! ## What the operations change -/

@[simp] theorem size_update (a : Arena) (s : ScopeId) (f : Scope → Scope) :
    (a.update s f).size = a.size := by
  simp [update, size]

/-- Changing a scope changes that scope alone. -/
theorem scope_update (a : Arena) (s t : ScopeId) (f : Scope → Scope) :
    (a.update s f).scope t = if s = t ∧ t < a.size then f (a.scope t) else a.scope t := by
  simp only [update, scope, size, Array.getElem?_modify]
  by_cases hst : s = t
  · subst hst
    by_cases hs : s < a.scopes.size <;> simp [hs]
  · simp [hst]

@[simp] theorem size_push (a : Arena) (link : Link) : (a.push link).2.size = a.size + 1 := by
  simp [push, size]

/-- A new scope is empty, and the others stay as they are. -/
theorem scope_push (a : Arena) (link : Link) (t : ScopeId) :
    (a.push link).2.scope t = if t = a.size then ⟨link, [], none⟩ else a.scope t := by
  by_cases h : t = a.size
  · simp [push, scope, size, h]
  · have h' : ¬ t = a.scopes.size := h
    simp [push, scope, Array.getElem?_push, h, h']

@[simp] theorem size_record (a : Arena) (s : ScopeId) (e : Entry) :
    (a.record s e).size = a.size := by
  simp [record]

/-- An entry comes at the end of its scope's log. -/
theorem log_record (a : Arena) (s t : ScopeId) (e : Entry) :
    (a.record s e).log t = if s = t ∧ t < a.size then a.log t ++ [e] else a.log t := by
  simp only [record, log, scope_update]
  split <;> rfl

/-- Recording leaves every link as it is. -/
@[simp] theorem link_record (a : Arena) (s t : ScopeId) (e : Entry) :
    ((a.record s e).scope t).link = (a.scope t).link := by
  simp only [record, scope_update]
  split <;> rfl

/-! ## The scopes in sight -/

/-- Walks from the scopes on `stack`, skipping those in `seen`, until `f` answers. -/
def visit {α : Type} (a : Arena) (f : ScopeId → Option α) :
    (fuel : Nat) → (stack seen : List ScopeId) → Option α
  | 0, _, _ => none
  | _ + 1, [], _ => none
  | fuel + 1, s :: stack, seen =>
    if seen.contains s then a.visit f fuel stack seen
    else match f s with
      | some x => some x
      | none => a.visit f fuel ((a.scope s).link.targets ++ stack) (s :: seen)

/-- The first answer of `f` among the scopes in sight of `s`, in lookup order. A scope has at most
two links, so the walk takes at most two steps for each scope and one for the first. -/
def search {α : Type} (a : Arena) (s : ScopeId) (f : ScopeId → Option α) : Option α :=
  a.visit f (2 * a.size + 1) [s] []

/-- Whether `target` is in sight of `s`. -/
def reaches (a : Arena) (s target : ScopeId) : Bool :=
  (a.search s fun t => if t = target then some () else none).isSome

/-- A scope that sees what the callee sees, and then what the caller sees: the callee itself if
the caller is in its sight. -/
def join (a : Arena) (caller callee : ScopeId) : ScopeId × Arena :=
  if a.reaches callee caller then (callee, a) else a.push (.join callee caller)

/-! ## Variables -/

/-- The value of an entry, if it binds `name`. -/
def bound? (name : String) : Entry → Option Value
  | .binding n value => if n = name then some value else none
  | .mixin _ => none

/-- The latest value of a variable in the scope's own log. -/
def ownValue? (a : Arena) (s : ScopeId) (name : String) : Option Value :=
  (a.log s).reverse.findSome? (bound? name)

/-- The value of a variable: the latest in the nearest scope that has one. -/
def lookup (a : Arena) (s : ScopeId) (name : String) : Option Value :=
  a.search s fun t => a.ownValue? t name

/-- Sets a variable in a list of variables; one of that name keeps its place. -/
def put (name : String) (value : Value) : List (String × Value) → List (String × Value)
  | [] => [(name, value)]
  | (n, v) :: rest => if n = name then (n, value) :: rest else (n, v) :: put name value rest

/-- The variables of a scope's own log with their latest values, in the order they were first
defined. -/
def ownVariables (a : Arena) (s : ScopeId) : List (String × Value) :=
  (a.log s).foldl (fun vars e =>
    match e with
    | .binding name value => put name value vars
    | .mixin _ => vars) []

/-! ## Mixins -/

/-- The registration of an entry, if it has one. -/
def registration? : Entry → Option Registration
  | .binding _ _ => none
  | .mixin r => some r

/-- The mixins of a scope's own log, in order. -/
def mixins (a : Arena) (s : ScopeId) : List Registration := (a.log s).filterMap registration?

/-- Whether a registration has this name and, if an arity is asked for, accepts it. -/
def answers (name : String) (arity : Option Nat) (r : Registration) : Bool :=
  r.mixin.name == name && arity.all r.mixin.acceptsArity

/-- Adds a registration to those found. A definition found before keeps its place and takes the
new closure. -/
def keepLatest (r : Registration) : List Registration → List Registration
  | [] => [r]
  | q :: rest => if q.origin = r.origin then r :: rest else q :: keepLatest r rest

/-- The definitions of a scope's own log that a call may be meant for: each once, in the order of
its first registration, with the closure of its latest. -/
def ownMixins (a : Arena) (s : ScopeId) (name : String) (arity : Option Nat) : List Registration :=
  ((a.mixins s).filter (answers name arity)).foldl (fun found r => keepLatest r found) []

/-- The definitions of a scope's own log that a call may be meant for, if there are any. -/
def ownMixins? (a : Arena) (s : ScopeId) (name : String) (arity : Option Nat) :
    Option (List Registration) :=
  match a.ownMixins s name arity with
  | [] => none
  | found => some found

/-- The definitions that a call may be meant for: those of the nearest scope that has any. -/
def lookupMixins (a : Arena) (s : ScopeId) (name : String) (arity : Option Nat) :
    List Registration :=
  (a.search s fun t => a.ownMixins? t name arity).getD []

end Arena

end LessSheet
