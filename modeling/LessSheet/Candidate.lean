import LessSheet.Binding
import LessSheet.Scope.History

/-! # Candidates of a call

A call names a mixin, possibly through namespaces. `findMixins` answers the definitions it may be
meant for, each with the guards of the namespaces on its way. Looking into a namespace opens a scope
for it, in which its mixins are registered and its own variables evaluated; nothing is output.

Each candidate is then tried: its parameters are bound and its guards evaluated. A trial that comes
to nothing is undone as if it had not been made.
-/

namespace LessSheet

/-- The mixin that a statement defines when it is registered in `scope` at this position of its
log: a definition with parentheses, or a rule with one class or id selector. -/
def Item.registration? (scope : ScopeId) (position : Nat) : Item → Option Registration
  | .mixin site m => some ⟨.written site, m, scope⟩
  | .rule r => r.mixinName?.map fun name => ⟨.hoisted scope position, r.toMixin name, scope⟩
  | _ => none

/-- Registers the mixin that a statement defines, if any. -/
def hoistItem (scope : ScopeId) (item : Item) : Scoped Unit := do
  match ← Scoped.observe [scope] fun a => .ok (item.registration? scope (a.log scope).length) with
  | some r => Scoped.register scope r
  | none => pure ()

/-- Registers the mixins of a block in a scope, before anything else in the block happens. -/
def hoist (scope : ScopeId) : List Item → Scoped Unit
  | [] => pure ()
  | item :: rest => do
    hoistItem scope item
    hoist scope rest

/-- A definition that a call may be meant for, and the guards on the way to it. -/
structure Candidate where
  registration : Registration
  pathGuards : List ScopedGuard := []

/-- Evaluates the variables of a block's own level in a scope. -/
def defineVariables (scope : ScopeId) : List Item → Scoped Unit
  | [] => pure ()
  | .assign name value :: rest => do
    let v ← Scoped.eval scope value
    Scoped.define scope name v
    defineVariables scope rest
  | _ :: rest => defineVariables scope rest

/-- A scope with what a namespace defines. -/
def openNamespace (r : Registration) : Scoped ScopeId := do
  let scope ← Scoped.create (.child r.closure)
  hoist scope r.mixin.body
  defineVariables scope r.mixin.body
  return scope

/-- The members called `name` of one namespace, with the namespace's guard added to those on the
way. The guard sees the namespace first and the caller after it. -/
def namespaceMembers (caller : ScopeId) (name : String) (arity : Option Nat) (c : Candidate) :
    Scoped (List Candidate) := do
  let scope ← openNamespace c.registration
  let guardScope ← Scoped.create (.join caller scope)
  let guards := c.pathGuards ++ (c.registration.mixin.guard.map fun g => (g, guardScope)).toList
  let members ← Scoped.observe [scope] fun a => .ok (a.ownMixins scope name arity)
  return members.map fun r => ⟨r, guards⟩

/-- The candidates that `f` finds for each of several, in order. -/
def gather (f : Candidate → Scoped (List Candidate)) : List Candidate → Scoped (List Candidate)
  | [] => return []
  | c :: rest => do
    let found ← f c
    return found ++ (← gather f rest)

/-- Follows a path from namespaces already found, one namespace after the other. -/
def descend (caller : ScopeId) (arity : Option Nat) :
    (path : List String) → List Candidate → Scoped (List Candidate)
  | [], found => return found
  | name :: rest, found =>
    gather (fun c => do
      let memberArity := if rest.isEmpty then arity else some 0
      descend caller arity rest (← namespaceMembers caller name memberArity c)) found

/-- The definitions in sight of a scope, as candidates without guards on the way. -/
def visibleMixins (scope : ScopeId) (name : String) (arity : Option Nat) :
    Scoped (List Candidate) := do
  let found ← Scoped.observe [scope] fun a => .ok (a.lookupMixins scope name arity)
  return found.map fun r => ⟨r, []⟩

/-- The definitions that a call by this path may be meant for. Namespaces are taken without
arguments. -/
def findMixins (caller : ScopeId) (arity : Option Nat) : List String → Scoped (List Candidate)
  | [] => return []
  | [name] => visibleMixins caller name arity
  | name :: rest => do descend caller arity rest (← visibleMixins caller name (some 0))

/-- The result of a trial: the verdict and the scope to work in, if the candidate is still in the
running, and the problem that spoke against it, if any. -/
structure Trial where
  accepted : Option (Verdict × ScopeId)
  problem : Option Problem := none

/-- What a candidate bound in a scope comes to, by the verdict of its guards. -/
def Candidate.judge (c : Candidate) (working : ScopeId) : Except EvalError Verdict → Trial
  | .error e => ⟨none, some (.guardFailed c.registration.mixin.name (Error.eval e).message)⟩
  | .ok .doNotUse => ⟨none, none⟩
  | .ok verdict => ⟨some (verdict, working), none⟩

/-- The guards of a candidate that works in a scope: those on the way to it, and its own. -/
def Candidate.guards (c : Candidate) (working : ScopeId) : List ScopedGuard :=
  c.pathGuards ++ (c.registration.mixin.guard.map fun g => (g, working)).toList

/-- Binds a candidate's parameters and evaluates its guards. -/
def Candidate.attempt (c : Candidate) (call : String) (args : List Actual) (caller : ScopeId) :
    Scoped Trial := do
  match ← c.registration.mixin.bind c.registration.closure call args with
  | .patternMismatch => return ⟨none, none⟩
  | .rejected problem => return ⟨none, some problem⟩
  | .bound scope =>
    let working ← Scoped.create (.join caller scope)
    let verdict ← Scoped.observe ((c.guards working).map Prod.snd) fun a =>
      .ok (verdictOf a (c.guards working))
    return c.judge working verdict

/-- Goes back to where a trial started if the candidate is out. -/
def Trial.settle (snapshot : Snapshot) (t : Trial) : Scoped Trial :=
  match t.accepted with
  | some _ => return t
  | none => do
    Scoped.change (.restore snapshot)
    return t

/-- A trial that leaves no trace if the candidate is out. -/
def Candidate.trial (c : Candidate) (call : String) (args : List Actual) (caller : ScopeId) :
    Scoped Trial := do
  let snapshot ← Scoped.mark caller .attempt
  let t ← c.attempt call args caller
  t.settle snapshot

/-- A candidate that a call settled on, and the scope its body works in. -/
structure Selected where
  candidate : Candidate
  working : ScopeId

/-- What the trials of all candidates give. -/
structure Trials where
  accepted : List (Verdict × Selected)
  problems : List Problem

/-- Tries the candidates in order. -/
def tryAll (call : String) (args : List Actual) (caller : ScopeId) :
    List Candidate → Scoped Trials
  | [] => return ⟨[], []⟩
  | c :: rest => do
    let t ← c.trial call args caller
    let ts ← tryAll call args caller rest
    let accepted := t.accepted.map fun (verdict, working) => (verdict, Selected.mk c working)
    return ⟨accepted.toList ++ ts.accepted, t.problem.toList ++ ts.problems⟩

end LessSheet
