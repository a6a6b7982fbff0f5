import LessSheet.Candidate
import LessSheet.Css.Node
import LessSheet.Text.Trim

/-! # Expanding a stylesheet

The statements of a block are carried out in order, after all its mixins have been registered:
variables are defined, declarations evaluated, nested blocks expanded in scopes of their own, and
calls replaced by what their bodies expand to.

A body reached by a call is expanded one level deeper, and the number of levels is limited. That
limit is the only thing the recursion through calls depends on: `expandBody` recurses on the levels
that are left, and the statements of one body are followed by recursion on the statements. All of it
is a `Script` on the scopes.

What a body defines is exported to its caller when all bodies of the call have been expanded. A
mixin exports variables and mixins, a called ruleset mixins only.
-/

namespace LessSheet

/-- Evaluates something in a scope, outside guards. -/
def Expand.view {α : Type} (scope : ScopeId) (f : View → Except EvalError α) : Expand α :=
  onScopes (Scoped.observe [scope] fun a => f ⟨a, scope, none⟩)

/-- A body reached by a call: what it is called in messages, the scope it works in, and the scope
its definition belongs to. -/
structure Fetched where
  name : String
  body : List Item
  working : ScopeId
  closure : ScopeId

/-- What expanding a body gives: its nodes and the scope it defined its names in. -/
structure Expanded where
  nodes : List Css.Node
  scope : ScopeId

/-- How a body reached by a call is expanded. -/
abbrev Expander := Fetched → Expand Expanded

/-! ## Exports -/

/-- An exported value. A ruleset also sees the caller from now on. -/
def exportValue (caller : ScopeId) : Value → Scoped Value
  | .ruleset site body scope => do
    return .ruleset site body (← Scoped.create (.join caller scope))
  | v => return v

/-- Exports variables to a scope, in order. -/
def exportVariables (caller exports : ScopeId) : List (String × Value) → Scoped Unit
  | [] => pure ()
  | (name, value) :: rest => do
    let v ← exportValue caller value
    Scoped.define exports name v
    exportVariables caller exports rest

/-- Exports mixins to a scope, in order. -/
def exportMixins (exports : ScopeId) : List Registration → Scoped Unit
  | [] => pure ()
  | r :: rest => do
    Scoped.register exports r
    exportMixins exports rest

/-- The variables that a body exports, if it exports any. -/
def exportedVariables (withVariables : Bool) (body : ScopeId) (a : Arena) : List (String × Value) :=
  if withVariables then a.ownVariables body else []

/-- A scope with what a body exports. -/
def collectExports (withVariables : Bool) (caller body : ScopeId) : Scoped ScopeId := do
  let exports ← Scoped.create .detached
  let vars ← Scoped.observe [body] fun a => .ok (exportedVariables withVariables body a)
  exportVariables caller exports vars
  let mixins ← Scoped.observe [body] fun a => .ok (a.mixins body)
  exportMixins exports mixins
  return exports

/-- Stages exports for the caller's scope, in order. -/
def stageAll (caller : ScopeId) : List ScopeId → Scoped Unit
  | [] => pure ()
  | exports :: rest => do
    Scoped.change (.stage caller exports)
    stageAll caller rest

/-- Brings exports into force in the caller's scope, all at once. -/
def commitExports (caller : ScopeId) (exports : List ScopeId) : Scoped Unit := do
  Scoped.change (.openStaging caller)
  stageAll caller exports
  Scoped.change (.commit caller)

/-! ## Calls -/

/-- The arguments of a call, evaluated in its scope. -/
def evalArguments (caller : ScopeId) : List Argument → Expand (List Actual)
  | [] => return []
  | arg :: rest => do
    let value ← Expand.view caller arg.value.eval
    return ⟨arg.name, value⟩ :: (← evalArguments caller rest)

/-- Expands the bodies of the selected candidates, in order: the nodes of all and the exports of
each. -/
def expandSelected (expand : Expander) (caller : ScopeId) :
    List Selected → Expand (List Css.Node × List ScopeId)
  | [] => return ([], [])
  | s :: rest => do
    let r := s.candidate.registration
    let expanded ← expand ⟨r.mixin.name, r.mixin.body, s.working, r.closure⟩
    let exports ← Expand.onScopes (collectExports true caller expanded.scope)
    let (nodes, more) ← expandSelected expand caller rest
    return (expanded.nodes ++ nodes, exports :: more)

/-- Why a call found no candidate: a definition of that name with another arity, or none. -/
def unmatchedProblem (call : Call) (actual : Nat) : List Candidate → Problem
  | c :: _ => c.registration.mixin.arityMismatch call.displayName actual
  | [] => .noMatch call.displayName actual

/-- The nodes that replace a call: expansions in order, made important if the call is, with the
call's comments around them. -/
def Call.finish (call : Call) (nodes : List Css.Node) : List Css.Node :=
  Css.attachComments call.comments
    (if call.important then Css.Node.markAllImportant nodes else nodes)

/-- Carries out a call among its candidates. -/
def Call.expandAmong (call : Call) (expand : Expander) (caller : ScopeId) (args : List Actual)
    (candidates : List Candidate) : Expand (List Css.Node) := do
  let trials ← Expand.onScopes (tryAll call.displayName args caller candidates)
  Expand.report trials.problems.eraseDups
  let (nodes, exports) ← expandSelected expand caller (choose trials.accepted)
  Expand.onScopes (commitExports caller exports)
  return call.finish nodes

/-- Carries out a call of a mixin. -/
def Call.expand (call : Call) (expand : Expander) (caller : ScopeId) : Expand (List Css.Node) := do
  let args ← evalArguments caller call.args
  let candidates ← Expand.onScopes (findMixins caller (some args.length) call.path)
  if candidates.isEmpty then
    let others ← Expand.onScopes (findMixins caller none call.path)
    Expand.report [unmatchedProblem call args.length others]
    return []
  else call.expandAmong expand caller args candidates

/-- Carries out a call of a ruleset held by a variable. -/
def expandDetached (expand : Expander) (caller : ScopeId) (name : String) (comments : Comments) :
    Expand (List Css.Node) := do
  match ← Expand.view caller fun v => v.lookup name with
  | .ruleset _ body scope =>
    let working ← Expand.onScopes (Scoped.create (.join caller scope))
    let expanded ← expand ⟨"@" ++ name, body, working, scope⟩
    let exports ← Expand.onScopes (collectExports false caller expanded.scope)
    Expand.onScopes (commitExports caller [exports])
    return Css.attachComments comments expanded.nodes
  | _ => throw (.eval (.notCallable name))

/-! ## Statements -/

/-- The property that a declaration evaluates to. -/
def Declaration.eval (d : Declaration) (view : View) : Except EvalError Css.Property := do
  let name := Text.trimString (← view.interpolate d.name)
  match ← d.value.eval view with
  | .ruleset _ _ _ => throw (.rulesetAsValue name)
  | value => return ⟨name, value.text, d.important, d.comments⟩

/-- The selectors of a rule with their placeholders filled in. -/
def interpolateAll (view : View) : List String → Except EvalError (List String)
  | [] => .ok []
  | s :: rest => do
    let text ← view.interpolate s
    return text :: (← interpolateAll view rest)

/-- Whether a rule is output in a scope. -/
def ruleApplies (scope : ScopeId) : Option Condition → Expand Bool
  | none => return true
  | some guard => Expand.onScopes (Scoped.observe [scope] fun a => allowsRule a scope guard)

/-- Expands a rule. `inside` expands its block in a scope. -/
def expandRule (scope : ScopeId) (selectors : List String) (guard : Option Condition)
    (inside : ScopeId → Expand (List Css.Node)) : Expand (List Css.Node) := do
  if ← ruleApplies scope guard then
    let selectors ← Expand.view scope fun v => interpolateAll v selectors
    let child ← Expand.onScopes (Scoped.create (.child scope))
    return [.rule selectors (← inside child) {}]
  else return []

/-- Expands an at-rule. `inside` expands its block in a scope. -/
def expandAtRule (scope : ScopeId) (name params : String)
    (inside : ScopeId → Expand (List Css.Node)) : Expand (List Css.Node) := do
  let params ← Expand.view scope fun v => .ok (v.substitute params)
  let child ← Expand.onScopes (Scoped.create (.child scope))
  return [.atRule name params (← inside child) {}]

/-- Registers the mixins of a block in a scope, before `inside` carries out its statements there. -/
def enterBlock (body : List Item) (inside : ScopeId → Expand (List Css.Node)) (scope : ScopeId) :
    Expand (List Css.Node) := do
  Expand.onScopes (hoist scope body)
  inside scope

mutual

/-- Carries out a statement in a scope. -/
def Item.expand (expand : Expander) (scope : ScopeId) : Item → Expand (List Css.Node)
  | .assign name value => do
    let v ← Expand.view scope value.eval
    Expand.onScopes (Scoped.define scope name v)
    return []
  | .declaration d => do return [.property (← Expand.view scope d.eval)]
  | .rule ⟨selectors, guard, body⟩ =>
    expandRule scope selectors guard (enterBlock body fun child => expandItems expand child body)
  | .atRule name params body =>
    expandAtRule scope name params (enterBlock body fun child => expandItems expand child body)
  | .mixin _ _ => return []
  | .call call => call.expand expand scope
  | .detachedCall name comments => expandDetached expand scope name comments

/-- Carries out statements in order. -/
def expandItems (expand : Expander) (scope : ScopeId) : List Item → Expand (List Css.Node)
  | [] => return []
  | item :: rest => do
    let nodes ← item.expand expand scope
    return nodes ++ (← expandItems expand scope rest)

end

/-- Carries out a block in a scope. -/
def expandBlock (expand : Expander) (body : List Item) (scope : ScopeId) :
    Expand (List Css.Node) :=
  enterBlock body (fun s => expandItems expand s body) scope

/-- Expands a body in a new scope inside the one it works in, and takes back what that did to the
scope its definition belongs to. -/
def expandFetched (expand : Expander) (fetched : Fetched) : Expand Expanded := do
  let snapshot ← Expand.onScopes (Scoped.mark fetched.closure .log)
  let scope ← Expand.onScopes (Scoped.create (.child fetched.working))
  let nodes ← Expand.restoring snapshot (expandBlock expand fetched.body scope)
  return ⟨nodes, scope⟩

/-- Expands a body reached by a call, one level deeper, unless the limit is reached. The scope its
definition belongs to has the same log afterwards. The recursion is on a number of levels, `left`,
which is enough if it is not less than what the depth leaves of the limit. -/
def expandBody (limit : Nat) : (left : Nat) → Expander
  | 0, fetched => throw (.tooDeep fetched.name limit)
  | left + 1, fetched =>
    Expand.deeper limit (.tooDeep fetched.name limit)
      (expandFetched (expandBody limit left) fetched)

end LessSheet
