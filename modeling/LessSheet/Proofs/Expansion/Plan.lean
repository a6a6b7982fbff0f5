import LessSheet.Compile
import LessSheet.Proofs.Expansion.Depth

/-! # The calls that an expansion makes

An expansion is seven functions that call each other: for a block, a rule, an at-rule, a call of a
mixin, a call of a ruleset, the body such a call reaches, and the descent along a path of
namespaces. A `Task` is one of them with its arguments. Its `plan` is what the function does when it
is called: steps of its own, which are scripts, and tasks that it asks for. A plan knows nothing of
how those are done, so no bound is in it but the limit on the depth.

With each task done by the function that it stands for, a plan is the function of its own task again
(`Task.via_plan`), and for the body of a call it is that function with one level more
(`Fetched.via_plan`).
-/

namespace LessSheet

open Script

/-- What an expansion can be asked to do, by what comes of it. -/
inductive Task : Type → Type where
  | block (scope : ScopeId) (body : List Item) : Task (List Css.Node)
  | rule (scope : ScopeId) (rule : Rule) : Task (List Css.Node)
  | atRule (scope : ScopeId) (name params : String) (body : List Item) : Task (List Css.Node)
  | call (caller : ScopeId) (call : Call) : Task (List Css.Node)
  | detached (caller : ScopeId) (name : String) (comments : Comments) : Task (List Css.Node)
  | body (fetched : Fetched) : Task Expanded
  | descent (caller : ScopeId) (arity : Option Nat) (path : List String)
    (found : List Candidate) : Task (List Candidate)

/-! ## Plans -/

/-- Steps and tasks, one after the other. What follows depends on what came of them, be it an error
or not. -/
inductive Plan (α : Type) : Type 1 where
  | done (result : Except Error α)
  | own {β : Type} (x : Expand β) (next : Except Error β → Plan α)
  | ask {β : Type} (t : Task β) (next : Except Error β → Plan α)

namespace Plan

variable {α β : Type}

/-- Goes on with the result of a plan, be it an error or not. -/
def andThen : Plan α → (Except Error α → Plan β) → Plan β
  | .done result, k => k result
  | .own x next, k => .own x fun r => (next r).andThen k
  | .ask t next, k => .ask t fun r => (next r).andThen k

/-- Goes on with `f` unless there is an error. -/
def orFail (f : α → Plan β) : Except Error α → Plan β
  | .ok x => f x
  | .error e => .done (.error e)

instance : Monad Plan where
  pure x := .done (.ok x)
  bind x f := x.andThen (orFail f)

/-- A step of one's own. -/
def carryOut (x : Expand α) : Plan α := .own x .done

/-- A step on the scopes. -/
def onScopes (x : Scoped α) : Plan α := carryOut (Expand.onScopes x)

/-- A task for another function. -/
def request (t : Task α) : Plan α := .ask t .done

/-- A plan as a script, with tasks done as `answer` says. -/
def via (answer : {β : Type} → Task β → Expand β) : Plan α → Expand α
  | .done result => .done result
  | .own x next => x.andThen fun r => (next r).via answer
  | .ask t next => (answer t).andThen fun r => (next r).via answer

end Plan

/-! ## The seven functions -/

/-- A statement of a block. -/
def Item.plan (scope : ScopeId) : Item → Plan (List Css.Node)
  | .assign name value => do
    let v ← Plan.carryOut (Expand.view scope value.eval)
    Plan.onScopes (Scoped.define scope name v)
    return []
  | .declaration d => do return [.property (← Plan.carryOut (Expand.view scope d.eval))]
  | .rule r => Plan.request (.rule scope r)
  | .atRule name params body => Plan.request (.atRule scope name params body)
  | .mixin _ _ => return []
  | .call c => Plan.request (.call scope c)
  | .detachedCall name comments => Plan.request (.detached scope name comments)

/-- The statements of a block, in order. -/
def planItems (scope : ScopeId) : List Item → Plan (List Css.Node)
  | [] => return []
  | item :: rest => do
    let nodes ← item.plan scope
    return nodes ++ (← planItems scope rest)

/-- A rule, unless its guard keeps it out. -/
def Rule.plan (scope : ScopeId) (r : Rule) : Plan (List Css.Node) := do
  if ← Plan.carryOut (ruleApplies scope r.guard) then
    let selectors ← Plan.carryOut (Expand.view scope fun v => interpolateAll v r.selectors)
    let child ← Plan.onScopes (Scoped.create (.child scope))
    return [.rule selectors (← Plan.request (.block child r.body)) {}]
  else return []

/-- An at-rule. -/
def planAtRule (scope : ScopeId) (name params : String) (body : List Item) :
    Plan (List Css.Node) := do
  let params ← Plan.carryOut (Expand.view scope fun v => .ok (v.substitute params))
  let child ← Plan.onScopes (Scoped.create (.child scope))
  return [.atRule name params (← Plan.request (.block child body)) {}]

/-- The namespaces that have been found, one after the other: opens each, and descends from its
members. -/
def planDescent (caller : ScopeId) (arity : Option Nat) (name : String) (rest : List String) :
    List Candidate → Plan (List Candidate)
  | [] => return []
  | c :: more => do
    let memberArity := if rest.isEmpty then arity else some 0
    let members ← Plan.onScopes (namespaceMembers caller name memberArity c)
    let found ← Plan.request (.descent caller arity rest members)
    return found ++ (← planDescent caller arity name rest more)

/-- The definitions that a path may be meant for. -/
def planCandidates (caller : ScopeId) (arity : Option Nat) : List String → Plan (List Candidate)
  | [] => return []
  | [name] => Plan.onScopes (visibleMixins caller name arity)
  | name :: rest => do
    let found ← Plan.onScopes (visibleMixins caller name (some 0))
    Plan.request (.descent caller arity rest found)

/-- The bodies of the candidates that a call settled on, in order. -/
def planSelected (caller : ScopeId) : List Selected → Plan (List Css.Node × List ScopeId)
  | [] => return ([], [])
  | s :: rest => do
    let r := s.candidate.registration
    let expanded ←
      Plan.request (.body ⟨r.mixin.name, r.mixin.body, s.working, r.closure⟩)
    let exports ← Plan.onScopes (collectExports true caller expanded.scope)
    let (nodes, more) ← planSelected caller rest
    return (expanded.nodes ++ nodes, exports :: more)

/-- A call of a mixin, with arguments and candidates in hand. -/
def Call.planAmong (call : Call) (caller : ScopeId) (args : List Actual)
    (candidates : List Candidate) : Plan (List Css.Node) := do
  let trials ← Plan.onScopes (tryAll call.displayName args caller candidates)
  Plan.carryOut (Expand.report trials.problems.eraseDups)
  let (nodes, exports) ← planSelected caller (choose trials.accepted)
  Plan.onScopes (commitExports caller exports)
  return call.finish nodes

/-- A call of a mixin. -/
def Call.plan (call : Call) (caller : ScopeId) : Plan (List Css.Node) := do
  let args ← Plan.carryOut (evalArguments caller call.args)
  let candidates ← planCandidates caller (some args.length) call.path
  if candidates.isEmpty then
    let others ← planCandidates caller none call.path
    Plan.carryOut (Expand.report [unmatchedProblem call args.length others])
    return []
  else call.planAmong caller args candidates

/-- A call of a ruleset held by a variable. -/
def planDetached (caller : ScopeId) (name : String) (comments : Comments) :
    Plan (List Css.Node) := do
  match ← Plan.carryOut (Expand.view caller fun v => v.lookup name) with
  | .ruleset _ body scope =>
    let working ← Plan.onScopes (Scoped.create (.join caller scope))
    let expanded ← Plan.request (.body ⟨"@" ++ name, body, working, scope⟩)
    let exports ← Plan.onScopes (collectExports false caller expanded.scope)
    Plan.onScopes (commitExports caller [exports])
    return Css.attachComments comments expanded.nodes
  | _ => .done (.error (.eval (.notCallable name)))

/-- A body that a call reaches: its statements are a block, one level deeper, and what follows is
done whether they fail or not. -/
def Fetched.plan (limit : Nat) (f : Fetched) : Plan Expanded :=
  .own (.level id fun depth => .done (.ok (decide (limit ≤ depth)))) fun
    | .ok true => .done (.error (.tooDeep f.name limit))
    | .ok false =>
      .own (.level (· + 1) fun _ => .mark f.closure .log fun snapshot =>
          .create (.child f.working) fun scope => .done (.ok (snapshot, scope))) fun
        | .ok (snapshot, scope) =>
          .ask (.block scope f.body) fun r =>
            .own (.change (.restore snapshot) (.level (· - 1) fun _ => .done (r.map (⟨·, scope⟩))))
              .done
        | .error e => .done (.error e)
    | .error e => .done (.error e)

/-- Whether a task is the body of a call. -/
def Task.isBody {α : Type} : Task α → Bool
  | .body _ => true
  | _ => false

/-- What is done for a task, up to the tasks that it asks for in turn. -/
def Task.plan (limit : Nat) {α : Type} : Task α → Plan α
  | .block scope items => do
    Plan.onScopes (hoist scope items)
    planItems scope items
  | .rule scope r => r.plan scope
  | .atRule scope name params items => planAtRule scope name params items
  | .call caller c => c.plan caller
  | .detached caller name comments => planDetached caller name comments
  | .body f => f.plan limit
  | .descent _ _ [] found => return found
  | .descent caller arity (name :: rest) found => planDescent caller arity name rest found

/-- A task done by the function it stands for, with `left` levels left. -/
def Task.expand (limit left : Nat) {α : Type} : Task α → Expand α
  | .block scope items => expandBlock (expandBody limit left) items scope
  | .rule scope r => Item.expand (expandBody limit left) scope (.rule r)
  | .atRule scope name params items =>
    Item.expand (expandBody limit left) scope (.atRule name params items)
  | .call caller c => c.expand (expandBody limit left) caller
  | .detached caller name comments => expandDetached (expandBody limit left) caller name comments
  | .body f => expandBody limit left f
  | .descent caller arity path found => Expand.onScopes (descend caller arity path found)

/-! ## Plans and functions -/

namespace Plan

variable {α β : Type} (answer : {β : Type} → Task β → Expand β)

/-- Doing the tasks of a plan goes through what follows it. -/
theorem via_andThen (x : Plan α) (k : Except Error α → Plan β) :
    (x.andThen k).via answer = (x.via answer).andThen fun r => (k r).via answer := by
  induction x with
  | done r => rfl
  | own x next ih =>
    exact (congrArg x.andThen (funext ih)).trans (andThen_assoc x _ _).symm
  | ask t next ih =>
    exact (congrArg (answer t).andThen (funext ih)).trans (andThen_assoc (answer t) _ _).symm

@[simp] theorem via_pure (a : α) : (pure a : Plan α).via answer = pure a := rfl

@[simp] theorem via_bind (x : Plan α) (f : α → Plan β) :
    (x >>= f).via answer = x.via answer >>= fun a => (f a).via answer := by
  refine (via_andThen answer x (orFail f)).trans ?_
  refine congrArg (x.via answer).andThen (funext fun r => ?_)
  cases r <;> rfl

@[simp] theorem via_carryOut (x : Expand α) : (carryOut x).via answer = x := andThen_done x

@[simp] theorem via_onScopes (x : Scoped α) : (onScopes x).via answer = Expand.onScopes x :=
  via_carryOut answer _

@[simp] theorem via_request (t : Task α) : (request t).via answer = answer t :=
  andThen_done (answer t)

end Plan

@[simp] theorem Expand.onScopes_done {α : Type} (a : α) :
    Expand.onScopes (.done (.ok a)) = .done (.ok a) := rfl

@[simp] theorem Expand.onScopes_bind {α β : Type} (x : Scoped α) (f : α → Scoped β) :
    Expand.onScopes (x >>= f) = Expand.onScopes x >>= fun a => Expand.onScopes (f a) := by
  unfold Expand.onScopes mapError
  rw [bind_eq, bind_eq, andThen_assoc, andThen_assoc]
  refine congrArg x.andThen (funext fun r => ?_)
  cases r <;> rfl

section
variable (limit left : Nat)

/-- A plan for a statement with its tasks done by the functions is the function for statements. -/
theorem Item.via_plan (scope : ScopeId) (item : Item) :
    (item.plan scope).via (Task.expand limit left) = item.expand (expandBody limit left) scope := by
  cases item with
  | rule r => exact Plan.via_request _ (.rule scope r)
  | atRule name params body => exact Plan.via_request _ (.atRule scope name params body)
  | call c => exact Plan.via_request _ (.call scope c)
  | detachedCall name comments => exact Plan.via_request _ (.detached scope name comments)
  | _ => simp [Item.plan, Item.expand]

/-- The plan of statements is that of each, in order. -/
theorem planItems_via (scope : ScopeId) (items : List Item) :
    (planItems scope items).via (Task.expand limit left) =
      expandItems (expandBody limit left) scope items := by
  induction items with
  | nil => simp [planItems, expandItems]
  | cons item rest ih => simp [planItems, expandItems, Item.via_plan, ih]

/-- The plan of a rule asks for its block, and nothing else is missing in it. -/
theorem Rule.via_plan (scope : ScopeId) (r : Rule) :
    (r.plan scope).via (Task.expand limit left) =
      Item.expand (expandBody limit left) scope (.rule r) := by
  obtain ⟨selectors, guard, body⟩ := r
  simp only [Rule.plan, Item.expand, expandRule, Plan.via_bind, Plan.via_carryOut]
  refine congrArg (Bind.bind _) (funext fun applies => ?_)
  cases applies <;> simp [Task.expand, expandBlock]

/-- The plan of an at-rule asks for its block, and nothing else is missing in it. -/
theorem planAtRule_via (scope : ScopeId) (name params : String) (body : List Item) :
    (planAtRule scope name params body).via (Task.expand limit left) =
      Item.expand (expandBody limit left) scope (.atRule name params body) := by
  simp [planAtRule, Item.expand, expandAtRule, Task.expand, expandBlock]

/-- The plan of a descent asks for the descent from the members of each namespace. -/
theorem planDescent_via (caller : ScopeId) (arity : Option Nat) (name : String)
    (rest : List String) (found : List Candidate) :
    (planDescent caller arity name rest found).via (Task.expand limit left) =
      Expand.onScopes (descend caller arity (name :: rest) found) := by
  induction found with
  | nil => rfl
  | cons c more ih =>
    simp only [descend] at ih
    simp [planDescent, descend, gather, Task.expand, ih]

/-- A path of one name needs no descent, and any other asks for one. -/
theorem planCandidates_via (caller : ScopeId) (arity : Option Nat) (path : List String) :
    (planCandidates caller arity path).via (Task.expand limit left) =
      Expand.onScopes (findMixins caller arity path) := by
  match path with
  | [] => rfl
  | [name] => simp [planCandidates, findMixins]
  | name :: next :: rest => simp [planCandidates, findMixins, Task.expand]

/-- The plan of the selected candidates asks for their bodies, in order. -/
theorem planSelected_via (caller : ScopeId) (selected : List Selected) :
    (planSelected caller selected).via (Task.expand limit left) =
      expandSelected (expandBody limit left) caller selected := by
  induction selected with
  | nil => rfl
  | cons s rest ih => simp [planSelected, expandSelected, Task.expand, ih]

/-- A call among its candidates asks for the bodies of those that it settles on. -/
theorem Call.via_planAmong (call : Call) (caller : ScopeId) (args : List Actual)
    (candidates : List Candidate) :
    (call.planAmong caller args candidates).via (Task.expand limit left) =
      call.expandAmong (expandBody limit left) caller args candidates := by
  simp [Call.planAmong, Call.expandAmong, planSelected_via]

/-- The plan of a call is the call, with its descents and bodies done as tasks. -/
theorem Call.via_plan (call : Call) (caller : ScopeId) :
    (call.plan caller).via (Task.expand limit left) =
      call.expand (expandBody limit left) caller := by
  simp only [Call.plan, Call.expand, Plan.via_bind, Plan.via_carryOut, planCandidates_via]
  refine congrArg (Bind.bind _) (funext fun args => ?_)
  refine congrArg (Bind.bind _) (funext fun candidates => ?_)
  split
  · simp [planCandidates_via]
  · exact call.via_planAmong limit left caller args candidates

/-- The call of a ruleset asks for the one body. -/
theorem planDetached_via (caller : ScopeId) (name : String) (comments : Comments) :
    (planDetached caller name comments).via (Task.expand limit left) =
      expandDetached (expandBody limit left) caller name comments := by
  simp only [planDetached, expandDetached, Plan.via_bind, Plan.via_carryOut]
  refine congrArg (Bind.bind _) (funext fun value => ?_)
  cases value with
  | ruleset site body scope => simp [Task.expand]
  | _ => rfl

/-- The plan for a body with its block done with one level less is the function for bodies. -/
theorem Fetched.via_plan (f : Fetched) :
    (f.plan limit).via (Task.expand limit left) = expandBody limit (left + 1) f := by
  refine congrArg (Script.level id) (funext fun depth => ?_)
  by_cases hdepth : limit ≤ depth
  · simp [hdepth, Plan.via, Script.andThen]
  · simp only [hdepth, decide_false, if_false]
    refine congrArg (Script.level (· + 1)) (funext fun _ => ?_)
    refine congrArg (Script.mark f.closure .log) (funext fun snapshot => ?_)
    refine congrArg (Script.create (.child f.working)) (funext fun scope => ?_)
    -- The block is followed by the same steps, put together in another way.
    change (expandBlock _ f.body scope).andThen _ =
      (((expandBlock _ f.body scope).andThen _).andThen (orFail _)).andThen _
    rw [andThen_assoc, andThen_assoc]
    refine congrArg (expandBlock _ f.body scope).andThen (funext fun r => ?_)
    cases r <;> rfl

/-- With its tasks done by the functions they stand for, a plan is the function of its task. -/
theorem Task.via_plan {α : Type} (t : Task α) (ht : t.isBody = false) :
    (t.plan limit).via (Task.expand limit left) = t.expand limit left := by
  cases t with
  | block scope items =>
    simp [plan, expand, expandBlock, enterBlock, planItems_via]
  | rule scope r => exact r.via_plan limit left scope
  | atRule scope name params items => exact planAtRule_via limit left scope name params items
  | call caller c => exact c.via_plan limit left caller
  | detached caller name comments => exact planDetached_via limit left caller name comments
  | body f => cases ht
  | descent caller arity path found =>
    cases path with
    | nil => rfl
    | cons name rest => exact planDescent_via limit left caller arity name rest found

end

end LessSheet
