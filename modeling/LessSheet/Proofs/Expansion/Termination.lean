import LessSheet.Proofs.Expansion.Plan

/-! # Every expansion ends

A body that a call reaches comes out of the arena: it may be the very body that the call is in, so
bodies do not get smaller along a chain of calls. What gets smaller is a pair of numbers: what the
depth leaves of the limit, and then the size of the task (`Situation.measure`). A body that was
fetched is only expanded after the depth has been raised, which lowers the first number. Everything
else is asked for at the same depth: a block asks for its own statements, a rule for its own block,
and a descent for a shorter one, which lowers the second (`Task.Invokes.size_lt`).

So the functions of an expansion terminate, without any bound but the limit
(`expansion_terminates`), and `expandBody` recurses often enough to give what they come to.
-/

namespace LessSheet

open Script

/-! ## Evaluation without a bound -/

/-- Carrying out a plan comes to an end, with this result and this state. Tasks are done by their
own plans. -/
inductive Plan.Evaluates (limit : Nat) :
    {α : Type} → Plan α → Progress → Except Error α → Progress → Prop where
  | done {α : Type} {r : Except Error α} {p : Progress} : Evaluates limit (.done r) p r p
  | own {α β : Type} {x : Expand β} {next : Except Error β → Plan α} {p q : Progress}
    {r : Except Error α} :
    Evaluates limit (next (x.run p).1) (x.run p).2 r q → Evaluates limit (.own x next) p r q
  | ask {α β : Type} {t : Task β} {next : Except Error β → Plan α} {p m q : Progress}
    {s : Except Error β} {r : Except Error α} :
    Evaluates limit (t.plan limit) p s m → Evaluates limit (next s) m r q →
    Evaluates limit (.ask t next) p r q

/-- A task in a state. -/
structure Situation where
  {Answer : Type}
  task : Task Answer
  state : Progress

/-- A task is asked for, in some state, while a plan is carried out. -/
inductive Plan.Asks (limit : Nat) : {α : Type} → Plan α → Progress → Situation → Prop where
  | own {α β : Type} {x : Expand β} {next : Except Error β → Plan α} {p : Progress}
    {b : Situation} : Asks limit (next (x.run p).1) (x.run p).2 b → Asks limit (.own x next) p b
  | now {α β : Type} {t : Task β} {next : Except Error β → Plan α} {p : Progress} :
    Asks limit (.ask t next) p ⟨t, p⟩
  | later {α β : Type} {t : Task β} {next : Except Error β → Plan α} {p m : Progress}
    {s : Except Error β} {b : Situation} :
    Plan.Evaluates limit (t.plan limit) p s m → Asks limit (next s) m b →
    Asks limit (.ask t next) p b

/-- The function for one task calls that for another. -/
def Situation.Calls (limit : Nat) (a b : Situation) : Prop :=
  Plan.Asks limit (a.task.plan limit) a.state b

/-- Carrying out a plan comes to one end at most. -/
theorem Plan.Evaluates.unique {limit : Nat} {α : Type} {plan : Plan α} {p q q' : Progress}
    {r r' : Except Error α} (h : Evaluates limit plan p r q) (h' : Evaluates limit plan p r' q') :
    r' = r ∧ q' = q := by
  induction h generalizing q' with
  | done =>
    cases h'
    exact ⟨rfl, rfl⟩
  | own _ ih =>
    cases h' with
    | own h' => exact ih h'
  | ask _ _ iht ih =>
    cases h' with
    | ask ht' h' =>
      obtain ⟨rfl, rfl⟩ := iht ht'
      exact ih h'

/-! ## Who calls whom -/

/-- The calls that there can be. What a block asks for are statements of it, and a rule or at-rule
asks for its own block. Only the body of a call stands for statements from elsewhere. -/
inductive Task.Invokes : {α β : Type} → Task α → Task β → Prop where
  | rule {scope : ScopeId} {items : List Item} {r : Rule} :
    .rule r ∈ items → Invokes (.block scope items) (.rule scope r)
  | atRule {scope : ScopeId} {items body : List Item} {name params : String} :
    .atRule name params body ∈ items →
    Invokes (.block scope items) (.atRule scope name params body)
  | call {scope : ScopeId} {items : List Item} {c : Call} :
    .call c ∈ items → Invokes (.block scope items) (.call scope c)
  | detachedCall {scope : ScopeId} {items : List Item} {name : String} {comments : Comments} :
    .detachedCall name comments ∈ items →
    Invokes (.block scope items) (.detached scope name comments)
  | ruleBlock {scope child : ScopeId} {r : Rule} : Invokes (.rule scope r) (.block child r.body)
  | atRuleBlock {scope child : ScopeId} {name params : String} {body : List Item} :
    Invokes (.atRule scope name params body) (.block child body)
  | path {caller : ScopeId} {c : Call} {arity : Option Nat} {name : String} {rest : List String}
    {found : List Candidate} :
    c.path = name :: rest → Invokes (.call caller c) (.descent caller arity rest found)
  | selected {caller : ScopeId} {c : Call} {f : Fetched} : Invokes (.call caller c) (.body f)
  | ruleset {caller : ScopeId} {name : String} {comments : Comments} {f : Fetched} :
    Invokes (.detached caller name comments) (.body f)
  | fetched {scope : ScopeId} {f : Fetched} : Invokes (.body f) (.block scope f.body)
  | members {caller : ScopeId} {arity : Option Nat} {name : String} {rest : List String}
    {found members : List Candidate} :
    Invokes (.descent caller arity (name :: rest) found) (.descent caller arity rest members)

mutual

/-- The size of a statement: one more than that of the task it asks for, if any. -/
def Item.weight : Item → Nat
  | .rule ⟨_, _, body⟩ => weightOf body + 2
  | .atRule _ _ body => weightOf body + 2
  | .call c => c.path.length + 2
  | .detachedCall _ _ => 2
  | _ => 1

/-- The size of the statements of a block. -/
def weightOf : List Item → Nat
  | [] => 0
  | item :: rest => item.weight + weightOf rest

end

/-- The size of a task: of its statements, or of the path that is left. -/
def Task.size {α : Type} : Task α → Nat
  | .block _ items => weightOf items
  | .rule _ r => weightOf r.body + 1
  | .atRule _ _ _ items => weightOf items + 1
  | .call _ c => c.path.length + 1
  | .detached _ _ _ => 1
  | .body _ => 0
  | .descent _ _ path _ => path.length

/-- What the depth leaves of the limit, and the size of the task. -/
def Situation.measure (limit : Nat) (a : Situation) : Nat × Nat :=
  (limit - a.state.depth, a.task.size)

/-- A rule outweighs its body by two: one for the task of the rule, one for the statement. -/
theorem Item.weight_rule (r : Rule) : (Item.rule r).weight = weightOf r.body + 2 := by
  cases r
  rfl

/-- No statement weighs more than the block that it is in. -/
theorem weight_le_of_mem {item : Item} {items : List Item} (h : item ∈ items) :
    item.weight ≤ weightOf items := by
  induction h with
  | head rest => exact Nat.le_add_right _ _
  | tail first _ ih => exact Nat.le_trans ih (Nat.le_add_left _ _)

/-- A task that is not the body of a call invokes smaller ones. -/
theorem Task.Invokes.size_lt {α β : Type} {t : Task α} {u : Task β} (h : t.Invokes u)
    (ht : t.isBody = false) : u.size < t.size := by
  cases h with
  | @rule _ _ r h =>
    have hweight := weight_le_of_mem h
    rw [Item.weight_rule] at hweight
    exact hweight
  | atRule h | call h | detachedCall h => exact weight_le_of_mem h
  | ruleBlock | atRuleBlock => exact Nat.lt_succ_self _
  | path hpath =>
    simp only [size, hpath, List.length_cons]
    omega
  | selected | ruleset => exact Nat.succ_pos _
  | fetched => cases ht
  | members => exact Nat.lt_succ_self _

/-! ## What plans ask for -/

namespace Plan

variable {α β : Type} {P : {γ : Type} → Task γ → Prop}

/-- The plan's own steps stay at their depth, and all it asks for are tasks with `P`. -/
def Within (P : {γ : Type} → Task γ → Prop) : Plan α → Prop
  | .done _ => True
  | .own x next => x.Flat ∧ ∀ r, (next r).Within P
  | .ask t next => P t ∧ ∀ r, (next r).Within P

/-- A plan and what follows each of its results, with their tasks all alike. -/
theorem Within.andThen {x : Plan α} {k : Except Error α → Plan β} (h : x.Within P)
    (hk : ∀ r, (k r).Within P) : (x.andThen k).Within P := by
  induction x with
  | done r => exact hk r
  | own x next ih => exact ⟨h.1, fun r => ih r (h.2 r)⟩
  | ask t next ih => exact ⟨h.1, fun r => ih r (h.2 r)⟩

/-- A plan and what follows it when it comes to a result. -/
theorem Within.bind {x : Plan α} {f : α → Plan β} (h : x.Within P) (hf : ∀ a, (f a).Within P) :
    (x >>= f).Within P :=
  h.andThen fun
    | .ok a => hf a
    | .error _ => trivial

/-- A step of the expansion that never touches the depth asks for nothing. -/
theorem within_carryOut {x : Expand α} (h : x.Flat) : (carryOut x).Within P :=
  ⟨h, fun _ => trivial⟩

/-- A step on scopes that never touches the depth asks for nothing. -/
theorem within_onScopes {x : Scoped α} (h : x.Flat) : (onScopes x).Within P :=
  within_carryOut (Expand.onScopes_flat h)

/-- A plan for one task asks for that. -/
theorem within_request {t : Task α} (h : P t) : (request t).Within P := ⟨h, fun _ => trivial⟩

end Plan

open Plan

section
variable {P : {γ : Type} → Task γ → Prop}

/-- A block asks for what its statements ask for. -/
theorem planItems_within {scope : ScopeId} {items : List Item}
    (h : ∀ item ∈ items, (item.plan scope).Within P) : (planItems scope items).Within P := by
  induction items with
  | nil => exact trivial
  | cons item rest ih =>
    refine (h item (.head _)).bind fun nodes => ?_
    exact (ih fun item hitem => h item (.tail _ hitem)).bind fun _ => trivial

/-- A descent by one name asks for the descent by the rest of the path. -/
theorem planDescent_within {caller : ScopeId} {arity : Option Nat} {name : String}
    {rest : List String} {found : List Candidate}
    (h : ∀ members, P (.descent caller arity rest members)) :
    (planDescent caller arity name rest found).Within P := by
  induction found with
  | nil => exact trivial
  | cons c more ih =>
    exact (within_onScopes (namespaceMembers_flat _ _ _ _)).bind fun members =>
      (within_request (h members)).bind fun _ => ih.bind fun _ => trivial

/-- Finding candidates asks for the descent by the path after its first name, if at all. -/
theorem planCandidates_within {caller : ScopeId} {arity : Option Nat} {path : List String}
    (h : ∀ name rest found, path = name :: rest → P (.descent caller arity rest found)) :
    (planCandidates caller arity path).Within P := by
  match path with
  | [] => exact trivial
  | [name] => exact within_onScopes (visibleMixins_flat _ _ _)
  | name :: next :: rest =>
    exact (within_onScopes (visibleMixins_flat _ _ _)).bind fun found =>
      within_request (h name (next :: rest) found rfl)

/-- Chosen candidates ask for their bodies. -/
theorem planSelected_within {caller : ScopeId} {selected : List Selected}
    (h : ∀ f, P (.body f)) : (planSelected caller selected).Within P := by
  induction selected with
  | nil => exact trivial
  | cons s rest ih =>
    exact (within_request (h _)).bind fun _ =>
      (within_onScopes (collectExports_flat _ _ _)).bind fun _ => ih.bind fun _ => trivial

/-- Once its candidates are found, a call asks for bodies alone. -/
theorem Call.planAmong_within {call : Call} {caller : ScopeId} {args : List Actual}
    {candidates : List Candidate} (h : ∀ f, P (.body f)) :
    (call.planAmong caller args candidates).Within P :=
  (within_onScopes (tryAll_flat _ _ _ _)).bind fun _ =>
    (within_carryOut (Expand.report_flat _)).bind fun _ =>
      (planSelected_within h).bind fun _ =>
        (within_onScopes (commitExports_flat _ _)).bind fun _ => trivial

end

/-- A statement asks for what the block that it is in may invoke. -/
theorem Item.plan_within {scope : ScopeId} {items : List Item} {item : Item} (h : item ∈ items) :
    (item.plan scope).Within (Task.Invokes (.block scope items)) := by
  cases item with
  | assign name value =>
    exact (within_carryOut (Expand.view_flat _ _)).bind fun _ =>
      (within_onScopes (Scoped.change_flat _)).bind fun _ => trivial
  | declaration d => exact (within_carryOut (Expand.view_flat _ _)).bind fun _ => trivial
  | rule r => exact within_request (.rule h)
  | atRule name params body => exact within_request (.atRule h)
  | mixin site m => exact trivial
  | call c => exact within_request (.call h)
  | detachedCall name comments => exact within_request (.detachedCall h)

/-- A rule asks for its own block. -/
theorem Rule.plan_within (scope : ScopeId) (r : Rule) :
    (r.plan scope).Within (Task.Invokes (.rule scope r)) := by
  refine (within_carryOut (ruleApplies_flat _ _)).bind fun applies => ?_
  cases applies with
  | false => exact trivial
  | true =>
    exact (within_carryOut (Expand.view_flat _ _)).bind fun _ =>
      (within_onScopes (Scoped.create_flat _)).bind fun _ =>
        (within_request .ruleBlock).bind fun _ => trivial

/-- An at-rule asks for its own block. -/
theorem planAtRule_within (scope : ScopeId) (name params : String) (body : List Item) :
    (planAtRule scope name params body).Within
      (Task.Invokes (.atRule scope name params body)) :=
  (within_carryOut (Expand.view_flat _ _)).bind fun _ =>
    (within_onScopes (Scoped.create_flat _)).bind fun _ =>
      (within_request .atRuleBlock).bind fun _ => trivial

/-- A call asks for the descent by its path and for the bodies that it has chosen. -/
theorem Call.plan_within (caller : ScopeId) (c : Call) :
    (c.plan caller).Within (Task.Invokes (.call caller c)) := by
  refine (within_carryOut (evalArguments_flat _ _)).bind fun args =>
    (planCandidates_within fun _ _ _ hpath => .path hpath).bind fun candidates => ?_
  split
  · exact (planCandidates_within fun _ _ _ hpath => .path hpath).bind fun _ =>
      (within_carryOut (Expand.report_flat _)).bind fun _ => trivial
  · exact Call.planAmong_within fun _ => .selected

/-- A call of a ruleset asks for the body of it. -/
theorem planDetached_within (caller : ScopeId) (name : String) (comments : Comments) :
    (planDetached caller name comments).Within
      (Task.Invokes (.detached caller name comments)) := by
  refine (within_carryOut (Expand.view_flat _ _)).bind fun value => ?_
  cases value with
  | ruleset site body scope =>
    exact (within_onScopes (Scoped.create_flat _)).bind fun _ =>
      (within_request .ruleset).bind fun _ =>
        (within_onScopes (collectExports_flat _ _ _)).bind fun _ =>
          (within_onScopes (commitExports_flat _ _)).bind fun _ => trivial
  | _ => exact trivial

/-- A task that is not the body of a call stays at its depth and asks for what it invokes. -/
theorem Task.plan_within (limit : Nat) {α : Type} (t : Task α) (ht : t.isBody = false) :
    (t.plan limit).Within t.Invokes := by
  cases t with
  | block scope items =>
    exact (within_onScopes (hoist_flat _ _)).bind fun _ =>
      planItems_within fun _ => Item.plan_within
  | rule scope r => exact r.plan_within scope
  | atRule scope name params items => exact planAtRule_within scope name params items
  | call caller c => exact c.plan_within caller
  | detached caller name comments => exact planDetached_within caller name comments
  | body f => cases ht
  | descent caller arity path found =>
    cases path with
    | nil => exact trivial
    | cons name rest => exact planDescent_within fun _ => .members

/-! ## Termination -/

/-- The plan of a task comes to what the function for it comes to, at the depth it started at. -/
structure Settles (limit left : Nat) {α : Type} (t : Task α) (p : Progress) : Prop where
  evaluates : Evaluates limit (t.plan limit) p ((t.expand limit left).run p).1
    ((t.expand limit left).run p).2
  depth : ((t.expand limit left).run p).2.depth = p.depth

section
variable {limit left : Nat}

/-- A plan that stays at its depth comes to what it comes to with its tasks done by functions, if
these tasks settle there. -/
theorem Plan.Within.settles {P : {γ : Type} → Task γ → Prop} {α : Type} {x : Plan α}
    (h : x.Within P) {p : Progress}
    (hP : ∀ {γ : Type} (t : Task γ), P t → ∀ q, q.depth = p.depth → Settles limit left t q) :
    let (r, q) := (x.via (Task.expand limit left)).run p
    Evaluates limit x p r q ∧ q.depth = p.depth := by
  induction x generalizing p with
  | done r => exact ⟨.done, rfl⟩
  | own x next ih =>
    have hdepth := h.1.depth p
    obtain ⟨heval, hback⟩ := ih _ (h.2 _) (p := (x.run p).2) fun t ht q hq =>
      hP t ht q (hq.trans hdepth)
    simp only [via, run_andThen]
    exact ⟨.own heval, hback.trans hdepth⟩
  | ask t next ih =>
    have ht := hP t h.1 p rfl
    obtain ⟨heval, hback⟩ := ih _ (h.2 _) (p := ((t.expand limit left).run p).2) fun u hu q hq =>
      hP u hu q (hq.trans ht.depth)
    simp only [via, run_andThen]
    exact ⟨.ask ht.evaluates heval, hback.trans ht.depth⟩

/-- A body at the limit fails. -/
theorem Fetched.plan_atLimit (f : Fetched) {p : Progress} (h : limit ≤ p.depth) :
    Evaluates limit (f.plan limit) p (.error (.tooDeep f.name limit)) p := by
  refine .own ?_
  simp only [run_level, run_done, id_eq, decide_eq_true h]
  exact .done

/-- At the limit, expanding a body fails at once and changes nothing. -/
theorem expandBody_atLimit (left : Nat) (f : Fetched) {p : Progress} (h : limit ≤ p.depth) :
    (expandBody limit left f).run p = (.error (.tooDeep f.name limit), p) := by
  cases left with
  | zero => rfl
  | succ left => simp only [expandBody, Expand.deeper, run_level, id_eq, if_pos h, run_done]

/-- A body below the limit comes to what its block comes to in a new scope, one level deeper, with
its closure as it was. -/
theorem Fetched.plan_below (f : Fetched) {p q : Progress} {r : Except Error (List Css.Node)}
    {scope : ScopeId} {arena : Arena} (h : p.depth < limit)
    (hchild : Creation.apply (.child f.working) p.arena = (scope, arena))
    (hblock : Evaluates limit ((Task.block scope f.body).plan limit)
      ⟨arena, p.problems, p.depth + 1⟩ r q) :
    Evaluates limit (f.plan limit) p (r.map (⟨·, scope⟩))
      ⟨q.arena.restore (p.arena.snapshot f.closure .log), q.problems, q.depth - 1⟩ := by
  have hnot : decide (limit ≤ p.depth) = false := decide_eq_false (Nat.not_le.2 h)
  cases hchild
  refine .own ?_
  simp only [run_level, run_done, id_eq, hnot]
  exact .own (.ask hblock (.own .done))

/-- Below the limit, expanding a body is expanding its block in a new scope, one level deeper, after
which the closure's log is as it was. -/
theorem expandBody_below (left : Nat) (f : Fetched) {p : Progress} {scope : ScopeId} {arena : Arena}
    (h : p.depth < limit)
    (hchild : Creation.apply (.child f.working) p.arena = (scope, arena)) :
    (expandBody limit (left + 1) f).run p =
      let (r, q) := (expandBlock (expandBody limit left) f.body scope).run
        ⟨arena, p.problems, p.depth + 1⟩
      (r.map (⟨·, scope⟩),
        ⟨q.arena.restore (p.arena.snapshot f.closure .log), q.problems, q.depth - 1⟩) := by
  have hnot : decide (limit ≤ p.depth) = false := decide_eq_false (Nat.not_le.2 h)
  rw [← f.via_plan]
  simp only [Fetched.plan, via, run_andThen, run_level, run_done, id_eq, hnot, run_mark, run_create,
    run_change, Change.apply, hchild, Task.expand]

/-- A body settles if its block does with one level less, where the limit allows it. -/
theorem Fetched.settles (f : Fetched) {p : Progress} (hleft : limit ≤ left + p.depth)
    (hblock : ∀ less scope q, left = less + 1 → q.depth = p.depth + 1 →
      Settles limit less (.block scope f.body) q) : Settles limit left (.body f) p := by
  by_cases h : limit ≤ p.depth
  · have hrun := expandBody_atLimit left f h
    constructor
    · simp only [Task.expand, hrun]
      exact f.plan_atLimit h
    · simp only [Task.expand, hrun]
  · obtain ⟨less, rfl⟩ : ∃ less, left = less + 1 := ⟨left - 1, by omega⟩
    rcases hchild : Creation.apply (.child f.working) p.arena with ⟨scope, arena⟩
    have hrun := expandBody_below less f (Nat.not_le.1 h) hchild
    have hb := hblock less scope ⟨arena, p.problems, p.depth + 1⟩ rfl rfl
    constructor
    · simp only [Task.expand, hrun]
      exact f.plan_below (Nat.not_le.1 h) hchild hb.evaluates
    · simp only [Task.expand, hrun]
      exact Nat.sub_eq_of_eq_add hb.depth

/-- Every task settles, if as many levels are left as the limit allows at its depth. -/
theorem Task.settles (limit : Nat) : ∀ (left : Nat) {α : Type} (t : Task α) (p : Progress),
    limit ≤ left + p.depth → Settles limit left t p := by
  intro left
  induction left using Nat.strongRecOn with
  | ind left ihleft =>
    intro α t
    -- At one number of levels, by the size of the task; a body takes to one level less.
    induction hsize : t.size using Nat.strongRecOn generalizing α with
    | ind size ihsize =>
      intro p hleft
      by_cases ht : t.isBody = true
      · cases t with
        | body f =>
          refine f.settles hleft fun less scope q hless hq => ?_
          exact ihleft less (by omega) (.block scope f.body) q (by omega)
        | _ => cases ht
      · have ht : t.isBody = false := Bool.eq_false_iff.2 ht
        have hinvoked : ∀ {γ : Type} (u : Task γ), t.Invokes u → ∀ q, q.depth = p.depth →
            Settles limit left u q := by
          intro γ u hu q hq
          exact ihsize u.size (hsize ▸ hu.size_lt ht) u rfl q (hq ▸ hleft)
        have hplan := (t.plan_within limit ht).settles hinvoked
        rw [t.via_plan limit left ht] at hplan
        exact ⟨hplan.1, hplan.2⟩

/-- However a task is carried out, in the end the depth is what it was. -/
theorem Plan.Evaluates.depth_eq {α : Type} {t : Task α} {p q : Progress} {r : Except Error α}
    (h : Evaluates limit (t.plan limit) p r q) : q.depth = p.depth := by
  have hsettles := t.settles limit limit p (Nat.le_add_right _ _)
  obtain ⟨rfl, rfl⟩ := hsettles.evaluates.unique h
  exact hsettles.depth

/-- A plan that stays at its depth asks for its tasks there. -/
theorem Plan.Within.asks {P : {γ : Type} → Task γ → Prop} {α : Type} {x : Plan α}
    (h : x.Within P) {p : Progress} {b : Situation} (hasks : Asks limit x p b) :
    P b.task ∧ b.state.depth = p.depth := by
  induction hasks with
  | own _ ih =>
    obtain ⟨hb, hdepth⟩ := ih (h.2 _)
    exact ⟨hb, hdepth.trans (h.1.depth _)⟩
  | now => exact ⟨h.1, rfl⟩
  | later heval _ ih =>
    obtain ⟨hb, hdepth⟩ := ih (h.2 _)
    exact ⟨hb, hdepth.trans heval.depth_eq⟩

/-- A body asks for its block, below the limit and one level deeper, and for nothing else. -/
theorem Fetched.asks {f : Fetched} {p : Progress} {b : Situation}
    (h : Asks limit (f.plan limit) p b) :
    Task.Invokes (.body f) b.task ∧ p.depth < limit ∧ b.state.depth = p.depth + 1 := by
  cases h with
  | own h =>
    simp only [run_level, run_done, id_eq] at h
    by_cases hdepth : limit ≤ p.depth
    · rw [decide_eq_true hdepth] at h
      cases h
    · rw [decide_eq_false hdepth] at h
      cases h with
      | own h =>
        cases h with
        | now => exact ⟨.fetched, Nat.not_le.1 hdepth, rfl⟩
        | later _ h =>
          cases h with
          | own h => cases h

/-- A call is one that there can be. It is made at the depth of the caller, unless the caller is a
body, which is below the limit then and goes one level deeper. -/
theorem Situation.Calls.invokes {a b : Situation} (h : a.Calls limit b) :
    a.task.Invokes b.task ∧
      if a.task.isBody then a.state.depth < limit ∧ b.state.depth = a.state.depth + 1
      else b.state.depth = a.state.depth := by
  obtain ⟨t, p⟩ := a
  by_cases ht : t.isBody = true
  · cases t with
    | body f =>
      obtain ⟨hinvokes, hdepth⟩ := Fetched.asks h
      exact ⟨hinvokes, by simpa [Task.isBody] using hdepth⟩
    | _ => cases ht
  · have hwithin := t.plan_within limit (Bool.eq_false_iff.2 ht)
    obtain ⟨hinvokes, hdepth⟩ := hwithin.asks h
    exact ⟨hinvokes, by simpa [ht] using hdepth⟩

/-- Calls go down in the measure. -/
theorem Situation.Calls.measure_lt {a b : Situation} (h : a.Calls limit b) :
    Prod.Lex (· < ·) (· < ·) (b.measure limit) (a.measure limit) := by
  obtain ⟨hinvokes, hdepth⟩ := h.invokes
  split at hdepth
  · exact .left _ _ (by omega)
  · next ht =>
    have hsize := hinvokes.size_lt (Bool.eq_false_iff.2 ht)
    rw [measure, measure, hdepth]
    exact .right _ hsize

end

/-- The seven functions of an expansion terminate, from every state and whatever the arena holds.
A call that one of them makes is one that there can be (`Task.Invokes`): the statements of a block,
the block of a rule, a shorter descent, or a body that a call has fetched. It is made at the depth
of the caller, except that a body has its statements carried out one level deeper, and only below
the limit. So each call lowers what the depth leaves of the limit, or else the size of the task, and
there is no endless chain of calls.

Carrying out a task therefore comes to exactly one end, at the depth it started at. That end is what
`Task.expand` gives; in particular a stylesheet comes to its expansion. Opening a namespace, trying
a candidate and evaluating the guard of a rule have no part in this: they never change the depth, as
expanding a body always does. -/
theorem expansion_terminates (limit : Nat) :
    (∀ a b : Situation, a.Calls limit b →
      a.task.Invokes b.task ∧
      (if a.task.isBody then a.state.depth < limit ∧ b.state.depth = a.state.depth + 1
        else b.state.depth = a.state.depth) ∧
      Prod.Lex (· < ·) (· < ·) (b.measure limit) (a.measure limit)) ∧
    WellFounded (fun b a : Situation => a.Calls limit b) ∧
    (∀ a : Situation,
      let (r, q) := (a.task.expand limit limit).run a.state
      Evaluates limit (a.task.plan limit) a.state r q ∧ q.depth = a.state.depth ∧
      ∀ r' q', Evaluates limit (a.task.plan limit) a.state r' q' → r' = r ∧ q' = q) ∧
    (∀ sheet : Stylesheet,
      let (r, q) := sheet.expand limit
      Evaluates limit ((Task.block Arena.root sheet.body).plan limit) Progress.start r q) ∧
    (∀ r : Registration, (openNamespace r).Flat) ∧
    (∀ (c : Candidate) (call : String) (args : List Actual) (caller : ScopeId),
      (c.trial call args caller).Flat) ∧
    (∀ (scope : ScopeId) (guard : Option Condition), (ruleApplies scope guard).Flat) ∧
    ∀ (left : Nat) (f : Fetched), ¬ (expandBody limit (left + 1) f).Flat := by
  refine ⟨fun a b h => ⟨h.invokes.1, h.invokes.2, h.measure_lt⟩, ?_, fun a => ?_, fun sheet => ?_,
    openNamespace_flat, Candidate.trial_flat, ruleApplies_flat, fun left f h => h⟩
  · exact Subrelation.wf (fun h => h.measure_lt)
      (InvImage.wf (Situation.measure limit) (Prod.lex Nat.lt_wfRel Nat.lt_wfRel).wf)
  · have hsettles := a.task.settles limit limit a.state (Nat.le_add_right _ _)
    exact ⟨hsettles.evaluates, hsettles.depth, fun _ _ h => hsettles.evaluates.unique h⟩
  · exact (Task.settles limit limit (.block Arena.root sheet.body) Progress.start
      (Nat.le_add_right _ _)).evaluates

/-- A mixin that calls itself without a guard comes to an end too, by the limit. -/
theorem expansion_terminates_self :
    let sheet : Stylesheet := ⟨[], [
      .mixin ⟨0, 1⟩ ⟨".m", [], none, [.call ⟨[".m"], [], false, {}⟩]⟩,
      .call ⟨[".m"], [], false, {}⟩]⟩
    ∃ q, Evaluates 2 ((Task.block Arena.root sheet.body).plan 2) Progress.start
      (.error (.tooDeep ".m" 2)) q := by
  intro sheet
  exact ⟨_, (expansion_terminates 2).2.2.2.1 sheet⟩

end LessSheet
