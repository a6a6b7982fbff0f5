import LessSheet.Proofs.Css.Comments
import LessSheet.Proofs.Expansion.Termination
import Mathlib.Logic.Relation

/-! # The comments of a call

A call is replaced by the nodes it expands to, and its comments are put at the first and the last of
these. Whatever is asked for while a stylesheet is expanded, the nodes that come of it stand
somewhere in the expanded stylesheet (`Situation.Calls.delivers`). So the comments of a call appear
in the pretty layout, around the properties of its expansion that come after or before them there
(`Stylesheet.call_comments_appear`).

They do not appear around all of them. A rule without properties of its own loses the comments that
are put at it, and an at-rule loses those after it (`call_comment_lost`).
-/

namespace LessSheet

open Script

/-! ## Nodes that tasks give -/

/-- The nodes that come of a task. A descent gives none. -/
def Task.nodes? : {α : Type} → Task α → α → Option (List Css.Node)
  | _, .block _ _, nodes => some nodes
  | _, .rule _ _, nodes => some nodes
  | _, .atRule _ _ _ _, nodes => some nodes
  | _, .call _ _, nodes => some nodes
  | _, .detached _ _ _, nodes => some nodes
  | _, .body _, expanded => some expanded.nodes
  | _, .descent _ _ _ _, _ => none

/-- Whether a task is a descent into namespaces. -/
def Task.isDescent {α : Type} : Task α → Bool
  | .descent _ _ _ _ => true
  | _ => false

/-- A task comes to a result, and its nodes stand in others. Descents do not count. -/
def Situation.Delivers (limit : Nat) (b : Situation) (nodes : List Css.Node) : Prop :=
  b.task.isDescent = true ∨ ∃ y q ms, Plan.Evaluates limit (b.task.plan limit) b.state (.ok y) q ∧
    b.task.nodes? y = some ms ∧ Css.StandsIn ms nodes

/-- Nodes that stand in some nodes stand in all that these stand in. -/
theorem Situation.Delivers.mono {limit : Nat} {b : Situation} {ns ms : List Css.Node}
    (h : b.Delivers limit ns) (hns : Css.StandsIn ns ms) : b.Delivers limit ms := by
  rcases h with h | ⟨y, q, ks, hy, hks, hstands⟩
  · exact .inl h
  · exact .inr ⟨y, q, ks, hy, hks, hstands.trans hns⟩

namespace Plan

variable {limit : Nat} {α β : Type} {x : Plan α}

/-- Wherever a plan comes to a result, the result is such. -/
def Returns (limit : Nat) (P : α → Prop) (x : Plan α) : Prop :=
  ∀ p a q, Evaluates limit x p (.ok a) q → P a

/-- Where a plan comes to a result, what it asked for has done so too, with nodes that stand in
those of the result. -/
def Delivers (limit : Nat) (view : α → List Css.Node) (x : Plan α) : Prop :=
  ∀ p a q, Evaluates limit x p (.ok a) q → ∀ b, Asks limit x p b → b.Delivers limit (view a)

/-! ## Plans one after the other -/

/-- A plan followed by another comes to what the other comes to after it, and asks for what the two
ask for. -/
theorem Evaluates.andThen_inv {k : Except Error α → Plan β} {p q : Progress} {r : Except Error β}
    (h : Evaluates limit (x.andThen k) p r q) :
    ∃ s m, Evaluates limit x p s m ∧ Evaluates limit (k s) m r q ∧
      ∀ b, Asks limit (x.andThen k) p b → Asks limit x p b ∨ Asks limit (k s) m b := by
  induction x generalizing p with
  | done s => exact ⟨s, p, .done, h, fun _ hb => .inr hb⟩
  | own y next ih =>
    cases h with
    | own h =>
      obtain ⟨s, m, hs, hr, hasks⟩ := ih _ h
      refine ⟨s, m, .own hs, hr, fun b hb => ?_⟩
      cases hb with
      | own hb => exact (hasks b hb).imp_left .own
  | ask t next ih =>
    cases h with
    | ask ht h =>
      obtain ⟨s, m, hs, hr, hasks⟩ := ih _ h
      refine ⟨s, m, .ask ht hs, hr, fun b hb => ?_⟩
      cases hb with
      | now => exact .inl .now
      | later ht' hb =>
        obtain ⟨rfl, rfl⟩ := ht.unique ht'
        exact (hasks b hb).imp_left (.later ht)

/-- A plan that comes to a result has come to one at its first step. -/
theorem Evaluates.bind_inv {f : α → Plan β} {p q : Progress} {c : β}
    (h : Evaluates limit (x >>= f) p (.ok c) q) :
    ∃ a m, Evaluates limit x p (.ok a) m ∧ Evaluates limit (f a) m (.ok c) q ∧
      ∀ b, Asks limit (x >>= f) p b → Asks limit x p b ∨ Asks limit (f a) m b := by
  obtain ⟨s, m, hs, hc, hasks⟩ := andThen_inv h
  cases s with
  | ok a => exact ⟨a, m, hs, hc, hasks⟩
  | error e => cases hc

/-- A plan that is over comes to its result. -/
theorem returns_pure {P : α → Prop} {a : α} (h : P a) : Returns limit P (pure a) := by
  intro p c q hc
  cases hc
  exact h

/-- The last step of a plan decides what it comes to. -/
theorem Returns.bind {P : β → Prop} {f : α → Plan β} (h : ∀ a, Returns limit P (f a)) :
    Returns limit P (x >>= f) := by
  intro p c q hc
  obtain ⟨a, m, -, hc, -⟩ := hc.bind_inv
  exact h a m c q hc

/-- A plan that is over asks for nothing. -/
theorem delivers_pure (view : α → List Css.Node) (a : α) : Delivers limit view (pure a) := by
  intro p c q _ b hb
  cases hb

/-- A task gives its own nodes. -/
theorem delivers_request (view : α → List Css.Node) {t : Task α}
    (h : ∀ a, t.nodes? a = some (view a)) : Delivers limit view (request t) := by
  intro p a q ha b hb
  cases ha with
  | ask ht ha =>
    cases ha
    cases hb with
    | now => exact .inr ⟨a, q, view a, ht, h a, .here⟩
    | later _ hb => cases hb

/-- A plan that goes on with a result and puts its nodes among its own. -/
theorem Delivers.bind {view : α → List Css.Node} {f : α → Plan β} {view' : β → List Css.Node}
    (hx : Delivers limit view x) (hf : ∀ a, Delivers limit view' (f a))
    (hkeeps : ∀ a, Returns limit (fun c => Css.StandsIn (view a) (view' c)) (f a)) :
    Delivers limit view' (x >>= f) := by
  intro p c q hc b hb
  obtain ⟨a, m, ha, hc, hasks⟩ := hc.bind_inv
  rcases hasks b hb with hb | hb
  · exact (hx p a m ha b hb).mono (hkeeps a m c q hc)
  · exact hf a m c q hc b hb

/-- A plan that first asks for descents, or for nothing. -/
theorem Delivers.after {f : α → Plan β} {view : β → List Css.Node}
    (hx : x.Within fun t => t.isDescent = true) (hf : ∀ a, Delivers limit view (f a)) :
    Delivers limit view (x >>= f) := by
  intro p c q hc b hb
  obtain ⟨a, m, -, hc, hasks⟩ := hc.bind_inv
  rcases hasks b hb with hb | hb
  · exact .inl (hx.asks hb).1
  · exact hf a m c q hc b hb

end Plan

open Plan

/-! ## What the functions ask for stands in what they give -/

section
variable {limit : Nat}

/-- A statement gives the nodes of the one task it asks for. -/
theorem Item.plan_delivers (scope : ScopeId) (item : Item) :
    Delivers limit id (item.plan scope) := by
  cases item with
  | assign name value =>
    exact .after (within_carryOut (Expand.view_flat _ _)) fun _ =>
      .after (within_onScopes (Scoped.change_flat _)) fun _ => delivers_pure _ _
  | declaration d =>
    exact .after (within_carryOut (Expand.view_flat _ _)) fun _ => delivers_pure _ _
  | rule r => exact delivers_request id fun _ => rfl
  | atRule name params body => exact delivers_request id fun _ => rfl
  | mixin site m => exact delivers_pure _ _
  | call c => exact delivers_request id fun _ => rfl
  | detachedCall name comments => exact delivers_request id fun _ => rfl

/-- Statements give the nodes of each of them, one after the other. -/
theorem planItems_delivers (scope : ScopeId) (items : List Item) :
    Delivers limit id (planItems scope items) := by
  induction items with
  | nil => exact delivers_pure _ _
  | cons item rest ih =>
    refine (item.plan_delivers scope).bind (fun nodes => ?_) fun nodes => ?_
    · refine ih.bind (fun more => delivers_pure _ _) fun more => returns_pure ?_
      have h : Css.StandsIn more (nodes ++ more ++ []) := .beside nodes [] .here
      rwa [List.append_nil] at h
    · exact Returns.bind fun more => returns_pure (.beside [] more .here)

/-- The nodes of the block stand in the rule, if its guard lets it apply. -/
theorem Rule.plan_delivers (scope : ScopeId) (r : Rule) : Delivers limit id (r.plan scope) := by
  refine .after (within_carryOut (ruleApplies_flat _ _)) fun applies => ?_
  cases applies with
  | false => exact delivers_pure _ _
  | true =>
    refine .after (within_carryOut (Expand.view_flat _ _)) fun selectors => ?_
    refine .after (within_onScopes (Scoped.create_flat _)) fun child => ?_
    refine (delivers_request id fun _ => rfl).bind (fun _ => delivers_pure _ _)
      fun nodes => ?_
    exact returns_pure (.rule selectors {} .here)

/-- The nodes of the block stand in the at-rule. -/
theorem planAtRule_delivers (scope : ScopeId) (name params : String) (body : List Item) :
    Delivers limit id (planAtRule scope name params body) := by
  refine .after (within_carryOut (Expand.view_flat _ _)) fun params => ?_
  refine .after (within_onScopes (Scoped.create_flat _)) fun child => ?_
  refine (delivers_request id fun _ => rfl).bind (fun _ => delivers_pure _ _)
    fun nodes => ?_
  exact returns_pure (.atRule name params {} .here)

/-- Chosen candidates give the nodes of their bodies, one after the other. -/
theorem planSelected_delivers (caller : ScopeId) (selected : List Selected) :
    Delivers limit Prod.fst (planSelected caller selected) := by
  induction selected with
  | nil => exact delivers_pure _ _
  | cons s rest ih =>
    refine (delivers_request Expanded.nodes fun _ => rfl).bind (fun expanded => ?_)
      fun expanded => ?_
    · refine .after (within_onScopes (collectExports_flat _ _ _)) fun exports => ?_
      refine ih.bind (fun _ => delivers_pure _ _) fun others => returns_pure ?_
      have h : Css.StandsIn others.1 (expanded.nodes ++ others.1 ++ []) :=
        .beside expanded.nodes [] .here
      rwa [List.append_nil] at h
    · exact Returns.bind fun exports => Returns.bind fun others =>
        returns_pure (.beside [] others.1 .here)

/-- A call gives the nodes of the candidates that it chooses among those found, with its comments at
them. -/
theorem Call.planAmong_delivers (call : Call) (caller : ScopeId) (args : List Actual)
    (candidates : List Candidate) :
    Delivers limit id (call.planAmong caller args candidates) := by
  refine .after (within_onScopes (tryAll_flat _ _ _ _)) fun trials => ?_
  refine .after (within_carryOut (Expand.report_flat _)) fun _ => ?_
  refine (planSelected_delivers caller _).bind (fun expanded => ?_) fun expanded => ?_
  · exact .after (within_onScopes (commitExports_flat _ _)) fun _ => delivers_pure _ _
  · exact Returns.bind fun _ => returns_pure (.call call.comments call.important .here)

/-- A call asks for descents on the way to its candidates, and then gives the nodes of their
bodies. -/
theorem Call.plan_delivers (call : Call) (caller : ScopeId) :
    Delivers limit id (call.plan caller) := by
  have hdescents : ∀ arity, (planCandidates caller arity call.path).Within
      fun t => t.isDescent = true := fun arity => planCandidates_within fun _ _ _ _ => rfl
  refine .after (within_carryOut (evalArguments_flat _ _)) fun args => ?_
  refine .after (hdescents _) fun candidates => ?_
  split
  · refine .after (hdescents none) fun others => ?_
    exact .after (within_carryOut (Expand.report_flat _)) fun _ => delivers_pure _ _
  · exact call.planAmong_delivers caller args candidates

/-- A call of a ruleset gives the nodes of its body, with its comments at them. -/
theorem planDetached_delivers (caller : ScopeId) (name : String) (comments : Comments) :
    Delivers limit id (planDetached caller name comments) := by
  refine .after (within_carryOut (Expand.view_flat _ _)) fun value => ?_
  cases value with
  | ruleset site body scope =>
    refine .after (within_onScopes (Scoped.create_flat _)) fun working => ?_
    refine (delivers_request Expanded.nodes fun _ => rfl).bind (fun expanded => ?_)
      fun expanded => ?_
    · exact .after (within_onScopes (collectExports_flat _ _ _)) fun _ =>
        .after (within_onScopes (commitExports_flat _ _)) fun _ => delivers_pure _ _
    · exact Returns.bind fun _ => Returns.bind fun _ => returns_pure (.call comments false .here)
  | _ =>
    intro p a q ha
    cases ha

/-- The block of a body comes to what the body comes to. -/
theorem Fetched.plan_delivers (f : Fetched) :
    Delivers limit Expanded.nodes (f.plan limit) := by
  intro p a q ha b hb
  cases ha with
  | own ha =>
  cases hb with
  | own hb =>
  simp only [run_level, run_done, id_eq] at ha hb
  by_cases hdepth : limit ≤ p.depth
  · rw [decide_eq_true hdepth] at hb
    cases hb
  · rw [decide_eq_false hdepth] at ha hb
    cases ha with
    | own ha =>
    cases hb with
    | own hb =>
    cases ha with
    | @ask _ _ _ _ _ m _ r _ hblock ha =>
    cases ha with
    | own ha =>
    cases r with
    | error e => cases ha
    | ok nodes =>
      cases ha
      cases hb with
      | now => exact .inr ⟨nodes, m, nodes, hblock, rfl, .here⟩
      | later _ hb =>
        cases hb with
        | own hb => cases hb

/-- What a function calls gives nodes that stand in those the function gives. -/
theorem Situation.Calls.delivers {a b : Situation} (h : a.Calls limit b) {x : a.Answer}
    {q : Progress} {nodes : List Css.Node}
    (hx : Evaluates limit (a.task.plan limit) a.state (.ok x) q)
    (hnodes : a.task.nodes? x = some nodes) : b.Delivers limit nodes := by
  obtain ⟨t, p⟩ := a
  cases t with
  | block scope items =>
    cases hnodes
    have hblock : Plan.Delivers limit id ((Task.block scope items).plan limit) :=
      .after (within_onScopes (hoist_flat _ _)) fun _ => planItems_delivers scope items
    exact hblock p _ q hx b h
  | rule scope r =>
    cases hnodes
    exact r.plan_delivers scope p _ q hx b h
  | atRule scope name params items =>
    cases hnodes
    exact planAtRule_delivers scope name params items p _ q hx b h
  | call caller c =>
    cases hnodes
    exact c.plan_delivers caller p _ q hx b h
  | detached caller name comments =>
    cases hnodes
    exact planDetached_delivers caller name comments p _ q hx b h
  | body f =>
    cases hnodes
    exact f.plan_delivers p x q hx b h
  | descent caller arity path found => cases hnodes

/-- A descent into namespaces invokes nothing but shorter descents. -/
theorem Task.Invokes.isDescent {α β : Type} {t : Task α} {u : Task β} (h : t.Invokes u)
    (ht : t.isDescent = true) : u.isDescent = true := by
  cases h with
  | members => rfl
  | _ => cases ht

/-- A descent calls descents alone. -/
theorem Situation.isDescent_of_reaches {a b : Situation}
    (h : Relation.ReflTransGen (Situation.Calls limit) a b) (ha : a.task.isDescent = true) :
    b.task.isDescent = true := by
  induction h with
  | refl => exact ha
  | tail _ hcalls ih => exact hcalls.invokes.1.isDescent ih

/-- Whatever is called on the way gives nodes that stand in those given in the end. -/
theorem Situation.delivers_of_reaches {a b : Situation}
    (h : Relation.ReflTransGen (Situation.Calls limit) a b) (hb : b.task.isDescent = false) :
    ∀ {x : a.Answer} {q : Progress} {nodes : List Css.Node},
      Evaluates limit (a.task.plan limit) a.state (.ok x) q → a.task.nodes? x = some nodes →
      ∃ y q ms, Evaluates limit (b.task.plan limit) b.state (.ok y) q ∧
        b.task.nodes? y = some ms ∧ Css.StandsIn ms nodes := by
  induction h using Relation.ReflTransGen.head_induction_on with
  | refl =>
    intro x q nodes hx hnodes
    exact ⟨x, q, nodes, hx, hnodes, .here⟩
  | @head a c hcalls hreach ih =>
    intro x q nodes hx hnodes
    rcases hcalls.delivers hx hnodes with hdescent | ⟨y, q, ms, hy, hms, hstands⟩
    · have hall := Situation.isDescent_of_reaches hreach hdescent
      rw [hb] at hall
      cases hall
    · obtain ⟨z, r, ks, hz, hks, hinner⟩ := ih hy hms
      exact ⟨z, r, ks, hz, hks, hinner.trans hstands⟩

/-! ## Calls -/

/-- A call of a mixin or of a ruleset, in a scope. -/
inductive Calling where
  | mixin (caller : ScopeId) (call : Call)
  | ruleset (caller : ScopeId) (name : String) (comments : Comments)

/-- A call as a task. -/
def Calling.task : Calling → Task (List Css.Node)
  | .mixin caller call => .call caller call
  | .ruleset caller name comments => .detached caller name comments

/-- The comments of a call. -/
def Calling.comments : Calling → Comments
  | .mixin _ call => call.comments
  | .ruleset _ _ comments => comments

/-- All that a call comes to are its nodes. -/
theorem Calling.nodes?_task (c : Calling) (nodes : List Css.Node) :
    c.task.nodes? nodes = some nodes := by cases c <;> rfl

/-- A call is not a descent, so its nodes count. -/
theorem Calling.isDescent_task (c : Calling) : c.task.isDescent = false := by cases c <;> rfl

/-- What a call comes to has the comments of the call at it. -/
theorem Calling.returns_attached (c : Calling) :
    Returns limit (fun nodes => ∃ bare, nodes = Css.attachComments c.comments bare)
      (c.task.plan limit) := by
  cases c with
  | mixin caller call =>
    refine Returns.bind fun args => Returns.bind fun candidates => ?_
    split
    · exact Returns.bind fun _ => Returns.bind fun _ => returns_pure ⟨[], rfl⟩
    · exact Returns.bind fun _ => Returns.bind fun _ => Returns.bind fun _ => Returns.bind fun _ =>
        returns_pure ⟨_, rfl⟩
  | ruleset caller name comments =>
    refine Returns.bind fun value => ?_
    cases value with
    | ruleset site body scope =>
      exact Returns.bind fun _ => Returns.bind fun _ => Returns.bind fun _ => Returns.bind fun _ =>
        returns_pure ⟨_, rfl⟩
    | _ =>
      intro p nodes q hnodes
      cases hnodes

/-- A stylesheet that is evaluated has been expanded, to nodes without a property at the top. -/
theorem Stylesheet.evaluates_of_evaluate {sheet : Stylesheet} {flat : Css.Sheet}
    {problems : List Problem} (h : sheet.evaluate limit = .ok (flat, problems)) :
    ∃ nodes q, Evaluates limit ((Task.block Arena.root sheet.body).plan limit) Progress.start
      (.ok nodes) q ∧ flat = ⟨sheet.imports, Css.blocksOf [] nodes⟩ ∧
      Css.properties nodes = [] := by
  have hsettles := (Task.block Arena.root sheet.body).settles limit limit Progress.start
    (Nat.le_add_right _ _)
  have hrun : ((Task.block Arena.root sheet.body).expand limit limit).run Progress.start =
      sheet.expand limit := rfl
  have heval := hsettles.evaluates
  rw [hrun] at heval
  unfold Stylesheet.evaluate at h
  split at h
  · cases h
  · next nodes q hexpand =>
    split at h
    · cases h
    · next hstray =>
      cases h
      rw [hexpand] at heval
      refine ⟨nodes, q, heval, rfl, ?_⟩
      simpa [Stylesheet.stray?, Css.properties] using hstray

/-- A stylesheet that is evaluated, and a call that is carried out in the course of it, whether of a
mixin or of a ruleset. No comment before the call begins with white space and none after it ends
with some. The call has come to an end too, with its comments at what it expanded to, and they
appear in the pretty layout: those that lead the call before the text of each property of the
expansion that comes after them (`Css.AfterLead`), and those that trail it after the text of each
that comes before them (`Css.BeforeTrail`). -/
theorem Stylesheet.call_comments_appear (sheet : Stylesheet) (limit : Nat) {flat : Css.Sheet}
    {problems : List Problem} (hsheet : sheet.evaluate limit = .ok (flat, problems))
    (c : Calling) {p : Progress}
    (hcalled : Relation.ReflTransGen (Situation.Calls limit)
      ⟨.block Arena.root sheet.body, Progress.start⟩ ⟨c.task, p⟩)
    (hleading : ∀ t ∈ c.comments.leading, Text.FirmStart t.toList)
    (htrailing : ∀ t ∈ c.comments.trailing, Text.FirmEnd t.toList) :
    (∃ bare q, (c.task.expand limit limit).run p =
      (.ok (Css.attachComments c.comments bare), q)) ∧
    ∀ bare q, (c.task.expand limit limit).run p =
        (.ok (Css.attachComments c.comments bare), q) →
      (∀ d, Css.AfterLead bare d → Text.Appear (c.comments.leading ++ [d.text]) flat.pretty) ∧
      ∀ d, Css.BeforeTrail bare d → Text.Appear (d.text :: c.comments.trailing) flat.pretty := by
  obtain ⟨nodes, q, hnodes, rfl, htop⟩ := evaluates_of_evaluate hsheet
  obtain ⟨y, q', ms, hy, hms, hstands⟩ :=
    Situation.delivers_of_reaches hcalled c.isDescent_task hnodes rfl
  have hrun : (c.task.expand limit limit).run p = (.ok y, q') := by
    obtain ⟨hr, hq⟩ := (c.task.settles limit limit p (Nat.le_add_right _ _)).evaluates.unique hy
    exact Prod.ext hr.symm hq.symm
  obtain ⟨bare, hbare⟩ := c.returns_attached p y q' hy
  refine ⟨⟨bare, q', hbare ▸ hrun⟩, fun bare r hr => ?_⟩
  cases hr.symm.trans hrun
  cases (c.nodes?_task _).symm.trans hms
  exact ⟨fun d hd => hd.appear hstands htop hleading, fun d hd => hd.appear hstands htop htrailing⟩

end

/-- A call between two comments. -/
def commentedCall : Call := ⟨[".m"], [], false, ⟨["/* before */"], ["/* after */"]⟩⟩

/-- A call between two comments, of a mixin with two rules. -/
def commentedRules : Stylesheet := ⟨[], [
  .mixin ⟨0, 1⟩ ⟨".m", [], none, [
    .rule ⟨[".a"], none, [.declaration ⟨"color", .keyword "red", false, {}⟩]⟩,
    .rule ⟨[".b"], none, [.declaration ⟨"top", .keyword "auto", false, {}⟩]⟩]⟩,
  .call commentedCall]⟩

/-- A call between two comments, of a mixin with two rules: the first comment comes before the
property of the first rule, and the second after that of the second. -/
theorem Stylesheet.call_comments_appear_rules :
    ∃ flat, commentedRules.evaluate 1 = .ok (flat, []) ∧
      Text.Appear ["/* before */", "color: red"] flat.pretty ∧
      Text.Appear ["top: auto", "/* after */"] flat.pretty := by
  have hleading : ∀ t ∈ commentedCall.comments.leading, Text.FirmStart t.toList := by
    intro t ht
    cases List.mem_singleton.1 ht
    exact ⟨'/', _, rfl, rfl⟩
  have htrailing : ∀ t ∈ commentedCall.comments.trailing, Text.FirmEnd t.toList := by
    intro t ht
    cases List.mem_singleton.1 ht
    exact ⟨"/* after *".toList, '/', rfl, rfl⟩
  let color : Css.Property := ⟨"color", "red", false, {}⟩
  let top : Css.Property := ⟨"top", "auto", false, {}⟩
  obtain ⟨flat, p, hsheet, hcalls, hrun⟩ : ∃ flat p, commentedRules.evaluate 1 = .ok (flat, []) ∧
      Situation.Calls 1 ⟨.block Arena.root commentedRules.body, Progress.start⟩
        ⟨(Calling.mixin Arena.root commentedCall).task, p⟩ ∧
      (((Calling.mixin Arena.root commentedCall).task.expand 1 1).run p).1 =
        .ok (Css.attachComments commentedCall.comments
          [.rule [".a"] [.property color] {}, .rule [".b"] [.property top] {}]) :=
    ⟨_, _, rfl, Asks.own .now, rfl⟩
  have haround := (Stylesheet.call_comments_appear commentedRules 1 hsheet
    (.mixin Arena.root commentedCall) (.single hcalls) hleading htrailing).2 _ _ (Prod.ext hrun rfl)
  have hcolor : color.text = "color: red" := by decide +kernel
  have htop : top.text = "top: auto" := by decide +kernel
  refine ⟨flat, hsheet, ?_, ?_⟩
  · rw [← hcolor]
    exact haround.1 color ⟨List.cons_ne_nil _ _, _, .head _, rfl, .head _⟩
  · rw [← htop]
    exact haround.2 top ⟨[_], _, rfl, List.cons_ne_nil _ _, .inr (.head _)⟩

/-- A mixin with an at-rule, and one with a rule in a rule, each called between two comments. The
first call loses the comment after it and the second both. -/
theorem call_comment_lost :
    let media := ".m() \x7b @media print \x7b color: red; \x7d \x7d\n" ++
      ".x \x7b /* before */ .m(); /* after */ \x7d"
    let nested := ".m() \x7b .a \x7b .b \x7b color: red; \x7d \x7d \x7d\n" ++
      ".x \x7b /* before */ .m(); /* after */ \x7d"
    let mediaCss := "/* before */\n@media print \x7b\n  .x \x7b\n    color: red;\n  \x7d\n\x7d"
    let nestedCss := ".x .a .b \x7b\n  color: red;\n\x7d"
    (compile media).toOption.map (·.css) = some mediaCss ∧
      ¬ Text.Appear ["/* after */"] mediaCss ∧
      (compile nested).toOption.map (·.css) = some nestedCss ∧
      ¬ Text.Appear ["/* before */"] nestedCss ∧ ¬ Text.Appear ["/* after */"] nestedCss := by
  intro media nested mediaCss nestedCss
  refine ⟨by decide +kernel, fun h => ?_, by decide +kernel, fun h => ?_, fun h => ?_⟩
  all_goals exact absurd (Text.AppearIn.part h (.head _)) (by decide +kernel)

end LessSheet
