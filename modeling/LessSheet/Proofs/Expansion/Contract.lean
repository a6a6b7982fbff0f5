import LessSheet.Proofs.Expansion.Candidates

/-! # The contracts of the expansion

Every script that an expansion consists of has a contract (`Works`), from exporting a value to
expanding a whole block. The statements of a block work in the scope of the block; everything else
works in scopes of its own.

The recursion through calls is an argument of these scripts, so its contract is an assumption of
theirs (`Expander.Works`). It is discharged by induction on the levels that are left
(`expandBody_works`).
-/

namespace LessSheet

open Script

variable {s : ScopeId} {K : List ScopeId}

/-! ## Exports -/

/-- Exporting a ruleset joins the caller's scope with its own; another value stays as it is. -/
theorem exportValue_works {caller : ScopeId} {v : Value} (hcaller : caller ∈ K)
    (hv : scopesIn v ⊆ K) : Works s K (exportValue caller v) := by
  unfold exportValue
  split
  · refine (Scoped.works_join hcaller (hv (.head _))).bind fun u => .pure ?_
    simp
  · exact .pure hv

/-- Variables are bound in the scope of the exports, one after the other. -/
theorem exportVariables_works {caller : ScopeId} {vars : List (String × Value)}
    (hcaller : caller ∈ K) (hs : s ∈ K) (hvars : scopesIn vars ⊆ K) :
    Works s K (exportVariables caller s vars) := by
  induction vars with
  | nil => exact .pure (List.nil_subset K)
  | cons var rest ih =>
    obtain ⟨name, value⟩ := var
    rw [scopesIn_cons, List.append_subset] at hvars
    refine (exportValue_works hcaller hvars.1).bind fun v => ?_
    refine (Scoped.works_define (by simp [hs]) (by simp)).bind fun _ => ?_
    exact (ih hvars.2).mono (by simp)

/-- Mixins are registered in the scope of the exports, one after the other. -/
theorem exportMixins_works {rs : List Registration} (hs : s ∈ K) (hrs : scopesIn rs ⊆ K) :
    Works s K (exportMixins s rs) := by
  induction rs with
  | nil => exact .pure (List.nil_subset K)
  | cons r rest ih =>
    rw [scopesIn_cons, List.append_subset] at hrs
    exact (Scoped.works_register hs hrs.1).bind fun _ => ih hrs.2

/-- What a body exports goes to a scope of its own, which is given back. -/
theorem collectExports_works (withVariables : Bool) {caller body : ScopeId} (hcaller : caller ∈ K)
    (hbody : body ∈ K) : Works s K (collectExports withVariables caller body) := by
  refine Scoped.works_detached fun exports => ?_
  have hlook : [body] ⊆ exports :: K :=
    List.cons_subset.2 ⟨.tail _ hbody, List.nil_subset _⟩
  refine Works.bind (Scoped.works_observe hlook (reads_exportedVariables (by simp [hbody]) _))
    fun vars => ?_
  refine (exportVariables_works (by simp [hcaller]) (by simp) (by simp)).bind fun _ => ?_
  refine Works.bind (Scoped.works_observe
    (List.Subset.trans hlook (List.subset_append_of_subset_right _
      (List.subset_append_right _ _))) (Arena.reads_mixins (by simp [hbody]))) fun mixins => ?_
  exact (exportMixins_works (by simp) (by simp)).bind fun _ => .pure (by simp)

/-- The first scope of exports is staged, and then the rest. -/
theorem stageAll_cons (caller e : ScopeId) (rest : List ScopeId) :
    stageAll caller (e :: rest) = Script.change (.stage caller e) (stageAll caller rest) := rfl

/-- Exports come into force together: a staging area is opened, all are staged, and it is
committed. -/
theorem commitExports_eq (caller : ScopeId) (exports : List ScopeId) :
    commitExports caller exports = Script.change (.openStaging caller)
      ((stageAll caller exports) >>= fun _ => Scoped.change (.commit caller)) := rfl

/-- Staging holds the caller's scope and those of the exports. -/
theorem stageAll_holds {caller t : ScopeId} {exports : List ScopeId}
    (ht : Holds t (stageAll caller exports)) : t = caller ∨ t ∈ exports := by
  induction exports with
  | nil => exact nomatch holds_done.1 ht
  | cons e rest ih =>
    rw [stageAll_cons] at ht
    cases ht with
    | changing ht =>
      rcases List.mem_cons.1 ht with rfl | ht
      · exact .inl rfl
      · exact .inr (List.mem_singleton.1 ht ▸ .head _)
    | change ht => exact (ih ht).imp_right (.tail _)

/-- Staging keeps the arena closed all the way and changes nothing but what is staged. -/
theorem stageAll_safe {n : Nat} {caller : ScopeId} {exports : List ScopeId} {p : Progress}
    (hp : p.arena.Closed) (hn : n ≤ p.arena.size) (hcaller : caller < p.arena.size)
    (he : ∀ e ∈ exports, e < p.arena.size) :
    Safe n (stageAll caller exports) p ∧ ∃ b, Arena.Stages caller p.arena b ∧
      (stageAll caller exports).run p = (.ok (), { p with arena := b }) := by
  induction exports generalizing p with
  | nil => exact ⟨Safe.done (r := .ok ()) hp hn (fun _ h => nomatch h), p.arena, .refl _ _, rfl⟩
  | cons e rest ih =>
    have hstages := Arena.Stages.stage caller e p.arena
    have hsize : (p.arena.stage caller e).size = p.arena.size := hstages.size
    obtain ⟨hsafe, b, hrest, hrun⟩ := ih (p := { p with arena := p.arena.stage caller e }) hp.stage
      (hsize.symm ▸ hn) (hsize.symm ▸ hcaller) fun e he' => hsize.symm ▸ he e (.tail _ he')
    refine ⟨.step ⟨hn, hp, fun t ht => ?_, trivial⟩ rfl hsafe, b, hstages.trans hrest, hrun⟩
    rcases stageAll_holds ht with rfl | ht
    · exact hcaller
    · exact he t ht

/-- Wherever staging has got, nothing has changed but what is staged. -/
theorem stageAll_reaches {caller : ScopeId} {exports : List ScopeId} {p q : Progress}
    {y : Scoped Unit} (h : Reaches (stageAll caller exports) p y q) :
    Arena.Stages caller p.arena q.arena := by
  induction exports generalizing p with
  | nil =>
    obtain ⟨-, rfl⟩ := h.of_done
    exact .refl _ _
  | cons e rest ih =>
    rcases h.cases_head with ⟨-, rfl⟩ | ⟨_, _, hs, h⟩
    · exact .refl _ _
    · cases hs
      exact (Arena.Stages.stage caller e p.arena).trans (ih h)

/-- Until exports have come into force, nothing has changed but what is staged. -/
theorem commitExports_reaches {caller : ScopeId} {exports : List ScopeId} {p q : Progress}
    {y : Scoped Unit} (h : Reaches (commitExports caller exports) p y q) :
    (∃ r, y = .done r) ∨ Arena.Stages caller p.arena q.arena := by
  rw [commitExports_eq] at h
  have hopen := Arena.Stages.openStaging caller p.arena
  rcases h.cases_head with ⟨-, rfl⟩ | ⟨_, _, hs, h⟩
  · exact .inr (.refl _ _)
  cases hs
  rcases h.andThen_cases with ⟨z, hz, -⟩ | h
  · exact .inr (hopen.trans (stageAll_reaches hz))
  · have hstaged := hopen.trans (stageAll_reaches (reaches_done (stageAll caller exports)
      { p with arena := p.arena.openStaging caller }))
    cases hr : ((stageAll caller exports).run { p with arena := p.arena.openStaging caller }).1 with
    | error e =>
      rw [Change.apply, hr] at h
      exact .inl ⟨_, h.of_done.1⟩
    | ok _ =>
      rw [Change.apply, hr] at h
      rcases h.cases_head with ⟨-, rfl⟩ | ⟨_, _, hs, h⟩
      · exact .inr hstaged
      · cases hs
        exact .inl ⟨_, h.of_done.1⟩

/-- What comes after staging holds the number of the scope it comes into force in, if anything. -/
theorem holds_commit {r : Except EvalError Unit} {t : ScopeId}
    (ht : Holds t (orFail (fun _ => Scoped.change (.commit s)) r)) : t = s := by
  cases r with
  | ok _ => exact List.mem_singleton.1 (Scoped.holds_change ht)
  | error _ => exact nomatch holds_done.1 ht

/-- Bringing exports into force holds no other scopes than staging them. -/
theorem commitExports_holds {exports : List ScopeId} {t : ScopeId}
    (ht : Holds t (commitExports s exports)) : t = s ∨ t ∈ exports := by
  rw [commitExports_eq] at ht
  cases ht with
  | changing ht => exact .inl (List.mem_singleton.1 ht)
  | change ht =>
    rcases ht.andThen_cases with ht | ⟨r, -, ht⟩
    · exact stageAll_holds ht
    · exact .inl (holds_commit ht)

/-- Bringing exports into force keeps the contract in the caller's scope. -/
theorem commitExports_works {exports : List ScopeId} (hs : s ∈ K) (he : exports ⊆ K) :
    Works s K (commitExports s exports) := by
  have holds : ∀ t, Holds t (commitExports s exports) → t ∈ K := by
    intro t ht
    rcases commitExports_holds ht with rfl | ht
    · exact hs
    · exact he ht
  refine ⟨holds, fun p hp hK => ?_⟩
  have hsp := hK s hs
  have hopen := Arena.Stages.openStaging s p.arena
  have hsize : (p.arena.openStaging s).size = p.arena.size := hopen.size
  obtain ⟨hsafe, b, hstages, hrun⟩ := stageAll_safe (n := p.arena.size)
    (p := { p with arena := p.arena.openStaging s }) hp.toClosed.openStaging
    (Nat.le_of_eq hsize.symm) (hsize.symm ▸ hsp) fun e h => hsize.symm ▸ hK e (he h)
  have hb : Arena.Stages s p.arena b := hopen.trans hstages
  have hclosed : b.Closed := by
    have := hsafe.closed
    rwa [hrun] at this
  have hgrows := hp.grows_commit hb hsp
  have hcommit : Safe p.arena.size (Scoped.change (.commit s)) { p with arena := b } := by
    refine .step ⟨Nat.le_of_eq hb.size.symm, hclosed, fun t ht => ?_, trivial⟩ rfl
      (.done hclosed.commit ?_ fun _ h => nomatch h)
    · rw [List.mem_singleton.1 (Scoped.holds_change ht)]
      exact hb.size.symm ▸ hsp
    · exact hgrows.size
  have hall : (commitExports s exports).run p = (.ok (), { p with arena := b.commit s }) := by
    rw [commitExports_eq, run_change, Change.apply, run_bind_ok hrun]
    rfl
  refine ⟨.step (y := stageAll s exports >>= fun _ => Scoped.change (.commit s))
    ⟨Nat.le_refl _, hp.toClosed, fun t ht => hK t (holds t ht), hp.settled⟩ rfl
    (hsafe.andThen (fun r t ht => .inl (holds_commit ht ▸ hsp)) ?_), fun y q hq => ?_, ?_, ?_⟩
  · rw [hrun]
    exact hcommit
  · rcases commitExports_reaches hq with ⟨r, rfl⟩ | hstages
    · have hend := hq.run_eq
      rw [run_done, hall] at hend
      cases hend
      exact hgrows.frame
    · exact fun t _ hts => hstages.frame t hts
  · rw [hall]
    exact hgrows
  · rw [hall]

/-! ## Calls -/

/-- The contract of the recursion through calls: what is fetched is expanded in scopes of its own,
wherever the call is. -/
def Expander.Works (expand : Expander) : Prop :=
  ∀ (s : ScopeId) (K : List ScopeId) (fetched : Fetched), scopesIn fetched ⊆ K →
    Script.Works s K (expand fetched)

/-- Evaluating something in a scope that was given. -/
theorem Expand.works_view {α : Type} [Carries α] [Renames α] {scope : ScopeId}
    {f : View → Except EvalError α} (hs : scope ∈ K) (hf : Reads K fun a => f ⟨a, scope, none⟩) :
    Works s K (Expand.view scope f) :=
  Expand.works_onScopes (Scoped.works_observe (List.cons_subset.2 ⟨hs, List.nil_subset K⟩) hf)

/-- Evaluating an expression only reads. -/
theorem Expand.works_eval {scope : ScopeId} (hs : scope ∈ K) (e : Expr) :
    Works s K (Expand.view scope e.eval) := Expand.works_onScopes (Scoped.works_eval hs e)

/-- Arguments are evaluated in the caller's scope, one after the other. -/
theorem evalArguments_works {caller : ScopeId} (hcaller : caller ∈ K) (args : List Argument) :
    Works s K (evalArguments caller args) := by
  induction args generalizing K with
  | nil => exact .pure (List.nil_subset K)
  | cons arg rest ih =>
    refine (Expand.works_eval hcaller arg.value).bind fun value => ?_
    exact (ih (List.mem_append_right _ hcaller)).bind fun more => .pure (by simp)

/-- The candidates chosen are among those accepted. -/
theorem choose_scopes {α : Type} [Carries α] (candidates : List (Verdict × α)) :
    scopesIn (choose candidates) ⊆ scopesIn candidates := by
  intro t ht
  obtain ⟨x, hx, ht⟩ := mem_scopesIn_list.1 ht
  obtain ⟨c, hc, rfl⟩ := List.mem_map.1 hx
  exact mem_scopesIn_list.2 ⟨c, (List.mem_filter.1 hc).1, List.mem_append_right _ ht⟩

/-- The body of a candidate that a call has settled on. -/
def Selected.fetched (x : Selected) : Fetched :=
  ⟨x.candidate.registration.mixin.name, x.candidate.registration.mixin.body, x.working,
    x.candidate.registration.closure⟩

/-- Fetching the body of a candidate mentions no scope besides the candidate's. -/
theorem Selected.fetched_scopes (x : Selected) : scopesIn x.fetched ⊆ scopesIn x := by
  intro t ht
  simp only [Selected.fetched, scopesIn_fetched, List.mem_cons, List.not_mem_nil, or_false] at ht
  rcases ht with rfl | rfl <;> simp

variable {expand : Expander}

/-- Expanding chosen candidates in turn keeps the contract if expanding each does. -/
theorem expandSelected_works (hexpand : expand.Works) {caller : ScopeId} {selected : List Selected}
    (hcaller : caller ∈ K) (hsel : scopesIn selected ⊆ K) :
    Works s K (expandSelected expand caller selected) := by
  induction selected generalizing K with
  | nil => exact .pure (List.nil_subset K)
  | cons x rest ih =>
    rw [scopesIn_cons, List.append_subset] at hsel
    refine (hexpand s K x.fetched (List.Subset.trans x.fetched_scopes hsel.1)).bind
      fun expanded => ?_
    refine (Expand.works_onScopes (collectExports_works true (List.mem_append_right _ hcaller)
      (by simp))).bind fun exports => ?_
    refine (ih (by simp [hcaller]) ?_).bind fun (nodes, more) => .pure (by simp)
    exact List.subset_append_of_subset_right _ (List.subset_append_of_subset_right _ hsel.2)

/-- A call whose candidates were found tries them, expands those chosen, and brings their exports
into force in the caller's scope. -/
theorem Call.expandAmong_works (call : Call) (hexpand : expand.Works) {args : List Actual}
    {candidates : List Candidate} (hs : s ∈ K) (hargs : scopesIn args ⊆ K)
    (hc : scopesIn candidates ⊆ K) : Works s K (call.expandAmong expand s args candidates) := by
  refine (Expand.works_onScopes (tryAll_works call.displayName hargs hs hc)).bind fun trials => ?_
  refine (Expand.works_report trials.problems.eraseDups).bind fun _ => ?_
  refine (expandSelected_works hexpand (by simp [hs]) ?_).bind fun more => ?_
  · intro t ht
    have := choose_scopes trials.accepted ht
    simp [this]
  · obtain ⟨nodes, exports⟩ := more
    refine (Expand.works_onScopes (commitExports_works (by simp [hs]) ?_)).bind fun _ =>
      .pure (by simp)
    simp

/-- A call keeps the contract in the caller's scope. -/
theorem Call.expand_works (call : Call) (hexpand : expand.Works) (hs : s ∈ K) :
    Works s K (call.expand expand s) := by
  refine (evalArguments_works hs call.args).bind fun args => ?_
  have hs' := List.mem_append_right (scopesIn args) hs
  refine (Expand.works_onScopes (findMixins_works _ call.path hs')).bind fun candidates => ?_
  split
  · refine (Expand.works_onScopes (findMixins_works none call.path (by simp [hs]))).bind
      fun others => ?_
    exact (Expand.works_report _).bind fun _ => .pure (List.nil_subset _)
  · exact call.expandAmong_works hexpand (by simp [hs]) (by simp) (by simp)

/-- A call of a ruleset keeps the contract in the caller's scope. -/
theorem expandDetached_works (hexpand : expand.Works) (name : String) (comments : Comments)
    (hs : s ∈ K) : Works s K (expandDetached expand s name comments) := by
  refine (Expand.works_view hs (View.reads_lookup hs name)).bind fun v => ?_
  split
  · next body scope =>
    refine (Expand.works_onScopes (Scoped.works_join (by simp [hs]) (by simp))).bind
      fun working => ?_
    refine (hexpand s _ _ (by simp)).bind fun expanded => ?_
    refine (Expand.works_onScopes (collectExports_works false (by simp [hs]) (by simp))).bind
      fun exports => ?_
    exact (Expand.works_onScopes (commitExports_works (by simp [hs]) (by simp))).bind
      fun _ => .pure (by simp)
  · exact .throw

/-! ## Statements -/

/-- Evaluating the guard of a rule only reads. -/
theorem ruleApplies_works {scope : ScopeId} (guard : Option Condition) (hs : scope ∈ K) :
    Works s K (ruleApplies scope guard) := by
  cases guard with
  | none => exact .pure (List.nil_subset K)
  | some guard =>
    exact Expand.works_onScopes (Scoped.works_observe
      (List.cons_subset.2 ⟨hs, List.nil_subset K⟩) (reads_allowsRule hs guard))

variable {inside : ScopeId → Expand (List Css.Node)}

/-- A rule works in a scope of its own, wherever it is. -/
theorem expandRule_works {scope : ScopeId} (selectors : List String) (guard : Option Condition)
    (hs : scope ∈ K) (hinside : ∀ u, Works u (u :: K) (inside u)) :
    Works s K (expandRule scope selectors guard inside) := by
  refine (ruleApplies_works guard hs).bind fun applies => ?_
  split
  · refine (Expand.works_view hs (.of_view scopesIn_strings hs fun h =>
      interpolateAll_shift h selectors)).bind fun texts => ?_
    rw [scopesIn_strings, List.nil_append]
    exact Expand.works_child hs fun u => (hinside u).bind fun nodes => .pure (by simp)
  · exact .pure (List.nil_subset _)

/-- An at-rule works in a scope of its own, wherever it is. -/
theorem expandAtRule_works {scope : ScopeId} (name params : String) (hs : scope ∈ K)
    (hinside : ∀ u, Works u (u :: K) (inside u)) :
    Works s K (expandAtRule scope name params inside) := by
  refine (Expand.works_view hs (.of_view scopesIn_string hs fun h =>
    congrArg Except.ok (h.substitute params))).bind fun text => ?_
  exact Expand.works_child hs fun u => (hinside u).bind fun nodes => .pure (by simp)

/-- Hoisting comes first, and then what is inside the block. -/
theorem enterBlock_works (body : List Item) (hs : s ∈ K) (hinside : Works s K (inside s)) :
    Works s K (enterBlock body inside s) :=
  (Expand.works_onScopes (hoist_works hs body)).bind fun _ => hinside

mutual

/-- A statement works in the scope it is carried out in. -/
theorem Item.expand_works (hexpand : expand.Works) {s : ScopeId} {K : List ScopeId} (hs : s ∈ K) :
    ∀ item : Item, Works s K (item.expand expand s)
  | .assign name value => by
    refine (Expand.works_eval hs value).bind fun v => ?_
    exact (Expand.works_onScopes (Scoped.works_define (by simp [hs]) (by simp))).bind
      fun _ => .pure (List.nil_subset _)
  | .declaration d =>
    (Expand.works_view hs (.of_view scopesIn_property hs fun h => d.eval_shift h)).bind
      fun _ => .pure (List.nil_subset _)
  | .rule ⟨selectors, guard, body⟩ =>
    expandRule_works selectors guard hs fun _ =>
      enterBlock_works body (.head _) (expandItems_works hexpand (.head _) body)
  | .atRule name params body =>
    expandAtRule_works name params hs fun _ =>
      enterBlock_works body (.head _) (expandItems_works hexpand (.head _) body)
  | .mixin _ _ => .pure (List.nil_subset _)
  | .call call => call.expand_works hexpand hs
  | .detachedCall name comments => expandDetached_works hexpand name comments hs

/-- Statements work in the scope they are carried out in. -/
theorem expandItems_works (hexpand : expand.Works) {s : ScopeId} {K : List ScopeId} (hs : s ∈ K) :
    ∀ items : List Item, Works s K (expandItems expand s items)
  | [] => .pure (List.nil_subset _)
  | item :: rest =>
    (Item.expand_works hexpand hs item).bind fun _ =>
      (expandItems_works hexpand (List.mem_append_right _ hs) rest).bind fun _ => .pure (by simp)

end

/-- A block is worked through in the scope it is expanded in. -/
theorem expandBlock_works (hexpand : expand.Works) (body : List Item) (hs : s ∈ K) :
    Works s K (expandBlock expand body s) :=
  enterBlock_works body hs (expandItems_works hexpand hs body)

/-! ## The recursion through calls -/

/-- Going back to the log of a scope that is not worked in changes nothing. -/
theorem Expand.good_restoring {α : Type} [Carries α] {x : Expand α} {p : Progress} {a : Arena}
    {c : ScopeId} (hx : Good s x p) (hc : c < p.arena.size) (hcs : c ≠ s)
    (hlog : p.arena.log c = a.log c) : Good s (Expand.restoring (a.snapshot c .log) x) p := by
  have holds : ∀ r t, Holds t (Script.change (.restore (a.snapshot c .log)) (.done r) : Expand α) →
      t = c ∨ t ∈ scopesIn r := by
    intro r t ht
    cases ht with
    | changing ht => exact .inl (List.mem_singleton.1 ht)
    | change ht => exact .inr (holds_done.1 ht)
  have hback : (x.run p).2.arena.restore (a.snapshot c .log) = (x.run p).2.arena := by
    refine Arena.restore_log_eq ?_
    rw [← hlog, Arena.log, hx.grows.frame c hc hcs, Arena.log]
  have hcq : c < (x.run p).2.arena.size := Nat.lt_of_lt_of_le hc hx.grows.size
  refine hx.andThen (fun r t ht => ?_)
    (.change hx.safe.closed (fun t ht => ?_) ⟨?_, fun _ => hback⟩ ?_ ?_)
  · rcases holds r t ht with rfl | ht
    · exact .inl hc
    · exact .inr ht
  · rcases holds _ t ht with rfl | ht
    · exact hcq
    · exact hx.safe.result ht
  · rw [hback]
    exact hcq
  all_goals rw [Change.apply, hback]
  · exact .refl s _
  · exact .done hx.safe.closed fun t ht => hx.safe.result ht

/-- The operations of `expandFetched` around the block. -/
theorem expandFetched_eq (expand : Expander) (fetched : Fetched) :
    expandFetched expand fetched = Script.mark fetched.closure .log fun snapshot =>
      Script.create (.child fetched.working) fun u =>
        Expand.restoring snapshot (expandBlock expand fetched.body u) >>= fun nodes =>
          pure ⟨nodes, u⟩ := rfl

/-- Beside the scope of its snapshot and the one it is given, what is done in a new scope holds what
its block holds. -/
theorem holds_restoring {x : Expand (List Css.Node)} {snapshot : Snapshot} {u t : ScopeId}
    (ht : Holds t (Expand.restoring snapshot x >>= fun nodes => pure (Expanded.mk nodes u))) :
    Holds t x ∨ t ∈ scopesIn snapshot ∨ t = u := by
  rcases ht.bind_cases with ht | ⟨nodes, -, ht⟩
  · rcases Holds.andThen_cases ht with ht | ⟨r, hr, ht⟩
    · exact .inl ht
    · cases ht with
      | changing ht => exact .inr (.inl ht)
      | change ht => exact absurd (holds_done.1 ht) hr
  · exact .inr (.inr (List.mem_singleton.1 (holds_done.1 ht)))

/-- A block that works in any scope it is given, carried out in a new scope: nothing that it holds
comes from elsewhere. -/
theorem holds_inside {x : ScopeId → Expand (List Css.Node)} {snapshot : Snapshot} {w t : ScopeId}
    (hx : ∀ u, Works u (u :: K) (x u)) (hw : w ∈ K)
    (ht : Holds t (Script.create (.child w) fun u =>
      Expand.restoring snapshot (x u) >>= fun nodes => pure (Expanded.mk nodes u))) :
    t ∈ scopesIn snapshot ∨ t ∈ K := by
  cases ht with
  | creating ht => exact .inr (List.mem_singleton.1 ht ▸ hw)
  | create hu ht =>
    rcases holds_restoring ht with ht | ht | ht
    · exact .inr ((List.mem_cons.1 ((hx _).holds t ht)).resolve_left hu.symm)
    · exact .inl ht
    · exact absurd ht hu.symm

/-- A block that works in any scope it is given is good in a new one. The log that is gone back to
is that of another scope, which the block leaves alone. -/
theorem good_inside {x : ScopeId → Expand (List Css.Node)} {c w : ScopeId} {p : Progress}
    (hx : ∀ u, Works u (u :: K) (x u)) (hw : w ∈ K) (hc : c ∈ K) (hp : p.arena.Closed)
    (hK : ∀ t ∈ K, t < p.arena.size) :
    Good p.arena.size (Expand.restoring (p.arena.snapshot c .log) (x p.arena.size))
      { p with arena := (p.arena.push (.child w)).2 } := by
  have hK' : ∀ t ∈ p.arena.size :: K, t < (p.arena.push (.child w)).2.size := by
    intro t ht
    rw [Arena.size_push]
    rcases List.mem_cons.1 ht with rfl | ht
    · exact Nat.lt_succ_self _
    · exact Nat.lt_succ_of_lt (hK t ht)
  have hlog : (p.arena.push (.child w)).2.log c = p.arena.log c := by
    rw [Arena.log, Arena.scope_push, if_neg (Nat.ne_of_lt (hK c hc)), Arena.log]
  have hrun := (hx p.arena.size).good { p with arena := (p.arena.push (.child w)).2 }
    (hp.ready_push fun t ht => List.mem_singleton.1 ht ▸ hK w hw) hK'
  exact Expand.good_restoring hrun (hK' c (.tail _ hc)) (Nat.ne_of_lt (hK c hc)) hlog

/-- What is fetched is expanded in a new scope, and going back to the closure's log changes none of
the scopes that are given. -/
theorem expandFetched_works (hexpand : expand.Works) : Expander.Works (expandFetched expand) := by
  intro s K fetched hK
  have hw : fetched.working ∈ K := hK (by simp)
  have hc : fetched.closure ∈ K := hK (by simp)
  have hblock : ∀ u, Works u (u :: K) (expandBlock expand fetched.body u) := fun u =>
    expandBlock_works hexpand fetched.body (.head _)
  have holds : ∀ t, Holds t (expandFetched expand fetched) → t ∈ K := by
    intro t ht
    rw [expandFetched_eq] at ht
    cases ht with
    | marking => exact hc
    | mark hs ht => exact (holds_inside hblock hw ht).resolve_left hs
  refine ⟨holds, fun p hp hKp => ?_⟩
  have hback := good_inside hblock hw hc hp.toClosed hKp
  have hu : p.arena.size < (p.arena.push (.child fetched.working)).2.size := by
    rw [Arena.size_push]
    exact Nat.lt_succ_self _
  refine .mark hp.toClosed (fun t ht => hKp t (holds t ht)) (Good.of_fresh (t := p.arena.size)
    (.create rfl hp.toClosed (fun t ht => ?_) trivial (.push _ _ _)
      (hback.bind (fun nodes t ht => .inl ?_) fun nodes q _ hq hgrows _ => .done hq fun t ht => ?_))
    (Nat.le_refl _))
  · rcases holds_inside hblock hw ht with ht | ht
    · exact List.mem_singleton.1 ht ▸ hKp _ hc
    · exact hKp t ht
  · rw [List.mem_singleton.1 (holds_done.1 ht)]
    exact hu
  · rw [List.mem_singleton.1 ht]
    exact Nat.lt_of_lt_of_le hu hgrows.size

/-- Going one level deeper and coming back touches no scope, and the depth is what it was. -/
theorem Expand.works_nested {α : Type} [Carries α] {x : Expand α} (hx : Works s K x) :
    Works s K (Expand.nested x) := by
  have hback : ∀ (r : Except Error α) (t : ScopeId),
      Holds t (Script.level (· - 1) fun _ => Script.done r : Expand α) → t ∈ scopesIn r := by
    intro r t ht
    cases ht with
    | level ht => exact holds_done.1 ht
  have holds : ∀ t, Holds t (Expand.nested x) → t ∈ K := by
    intro t ht
    cases ht with
    | level ht =>
      rcases ht.andThen_cases with ht | ⟨r, hr, ht⟩
      · exact hx.holds t ht
      · exact absurd (hback r t ht) hr
  refine ⟨holds, fun p hp hK => ?_⟩
  have hgood := hx.good { p with depth := p.depth + 1 } hp hK
  have hlast : Safe p.arena.size
      (.level (· - 1) fun _ => .done (x.run { p with depth := p.depth + 1 }).1 : Expand α)
      (x.run { p with depth := p.depth + 1 }).2 :=
    .step ⟨hgood.grows.size, hgood.safe.closed,
      fun t ht => hgood.safe.result (hback _ t ht), trivial⟩ rfl
      (.done hgood.safe.closed hgood.grows.size fun t ht => hgood.safe.result ht)
  have hsteady : Steady s p.arena (Expand.nested x) p := by
    refine .step (.refl s _) rfl (hgood.steady.andThen (.step ?_ rfl (.done ?_)))
    all_goals exact hgood.grows.frame
  refine ⟨.step ⟨Nat.le_refl _, hp.toClosed, fun t ht => hK t (holds t ht),
    trivial⟩ rfl (hgood.safe.andThen (fun r t ht => .inr (hback r t ht)) hlast),
    hsteady, ?_, ?_⟩ <;> rw [Expand.nested, run_level, run_andThen]
  · exact hgood.grows
  · show (x.run { p with depth := p.depth + 1 }).2.depth - 1 = p.depth
    rw [hgood.depth]
    rfl

/-- The limit decides between two scripts that touch no scope of their own. -/
theorem Expand.works_deeper {α : Type} [Carries α] {x : Expand α} (hx : Works s K x) (limit : Nat)
    (error : Error) : Works s K (Expand.deeper limit error x) := by
  have hbranch : ∀ depth, Works s K (if limit ≤ depth then .done (.error error)
      else Expand.nested x : Expand α) := by
    intro depth
    split
    · exact .throw
    · exact Expand.works_nested hx
  have holds : ∀ t, Holds t (Expand.deeper limit error x) → t ∈ K := by
    intro t ht
    cases ht with
    | level ht => exact (hbranch _).holds t ht
  refine ⟨holds, fun p hp hK => ?_⟩
  have hgood := (hbranch p.depth).good p hp hK
  exact ⟨.step ⟨Nat.le_refl _, hp.toClosed, fun t ht => hK t (holds t ht),
    trivial⟩ rfl hgood.safe, .step (.refl s _) rfl hgood.steady, hgood.grows, hgood.depth⟩

/-- What a call reaches is expanded in scopes of its own, whatever number of levels is left. -/
theorem expandBody_works (limit left : Nat) : Expander.Works (expandBody limit left) := by
  induction left with
  | zero => exact fun _ _ _ _ => .throw
  | succ left ih =>
    exact fun s K fetched hK => Expand.works_deeper (expandFetched_works ih s K fetched hK) limit
      (.tooDeep fetched.name limit)

end LessSheet
