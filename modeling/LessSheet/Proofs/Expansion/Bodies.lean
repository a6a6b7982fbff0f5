import LessSheet.Proofs.Expansion.Export

/-! # The bodies of a call

A call settles on candidates (`Call.select`), expands their bodies one after the other (`ExpandsTo`)
and then brings into force in its own scope what they export. A variable that the caller has itself
is what it was. Any other has the value that the last body with a variable of that name gave it
last, as it is exported, or is what it was if no body has one (`Call.expand_exports`).

Until the call has ended the caller's log is what it was when the call began, and everything that
the bodies were to work in sees what it saw before them. So no body of a call sees what another one
exports.
-/

namespace LessSheet

open Script

/-! ## A call in two parts -/

/-- The candidates that a call settles on. There is no answer if the call cannot be meant for any
definition. -/
def Call.select (call : Call) (caller : ScopeId) : Expand (Option (List Selected)) := do
  let args ← evalArguments caller call.args
  let candidates ← Expand.onScopes (findMixins caller (some args.length) call.path)
  if candidates.isEmpty then
    let others ← Expand.onScopes (findMixins caller none call.path)
    Expand.report [unmatchedProblem call args.length others]
    return none
  else
    let trials ← Expand.onScopes (tryAll call.displayName args caller candidates)
    Expand.report trials.problems.eraseDups
    return some (choose trials.accepted)

/-- Expands the bodies that a call has settled on and brings into force what they export. -/
def Call.carryOut (call : Call) (expand : Expander) (caller : ScopeId) :
    Option (List Selected) → Expand (List Css.Node)
  | none => return []
  | some selected => do
    let (nodes, exports) ← expandSelected expand caller selected
    Expand.onScopes (commitExports caller exports)
    return call.finish nodes

section
variable {expand : Expander} {caller : ScopeId} {p q : Progress}

/-- A call settles on candidates and carries them out. -/
theorem Call.expand_eq (call : Call) (expand : Expander) (caller : ScopeId) :
    call.expand expand caller = call.select caller >>= call.carryOut expand caller := by
  simp only [Call.expand, Call.select, bind_assoc]
  congr 1
  funext args
  congr 1
  funext candidates
  split
  · simp only [bind_assoc, pure_bind]
    rfl
  · simp only [bind_assoc, pure_bind]
    rfl

/-- Evaluating the arguments, finding the candidates and trying them keeps the contract. -/
theorem Call.select_works (call : Call) {s : ScopeId} {K : List ScopeId} (hcaller : caller ∈ K) :
    Works s K (call.select caller) := by
  refine (evalArguments_works hcaller call.args).bind fun args => ?_
  refine (Expand.works_onScopes (findMixins_works _ call.path (by simp [hcaller]))).bind
    fun candidates => ?_
  split
  · refine (Expand.works_onScopes (findMixins_works none call.path (by simp [hcaller]))).bind
      fun others => ?_
    exact (Expand.works_report _).bind fun _ => .pure (List.nil_subset _)
  · refine (Expand.works_onScopes (tryAll_works call.displayName (by simp) (by simp [hcaller])
      (by simp))).bind fun trials => ?_
    refine (Expand.works_report trials.problems.eraseDups).bind fun _ => .pure fun t ht => ?_
    have := choose_scopes trials.accepted (by simpa using ht)
    simp [this]

/-- Settling on candidates takes place in scopes of its own. -/
theorem Call.select_after {call : Call} {selected : Option (List Selected)} (hp : p.arena.Closed)
    (hcaller : caller < p.arena.size) (hrun : (call.select caller).run p = (.ok selected, q)) :
    q.arena.Closed ∧ Arena.Grows p.arena.size p.arena q.arena ∧
      ∀ t ∈ scopesIn (selected.getD []), t < q.arena.size := by
  have hworks : Works p.arena.size [caller] (call.select caller) := call.select_works (.head _)
  obtain ⟨hready, hgrows, hselected⟩ := hworks.after (hp.ready (Nat.le_refl _))
    (List.forall_mem_singleton.2 hcaller) hrun
  refine ⟨hready.toClosed, hgrows, fun t ht => hselected t ?_⟩
  cases selected with
  | none => cases ht
  | some selected => exact List.mem_append_left _ ht

/-! ## Bodies one after the other -/

/-- A body that has been expanded: its nodes, the log that its scope ended with, and the scope with
what it exports. -/
structure Body where
  nodes : List Css.Node
  log : List Entry
  exports : ScopeId

/-- `ExpandsTo expand caller p selected bodies q`: from `p`, the bodies of the candidates are
expanded one after the other, and what each exports is collected, until the state is `q`. -/
inductive ExpandsTo (expand : Expander) (caller : ScopeId) :
    Progress → List Selected → List Body → Progress → Prop where
  | nil (p : Progress) : ExpandsTo expand caller p [] [] p
  | cons {p q r n : Progress} {x : Selected} {rest : List Selected} {expanded : Expanded}
    {exports : ScopeId} {bodies : List Body} :
    (expand x.fetched).run p = (.ok expanded, q) →
    (collectExports true caller expanded.scope).run q = (.ok exports, r) →
    ExpandsTo expand caller r rest bodies n →
    ExpandsTo expand caller p (x :: rest)
      (⟨expanded.nodes, q.arena.log expanded.scope, exports⟩ :: bodies) n

/-- Candidates that are expanded without an error are expanded to bodies. -/
theorem expandsTo_of_run {selected : List Selected} {nodes : List Css.Node}
    {exports : List ScopeId}
    (h : (expandSelected expand caller selected).run p = (.ok (nodes, exports), q)) :
    ∃ bodies, ExpandsTo expand caller p selected bodies q ∧ nodes = bodies.flatMap Body.nodes ∧
      exports = bodies.map Body.exports := by
  induction selected generalizing p nodes exports with
  | nil =>
    cases h
    exact ⟨[], .nil _, rfl, rfl⟩
  | cons x rest ih =>
    obtain ⟨expanded, m, hm, h⟩ := ok_of_run_bind h
    obtain ⟨e, r, hr, h⟩ := ok_of_run_bind h
    obtain ⟨⟨more, others⟩, n, hn, h⟩ := ok_of_run_bind h
    cases h
    obtain ⟨bodies, hbodies, rfl, rfl⟩ := ih hn
    exact ⟨_, .cons hm (ok_of_run_mapError hr) hbodies, rfl, rfl⟩

/-- What a body exports is there, and it is what the body's variables were last. -/
structure Body.Exports (caller : ScopeId) (a : Arena) (body : Body) : Prop where
  collected : body.exports < a.size
  inRange : ∀ name v, Arena.latest name body.log = some v → ∀ t ∈ scopesIn v, t < a.size
  value : ∀ name, Option.Rel (a.Exported caller) (Arena.latest name body.log)
    (a.ownValue? body.exports name)

/-- Exports that have been collected are what they are also after work in other scopes. -/
theorem Body.Exports.grows {a b : Arena} {body : Body} (h : body.Exports caller a) (ha : a.Closed)
    (hb : b.Closed) (hgrows : Arena.Grows a.size a b) : body.Exports caller b := by
  have hroot : (a.scope a.size).link = .root := by rw [Arena.scope_of_size_le (Nat.le_refl _)]
  refine ⟨Nat.lt_of_lt_of_le h.collected hgrows.size,
    fun name v hv t ht => Nat.lt_of_lt_of_le (h.inRange name v hv t ht) hgrows.size, fun name => ?_⟩
  rw [Arena.ownValue?_congr (hgrows.scope_eq (Nat.le_refl _) h.collected)]
  exact rel_imp (h.value name) fun v w hv hvw => hvw.grows ha hb (h.inRange name v hv) hgrows hroot

/-- Bodies are expanded in scopes of their own, and each exports what its variables were last. -/
theorem ExpandsTo.exports {selected : List Selected} {bodies : List Body}
    (h : ExpandsTo expand caller p selected bodies q) (hexpand : expand.Works)
    (hp : p.arena.Closed) (hcaller : caller < p.arena.size)
    (hselected : ∀ t ∈ scopesIn selected, t < p.arena.size) :
    q.arena.Closed ∧ Arena.Grows p.arena.size p.arena q.arena ∧
      ∀ body ∈ bodies, body.Exports caller q.arena := by
  induction h with
  | nil p => exact ⟨hp, .refl _ _, fun _ h => nomatch h⟩
  | @cons p q r n x rest expanded exports bodies hq hr _ ih =>
    rw [scopesIn_cons, List.forall_mem_append] at hselected
    -- the body itself
    have hfetched := hexpand p.arena.size (scopesIn x) x.fetched x.fetched_scopes
    obtain ⟨hqready, hpq, hscope⟩ := hfetched.after (hp.ready (Nat.le_refl _)) hselected.1 hq
    have hbody : expanded.scope < q.arena.size := hscope _ (.head _)
    have hcallerq : caller < q.arena.size := Nat.lt_of_lt_of_le hcaller hpq.size
    -- what it exports
    have hcollect : Works q.arena.size [caller, expanded.scope]
        (collectExports true caller expanded.scope) := collectExports_works true (by simp) (by simp)
    obtain ⟨hrready, hqr, hexports⟩ := hcollect.after (hqready.toClosed.ready (Nat.le_refl _))
      (List.forall_mem_cons.2 ⟨hcallerq, List.forall_mem_singleton.2 hbody⟩) hr
    have hcurrent : (Body.mk expanded.nodes (q.arena.log expanded.scope) exports).Exports caller
        r.arena :=
      ⟨hexports _ (.head _),
        fun name v hv t ht =>
          Nat.lt_of_lt_of_le (hqready.toClosed.ownValue?_inRange hv ht) hqr.size,
        collectExports_ownValue hqready.toClosed hcallerq hbody hr⟩
    have hpr : Arena.Grows p.arena.size p.arena r.arena := hpq.trans (hqr.of_fresh (Nat.le_refl _))
    -- the bodies after it
    obtain ⟨hn, hrn, hothers⟩ := ih hrready.toClosed (Nat.lt_of_lt_of_le hcaller hpr.size)
      fun t ht => Nat.lt_of_lt_of_le (hselected.2 t ht) hpr.size
    exact ⟨hn, hpr.trans (hrn.of_fresh (Nat.le_refl _)), List.forall_mem_cons.2
      ⟨hcurrent.grows hrready.toClosed hn hrn, hothers⟩⟩

/-! ## What the caller sees in the end -/

/-- The value that the last body with such a variable gave it last. -/
def Body.lastValue (bodies : List Body) (name : String) : Option Value :=
  bodies.reverse.findSome? fun body => Arena.latest name body.log

/-- What bodies export for a variable is the last value it has in any of them. -/
theorem Body.latest_exports {a : Arena} {bodies : List Body}
    (h : ∀ body ∈ bodies, body.Exports caller a) (name : String) :
    Option.Rel (a.Exported caller) (Body.lastValue bodies name)
      (Arena.latest name ((bodies.map Body.exports).flatMap a.log)) := by
  induction bodies with
  | nil => exact .none
  | cons body rest ih =>
    rw [Body.lastValue, List.reverse_cons, List.findSome?_append, List.findSome?_singleton,
      List.map_cons, List.flatMap_cons, Arena.latest_append]
    exact rel_or (ih fun b hb => h b (.tail _ hb)) ((h body (.head _)).value name)

/-- The last value of a variable in bodies mentions scopes that are there. -/
theorem Body.lastValue_inRange {a : Arena} {bodies : List Body}
    (h : ∀ body ∈ bodies, body.Exports caller a) {name : String} {v : Value}
    (hv : Body.lastValue bodies name = some v) {t : ScopeId} (ht : t ∈ scopesIn v) :
    t < a.size := by
  obtain ⟨body, hbody, hv⟩ := List.exists_of_findSome?_eq_some hv
  exact (h body (List.mem_reverse.1 hbody)).inRange name v hv t ht

/-- What the caller sees of a variable once the exports of bodies are in force. -/
theorem Body.lookup_commits {a b : Arena} {bodies : List Body} (ha : a.Closed)
    (h : ∀ body ∈ bodies, body.Exports caller a)
    (hcommits : Arena.Commits caller ((bodies.map Body.exports).flatMap a.log) a b)
    (name : String) :
    ((a.ownValue? caller name).isSome → b.lookup caller name = a.lookup caller name) ∧
    (a.ownValue? caller name = none →
      (∀ v, Body.lastValue bodies name = some v →
        ∃ w, b.lookup caller name = some w ∧ b.Exported caller v w) ∧
      (Body.lastValue bodies name = none → b.lookup caller name = a.lookup caller name)) := by
  have hlookup := hcommits.lookup_eq ha.ordered name
  have hrel := Body.latest_exports h name
  generalize Arena.latest name ((bodies.map Body.exports).flatMap a.log) = exported at hlookup hrel
  refine ⟨fun hown => ?_, fun hown => ⟨fun v hv => ?_, fun hnone => ?_⟩⟩
  · rw [hlookup, if_pos hown]
  · rw [hown] at hlookup
    rw [hv] at hrel
    cases hrel with
    | some hvw => exact ⟨_, hlookup, hvw.commits ha (fun t => Body.lastValue_inRange h hv) hcommits⟩
  · rw [hown] at hlookup
    rw [hnone] at hrel
    cases hrel
    exact hlookup

/-! ## Whole calls -/

/-- A call that comes to nodes has settled on candidates, expanded their bodies, and brought into
force what they export. -/
theorem Call.expand_run {call : Call} {nodes : List Css.Node} (hp : p.arena.Closed)
    (hcaller : caller < p.arena.size) (hexpand : expand.Works)
    (hrun : (call.expand expand caller).run p = (.ok nodes, q)) :
    ∃ selected m bodies n, (call.select caller).run p = (.ok selected, m) ∧
      ExpandsTo expand caller m (selected.getD []) bodies n ∧
      nodes = (selected.map fun _ => call.finish (bodies.flatMap Body.nodes)).getD [] ∧
      n.arena.Closed ∧ Arena.Grows p.arena.size p.arena n.arena ∧
      (∀ body ∈ bodies, body.Exports caller n.arena) ∧
      Arena.Commits caller ((bodies.map Body.exports).flatMap n.arena.log) n.arena q.arena := by
  rw [Call.expand_eq] at hrun
  obtain ⟨selected, m, hm, hrun⟩ := ok_of_run_bind hrun
  obtain ⟨hmclosed, hpm, hselected⟩ := Call.select_after hp hcaller hm
  have hcallerm : caller < m.arena.size := Nat.lt_of_lt_of_le hcaller hpm.size
  cases selected with
  | none =>
    cases hrun
    exact ⟨none, q, [], q, hm, .nil q, rfl, hmclosed, hpm, nofun, .refl _ _⟩
  | some selected =>
    obtain ⟨⟨nodes, exports⟩, n, hn, hrun⟩ := ok_of_run_bind hrun
    obtain ⟨_, r, hr, hrun⟩ := ok_of_run_bind hrun
    cases hrun
    obtain ⟨bodies, hbodies, rfl, rfl⟩ := expandsTo_of_run hn
    obtain ⟨hclosed, hmn, hexports⟩ := hbodies.exports hexpand hmclosed hcallerm hselected
    obtain ⟨b, hb, hcommits⟩ := commitExports_run (bodies.map Body.exports)
      (Nat.lt_of_lt_of_le hcallerm hmn.size)
    rw [ok_of_run_mapError hr] at hb
    cases hb
    exact ⟨some selected, m, bodies, n, hm, hbodies, rfl, hclosed,
      hpm.trans (hmn.of_fresh (Nat.le_refl _)), hexports, hcommits⟩

/-- Until exports have come into force in the caller's scope, its log is what it was. -/
theorem commitExports_before_end {exports : List ScopeId} {nodes : List Css.Node}
    {z : Expand (List Css.Node)}
    (h : Reaches (Expand.onScopes (commitExports caller exports) >>= fun _ => pure nodes) p z q)
    (hz : ∀ e, z ≠ .done e) : q.arena.log caller = p.arena.log caller := by
  obtain ⟨x, hx, hxe⟩ := h.of_andThen_done (fun r => by cases r <;> exact ⟨_, rfl⟩) hz
  obtain ⟨w, hw, hwe⟩ := hx.of_andThen_done (fun _ => ⟨_, rfl⟩) hxe
  rcases commitExports_reaches hw with ⟨e, rfl⟩ | hstages
  · exact absurd rfl (hwe e)
  · exact hstages.log

/-- While the bodies of a call are expanded, the scopes that were there before them are as they
were. -/
theorem expandSelected_reaches (hexpand : expand.Works) {selected : List Selected}
    {z : Expand (List Css.Node × List ScopeId)} (hp : p.arena.Closed)
    (hcaller : caller < p.arena.size) (hselected : ∀ t ∈ scopesIn selected, t < p.arena.size)
    (h : Reaches (expandSelected expand caller selected) p z q) :
    q.arena.Closed ∧ ∀ t < p.arena.size, q.arena.scope t = p.arena.scope t := by
  have hworks : Works p.arena.size (caller :: scopesIn selected)
      (expandSelected expand caller selected) :=
    expandSelected_works hexpand (.head _) (List.subset_cons_self _ _)
  have hgood := hworks.good p (hp.ready (Nat.le_refl _))
    (List.forall_mem_cons.2 ⟨hcaller, hselected⟩)
  exact ⟨(hgood.safe z q h).closed, fun t ht => hgood.steady z q h t ht (Nat.ne_of_lt ht)⟩

/-- Until what a call has settled on is carried out, the caller's log is what it was. -/
theorem Call.carryOut_before_end {call : Call} {selected : Option (List Selected)}
    {z : Expand (List Css.Node)} (hexpand : expand.Works) (hp : p.arena.Closed)
    (hcaller : caller < p.arena.size) (hselected : ∀ t ∈ scopesIn selected, t < p.arena.size)
    (h : Reaches (call.carryOut expand caller selected) p z q) (hz : ∀ e, z ≠ .done e) :
    q.arena.log caller = p.arena.log caller := by
  cases selected with
  | none => exact absurd h.of_done.1 (hz _)
  | some selected =>
    rw [scopesIn_some] at hselected
    have hbodies : ∀ {x r}, Reaches (expandSelected expand caller selected) p x r →
        r.arena.log caller = p.arena.log caller := fun hx =>
      congrArg Scope.log ((expandSelected_reaches hexpand hp hcaller hselected hx).2 caller hcaller)
    rcases Reaches.andThen_cases h with ⟨x, hx, -⟩ | h
    · exact hbodies hx
    have hend := hbodies (reaches_done (expandSelected expand caller selected) p)
    cases hr : ((expandSelected expand caller selected).run p).1 with
    | error e =>
      rw [hr] at h
      exact absurd h.of_done.1 (hz _)
    | ok result =>
      rw [hr] at h
      exact (commitExports_before_end h hz).trans hend

/-- Until a call has ended, the caller's log is what it was. -/
theorem Call.expand_before_end {call : Call} {z : Expand (List Css.Node)} (hexpand : expand.Works)
    (hp : p.arena.Closed) (hcaller : caller < p.arena.size)
    (h : Reaches (call.expand expand caller) p z q) (hz : ∀ e, z ≠ .done e) :
    q.arena.log caller = p.arena.log caller := by
  have hselect : Works p.arena.size [caller] (call.select caller) := call.select_works (.head _)
  have hgood := hselect.good p (hp.ready (Nat.le_refl _)) (List.forall_mem_singleton.2 hcaller)
  have hlog : ∀ {x r}, Reaches (call.select caller) p x r →
      r.arena.log caller = p.arena.log caller := fun hx =>
    congrArg Scope.log (hgood.steady _ _ hx caller hcaller (Nat.ne_of_lt hcaller))
  rw [Call.expand_eq] at h
  rcases Reaches.andThen_cases h with ⟨x, hx, -⟩ | h
  · exact hlog hx
  have hend := hlog (reaches_done (call.select caller) p)
  have hresult := fun t => hgood.safe.result (t := t)
  cases hr : ((call.select caller).run p).1 with
  | error e =>
    rw [hr] at h
    exact absurd h.of_done.1 (hz _)
  | ok selected =>
    rw [hr] at h hresult
    exact (Call.carryOut_before_end hexpand hgood.safe.closed
      (Nat.lt_of_lt_of_le hcaller hgood.grows.size) hresult h hz).trans hend

end

/-- Wherever the expansion of a stylesheet has got: if a call in any scope comes to nodes, these are
the nodes of the bodies of the candidates that it settles on, and of every variable the caller then
sees the following. If the caller had it itself, it is what it was. If not, and some body has it at
its end, it is the value that the last of these bodies gave it last, as it is exported. If no body
has it, it is what it was.

Until the call has ended, the caller's log is what it was when the call began. While the bodies are
expanded, the scopes that were there before, those that the bodies work in among them, see the
variables and mixins that they saw before. -/
theorem Call.expand_exports (sheet : Stylesheet) (limit left : Nat) {y : Expand (List Css.Node)}
    {p q : Progress} {caller : ScopeId} {nodes : List Css.Node}
    (h : Reaches (sheet.script limit) Progress.start y p) (hcaller : caller < p.arena.size)
    (call : Call) (hrun : (call.expand (expandBody limit left) caller).run p = (.ok nodes, q)) :
    ∃ selected m bodies n,
      ((call.select caller).run p = (.ok selected, m) ∧
        ExpandsTo (expandBody limit left) caller m (selected.getD []) bodies n ∧
        nodes = (selected.map fun _ => call.finish (bodies.flatMap Body.nodes)).getD []) ∧
      (∀ name,
        ((p.arena.ownValue? caller name).isSome →
          q.arena.lookup caller name = p.arena.lookup caller name) ∧
        (p.arena.ownValue? caller name = none →
          (∀ v, Body.lastValue bodies name = some v →
            ∃ w, q.arena.lookup caller name = some w ∧ q.arena.Exported caller v w) ∧
          (Body.lastValue bodies name = none →
            q.arena.lookup caller name = p.arena.lookup caller name))) ∧
      (∀ z r, Reaches (call.expand (expandBody limit left) caller) p z r → (∀ e, z ≠ .done e) →
        r.arena.log caller = p.arena.log caller) ∧
      ∀ z r, Reaches (expandSelected (expandBody limit left) caller (selected.getD [])) m z r →
        ∀ t < m.arena.size, (∀ name, r.arena.lookup t name = m.arena.lookup t name) ∧
          ∀ name arity, r.arena.lookupMixins t name arity = m.arena.lookupMixins t name arity := by
  have hp : p.arena.Closed := (sheet.script_safe limit y p h).closed
  have hexpand := expandBody_works limit left
  obtain ⟨selected, m, bodies, n, hm, hbodies, hnodes, hn, hpn, hexports, hcommits⟩ :=
    Call.expand_run hp hcaller hexpand hrun
  obtain ⟨hmclosed, hpm, hselected⟩ := Call.select_after hp hcaller hm
  -- before the commit, all that the caller sees is as it was
  have hscope : ∀ t ≤ caller, n.arena.scope t = p.arena.scope t := fun t ht =>
    hpn.scope_eq (Nat.le_refl _) (Nat.lt_of_le_of_lt ht hcaller)
  refine ⟨selected, m, bodies, n, ⟨hm, hbodies, hnodes⟩, fun name => ?_, fun z r hz =>
    Call.expand_before_end hexpand hp hcaller hz, fun z r hz t ht => ?_⟩
  · have hlaw := Body.lookup_commits hn hexports hcommits name
    rwa [Arena.ownValue?_congr (hscope caller (Nat.le_refl _)) name,
      Arena.lookup_congr hp.ordered hn.ordered hscope name] at hlaw
  · obtain ⟨hr, hsame⟩ := expandSelected_reaches hexpand hmclosed
      (Nat.lt_of_lt_of_le hcaller hpm.size) hselected hz
    have hscopes : ∀ u ≤ t, r.arena.scope u = m.arena.scope u := fun u hu =>
      hsame u (Nat.lt_of_le_of_lt hu ht)
    exact ⟨Arena.lookup_congr hmclosed.ordered hr.ordered hscopes,
      Arena.lookupMixins_congr hmclosed.ordered hr.ordered hscopes⟩

/-- Two definitions of one name that both give a variable a value, and the second another one too,
which the caller has itself. -/
theorem Call.expand_exports_twice :
    let sheet : Stylesheet := ⟨[], [
      .mixin ⟨0, 1⟩ ⟨".m", [], none, [.assign "a" (.keyword "x")]⟩,
      .mixin ⟨0, 2⟩ ⟨".m", [], none, [.assign "a" (.keyword "y"), .assign "b" (.keyword "y")]⟩,
      .assign "b" (.keyword "z")]⟩
    let p := ((sheet.script 1).run Progress.start).2
    let x := (Call.mk [".m"] [] false {}).expand (expandBody 1 1) Arena.root
    ∃ nodes q, x.run p = (.ok nodes, q) ∧ (p.arena.ownValue? Arena.root "b").isSome ∧
      q.arena.lookup Arena.root "b" = p.arena.lookup Arena.root "b" ∧
      (q.arena.lookup Arena.root "a").map Value.text = some "y" := by
  intro sheet p x
  have hroot : Arena.root < p.arena.size := (sheet.script_safe 1).floor
  have hreach := reaches_done (sheet.script 1) Progress.start
  have hok : (x.run p).1.isOk := by decide +kernel
  have hown : (p.arena.ownValue? Arena.root "b").isSome := by decide +kernel
  have ha : ((x.run p).2.arena.lookup Arena.root "a").map Value.text = some "y" := by
    decide +kernel
  change Reaches _ _ _ p at hreach
  -- from here on the state need not be computed
  clear_value p
  cases hx : x.run p with
  | mk r q =>
    rw [hx] at hok ha
    cases r with
    | error e => cases hok
    | ok nodes =>
      obtain ⟨selected, m, bodies, n, -, hlaw, -⟩ := Call.expand_exports sheet 1 1 hreach hroot
        ⟨[".m"], [], false, {}⟩ hx
      exact ⟨nodes, q, rfl, hown, (hlaw "b").1 hown, ha⟩

end LessSheet
