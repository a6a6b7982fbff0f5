import LessSheet.Proofs.Expansion.Bodies
import LessSheet.Proofs.Expansion.Detached
import LessSheet.Proofs.Scope.Origins

/-! # Definitions that come with a call

A body registers its mixins in a scope of its own, and a call brings what the body defines into the
scope of its caller (`Expander.Brings`). Of the registrations of one mixin definition only the last
is a candidate there, however often a call has brought it: its origin is where it is written. A rule
that can be called has an origin in the scope and the log that it was registered in, which is new
each time a body is expanded (`Recent`).

So calls in a row leave as many candidates of a name as the first one exactly if the others bring no
rule of that name and no definition that is new (`candidates_of_callsInRow`). Otherwise there is one
more candidate for each rule and call (`imported_rule_multiplies`).
-/

namespace LessSheet

open Script

/-! ## Registering the mixins of a block -/

/-- The registrations that the statements of a block make in a scope whose log has `position`
entries. -/
def registrationsOf (scope : ScopeId) : (position : Nat) → List Item → List Registration
  | _, [] => []
  | position, item :: rest =>
    match item.registration? scope position with
    | some r => r :: registrationsOf scope (position + 1) rest
    | none => registrationsOf scope position rest

section
variable {s : ScopeId} {p q : Progress}

/-- A statement is registered with an origin of its own. -/
theorem Arena.Registers.register {a : Arena} {item : Item} {r : Registration} (hs : s < a.size)
    (h : item.registration? s (a.log s).length = some r) :
    Arena.Registers s a (a.record s (.mixin r)) [.mixin r] := by
  have hlog : (a.record s (.mixin r)).log s = a.log s ++ [.mixin r] := by
    rw [Arena.log_record, if_pos ⟨rfl, hs⟩]
  have horigin : (∃ site, r.origin = .written site) ∨ r.origin = .hoisted s (a.log s).length := by
    cases item with
    | mixin site m =>
      cases h
      exact .inl ⟨site, rfl⟩
    | rule rule =>
      obtain ⟨name, -, rfl⟩ := Option.map_eq_some_iff.1 h
      exact .inr rfl
    | _ => cases h
  refine ⟨Nat.le_of_eq (Arena.size_record a s _).symm, hlog, ?_, ?_, List.pairwise_singleton _ _⟩
  · refine List.forall_mem_singleton.2 ?_
    obtain ⟨site, ho⟩ | ho := horigin
    · rw [ho]
      trivial
    · rw [ho]
      exact .inr ⟨rfl, Nat.le_refl _⟩
  · refine List.forall_mem_singleton.2 ?_
    obtain ⟨site, ho⟩ | ho := horigin
    · rw [ho]
      trivial
    · rw [ho]
      refine ⟨by rwa [Arena.size_record], fun _ => ?_⟩
      rw [hlog, List.length_append]
      exact Nat.lt_succ_self _

/-- The mixins of a block are registered in order. -/
theorem hoist_registers (hs : s < p.arena.size) (body : List Item) :
    ∃ q, (hoist s body).run p = (.ok (), q) ∧ Arena.Registers s p.arena q.arena
      ((registrationsOf s (p.arena.log s).length body).map .mixin) := by
  induction body generalizing p with
  | nil => exact ⟨p, rfl, .nothing (Nat.le_refl _) rfl⟩
  | cons item rest ih =>
    have hread : (Scoped.observe [s] fun a => .ok (item.registration? s (a.log s).length)).run p =
      (.ok (item.registration? s (p.arena.log s).length), p) := rfl
    rw [hoist, hoistItem, registrationsOf]
    cases hr : item.registration? s (p.arena.log s).length with
    | none =>
      obtain ⟨q, hq, hrest⟩ := ih hs
      rw [hr] at hread
      refine ⟨q, ?_, hrest⟩
      rw [run_bind_ok (run_bind_ok hread), hq]
    | some r =>
      have hregister := Arena.Registers.register hs hr
      have hlength : ((p.arena.record s (.mixin r)).log s).length = (p.arena.log s).length + 1 := by
        rw [hregister.log, List.length_append]
        rfl
      obtain ⟨q, hq, hrest⟩ := ih (p := { p with arena := p.arena.record s (.mixin r) })
        (Nat.lt_of_lt_of_le hs hregister.size)
      rw [hr] at hread
      refine ⟨q, ?_, ?_⟩
      · rw [run_bind_ok (run_bind_ok hread), ← hq]
        rfl
      · rw [hlength] at hrest
        exact hregister.trans hrest

/-! ## Bodies -/

/-- A statement that is a call. -/
def Item.isCall : Item → Bool
  | .call _ => true
  | .detachedCall _ _ => true
  | _ => false

/-- The rules called by their selectors among registrations were registered in scopes from `n` up to
`k`, and each comes once. -/
structure Recent (n k : Nat) (rs : List Registration) : Prop where
  range : ∀ r ∈ rs, ∀ s position, r.origin = .hoisted s position → n ≤ s ∧ s < k
  distinct : rs.Pairwise fun r q => r.isPlain → r.origin ≠ q.origin

/-- No registrations at all are recent in any range. -/
theorem Recent.nil (n k : Nat) : Recent n k [] := ⟨nofun, .nil⟩

/-- What came first and what came after it. -/
theorem Recent.append {n k l : Nat} {rs qs : List Registration} (h₁ : Recent n k rs)
    (h₂ : Recent k l qs) (hnk : n ≤ k) (hkl : k ≤ l) : Recent n l (rs ++ qs) := by
  constructor
  · intro r hr s position ho
    rcases List.mem_append.1 hr with hr | hr
    · obtain ⟨hn, hk⟩ := h₁.range r hr s position ho
      exact ⟨hn, Nat.lt_of_lt_of_le hk hkl⟩
    · obtain ⟨hk, hl⟩ := h₂.range r hr s position ho
      exact ⟨Nat.le_trans hnk hk, hl⟩
  · refine List.pairwise_append.2 ⟨h₁.distinct, h₂.distinct, fun r hr q hq hplain heq => ?_⟩
    rw [Registration.isPlain] at hplain
    cases ho : r.origin with
    | written site =>
      rw [ho] at hplain
      cases hplain
    | hoisted s position =>
      have hk := (h₁.range r hr s position ho).2
      have hk' := (h₂.range q hq s position (heq ▸ ho)).1
      exact absurd hk (Nat.not_lt_of_le hk')

/-- Registrations within a range of scopes are within every wider one. -/
theorem Recent.mono {n n' k k' : Nat} {rs : List Registration} (h : Recent n k rs) (hn : n' ≤ n)
    (hk : k ≤ k') : Recent n' k' rs :=
  ⟨fun r hr s position ho => ⟨Nat.le_trans hn (h.range r hr s position ho).1,
    Nat.lt_of_lt_of_le (h.range r hr s position ho).2 hk⟩, h.distinct⟩

/-- `Brings body n k rs`: expanding `body`, which adds the scopes from `n` up to `k`, has left `rs`
registered in the scope of the body. These are the definitions of the body itself, and what came
with its calls. -/
structure Brings (body : List Item) (n k : Nat) (rs : List Registration) : Prop where
  recent : Recent n k rs
  own : ∃ more, rs = registrationsOf n 0 body ++ more ∧ (body.all (!·.isCall) → more = [])

/-- What is known of the recursion through calls. -/
def Expander.Brings (expand : Expander) : Prop :=
  ∀ (fetched : Fetched) (p q : Progress) (expanded : Expanded), p.arena.Closed →
    (∀ t ∈ scopesIn fetched, t < p.arena.size) → (expand fetched).run p = (.ok expanded, q) →
    LessSheet.Brings fetched.body p.arena.size q.arena.size (q.arena.mixins expanded.scope)

/-- Entries that are exported are committed with all registrations. -/
theorem registrationsIn_filter_shadows (log entries : List Entry) :
    registrationsIn (entries.filter fun e => !Arena.shadows log e) = registrationsIn entries := by
  rw [registrationsIn, registrationsIn, List.filterMap_filter]
  refine congrArg (List.filterMap · entries) (funext fun e => ?_)
  cases e with
  | binding name v => cases Arena.shadows log (.binding name v) <;> rfl
  | mixin r => rfl

/-- Registrations that are committed to a scope come to its log. -/
theorem Arena.Commits.registers {a b c : Arena} {entries : List Entry} (hs : s < a.size)
    (hab : Arena.Grows a.size a b) (hbc : Arena.Commits s entries b c)
    (h : Recent a.size b.size (registrationsIn entries)) :
    ∃ new, registrationsIn new = registrationsIn entries ∧ Arena.Registers s a c new := by
  have hlog : b.log s = a.log s := congrArg Scope.log (hab.scope_eq (Nat.le_refl _) hs)
  have hregistrations := registrationsIn_filter_shadows (b.log s) entries
  refine ⟨_, hregistrations, ?_, hlog ▸ hbc.log, ?_, ?_, ?_⟩
  · rw [hbc.size]
    exact hab.size
  · rw [hregistrations]
    intro r hr
    cases ho : r.origin with
    | written site => trivial
    | hoisted t position => exact .inl (h.range r hr t position ho).1
  · rw [hregistrations]
    intro r hr
    cases ho : r.origin with
    | written site => trivial
    | hoisted t position =>
      obtain ⟨hn, hk⟩ := h.range r hr t position ho
      refine ⟨hbc.size ▸ hk, fun ht => ?_⟩
      exact absurd hs (Nat.not_lt_of_le (ht ▸ hn))
  · rw [hregistrations]
    exact h.distinct

variable {expand : Expander} {caller : ScopeId} {nodes : List Css.Node}

/-- The exports of a body have its registrations. -/
theorem collectExports_registrations (withVariables : Bool) {body exports : ScopeId}
    (hp : p.arena.Closed) (hcaller : caller < p.arena.size) (hbody : body < p.arena.size)
    (h : (collectExports withVariables caller body).run p = (.ok exports, q)) :
    registrationsIn (q.arena.log exports) = p.arena.mixins body := by
  obtain ⟨exported, m, hm, hlog, -⟩ := collectExports_run withVariables hp hcaller hbody
  rw [hm] at h
  cases h
  have hbindings : registrationsIn (Arena.bindings exported) = [] := by
    rw [registrationsIn, Arena.bindings, List.filterMap_map]
    exact List.filterMap_eq_nil_iff.2 fun _ _ => rfl
  rw [hlog, registrationsIn_append, hbindings, registrationsIn_mixins]
  rfl

/-- Expanding a body and collecting what it exports: the exports have the definitions that the body
brings. -/
theorem Expander.Brings.exports (hbrings : expand.Brings) (hexpand : expand.Works)
    (withVariables : Bool) {fetched : Fetched} {expanded : Expanded} {exports : ScopeId}
    {r : Progress} (hp : p.arena.Closed) (hcaller : caller < p.arena.size)
    (hfetched : ∀ t ∈ scopesIn fetched, t < p.arena.size)
    (hq : (expand fetched).run p = (.ok expanded, q))
    (hr : (collectExports withVariables caller expanded.scope).run q = (.ok exports, r)) :
    r.arena.Closed ∧ Arena.Grows p.arena.size p.arena r.arena ∧ exports < r.arena.size ∧
      LessSheet.Brings fetched.body p.arena.size r.arena.size
        (registrationsIn (r.arena.log exports)) := by
  obtain ⟨hqready, hpq, hscope⟩ := (hexpand p.arena.size _ fetched (List.Subset.refl _)).after
    (hp.ready (Nat.le_refl _)) hfetched hq
  have hbody : expanded.scope < q.arena.size := hscope _ (.head _)
  have hcallerq : caller < q.arena.size := Nat.lt_of_lt_of_le hcaller hpq.size
  have hcollect : Script.Works q.arena.size [caller, expanded.scope]
      (collectExports withVariables caller expanded.scope) :=
    collectExports_works withVariables (by simp) (by simp)
  obtain ⟨hrready, hqr, hexports⟩ := hcollect.after (hqready.toClosed.ready (Nat.le_refl _))
    (List.forall_mem_cons.2 ⟨hcallerq, List.forall_mem_singleton.2 hbody⟩) hr
  have hbrought := hbrings fetched p q expanded hp hfetched hq
  rw [collectExports_registrations withVariables hqready.toClosed hcallerq hbody hr]
  exact ⟨hrready.toClosed, hpq.trans (hqr.of_fresh (Nat.le_refl _)), hexports _ (.head _),
    hbrought.recent.mono (Nat.le_refl _) hqr.size, hbrought.own⟩

/-- The definitions that the bodies of a call export: those of one body after those of the other,
and each body's own. -/
theorem ExpandsTo.brings {selected : List Selected} {bodies : List Body}
    (h : ExpandsTo expand caller p selected bodies q) (hexpand : expand.Works)
    (hbrings : expand.Brings) (hp : p.arena.Closed) (hcaller : caller < p.arena.size)
    (hselected : ∀ t ∈ scopesIn selected, t < p.arena.size) :
    Recent p.arena.size q.arena.size
        (registrationsIn ((bodies.map Body.exports).flatMap q.arena.log)) ∧
      List.Forall₂ (fun x body => ∃ n k,
        Brings x.candidate.registration.mixin.body n k
          (registrationsIn (q.arena.log body.exports))) selected bodies := by
  induction h with
  | nil p => exact ⟨.nil _ _, .nil⟩
  | @cons p q r n x rest expanded exports bodies hq hr hothers ih =>
    rw [scopesIn_cons, List.forall_mem_append] at hselected
    obtain ⟨hrclosed, hpr, hexports, hfirst⟩ := hbrings.exports hexpand true hp hcaller
      (fun t ht => hselected.1 t (x.fetched_scopes ht)) hq hr
    have hrest : ∀ t ∈ scopesIn rest, t < r.arena.size :=
      fun t ht => Nat.lt_of_lt_of_le (hselected.2 t ht) hpr.size
    have hcallerr : caller < r.arena.size := Nat.lt_of_lt_of_le hcaller hpr.size
    obtain ⟨hrecent, hall⟩ := ih hrclosed hcallerr hrest
    obtain ⟨-, hrn, -⟩ := hothers.exports hexpand hrclosed hcallerr hrest
    -- the exports of this body are what they are when the other bodies have been expanded
    have hlog : n.arena.log exports = r.arena.log exports :=
      congrArg Scope.log (hrn.scope_eq (Nat.le_refl _) hexports)
    rw [← hlog] at hfirst
    refine ⟨?_, .cons ⟨_, _, hfirst⟩ hall⟩
    rw [List.map_cons, List.flatMap_cons, registrationsIn_append]
    exact hfirst.recent.append hrecent hpr.size hrn.size

/-- A call that comes to nodes adds the definitions of the bodies that it settles on to the log of
its scope. -/
theorem Call.expand_registers {call : Call} (hexpand : expand.Works) (hbrings : expand.Brings)
    (hp : p.arena.Closed) (hcaller : caller < p.arena.size)
    (hrun : (call.expand expand caller).run p = (.ok nodes, q)) :
    ∃ new, Arena.Registers caller p.arena q.arena new ∧
      Recent p.arena.size q.arena.size (registrationsIn new) ∧
      ∀ selected m, (call.select caller).run p = (.ok (some selected), m) →
        ∃ parts, registrationsIn new = parts.flatten ∧
          List.Forall₂ (fun x rs => ∃ n k, Brings x.candidate.registration.mixin.body n k rs)
            selected parts := by
  obtain ⟨selected, m, bodies, n, hm, hbodies, -, hn, hpn, -, hcommits⟩ :=
    Call.expand_run hp hcaller hexpand hrun
  obtain ⟨hmclosed, hpm, hselected⟩ := Call.select_after hp hcaller hm
  obtain ⟨hrecent, hall⟩ := hbodies.brings hexpand hbrings hmclosed
    (Nat.lt_of_lt_of_le hcaller hpm.size) hselected
  have hrecent := hrecent.mono hpm.size (Nat.le_refl _)
  obtain ⟨new, hnew, hregisters⟩ := hcommits.registers hcaller hpn hrecent
  refine ⟨new, hregisters, by rwa [hnew, hcommits.size], fun selected' m' hm' => ?_⟩
  rw [hm] at hm'
  cases hm'
  refine ⟨bodies.map fun body => registrationsIn (n.arena.log body.exports), ?_, ?_⟩
  · rw [hnew, ← List.flatMap_def, List.flatMap_map]
    exact List.filterMap_flatMap
  · exact List.forall₂_map_right_iff.2 hall

/-- A ruleset that is called adds its definitions to the log of the scope. -/
theorem expandDetached_registers {name : String} {comments : Comments} (hexpand : expand.Works)
    (hbrings : expand.Brings) (hp : p.arena.Closed) (hcaller : caller < p.arena.size)
    (hrun : (expandDetached expand caller name comments).run p = (.ok nodes, q)) :
    ∃ new, Arena.Registers caller p.arena q.arena new := by
  obtain ⟨fetched, m, expanded, n, a, -, hn, -, ⟨hm, hpm, hfetched⟩, hna, -, hpa, hcommits⟩ :=
    expandDetached_run hexpand hp hcaller hrun
  have hbrought := (hbrings fetched m n expanded hm hfetched hn).recent.mono hpm hna
  rw [← registrationsIn_mixins (n.arena.mixins expanded.scope)] at hbrought
  obtain ⟨new, -, hregisters⟩ := hcommits.registers hcaller hpa hbrought
  exact ⟨new, hregisters⟩

/-! ## Statements -/

/-- Work in scopes of its own leaves the log of a scope. -/
theorem Arena.Registers.of_works {α : Type} [Carries α] {x : Expand α} {v : α}
    (hx : Works p.arena.size [s] x) (hp : p.arena.Closed) (hs : s < p.arena.size)
    (hrun : x.run p = (.ok v, q)) : Arena.Registers s p.arena q.arena [] := by
  obtain ⟨-, hgrows, -⟩ := hx.after (hp.ready (Nat.le_refl _)) (List.forall_mem_singleton.2 hs) hrun
  exact .nothing hgrows.size (congrArg Scope.log (hgrows.scope_eq (Nat.le_refl _) hs))

/-- A statement adds definitions to the log of its scope if it is a call, and none otherwise. -/
theorem Item.expand_registers (hexpand : expand.Works) (hbrings : expand.Brings) {item : Item}
    (hp : p.arena.Closed) (hs : s < p.arena.size)
    (hrun : (item.expand expand s).run p = (.ok nodes, q)) :
    ∃ new, Arena.Registers s p.arena q.arena new ∧
      (item.isCall = false → registrationsIn new = []) := by
  have hblock : ∀ (body : List Item) (u : ScopeId), Works u [u, s]
      (enterBlock body (fun child => expandItems expand child body) u) := fun body u =>
    enterBlock_works body (.head _) (expandItems_works hexpand (.head _) body)
  cases item with
  | assign name value =>
    obtain ⟨v, m, hm, hend⟩ := ok_of_run_bind hrun
    have hstate : m = p := (congrArg Prod.snd (ok_of_run_mapError hm)).symm
    subst hstate
    cases hend
    exact ⟨_, .define hs name v, fun _ => rfl⟩
  | declaration d =>
    obtain ⟨v, m, hm, hend⟩ := ok_of_run_bind hrun
    have hstate : m = p := (congrArg Prod.snd (ok_of_run_mapError hm)).symm
    subst hstate
    cases hend
    exact ⟨[], .nothing (Nat.le_refl _) rfl, fun _ => rfl⟩
  | rule r =>
    obtain ⟨selectors, guard, body⟩ := r
    exact ⟨[], .of_works (expandRule_works selectors guard (.head _) (hblock body)) hp hs hrun,
      fun _ => rfl⟩
  | atRule name params body =>
    exact ⟨[], .of_works (expandAtRule_works name params (.head _) (hblock body)) hp hs hrun,
      fun _ => rfl⟩
  | mixin site m =>
    cases hrun
    exact ⟨[], .nothing (Nat.le_refl _) rfl, fun _ => rfl⟩
  | call call =>
    obtain ⟨new, hnew, -⟩ := call.expand_registers hexpand hbrings hp hs hrun
    exact ⟨new, hnew, nofun⟩
  | detachedCall name comments =>
    obtain ⟨new, hnew⟩ := expandDetached_registers hexpand hbrings hp hs hrun
    exact ⟨new, hnew, nofun⟩

/-- Statements one after the other. -/
theorem expandItems_registers (hexpand : expand.Works) (hbrings : expand.Brings)
    {items : List Item} (hp : p.arena.Ready s) (hs : s < p.arena.size)
    (hrun : (expandItems expand s items).run p = (.ok nodes, q)) :
    ∃ new, Arena.Registers s p.arena q.arena new ∧
      (items.all (!·.isCall) → registrationsIn new = []) := by
  induction items generalizing p nodes with
  | nil =>
    cases hrun
    exact ⟨[], .nothing (Nat.le_refl _) rfl, fun _ => rfl⟩
  | cons item rest ih =>
    obtain ⟨first, m, hm, hrun⟩ := ok_of_run_bind hrun
    obtain ⟨others, n, hn, hrun⟩ := ok_of_run_bind hrun
    cases hrun
    have hworks : Works s [s] (item.expand expand s) := Item.expand_works hexpand (.head _) item
    obtain ⟨hmready, hgrows, -⟩ := hworks.after hp (List.forall_mem_singleton.2 hs) hm
    obtain ⟨new, hnew, hnone⟩ := Item.expand_registers hexpand hbrings hp.toClosed hs hm
    obtain ⟨more, hmore, hnoneMore⟩ := ih hmready (Nat.lt_of_lt_of_le hs hgrows.size) hn
    refine ⟨new ++ more, hnew.trans hmore, fun hall => ?_⟩
    rw [List.all_cons, Bool.and_eq_true_iff, Bool.not_eq_true'] at hall
    rw [registrationsIn_append, hnone hall.1, hnoneMore hall.2]
    rfl

/-- A block registers its own definitions, and then what comes with its calls. -/
theorem expandBlock_registers (hexpand : expand.Works) (hbrings : expand.Brings)
    {body : List Item} (hp : p.arena.Ready s) (hs : s < p.arena.size)
    (hrun : (expandBlock expand body s).run p = (.ok nodes, q)) :
    ∃ new, Arena.Registers s p.arena q.arena
        ((registrationsOf s (p.arena.log s).length body).map .mixin ++ new) ∧
      (body.all (!·.isCall) → registrationsIn new = []) := by
  obtain ⟨_, m, hm, hrun⟩ := ok_of_run_bind hrun
  have hm := ok_of_run_mapError hm
  have hworks : Works s [s] (hoist s body) := hoist_works (.head _) body
  obtain ⟨hmready, hgrows, -⟩ := hworks.after hp (List.forall_mem_singleton.2 hs) hm
  obtain ⟨m', hm', hown⟩ := hoist_registers hs body
  rw [hm] at hm'
  cases hm'
  obtain ⟨new, hnew, hnone⟩ := expandItems_registers hexpand hbrings hmready
    (Nat.lt_of_lt_of_le hs hgrows.size) hrun
  exact ⟨new, hown.trans hnew, hnone⟩

/-! ## The recursion through calls -/

/-- Work in a new scope registers there what was registered since. -/
theorem Brings.of_registers {body : List Item} {link : Link} {a b : Arena} {new : List Entry}
    (h : Arena.Registers a.size (a.push link).2 b
      ((registrationsOf a.size 0 body).map .mixin ++ new))
    (hnone : body.all (!·.isCall) → registrationsIn new = []) :
    Brings body a.size b.size (b.mixins a.size) := by
  have hempty : (a.push link).2.log a.size = [] := by
    rw [Arena.log, Arena.scope_push, if_pos rfl]
  have hlog := h.log
  rw [hempty, List.nil_append] at hlog
  refine ⟨⟨fun r hr s position ho => ?_, ?_⟩, registrationsIn new, ?_, hnone⟩
  · rw [mixins_eq_registrationsIn, hlog] at hr
    have hnewer := h.newer r hr
    have holder := h.older r hr
    rw [ho] at hnewer holder
    refine ⟨?_, holder.1⟩
    rcases hnewer with hnewer | ⟨rfl, -⟩
    · rw [Arena.size_push] at hnewer
      exact Nat.le_of_succ_le hnewer
    · exact Nat.le_refl _
  · rw [mixins_eq_registrationsIn, hlog]
    exact h.distinct
  · rw [mixins_eq_registrationsIn, hlog, registrationsIn_append, registrationsIn_mixins]

/-- After a step that comes to a result, what it did is undone as far as the snapshot says. -/
theorem Expand.ok_of_run_restoring {α : Type} {x : Expand α} {snapshot : Snapshot} {v : α}
    (h : (Expand.restoring snapshot x).run p = (.ok v, q)) :
    ∃ m, x.run p = (.ok v, m) ∧ q.arena = m.arena.restore snapshot := by
  rw [Expand.restoring, run_andThen, run_change, run_done] at h
  obtain ⟨hv, rfl⟩ := Prod.mk.inj h
  exact ⟨_, Prod.ext hv rfl, rfl⟩

/-- A body that is expanded leaves the registrations of its own rules in its scope, and behind them
those that its calls bring. -/
theorem expandFetched_brings (hexpand : expand.Works) (hbrings : expand.Brings) :
    Expander.Brings (expandFetched expand) := by
  intro fetched p q expanded hp hfetched hrun
  have hworking : fetched.working < p.arena.size := hfetched _ (.head _)
  have hclosure : fetched.closure < p.arena.size := hfetched _ (.tail _ (.head _))
  let inside : Progress := { p with arena := (p.arena.push (.child fetched.working)).2 }
  have hready : inside.arena.Ready p.arena.size :=
    hp.ready_push fun t ht => List.mem_singleton.1 ht ▸ hworking
  have hsize : p.arena.size < inside.arena.size := by
    rw [Arena.size_push]
    exact Nat.lt_succ_self _
  rw [expandFetched_eq, run_mark, run_create] at hrun
  obtain ⟨nodes, m, hm, hend⟩ := ok_of_run_bind hrun
  cases hend
  obtain ⟨k, hk, hback⟩ := Expand.ok_of_run_restoring hm
  have hworks : Works p.arena.size [p.arena.size] (expandBlock expand fetched.body p.arena.size) :=
    expandBlock_works hexpand fetched.body (.head _)
  obtain ⟨-, hgrows, -⟩ := hworks.after hready (List.forall_mem_singleton.2 hsize) hk
  -- the log of the definition's scope is what it was, so going back to it changes nothing
  have hlog : k.arena.log fetched.closure = p.arena.log fetched.closure := by
    rw [Arena.log, hgrows.frame _ (Nat.lt_trans hclosure hsize) (Nat.ne_of_lt hclosure),
      Arena.scope_push, if_neg (Nat.ne_of_lt hclosure), Arena.log]
  rw [Arena.restore_log_eq hlog] at hback
  have hempty : inside.arena.log p.arena.size = [] := by
    rw [Arena.log, Arena.scope_push, if_pos rfl]
  obtain ⟨new, hnew, hnone⟩ := expandBlock_registers hexpand hbrings hready hsize hk
  rw [hempty] at hnew
  rw [hback]
  exact .of_registers hnew hnone

/-- One level deeper, the same comes of a step. -/
theorem Expand.ok_of_run_deeper {α : Type} {x : Expand α} {limit : Nat} {error : Error} {v : α}
    (h : (Expand.deeper limit error x).run p = (.ok v, q)) :
    ∃ m, x.run { p with depth := p.depth + 1 } = (.ok v, m) ∧ q.arena = m.arena := by
  rw [Expand.deeper, run_level] at h
  split at h
  · cases h
  · rw [Expand.nested, run_level, run_andThen, run_level, run_done] at h
    obtain ⟨hv, rfl⟩ := Prod.mk.inj h
    exact ⟨_, Prod.ext hv rfl, rfl⟩

/-- What a call reaches brings its own definitions and those of its calls, whatever number of levels
is left. -/
theorem expandBody_brings (limit left : Nat) : Expander.Brings (expandBody limit left) := by
  induction left with
  | zero =>
    intro fetched p q expanded _ _ hrun
    cases hrun
  | succ left ih =>
    intro fetched p q expanded hp hfetched hrun
    obtain ⟨m, hm, hq⟩ := Expand.ok_of_run_deeper hrun
    rw [hq]
    exact expandFetched_brings (expandBody_works limit left) ih fetched
      { p with depth := p.depth + 1 } m expanded hp hfetched hm

/-! ## Calls in a row -/

/-- `CallsInRow expand caller called p q`: calls from one scope that all come to nodes, with no
other statement in between, lead from `p` to `q`. For each of them `called` has the mixins that it
settles on. -/
inductive CallsInRow (expand : Expander) (caller : ScopeId) :
    List (List Mixin) → Progress → Progress → Prop where
  | nil (p : Progress) : CallsInRow expand caller [] p p
  | cons {call : Call} {selected : List Selected} {nodes : List Css.Node} {p m q r : Progress}
    {called : List (List Mixin)} :
    (call.select caller).run p = (.ok (some selected), m) →
    (call.expand expand caller).run p = (.ok nodes, q) →
    CallsInRow expand caller called q r →
    CallsInRow expand caller (selected.map (·.candidate.registration.mixin) :: called) p r

/-- Calls in a row add the definitions of all bodies that they settle on. -/
theorem CallsInRow.registers {called : List (List Mixin)} (h : CallsInRow expand caller called p q)
    (hexpand : expand.Works) (hbrings : expand.Brings) (hp : p.arena.Ready caller)
    (hcaller : caller < p.arena.size) :
    q.arena.Ready caller ∧ ∃ new parts, q.arena.log caller = p.arena.log caller ++ new ∧
      p.arena.size ≤ q.arena.size ∧ Recent p.arena.size q.arena.size (registrationsIn new) ∧
      registrationsIn new = parts.flatten ∧
      List.Forall₂ (fun m rs => ∃ n k, Brings m.body n k rs) called.flatten parts := by
  induction h with
  | nil p => exact ⟨hp, [], [], (List.append_nil _).symm, Nat.le_refl _, .nil _ _, rfl, .nil⟩
  | @cons call selected nodes p m q r called hselect hrun _ ih =>
    have hworks : Works caller [caller] (call.expand expand caller) :=
      call.expand_works hexpand (.head _)
    obtain ⟨hq, hgrows, -⟩ := hworks.after hp (List.forall_mem_singleton.2 hcaller) hrun
    obtain ⟨new, hnew, hrecent, hparts⟩ :=
      call.expand_registers hexpand hbrings hp.toClosed hcaller hrun
    obtain ⟨parts, hflatten, hall⟩ := hparts selected m hselect
    obtain ⟨hr, more, others, hlog, hsize, hlater, hmore, hrest⟩ :=
      ih hq (Nat.lt_of_lt_of_le hcaller hgrows.size)
    refine ⟨hr, new ++ more, parts ++ others, ?_, Nat.le_trans hnew.size hsize, ?_, ?_, ?_⟩
    · rw [hlog, hnew.log, List.append_assoc]
    · rw [registrationsIn_append]
      exact hrecent.append hlater hnew.size hsize
    · rw [registrationsIn_append, hflatten, hmore, List.flatten_append]
    · rw [List.flatten_cons]
      exact List.rel_append (List.forall₂_map_left_iff.2 hall) hrest

/-! ## Candidates after calls in a row -/

/-- The mixin that a statement can be called as. -/
def Item.mixin? : Item → Option Mixin
  | .mixin _ m => some m
  | .rule r => r.mixinName?.map r.toMixin
  | _ => none

/-- Whether a statement can be called by this name and, if an arity is asked for, with so many
arguments. -/
def Item.isCallable (name : String) (arity : Option Nat) (item : Item) : Bool :=
  item.mixin?.any fun m => m.name == name && arity.all m.acceptsArity

/-- A plain ruleset that can be called so. -/
def Item.isCallableRule (name : String) (arity : Option Nat) : Item → Bool
  | .rule r => (Item.rule r).isCallable name arity
  | _ => false

section
variable {name : String} {arity : Option Nat} {body : List Item}

/-- The registration of a statement answers what the statement can be called by, wherever it is
made, and is plain if the statement is a rule. -/
theorem Item.answers_registration? {item : Item} {s : ScopeId} {n : Nat} {r : Registration}
    (h : item.registration? s n = some r) (name : String) (arity : Option Nat) :
    Arena.answers name arity r = item.isCallable name arity ∧
      (r.isPlain && Arena.answers name arity r) = item.isCallableRule name arity := by
  cases item with
  | mixin site m =>
    cases h
    exact ⟨rfl, rfl⟩
  | rule rule =>
    obtain ⟨key, hkey, rfl⟩ := Option.map_eq_some_iff.1 h
    simp [Item.isCallableRule, Item.isCallable, Item.mixin?, hkey, Registration.isPlain,
      Arena.answers]
  | _ => cases h

/-- A statement that is not registered cannot be called. -/
theorem Item.isCallable_of_none {item : Item} {s : ScopeId} {n : Nat}
    (h : item.registration? s n = none) (name : String) (arity : Option Nat) :
    item.isCallable name arity = false ∧ item.isCallableRule name arity = false := by
  cases item with
  | mixin site m => cases h
  | rule rule =>
    have hkey := Option.map_eq_none_iff.1 h
    simp [Item.isCallableRule, Item.isCallable, Item.mixin?, hkey]
  | _ => exact ⟨rfl, rfl⟩

/-- A definition written with parentheses is registered with the same origin in any scope. -/
theorem Item.registration?_of_written {item : Item} {s : ScopeId} {n : Nat} {r : Registration}
    (h : item.registration? s n = some r) (hwritten : r.isPlain = false) (t : ScopeId) (k : Nat) :
    item.registration? t k = some { r with closure := t } := by
  cases item with
  | mixin site m =>
    cases h
    rfl
  | rule rule =>
    obtain ⟨key, -, rfl⟩ := Option.map_eq_some_iff.1 h
    cases hwritten
  | _ => cases h

/-- The rules among the registrations of a block that a call may be meant for are those among its
statements. -/
theorem countP_registrationsOf (s : ScopeId) (n : Nat) (body : List Item) :
    ((registrationsOf s n body).filter (Arena.answers name arity)).countP (·.isPlain) =
      body.countP (Item.isCallableRule name arity) := by
  rw [List.countP_filter]
  induction body generalizing n with
  | nil => rfl
  | cons item rest ih =>
    rw [registrationsOf, List.countP_cons]
    cases hr : item.registration? s n with
    | none =>
      rw [(Item.isCallable_of_none hr name arity).2]
      exact ih n
    | some r =>
      rw [List.countP_cons, ih (n + 1), (Item.answers_registration? hr name arity).2]

/-- Registrations of a block are those of its statements. -/
theorem exists_of_mem_registrationsOf {s : ScopeId} {n : Nat} {r : Registration}
    (hr : r ∈ registrationsOf s n body) : ∃ item ∈ body, ∃ k, item.registration? s k = some r := by
  induction body generalizing n with
  | nil => cases hr
  | cons item rest ih =>
    rw [registrationsOf] at hr
    cases hfirst : item.registration? s n with
    | none =>
      rw [hfirst] at hr
      obtain ⟨other, hother, h⟩ := ih hr
      exact ⟨other, .tail _ hother, h⟩
    | some first =>
      rw [hfirst] at hr
      rcases List.mem_cons.1 hr with rfl | hr
      · exact ⟨item, .head _, n, hfirst⟩
      · obtain ⟨other, hother, h⟩ := ih hr
        exact ⟨other, .tail _ hother, h⟩

/-- A statement that is registered wherever it stands is among the registrations of its block. -/
theorem exists_mem_registrationsOf {P : Registration → Prop} {item : Item} {s : ScopeId}
    (hitem : item ∈ body) (h : ∀ k, ∃ r, item.registration? s k = some r ∧ P r) (n : Nat) :
    ∃ r ∈ registrationsOf s n body, P r := by
  induction body generalizing n with
  | nil => cases hitem
  | cons other rest ih =>
    rw [registrationsOf]
    rcases List.mem_cons.1 hitem with rfl | hitem
    · obtain ⟨r, hr, hP⟩ := h n
      rw [hr]
      exact ⟨r, .head _, hP⟩
    · cases other.registration? s n with
      | none => exact ih hitem n
      | some first =>
        obtain ⟨r, hr, hP⟩ := ih hitem (n + 1)
        exact ⟨r, .tail _ hr, hP⟩

/-- The registrations of a block in another scope have the same origins, but for those of rules. -/
theorem origin_mem_registrationsOf {s : ScopeId} {n : Nat} {r : Registration}
    (hr : r ∈ registrationsOf s n body) (hanswers : Arena.answers name arity r)
    (hwritten : r.isPlain = false) (t : ScopeId) (k : Nat) :
    ∃ q ∈ registrationsOf t k body, Arena.answers name arity q ∧ q.origin = r.origin := by
  obtain ⟨item, hitem, i, hi⟩ := exists_of_mem_registrationsOf hr
  exact exists_mem_registrationsOf hitem
    (fun j => ⟨_, Item.registration?_of_written hi hwritten t j, hanswers, rfl⟩) k

/-- A statement that can be called is registered. -/
theorem answers_of_isCallable {item : Item} (hitem : item ∈ body)
    (hcallable : item.isCallable name arity) (s : ScopeId) (n : Nat) :
    ∃ r ∈ registrationsOf s n body, Arena.answers name arity r := by
  refine exists_mem_registrationsOf hitem (fun k => ?_) n
  cases hr : item.registration? s k with
  | none =>
    rw [(Item.isCallable_of_none hr name arity).1] at hcallable
    cases hcallable
  | some r => exact ⟨r, rfl, (Item.answers_registration? hr name arity).1 ▸ hcallable⟩

end

end

/-- A plain ruleset that was registered since is none of those that were there. -/
theorem Recent.origin_ne {a : Arena} {k : Nat} {rs : List Registration} (h : Recent a.size k rs)
    (ha : a.Closed) {s : ScopeId} {r q : Registration} (hr : r ∈ rs) (hplain : r.isPlain)
    (hq : q ∈ a.mixins s) : r.origin ≠ q.origin := by
  intro heq
  rw [Registration.isPlain] at hplain
  cases ho : r.origin with
  | written site =>
    rw [ho] at hplain
    cases hplain
  | hoisted t position =>
    have hthere : t < a.size := by
      refine ha.stored t (Arena.mixins_mentions (mem_scopesIn_list.2 ⟨q, hq, ?_⟩))
      rw [scopesIn_registration, ← heq, ho]
      exact .tail _ (.head _)
    exact absurd hthere (Nat.not_lt_of_le (h.range r hr t position ho).1)

/-- Bodies that make no calls bring their own definitions alone, so several expansions of one bring
its rules as often. -/
theorem countP_flatten_brings {m : Mixin} {name : String} {arity : Option Nat} {count : Nat}
    {parts : List (List Registration)}
    (h : List.Forall₂ (fun m rs => ∃ n k, Brings m.body n k rs) (List.replicate count m) parts)
    (hnone : m.body.all (!·.isCall)) :
    (parts.flatten.filter (Arena.answers name arity)).countP (·.isPlain) =
      count * m.body.countP (Item.isCallableRule name arity) := by
  induction count generalizing parts with
  | zero =>
    cases h
    simp
  | succ count ih =>
    rw [List.replicate_succ] at h
    cases h with
    | cons hfirst hrest =>
      obtain ⟨n, k, hbrings⟩ := hfirst
      obtain ⟨more, rfl, hmore⟩ := hbrings.own
      rw [hmore hnone, List.append_nil, List.flatten_cons, List.filter_append, List.countP_append,
        countP_registrationsOf, ih hrest, Nat.succ_mul, Nat.add_comm]

/-- What is related to a member of one list stands in the other. -/
theorem exists_of_forall₂ {α β : Type} {R : α → β → Prop} {xs : List α} {ys : List β}
    (h : List.Forall₂ R xs ys) {x : α} (hx : x ∈ xs) : ∃ y ∈ ys, R x y := by
  induction h with
  | nil => cases hx
  | cons hxy _ ih =>
    rcases List.mem_cons.1 hx with rfl | hx
    · exact ⟨_, .head _, hxy⟩
    · obtain ⟨y, hy, h⟩ := ih hx
      exact ⟨y, .tail _ hy, h⟩

/-- The definitions with parentheses that such bodies bring have the origins that the statements of
one of them have, wherever they are registered. -/
theorem origin_mem_flatten_brings {m : Mixin} {name : String} {arity : Option Nat} {count : Nat}
    {parts : List (List Registration)}
    (h : List.Forall₂ (fun m rs => ∃ n k, Brings m.body n k rs) (List.replicate count m) parts)
    (hnone : m.body.all (!·.isCall)) {r : Registration} (hr : r ∈ parts.flatten)
    (hanswers : Arena.answers name arity r) (hwritten : r.isPlain = false) (s : ScopeId) :
    ∃ q ∈ registrationsOf s 0 m.body, Arena.answers name arity q ∧ q.origin = r.origin := by
  obtain ⟨part, hpart, hr⟩ := List.mem_flatten.1 hr
  obtain ⟨m', hm', n, k, hbrings⟩ := exists_of_forall₂ h.flip hpart
  obtain rfl := List.eq_of_mem_replicate hm'
  obtain ⟨more, rfl, hmore⟩ := hbrings.own
  rw [hmore hnone, List.append_nil] at hr
  exact origin_mem_registrationsOf hr hanswers hwritten s 0

/-- What a mixin that calls settle on has in its body itself is there after them. -/
theorem CallsInRow.own {expand : Expander} {caller : ScopeId} {called : List (List Mixin)}
    {p q : Progress} (h : CallsInRow expand caller called p q) (hexpand : expand.Works)
    (hbrings : expand.Brings) (hp : p.arena.Ready caller) (hcaller : caller < p.arena.size)
    {m : Mixin} (hm : m ∈ called.flatten) :
    ∃ s, ∀ r ∈ registrationsOf s 0 m.body, r ∈ q.arena.mixins caller := by
  obtain ⟨-, new, parts, hlog, -, -, hparts, hall⟩ := h.registers hexpand hbrings hp hcaller
  obtain ⟨rs, hrs, s, k, hm⟩ := exists_of_forall₂ hall hm
  obtain ⟨more, hmore, -⟩ := hm.own
  refine ⟨s, fun r hr => ?_⟩
  rw [mixins_eq_registrationsIn, hlog, registrationsIn_append, hparts]
  refine List.mem_append_right _ (List.mem_flatten.2 ⟨rs, hrs, ?_⟩)
  rw [hmore]
  exact List.mem_append_left _ hr

/-- Calls in a row from one scope, of which the first settles on `m` among others, where `m` has a
statement that can be called `name`. The calls after the first add entries to the log of the scope,
and a look-up of `name` there finds as many candidates after them as after the first call exactly if
each definition that has come with them, and that the look-up may be meant for, is written with
parentheses and was a candidate before.

A plain ruleset is a new definition each time. So if the other calls settle on `m` alone and `m`
makes no calls itself, each of them adds a candidate for every plain ruleset in `m` that can be
called `name`, and nothing else. -/
theorem candidates_of_callsInRow (limit left : Nat) {caller : ScopeId} {p₀ p₁ p : Progress}
    {first : List Mixin} {others : List (List Mixin)} {m : Mixin} {name : String}
    {arity : Option Nat} (hp : p₀.arena.Ready caller) (hcaller : caller < p₀.arena.size)
    (hfirst : CallsInRow (expandBody limit left) caller [first] p₀ p₁)
    (hothers : CallsInRow (expandBody limit left) caller others p₁ p) (hm : m ∈ first)
    (hitem : ∃ item ∈ m.body, item.isCallable name arity) :
    let found (q : Progress) := q.arena.lookupMixins caller name arity
    (∃ new, p.arena.log caller = p₁.arena.log caller ++ new ∧
      ((found p).length = (found p₁).length ↔
        ∀ r ∈ (registrationsIn new).filter (Arena.answers name arity),
          r.isPlain = false ∧ r.origin ∈ (found p₁).map Registration.origin)) ∧
    ((∀ called ∈ others, called = [m]) → m.body.all (!·.isCall) →
      (found p).length =
        (found p₁).length + others.length * m.body.countP (Item.isCallableRule name arity)) := by
  intro found
  have hworks := expandBody_works limit left
  have hbrings := expandBody_brings limit left
  obtain ⟨hp₁, -, -, -, hsize₁, -⟩ := hfirst.registers hworks hbrings hp hcaller
  obtain ⟨hpn, new, parts, hlog, hsize, hrecent, hparts, hall⟩ :=
    hothers.registers hworks hbrings hp₁ (Nat.lt_of_lt_of_le hcaller hsize₁)
  have hmixins : p.arena.mixins caller = p₁.arena.mixins caller ++ registrationsIn new := by
    rw [mixins_eq_registrationsIn, hlog, registrationsIn_append]
    rfl
  obtain ⟨s, hown⟩ := hfirst.own hworks hbrings hp hcaller (List.mem_flatten.2 ⟨_, .head _, hm⟩)
  -- the first call has brought a definition that answers, so the look-up ends at the scope itself
  obtain ⟨item, hitem, hcallable⟩ := hitem
  obtain ⟨r₀, hr₀, hanswers⟩ := answers_of_isCallable hitem hcallable s 0
  have hfound₁ : found p₁ = p₁.arena.ownMixins caller name arity :=
    Arena.lookupMixins_eq_own hp₁.toClosed.ordered (hown r₀ hr₀) hanswers
  have hfound : found p = p.arena.ownMixins caller name arity := by
    refine Arena.lookupMixins_eq_own hpn.toClosed.ordered ?_ hanswers
    rw [hmixins]
    exact List.mem_append_left _ (hown r₀ hr₀)
  rw [hfound, hfound₁, Arena.length_ownMixins, Arena.length_ownMixins, hmixins]
  have hnew : ∀ r ∈ registrationsIn new, r.isPlain → ∀ q ∈ p₁.arena.mixins caller,
      r.origin ≠ q.origin := fun r hr hplain q hq => hrecent.origin_ne hp₁.toClosed hr hplain hq
  refine ⟨⟨new, hlog, ?_⟩, ?_⟩
  · rw [candidateCount_append_eq_iff]
    refine forall₂_congr fun r hr => ?_
    rw [Arena.mem_origins_ownMixins]
    refine (and_iff_right_of_imp fun hmem => ?_).symm
    obtain ⟨q, hq, heq⟩ := List.mem_map.1 hmem
    cases hplain : r.isPlain with
    | false => rfl
    | true =>
      exact absurd heq.symm
        (hnew r (List.mem_filter.1 hr).1 hplain q (List.mem_filter.1 hq).1)
  · intro hothers hnone
    have hcalled : others.flatten = List.replicate others.length m := by
      rw [List.eq_replicate_of_mem hothers, List.length_replicate]
      exact List.flatten_replicate_singleton
    rw [hcalled] at hall
    rw [candidateCount_append_plain hrecent.distinct hnew, hparts, countP_flatten_brings hall hnone]
    -- the definitions written with parentheses have all come with the first call
    intro r hr hwritten
    obtain ⟨hr, hanswers⟩ := List.mem_filter.1 hr
    rw [hparts] at hr
    obtain ⟨q, hq, hqanswers, horigin⟩ :=
      origin_mem_flatten_brings hall hnone hr hanswers hwritten s
    rw [← horigin]
    exact List.mem_map_of_mem (List.mem_filter.2 ⟨hown q hq, hqanswers⟩)

/-- A mixin with a definition and a plain ruleset of one name. -/
def doublyNamed : Mixin :=
  ⟨".m", [], none, [.mixin ⟨0, 1⟩ ⟨".i", [], none, []⟩, .rule ⟨[".i"], none, []⟩]⟩

namespace DoublyNamed

/-- The call of `doublyNamed`. -/
def call : Call := ⟨[".m"], [], false, {}⟩

/-- The log of the root scope before the first call. -/
def log : List Entry := [.mixin ⟨.written ⟨0, 2⟩, doublyNamed, Arena.root⟩]

/-- What the first call adds to it. -/
def brought : List Entry :=
  [.mixin ⟨.written ⟨0, 1⟩, ⟨".i", [], none, []⟩, 2⟩,
    .mixin ⟨.hoisted 2 1, ⟨".i", [], none, []⟩, 2⟩]

/-- The state before the first call. -/
def before : Progress := ⟨⟨#[⟨.root, log, none⟩]⟩, [], 0⟩

/-- The state after the first call: with scopes for its parameters, its body, the ruleset in it and
its exports. -/
def after : Progress :=
  ⟨⟨#[⟨.root, log ++ brought, none⟩, ⟨.child 0, [.binding "arguments" (.list .space [])], none⟩,
    ⟨.child 1, brought, none⟩, ⟨.child 2, [], none⟩, ⟨.root, brought, none⟩]⟩, [], 0⟩

end DoublyNamed

open DoublyNamed in
/-- Two calls of `doublyNamed`: the second adds a candidate for the ruleset and none for the
definition. -/
theorem candidates_of_callsInRow_twice :
    let found (q : Progress) := q.arena.lookupMixins Arena.root ".i" (some 0)
    let last := ((call.expand (expandBody 1 1) Arena.root).run after).2
    before.arena.Ready Arena.root ∧
      CallsInRow (expandBody 1 1) Arena.root [[doublyNamed]] before after ∧
      CallsInRow (expandBody 1 1) Arena.root [[doublyNamed]] after last ∧
      (found last).length = (found after).length + 1 := by
  intro found last
  let sheet : Stylesheet := ⟨[], [.mixin ⟨0, 2⟩ doublyNamed]⟩
  have hempty : Arena.root < Progress.start.arena.size := Nat.one_pos
  have hworks : Works Arena.root [Arena.root] (sheet.script 1) :=
    expandBlock_works (expandBody_works 1 1) sheet.body (.head _)
  have hscript : (sheet.script 1).run Progress.start = (.ok [], before) := by rfl
  obtain ⟨hbefore, hgrows, -⟩ := hworks.after (Arena.WellFormed.empty.ready Arena.root)
    (List.forall_mem_singleton.2 hempty) hscript
  have hroot : Arena.root < before.arena.size := Nat.lt_of_lt_of_le hempty hgrows.size
  have hselect : ((call.select Arena.root).run before).1 =
      .ok (some [⟨⟨⟨.written ⟨0, 2⟩, doublyNamed, Arena.root⟩, []⟩, 1⟩]) := by rfl
  have hcall : (call.expand (expandBody 1 1) Arena.root).run before =
      (.ok [.rule [".i"] [] {}], after) := by rfl
  have hselect' : ((call.select Arena.root).run after).1 =
      .ok (some [⟨⟨⟨.written ⟨0, 2⟩, doublyNamed, Arena.root⟩, []⟩, 5⟩]) := by rfl
  have hcall' : ((call.expand (expandBody 1 1) Arena.root).run after).1 =
      .ok [.rule [".i"] [] {}] := by rfl
  have hfirst : CallsInRow (expandBody 1 1) Arena.root [[doublyNamed]] before after :=
    .cons (Prod.ext hselect rfl) hcall (.nil after)
  have hsecond : CallsInRow (expandBody 1 1) Arena.root [[doublyNamed]] after last :=
    .cons (Prod.ext hselect' rfl) (Prod.ext hcall' rfl) (.nil last)
  have hitem : ∃ item ∈ doublyNamed.body, item.isCallable ".i" (some 0) := ⟨_, .head _, rfl⟩
  obtain ⟨-, hcount⟩ := candidates_of_callsInRow 1 1 hbefore hroot hfirst hsecond (.head _) hitem
  exact ⟨hbefore, hfirst, hsecond,
    hcount (fun called hcalled => List.mem_singleton.1 hcalled) rfl⟩

/-- A mixin with a plain ruleset, called once and called twice before the ruleset is called. After
the second call the ruleset is there twice. -/
theorem imported_rule_multiplies :
    let once := ".m() \x7b .i \x7b w: 1; \x7d \x7d\n.x \x7b .m(); .i(); \x7d"
    let twice := ".m() \x7b .i \x7b w: 1; \x7d \x7d\n.x \x7b .m(); .m(); .i(); \x7d"
    (compile once).toOption.map (·.css) =
        some ".x \x7b\n  w: 1;\n\x7d\n\n.x .i \x7b\n  w: 1;\n\x7d" ∧
      (compile twice).toOption.map (·.css) =
        some (".x \x7b\n  w: 1;\n  w: 1;\n\x7d\n\n.x .i \x7b\n  w: 1;\n\x7d\n\n" ++
          ".x .i \x7b\n  w: 1;\n\x7d") := by
  intro once twice
  exact ⟨by decide +kernel, by decide +kernel⟩

end LessSheet
