import LessSheet.Proofs.Expansion.Trials
import LessSheet.Proofs.Scope.Join

/-! # Namespaces on the way to a candidate

A call by a path opens one namespace after the other until it comes to the candidates. What it
passes through is a route (`Arena.Route`): each namespace on it is a member of the one before, it
was opened in a scope of its own, and there is a scope for its guard, which sees what the namespace
defines and then what the caller sees (`Arena.Opens`). Every candidate that is found lies at the end
of a route, and the guards it carries are those of the namespaces on that route, in order
(`findMixins_run`).

A guard that is no for both values of `default()`, or that has no value, takes its candidate out
wherever it stands among the guards (`verdictOf_of_disables`). Trials only add scopes, so what such
a guard says when its candidate is tried is what it said when the candidate was found. So a call
settles on no candidate behind a namespace that is disabled, and no body of such a candidate is
expanded (`Call.expand_disabled`).
-/

namespace LessSheet

open Script

/-! ## Routes -/

/-- A namespace that was opened on the way to a candidate: its definition, the scope with what it
defines, and the scope that its guard is evaluated in. -/
structure Opened where
  registration : Registration
  inside : ScopeId
  asking : ScopeId

/-- The guard of a namespace, if it has one, with the scope it is evaluated in. -/
def Opened.guard? (o : Opened) : Option ScopedGuard :=
  o.registration.mixin.guard.map fun g => (g, o.asking)

/-- The arity that the definitions of a name must accept, where `rest` of the path is still to
come. -/
def stepArity (arity : Option Nat) (rest : List String) : Option Nat :=
  if rest.isEmpty then arity else some 0

/-- A namespace has been opened for a caller, and since then scopes have only been added. The scope
of its guard sees what is seen in the namespace, and what the caller sees after it. -/
structure Arena.Opens (a : Arena) (caller : ScopeId) (o : Opened) : Prop where
  opened : ∃ p q, (openNamespace o.registration).run p = (.ok o.inside, q) ∧ q.arena.Extends a
  inside_lt : o.inside < a.size
  asking_lt : o.asking < a.size
  sees : ∀ name, a.lookup o.asking name = (a.lookup o.inside name).or (a.lookup caller name)
  seesMixins : ∀ name arity, a.lookupMixins o.asking name arity =
    if (a.lookupMixins o.inside name arity).isEmpty then a.lookupMixins caller name arity
    else a.lookupMixins o.inside name arity

/-- `a.Route caller arity r path way t`: from the namespace `r`, following `path` through the
namespaces of `way`, one comes to `t`. -/
inductive Arena.Route (a : Arena) (caller : ScopeId) (arity : Option Nat) :
    Registration → List String → List Opened → Registration → Prop where
  | here (r : Registration) : Route a caller arity r [] [] r
  | into {o : Opened} {name : String} {rest : List String} {member target : Registration}
    {way : List Opened} : a.Opens caller o →
    member ∈ a.ownMixins o.inside name (stepArity arity rest) →
    Route a caller arity member rest way target →
    Route a caller arity o.registration (name :: rest) (o :: way) target

section
variable {a b : Arena} {caller : ScopeId} {arity : Option Nat}

/-- What a scope sees is the same where scopes have only been added. -/
theorem Arena.Extends.lookup_eq (h : a.Extends b) (ha : a.Closed) (hb : b.Closed) {s : ScopeId}
    (hs : s < a.size) (name : String) : b.lookup s name = a.lookup s name :=
  Arena.lookup_congr ha.ordered hb.ordered
    (fun t ht => h.scope t (Nat.lt_of_le_of_lt ht hs)) name

/-- Looking up mixins from a scope that was there finds the same after scopes are added. -/
theorem Arena.Extends.lookupMixins_eq (h : a.Extends b) (ha : a.Closed) (hb : b.Closed)
    {s : ScopeId} (hs : s < a.size) (name : String) (arity : Option Nat) :
    b.lookupMixins s name arity = a.lookupMixins s name arity :=
  Arena.lookupMixins_congr ha.ordered hb.ordered
    (fun t ht => h.scope t (Nat.lt_of_le_of_lt ht hs)) name arity

/-- The mixins in the log of a scope that was there are the same after scopes are added. -/
theorem Arena.Extends.ownMixins_eq (h : a.Extends b) {s : ScopeId} (hs : s < a.size)
    (name : String) (arity : Option Nat) : b.ownMixins s name arity = a.ownMixins s name arity := by
  rw [ownMixins, ownMixins, mixins, mixins, log, log, h.scope s hs]

/-- A namespace stays open. -/
theorem Arena.Opens.extends {o : Opened} (ho : a.Opens caller o) (h : a.Extends b)
    (ha : a.Closed) (hb : b.Closed) (hcaller : caller < a.size) : b.Opens caller o := by
  obtain ⟨⟨p, q, hrun, hq⟩, hinside, hasking, hvariables, hmixins⟩ := ho
  refine ⟨⟨p, q, hrun, hq.trans h⟩, Nat.lt_of_lt_of_le hinside h.size,
    Nat.lt_of_lt_of_le hasking h.size, fun name => ?_, fun name arity => ?_⟩
  · rw [h.lookup_eq ha hb hasking, h.lookup_eq ha hb hinside, h.lookup_eq ha hb hcaller,
      hvariables]
  · rw [h.lookupMixins_eq ha hb hasking, h.lookupMixins_eq ha hb hinside,
      h.lookupMixins_eq ha hb hcaller, hmixins]

/-- A route stays one. -/
theorem Arena.Route.extends {r t : Registration} {path : List String} {way : List Opened}
    (hr : a.Route caller arity r path way t) (h : a.Extends b) (ha : a.Closed) (hb : b.Closed)
    (hcaller : caller < a.size) : b.Route caller arity r path way t := by
  induction hr with
  | here r => exact .here r
  | into ho hmember _ ih =>
    exact .into (ho.extends h ha hb hcaller) (h.ownMixins_eq ho.inside_lt _ _ ▸ hmember) ih

/-! ## Finding candidates -/

/-- What is known of the state after a search for candidates: the arena is closed, scopes have only
been added, and what was found is there. -/
structure Finds (p q : Progress) (found : List Candidate) : Prop where
  closed : q.arena.Closed
  grown : p.arena.Extends q.arena
  inRange : ∀ t ∈ scopesIn found, t < q.arena.size

variable {p q : Progress}

/-- A script that holds no other numbers than those it was given adds scopes and answers what is
there. -/
theorem Script.Works.finds {K : List ScopeId} {x : Scoped (List Candidate)}
    {found : List Candidate} (hx : Works p.arena.size K x) (hp : p.arena.Closed)
    (hK : ∀ t ∈ K, t < p.arena.size) (hrun : x.run p = (.ok found, q)) : Finds p q found := by
  obtain ⟨hready, hgrows, hfound⟩ := hx.after (hp.ready (Nat.le_refl _)) hK hrun
  exact ⟨hready.toClosed, hgrows.extends (Nat.le_refl _), hfound⟩

/-- The members found in a namespace carry its guard after those on the way to it. -/
theorem namespaceMembers_run {name : String} {c : Candidate} {members : List Candidate}
    (hp : p.arena.Closed) (hcaller : caller < p.arena.size)
    (hc : ∀ t ∈ scopesIn c, t < p.arena.size)
    (hrun : (namespaceMembers caller name arity c).run p = (.ok members, q)) :
    ∃ o : Opened, o.registration = c.registration ∧ q.arena.Opens caller o ∧
      ∀ m ∈ members, m.registration ∈ q.arena.ownMixins o.inside name arity ∧
        m.pathGuards = c.pathGuards ++ o.guard?.toList := by
  obtain ⟨inside, m, hopen, hrun⟩ := ok_of_run_bind hrun
  obtain ⟨asking, n, hjoin, hrun⟩ := ok_of_run_bind hrun
  obtain ⟨found, r, hfound, hrun⟩ := ok_of_run_bind hrun
  cases hfound
  cases hrun
  have hworks : Works p.arena.size (scopesIn c.registration) (openNamespace c.registration) :=
    openNamespace_works (List.Subset.refl _)
  obtain ⟨hready, hgrows, hinside⟩ := hworks.after (hp.ready (Nat.le_refl _))
    (fun t ht => hc t (List.mem_append_left _ ht)) hopen
  have hm : m.arena.Closed := hready.toClosed
  have hinside : inside < m.arena.size := hinside inside (.head _)
  have hcallerm : caller < m.arena.size := Nat.lt_of_lt_of_le hcaller hgrows.size
  have hworks : Works m.arena.size [caller, inside] (Scoped.create (.join caller inside)) :=
    Scoped.works_join (.head _) (.tail _ (.head _))
  obtain ⟨hready, hgrows, hasking⟩ := hworks.after (hm.ready (Nat.le_refl _))
    (List.forall_mem_cons.2 ⟨hcallerm, List.forall_mem_singleton.2 hinside⟩) hjoin
  have hq : q.arena.Closed := hready.toClosed
  have hmq : m.arena.Extends q.arena := hgrows.extends (Nat.le_refl _)
  have hasking : asking < q.arena.size := hasking asking (.head _)
  -- the scope of the guard is the join of the caller and the namespace
  have heq : m.arena.join caller inside = (asking, q.arena) := by
    cases hjoin
    rfl
  refine ⟨⟨c.registration, inside, asking⟩, rfl, ⟨⟨p, m, hopen, hmq⟩,
    Nat.lt_of_lt_of_le hinside hmq.size, hasking, fun name => ?_, fun name arity => ?_⟩,
    fun d hd => ?_⟩
  · have := Arena.lookup_join hm.ordered hcallerm hinside name
    rwa [heq, ← hmq.lookup_eq hm hq hinside, ← hmq.lookup_eq hm hq hcallerm] at this
  · have := Arena.lookupMixins_join hm.ordered hcallerm hinside name arity
    rwa [heq, ← hmq.lookupMixins_eq hm hq hinside, ← hmq.lookupMixins_eq hm hq hcallerm] at this
  · obtain ⟨r, hr, rfl⟩ := List.mem_map.1 hd
    exact ⟨hr, rfl⟩

/-- What is found for each of several candidates is found in the end, if it stays so where scopes
are only added. -/
theorem gather_run {f : Candidate → Scoped (List Candidate)} {found result : List Candidate}
    {R : Arena → Candidate → Candidate → Prop} (hp : p.arena.Closed)
    (hf : ∀ c ∈ found, ∀ {m n here}, m.arena.Closed → p.arena.Extends m.arena →
      (f c).run m = (.ok here, n) → Finds m n here ∧ ∀ d ∈ here, R n.arena c d)
    (hR : ∀ {a b c d}, a.Closed → b.Closed → p.arena.Extends a → a.Extends b → R a c d → R b c d)
    (hrun : (gather f found).run p = (.ok result, q)) :
    Finds p q result ∧ ∀ d ∈ result, ∃ c ∈ found, R q.arena c d := by
  induction found generalizing p result with
  | nil =>
    cases hrun
    exact ⟨⟨hp, .refl _, nofun⟩, nofun⟩
  | cons c rest ih =>
    obtain ⟨here, m, hhere, hrun⟩ := ok_of_run_bind hrun
    obtain ⟨others, n, hothers, hrun⟩ := ok_of_run_bind hrun
    cases hrun
    obtain ⟨hm, hfound⟩ := hf c (.head _) hp (.refl _) hhere
    obtain ⟨hq, hrest⟩ := ih hm.closed
      (fun d hd m' n' here' hm' hext => hf d (.tail _ hd) hm' (hm.grown.trans hext))
      (fun ha hb hext => hR ha hb (hm.grown.trans hext)) hothers
    refine ⟨⟨hq.closed, hm.grown.trans hq.grown, fun t ht => ?_⟩, fun d hd => ?_⟩
    · rcases List.mem_append.1 (scopesIn_append here others ▸ ht) with ht | ht
      · exact Nat.lt_of_lt_of_le (hm.inRange t ht) hq.grown.size
      · exact hq.inRange t ht
    · rcases List.mem_append.1 hd with hd | hd
      · exact ⟨c, .head _, hR hm.closed hq.closed hm.grown hq.grown (hfound d hd)⟩
      · obtain ⟨e, he, hR'⟩ := hrest d hd
        exact ⟨e, .tail _ he, hR'⟩

/-- A candidate at the end of a route from another one, with the guards of the namespaces on the
route after those of the other. -/
def Candidate.Behind (a : Arena) (caller : ScopeId) (arity : Option Nat) (path : List String)
    (c d : Candidate) : Prop :=
  ∃ way, a.Route caller arity c.registration path way d.registration ∧
    d.pathGuards = c.pathGuards ++ way.filterMap Opened.guard?

/-- Following a path leads to candidates at the ends of routes. -/
theorem descend_run {path : List String} {found result : List Candidate} (hp : p.arena.Closed)
    (hcaller : caller < p.arena.size) (hfound : ∀ t ∈ scopesIn found, t < p.arena.size)
    (hrun : (descend caller arity path found).run p = (.ok result, q)) :
    Finds p q result ∧ ∀ d ∈ result, ∃ c ∈ found, c.Behind q.arena caller arity path d := by
  induction path generalizing p q found result with
  | nil =>
    cases hrun
    exact ⟨⟨hp, .refl _, hfound⟩, fun d hd => ⟨d, hd, [], .here _, (List.append_nil _).symm⟩⟩
  | cons name rest ih =>
    refine gather_run (R := fun a => Candidate.Behind a caller arity (name :: rest)) hp
      (fun c hc m n here hm hext hrun => ?_)
      (fun ha hb hext hab ⟨way, hroute, hguards⟩ => ⟨way, hroute.extends hab ha hb
        (Nat.lt_of_lt_of_le hcaller hext.size), hguards⟩) hrun
    have hcallerm : caller < m.arena.size := Nat.lt_of_lt_of_le hcaller hext.size
    have hcm : ∀ t ∈ scopesIn c, t < m.arena.size := fun t ht =>
      Nat.lt_of_lt_of_le (hfound t (mem_scopesIn_list.2 ⟨c, hc, ht⟩)) hext.size
    obtain ⟨members, k, hmembers, hrun⟩ := ok_of_run_bind hrun
    -- the namespace itself, and then what lies behind its members
    have hworks : Works m.arena.size (caller :: scopesIn c)
        (namespaceMembers caller name (stepArity arity rest) c) :=
      namespaceMembers_works name _ (.head _) (List.subset_cons_self _ _)
    have hk := hworks.finds hm (List.forall_mem_cons.2 ⟨hcallerm, hcm⟩) hmembers
    obtain ⟨o, horeg, hopens, hguard⟩ := namespaceMembers_run hm hcallerm hcm hmembers
    have hcallerk : caller < k.arena.size := Nat.lt_of_lt_of_le hcallerm hk.grown.size
    obtain ⟨hn, hbehind⟩ := ih hk.closed hcallerk hk.inRange hrun
    refine ⟨⟨hn.closed, hk.grown.trans hn.grown, hn.inRange⟩, fun d hd => ?_⟩
    obtain ⟨e, he, way, hroute, hguards⟩ := hbehind d hd
    obtain ⟨hmember, hpath⟩ := hguard e he
    refine ⟨o :: way, ?_, ?_⟩
    · rw [← horeg]
      refine .into (hopens.extends hn.grown hk.closed hn.closed hcallerk) ?_ hroute
      rwa [hn.grown.ownMixins_eq hopens.inside_lt]
    · rw [hguards, hpath, List.append_assoc]
      cases hg : o.guard? <;> simp [hg]

/-- Every candidate that a path leads to lies at the end of a route from a definition that the
caller sees, and carries the guards of the namespaces on this route. -/
theorem findMixins_run {path : List String} {candidates : List Candidate} (hp : p.arena.Closed)
    (hcaller : caller < p.arena.size)
    (hrun : (findMixins caller arity path).run p = (.ok candidates, q)) :
    Finds p q candidates ∧ ∀ c ∈ candidates, ∃ name rest first way, path = name :: rest ∧
      first ∈ p.arena.lookupMixins caller name (stepArity arity rest) ∧
      q.arena.Route caller arity first rest way c.registration ∧
      c.pathGuards = way.filterMap Opened.guard? := by
  have hworks : Works p.arena.size [caller] (findMixins caller arity path) :=
    findMixins_works arity path (.head _)
  refine ⟨hworks.finds hp (List.forall_mem_singleton.2 hcaller) hrun, ?_⟩
  match path, hrun with
  | [], hrun =>
    cases hrun
    exact nofun
  | [name], hrun =>
    cases hrun
    intro c hc
    obtain ⟨r, hr, rfl⟩ := List.mem_map.1 hc
    exact ⟨name, [], r, [], rfl, hr, .here r, rfl⟩
  | name :: next :: rest, hrun =>
    obtain ⟨found, m, hfound, hrun⟩ := ok_of_run_bind hrun
    cases hfound
    have hfound : ∀ t ∈ scopesIn ((p.arena.lookupMixins caller name (some 0)).map
        fun r => (⟨r, []⟩ : Candidate)), t < p.arena.size := by
      have hworks : Works p.arena.size [caller] (visibleMixins caller name (some 0)) :=
        visibleMixins_works name _ (.head _)
      exact (hworks.finds hp (List.forall_mem_singleton.2 hcaller) rfl).inRange
    intro c hc
    obtain ⟨d, hd, way, hroute, hguards⟩ := (descend_run hp hcaller hfound hrun).2 c hc
    obtain ⟨r, hr, rfl⟩ := List.mem_map.1 hd
    exact ⟨name, next :: rest, r, way, rfl, hr, hroute, hguards⟩

/-! ## Guards that take a candidate out -/

/-- A guard that is no for both values of `default()`, or has no value. -/
def Disables (a : Arena) (g : ScopedGuard) : Prop :=
  g.1.verdict a g.2 = .ok .doNotUse ∨ ∃ e, g.1.verdict a g.2 = .error e

/-- What a guard says does not depend on scopes that were added later. -/
theorem disables_extends {g : ScopedGuard} (h : a.Extends b) (ha : a.Closed)
    (hg : g.2 < a.size) : Disables b g ↔ Disables a g := by
  have := Condition.verdict_shift (h.shifted ha) g.2 g.1
  rw [shift_of_lt hg] at this
  rw [Disables, this, Disables]

/-- One guard that says no is enough. -/
theorem Verdict.and_doNotUse (v : Verdict) : v.and .doNotUse = .doNotUse := by
  cases v <;> rfl

/-- One such guard among others makes the verdict of all no, or leaves them without one, wherever it
stands and whatever the others say. -/
theorem verdictFrom_of_disables {guards : List ScopedGuard} {g : ScopedGuard} (hg : g ∈ guards)
    (h : Disables a g) (v : Verdict) :
    verdictFrom a v guards = .ok .doNotUse ∨ ∃ e, verdictFrom a v guards = .error e := by
  induction guards generalizing v with
  | nil => cases hg
  | cons first rest ih =>
    obtain ⟨guard, scope⟩ := first
    cases hverdict : guard.verdict a scope with
    | error e =>
      refine .inr ⟨e, ?_⟩
      rw [verdictFrom, hverdict]
      rfl
    | ok u =>
      rw [verdictFrom_cons hverdict]
      split
      · next hstop => exact .inl (congrArg Except.ok hstop)
      · next hgo =>
        rcases List.mem_cons.1 hg with rfl | hg
        · rcases h with h | ⟨e, h⟩
          · rw [hverdict] at h
            cases h
            exact absurd v.and_doNotUse hgo
          · cases hverdict.symm.trans h
        · exact ih hg _

/-- With a guard that disables it a candidate is out, or its guards have no value. -/
theorem verdictOf_of_disables {guards : List ScopedGuard} {g : ScopedGuard} (hg : g ∈ guards)
    (h : Disables a g) :
    verdictOf a guards = .ok .doNotUse ∨ ∃ e, verdictOf a guards = .error e :=
  verdictFrom_of_disables hg h .use

end

section
variable {a : Arena} {call : String} {args : List Actual} {caller : ScopeId} {p q : Progress}

/-- A candidate with such a guard on its way is not accepted. -/
theorem Candidate.attempt_of_disables {c : Candidate} {g : ScopedGuard} {t : Trial}
    (hp : p.arena.Closed) (hg : g ∈ c.pathGuards) (hin : g.2 < p.arena.size)
    (h : Disables p.arena g) (hrun : (c.attempt call args caller).run p = (.ok t, q)) :
    t.accepted = none := by
  obtain ⟨binding, m, hbind, hrun⟩ := ok_of_run_bind hrun
  cases binding with
  | patternMismatch =>
    cases hrun
    rfl
  | rejected problem =>
    cases hrun
    rfl
  | bound scope =>
    obtain ⟨working, n, hjoin, hrun⟩ := ok_of_run_bind hrun
    obtain ⟨verdict, k, hverdict, hrun⟩ := ok_of_run_bind hrun
    cases hverdict
    cases hrun
    -- binding and joining have only added scopes
    have hext : p.arena.Extends q.arena := by
      have hboth : Confined p.arena.size
          (c.registration.mixin.bind c.registration.closure call args >>= fun _ =>
            Scoped.create (.join caller scope)) :=
        (Mixin.bind_confined _ _ call args).bind fun _ => Scoped.confined_join caller scope
      obtain ⟨b, hb, hgrows⟩ := hboth p
      rw [run_bind_ok hbind, hjoin] at hb
      cases hb
      exact hgrows.extends (Nat.le_refl _)
    have hguards : g ∈ c.guards working := List.mem_append_left _ hg
    rcases verdictOf_of_disables hguards ((disables_extends hext hp hin).2 h) with h | ⟨e, h⟩
    · rw [h]
      rfl
    · rw [h]
      rfl

/-- A trial that is accepted is that of an attempt. -/
theorem Candidate.trial_run {c : Candidate} {t : Trial}
    (hrun : (c.trial call args caller).run p = (.ok t, q)) :
    ∃ m, (c.attempt call args caller).run p = (.ok t, m) := by
  obtain ⟨snapshot, m, hmark, hrun⟩ := ok_of_run_bind hrun
  cases hmark
  obtain ⟨u, n, hattempt, hrun⟩ := ok_of_run_bind hrun
  have hsettle : ((u.settle (p.arena.snapshot caller .attempt)).run n).1 = .ok u := by
    unfold Trial.settle
    split <;> rfl
  rw [hrun] at hsettle
  cases hsettle
  exact ⟨n, hattempt⟩

/-- The candidates that are accepted are some of those tried, and none of them has a guard on its
way that takes it out. -/
theorem tryAll_enabled {candidates : List Candidate} {trials : Trials} (ha : a.Closed)
    (hargs : ∀ t ∈ scopesIn args, t < a.size) (hcaller : caller < a.size)
    (hc : ∀ t ∈ scopesIn candidates, t < a.size) (hp : p.arena.Closed) (hext : a.Extends p.arena)
    (hrun : (tryAll call args caller candidates).run p = (.ok trials, q)) :
    ∀ x ∈ trials.accepted, x.2.candidate ∈ candidates ∧
      ∀ g ∈ x.2.candidate.pathGuards, ¬ Disables a g := by
  induction candidates generalizing p trials with
  | nil =>
    cases hrun
    exact nofun
  | cons c rest ih =>
    obtain ⟨t, m, htrial, hrun⟩ := ok_of_run_bind hrun
    obtain ⟨ts, n, hrest, hrun⟩ := ok_of_run_bind hrun
    cases hrun
    rw [scopesIn_cons, List.forall_mem_append] at hc
    have hle : ∀ {u}, u < a.size → u < p.arena.size := fun hu => Nat.lt_of_lt_of_le hu hext.size
    intro x hx
    rcases List.mem_append.1 hx with hx | hx
    · -- this candidate is accepted
      obtain ⟨⟨verdict, working⟩, hx', hxeq⟩ := List.mem_map.1 (Option.toList_map ▸ hx)
      cases hxeq
      refine ⟨.head _, fun g hg hdisables => ?_⟩
      have hin : g.2 < a.size := hc.1 g.2 (List.mem_append_right _
        (scopesIn_guards c.pathGuards ▸ List.mem_map_of_mem hg))
      obtain ⟨k, hattempt⟩ := Candidate.trial_run htrial
      have hnone := Candidate.attempt_of_disables hp hg (hle hin)
        ((disables_extends hext ha hin).2 hdisables) hattempt
      rw [hnone] at hx'
      cases hx'
    · -- one of the others is, and its trial finds the arena with more scopes at most
      have hworks : Works p.arena.size (caller :: (scopesIn args ++ scopesIn c))
          (c.trial call args caller) :=
        Candidate.trial_works call (by simp) (by simp) (.head _)
      obtain ⟨hready, hgrows, -⟩ := hworks.after (hp.ready (Nat.le_refl _)) (by
        intro u hu
        rcases List.mem_cons.1 hu with rfl | hu
        · exact hle hcaller
        · rcases List.mem_append.1 hu with hu | hu
          · exact hle (hargs u hu)
          · exact hle (hc.1 u hu)) htrial
      obtain ⟨hmem, henabled⟩ := ih hc.2 hready.toClosed
        (hext.trans (hgrows.extends (Nat.le_refl _))) hrest x hx
      exact ⟨.tail _ hmem, henabled⟩

end

/-! ## Calls -/

section
variable {caller : ScopeId} {p q : Progress} {expand expand' : Expander}

/-- A call settles on candidates that it has found, and on none with a guard on its way that takes
it out. -/
theorem Call.select_enabled {call : Call} {args : List Actual} {candidates : List Candidate}
    {selected : List Selected} {m : Progress} (hp : p.arena.Closed)
    (hcaller : caller < p.arena.size)
    (hargs : ((evalArguments caller call.args).run p).1 = .ok args)
    (hfound : (findMixins caller (some args.length) call.path).run p = (.ok candidates, q))
    (hselect : (call.select caller).run p = (.ok (some selected), m)) :
    ∀ s ∈ selected, s.candidate ∈ candidates ∧
      ∀ g ∈ s.candidate.pathGuards, ¬ Disables q.arena g := by
  have hargs : (evalArguments caller call.args).run p = (.ok args, p) :=
    Prod.ext hargs (evalArguments_state caller call.args p)
  have hworks : Works p.arena.size [caller] (evalArguments caller call.args) :=
    evalArguments_works (.head _) call.args
  obtain ⟨-, -, hargsin⟩ := hworks.after (hp.ready (Nat.le_refl _))
    (List.forall_mem_singleton.2 hcaller) hargs
  have hq := (findMixins_run hp hcaller hfound).1
  have hfound : (Expand.onScopes (findMixins caller (some args.length) call.path)).run p =
      (.ok candidates, q) := run_mapError_ok hfound Error.eval
  rw [Call.select, run_bind_ok hargs, run_bind_ok hfound] at hselect
  split at hselect
  · obtain ⟨others, k, -, hselect⟩ := ok_of_run_bind hselect
    cases hselect
  · obtain ⟨trials, k, htrials, hselect⟩ := ok_of_run_bind hselect
    cases hselect
    intro s hs
    obtain ⟨x, hx, rfl⟩ := List.mem_map.1 hs
    exact tryAll_enabled hq.closed
      (fun t ht => Nat.lt_of_lt_of_le (hargsin t ht) hq.grown.size)
      (Nat.lt_of_lt_of_le hcaller hq.grown.size) hq.inRange hq.closed (.refl _)
      (ok_of_run_mapError htrials) x (List.mem_filter.1 hx).1

/-- Nothing but the bodies that a call has settled on is expanded. -/
theorem expandSelected_congr {selected : List Selected}
    (h : ∀ s ∈ selected, expand s.fetched = expand' s.fetched) :
    expandSelected expand caller selected = expandSelected expand' caller selected := by
  induction selected with
  | nil => rfl
  | cons s rest ih =>
    have hs : expand s.fetched = expand' s.fetched := h s (.head _)
    rw [expandSelected, expandSelected, ih fun t ht => h t (.tail _ ht)]
    exact congrArg (· >>= _) hs

/-- The nodes and effects of a call depend only on what is made of the bodies it settles on. -/
theorem Call.expand_congr {call : Call}
    (h : ∀ selected m, (call.select caller).run p = (.ok (some selected), m) →
      ∀ s ∈ selected, expand s.fetched = expand' s.fetched) :
    (call.expand expand caller).run p = (call.expand expand' caller).run p := by
  rw [Call.expand_eq, Call.expand_eq, bind_eq, bind_eq, run_andThen, run_andThen]
  cases hselect : ((call.select caller).run p).1 with
  | error e => rfl
  | ok selected =>
    cases selected with
    | none => rfl
    | some selected =>
      have := h selected _ (Prod.ext hselect rfl)
      rw [orFail, orFail, Call.carryOut, Call.carryOut, expandSelected_congr this]

end

/-- Every candidate that a path leads to from a scope carries exactly the guards of the namespaces
it was reached through, in the order of the path, and each of them is evaluated in a scope that sees
what is seen in the opened namespace and after it what the caller sees. So a call settles on no
candidate of which a guard on the way is no for both values of `default()` or has no value, whatever
its other guards are. The bodies of such candidates are not expanded: whatever an expander makes of
them, the call comes to the same. -/
theorem Call.expand_disabled {p : Progress} {caller : ScopeId} (hp : p.arena.Closed)
    (hcaller : caller < p.arena.size) :
    (∀ arity path candidates q, (findMixins caller arity path).run p = (.ok candidates, q) →
      ∀ c ∈ candidates, ∃ name rest first way, path = name :: rest ∧
        first ∈ p.arena.lookupMixins caller name (stepArity arity rest) ∧
        q.arena.Route caller arity first rest way c.registration ∧
        c.pathGuards = way.filterMap Opened.guard?) ∧
    ∀ (call : Call) args candidates q, ((evalArguments caller call.args).run p).1 = .ok args →
      (findMixins caller (some args.length) call.path).run p = (.ok candidates, q) →
      (∀ selected m, (call.select caller).run p = (.ok (some selected), m) → ∀ s ∈ selected,
        s.candidate ∈ candidates ∧ ∀ g ∈ s.candidate.pathGuards, ¬ Disables q.arena g) ∧
      ∀ expand expand' : Expander,
        (∀ s : Selected, s.candidate ∈ candidates →
          (∀ g ∈ s.candidate.pathGuards, ¬ Disables q.arena g) →
          expand s.fetched = expand' s.fetched) →
        (call.expand expand caller).run p = (call.expand expand' caller).run p := by
  refine ⟨fun arity path candidates q hrun => (findMixins_run hp hcaller hrun).2, ?_⟩
  intro call args candidates q hargs hfound
  have henabled := fun selected m
      (hselect : (call.select caller).run p = (.ok (some selected), m)) =>
    Call.select_enabled hp hcaller hargs hfound hselect
  refine ⟨henabled, fun expand expand' h => Call.expand_congr fun selected m hselect s hs => ?_⟩
  obtain ⟨hmem, hguards⟩ := henabled selected m hselect s hs
  exact h s hmem hguards

/-- Two namespaces, of which the inner one is disabled. The call finds the mixin behind them, with
the guards of both, and expands nothing, although neither the mixin itself nor the outer namespace
speaks against it. -/
theorem Call.expand_disabled_inner :
    let sheet : Stylesheet := ⟨[], [.rule ⟨["#a"], some (.truthy (.keyword "true")), [
      .rule ⟨["#b"], some (.truthy (.keyword "no")), [.mixin ⟨0, 1⟩ ⟨".m", [], none, []⟩]⟩]⟩]⟩
    let p := ((sheet.script 1).run Progress.start).2
    let call : Call := ⟨["#a", "#b", ".m"], [], false, {}⟩
    ∃ c q, (findMixins Arena.root (some 0) call.path).run p = (.ok [c], q) ∧
      c.pathGuards.map Prod.fst = [.truthy (.keyword "true"), .truthy (.keyword "no")] ∧
      (∃ first way, q.arena.Route Arena.root (some 0) first ["#b", ".m"] way c.registration ∧
        c.pathGuards = way.filterMap Opened.guard?) ∧
      ∀ expand expand' : Expander,
        (call.expand expand Arena.root).run p = (call.expand expand' Arena.root).run p := by
  intro sheet p call
  have hp : p.arena.Closed := (sheet.script_safe 1).closed
  have hroot : Arena.root < p.arena.size := (sheet.script_safe 1).floor
  obtain ⟨c, q, hfind, hguards, hdisabled⟩ :
      ∃ c q, (findMixins Arena.root (some 0) call.path).run p = (.ok [c], q) ∧
        c.pathGuards.map Prod.fst = [.truthy (.keyword "true"), .truthy (.keyword "no")] ∧
        ∃ g ∈ c.pathGuards, Disables q.arena g :=
    ⟨_, _, rfl, rfl, _, .tail _ (.head _), .inl rfl⟩
  obtain ⟨hroutes, hcalls⟩ := Call.expand_disabled hp hroot
  obtain ⟨name, rest, first, way, hpath, -, hroute, hway⟩ :=
    hroutes _ _ _ _ hfind c (.head _)
  cases hpath
  refine ⟨c, q, hfind, hguards, ⟨first, way, hroute, hway⟩, fun expand expand' => ?_⟩
  refine (hcalls call [] [c] q rfl hfind).2 expand expand' fun s hs henabled => ?_
  obtain ⟨g, hg, hno⟩ := hdisabled
  rw [← List.mem_singleton.1 hs] at hg
  exact absurd hno (henabled g hg)

end LessSheet
