import LessSheet.Proofs.Expansion.Export

/-! # Called rulesets

A ruleset held by a variable is fetched (`fetchRuleset`), its body is expanded, and then the mixins
that the body has at its end are brought into force in the scope of the call, in order. Variables
are not exported. Those that the body defines, or that mixins export into the body, stay in scopes
that were not there before.

So of the scopes that were there only the caller's changes, and its log gets registrations alone. A
registration is no value of any variable, so each scope sees of every variable what it saw before
(`expandDetached_lookup`).
-/

namespace LessSheet

open Script

/-! ## A call in two parts -/

/-- The ruleset that a variable holds, to be expanded where both the ruleset and the caller are
seen. -/
def fetchRuleset (caller : ScopeId) (name : String) : Expand Fetched := do
  match ← Expand.view caller fun v => v.lookup name with
  | .ruleset _ body scope =>
    let working ← Expand.onScopes (Scoped.create (.join caller scope))
    return ⟨"@" ++ name, body, working, scope⟩
  | _ => throw (.eval (.notCallable name))

section
variable {expand : Expander} {caller : ScopeId} {name : String} {p q : Progress}

/-- A ruleset is fetched and expanded, and its mixins are exported. -/
theorem expandDetached_eq (expand : Expander) (caller : ScopeId) (name : String)
    (comments : Comments) :
    expandDetached expand caller name comments = do
      let fetched ← fetchRuleset caller name
      let expanded ← expand fetched
      let exports ← Expand.onScopes (collectExports false caller expanded.scope)
      Expand.onScopes (commitExports caller [exports])
      return Css.attachComments comments expanded.nodes := by
  simp only [expandDetached, fetchRuleset, bind_assoc]
  refine congrArg (_ >>= ·) (funext fun v => ?_)
  cases v with
  | ruleset site body scope => simp only [bind_assoc, pure_bind]
  | number _ | keyword _ | quoted _ _ | list _ _ | function _ _ => rfl

/-- Looking up the ruleset that a variable holds only reads. -/
theorem fetchRuleset_works {s : ScopeId} {K : List ScopeId} (hcaller : caller ∈ K) :
    Works s K (fetchRuleset caller name) := by
  refine (Expand.works_view hcaller (View.reads_lookup hcaller name)).bind fun v => ?_
  split
  · refine (Expand.works_onScopes (Scoped.works_join (by simp [hcaller]) (by simp))).bind
      fun working => .pure (by simp)
  · exact .throw

/-- A call of a ruleset that comes to nodes has expanded the ruleset's body in scopes of its own and
has committed to the caller's scope the mixins of the body's scope. -/
theorem expandDetached_run {comments : Comments} {nodes : List Css.Node} (hexpand : expand.Works)
    (hp : p.arena.Closed) (hcaller : caller < p.arena.size)
    (hrun : (expandDetached expand caller name comments).run p = (.ok nodes, q)) :
    ∃ fetched m expanded n, ∃ a : Arena,
      (fetchRuleset caller name).run p = (.ok fetched, m) ∧
      (expand fetched).run m = (.ok expanded, n) ∧
      nodes = Css.attachComments comments expanded.nodes ∧
      (m.arena.Closed ∧ p.arena.size ≤ m.arena.size ∧
        ∀ t ∈ scopesIn fetched, t < m.arena.size) ∧
      n.arena.size ≤ a.size ∧ a.Closed ∧ Arena.Grows p.arena.size p.arena a ∧
      Arena.Commits caller ((n.arena.mixins expanded.scope).map .mixin) a q.arena := by
  rw [expandDetached_eq] at hrun
  obtain ⟨fetched, m, hm, hrun⟩ := ok_of_run_bind hrun
  obtain ⟨expanded, n, hn, hrun⟩ := ok_of_run_bind hrun
  obtain ⟨exports, r, hr, hrun⟩ := ok_of_run_bind hrun
  obtain ⟨_, k, hk, hrun⟩ := ok_of_run_bind hrun
  cases hrun
  have hr := ok_of_run_mapError hr
  -- the ruleset, with the scope that its body works in
  have hfetch : Works p.arena.size [caller] (fetchRuleset caller name) :=
    fetchRuleset_works (.head _)
  obtain ⟨hmready, hpm, hfetched⟩ := hfetch.after (hp.ready (Nat.le_refl _))
    (List.forall_mem_singleton.2 hcaller) hm
  -- its body
  obtain ⟨hnready, hmn, hscope⟩ := (hexpand m.arena.size _ fetched (List.Subset.refl _)).after
    (hmready.toClosed.ready (Nat.le_refl _)) hfetched hn
  have hbody : expanded.scope < n.arena.size := hscope _ (.head _)
  have hpn : Arena.Grows p.arena.size p.arena n.arena := hpm.trans (hmn.of_fresh (Nat.le_refl _))
  have hcallern : caller < n.arena.size := Nat.lt_of_lt_of_le hcaller hpn.size
  -- what it exports
  have hcollect : Works n.arena.size [caller, expanded.scope]
      (collectExports false caller expanded.scope) :=
    collectExports_works false (.head _) (.tail _ (.head _))
  obtain ⟨hrready, hnr, -⟩ := hcollect.after (hnready.toClosed.ready (Nat.le_refl _))
    (List.forall_mem_cons.2 ⟨hcallern, List.forall_mem_singleton.2 hbody⟩) hr
  obtain ⟨exported, r', hr', hlog, hall⟩ := collectExports_run false hnready.toClosed hcallern hbody
  rw [hr] at hr'
  cases hr'
  have hnone : exported = [] := by
    cases hall
    rfl
  rw [hnone] at hlog
  obtain ⟨b, hb, hcommits⟩ := commitExports_run [n.arena.size]
    (Nat.lt_of_lt_of_le hcallern hnr.size)
  rw [ok_of_run_mapError hk] at hb
  cases hb
  rw [List.flatMap_singleton, hlog] at hcommits
  exact ⟨fetched, m, expanded, n, r.arena, hm, hn, rfl, ⟨hmready.toClosed, hpm.size, hfetched⟩,
    hnr.size, hrready.toClosed, hpn.trans (hnr.of_fresh (Nat.le_refl _)), hcommits⟩

end

/-! ## What is seen afterwards -/

namespace Arena

variable {a b c : Arena} {s : ScopeId} {rs : List Registration}

/-- Registrations that are committed all come to the log. -/
theorem Commits.log_mixins (h : Commits s (rs.map .mixin) a b) :
    b.log s = a.log s ++ rs.map .mixin := by
  rw [h.log, List.filter_eq_self.2]
  intro e he
  obtain ⟨r, -, rfl⟩ := List.mem_map.1 he
  rfl

/-- Committing registrations to a scope changes no variable for any scope. -/
theorem Commits.lookup_mixins (h : Commits s (rs.map .mixin) a b) (ha : a.Ordered) (t : ScopeId)
    (name : String) : b.lookup t name = a.lookup t name := by
  have hb : b.Ordered := fun u v hv => ha u v (h.link_eq u ▸ hv)
  refine search_congr ha hb (fun u _ => h.link_eq u) fun u _ => ?_
  by_cases hus : u = s
  · rw [hus, h.ownValue?_eq, latest_mixins, Option.or_none]
  · exact ownValue?_congr (h.frame u hus) name

end Arena

/-- Wherever the expansion of a stylesheet has got: if a call of a ruleset, in any scope, comes to
nodes, then every scope that was there sees of every variable what it saw before the call. Of the
scopes that were there the caller's alone is another than before: the mixins that the scope of the
ruleset's body has at its end follow its log, in order. -/
theorem expandDetached_lookup (sheet : Stylesheet) (limit left : Nat)
    {y : Expand (List Css.Node)} {p q : Progress} {caller : ScopeId} {nodes : List Css.Node}
    (h : Reaches (sheet.script limit) Progress.start y p) (hcaller : caller < p.arena.size)
    (name : String) (comments : Comments)
    (hrun : (expandDetached (expandBody limit left) caller name comments).run p = (.ok nodes, q)) :
    (∀ s < p.arena.size, ∀ v, q.arena.lookup s v = p.arena.lookup s v) ∧
    (∀ s < p.arena.size, s ≠ caller → q.arena.scope s = p.arena.scope s) ∧
    ∃ fetched m expanded n,
      (fetchRuleset caller name).run p = (.ok fetched, m) ∧
      (expandBody limit left fetched).run m = (.ok expanded, n) ∧
      nodes = Css.attachComments comments expanded.nodes ∧
      q.arena.log caller = p.arena.log caller ++ (n.arena.mixins expanded.scope).map .mixin := by
  have hp : p.arena.Closed := (sheet.script_safe limit y p h).closed
  obtain ⟨fetched, m, expanded, n, a, hm, hn, hnodes, -, -, ha, hpa, hcommits⟩ :=
    expandDetached_run (expandBody_works limit left) hp hcaller hrun
  -- until the commit, the scopes that were there are as they were
  have hscope : ∀ s < p.arena.size, a.scope s = p.arena.scope s := fun s hs =>
    hpa.scope_eq (Nat.le_refl _) hs
  refine ⟨fun s hs v => ?_, fun s hs hne => ?_, fetched, m, expanded, n, hm, hn, hnodes, ?_⟩
  · rw [hcommits.lookup_mixins ha.ordered]
    exact Arena.lookup_congr hp.ordered ha.ordered
      (fun t ht => hscope t (Nat.lt_of_le_of_lt ht hs)) v
  · rw [hcommits.frame s hne, hscope s hs]
  · rw [hcommits.log_mixins, Arena.log, hscope caller hcaller, Arena.log]

/-- A ruleset of the root scope that gives a variable of its caller another value, calls a mixin
that exports a variable, and defines a mixin. -/
theorem expandDetached_lookup_exporting :
    let sheet : Stylesheet := ⟨[], [
      .mixin ⟨0, 1⟩ ⟨".m", [], none, [.assign "b" (.keyword "x")]⟩,
      .assign "a" (.keyword "z"),
      .assign "r" (.ruleset ⟨0, 2⟩ [.assign "a" (.keyword "x"), .call ⟨[".m"], [], false, {}⟩,
        .mixin ⟨0, 3⟩ ⟨".k", [], none, []⟩])]⟩
    let p := ((sheet.script 2).run Progress.start).2
    let x := expandDetached (expandBody 2 2) Arena.root "r" {}
    ∃ nodes q, x.run p = (.ok nodes, q) ∧
      (∀ v, q.arena.lookup Arena.root v = p.arena.lookup Arena.root v) ∧
      (p.arena.lookup Arena.root "a").map Value.text = some "z" ∧
      (p.arena.lookup Arena.root "b").isNone ∧
      (q.arena.mixins Arena.root).map (·.mixin.name) = [".m", ".k"] := by
  intro sheet p x
  have hroot : Arena.root < p.arena.size := (sheet.script_safe 2).floor
  have hreach := reaches_done (sheet.script 2) Progress.start
  have hok : (x.run p).1.isOk := by decide +kernel
  have ha : (p.arena.lookup Arena.root "a").map Value.text = some "z" := by decide +kernel
  have hb : (p.arena.lookup Arena.root "b").isNone := by decide +kernel
  have hk : ((x.run p).2.arena.mixins Arena.root).map (·.mixin.name) = [".m", ".k"] := by
    decide +kernel
  change Reaches _ _ _ p at hreach
  clear_value p
  cases hx : x.run p with
  | mk r q =>
    rw [hx] at hok hk
    cases r with
    | error e => cases hok
    | ok nodes =>
      obtain ⟨hlaw, -⟩ := expandDetached_lookup sheet 2 2 hreach hroot "r" {} hx
      exact ⟨nodes, q, rfl, hlaw Arena.root hroot, ha, hb, hk⟩

end LessSheet
