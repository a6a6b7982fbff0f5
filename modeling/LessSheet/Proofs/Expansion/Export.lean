import LessSheet.Proofs.Expansion.Frame
import LessSheet.Proofs.Scope.Commit

/-! # Exports

What a body has defined is collected in a scope of its own: the values that its variables have last,
and then its mixins (`collectExports_run`). A ruleset among the values sees the caller from then on:
the scope that its free names are looked up in is joined with the caller's (`Exported`). Exports
that are brought into force are committed to the caller's scope, those of one scope after those of
the other (`commitExports_run`).

A value stays what it is as exported while more is exported, because work in one scope changes no
link and no other scope (`Exported.persists`).
-/

namespace LessSheet

open Script

/-! ## Exported values -/

namespace Arena

variable {a b : Arena} {s caller callee j : ScopeId} {v w : Value}

/-- The scope `j` is what joining a caller and a callee answers: the callee itself if the caller is
in its sight, and else a scope without entries that leads to the callee and then to the caller. -/
def IsJoin (a : Arena) (caller callee j : ScopeId) : Prop :=
  if a.reaches callee caller then j = callee else a.scope j = ⟨.join callee caller, [], none⟩

/-- The value `w` is `v` as it is exported to a caller: in a ruleset, the scope its free names are
looked up in is joined with the caller. -/
inductive Exported (a : Arena) (caller : ScopeId) : Value → Value → Prop where
  | ruleset {site : Site} {body : List Item} {scope j : ScopeId} : a.IsJoin caller scope j →
    Exported a caller (.ruleset site body scope) (.ruleset site body j)
  | other {v : Value} : (∀ site body scope, v ≠ .ruleset site body scope) → Exported a caller v v

/-- Joining answers a join, also in the arena that it leaves. -/
theorem isJoin_join (ha : a.Closed) (hcaller : caller < a.size) (hcallee : callee < a.size) :
    (a.join caller callee).2.IsJoin caller callee (a.join caller callee).1 := by
  by_cases hr : a.reaches callee caller
  · have hjoin : a.join caller callee = (callee, a) := if_pos hr
    rw [hjoin, IsJoin, if_pos hr]
  · have hjoin : a.join caller callee = a.push (.join callee caller) := if_neg hr
    have htargets : ∀ t ∈ (Link.join callee caller).targets, t < a.size := by
      intro t ht
      rcases List.mem_cons.1 ht with rfl | ht
      · exact hcallee
      · exact List.mem_singleton.1 ht ▸ hcaller
    have hreaches : (a.push (.join callee caller)).2.reaches callee caller =
        a.reaches callee caller := by
      refine reaches_congr ha.ordered (ha.push htargets).ordered (fun t ht => ?_) caller
      rw [scope_push, if_neg (Nat.ne_of_lt (Nat.lt_of_le_of_lt ht hcallee))]
    rw [hjoin, IsJoin, hreaches, if_neg hr, scope_push]
    exact if_pos rfl

/-- Work in a scope that is not a join with the caller itself leaves joins with the caller. -/
theorem IsJoin.persists (h : a.IsJoin caller callee j) (ha : a.Ordered) (hb : b.Ordered)
    (hcallee : callee < a.size) (hlink : ∀ t < a.size, (b.scope t).link = (a.scope t).link)
    (hsame : a.SameBeside s b) (hs : (a.scope s).link ≠ .join callee caller) :
    b.IsJoin caller callee j := by
  have hreaches : b.reaches callee caller = a.reaches callee caller :=
    reaches_congr ha hb (fun t ht => hlink t (Nat.lt_of_le_of_lt ht hcallee)) caller
  rw [IsJoin, hreaches]
  rw [IsJoin] at h
  split at h
  · next hr => rwa [if_pos hr]
  · next hr =>
    have hj : j < a.size := by
      refine Nat.lt_of_not_le fun hle => ?_
      rw [scope_of_size_le hle] at h
      cases h
    have hjs : j ≠ s := by
      rintro rfl
      exact hs (congrArg Scope.link h)
    rw [if_neg hr, hsame j hj hjs, h]

/-- An exported value is that as long as links stay and joins with the caller are left alone. -/
theorem Exported.persists (h : a.Exported caller v w) (ha : a.Ordered) (hb : b.Ordered)
    (hv : ∀ t ∈ scopesIn v, t < a.size) (hlink : ∀ t < a.size, (b.scope t).link = (a.scope t).link)
    (hsame : a.SameBeside s b) (hs : ∀ callee, (a.scope s).link ≠ .join callee caller) :
    b.Exported caller v w := by
  cases h with
  | ruleset hj => exact .ruleset (hj.persists ha hb (hv _ (.head _)) hlink hsame (hs _))
  | other hv => exact .other hv

/-- An exported value is that also after further work in a scope that leads nowhere. -/
theorem Exported.grows (h : a.Exported caller v w) (ha : a.Closed) (hb : b.Closed)
    (hv : ∀ t ∈ scopesIn v, t < a.size) (hgrows : Grows s a b) (hs : (a.scope s).link = .root) :
    b.Exported caller v w :=
  h.persists ha.ordered hb.ordered hv (fun _ => hgrows.link_eq) hgrows.frame
    fun _ hjoin => nomatch hs.symm.trans hjoin

/-- Variables, and the same variables with their values as they are exported. -/
def ExportedAll (a : Arena) (caller : ScopeId) (vars exported : List (String × Value)) : Prop :=
  List.Forall₂ (fun v w => w.1 = v.1 ∧ a.Exported caller v.2 w.2) vars exported

/-- What was exported stays exported while work goes on in a scope right below the root. -/
theorem ExportedAll.grows {vars exported : List (String × Value)}
    (h : a.ExportedAll caller vars exported) (ha : a.Closed) (hb : b.Closed)
    (hvars : ∀ t ∈ scopesIn vars, t < a.size) (hgrows : Grows s a b)
    (hs : (a.scope s).link = .root) : b.ExportedAll caller vars exported := by
  induction h with
  | nil => exact .nil
  | cons hhead _ ih =>
    rw [scopesIn_cons, List.forall_mem_append] at hvars
    exact .cons ⟨hhead.1, hhead.2.grows ha hb hvars.1 hgrows hs⟩ (ih hvars.2)

/-- An exported value is that also after entries have been committed to the caller. -/
theorem Exported.commits {entries : List Entry} (h : a.Exported caller v w) (ha : a.Closed)
    (hv : ∀ t ∈ scopesIn v, t < a.size) (hcommits : Commits caller entries a b) :
    b.Exported caller v w := by
  have hb : b.Ordered := fun t u hu => ha.older t u (hcommits.link_eq t ▸ hu)
  refine h.persists ha.ordered hb hv (fun t _ => hcommits.link_eq t)
    (fun t _ ht => hcommits.frame t ht) fun callee hjoin => ?_
  -- a scope does not lead to itself
  exact Nat.lt_irrefl _ (ha.older caller caller (by rw [hjoin]; exact .tail _ (.head _)))

/-- The values in a closed arena mention scopes that exist. -/
theorem Closed.ownValue?_inRange (ha : a.Closed) {name : String} (h : a.ownValue? s name = some v)
    {t : ScopeId} (ht : t ∈ scopesIn v) : t < a.size := by
  obtain ⟨e, he, hbound⟩ := List.exists_of_findSome?_eq_some h
  refine ha.stored t (.of_log (List.mem_reverse.1 he) ?_)
  cases e with
  | mixin r => cases hbound
  | binding n value =>
    rw [bound?] at hbound
    split at hbound
    · cases hbound
      exact ht
    · cases hbound

end Arena

/-! ## Collecting exports -/

section
variable {caller e : ScopeId} {p q : Progress}

/-- Exporting a value always gives one, and that one is exported. -/
theorem exportValue_run {v : Value} (hp : p.arena.Closed) (hcaller : caller < p.arena.size)
    (hv : ∀ t ∈ scopesIn v, t < p.arena.size) :
    ∃ w q, (exportValue caller v).run p = (.ok w, q) ∧ q.arena.Exported caller v w := by
  cases v with
  | ruleset site body scope =>
    exact ⟨_, _, rfl, .ruleset (Arena.isJoin_join hp hcaller (hv scope (.head _)))⟩
  | number _ | keyword _ | quoted _ _ | list _ _ | function _ _ => exact ⟨_, _, rfl, .other nofun⟩

/-- One variable is exported: an entry with its value as it is exported comes to the log. -/
theorem exportVariable_run (name : String) {v : Value} (hp : p.arena.Ready e)
    (hcaller : caller < p.arena.size) (he : e < p.arena.size)
    (hroot : (p.arena.scope e).link = .root) (hv : ∀ t ∈ scopesIn v, t < p.arena.size) :
    ∃ w q, (exportValue caller v >>= Scoped.define e name).run p = (.ok (), q) ∧
      q.arena.Ready e ∧ Arena.Grows e p.arena q.arena ∧
      q.arena.log e = p.arena.log e ++ [.binding name w] ∧ q.arena.Exported caller v w := by
  have hK : ∀ t ∈ e :: caller :: scopesIn v, t < p.arena.size :=
    List.forall_mem_cons.2 ⟨he, List.forall_mem_cons.2 ⟨hcaller, hv⟩⟩
  obtain ⟨w, m, hm, hw⟩ := exportValue_run hp.toClosed hcaller hv
  have hvalue : ∀ s, Works s (e :: caller :: scopesIn v) (exportValue caller v) := fun s =>
    exportValue_works (by simp) (List.subset_cons_of_subset _ (List.subset_cons_self _ _))
  have hrun : (exportValue caller v >>= Scoped.define e name).run p =
      (.ok (), { m with arena := m.arena.record e (.binding name w) }) := run_bind_ok hm
  have hworks : Works e (e :: caller :: scopesIn v)
      (exportValue caller v >>= Scoped.define e name) :=
    (hvalue e).bind fun u => Scoped.works_define (by simp) (by simp)
  -- the value itself is made in scopes that were not there, so the log is still what it was
  obtain ⟨hclosed, hfresh, -⟩ := (hvalue _).after (hp.toClosed.ready (Nat.le_refl _)) hK hm
  obtain ⟨hready, hgrows, -⟩ := hworks.after hp hK hrun
  have hscope : m.arena.scope e = p.arena.scope e := hfresh.scope_eq (Nat.le_refl _) he
  refine ⟨w, _, hrun, hready, hgrows, ?_, ?_⟩
  · rw [Arena.log_record, if_pos ⟨rfl, Nat.lt_of_lt_of_le he hfresh.size⟩, Arena.log, hscope]
    rfl
  · exact hw.grows hclosed.toClosed hready.toClosed
      (fun t ht => Nat.lt_of_lt_of_le (hv t ht) hfresh.size) (.record e _ _) (hscope ▸ hroot)

/-- The first variable is exported and bound in the fresh scope, and then the rest. -/
theorem exportVariables_cons (caller e : ScopeId) (name : String) (v : Value)
    (rest : List (String × Value)) :
    exportVariables caller e ((name, v) :: rest) =
      (exportValue caller v >>= Scoped.define e name) >>= fun _ => exportVariables caller e rest :=
  (bind_assoc (exportValue caller v) (Scoped.define e name) _).symm

/-- Variables are exported in order, each with its value as it is exported. -/
theorem exportVariables_run {vars : List (String × Value)} (hp : p.arena.Ready e)
    (hcaller : caller < p.arena.size) (he : e < p.arena.size)
    (hroot : (p.arena.scope e).link = .root) (hvars : ∀ t ∈ scopesIn vars, t < p.arena.size) :
    ∃ exported q, (exportVariables caller e vars).run p = (.ok (), q) ∧
      q.arena.log e = p.arena.log e ++ Arena.bindings exported ∧
      q.arena.ExportedAll caller vars exported := by
  induction vars generalizing p with
  | nil => exact ⟨[], p, rfl, (List.append_nil _).symm, .nil⟩
  | cons var rest ih =>
    obtain ⟨name, v⟩ := var
    rw [scopesIn_cons, List.forall_mem_append] at hvars
    obtain ⟨w, m, hm, hready, hgrows, hlog, hw⟩ :=
      exportVariable_run name hp hcaller he hroot hvars.1
    have hlt : ∀ {t}, t < p.arena.size → t < m.arena.size :=
      fun ht => Nat.lt_of_lt_of_le ht hgrows.size
    have hroot' : (m.arena.scope e).link = .root := (hgrows.link he).trans hroot
    obtain ⟨exported, q, hq, hrest, hall⟩ := ih hready (hlt hcaller) (hlt he) hroot'
      fun t ht => hlt (hvars.2 t ht)
    have hworks : Works e (e :: caller :: scopesIn rest) (exportVariables caller e rest) :=
      exportVariables_works (by simp) (by simp)
        (List.subset_cons_of_subset _ (List.subset_cons_self _ _))
    obtain ⟨hclosed, hmore, -⟩ := hworks.after hready (List.forall_mem_cons.2 ⟨hlt he,
      List.forall_mem_cons.2 ⟨hlt hcaller, fun t ht => hlt (hvars.2 t ht)⟩⟩) hq
    refine ⟨(name, w) :: exported, q, ?_, ?_, .cons ⟨rfl, ?_⟩ hall⟩
    · rw [exportVariables_cons, run_bind_ok hm, hq]
    · rw [hrest, hlog, List.append_assoc]
      rfl
    · exact hw.grows hready.toClosed hclosed.toClosed (fun t ht => hlt (hvars.1 t ht)) hmore hroot'

/-- Mixins are exported in order. -/
theorem exportMixins_run (rs : List Registration) (he : e < p.arena.size) :
    ∃ q, (exportMixins e rs).run p = (.ok (), q) ∧
      q.arena.log e = p.arena.log e ++ rs.map .mixin := by
  induction rs generalizing p with
  | nil => exact ⟨p, rfl, (List.append_nil _).symm⟩
  | cons r rest ih =>
    obtain ⟨q, hq, hlog⟩ := ih (p := { p with arena := p.arena.record e (.mixin r) })
      ((Arena.size_record p.arena e (.mixin r)).symm ▸ he)
    refine ⟨q, hq, ?_⟩
    rw [hlog, Arena.log_record, if_pos ⟨rfl, he⟩, List.append_assoc]
    rfl

/-- The exports of a body are put in a scope: its variables as they are exported, if it exports any,
and then its mixins. -/
theorem fillExports_run (withVariables : Bool) {body : ScopeId} (hp : p.arena.Ready e)
    (hcaller : caller < p.arena.size) (he : e < p.arena.size) (hbody : body < p.arena.size)
    (hne : body ≠ e) (hroot : (p.arena.scope e).link = .root) :
    ∃ exported m q,
      (exportVariables caller e (exportedVariables withVariables body p.arena)).run p =
        (.ok (), m) ∧
      (exportMixins e (m.arena.mixins body)).run m = (.ok (), q) ∧
      q.arena.log e =
        p.arena.log e ++ (Arena.bindings exported ++ (p.arena.mixins body).map .mixin) ∧
      q.arena.ExportedAll caller (exportedVariables withVariables body p.arena) exported := by
  have hvars : ∀ t ∈ scopesIn (exportedVariables withVariables body p.arena), t < p.arena.size := by
    intro t ht
    cases withVariables with
    | true => exact hp.stored t (Arena.ownVariables_mentions ht)
    | false => cases ht
  obtain ⟨exported, m, hm, hlog, hall⟩ := exportVariables_run hp hcaller he hroot hvars
  have hworks : Works e (e :: caller :: scopesIn (exportedVariables withVariables body p.arena))
      (exportVariables caller e (exportedVariables withVariables body p.arena)) :=
    exportVariables_works (by simp) (by simp)
      (List.subset_cons_of_subset _ (List.subset_cons_self _ _))
  obtain ⟨hready, hgrows, -⟩ := hworks.after hp (List.forall_mem_cons.2 ⟨he,
    List.forall_mem_cons.2 ⟨hcaller, hvars⟩⟩) hm
  have hmixins : m.arena.mixins body = p.arena.mixins body := by
    rw [Arena.mixins, Arena.mixins, Arena.log, Arena.log, hgrows.frame body hbody hne]
  have he' : e < m.arena.size := Nat.lt_of_lt_of_le he hgrows.size
  obtain ⟨q, hq, hlog'⟩ := exportMixins_run (m.arena.mixins body) he'
  have hrest : Works e (e :: scopesIn (m.arena.mixins body))
      (exportMixins e (m.arena.mixins body)) :=
    exportMixins_works (.head _) (List.subset_cons_self _ _)
  obtain ⟨hclosed, hmore, -⟩ := hrest.after hready (List.forall_mem_cons.2 ⟨he',
    fun t ht => hready.stored t (Arena.mixins_mentions ht)⟩) hq
  refine ⟨exported, m, q, hm, hq, ?_, ?_⟩
  · rw [hlog', hlog, hmixins, List.append_assoc]
  · exact hall.grows hready.toClosed hclosed.toClosed
      (fun t ht => Nat.lt_of_lt_of_le (hvars t ht) hgrows.size) hmore ((hgrows.link he).trans hroot)

/-- What a body exports stands in a new scope. -/
theorem collectExports_run (withVariables : Bool) {body : ScopeId} (hp : p.arena.Closed)
    (hcaller : caller < p.arena.size) (hbody : body < p.arena.size) :
    ∃ exported q, (collectExports withVariables caller body).run p = (.ok p.arena.size, q) ∧
      q.arena.log p.arena.size =
        Arena.bindings exported ++ (p.arena.mixins body).map .mixin ∧
      q.arena.ExportedAll caller (exportedVariables withVariables body p.arena) exported := by
  let start : Progress := { p with arena := (p.arena.push .root).2 }
  have hnew : start.arena.scope p.arena.size = ⟨.root, [], none⟩ := by
    rw [Arena.scope_push, if_pos rfl]
  have hown : start.arena.scope body = p.arena.scope body := by
    rw [Arena.scope_push, if_neg (Nat.ne_of_lt hbody)]
  have hvars : exportedVariables withVariables body start.arena =
      exportedVariables withVariables body p.arena := by
    rw [exportedVariables, exportedVariables, Arena.ownVariables, Arena.ownVariables, Arena.log,
      Arena.log, hown]
  have hmixins : start.arena.mixins body = p.arena.mixins body := by
    rw [Arena.mixins, Arena.mixins, Arena.log, Arena.log, hown]
  have htargets : ∀ t ∈ Link.root.targets, t < p.arena.size := by
    intro t ht
    cases ht
  have hsize : start.arena.size = p.arena.size + 1 := Arena.size_push p.arena .root
  have hlt : ∀ {t}, t < p.arena.size → t < start.arena.size := fun ht =>
    hsize ▸ Nat.lt_succ_of_lt ht
  obtain ⟨exported, m, q, hm, hq, hlog, hall⟩ := fillExports_run withVariables (p := start)
    (hp.ready_push htargets) (hlt hcaller) (hsize ▸ Nat.lt_succ_self _) (hlt hbody)
    (Nat.ne_of_lt hbody) (congrArg Scope.link hnew)
  have hcreate : (Scoped.create .detached).run p = (.ok p.arena.size, start) := rfl
  have hread : (Scoped.observe [body] fun a => .ok (exportedVariables withVariables body a)).run
      start = (.ok (exportedVariables withVariables body start.arena), start) := rfl
  have hread' : (Scoped.observe [body] fun a => .ok (a.mixins body)).run m =
      (.ok (m.arena.mixins body), m) := rfl
  rw [hvars] at hall
  refine ⟨exported, q, ?_, ?_, hall⟩
  · rw [collectExports, run_bind_ok hcreate, run_bind_ok hread, run_bind_ok hm, run_bind_ok hread',
      run_bind_ok hq]
    rfl
  · rw [hlog, hmixins, Arena.log, hnew]
    rfl

/-- Values that are related, or no value on either side, come first in the same way. -/
theorem rel_or {R : Value → Value → Prop} {v w v' w' : Option Value} (h : Option.Rel R v w)
    (h' : Option.Rel R v' w') : Option.Rel R (v.or v') (w.or w') := by
  cases h with
  | some h => exact .some h
  | none => exact h'

/-- Values that are related stay so where each single one does. -/
theorem rel_imp {R S : Value → Value → Prop} {v w : Option Value} (h : Option.Rel R v w)
    (himp : ∀ x y, v = some x → R x y → S x y) : Option.Rel S v w := by
  cases h with
  | some h => exact .some (himp _ _ rfl h)
  | none => exact .none

/-- The latest values of variables and of the same variables as they are exported. -/
theorem Arena.ExportedAll.latest {a : Arena} {vars exported : List (String × Value)}
    (h : a.ExportedAll caller vars exported) (name : String) :
    Option.Rel (a.Exported caller) (Arena.latest name (Arena.bindings vars))
      (Arena.latest name (Arena.bindings exported)) := by
  induction h with
  | nil => exact .none
  | cons hhead _ ih =>
    rw [Arena.latest_bindings_cons, Arena.latest_bindings_cons, hhead.1]
    refine rel_or ih ?_
    split
    · exact .some hhead.2
    · exact .none

/-- A body exports the values that its variables have last. -/
theorem collectExports_ownValue {body exports : ScopeId} (hp : p.arena.Closed)
    (hcaller : caller < p.arena.size) (hbody : body < p.arena.size)
    (hrun : (collectExports true caller body).run p = (.ok exports, q)) (name : String) :
    Option.Rel (q.arena.Exported caller) (p.arena.ownValue? body name)
      (q.arena.ownValue? exports name) := by
  obtain ⟨exported, m, hm, hlog, hall⟩ := collectExports_run true hp hcaller hbody
  rw [hm] at hrun
  cases hrun
  rw [Arena.ownValue?_eq_latest q.arena, hlog, Arena.latest_append, Arena.latest_mixins,
    Option.none_or, ← Arena.latest_ownVariables]
  exact hall.latest name

/-! ## Bringing exports into force -/

/-- Staging adds the entries of scopes to what is staged, in order. -/
theorem stageAll_run (exports : List ScopeId) {staged : List Entry}
    (hcaller : caller < p.arena.size) (hstaged : (p.arena.scope caller).staged = some staged) :
    ∃ b, (stageAll caller exports).run p = (.ok (), { p with arena := b }) ∧
      Arena.Stages caller p.arena b ∧
      (b.scope caller).staged = some (staged ++ exports.flatMap p.arena.log) := by
  induction exports generalizing p staged with
  | nil => exact ⟨p.arena, rfl, .refl _ _, by rw [hstaged, List.flatMap_nil, List.append_nil]⟩
  | cons e rest ih =>
    have hstages := Arena.Stages.stage caller e p.arena
    have hnow : ((p.arena.stage caller e).scope caller).staged =
        some (staged ++ p.arena.log e) := by
      rw [Arena.stage, Arena.scope_update, if_pos ⟨rfl, hcaller⟩, hstaged]
      rfl
    obtain ⟨b, hrun, hrest, hb⟩ := ih (p := { p with arena := p.arena.stage caller e })
      (hstages.size.symm ▸ hcaller) hnow
    refine ⟨b, hrun, hstages.trans hrest, ?_⟩
    rw [hb, List.append_assoc, List.flatMap_cons]
    exact congrArg (fun log => some (staged ++ (p.arena.log e ++ rest.flatMap log))) hstages.log_eq

/-- Exports come into force in the caller's scope, those of one scope after those of the other. -/
theorem commitExports_run (exports : List ScopeId) (hcaller : caller < p.arena.size) :
    ∃ b, (commitExports caller exports).run p = (.ok (), { p with arena := b }) ∧
      Arena.Commits caller (exports.flatMap p.arena.log) p.arena b := by
  have hopen := Arena.Stages.openStaging caller p.arena
  have hnone : ((p.arena.openStaging caller).scope caller).staged = some [] := by
    rw [Arena.openStaging, Arena.scope_update, if_pos ⟨rfl, hcaller⟩]
  obtain ⟨b, hrun, hstages, hb⟩ := stageAll_run exports
    (p := { p with arena := p.arena.openStaging caller }) (hopen.size.symm ▸ hcaller) hnone
  refine ⟨b.commit caller, ?_, .of_stages (hopen.trans hstages) hcaller ?_⟩
  · rw [commitExports_eq, run_change, Change.apply, run_bind_ok hrun]
    rfl
  · exact hb.trans (congrArg (fun log => some (exports.flatMap log)) hopen.log_eq)

end

end LessSheet
