import LessSheet.Compile
import LessSheet.Proofs.Script.Contract

/-! # The contracts of finding and trying candidates

A call evaluates its arguments, looks for definitions of its name and tries each of them: the
arguments are bound in a scope of their own, and the guards are asked there. A trial that is not
accepted is taken back, so that nothing of it stays. The scopes that are kept are those that the
candidates were found in and those that the accepted ones work in.

Every script of this has a contract (`Works`), from binding one argument to trying all candidates
(`findMixins_works`, `tryAll_works`).
-/

namespace LessSheet

open Script

variable {s : ScopeId} {K : List ScopeId}

/-! ## Binding -/

/-- Evaluating an expression in a scope that was given. -/
theorem Scoped.works_eval {scope : ScopeId} (hs : scope ∈ K) (e : Expr) :
    Works s K (Scoped.eval scope e) :=
  Scoped.works_observe (List.cons_subset.2 ⟨hs, List.nil_subset K⟩) (Expr.reads_eval hs e)

/-- Giving a variable a value made of scopes that were given. -/
theorem Scoped.works_define {name : String} {v : Value} (hs : s ∈ K) (hv : scopesIn v ⊆ K) :
    Works s K (Scoped.define s name v) := Scoped.works_record hs hv

/-- Making a mixin callable whose scopes were given. -/
theorem Scoped.works_register {r : Registration} (hs : s ∈ K) (hr : scopesIn r ⊆ K) :
    Works s K (Scoped.register s r) := Scoped.works_record hs hr

/-- A parameter is bound in the new scope, to values that were given or a default evaluated
there. -/
theorem bindSlot_works {rest : List Value} {slot : Slot} (hs : s ∈ K) (hrest : scopesIn rest ⊆ K)
    (hslot : scopesIn slot ⊆ K) : Works s K (bindSlot s rest slot) := by
  unfold bindSlot
  split
  · next name _ value =>
    have hv : scopesIn value ⊆ K := by simpa using hslot
    exact (Scoped.works_define hs hv).bind fun _ => .pure (by simpa using hv)
  · next name default =>
    refine (Scoped.works_eval hs default).bind fun v => ?_
    refine (Scoped.works_define (by simp [hs]) (by simp)).bind fun _ => .pure (by simp)
  · exact .pure (by simp)
  · next value =>
    refine .pure fun t ht => hslot ?_
    cases value <;> exact ht
  · next name _ =>
    exact (Scoped.works_define hs (by simpa using hrest)).bind fun _ => .pure (by simpa using hrest)
  · exact .pure hrest

/-- Binding all parameters keeps the contract. -/
theorem bindSlots_works {rest : List Value} {slots : List Slot} (hs : s ∈ K)
    (hrest : scopesIn rest ⊆ K) (hslots : scopesIn slots ⊆ K) :
    Works s K (bindSlots s rest slots) := by
  induction slots generalizing K with
  | nil => exact .pure (by simp)
  | cons slot slots ih =>
    rw [scopesIn_cons, List.append_subset] at hslots
    refine (bindSlot_works hs hrest hslots.1).bind fun values => ?_
    refine (ih (List.mem_append_right _ hs) (List.subset_append_of_subset_right _ hrest)
      (List.subset_append_of_subset_right _ hslots.2)).bind fun more => .pure ?_
    simp

/-- What was placed is bound in a new scope below the closure. -/
theorem Placement.bind_works {closure : ScopeId} {placement : Placement} (hc : closure ∈ K)
    (hp : scopesIn placement ⊆ K) : Works s K (placement.bind closure) := by
  have hslots : scopesIn placement.slots ⊆ K := fun t ht => hp (by simp [ht])
  have hrest : scopesIn placement.rest ⊆ K := fun t ht => hp (by simp [ht])
  refine Scoped.works_child hc fun u => ?_
  refine (bindSlots_works (.head _) (List.subset_cons_of_subset u hrest)
    (List.subset_cons_of_subset u hslots)).bind fun values => ?_
  refine (Scoped.works_define (by simp) (by simp)).bind fun _ => .pure (by simp)

/-- Placing a named argument mentions no other scopes than the argument and the slots do. -/
theorem placeNamed_scopes {name : String} {value : Value} {slots slots' : List Slot}
    (h : placeNamed name value slots = .ok slots') :
    scopesIn slots' ⊆ scopesIn value ++ scopesIn slots := by
  induction slots generalizing slots' with
  | nil => cases h
  | cons slot rest ih =>
    rw [placeNamed] at h
    split at h
    · split at h
      · cases h
      · cases h
        intro t ht
        simp only [scopesIn_cons, scopesIn_slot, scopesIn_some, List.mem_append] at ht ⊢
        exact ht.imp_right .inr
    · obtain ⟨rest', hrest, h⟩ := ok_of_bind h
      cases h
      intro t ht
      rcases List.mem_append.1 ht with ht | ht
      · exact List.mem_append_right _ (List.mem_append_left _ ht)
      · have := ih hrest ht
        simp only [List.mem_append, scopesIn_cons] at this ⊢
        exact this.imp_right .inr

/-- Placing named arguments mentions no other scopes than the arguments and the slots do. -/
theorem placeAllNamed_scopes {reject : NamedFault → String → Problem} {args : List Actual}
    {slots slots' : List Slot} (h : placeAllNamed reject args slots = .ok slots') :
    scopesIn slots' ⊆ scopesIn args ++ scopesIn slots := by
  induction args generalizing slots with
  | nil =>
    cases h
    exact List.subset_append_right _ _
  | cons arg rest ih =>
    obtain ⟨name, value⟩ := arg
    cases name with
    | none =>
      intro t ht
      have := ih h ht
      simp only [List.mem_append, scopesIn_cons] at this ⊢
      exact this.imp_left .inr
    | some name =>
      rw [placeAllNamed] at h
      split at h
      · next hplaced =>
        intro t ht
        simp only [List.mem_append, scopesIn_cons, scopesIn_actual]
        rcases List.mem_append.1 (ih h ht) with ht | ht
        · exact .inl (.inr ht)
        · rcases List.mem_append.1 (placeNamed_scopes hplaced ht) with ht | ht
          · exact .inl (.inl ht)
          · exact .inr ht
      · cases h

/-- Placing positional arguments mentions no other scopes than the arguments and the slots do. -/
theorem placePositional_scopes (slots : List Slot) (values : List Value) :
    scopesIn (placePositional slots values) ⊆ scopesIn slots ++ scopesIn values := by
  induction slots, values using placePositional.induct with
  | case1 values => simp [placePositional]
  | case2 slot slots values hrest ih =>
    intro t ht
    have := @ih t
    simp only [placePositional, if_pos hrest, scopesIn_placement, scopesIn_cons, scopesIn_append,
      scopesIn_nil, List.append_nil, List.mem_append] at ht this ⊢
    grind
  | case3 slot slots hrest v values hnone ih =>
    intro t ht
    have := @ih t
    simp only [placePositional, if_neg hrest, hnone, scopesIn_placement, scopesIn_cons,
      scopesIn_slot, scopesIn_some, List.mem_append] at ht this ⊢
    grind
  | case4 slot slots hrest values hother ih =>
    intro t ht
    have := @ih t
    have hplace : placePositional (slot :: slots) values =
        ⟨slot :: (placePositional slots values).slots, (placePositional slots values).rest,
          (placePositional slots values).surplus⟩ := by
      rw [placePositional, if_neg hrest]
      exact hother
    rw [hplace] at ht
    simp only [scopesIn_placement, scopesIn_cons, List.mem_append] at ht this ⊢
    grind

/-- What a call places in the parameters mentions what its arguments mention. -/
theorem Mixin.place_scopes {m : Mixin} {call : String} {args : List Actual} {placement : Placement}
    (h : m.place call args = .ok placement) : scopesIn placement ⊆ scopesIn args := by
  obtain ⟨slots, hslots, h⟩ := ok_of_bind h
  dsimp only at h
  split at h
  · cases h
    have hempty : scopesIn (m.params.map fun p => (⟨p, none⟩ : Slot)) = [] := by
      rw [List.eq_nil_iff_forall_not_mem]
      intro t ht
      obtain ⟨x, hx, ht⟩ := mem_scopesIn_list.1 ht
      obtain ⟨p, -, rfl⟩ := List.mem_map.1 hx
      cases ht
    have hnamed := placeAllNamed_scopes hslots
    rw [hempty, List.append_nil] at hnamed
    refine fun t ht => ?_
    rcases List.mem_append.1 (placePositional_scopes _ _ ht) with ht | ht
    · exact hnamed ht
    · obtain ⟨v, hv, ht⟩ := mem_scopesIn_list.1 ht
      obtain ⟨a, ha, hav⟩ := List.mem_filterMap.1 hv
      refine mem_scopesIn_list.2 ⟨a, ha, ?_⟩
      split at hav
      · cases hav
        exact ht
      · cases hav
  · cases h

/-- Binding arguments keeps the contract: closure and arguments are all that is needed. -/
theorem Mixin.bind_works (m : Mixin) {closure : ScopeId} (call : String) {args : List Actual}
    (hc : closure ∈ K) (hargs : scopesIn args ⊆ K) : Works s K (m.bind closure call args) := by
  unfold Mixin.bind
  split
  · exact .pure (List.nil_subset K)
  · next placement hplace =>
    have hp : scopesIn placement ⊆ K := fun t ht => hargs (Mixin.place_scopes hplace ht)
    have hslots : scopesIn placement.slots ⊆ K := fun t ht => hp (by simp [ht])
    refine Works.bind (Scoped.works_observe (List.cons_subset.2 ⟨hc, List.nil_subset K⟩)
      (reads_checkSlots hc _ hslots)) fun fault => ?_
    cases fault with
    | some fault => exact .pure (by simp)
    | none => exact Placement.bind_works (by simpa using hc) (by simpa using hp)

/-! ## Candidates -/

/-- A definition is registered with the scope that it is in as its closure. -/
theorem hoistItem_works (hs : s ∈ K) (item : Item) : Works s K (hoistItem s item) := by
  refine Works.bind (Scoped.works_observe (List.cons_subset.2 ⟨hs, List.nil_subset K⟩)
    (item.reads_registration hs)) fun r => ?_
  cases r with
  | none => exact .pure (List.nil_subset _)
  | some r => exact Scoped.works_register (by simp [hs]) (by simp)

/-- Hoisting a body needs no scope but that of the body. -/
theorem hoist_works (hs : s ∈ K) (body : List Item) : Works s K (hoist s body) := by
  induction body with
  | nil => exact .pure (List.nil_subset K)
  | cons item rest ih => exact (hoistItem_works hs item).bind fun _ => ih

/-- The variables of a namespace are bound in the scope opened for it. -/
theorem defineVariables_works (hs : s ∈ K) (body : List Item) :
    Works s K (defineVariables s body) := by
  fun_induction defineVariables s body with
  | case1 => exact .pure (List.nil_subset K)
  | case2 name value rest ih =>
    refine (Scoped.works_eval hs value).bind fun v => ?_
    refine (Scoped.works_define (by simp [hs]) (by simp)).bind fun _ => ?_
    exact ih.mono (by simp)
  | case3 _ rest _ ih => exact ih

/-- A namespace is opened below its closure, in a scope of its own. -/
theorem openNamespace_works {r : Registration} (hr : scopesIn r ⊆ K) :
    Works s K (openNamespace r) := by
  refine Scoped.works_child (hr (.head _)) fun u => ?_
  refine (hoist_works (.head _) _).bind fun _ => ?_
  refine (defineVariables_works (.head _) _).bind fun _ => ?_
  exact .pure (by simp)

/-- The members of a namespace are found in a scope opened for it. -/
theorem namespaceMembers_works {caller : ScopeId} (name : String) (arity : Option Nat)
    {c : Candidate} (hcaller : caller ∈ K) (hc : scopesIn c ⊆ K) :
    Works s K (namespaceMembers caller name arity c) := by
  have hreg : scopesIn c.registration ⊆ K := fun t ht => hc (List.mem_append_left _ ht)
  have hpath : scopesIn c.pathGuards ⊆ K := fun t ht => hc (List.mem_append_right _ ht)
  refine (openNamespace_works hreg).bind fun scope => ?_
  refine (Scoped.works_join (by simp [hcaller]) (by simp)).bind fun guardScope => ?_
  refine Works.bind (Scoped.works_observe (by simp) (Arena.reads_ownMixins (by simp) name arity))
    fun members => .pure fun t ht => ?_
  obtain ⟨d, hd, ht⟩ := mem_scopesIn_list.1 ht
  obtain ⟨r, hr, rfl⟩ := List.mem_map.1 hd
  -- a member's scopes are its own, those of the guards on the way, and that of the new guard
  simp only [scopesIn_candidate, scopesIn_append, List.mem_append] at ht ⊢
  rcases ht with ht | ht | ht
  · exact .inl (mem_scopesIn_list.2 ⟨r, hr, ht⟩)
  · exact .inr (.inr (.inr (hpath ht)))
  · cases hguard : c.registration.mixin.guard with
    | none =>
      rw [hguard] at ht
      cases ht
    | some g =>
      rw [hguard] at ht
      exact .inr (.inl (by simpa using ht))

/-- Gathering from candidates keeps the contract if gathering from each of them does. -/
theorem gather_works {f : Candidate → Scoped (List Candidate)} {found : List Candidate}
    (hfound : scopesIn found ⊆ K) (hf : ∀ c L, K ⊆ L → scopesIn c ⊆ L → Works s L (f c)) :
    Works s K (gather f found) := by
  induction found generalizing K with
  | nil => exact .pure (List.nil_subset K)
  | cons c rest ih =>
    rw [scopesIn_cons, List.append_subset] at hfound
    refine (hf c K (List.Subset.refl K) hfound.1).bind fun here => ?_
    refine (ih (List.subset_append_of_subset_right _ hfound.2) fun d L hL hd =>
      hf d L (List.append_subset.1 hL).2 hd).bind fun more => .pure ?_
    simp

/-- Descending a path keeps the contract, namespace by namespace. -/
theorem descend_works {caller : ScopeId} (arity : Option Nat) (path : List String)
    {found : List Candidate} (hcaller : caller ∈ K) (hfound : scopesIn found ⊆ K) :
    Works s K (descend caller arity path found) := by
  induction path generalizing K found with
  | nil => exact .pure hfound
  | cons name rest ih =>
    refine gather_works hfound fun c L hL hc => ?_
    refine (namespaceMembers_works name _ (hL hcaller) hc).bind fun members => ?_
    exact ih (List.mem_append_right _ (hL hcaller)) (List.subset_append_left _ _)

/-- Looking up mixins only reads. -/
theorem visibleMixins_works {scope : ScopeId} (name : String) (arity : Option Nat)
    (hs : scope ∈ K) : Works s K (visibleMixins scope name arity) := by
  refine Works.bind (Scoped.works_observe (List.cons_subset.2 ⟨hs, List.nil_subset K⟩)
    (Arena.reads_lookupMixins hs name arity)) fun found => .pure fun t ht => ?_
  obtain ⟨c, hc, ht⟩ := mem_scopesIn_list.1 ht
  obtain ⟨r, hr, rfl⟩ := List.mem_map.1 hc
  rw [scopesIn_candidate, scopesIn_nil, List.append_nil] at ht
  exact List.mem_append_left _ (mem_scopesIn_list.2 ⟨r, hr, ht⟩)

/-- A path is followed from the mixins that the caller sees. -/
theorem findMixins_works {caller : ScopeId} (arity : Option Nat) (path : List String)
    (hcaller : caller ∈ K) : Works s K (findMixins caller arity path) := by
  unfold findMixins
  split
  · exact .pure (List.nil_subset K)
  · exact visibleMixins_works _ _ hcaller
  · refine (visibleMixins_works _ _ hcaller).bind fun found => ?_
    exact descend_works _ _ (List.mem_append_right _ hcaller) (List.subset_append_left _ _)

/-- What a candidate comes to mentions the scope it works in. -/
theorem Candidate.judge_scopes (c : Candidate) (working : ScopeId) (r : Except EvalError Verdict) :
    scopesIn (c.judge working r) ⊆ [working] := by
  unfold Candidate.judge
  split
  · exact List.nil_subset _
  · exact List.nil_subset _
  · simp

/-- Guards mention the scopes they are evaluated in. -/
theorem scopesIn_guards (guards : List ScopedGuard) : scopesIn guards = guards.map Prod.snd := by
  induction guards with
  | nil => rfl
  | cons guard guards ih =>
    rw [scopesIn_cons, ih]
    rfl

/-- The guards of a candidate are evaluated in scopes of its path and in the one it works in. -/
theorem Candidate.guards_scopes (c : Candidate) (working : ScopeId) :
    scopesIn (c.guards working) ⊆ working :: scopesIn c := by
  intro t ht
  rw [Candidate.guards, scopesIn_append] at ht
  rcases List.mem_append.1 ht with ht | ht
  · exact .tail _ (List.mem_append_right _ ht)
  · cases hguard : c.registration.mixin.guard with
    | none =>
      rw [hguard] at ht
      cases ht
    | some own =>
      rw [hguard] at ht
      exact List.mem_singleton.1 ht ▸ .head _

/-- An attempt binds the arguments, joins the scope with the caller's and evaluates the guards
there. -/
theorem Candidate.attempt_works {c : Candidate} (call : String) {args : List Actual}
    {caller : ScopeId} (hc : scopesIn c ⊆ K) (hargs : scopesIn args ⊆ K) (hcaller : caller ∈ K) :
    Works s K (c.attempt call args caller) := by
  refine (Mixin.bind_works _ call (hc (.head _)) hargs).bind fun binding => ?_
  cases binding with
  | patternMismatch => exact .pure (List.nil_subset _)
  | rejected problem => exact .pure (List.nil_subset _)
  | bound scope =>
    refine (Scoped.works_join (by simp [hcaller]) (by simp)).bind fun working => ?_
    have hguards : scopesIn (c.guards working) ⊆
        scopesIn working ++ (scopesIn (Binding.bound scope) ++ K) := by
      intro t ht
      rcases List.mem_cons.1 (c.guards_scopes working ht) with rfl | ht
      · exact .head _
      · exact .tail _ (.tail _ (hc ht))
    refine Works.bind (Scoped.works_observe (scopesIn_guards _ ▸ hguards)
      (reads_verdictOf hguards)) fun verdict => .pure fun t ht => ?_
    have := c.judge_scopes working verdict ht
    simp only [List.mem_singleton] at this
    simp [this]

/-- A trial that is undone holds the scope of its snapshot and its result. -/
theorem Trial.settle_holds {snapshot : Snapshot} {r : Trial} {t : ScopeId}
    (ht : Holds t (r.settle snapshot)) : t ∈ scopesIn snapshot ∨ t ∈ scopesIn r := by
  unfold Trial.settle at ht
  split at ht
  · exact .inr (holds_done.1 ht)
  · cases ht with
    | changing ht => exact .inl ht
    | change ht => exact .inr (holds_done.1 ht)

/-- A trial that only added scopes leaves its arena or, if the candidate is out, the one it started
from. -/
theorem Trial.settle_arena {r : Trial} {snapshot : Snapshot} {a : Arena} {q : Progress}
    (hback : q.arena.restore snapshot = a) :
    ((r.settle snapshot).run q).2.arena = q.arena ∨ ((r.settle snapshot).run q).2.arena = a := by
  unfold Trial.settle
  split
  · exact .inl rfl
  · exact .inr hback

/-- Settling a trial leaves the depth as it is. -/
theorem Trial.settle_depth (r : Trial) (snapshot : Snapshot) (q : Progress) :
    ((r.settle snapshot).run q).2.depth = q.depth := by
  unfold Trial.settle
  split <;> rfl

/-- A trial that only added scopes is safely undone down to the size of the arena it started
from. -/
theorem Trial.settle_safe {r : Trial} {snapshot : Snapshot} {a : Arena} {q : Progress}
    (hkind : snapshot.kind = .attempt) (hscope : snapshot.scope < a.size) (ha : a.Closed)
    (hback : q.arena.restore snapshot = a) (hsize : a.size ≤ q.arena.size) (hq : q.arena.Closed)
    (hr : ∀ t ∈ scopesIn r, t < q.arena.size) : Safe a.size (r.settle snapshot) q := by
  unfold Trial.settle
  split
  · exact .done hq hsize hr
  · next hnone =>
    subst hback
    refine .step ⟨hsize, hq, fun t ht => ?_, ⟨hscope, fun h => nomatch hkind.symm.trans h⟩⟩ rfl
      (.done ha (Nat.le_refl _) fun t ht => ?_)
    · cases ht with
      | changing ht =>
        rw [List.mem_singleton.1 ht]
        exact Nat.lt_of_lt_of_le hscope hsize
      | change ht => exact hr t (holds_done.1 ht)
    · rw [scopesIn_ok, scopesIn_trial, hnone] at ht
      cases ht

/-- Going back gives the arena that a trial started from, so the scopes of that are as they were all
along. -/
theorem Trial.settle_steady {r : Trial} {snapshot : Snapshot} {a : Arena} {q : Progress}
    (hback : q.arena.restore snapshot = a) (hq : a.SameBeside s q.arena) :
    Steady s a (r.settle snapshot) q := by
  unfold Trial.settle
  split
  · exact .done hq
  · refine .step hq rfl (.done ?_)
    rw [Change.apply, hback]
    exact .refl s a

/-- An attempt that works in no scope that was there, and is undone if it comes to nothing. -/
theorem Trial.good_settle {x : Scoped Trial} {p : Progress} {caller : ScopeId}
    (hp : p.arena.Closed) (hcaller : caller < p.arena.size) (hx : Good p.arena.size x p) :
    Good s (x >>= Trial.settle (p.arena.snapshot caller .attempt)) p := by
  have hback := hx.grows.restore_eq (Nat.le_refl _) caller
  have hscope : (p.arena.snapshot caller .attempt).scope < p.arena.size := hcaller
  have hkind : (p.arena.snapshot caller .attempt).kind = .attempt := rfl
  generalize p.arena.snapshot caller .attempt = snapshot at hback hscope hkind
  have hsafe : Safe p.arena.size (x >>= Trial.settle snapshot) p := by
    refine hx.safe.andThen (fun r t ht => ?_) ?_
    · cases r with
      | error e => exact nomatch holds_done.1 ht
      | ok r =>
        refine (Trial.settle_holds ht).imp_left fun ht => ?_
        rw [List.mem_singleton.1 ht]
        exact hscope
    · cases hr : (x.run p).1 with
      | error e => exact .done hx.safe.closed hx.grows.size fun _ h => nomatch h
      | ok r =>
        exact Trial.settle_safe hkind hscope hp hback hx.grows.size hx.safe.closed
          fun t ht => hx.safe.result (by rw [hr]; exact ht)
  have hsteady : Steady p.arena.size p.arena (x >>= Trial.settle snapshot) p := by
    refine hx.steady.andThen ?_
    cases (x.run p).1 with
    | error e => exact .done hx.grows.frame
    | ok r => exact Trial.settle_steady hback hx.grows.frame
  refine Good.of_fresh (t := p.arena.size) ⟨hsafe, hsteady, ?_, ?_⟩ (Nat.le_refl _)
  all_goals
    rw [bind_eq, run_andThen]
    cases (x.run p).1
  · exact hx.grows
  · next r =>
    rcases Trial.settle_arena (r := r) hback with h | h
    · exact h ▸ hx.grows
    · exact h ▸ .refl _ _
  · exact hx.depth
  · next r => exact (Trial.settle_depth r snapshot _).trans hx.depth

/-- A trial takes a snapshot, makes the attempt and goes back if it came to nothing. -/
theorem Candidate.trial_works {c : Candidate} (call : String) {args : List Actual}
    {caller : ScopeId} (hc : scopesIn c ⊆ K) (hargs : scopesIn args ⊆ K) (hcaller : caller ∈ K) :
    Works s K (c.trial call args caller) := by
  have hattempt : ∀ u, Works u K (c.attempt call args caller) := fun u =>
    Candidate.attempt_works call hc hargs hcaller
  have holds : ∀ t, Holds t (c.trial call args caller) → t ∈ K := by
    intro t ht
    rcases ht.bind_cases with ht | ⟨snapshot, hsnapshot, ht⟩
    · exact Scoped.holds_mark ht ▸ hcaller
    · rcases ht.bind_cases with ht | ⟨r, hr, ht⟩
      · exact (hattempt s).holds t ht
      · rcases Trial.settle_holds ht with ht | ht
        · exact absurd ht hsnapshot
        · exact absurd ht hr
  refine ⟨holds, fun p hp hK => .mark hp.toClosed (fun t ht => hK t (holds t ht)) ?_⟩
  exact Trial.good_settle hp.toClosed (hK caller hcaller)
    ((hattempt p.arena.size).good p (hp.toClosed.ready (Nat.le_refl _)) hK)

/-- Trying candidates in turn keeps the contract. -/
theorem tryAll_works (call : String) {args : List Actual} {caller : ScopeId}
    {candidates : List Candidate} (hargs : scopesIn args ⊆ K) (hcaller : caller ∈ K)
    (hc : scopesIn candidates ⊆ K) : Works s K (tryAll call args caller candidates) := by
  induction candidates generalizing K with
  | nil => exact .pure (List.nil_subset K)
  | cons c rest ih =>
    rw [scopesIn_cons, List.append_subset] at hc
    refine (Candidate.trial_works call hc.1 hargs hcaller).bind fun r => ?_
    refine (ih (List.subset_append_of_subset_right _ hargs) (List.mem_append_right _ hcaller)
      (List.subset_append_of_subset_right _ hc.2)).bind fun ts => .pure fun t ht => ?_
    simp only [scopesIn_trials, scopesIn_append, List.mem_append] at ht
    simp only [scopesIn_trials, scopesIn_trial, List.mem_append]
    rcases ht with ht | ht
    · cases hr : r.accepted with
      | none =>
        rw [hr] at ht
        cases ht
      | some found =>
        obtain ⟨verdict, working⟩ := found
        rw [hr] at ht
        simp only [Option.map_some, Option.toList_some, scopesIn_cons, scopesIn_nil,
          scopesIn_pair, scopesIn_selected, scopesIn_verdict, List.nil_append, List.append_nil,
          List.mem_append] at ht
        rcases ht with ht | ht
        · exact .inr (.inr (hc.1 ht))
        · exact .inr (.inl (by simpa using ht))
    · exact .inl ht

end LessSheet
