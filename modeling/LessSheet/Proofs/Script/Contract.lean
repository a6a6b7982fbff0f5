import LessSheet.Proofs.Scope.Reading
import LessSheet.Proofs.Script.Safety

/-! # Contracts of scripts

`Works s K x` is what is shown of every script of the expansion, without regard to a state: `x`
holds no numbers but those of `K`, and from any arena in which they exist and that is ready for work
in scope `s` it is good, with its work done in `s` (`Good`).

Contracts go together like the scripts: a continuation may hold what the step before it answers
(`Works.bind`), and a script that adds a scope and then works in that scope works in no scope that
was there, so its contract is that of any scope (`Works.fresh`).
-/

namespace LessSheet

namespace Script

variable {ε ε' α β : Type} [Carries α] [Carries β]

/-- The contract of a script that is given the numbers `K` and works in scope `s`. -/
structure Works (s : ScopeId) (K : List ScopeId) (x : Script ε α) : Prop where
  holds : ∀ t, Holds t x → t ∈ K
  good : ∀ p : Progress, p.arena.Ready s → (∀ t ∈ K, t < p.arena.size) → Good s x p

section
variable {s : ScopeId} {K L : List ScopeId} {x : Script ε α}

/-- A script may be given more numbers than it needs. -/
theorem Works.mono (h : Works s K x) (hK : K ⊆ L) : Works s L x :=
  ⟨fun t ht => hK (h.holds t ht), fun p hp hL => h.good p hp fun t ht => hL t (hK ht)⟩

/-- What is left by a script that was run to its end. -/
theorem Works.after {p q : Progress} {r : Except ε α} (hx : Works s K x) (hp : p.arena.Ready s)
    (hK : ∀ t ∈ K, t < p.arena.size) (hrun : x.run p = (r, q)) :
    q.arena.Ready s ∧ Arena.Grows s p.arena q.arena ∧ ∀ t ∈ scopesIn r, t < q.arena.size := by
  have hgood := hx.good p hp hK
  have hready := hgood.ready hp
  have hgrows := hgood.grows
  have hresult := fun t => hgood.safe.result (t := t)
  rw [hrun] at hready hgrows hresult
  exact ⟨hready, hgrows, hresult⟩

/-- A script that has ended answers numbers it was given. -/
theorem Works.done {r : Except ε α} (h : scopesIn r ⊆ K) : Works s K (Script.done r) :=
  ⟨fun _ ht => h (holds_done.1 ht), fun _ hp hK => .done hp.toClosed fun t ht => hK t (h ht)⟩

/-- A script that is over may mention what it was given. -/
theorem Works.pure {a : α} (h : scopesIn a ⊆ K) : Works s K (pure a : Script ε α) :=
  Works.done (r := .ok a) h

/-- A script that fails mentions no scopes. -/
theorem Works.throw {e : ε} : Works s K (throw e : Script ε α) :=
  Works.done (r := .error e) (List.nil_subset K)

/-- A step before a continuation, which may also hold what the step answers. -/
theorem Works.bind {f : α → Script ε β} (hx : Works s K x)
    (hf : ∀ a, Works s (scopesIn a ++ K) (f a)) : Works s K (x >>= f) := by
  constructor
  · intro t ht
    rcases ht.bind_cases with ht | ⟨a, ha, ht⟩
    · exact hx.holds t ht
    · exact (List.mem_append.1 ((hf a).holds t ht)).resolve_left ha
  · intro p hp hK
    refine (hx.good p hp hK).bind (fun a t ht => ?_) fun a q _ hq hgrows ha => ?_
    · exact (List.mem_append.1 ((hf a).holds t ht)).symm.imp_left (hK t)
    · refine (hf a).good q ⟨hq, hp.settled_of_grows hgrows⟩ fun t ht => ?_
      rcases List.mem_append.1 ht with ht | ht
      · exact ha t ht
      · exact Nat.lt_of_lt_of_le (hK t ht) hgrows.size

/-- A script with its errors put differently keeps the contract. -/
theorem Works.mapError {f : ε → ε'} (hx : Works s K x) : Works s K (x.mapError f) :=
  ⟨fun t ht => hx.holds t ht.of_mapError, fun p hp hK => (hx.good p hp hK).mapError⟩

/-- A scope is added, and the work is done in it: no scope that was there is touched. -/
theorem Works.fresh {c : Creation} (link : Link) {f : ScopeId → Script ε α}
    (happly : ∀ a, c.apply a = a.push link) (hlegal : ∀ a, c.Legal a) (hc : scopesIn c ⊆ K)
    (hl : link.targets ⊆ K) (hf : ∀ u, Works u (u :: K) (f u)) : Works s K (.create c f) := by
  have holds : ∀ t, Holds t (.create c f) → t ∈ K := by
    intro t ht
    cases ht with
    | creating ht => exact hc ht
    | create hu ht => exact (List.mem_cons.1 ((hf _).holds t ht)).resolve_left hu.symm
  refine ⟨holds, fun p hp hK => ?_⟩
  have hsize := Arena.size_push p.arena link
  refine Good.of_fresh (t := p.arena.size) ?_ (Nat.le_refl _)
  refine Good.create (happly _) hp.toClosed (fun t ht => hK t (holds t ht)) (hlegal _)
    (.push _ _ link) ?_
  refine (hf _).good _ (hp.toClosed.ready_push fun t ht => hK t (hl ht)) fun t ht => ?_
  show t < (p.arena.push link).2.size
  rcases List.mem_cons.1 ht with rfl | ht
  · exact hsize ▸ Nat.lt_succ_self _
  · exact hsize ▸ Nat.lt_succ_of_lt (hK t ht)

end

end Script

open Script

section
variable {α β : Type} [Carries α] [Carries β] {s t : ScopeId} {K : List ScopeId}

/-- What works on scopes works as a step of the expansion. -/
theorem Expand.works_onScopes {x : Scoped α} (hx : Works s K x) :
    Works s K (Expand.onScopes x) := hx.mapError

/-- Noting problems leaves the scopes alone. -/
theorem Expand.works_report (problems : List Problem) : Works s K (Expand.report problems) := by
  constructor
  · intro t ht
    cases ht with
    | report ht => exact nomatch holds_done.1 ht
  · intro p hp _
    have hdone : Good s (Script.done (.ok ()) : Expand Unit)
        { p with problems := p.problems ++ problems } := .done hp.toClosed fun _ h => nomatch h
    have hheld : ∀ t, Holds t (Expand.report problems) → t < p.arena.size := by
      intro t ht
      cases ht with
      | report ht => exact nomatch holds_done.1 ht
    exact ⟨.step ⟨Nat.le_refl _, hp.toClosed, hheld, trivial⟩ rfl hdone.safe,
      .step (.refl s _) rfl hdone.steady, hdone.grows, rfl⟩

/-! ## Operations on the scopes -/

/-- A scope inside one that was given is added, and the work is done in it. -/
theorem Scoped.works_child {parent : ScopeId} {f : ScopeId → Scoped α} (h : parent ∈ K)
    (hf : ∀ u, Works u (u :: K) (f u)) : Works s K (Scoped.create (.child parent) >>= f) :=
  .fresh (.child parent) (fun _ => rfl) (fun _ => trivial)
    (List.cons_subset.2 ⟨h, List.nil_subset K⟩) (List.cons_subset.2 ⟨h, List.nil_subset K⟩) hf

/-- `Scoped.works_child` for a step of the expansion. -/
theorem Expand.works_child {parent : ScopeId} {f : ScopeId → Expand α} (h : parent ∈ K)
    (hf : ∀ u, Works u (u :: K) (f u)) :
    Works s K (Expand.onScopes (Scoped.create (.child parent)) >>= f) :=
  .fresh (.child parent) (fun _ => rfl) (fun _ => trivial)
    (List.cons_subset.2 ⟨h, List.nil_subset K⟩) (List.cons_subset.2 ⟨h, List.nil_subset K⟩) hf

/-- A scope that sees nothing but itself is added, and the work is done in it. -/
theorem Scoped.works_detached {f : ScopeId → Scoped α} (hf : ∀ u, Works u (u :: K) (f u)) :
    Works s K (Scoped.create .detached >>= f) :=
  .fresh .root (fun _ => rfl) (fun _ => trivial) (List.nil_subset K) (List.nil_subset K) hf

/-- Reading the arena at scopes that were given. -/
theorem Scoped.works_observe [Renames α] {scopes : List ScopeId} {f : Arena → Except EvalError α}
    (hs : scopes ⊆ K) (hf : Reads K f) : Works s K (Scoped.observe scopes f) := by
  have holds : ∀ t, Holds t (Scoped.observe scopes f) → t ∈ K := by
    intro t ht
    cases ht with
    | looking ht => exact hs ht
    | look ha ht => exact (hf.mentions _ t (holds_done.1 ht)).resolve_right ha
  refine ⟨holds, fun p hp hK => ?_⟩
  refine .look hp.toClosed (fun t ht => hK t (holds t ht)) (fun b hb => ?_)
    (.done hp.toClosed fun t ht => ?_)
  · rw [hf.extends hp.toClosed hK hb]
  · rcases hf.mentions p.arena t ht with ht | ht
    · exact hK t ht
    · exact hp.stored t ht

/-- Taking a snapshot holds the scope it is taken of. -/
theorem Scoped.holds_mark {kind : Snapshot.Kind} (ht : Holds t (Scoped.mark s kind)) : t = s := by
  cases ht with
  | marking => rfl
  | mark hs ht => exact absurd (holds_done.1 ht) hs

/-- A change holds the scopes it is applied to or brings in. -/
theorem Scoped.holds_change {c : Change} (ht : Holds t (Scoped.change c)) : t ∈ scopesIn c := by
  cases ht with
  | changing ht => exact ht
  | change ht => exact nomatch holds_done.1 ht

/-- A creation holds the scopes it is applied to. -/
theorem Scoped.holds_create {c : Creation} (ht : Holds t (Scoped.create c)) : t ∈ scopesIn c := by
  cases ht with
  | creating ht => exact ht
  | create hs ht => exact absurd (List.mem_singleton.1 (holds_done.1 ht)) hs.symm

/-- Joining two scopes that were given. -/
theorem Scoped.works_join {caller callee : ScopeId} (h₁ : caller ∈ K) (h₂ : callee ∈ K) :
    Works s K (Scoped.create (.join caller callee)) := by
  have hsub : scopesIn (Creation.join caller callee) ⊆ K := by
    intro t ht
    rcases List.mem_cons.1 ht with rfl | ht
    · exact h₁
    · exact List.mem_singleton.1 ht ▸ h₂
  have holds : ∀ t, Holds t (Scoped.create (.join caller callee)) → t ∈ K :=
    fun t ht => hsub (Scoped.holds_create ht)
  refine ⟨holds, fun p hp hK => ?_⟩
  have hheld : ∀ t, Holds t (Scoped.create (.join caller callee)) → t < p.arena.size :=
    fun t ht => hK t (holds t ht)
  have hlegal : (Creation.join caller callee).Legal p.arena := by
    intro b hb
    have := (hb.shifted hp.toClosed).reaches callee caller
    rwa [shift_of_lt (hK _ h₁), shift_of_lt (hK _ h₂)] at this
  by_cases hr : p.arena.reaches callee caller
  · exact .create (if_pos hr) hp.toClosed hheld hlegal (.refl s _)
      (.done hp.toClosed fun t ht => hK t (List.mem_singleton.1 ht ▸ h₂))
  · have hpush : (p.arena.push (.join callee caller)).2.Closed := by
      refine hp.toClosed.push fun t ht => ?_
      rcases List.mem_cons.1 ht with rfl | ht
      · exact hK t h₂
      · exact hK t (List.mem_singleton.1 ht ▸ h₁)
    refine .create (if_neg hr) hp.toClosed hheld hlegal (.push s _ _) (.done hpush fun t ht => ?_)
    rw [List.mem_singleton.1 ht]
    exact Arena.size_push p.arena _ ▸ Nat.lt_succ_self _

/-- Recording an entry in a scope is work in that scope. -/
theorem Scoped.works_record {e : Entry} (hs : s ∈ K) (he : scopesIn e ⊆ K) :
    Works s K (Scoped.change (.record s e)) := by
  have holds : ∀ t, Holds t (Scoped.change (.record s e)) → t ∈ K := by
    intro t ht
    rcases List.mem_cons.1 (Scoped.holds_change ht) with rfl | ht
    · exact hs
    · exact he ht
  refine ⟨holds, fun p hp hK => ?_⟩
  have hrec : (p.arena.record s e).Closed := hp.toClosed.record fun t ht => hK t (he ht)
  exact .change hp.toClosed (fun t ht => hK t (holds t ht)) trivial (.record s p.arena e)
    (.done hrec fun _ h => nomatch h)

end

end LessSheet
