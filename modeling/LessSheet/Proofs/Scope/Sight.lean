import LessSheet.Proofs.Scope.Arising
import LessSheet.Proofs.Scope.Shift
import Mathlib.Logic.Relation

/-! # The scopes in sight

A look-up walks along links with a stack and passes over the scopes it has come to before. This
module says what such a walk amounts to.

`sight a s` lists the scopes that a walk from `s` comes to, and `search` answers with the first of
them that has an answer (`search_eq_findSome?`). `resolve` is the search without stack and without
passing over anything: the scope itself, then the scope its link leads to, and for a join first the
callee with all it leads to and then the caller. The two agree (`search_eq_resolve`), however many
ways lead to a scope, because by the time a walk comes to a scope again it has been through all that
the scope leads to: that part of the stack holds older scopes only, and the scope is not among them.

What a scope has itself is the latest of its log: `latest name entries` is the value that entries
give a variable last (`latest_eq_some_iff`).
-/

namespace LessSheet

namespace Arena

variable {α : Type} {a : Arena} {s t : ScopeId}

/-! ## Walks -/

/-- The scopes that a walk comes to, in order, if it is not ended by an answer. -/
def walk (a : Arena) : (fuel : Nat) → (stack seen : List ScopeId) → List ScopeId
  | 0, _, _ => []
  | _ + 1, [], _ => []
  | fuel + 1, s :: stack, seen =>
    if seen.contains s then a.walk fuel stack seen
    else s :: a.walk fuel ((a.scope s).link.targets ++ stack) (s :: seen)

/-- The scopes in sight of a scope, in the order in which they are looked at. -/
def sight (a : Arena) (s : ScopeId) : List ScopeId := a.walk (2 * a.size + 1) [s] []

/-- A walk answers with the first answer among the scopes it comes to. -/
theorem visit_eq_findSome? (f : ScopeId → Option α) (fuel : Nat) (stack seen : List ScopeId) :
    a.visit f fuel stack seen = (a.walk fuel stack seen).findSome? f := by
  induction fuel generalizing stack seen with
  | zero => rfl
  | succ fuel ih =>
    cases stack with
    | nil => rfl
    | cons s stack =>
      simp only [visit, walk]
      split
      · exact ih stack seen
      · rw [List.findSome?_cons, ih]
        rfl

/-- A search answers with the first answer among the scopes in sight. -/
theorem search_eq_findSome? (s : ScopeId) (f : ScopeId → Option α) :
    a.search s f = (a.sight s).findSome? f :=
  visit_eq_findSome? f _ [s] []

/-- A walk does not come to scopes that it passes over. -/
theorem not_mem_walk {fuel : Nat} {stack seen : List ScopeId} (h : t ∈ seen) :
    t ∉ a.walk fuel stack seen := by
  induction fuel generalizing stack seen with
  | zero => exact List.not_mem_nil
  | succ fuel ih =>
    cases stack with
    | nil => exact List.not_mem_nil
    | cons s stack =>
      rw [walk]
      split
      · exact ih h
      · next hs =>
        intro ht
        rcases List.mem_cons.1 ht with rfl | ht
        · exact hs (List.contains_iff_mem.2 h)
        · exact ih (.tail _ h) ht

/-- A walk comes to no scope twice. -/
theorem nodup_walk (a : Arena) (fuel : Nat) (stack seen : List ScopeId) :
    (a.walk fuel stack seen).Nodup := by
  induction fuel generalizing stack seen with
  | zero => exact .nil
  | succ fuel ih =>
    cases stack with
    | nil => exact .nil
    | cons s stack =>
      rw [walk]
      split
      · exact ih _ _
      · exact List.nodup_cons.2 ⟨not_mem_walk (.head _), ih _ _⟩

/-! ## Searching without a stack -/

/-- The search that follows the links one after the other, without regard to where it has been. -/
def resolve (ha : a.Ordered) (f : ScopeId → Option α) (s : ScopeId) : Option α :=
  match f s with
  | some x => some x
  | none =>
    match _hl : (a.scope s).link with
    | .root => none
    | .child parent => resolve ha f parent
    | .join callee caller => (resolve ha f callee).or (resolve ha f caller)
termination_by s
decreasing_by all_goals exact ha s _ (by simp [_hl, Link.targets])

section
variable (ha : a.Ordered) (f : ScopeId → Option α)

/-- Where a scope has an answer, the search ends there. -/
theorem resolve_of_some {x : α} (h : f s = some x) : resolve ha f s = some x := by
  rw [resolve, h]

/-- What a scope has no answer for, the scopes that its link leads to answer, in order. -/
theorem resolve_of_none (h : f s = none) :
    resolve ha f s = (a.scope s).link.targets.findSome? (resolve ha f) := by
  rw [resolve, h]
  dsimp only
  split
  · next hl => rw [hl]; rfl
  · next parent hl =>
    rw [hl, Link.targets, List.findSome?_singleton]
  · next callee caller hl =>
    rw [hl, Link.targets, List.findSome?_cons, List.findSome?_singleton]
    cases resolve ha f callee <;> rfl

/-- What is known of the scopes that a walk has come to without an answer: the stack begins with
scopes that decide about each of them, and these are older. -/
def Pending (stack seen : List ScopeId) : Prop :=
  ∀ u ∈ seen, ∃ pending, pending <+: stack ∧ (∀ t ∈ pending, t < u) ∧
    (pending.findSome? (resolve ha f) = none → resolve ha f u = none)

variable {ha f} {stack seen : List ScopeId}

/-- A scope on top of the stack that a walk has come to before has no answer: nothing older than it
is on top of it, so nothing is left to decide about it. -/
theorem Pending.resolve_eq_none (h : Pending ha f (s :: stack) seen) (hs : s ∈ seen) :
    resolve ha f s = none := by
  obtain ⟨pending, hstack, holder, hnone⟩ := h s hs
  cases pending with
  | nil => exact hnone rfl
  | cons t pending =>
    obtain ⟨rfl, -⟩ := List.cons_prefix_cons.1 hstack
    exact absurd (holder t (.head _)) (Nat.lt_irrefl t)

/-- Passing over a scope that has no answer. -/
theorem Pending.tail (h : Pending ha f (s :: stack) seen) (hs : resolve ha f s = none) :
    Pending ha f stack seen := by
  intro u hu
  obtain ⟨pending, hstack, holder, hnone⟩ := h u hu
  cases pending with
  | nil => exact ⟨[], List.nil_prefix, holder, hnone⟩
  | cons t pending =>
    obtain ⟨rfl, hrest⟩ := List.cons_prefix_cons.1 hstack
    refine ⟨pending, hrest, fun t ht => holder t (.tail _ ht), fun hp => hnone ?_⟩
    rw [List.findSome?_cons, hs]
    exact hp

/-- Coming to a scope that has no answer itself: the scopes that it leads to decide about it, and in
its place about all that it was to decide about. -/
theorem Pending.visit (h : Pending ha f (s :: stack) seen) (hs : f s = none) :
    Pending ha f ((a.scope s).link.targets ++ stack) (s :: seen) := by
  intro u hu
  have htargets := resolve_of_none ha f hs
  rcases List.mem_cons.1 hu with rfl | hu
  · exact ⟨(a.scope u).link.targets, List.prefix_append _ _, ha u, fun hp => htargets.trans hp⟩
  · obtain ⟨pending, hstack, holder, hnone⟩ := h u hu
    cases pending with
    | nil => exact ⟨[], List.nil_prefix, holder, hnone⟩
    | cons t pending =>
      obtain ⟨rfl, hrest⟩ := List.cons_prefix_cons.1 hstack
      have hsu : t < u := holder t (.head _)
      refine ⟨(a.scope t).link.targets ++ pending, (List.prefix_append_right_inj _).2 hrest,
        fun v hv => ?_, fun hp => hnone ?_⟩
      · rcases List.mem_append.1 hv with hv | hv
        · exact Nat.lt_trans (ha t v hv) hsu
        · exact holder v (.tail _ hv)
      · rw [List.findSome?_append, Option.or_eq_none_iff] at hp
        rw [List.findSome?_cons, htargets, hp.1]
        exact hp.2

/-- A walk with enough fuel answers like searches from the scopes on its stack, one after the
other. -/
theorem visit_eq_resolve {fuel : Nat} (h : Pending ha f stack seen)
    (hfuel : stack.length + 2 * (a.unseen seen).card ≤ fuel) :
    a.visit f fuel stack seen = stack.findSome? (resolve ha f) := by
  induction fuel generalizing stack seen with
  | zero =>
    have hstack : stack = [] := List.length_eq_zero_iff.1 (by omega)
    subst hstack
    rfl
  | succ fuel ih =>
    cases stack with
    | nil => rfl
    | cons s stack =>
      rw [List.length_cons] at hfuel
      simp only [Arena.visit]
      split
      · next hs =>
        have hnone := h.resolve_eq_none (List.contains_iff_mem.1 hs)
        rw [ih (h.tail hnone) (by omega), List.findSome?_cons, hnone]
      · next hs =>
        have hs' : s ∉ seen := fun hmem => hs (List.contains_iff_mem.2 hmem)
        have hpaid := length_targets_add_unseen (a := a) hs'
        cases hf : f s with
        | some x => rw [List.findSome?_cons, resolve_of_some ha f hf]
        | none =>
          rw [ih (h.visit hf) (by rw [List.length_append]; omega), List.findSome?_append,
            ← resolve_of_none ha f hf, List.findSome?_cons]
          cases resolve ha f s <;> rfl

end

/-- Passing over scopes seen before does not change what a search finds. -/
theorem search_eq_resolve (ha : a.Ordered) (f : ScopeId → Option α) (s : ScopeId) :
    a.search s f = resolve ha f s := by
  have hcard : (a.unseen []).card ≤ a.size := by
    rw [← Finset.card_range a.size]
    exact Finset.card_filter_le _ _
  have hvisit : a.visit f (2 * a.size + 1) [s] [] = [s].findSome? (resolve ha f) := by
    refine visit_eq_resolve (fun _ hu => nomatch hu) ?_
    rw [List.length_singleton]
    omega
  rw [search, hvisit, List.findSome?_singleton]

/-! ## The latest value of a variable -/

/-- The value that entries give a variable last. -/
def latest (name : String) (entries : List Entry) : Option Value :=
  entries.reverse.findSome? (bound? name)

/-- A scope's own value of a variable is the latest of its log. -/
theorem ownValue?_eq_latest (a : Arena) (s : ScopeId) (name : String) :
    a.ownValue? s name = latest name (a.log s) := rfl

/-- Later entries come first. -/
@[simp] theorem latest_append (name : String) (xs ys : List Entry) :
    latest name (xs ++ ys) = (latest name ys).or (latest name xs) := by
  rw [latest, List.reverse_append, List.findSome?_append]
  rfl

@[simp] theorem latest_cons (name : String) (e : Entry) (rest : List Entry) :
    latest name (e :: rest) = (latest name rest).or (bound? name e) := by
  rw [latest, List.reverse_cons, List.findSome?_append, List.findSome?_singleton]
  rfl

@[simp] theorem latest_mixins (name : String) (rs : List Registration) :
    latest name (rs.map .mixin) = none := by
  induction rs with
  | nil => rfl
  | cons r rs ih =>
    rw [List.map_cons, latest_cons, ih]
    rfl

/-- Only a binding of the name has a value for it. -/
theorem bound?_eq_some_iff {name : String} {e : Entry} {v : Value} :
    bound? name e = some v ↔ e = .binding name v := by
  cases e with
  | mixin r => simp [bound?]
  | binding n w => simp [bound?]

/-- Any other entry has none. -/
theorem bound?_eq_none_iff {name : String} {e : Entry} :
    bound? name e = none ↔ ∀ v, e ≠ .binding name v := by
  simp only [Option.eq_none_iff_forall_ne_some, ne_eq, bound?_eq_some_iff]

/-- Entries have no value for a name that none of them binds. -/
theorem latest_eq_none_iff {name : String} {entries : List Entry} :
    latest name entries = none ↔ ∀ v, .binding name v ∉ entries := by
  rw [latest, List.findSome?_eq_none_iff]
  simp only [List.mem_reverse, bound?_eq_none_iff]
  exact ⟨fun h v hv => h _ hv v rfl, fun h e he v hev => h v (hev ▸ he)⟩

/-- The latest value is that of the newest binding of the name, the one that no other comes
after. -/
theorem latest_eq_some_iff {name : String} {entries : List Entry} {v : Value} :
    latest name entries = some v ↔ ∃ before after,
      entries = before ++ .binding name v :: after ∧ ∀ w, .binding name w ∉ after := by
  constructor
  · intro h
    obtain ⟨after, e, before, hentries, he, hafter⟩ := List.findSome?_eq_some_iff.1 h
    obtain rfl := bound?_eq_some_iff.1 he
    refine ⟨before.reverse, after.reverse, ?_, fun w hw => ?_⟩
    · rw [← List.reverse_reverse entries, hentries, List.reverse_append, List.reverse_cons,
        List.append_assoc, List.singleton_append]
    · exact bound?_eq_none_iff.1 (hafter _ (List.mem_reverse.1 hw)) w rfl
  · rintro ⟨before, after, rfl, hafter⟩
    rw [latest_append, latest_cons, latest_eq_none_iff.2 hafter, bound?_eq_some_iff.2 rfl]
    rfl

/-! ## What a search depends on -/

/-- What is found in a list depends on what its items answer. -/
theorem findSome?_eq_of_forall_mem {β : Type} {f g : β → Option α} {xs : List β}
    (h : ∀ x ∈ xs, g x = f x) : xs.findSome? g = xs.findSome? f := by
  induction xs with
  | nil => rfl
  | cons x xs ih =>
    rw [List.findSome?_cons, List.findSome?_cons, h x (.head _), ih fun y hy => h y (.tail _ hy)]

/-- A search meets no newer scope than the one it starts from. -/
theorem search_congr {b : Arena} (ha : a.Ordered) (hb : b.Ordered) {f g : ScopeId → Option α}
    (hlink : ∀ t ≤ s, (b.scope t).link = (a.scope t).link) (hfg : ∀ t ≤ s, g t = f t) :
    b.search s g = a.search s f := by
  rw [search_eq_resolve ha, search_eq_resolve hb]
  induction s using Nat.strongRecOn with
  | ind s ih =>
    have hself := hfg s (Nat.le_refl s)
    cases hf : f s with
    | some x => rw [resolve_of_some ha f hf, resolve_of_some hb g (hself.trans hf)]
    | none =>
      rw [resolve_of_none ha f hf, resolve_of_none hb g (hself.trans hf), hlink s (Nat.le_refl s)]
      have htargets : ∀ t ∈ (a.scope s).link.targets, resolve hb g t = resolve ha f t := by
        intro t ht
        have hts := ha s t ht
        exact ih t hts (fun u hu => hlink u (Nat.le_trans hu (Nat.le_of_lt hts)))
          fun u hu => hfg u (Nat.le_trans hu (Nat.le_of_lt hts))
      exact findSome?_eq_of_forall_mem htargets

/-- A scope's own variables are in its log. -/
theorem ownValue?_congr {b : Arena} (h : b.scope s = a.scope s) (name : String) :
    b.ownValue? s name = a.ownValue? s name := by
  rw [ownValue?, ownValue?, log, log, h]

/-- Where all scopes up to one are the same, so is what it sees. -/
theorem lookup_congr {b : Arena} (ha : a.Ordered) (hb : b.Ordered)
    (h : ∀ t ≤ s, b.scope t = a.scope t) (name : String) : b.lookup s name = a.lookup s name :=
  search_congr ha hb (fun t ht => by rw [h t ht]) fun t ht => ownValue?_congr (h t ht) name

/-- Looking up mixins from a scope looks at that scope and older ones only. -/
theorem lookupMixins_congr {b : Arena} (ha : a.Ordered) (hb : b.Ordered)
    (h : ∀ t ≤ s, b.scope t = a.scope t) (name : String) (arity : Option Nat) :
    b.lookupMixins s name arity = a.lookupMixins s name arity := by
  rw [lookupMixins, lookupMixins, search_congr ha hb (fun t ht => by rw [h t ht]) fun t ht => ?_]
  rw [ownMixins?, ownMixins?, ownMixins, ownMixins, mixins, mixins, log, log, h t ht]

/-- Whether a scope is in sight depends on the links alone. -/
theorem reaches_congr {b : Arena} (ha : a.Ordered) (hb : b.Ordered)
    (hlink : ∀ u ≤ s, (b.scope u).link = (a.scope u).link) (t : ScopeId) :
    b.reaches s t = a.reaches s t := by
  rw [reaches, reaches, search_congr ha hb hlink fun _ _ => rfl]

/-! ## Sight is the closure of the links -/

/-- The link of `s` leads to `t`. -/
def Leads (a : Arena) (s t : ScopeId) : Prop := t ∈ (a.scope s).link.targets

/-- A search has an answer if some scope that the links lead to has one. -/
theorem isSome_resolve_iff (ha : a.Ordered) (f : ScopeId → Option α) (s : ScopeId) :
    (resolve ha f s).isSome ↔ ∃ t, Relation.ReflTransGen a.Leads s t ∧ (f t).isSome := by
  induction s using Nat.strongRecOn with
  | ind s ih =>
    cases hf : f s with
    | some x =>
      rw [resolve_of_some ha f hf]
      exact iff_of_true rfl ⟨s, .refl, by rw [hf]; rfl⟩
    | none =>
      rw [resolve_of_none ha f hf, List.findSome?_isSome_iff]
      constructor
      · rintro ⟨u, hu, hsome⟩
        obtain ⟨t, hut, ht⟩ := (ih u (ha s u hu)).1 hsome
        exact ⟨t, .head hu hut, ht⟩
      · rintro ⟨t, hst, ht⟩
        rcases Relation.ReflTransGen.cases_head hst with rfl | ⟨u, hu, hut⟩
        · rw [hf] at ht
          cases ht
        · exact ⟨u, hu, (ih u (ha s u hu)).2 ⟨t, hut, ht⟩⟩

/-- The scopes in sight are those that the links lead to. -/
theorem reaches_iff (ha : a.Ordered) : a.reaches s t ↔ Relation.ReflTransGen a.Leads s t := by
  rw [reaches, search_eq_resolve ha, isSome_resolve_iff]
  constructor
  · rintro ⟨u, hsu, hu⟩
    split at hu
    · next h => exact h ▸ hsu
    · cases hu
  · exact fun h => ⟨t, h, by rw [if_pos rfl]; rfl⟩

/-- The scopes in sight of a scope are those that it reaches. -/
theorem mem_sight_iff_reaches : t ∈ a.sight s ↔ a.reaches s t := by
  rw [reaches, search_eq_findSome?, List.findSome?_isSome_iff]
  constructor
  · exact fun h => ⟨t, h, by rw [if_pos rfl]; rfl⟩
  · rintro ⟨u, hu, hsome⟩
    split at hsome
    · next h => exact h ▸ hu
    · cases hsome

/-- However an arena has arisen, a variable's value is what the search along the links finds,
without regard to where it has been: that of the newest binding in the scope's own log, or else the
value that the scope's link leads to, for a join first on the side of the callee and then on that of
the caller. A scope is in sight exactly if links lead to it. The walk behind every search comes to
each scope in sight exactly once. -/
theorem Arises.lookup_eq_resolve {taken : List Snapshot} (h : a.Arises taken) (s : ScopeId)
    (name : String) :
    a.lookup s name = resolve h.ordered (fun t => latest name (a.log t)) s ∧
    (∀ t v, latest name (a.log t) = some v ↔ ∃ before after,
      a.log t = before ++ .binding name v :: after ∧ ∀ w, .binding name w ∉ after) ∧
    (∀ t, a.reaches s t ↔ Relation.ReflTransGen a.Leads s t) ∧
    (∀ {β : Type} (f : ScopeId → Option β), a.search s f = (a.sight s).findSome? f) ∧
    (a.sight s).Nodup ∧
    ∀ t, t ∈ a.sight s ↔ Relation.ReflTransGen a.Leads s t :=
  ⟨search_eq_resolve h.ordered _ s, fun _ _ => latest_eq_some_iff, fun _ => reaches_iff h.ordered,
    search_eq_findSome? s, nodup_walk _ _ _ _,
    fun _ => mem_sight_iff_reaches.trans (reaches_iff h.ordered)⟩

/-- Two scopes inside the root and their join, from which two ways lead to the root. A variable is
bound twice in the root, and the second value is found. -/
theorem Arises.lookup_eq_resolve_shared :
    let bound := (Arena.empty.define 0 "x" (.keyword "y")).define 0 "x" (.keyword "z")
    let a := ((bound.child 0).2.child 0).2.join 1 2 |>.2
    ∃ h : a.Arises [], a.sight 3 = [3, 2, 0, 1] ∧ (a.sight 3).Nodup ∧
      a.lookup 3 "x" = resolve h.ordered (fun t => latest "x" (a.log t)) 3 ∧
      a.lookup 3 "x" = some (.keyword "z") ∧ latest "x" (a.log 0) = some (.keyword "z") := by
  intro bound a
  have hfirst : Arises (Arena.empty.define 0 "x" (.keyword "y")) [] :=
    Arises.start.change (.record 0 (.binding "x" (.keyword "y"))) (by decide) nofun
  have hbound : bound.Arises [] :=
    hfirst.change (.record 0 (.binding "x" (.keyword "z"))) (by decide) nofun
  have h : a.Arises [] :=
    ((hbound.create (.child 0) (by decide)).create (.child 0) (by decide)).create (.join 1 2)
      (by decide)
  have hlog : a.log 0 = [.binding "x" (.keyword "y"), .binding "x" (.keyword "z")] := rfl
  obtain ⟨hlookup, hlatest, -, -, hnodup, -⟩ := Arises.lookup_eq_resolve h 3 "x"
  have hnewest : latest "x" (a.log 0) = some (.keyword "z") :=
    (hlatest 0 _).2 ⟨[.binding "x" (.keyword "y")], [], hlog, fun _ => List.not_mem_nil⟩
  exact ⟨h, by decide, hnodup, hlookup, rfl, hnewest⟩

end Arena

end LessSheet
