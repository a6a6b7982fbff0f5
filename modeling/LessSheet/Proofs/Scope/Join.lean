import LessSheet.Proofs.Scope.Sight

/-! # What a join sees

A join is the scope that a call works in: it sees what the callee sees, and what the callee does not
see it takes from the caller. `join` answers with the callee itself if the caller is in its sight.
Both ways come to the same (`search_join`). A new scope has an empty log, so a search from it is
left to the two scopes that its link leads to. And where the caller is in sight of the callee, the
callee sees all that the caller sees, on whatever way the links lead there, so nothing is left to be
taken from the caller.

The law for variables and for mixins follows, because both are looked up by a search
(`Arises.lookup_joined`).
-/

namespace LessSheet

namespace Arena

variable {α : Type} {a : Arena} {s caller callee : ScopeId}

/-! ## The arena after a join -/

/-- Joining leaves the scopes that were there. -/
theorem scope_join (hs : s < a.size) : (a.join caller callee).2.scope s = a.scope s := by
  rw [join]
  split
  · rfl
  · rw [scope_push, if_neg (Nat.ne_of_lt hs)]

/-- Beyond the scopes that were there, a join has no entries. -/
theorem log_join_size : (a.join caller callee).2.log a.size = [] := by
  rw [join]
  split
  · rw [log, scope_of_size_le (Nat.le_refl _)]
  · rw [log, scope_push, if_pos rfl]

/-- A join links to its two scopes, which are older. -/
theorem Ordered.join (ha : a.Ordered) (hcaller : caller < a.size) (hcallee : callee < a.size) :
    (a.join caller callee).2.Ordered :=
  ha.create (c := .join caller callee)
    (List.forall_mem_cons.2 ⟨hcaller, List.forall_mem_singleton.2 hcallee⟩)

/-! ## Searches -/

/-- A scope sees all that is seen from a scope in its sight. -/
theorem search_or_of_reaches (ha : a.Ordered) (f : ScopeId → Option α)
    (h : a.reaches callee caller) : (a.search callee f).or (a.search caller f) =
      a.search callee f := by
  cases hcallee : a.search callee f with
  | some x => rfl
  | none =>
    rw [Option.none_or, ← Option.not_isSome_iff_eq_none]
    intro hcaller
    rw [search_eq_resolve ha, isSome_resolve_iff] at hcaller
    obtain ⟨t, hct, ht⟩ := hcaller
    have hsome : (resolve ha f callee).isSome :=
      (isSome_resolve_iff ha f callee).2 ⟨t, ((reaches_iff ha).1 h).trans hct, ht⟩
    rw [← search_eq_resolve ha, hcallee] at hsome
    cases hsome

/-- A search from a new scope without an answer is left to the scopes that its link leads to. -/
theorem search_push (ha : a.Ordered) {link : Link} (hl : ∀ t ∈ link.targets, t < a.size)
    {f g : ScopeId → Option α} (hold : ∀ t < a.size, g t = f t) (hnew : g a.size = none) :
    (a.push link).2.search a.size g = link.targets.findSome? fun t => a.search t f := by
  have hb := ha.push link hl
  rw [search_eq_resolve hb, resolve_of_none hb g hnew, scope_push, if_pos rfl]
  refine findSome?_eq_of_forall_mem fun t ht => ?_
  have hlt : ∀ u ≤ t, u < a.size := fun u hu => Nat.lt_of_le_of_lt hu (hl t ht)
  rw [← search_eq_resolve hb]
  refine search_congr ha hb (fun u hu => ?_) fun u hu => hold u (hlt u hu)
  rw [scope_push, if_neg (Nat.ne_of_lt (hlt u hu))]

/-- A search from a join is a search from the callee and then one from the caller, be the join a new
scope or the callee itself. -/
theorem search_join (ha : a.Ordered) (hcaller : caller < a.size) (hcallee : callee < a.size)
    {f g : ScopeId → Option α} (hold : ∀ t < a.size, g t = f t) (hnew : g a.size = none) :
    (a.join caller callee).2.search (a.join caller callee).1 g =
      (a.search callee f).or (a.search caller f) := by
  by_cases hr : a.reaches callee caller
  · have hjoin : a.join caller callee = (callee, a) := if_pos hr
    rw [hjoin, search_or_of_reaches ha f hr]
    exact search_congr ha ha (fun _ _ => rfl) fun t ht => hold t (Nat.lt_of_le_of_lt ht hcallee)
  · have hjoin : a.join caller callee = a.push (.join callee caller) := if_neg hr
    have hl : ∀ t ∈ (Link.join callee caller).targets, t < a.size :=
      List.forall_mem_cons.2 ⟨hcallee, List.forall_mem_singleton.2 hcaller⟩
    have hpush := search_push ha hl hold hnew
    rw [Link.targets, List.findSome?_cons, List.findSome?_singleton] at hpush
    rw [hjoin]
    refine hpush.trans ?_
    cases a.search callee f <;> rfl

/-! ## Variables and mixins -/

/-- A variable that a join sees is one that the callee sees, or else one that the caller sees. -/
theorem lookup_join (ha : a.Ordered) (hcaller : caller < a.size) (hcallee : callee < a.size)
    (name : String) : (a.join caller callee).2.lookup (a.join caller callee).1 name =
      (a.lookup callee name).or (a.lookup caller name) := by
  refine search_join ha hcaller hcallee (fun t ht => ownValue?_congr (scope_join ht) name) ?_
  rw [ownValue?, log_join_size]
  rfl

/-- What a scope itself has of a mixin is decided by its log. -/
theorem ownMixins?_congr {b : Arena} (h : b.log s = a.log s) (name : String) (arity : Option Nat) :
    b.ownMixins? s name arity = a.ownMixins? s name arity := by
  rw [ownMixins?, ownMixins?, ownMixins, ownMixins, mixins, mixins, h]

/-- A search for mixins that answers has found some. -/
theorem search_ownMixins?_ne (a : Arena) (s : ScopeId) (name : String) (arity : Option Nat) :
    a.search s (fun t => a.ownMixins? t name arity) ≠ some [] := by
  intro h
  rw [search_eq_findSome?] at h
  obtain ⟨t, -, ht⟩ := List.exists_of_findSome?_eq_some h
  rw [ownMixins?] at ht
  split at ht
  · cases ht
  · next hne => exact hne (Option.some.inj ht)

/-- The mixins that a join sees are those that the callee sees, or else those that the caller
sees. -/
theorem lookupMixins_join (ha : a.Ordered) (hcaller : caller < a.size) (hcallee : callee < a.size)
    (name : String) (arity : Option Nat) :
    (a.join caller callee).2.lookupMixins (a.join caller callee).1 name arity =
      if (a.lookupMixins callee name arity).isEmpty then a.lookupMixins caller name arity
      else a.lookupMixins callee name arity := by
  have hsearch : (a.join caller callee).2.search (a.join caller callee).1
      (fun t => (a.join caller callee).2.ownMixins? t name arity) =
      (a.search callee fun t => a.ownMixins? t name arity).or
        (a.search caller fun t => a.ownMixins? t name arity) := by
    refine search_join ha hcaller hcallee (fun t ht => ?_) ?_
    · exact ownMixins?_congr (congrArg Scope.log (scope_join ht)) name arity
    · rw [ownMixins?, ownMixins, mixins, log_join_size]
      rfl
  have hne := a.search_ownMixins?_ne callee name arity
  rw [lookupMixins, lookupMixins, lookupMixins, hsearch]
  cases hcallee : a.search callee fun t => a.ownMixins? t name arity with
  | none => rfl
  | some found =>
    cases found with
    | nil => exact absurd hcallee hne
    | cons r rest => rfl

/-- However an arena has arisen, a join of two of its scopes sees a variable as the callee does, or
as the caller does if the callee does not see it. It sees the mixins of a name and arity that the
callee sees, or those that the caller sees if the callee sees none. All this holds whether a new
scope is added or the callee, from which links lead to the caller already, is the join itself. The
scopes that were there see the variables, mixins and scopes that they saw before. -/
theorem Arises.lookup_joined {taken : List Snapshot} (h : a.Arises taken)
    (hcaller : caller < a.size) (hcallee : callee < a.size) {j : ScopeId} {b : Arena}
    (hjoin : a.join caller callee = (j, b)) :
    (∀ name, b.lookup j name = (b.lookup callee name).or (b.lookup caller name)) ∧
    (∀ name arity, b.lookupMixins j name arity =
      if (b.lookupMixins callee name arity).isEmpty then b.lookupMixins caller name arity
      else b.lookupMixins callee name arity) ∧
    ∀ s < a.size,
      (∀ name, b.lookup s name = a.lookup s name) ∧
      (∀ name arity, b.lookupMixins s name arity = a.lookupMixins s name arity) ∧
      ∀ t, b.reaches s t = a.reaches s t := by
  have ha := h.ordered
  have hb : b.Ordered := by
    have := ha.join hcaller hcallee
    rwa [hjoin] at this
  have hscope : ∀ {t}, t < a.size → b.scope t = a.scope t := by
    intro t ht
    have hsame : (a.join caller callee).2.scope t = a.scope t := scope_join ht
    rwa [hjoin] at hsame
  have hupTo : ∀ {s}, s < a.size → ∀ t ≤ s, b.scope t = a.scope t :=
    fun hs t ht => hscope (Nat.lt_of_le_of_lt ht hs)
  refine ⟨fun name => ?_, fun name arity => ?_, fun s hs => ⟨?_, ?_, ?_⟩⟩
  · have hlaw := lookup_join ha hcaller hcallee name
    rw [hjoin] at hlaw
    rw [hlaw, lookup_congr ha hb (hupTo hcallee), lookup_congr ha hb (hupTo hcaller)]
  · have hlaw := lookupMixins_join ha hcaller hcallee name arity
    rw [hjoin] at hlaw
    rw [hlaw, lookupMixins_congr ha hb (hupTo hcallee), lookupMixins_congr ha hb (hupTo hcaller)]
  · exact lookup_congr ha hb (hupTo hs)
  · exact lookupMixins_congr ha hb (hupTo hs)
  · exact reaches_congr ha hb fun t ht => by rw [hupTo hs t ht]

/-- Two scopes inside the root, their join, and a scope inside that. The first of them is in sight
of the last, by way of the caller's side of the join between them, so their join is the last itself;
the other way round it is a new scope. -/
theorem Arises.lookup_joined_inner :
    let a := ((((Arena.empty.child 0).2.define 1 "x" (.keyword "y")).child 0).2.join 1 2).2.child 3
      |>.2
    a.join 1 4 = (4, a) ∧ (a.join 4 1).1 = 5 ∧
    (a.lookup 4 "x" = (a.lookup 4 "x").or (a.lookup 1 "x") ∧ (a.lookup 4 "x").isSome) ∧
    (∀ name, (a.join 4 1).2.lookup 5 name =
      ((a.join 4 1).2.lookup 1 name).or ((a.join 4 1).2.lookup 4 name)) := by
  intro a
  have hdefine : Arises ((Arena.empty.child 0).2.define 1 "x" (.keyword "y")) [] :=
    (Arises.start.create (.child 0) (by decide)).change (.record 1 (.binding "x" (.keyword "y")))
      (by decide) nofun
  have h : a.Arises [] :=
    ((hdefine.create (.child 0) (by decide)).create (.join 1 2) (by decide)).create (.child 3)
      (by decide)
  have hsame : a.join 1 4 = (4, a) := if_pos (by decide)
  have hnew : a.join 4 1 = (5, (a.join 4 1).2) := Prod.ext (by decide) rfl
  refine ⟨hsame, by decide, ⟨?_, by decide⟩, ?_⟩
  · exact (Arises.lookup_joined h (by decide) (by decide) hsame).1 "x"
  · exact (Arises.lookup_joined h (by decide) (by decide) hnew).1

end Arena

end LessSheet
