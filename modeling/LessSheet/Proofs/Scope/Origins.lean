import LessSheet.Proofs.Scope.Sight
import Mathlib.Data.List.Dedup

/-! # Candidates by their origins

The definitions that a call may be meant for stand in a log once for each time they have come to it,
and count once for each origin (`Arena.length_ownMixins`). So entries that come to a log add as many
candidates as there are origins among them that were not there before (`candidates_append`).

A definition written with parentheses has the same origin wherever it comes from. A rule called by
its selector has the origin of the scope and the place in the log where it was registered, so work
that adds scopes and entries never gives it one that was there. `Arena.Registers` says what comes to
the log of a scope in the course of such work, and goes on from one piece of work to the next.
-/

namespace LessSheet

/-! ## Counting -/

/-- A rule called by its selector, not a definition written with parentheses. -/
def Registration.isPlain (r : Registration) : Bool :=
  match r.origin with
  | .written _ => false
  | .hoisted _ _ => true

/-- The registrations among entries. -/
def registrationsIn (entries : List Entry) : List Registration :=
  entries.filterMap Arena.registration?

@[simp] theorem registrationsIn_append (xs ys : List Entry) :
    registrationsIn (xs ++ ys) = registrationsIn xs ++ registrationsIn ys :=
  List.filterMap_append

@[simp] theorem registrationsIn_mixins (rs : List Registration) :
    registrationsIn (rs.map .mixin) = rs := by
  rw [registrationsIn, List.filterMap_map]
  exact List.filterMap_some

/-- The mixins of a scope are the registrations in its log. -/
theorem mixins_eq_registrationsIn (a : Arena) (s : ScopeId) :
    a.mixins s = registrationsIn (a.log s) := rfl

/-- How many definitions there are among registrations that a call may be meant for. -/
def candidateCount (name : String) (arity : Option Nat) (rs : List Registration) : Nat :=
  ((rs.filter (Arena.answers name arity)).map Registration.origin).dedup.length

section
variable {r : Registration} {rs found : List Registration}

/-- A definition that is found again keeps its place. -/
theorem origins_keepLatest (r : Registration) (found : List Registration) :
    (Arena.keepLatest r found).map Registration.origin =
      if r.origin ∈ found.map Registration.origin then found.map Registration.origin
      else found.map Registration.origin ++ [r.origin] := by
  induction found with
  | nil => rfl
  | cons q rest ih =>
    rw [Arena.keepLatest]
    by_cases h : q.origin = r.origin
    · simp [h]
    · rw [if_neg h, List.map_cons, ih]
      by_cases hmem : r.origin ∈ rest.map Registration.origin
      · simp [hmem]
      · simp only [hmem, ↓reduceIte, List.map_cons, List.mem_cons, Ne.symm h, or_self,
          List.cons_append]

/-- What is found has each origin once: the origins of what there was and of what came. -/
theorem origins_foldl_keepLatest (rs found : List Registration)
    (h : (found.map Registration.origin).Nodup) :
    let all := rs.foldl (fun found r => Arena.keepLatest r found) found
    (all.map Registration.origin).Nodup ∧ ∀ o, o ∈ all.map Registration.origin ↔
      o ∈ found.map Registration.origin ∨ o ∈ rs.map Registration.origin := by
  induction rs generalizing found with
  | nil => simp [h]
  | cons r rest ih =>
    have hstep := origins_keepLatest r found
    have hnodup : ((Arena.keepLatest r found).map Registration.origin).Nodup := by
      rw [hstep]
      split
      · exact h
      · next hmem => simpa [List.nodup_append] using ⟨h, by simpa using hmem⟩
    obtain ⟨hall, horigins⟩ := ih (Arena.keepLatest r found) hnodup
    refine ⟨hall, fun o => ?_⟩
    rw [List.foldl_cons, horigins, hstep, List.map_cons, List.mem_cons]
    split
    · next hmem => grind
    · simp only [List.mem_append, List.mem_singleton]
      grind

/-- The candidates that a scope has itself have the origins of what was registered there. -/
theorem Arena.mem_origins_ownMixins {a : Arena} {s : ScopeId} {name : String} {arity : Option Nat}
    {o : Origin} : o ∈ (a.ownMixins s name arity).map Registration.origin ↔
      o ∈ ((a.mixins s).filter (answers name arity)).map Registration.origin := by
  have horigins :=
    (origins_foldl_keepLatest ((a.mixins s).filter (answers name arity)) [] .nil).2 o
  rwa [List.map_nil, or_iff_right List.not_mem_nil] at horigins

/-- The candidates that a scope has itself are as many as their origins. -/
theorem Arena.length_ownMixins (a : Arena) (s : ScopeId) (name : String) (arity : Option Nat) :
    (a.ownMixins s name arity).length = candidateCount name arity (a.mixins s) := by
  have hnodup :=
    (origins_foldl_keepLatest ((a.mixins s).filter (answers name arity)) [] .nil).1
  rw [candidateCount, ← List.length_map (f := Registration.origin)]
  refine (List.perm_of_nodup_nodup_toFinset_eq hnodup (List.nodup_dedup _) ?_).length_eq
  ext o
  rw [List.mem_toFinset, List.mem_toFinset, List.mem_dedup]
  exact Arena.mem_origins_ownMixins

/-- Where the scope itself has candidates, these are what a look-up finds. -/
theorem Arena.lookupMixins_eq_own {a : Arena} (ha : a.Ordered) {s : ScopeId} {name : String}
    {arity : Option Nat} {r : Registration} (hr : r ∈ a.mixins s)
    (hanswers : answers name arity r) :
    a.lookupMixins s name arity = a.ownMixins s name arity := by
  have hmem : r.origin ∈ (a.ownMixins s name arity).map Registration.origin :=
    Arena.mem_origins_ownMixins.2 (List.mem_map_of_mem (List.mem_filter.2 ⟨hr, hanswers⟩))
  have hown : a.ownMixins? s name arity = some (a.ownMixins s name arity) := by
    rw [ownMixins?]
    split
    · next hnil =>
      rw [hnil] at hmem
      cases hmem
    · rfl
  rw [lookupMixins, search_eq_resolve ha, resolve_of_some ha _ hown]
  rfl

/-- Registrations that come to others add no candidate exactly if all of them that a call may be
meant for have origins that were there. -/
theorem candidateCount_append_eq_iff {name : String} {arity : Option Nat}
    {xs ys : List Registration} :
    candidateCount name arity (xs ++ ys) = candidateCount name arity xs ↔
      ∀ r ∈ ys.filter (Arena.answers name arity),
        r.origin ∈ (xs.filter (Arena.answers name arity)).map Registration.origin := by
  simp only [candidateCount, ← List.card_toFinset, List.filter_append, List.map_append,
    List.toFinset_append]
  constructor
  · intro h r hr
    have heq := Finset.eq_of_subset_of_card_le Finset.subset_union_left (Nat.le_of_eq h)
    rw [← List.mem_toFinset, heq]
    exact Finset.mem_union_right _ (List.mem_toFinset.2 (List.mem_map_of_mem hr))
  · intro h
    rw [Finset.union_eq_left.2]
    intro o ho
    obtain ⟨r, hr, rfl⟩ := List.mem_map.1 (List.mem_toFinset.1 ho)
    exact List.mem_toFinset.2 (h r hr)

/-- Registrations whose definitions were there, but for rules called by their selectors, each of
which is new, add a candidate for each of these. -/
theorem candidateCount_append_plain {name : String} {arity : Option Nat}
    {xs ys : List Registration} (hdistinct : ys.Pairwise fun r q => r.isPlain → r.origin ≠ q.origin)
    (hnew : ∀ r ∈ ys, r.isPlain → ∀ q ∈ xs, r.origin ≠ q.origin)
    (hold : ∀ r ∈ ys.filter (Arena.answers name arity), r.isPlain = false →
      r.origin ∈ (xs.filter (Arena.answers name arity)).map Registration.origin) :
    candidateCount name arity (xs ++ ys) =
      candidateCount name arity xs + (ys.filter (Arena.answers name arity)).countP (·.isPlain) := by
  let there := (xs.filter (Arena.answers name arity)).map Registration.origin
  let plain := ((ys.filter (Arena.answers name arity)).filter (·.isPlain)).map Registration.origin
  have hnodup : plain.Nodup := by
    refine List.pairwise_map.2 (((hdistinct.filter _).filter _).imp_of_mem fun {r q} hr _ h => ?_)
    exact h (List.mem_filter.1 hr).2
  have hdisjoint : Disjoint there.toFinset plain.toFinset := by
    rw [List.disjoint_toFinset_iff_disjoint]
    intro o hthere hplain
    obtain ⟨q, hq, rfl⟩ := List.mem_map.1 hthere
    obtain ⟨r, hr, hrq⟩ := List.mem_map.1 hplain
    obtain ⟨hr, hisPlain⟩ := List.mem_filter.1 hr
    exact hnew r (List.mem_filter.1 hr).1 hisPlain q (List.mem_filter.1 hq).1 hrq
  -- the definitions written with parentheses add nothing
  have hall : (((xs ++ ys).filter (Arena.answers name arity)).map Registration.origin).toFinset =
      there.toFinset ∪ plain.toFinset := by
    ext o
    simp only [List.filter_append, List.map_append, List.toFinset_append, Finset.mem_union,
      List.mem_toFinset, there, plain]
    refine or_congr_right' fun hthere => ?_
    constructor
    · intro ho
      obtain ⟨r, hr, rfl⟩ := List.mem_map.1 ho
      cases hplain : r.isPlain with
      | false => exact absurd (hold r hr hplain) hthere
      | true => exact List.mem_map_of_mem (List.mem_filter.2 ⟨hr, hplain⟩)
    · intro ho
      obtain ⟨r, hr, rfl⟩ := List.mem_map.1 ho
      exact List.mem_map_of_mem (List.mem_filter.1 hr).1
  rw [candidateCount, candidateCount, ← List.card_toFinset, ← List.card_toFinset, hall,
    Finset.card_union_of_disjoint hdisjoint, List.toFinset_card_of_nodup hnodup, List.length_map,
    List.countP_eq_length_filter]

end

/-! ## What comes to a log -/

namespace Arena

/-- A rule called by its selector that was registered since there was the arena `a`, in which work
is done in scope `s`: in a scope that is not there, or in `s` after what its log has. -/
def NewerThan (s : ScopeId) (a : Arena) : Origin → Prop
  | .written _ => True
  | .hoisted t position => a.size ≤ t ∨ t = s ∧ (a.log s).length ≤ position

/-- A rule called by its selector that was registered before there was the arena `a`. -/
def OlderThan (s : ScopeId) (a : Arena) : Origin → Prop
  | .written _ => True
  | .hoisted t position => t < a.size ∧ (t = s → position < (a.log s).length)

/-- Work in scope `s` that leads from `a` to `b` has added `new` to its log. The rules called by
their selectors among `new` were registered in the course of this work, and each comes once. -/
structure Registers (s : ScopeId) (a b : Arena) (new : List Entry) : Prop where
  size : a.size ≤ b.size
  log : b.log s = a.log s ++ new
  newer : ∀ r ∈ registrationsIn new, NewerThan s a r.origin
  older : ∀ r ∈ registrationsIn new, OlderThan s b r.origin
  distinct : (registrationsIn new).Pairwise fun r q => r.isPlain → r.origin ≠ q.origin

section
variable {s : ScopeId} {a b c : Arena} {new more : List Entry} {r q : Registration}

/-- What was registered before differs from what is registered later. -/
theorem ne_of_older_newer (hr : OlderThan s a r.origin) (hq : NewerThan s a q.origin)
    (hplain : r.isPlain) : r.origin ≠ q.origin := by
  intro h
  rw [← h] at hq
  rw [Registration.isPlain] at hplain
  cases ho : r.origin with
  | written site =>
    rw [ho] at hplain
    cases hplain
  | hoisted t position =>
    rw [ho] at hr hq
    rcases hq with hq | ⟨ht, hq⟩
    · exact absurd hr.1 (Nat.not_lt_of_le hq)
    · exact absurd (hr.2 ht) (Nat.not_lt_of_le hq)

/-- Work that leaves the log of a scope. -/
theorem Registers.nothing (hsize : a.size ≤ b.size) (hlog : b.log s = a.log s) :
    Registers s a b [] :=
  ⟨hsize, by rw [hlog, List.append_nil], nofun, nofun, .nil⟩

/-- One piece of work after the other. -/
theorem Registers.trans (h₁ : Registers s a b new) (h₂ : Registers s b c more) :
    Registers s a c (new ++ more) := by
  have hlength : (a.log s).length ≤ (b.log s).length := by simp [h₁.log]
  have hlength' : (b.log s).length ≤ (c.log s).length := by simp [h₂.log]
  have hsize := h₁.size
  have hsize' := h₂.size
  refine ⟨Nat.le_trans hsize hsize', by rw [h₂.log, h₁.log, List.append_assoc], ?_, ?_, ?_⟩
  · rw [registrationsIn_append, List.forall_mem_append]
    refine ⟨h₁.newer, fun r hr => ?_⟩
    have hnewer := h₂.newer r hr
    cases ho : r.origin with
    | written site => trivial
    | hoisted t position =>
      rw [ho] at hnewer
      exact hnewer.imp (Nat.le_trans hsize) (And.imp_right (Nat.le_trans hlength))
  · rw [registrationsIn_append, List.forall_mem_append]
    refine ⟨fun r hr => ?_, h₂.older⟩
    have holder := h₁.older r hr
    cases ho : r.origin with
    | written site => trivial
    | hoisted t position =>
      rw [ho] at holder
      exact ⟨Nat.lt_of_lt_of_le holder.1 hsize',
        fun ht => Nat.lt_of_lt_of_le (holder.2 ht) hlength'⟩
  · rw [registrationsIn_append, List.pairwise_append]
    exact ⟨h₁.distinct, h₂.distinct, fun r hr q hq =>
      ne_of_older_newer (h₁.older r hr) (h₂.newer q hq)⟩

/-- A variable that is defined. -/
theorem Registers.define (hs : s < a.size) (name : String) (v : Value) :
    Registers s a (a.record s (.binding name v)) [.binding name v] :=
  ⟨Nat.le_of_eq (size_record a s _).symm, by rw [log_record, if_pos ⟨rfl, hs⟩], nofun, nofun, .nil⟩

end

end Arena

end LessSheet
