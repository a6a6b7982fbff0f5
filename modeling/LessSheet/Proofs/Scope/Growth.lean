import LessSheet.Proofs.Scope.Mention

/-! # How an arena grows

An arena is closed if links lead to smaller numbers and every number that occurs in it is that of a
scope. It is ready for work in scope `s` if moreover nothing is staged for `s`. `Grows s a b` says
what may have become of `a` while work was done in scope `s`: there are more scopes, with nothing
staged for them, `s` has entries after those it had, and every other scope that was there is exactly
as it was.

Each operation keeps an arena closed if it is applied to scopes that exist. Going back to a snapshot
gives the arena of that time exactly, if nothing but new scopes came after it (`Grows.restore_eq`),
and changes nothing at all if the scope's log is what it was (`restore_log_eq`).
-/

namespace LessSheet

namespace Arena

/-! ## Closed arenas -/

/-- Links lead to older scopes, and the numbers that occur in an arena are those of its scopes. -/
structure Closed (a : Arena) : Prop where
  older : ∀ s, ∀ t ∈ (a.scope s).link.targets, t < s
  stored : ∀ t, a.Mentions t → t < a.size

/-- A closed arena with nothing staged for a scope: what work in that scope starts from. -/
structure Ready (a : Arena) (s : ScopeId) : Prop extends a.Closed where
  settled : (a.scope s).staged = none

/-- A closed arena with nothing staged at all. -/
structure WellFormed (a : Arena) : Prop extends a.Closed where
  settled : ∀ s, (a.scope s).staged = none

/-- The scopes of `a`, but for `s`, are the same in `b`. -/
def SameBeside (s : ScopeId) (a b : Arena) : Prop := ∀ t < a.size, t ≠ s → b.scope t = a.scope t

/-- What may have become of an arena while work was done in scope `s`. -/
structure Grows (s : ScopeId) (a b : Arena) : Prop where
  size : a.size ≤ b.size
  frame : a.SameBeside s b
  link : s < a.size → (b.scope s).link = (a.scope s).link
  log : s < a.size → a.log s <+: b.log s
  staged : s < a.size → (b.scope s).staged = (a.scope s).staged
  fresh : ∀ t, a.size ≤ t → (b.scope t).staged = none

section
variable {a b c : Arena} {s t : ScopeId}

/-- Beyond the arena every scope is empty. -/
theorem scope_of_size_le (h : a.size ≤ s) : a.scope s = ⟨.root, [], none⟩ := by
  rw [scope, Array.getElem?_eq_none h]
  rfl

/-- In a well-formed arena work may start in any scope. -/
theorem WellFormed.ready (h : a.WellFormed) (s : ScopeId) : a.Ready s := ⟨h.toClosed, h.settled s⟩

/-- Nothing is staged for a scope that is still to come. -/
theorem Closed.ready (h : a.Closed) (hs : a.size ≤ s) : a.Ready s :=
  ⟨h, by rw [scope_of_size_le hs]⟩

/-- An arena is the same as itself. -/
theorem SameBeside.refl (s : ScopeId) (a : Arena) : a.SameBeside s a := fun _ _ _ => rfl

/-- An arena that stays as it is has grown by nothing. -/
theorem Grows.refl (s : ScopeId) (a : Arena) : Grows s a a :=
  ⟨Nat.le_refl _, .refl s a, fun _ => rfl, fun _ => List.prefix_rfl, fun _ => rfl,
    fun _ ht => by rw [scope_of_size_le ht]⟩

/-- Work in a scope after work in that scope is work in that scope. -/
theorem Grows.trans (h₁ : Grows s a b) (h₂ : Grows s b c) : Grows s a c := by
  have hlt : ∀ {t}, t < a.size → t < b.size := fun ht => Nat.lt_of_lt_of_le ht h₁.size
  refine ⟨Nat.le_trans h₁.size h₂.size, fun t ht hts => ?_, fun hs => ?_, fun hs => ?_,
    fun hs => ?_, fun t ht => ?_⟩
  · rw [h₂.frame t (hlt ht) hts, h₁.frame t ht hts]
  · rw [h₂.link (hlt hs), h₁.link hs]
  · exact (h₁.log hs).trans (h₂.log (hlt hs))
  · rw [h₂.staged (hlt hs), h₁.staged hs]
  · by_cases hb : t < b.size
    · by_cases hts : t = s
      · rw [hts, h₂.staged (hts ▸ hb), ← hts, h₁.fresh t ht]
      · rw [h₂.frame t hb hts, h₁.fresh t ht]
    · exact h₂.fresh t (Nat.le_of_not_lt hb)

/-- After work in a scope nothing is staged for it, if nothing was. -/
theorem Ready.settled_of_grows (ha : a.Ready s) (h : Grows s a b) : (b.scope s).staged = none := by
  by_cases hs : s < a.size
  · rw [h.staged hs, ha.settled]
  · exact h.fresh s (Nat.le_of_not_lt hs)

/-- Work in a scope that was not there leaves all scopes that were. -/
theorem Grows.scope_eq (h : Grows s a b) (hs : a.size ≤ s) (ht : t < a.size) :
    b.scope t = a.scope t :=
  h.frame t ht (Nat.ne_of_lt (Nat.lt_of_lt_of_le ht hs))

/-- Work in a scope changes no link. -/
theorem Grows.link_eq (h : Grows s a b) (ht : t < a.size) :
    (b.scope t).link = (a.scope t).link := by
  by_cases hts : t = s
  · rw [hts, h.link (hts ▸ ht)]
  · rw [h.frame t ht hts]

/-- Work that leaves all scopes that were there is work in any of them. -/
theorem Grows.of_scope_eq (hsize : a.size ≤ b.size) (h : ∀ t < a.size, b.scope t = a.scope t)
    (hfresh : ∀ t, a.size ≤ t → (b.scope t).staged = none) : Grows s a b := by
  refine ⟨hsize, fun t ht _ => h t ht, fun hs => ?_, fun hs => ?_, fun hs => ?_, hfresh⟩
  · rw [h s hs]
  · have hlog : b.log s = a.log s := congrArg Scope.log (h s hs)
    exact hlog ▸ List.prefix_rfl
  · rw [h s hs]

/-- Work in a scope that was not there may be taken for work in any scope. -/
theorem Grows.of_fresh (h : Grows t a b) (ht : a.size ≤ t) : Grows s a b :=
  .of_scope_eq h.size (fun _ hu => h.scope_eq ht hu) h.fresh

/-! ## The scopes of an arena determine it -/

/-- Arenas with the same scopes are the same. -/
theorem ext_scope (hsize : a.size = b.size) (h : ∀ s < a.size, a.scope s = b.scope s) : a = b := by
  obtain ⟨xs⟩ := a
  obtain ⟨ys⟩ := b
  refine congrArg Arena.mk (Array.ext hsize fun i hi hj => ?_)
  have := h i hi
  simpa only [scope, Array.getElem?_eq_getElem hi, Array.getElem?_eq_getElem hj,
    Option.getD_some] using this

/-! ## Adding scopes -/

/-- A scope whose link leads to scopes that exist keeps an arena closed. -/
theorem Closed.push (h : a.Closed) {link : Link} (hl : ∀ t ∈ link.targets, t < a.size) :
    (a.push link).2.Closed := by
  constructor
  · intro s t ht
    rw [scope_push] at ht
    split at ht
    · next hs => exact hs ▸ hl t ht
    · exact h.older s t ht
  · rintro t ⟨s, ht⟩
    rw [size_push]
    refine Nat.lt_succ_of_lt ?_
    rw [scope_push] at ht
    split at ht
    · exact hl t (by simpa using ht)
    · exact h.stored t ⟨s, ht⟩

/-- A new scope is ready for work. -/
theorem Closed.ready_push (h : a.Closed) {link : Link} (hl : ∀ t ∈ link.targets, t < a.size) :
    (a.push link).2.Ready a.size := by
  refine ⟨h.push hl, ?_⟩
  rw [scope_push, if_pos rfl]

/-- Adding a scope leaves the others. -/
theorem Grows.push (s : ScopeId) (a : Arena) (link : Link) : Grows s a (a.push link).2 := by
  refine .of_scope_eq (by rw [size_push]; omega) (fun t ht => ?_) fun t ht => ?_
  · rw [scope_push, if_neg (Nat.ne_of_lt ht)]
  · rw [scope_push]
    split
    · rfl
    · rw [scope_of_size_le ht]

/-! ## Changing a scope -/

/-- A change that keeps the link and brings in no other numbers keeps an arena closed. -/
theorem Closed.update (h : a.Closed) {f : Scope → Scope}
    (hl : (f (a.scope s)).link = (a.scope s).link)
    (hm : ∀ t ∈ scopesIn (f (a.scope s)), t < a.size) : (a.update s f).Closed := by
  constructor
  · intro u t ht
    rw [scope_update] at ht
    split at ht
    · next hu =>
      rw [← hu.1, hl] at ht
      exact hu.1 ▸ h.older s t ht
    · exact h.older u t ht
  · rintro t ⟨u, ht⟩
    rw [size_update]
    rw [scope_update] at ht
    split at ht
    · next hu => exact hm t (hu.1 ▸ ht)
    · exact h.stored t ⟨u, ht⟩

/-- What occurs in a scope of a closed arena exists. -/
theorem Closed.mem_scope (h : a.Closed) (ht : t ∈ scopesIn (a.scope s)) : t < a.size :=
  h.stored t ⟨s, ht⟩

/-- An entry that mentions scopes that exist keeps an arena closed. -/
theorem Closed.record (h : a.Closed) {e : Entry} (he : ∀ t ∈ scopesIn e, t < a.size) :
    (a.record s e).Closed := by
  refine h.update rfl fun t ht => ?_
  simp only [scopesIn_scope, scopesIn_append, scopesIn_cons, scopesIn_nil, List.append_nil,
    List.mem_append] at ht
  rcases ht with ht | (ht | ht) | ht
  · exact h.mem_scope (s := s) (by simp [ht])
  · exact h.mem_scope (s := s) (by simp [ht])
  · exact he t ht
  · exact h.mem_scope (s := s) (by simp [ht])

/-- Recording an entry is work in its scope. -/
theorem Grows.record (s : ScopeId) (a : Arena) (e : Entry) : Grows s a (a.record s e) := by
  refine ⟨Nat.le_of_eq (size_record a s e).symm, fun t _ hts => ?_, fun _ => link_record ..,
    fun hs => ?_, fun hs => ?_, fun t ht => ?_⟩
  · rw [Arena.record, scope_update, if_neg fun h => hts h.1.symm]
  · rw [log_record, if_pos ⟨rfl, hs⟩]
    exact List.prefix_append _ _
  · rw [Arena.record, scope_update, if_pos ⟨rfl, hs⟩]
  · rw [Arena.record, scope_update, if_neg fun h => Nat.not_lt.2 ht h.2, scope_of_size_le ht]

/-! ## Staging -/

/-- Starting to stage entries brings in no numbers. -/
theorem Closed.openStaging (h : a.Closed) : (a.openStaging s).Closed := by
  refine h.update rfl fun t ht => h.mem_scope (s := s) ?_
  simp only [scopesIn_scope, scopesIn_some, scopesIn_nil, List.append_nil, List.mem_append] at ht ⊢
  exact ht.imp_right .inl

/-- Staged entries mention what is in the arena. -/
theorem Closed.stage (h : a.Closed) : (a.stage s t).Closed := by
  refine h.update rfl fun u hu => ?_
  simp only [scopesIn_scope, scopesIn_some, scopesIn_append, List.mem_append] at hu
  rcases hu with hu | hu | hu | hu
  · exact h.mem_scope (s := s) (by simp [hu])
  · exact h.mem_scope (s := s) (by simp [hu])
  · refine h.mem_scope (s := s) ?_
    cases hs : (a.scope s).staged with
    | none =>
      rw [hs] at hu
      cases hu
    | some staged =>
      rw [hs] at hu
      simp only [scopesIn_scope, hs, scopesIn_some, List.mem_append]
      exact .inr (.inr hu)
  · obtain ⟨e, he, hu⟩ := mem_scopesIn_list.1 hu
    exact h.stored u (.of_log he hu)

/-- Committed entries were in the arena before. -/
theorem Closed.commit (h : a.Closed) : (a.commit s).Closed := by
  refine h.update ?_ fun t ht => ?_
  · split <;> rfl
  · split at ht
    · exact h.mem_scope ht
    · next staged hs =>
      refine h.mem_scope (s := s) ?_
      simp only [scopesIn_scope, scopesIn_append, scopesIn_none, List.append_nil,
        List.mem_append] at ht
      simp only [scopesIn_scope, hs, scopesIn_some, List.mem_append]
      rcases ht with ht | ht | ht
      · exact .inl ht
      · exact .inr (.inl ht)
      · obtain ⟨e, he, ht⟩ := mem_scopesIn_list.1 ht
        exact .inr (.inr (mem_scopesIn_list.2 ⟨e, (List.mem_filter.1 he).1, ht⟩))

/-- Between starting to stage entries for `s` and committing them, no scope but `s` changes, and of
`s` only what is staged. -/
structure Stages (s : ScopeId) (a b : Arena) : Prop where
  size : b.size = a.size
  frame : ∀ t, t ≠ s → b.scope t = a.scope t
  link : (b.scope s).link = (a.scope s).link
  log : b.log s = a.log s

/-- Before anything is staged nothing has changed. -/
theorem Stages.refl (s : ScopeId) (a : Arena) : Stages s a a := ⟨rfl, fun _ _ => rfl, rfl, rfl⟩

/-- What is staged may be staged in two steps. -/
theorem Stages.trans (h₁ : Stages s a b) (h₂ : Stages s b c) : Stages s a c :=
  ⟨h₂.size.trans h₁.size, fun t ht => (h₂.frame t ht).trans (h₁.frame t ht),
    h₂.link.trans h₁.link, h₂.log.trans h₁.log⟩

/-- Staging changes no log. -/
theorem Stages.log_eq (h : Stages s a b) : b.log = a.log := by
  funext t
  by_cases hts : t = s
  · rw [hts, h.log]
  · rw [Arena.log, h.frame t hts, Arena.log]

/-- A change to what is staged. -/
theorem Stages.update {f : Scope → Scope} (hl : (f (a.scope s)).link = (a.scope s).link)
    (hlog : (f (a.scope s)).log = (a.scope s).log) : Stages s a (a.update s f) := by
  refine ⟨size_update .., fun t ht => ?_, ?_, ?_⟩
  · rw [scope_update, if_neg fun h => ht h.1.symm]
  · rw [scope_update]
    split
    · exact hl
    · rfl
  · rw [Arena.log, scope_update]
    split
    · exact hlog
    · rfl

/-- Starting to stage entries changes only what is staged. -/
theorem Stages.openStaging (s : ScopeId) (a : Arena) : Stages s a (a.openStaging s) :=
  .update rfl rfl

/-- Staging entries changes only what is staged. -/
theorem Stages.stage (s t : ScopeId) (a : Arena) : Stages s a (a.stage s t) := .update rfl rfl

/-- After a commit nothing is staged. -/
theorem staged_commit (hs : s < a.size) : ((a.commit s).scope s).staged = none := by
  rw [Arena.commit, scope_update, if_pos ⟨rfl, hs⟩]
  split
  · next h => exact h
  · rfl

/-- Entries that are staged for a scope and committed are work in that scope. -/
theorem Ready.grows_commit (ha : a.Ready s) (h : Stages s a b) (hs : s < a.size) :
    Grows s a (b.commit s) := by
  have hsb : s < b.size := h.size ▸ hs
  have hsize : (b.commit s).size = a.size := by rw [Arena.commit, size_update, h.size]
  refine ⟨Nat.le_of_eq hsize.symm, fun t _ hts => ?_, fun _ => ?_, fun _ => ?_, fun _ => ?_,
    fun t ht => ?_⟩
  · rw [Arena.commit, scope_update, if_neg fun h => hts h.1.symm, h.frame t hts]
  · rw [← h.link, Arena.commit, scope_update, if_pos ⟨rfl, hsb⟩]
    split <;> rfl
  · rw [← h.log, Arena.log, Arena.log, Arena.commit, scope_update, if_pos ⟨rfl, hsb⟩]
    split
    · exact List.prefix_rfl
    · exact List.prefix_append _ _
  · rw [staged_commit hsb, ha.settled]
  · rw [Arena.commit, scope_update, if_neg fun hu => Nat.not_lt.2 ht (h.size ▸ hu.2),
      scope_of_size_le (h.size.symm ▸ ht)]

/-! ## Going back -/

@[simp] theorem size_truncate (a : Arena) (n : Nat) : (a.truncate n).size = min n a.size := by
  simp [truncate, size]

/-- The scopes that are left are as they were. -/
theorem scope_truncate {n : Nat} (h : t < n) : (a.truncate n).scope t = a.scope t := by
  simp only [truncate, scope, Array.shrink_eq_take, Array.take_eq_extract, Array.getElem?_extract,
    Nat.zero_add, Nat.sub_zero]
  split
  · rfl
  · next ht => rw [Array.getElem?_eq_none (Nat.le_of_not_lt fun hu => ht (Nat.lt_min.2 ⟨h, hu⟩))]

/-- The scopes that were dropped are not there. -/
theorem scope_truncate_of_le {n : Nat} (h : n ≤ t) :
    (a.truncate n).scope t = ⟨.root, [], none⟩ := by
  refine scope_of_size_le ?_
  rw [size_truncate]
  exact Nat.le_trans (Nat.min_le_left _ _) h

/-- A change that leaves a scope as it is changes nothing. -/
theorem update_eq_self {f : Scope → Scope} (h : f (a.scope s) = a.scope s) : a.update s f = a := by
  refine ext_scope (size_update ..) fun t _ => ?_
  rw [scope_update]
  split
  · next ht => rw [← ht.1, h]
  · rfl

/-- Going back to a log that is as it was changes nothing. -/
theorem restore_log_eq (h : b.log s = a.log s) : b.restore (a.snapshot s .log) = b := by
  refine update_eq_self ?_
  show { b.scope s with log := (b.scope s).log.take (a.log s).length } = b.scope s
  rw [← h]
  exact congrArg (fun l => { b.scope s with log := l }) List.take_length

/-- Where only new scopes came after a snapshot, going back gives the arena it was taken of. -/
theorem Grows.restore_eq (h : Grows s a b) (hs : a.size ≤ s) (t : ScopeId) :
    b.restore (a.snapshot t .attempt) = a := by
  have htrunc : b.truncate a.size = a := by
    refine ext_scope ?_ fun u hu => ?_
    · rw [size_truncate, Nat.min_eq_left h.size]
    · rw [size_truncate, Nat.min_eq_left h.size] at hu
      rw [scope_truncate hu, h.scope_eq hs hu]
  show (b.truncate a.size).update t _ = a
  rw [htrunc]
  exact update_eq_self (congrArg (fun l => { a.scope t with log := l }) List.take_length)

end

end Arena

end LessSheet
