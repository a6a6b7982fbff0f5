import LessSheet.Proofs.Scope.Arising

/-! # Rollback

`Since s a b taken` says that some sequence of operations has led from the arena `a` to `b`, and
that the sequence keeps to what may happen during an attempt in scope `s`: entries come to `s` or to
scopes added since, entries are staged for scopes added since, and what is gone back to are
snapshots of the sequence itself, which are `taken`. Within that, snapshots may be taken of any
scope and gone back to in any order, more than once, and after the number of their scope has been
dropped and given out again.

A snapshot holds two lengths only. That these are enough to get `a` back rests on what holds all
along the sequence: `b` retains the scopes of `a` (`Retains`), and no snapshot that was taken cuts
into them (`Snapshot.Spares`). So going back to `a` is exact (`Since.restore_snapshot`).
-/

namespace LessSheet

/-- What a change may do during an attempt in scope `s` that began with `size` scopes, when `taken`
are the snapshots taken since. -/
def Change.Undoable (s : ScopeId) (size : Nat) (taken : List Snapshot) : Change → Prop
  | .record t _ => t = s ∨ size ≤ t
  | .restore snapshot => snapshot ∈ taken
  | .openStaging t => size ≤ t
  | .stage t _ => size ≤ t
  | .commit t => size ≤ t

/-- Going back to a snapshot leaves the scopes of `a`, and at least the entries that they have
there. -/
structure Snapshot.Spares (a : Arena) (snapshot : Snapshot) : Prop where
  scopes : a.size ≤ snapshot.scopes
  entries : snapshot.scope < a.size → (a.log snapshot.scope).length ≤ snapshot.entries

namespace Arena

/-- Operations one after the other, during an attempt in scope `s` that began with the arena `a`:
the arena they lead to, and the snapshots taken on the way, the latest first. Every operation is
applied to scopes that exist at that moment, and a snapshot is gone back to while its scope
exists. -/
inductive Since (s : ScopeId) (a : Arena) : Arena → List Snapshot → Prop where
  | start : Since s a a []
  | create {b : Arena} {taken : List Snapshot} (c : Creation) :
    Since s a b taken → (∀ t ∈ c.operands, t < b.size) → Since s a (c.apply b).2 taken
  | change {b : Arena} {taken : List Snapshot} (c : Change) :
    Since s a b taken → (∀ t ∈ c.operands, t < b.size) → c.Undoable s a.size taken →
    Since s a (c.apply b) taken
  | mark {b : Arena} {taken : List Snapshot} (t : ScopeId) (kind : Snapshot.Kind) :
    Since s a b taken → t < b.size → Since s a b (b.snapshot t kind :: taken)

/-- The scopes of `a` are still there in `b`: `s` has entries after those it had, the others are the
same. -/
structure Retains (s : ScopeId) (a b : Arena) : Prop where
  size : a.size ≤ b.size
  frame : a.SameBeside s b
  link : (b.scope s).link = (a.scope s).link
  log : a.log s <+: b.log s
  staged : (b.scope s).staged = (a.scope s).staged

section
variable {a b c : Arena} {s t : ScopeId}

/-- An arena retains its own scopes. -/
theorem Retains.refl (s : ScopeId) (a : Arena) : Retains s a a :=
  ⟨Nat.le_refl _, .refl s a, rfl, List.prefix_rfl, rfl⟩

/-- Every scope that is retained has at least the entries that it had. -/
theorem Retains.length_le (h : Retains s a b) (ht : t < a.size) :
    (a.log t).length ≤ (b.log t).length := by
  by_cases hts : t = s
  · exact hts ▸ h.log.length_le
  · exact Nat.le_of_eq (congrArg (fun scope => scope.log.length) (h.frame t ht hts).symm)

/-! ## Single operations -/

/-- What leaves the scopes of `a` as they are retains them. -/
theorem Retains.of_scope_eq (h : Retains s a b) (hs : s < a.size) (hsize : a.size ≤ c.size)
    (hc : ∀ t < a.size, c.scope t = b.scope t) : Retains s a c := by
  have hself := hc s hs
  refine ⟨hsize, fun t ht hts => (hc t ht).trans (h.frame t ht hts), ?_, ?_, ?_⟩
  · rw [hself, h.link]
  · rw [Arena.log, Arena.log, hself]
    exact h.log
  · rw [hself, h.staged]

/-- A scope that is added comes after those that there were. -/
theorem Retains.push (h : Retains s a b) (hs : s < a.size) (link : Link) :
    Retains s a (b.push link).2 := by
  refine h.of_scope_eq hs ?_ fun t ht => ?_
  · rw [size_push]
    exact Nat.le_succ_of_le h.size
  · rw [scope_push, if_neg (Nat.ne_of_lt (Nat.lt_of_lt_of_le ht h.size))]

/-- A creation takes nothing from the scopes that there were. -/
theorem Retains.create (h : Retains s a b) (hs : s < a.size) (c : Creation) :
    Retains s a (c.apply b).2 := by
  rcases c.apply_cases b with hsame | ⟨link, -, hpush⟩
  · rwa [hsame]
  · rw [hpush]
    exact h.push hs link

/-- A scope that was added since may be changed in any way. -/
theorem Retains.update (h : Retains s a b) (hs : s < a.size) (ht : a.size ≤ t)
    (f : Scope → Scope) : Retains s a (b.update t f) := by
  refine h.of_scope_eq hs (by rw [size_update]; exact h.size) fun u hu => ?_
  have hne : ¬ (t = u ∧ u < b.size) := fun heq => Nat.not_lt.2 ht (heq.1 ▸ hu)
  rw [scope_update, if_neg hne]

/-- A log of `a` may be changed if that keeps what it was in `a`: all of it, or for `s` the entries
in front. -/
theorem Retains.update_log (h : Retains s a b) {f : List Entry → List Entry}
    (hother : t < a.size → t ≠ s → f (a.log t) = a.log t)
    (hself : t = s → a.log s <+: f (b.log s)) :
    Retains s a (b.update t fun scope => { scope with log := f scope.log }) := by
  refine ⟨by rw [size_update]; exact h.size, fun u hu hus => ?_, ?_, ?_, ?_⟩
  · have hframe := h.frame u hu hus
    rw [scope_update]
    split
    · next heq =>
      obtain ⟨rfl, -⟩ := heq
      rw [hframe]
      exact congrArg (fun l => { a.scope t with log := l }) (hother hu hus)
    · exact hframe
  · rw [scope_update]
    split <;> exact h.link
  · rw [Arena.log, Arena.log, scope_update]
    split
    · next heq => exact hself heq.1
    · exact h.log
  · rw [scope_update]
    split <;> exact h.staged

/-- Entries may come to the scope of the attempt and to scopes added since. -/
theorem Retains.record (h : Retains s a b) (ht : t = s ∨ a.size ≤ t) (e : Entry) :
    Retains s a (b.record t e) := by
  refine h.update_log (f := fun log => log ++ [e]) (fun hlt hts => ?_) fun _ => ?_
  · rcases ht with ht | ht
    · exact absurd ht hts
    · exact absurd hlt (Nat.not_lt.2 ht)
  · exact h.log.trans (List.prefix_append _ _)

/-- Dropping scopes that were added since. -/
theorem Retains.truncate (h : Retains s a b) (hs : s < a.size) {n : Nat} (hn : a.size ≤ n) :
    Retains s a (b.truncate n) := by
  refine h.of_scope_eq hs ?_ fun t ht => scope_truncate (Nat.lt_of_lt_of_le ht hn)
  rw [size_truncate]
  exact Nat.le_min.2 ⟨hn, h.size⟩

/-- Going back to a snapshot that spares `a`. -/
theorem Retains.restore (h : Retains s a b) (hs : s < a.size) {snapshot : Snapshot}
    (hspares : snapshot.Spares a) : Retains s a (b.restore snapshot) := by
  have hcut : ∀ {c}, Retains s a c → Retains s a (c.update snapshot.scope
      fun scope => { scope with log := scope.log.take snapshot.entries }) := by
    intro c hc
    refine hc.update_log (fun ht _ => List.take_of_length_le (hspares.entries ht)) fun heq => ?_
    exact List.prefix_take_iff.2 ⟨hc.log, heq ▸ hspares.entries (heq ▸ hs)⟩
  unfold Arena.restore
  split
  · exact hcut (h.truncate hs hspares.scopes)
  · exact hcut h

/-- A change that may be undone takes nothing from the scopes that there were. -/
theorem Retains.change (h : Retains s a b) (hs : s < a.size) {taken : List Snapshot}
    (htaken : ∀ snapshot ∈ taken, snapshot.Spares a) {c : Change}
    (hc : c.Undoable s a.size taken) : Retains s a (c.apply b) := by
  cases c with
  | record t e => exact h.record hc e
  | restore snapshot => exact h.restore hs (htaken snapshot hc)
  | openStaging t => exact h.update hs hc _
  | stage t exports => exact h.update hs hc _
  | commit t => exact h.update hs hc _

/-- A snapshot taken of an arena that retains `a` spares `a`. -/
theorem Retains.spares (h : Retains s a b) (t : ScopeId) (kind : Snapshot.Kind) :
    (b.snapshot t kind).Spares a := ⟨h.size, fun ht => h.length_le ht⟩

/-! ## Whole sequences -/

/-- All along an attempt, the scopes it began with are retained and spared by every snapshot. -/
theorem Since.retains {taken : List Snapshot} (h : Since s a b taken) (hs : s < a.size) :
    Retains s a b ∧ ∀ snapshot ∈ taken, snapshot.Spares a := by
  induction h with
  | start => exact ⟨.refl s a, nofun⟩
  | create c _ _ ih => exact ⟨ih.1.create hs c, ih.2⟩
  | change c _ _ hc ih => exact ⟨ih.1.change hs ih.2 hc, ih.2⟩
  | mark t kind _ _ ih => exact ⟨ih.1, List.forall_mem_cons.2 ⟨ih.1.spares t kind, ih.2⟩⟩

/-- Cut to the entries that it had, the scope of the attempt is what it was. -/
theorem Retains.cut_eq (h : Retains s a b) :
    { b.scope s with log := (b.scope s).log.take (a.log s).length } = a.scope s := by
  have hlog : (b.scope s).log.take (a.log s).length = (a.scope s).log :=
    (List.prefix_iff_eq_take.1 h.log).symm
  show (⟨(b.scope s).link, _, (b.scope s).staged⟩ : Scope) = a.scope s
  rw [hlog, h.link, h.staged]

/-- Going back to a snapshot of either kind makes its scope what it was. -/
theorem Retains.restore_scope_self (h : Retains s a b) (hs : s < a.size) (kind : Snapshot.Kind) :
    (b.restore (a.snapshot s kind)).scope s = a.scope s := by
  have hcut : ∀ {c}, Retains s a c → (c.update s
      fun scope => { scope with log := scope.log.take (a.log s).length }).scope s = a.scope s := by
    intro c hc
    rw [scope_update, if_pos ⟨rfl, Nat.lt_of_lt_of_le hs hc.size⟩, hc.cut_eq]
  cases kind with
  | attempt => exact hcut (h.truncate hs (Nat.le_refl _))
  | log => exact hcut h

/-- After any sequence of operations that keeps to an attempt in scope `s`, going back to the
snapshot that was taken of `s` for the attempt gives exactly the arena of that time. Going back to
one that was taken for the log of `s` makes `s` what it was, with exactly the entries of that time,
and changes no other scope. -/
theorem Since.restore_snapshot {taken : List Snapshot} (hs : s < a.size) (h : Since s a b taken) :
    b.restore (a.snapshot s .attempt) = a ∧
    (b.restore (a.snapshot s .log)).size = b.size ∧
    (b.restore (a.snapshot s .log)).scope s = a.scope s ∧
    ∀ t, t ≠ s → (b.restore (a.snapshot s .log)).scope t = b.scope t := by
  obtain ⟨hretains, -⟩ := h.retains hs
  have hsize : (b.restore (a.snapshot s .attempt)).size = a.size := by
    show ((b.truncate a.size).update s _).size = a.size
    rw [size_update, size_truncate, Nat.min_eq_left hretains.size]
  refine ⟨ext_scope hsize fun t ht => ?_, size_update _ _ _, hretains.restore_scope_self hs .log,
    fun t hts => ?_⟩
  · rw [hsize] at ht
    by_cases hts : t = s
    · rw [hts, hretains.restore_scope_self hs .attempt]
    · show ((b.truncate a.size).update s _).scope t = a.scope t
      rw [scope_update, if_neg fun heq => hts heq.1.symm, scope_truncate ht,
        hretains.frame t ht hts]
  · show (b.update s _).scope t = b.scope t
    rw [scope_update, if_neg fun heq => hts heq.1.symm]

/-- An attempt in the root, with a scope inside it and one inside that. Of the two snapshots taken
since, the older is gone back to first, which drops the inner scope, and the newer when a scope of
that number is there again. The root has an entry more by then, and there are three scopes. -/
theorem Since.restore_snapshot_reused :
    let entry : Entry := .binding "x" (.keyword "y")
    let a := Arena.empty.record 0 entry
    let inner := ((a.child 0).2.record 1 entry).child 1 |>.2
    let older := (a.child 0).2.snapshot 1 .attempt
    let newer := (inner.record 0 entry).snapshot 2 .attempt
    let b := (((inner.record 0 entry).restore older).child 0).2.restore newer
    (b.size = 3 ∧ (b.log 0).length = 2) ∧
      b.restore (a.snapshot 0 .attempt) = a ∧
      (b.restore (a.snapshot 0 .log)).scope 0 = a.scope 0 := by
  intro entry a inner older newer b
  have hchild : Since 0 a (a.child 0).2 [older] :=
    (Since.start.create (.child 0) (by decide)).mark 1 .attempt (by decide)
  have hinner : Since 0 a (inner.record 0 entry) [newer, older] :=
    (((hchild.change (.record 1 entry) (by decide) (.inr (by decide))).create (.child 1)
      (by decide)).change (.record 0 entry) (by decide) (.inl rfl)).mark 2 .attempt (by decide)
  have hb : Since 0 a b [newer, older] :=
    ((hinner.change (.restore older) (by decide) (.tail _ (.head _))).create (.child 0)
      (by decide)).change (.restore newer) (by decide) (.head _)
  obtain ⟨hattempt, -, hlog, -⟩ := Since.restore_snapshot (by decide) hb
  exact ⟨⟨by decide, by decide⟩, hattempt, hlog⟩

end

end Arena

end LessSheet
