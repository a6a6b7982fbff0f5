import LessSheet.Proofs.Expansion.Contract

/-! # What an expansion does to the scopes

Carrying out a block adds scopes, and adds entries to the scope of the block. That is all it does to
the scopes that were there, however the block ends and whatever it calls (`expandBlock_frame`):
calls work in scopes of their own, attempts that come to nothing are undone, and exports come into
force in the scope of the call.

Undoing an attempt drops scopes, and their numbers are given out again. No number is kept past that:
wherever the expansion of a stylesheet gets, every number in the arena and every number that the
rest of the expansion holds is that of a scope (`Stylesheet.script_inRange`).
-/

namespace LessSheet

open Script

/-- The root scope alone is well-formed. -/
theorem Arena.WellFormed.empty : Arena.empty.WellFormed := by
  have hscope : ∀ s, Arena.empty.scope s = ⟨.root, [], none⟩ := by
    intro s
    cases s <;> rfl
  refine ⟨⟨fun s t ht => ?_, fun t ⟨s, ht⟩ => ?_⟩, fun s => ?_⟩
  · rw [hscope] at ht
    cases ht
  · rw [hscope] at ht
    cases ht
  · rw [hscope]

/-- A well-formed arena with one scope more is well-formed. -/
theorem Arena.WellFormed.push {a : Arena} (h : a.WellFormed) {link : Link}
    (hl : ∀ t ∈ link.targets, t < a.size) : (a.push link).2.WellFormed := by
  refine ⟨h.toClosed.push hl, fun s => ?_⟩
  rw [scope_push]
  split
  · rfl
  · exact h.settled s

/-- A well-formed arena with one entry more is well-formed, if the entry mentions scopes that
exist. -/
theorem Arena.WellFormed.record {a : Arena} (h : a.WellFormed) {s : ScopeId} {e : Entry}
    (he : ∀ t ∈ scopesIn e, t < a.size) : (a.record s e).WellFormed := by
  refine ⟨h.toClosed.record he, fun t => ?_⟩
  rw [Arena.record, scope_update]
  split
  · exact h.settled t
  · exact h.settled t

/-- A block carried out in a scope leaves every other scope that was there exactly as it was. The
entries that its own scope had stay as they were, in front of those it adds. The depth is what it
was, and going back to the log of a scope never takes anything away. All of this holds whether the
block ends with nodes or with an error. -/
theorem expandBlock_frame (limit left : Nat) (body : List Item) (s : ScopeId) (p q : Progress)
    (r : Except Error (List Css.Node)) (hp : p.arena.WellFormed) (hs : s < p.arena.size)
    (hrun : (expandBlock (expandBody limit left) body s).run p = (r, q)) :
    (∀ t < p.arena.size, t ≠ s → t < q.arena.size ∧ q.arena.scope t = p.arena.scope t) ∧
    (s < q.arena.size ∧ p.arena.log s <+: q.arena.log s) ∧
    q.depth = p.depth ∧
    ∀ snapshot next m, snapshot.kind = .log →
      Reaches (expandBlock (expandBody limit left) body s) p (.change (.restore snapshot) next) m →
      m.arena.restore snapshot = m.arena := by
  have hworks : Works s [s] (expandBlock (expandBody limit left) body s) :=
    expandBlock_works (expandBody_works limit left) body (.head _)
  have hgood := hworks.good p (hp.ready s) fun t ht => List.mem_singleton.1 ht ▸ hs
  have hgrows : Arena.Grows s p.arena q.arena := by
    have := hgood.grows
    rwa [hrun] at this
  have hdepth : q.depth = p.depth := by
    have := hgood.depth
    rwa [hrun] at this
  refine ⟨fun t ht hts => ⟨Nat.lt_of_lt_of_le ht hgrows.size, hgrows.frame t ht hts⟩,
    ⟨Nat.lt_of_lt_of_le hs hgrows.size, hgrows.log hs⟩, hdepth, fun snapshot next m hkind hm => ?_⟩
  exact (hgood.safe _ m hm).legal.2 hkind

/-- A ruleset of the root scope that defines a variable, called in a scope inside the root: the root
does not get the variable. -/
theorem expandBlock_frame_detached :
    let ruleset : Value := .ruleset ⟨0, 1⟩ [.assign "b" (.keyword "x")] Arena.root
    let a := ((Arena.empty.define Arena.root "a" ruleset).child Arena.root).2
    ((expandBlock (expandBody 1 1) [.detachedCall "a" {}] 1).run ⟨a, [], 0⟩).2.arena.scope
      Arena.root = a.scope Arena.root := by
  intro ruleset a
  have hroot : ∀ t ∈ [Arena.root], t < 1 := fun t ht => List.mem_singleton.1 ht ▸ Nat.zero_lt_one
  have hdefine : (Arena.empty.define Arena.root "a" ruleset).WellFormed :=
    Arena.WellFormed.empty.record hroot
  have ha : a.WellFormed := hdefine.push hroot
  have h := expandBlock_frame 1 1 [.detachedCall "a" {}] 1 ⟨a, [], 0⟩ _ _ ha (by decide)
    (Prod.eta _).symm
  exact (h.1 Arena.root (by decide) (by decide)).2

/-- The expansion of a stylesheet is safe from the start. -/
theorem Stylesheet.script_safe (sheet : Stylesheet) (limit : Nat) :
    Safe 1 (sheet.script limit) Progress.start := by
  have hworks : Works Arena.root [Arena.root] (sheet.script limit) :=
    expandBlock_works (expandBody_works limit limit) sheet.body (.head _)
  refine (hworks.good Progress.start (Arena.WellFormed.empty.ready _) fun t ht => ?_).safe
  rw [List.mem_singleton.1 ht]
  exact Nat.zero_lt_one

/-- Wherever the expansion of a stylesheet gets, with `y` still to be done: the numbers that occur
in the arena, in links, entries and staged entries, are those of scopes, and so are the numbers that
`y` holds. The next operation reads nothing beyond the arena: what it reads is the same whatever
other scopes come after those that are there. A snapshot that is gone back to is of a scope that is
still there afterwards, and staging is not started where something is staged. -/
theorem Stylesheet.script_inRange (sheet : Stylesheet) (limit : Nat)
    {y : Expand (List Css.Node)} {p : Progress}
    (h : Reaches (sheet.script limit) Progress.start y p) :
    (∀ t, p.arena.Mentions t → t < p.arena.size) ∧
    (∀ t, Holds t y → t < p.arena.size) ∧
    (∀ scopes next, y = .look scopes next →
      ∀ b, p.arena.Extends b → next b = next p.arena) ∧
    (∀ caller callee next, y = .create (.join caller callee) next →
      ∀ b, p.arena.Extends b → b.reaches callee caller = p.arena.reaches callee caller) ∧
    (∀ snapshot next, y = .change (.restore snapshot) next →
      snapshot.scope < (p.arena.restore snapshot).size) ∧
    (∀ s next, y = .change (.openStaging s) next → (p.arena.scope s).staged = none) := by
  have ho := sheet.script_safe limit y p h
  refine ⟨ho.closed.stored, ho.held, ?_, ?_, ?_, ?_⟩
  · rintro scopes next rfl
    exact ho.legal
  · rintro caller callee next rfl
    exact ho.legal
  · rintro snapshot next rfl
    exact ho.legal.1
  · rintro s next rfl
    exact ho.legal

/-- Two definitions of one name, of which the call accepts the second: what the first attempt added
is dropped again, and nothing that is left at the end leads there. -/
theorem Stylesheet.script_inRange_rejected :
    let sheet : Stylesheet := ⟨[], [
      .mixin ⟨0, 1⟩ ⟨".m", [], some (.truthy (.keyword "no")), []⟩,
      .mixin ⟨0, 2⟩ ⟨".m", [], none, [.assign "a" (.ruleset ⟨0, 3⟩ [])]⟩,
      .call ⟨[".m"], [], false, {}⟩]⟩
    let p := (sheet.expand 1).2
    ∀ t, p.arena.Mentions t → t < p.arena.size := by
  intro sheet
  exact (sheet.script_inRange 1 (reaches_done (sheet.script 1) Progress.start)).1

end LessSheet
