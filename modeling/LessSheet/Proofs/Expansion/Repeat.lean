import LessSheet.Proofs.Expansion.Frame
import LessSheet.Proofs.Expansion.Mirror

/-! # Expanding a rule again

A rule that is expanded twice in a row gives the same result twice (`Item.expand_rule_again`). The
first expansion leaves the scopes that were there as they were, so the second finds the same arena
with other scopes after it. It adds its own scopes after those, under other numbers, and otherwise
does what the first did.
-/

namespace LessSheet

open Script

/-- A rule works in scopes of its own: it leaves all scopes that were there. -/
theorem Item.expand_rule_extends (limit left : Nat) (rule : Rule) {s : ScopeId} {p : Progress}
    (hp : p.arena.Closed) (hs : s < p.arena.size) :
    let q := ((Item.rule rule).expand (expandBody limit left) s |>.run p).2
    p.arena.Extends q.arena ∧ q.depth = p.depth := by
  obtain ⟨selectors, guard, body⟩ := rule
  have hworks : Works p.arena.size [s]
      ((Item.rule ⟨selectors, guard, body⟩).expand (expandBody limit left) s) :=
    expandRule_works selectors guard (.head _) fun u =>
      expandBlock_works (expandBody_works limit left) body (.head _)
  have hgood := hworks.good p (hp.ready (Nat.le_refl _)) fun t ht => List.mem_singleton.1 ht ▸ hs
  exact ⟨⟨hgood.grows.size, fun t ht => hgood.grows.scope_eq (Nat.le_refl _) ht⟩, hgood.depth⟩

/-- Wherever the expansion of a stylesheet has got, expanding a rule in any scope and then expanding
it again comes to the same twice: the same nodes or the same error. The problems that are noted are
the same too, in the same order. -/
theorem Item.expand_rule_again (sheet : Stylesheet) (limit : Nat) {y : Expand (List Css.Node)}
    {p : Progress} (h : Reaches (sheet.script limit) Progress.start y p) {s : ScopeId}
    (hs : s < p.arena.size) (rule : Rule) :
    let x := (Item.rule rule).expand (expandBody limit limit) s
    let first := x.run p
    let second := x.run first.2
    second.1 = first.1 ∧ ∃ problems, first.2.problems = p.problems ++ problems ∧
      second.2.problems = first.2.problems ++ problems := by
  intro x first second
  have hclosed : p.arena.Closed := (sheet.script_safe limit y p h).closed
  obtain ⟨hextends, hdepth⟩ := Item.expand_rule_extends limit limit rule hclosed hs
  have hshift := hextends.shifted hclosed
  have hmirrors := Item.expand_mirrors (expandBody_mirrors _ _ limit limit) s (.rule rule)
    (n := p.arena.size) (k := first.2.arena.size - p.arena.size)
  rw [shift_of_lt hs] at hmirrors
  obtain ⟨hresult, problems, hfirst, hsecond⟩ := hmirrors.run ⟨hshift, hdepth⟩
  refine ⟨?_, problems, hfirst, hsecond⟩
  have hplain : rename (shift p.arena.size (first.2.arena.size - p.arena.size)) first.1 =
      first.1 := by
    cases first.1 with
    | ok nodes => exact congrArg Except.ok (rename_nodes nodes)
    | error e => rfl
  exact hresult.trans hplain

/-- A rule that calls a mixin, expanded twice after the stylesheet that defines the mixin. -/
theorem Item.expand_rule_again_call :
    let sheet : Stylesheet := ⟨[], [
      .mixin ⟨0, 1⟩ ⟨".m", [], none, [.declaration ⟨"color", .keyword "red", false, {}⟩]⟩]⟩
    let p := (sheet.expand 1).2
    let x := (Item.rule ⟨["p"], none, [.call ⟨[".m"], [], false, {}⟩]⟩).expand (expandBody 1 1)
      Arena.root
    (x.run (x.run p).2).1 = (x.run p).1 := by
  intro sheet p x
  have hroot : Arena.root < p.arena.size := (sheet.script_safe 1).floor
  exact (Item.expand_rule_again sheet 1 (reaches_done (sheet.script 1) Progress.start) hroot _).1

end LessSheet
