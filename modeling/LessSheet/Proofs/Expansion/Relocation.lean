import LessSheet.Compile
import LessSheet.Proofs.Expansion.Likeness

/-! # The place of a definition in its block

A mixin definition may stand anywhere among the statements of its block: moving it past statements
that define nothing callable leaves the flat stylesheet and the problems as they are, or the error
(`Stylesheet.evaluate_eq_of_alike`). This holds for blocks at any depth, also for those that are
carried out elsewhere and later: bodies of mixins, namespaces and rulesets held by variables.

A move by itself is `Body.alike_move`; blocks around it are alike by the constructors of the
relation.
-/

namespace LessSheet

/-- Any text. -/
def Diction.any : Diction := ⟨fun _ => True, fun _ => True⟩

/-- The diction of all texts asks nothing, so nothing leads out of it. -/
theorem Diction.any_lawful : Diction.any.Lawful where
  word _ := trivial
  minus _ := trivial
  truth _ := trivial
  number _ _ _ := trivial
  none := trivial
  glue _ _ _ _ _ := trivial
  call _ _ := trivial
  ruleset := trivial
  fill _ _ _ := ⟨trivial, trivial⟩

/-! ## Moves -/

section
variable (site : Site) (m : Mixin) (before after : List Item) {between : List Item}

/-- Bodies that are alike stay so behind the same items. -/
theorem Body.alike_append {L : Leaf → Prop} {xs ys : List Item} (h : Body.Alike L xs ys)
    (before : List Item) (hleaves : ∀ l ∈ Item.leavesOf before, L l) :
    Body.Alike L (before ++ xs) (before ++ ys) := by
  induction before with
  | nil => exact h
  | cons x before ih =>
    obtain ⟨hx, hbefore⟩ := List.forall_mem_append.1 hleaves
    exact .cons (Item.alike_self x hx) (ih hbefore)

/-- A definition moved past statements that define nothing callable, towards the end of its block or
towards the beginning. -/
theorem Body.alike_move (hquiet : ∀ x ∈ between, x.isQuiet) :
    Body.Alike (fun _ => True) (before ++ .mixin site m :: (between ++ after))
        (before ++ (between ++ .mixin site m :: after)) ∧
      Body.Alike (fun _ => True) (before ++ (between ++ .mixin site m :: after))
        (before ++ .mixin site m :: (between ++ after)) := by
  have hself (xs : List Item) : Body.Alike (fun _ => True) xs xs :=
    Body.alike_self xs fun _ _ => trivial
  exact ⟨Body.alike_append (.later site m hquiet (hself _)) before fun _ _ => trivial,
    Body.alike_append (.earlier site m hquiet (hself _)) before fun _ _ => trivial⟩

end

/-! ## Evaluation -/

/-- Stylesheets whose blocks are alike expand to the same nodes and note the same problems. -/
theorem Stylesheet.expand_alike {D : Diction} (hD : D.Lawful) (sheet sheet' : Stylesheet)
    (h : Body.Alike D.leaf sheet.body sheet'.body) (limit : Nat) :
    Outcome.Alike (NodesAlike D) (sheet.expand limit).1 (sheet'.expand limit).1 ∧
      (sheet'.expand limit).2.problems = (sheet.expand limit).2.problems := by
  have hrun := expandBlock_alike hD (expandBody_alike hD limit limit) h Arena.root _ _
    (Progress.alike_start D)
  exact ⟨hrun.1, hrun.2.problems⟩

/-- Moving mixin definitions past statements that define nothing callable, in blocks at any depth,
does not change what a stylesheet evaluates to. -/
theorem Stylesheet.evaluate_eq_of_alike (sheet : Stylesheet) {body : List Item}
    (h : Body.Alike (fun _ => True) sheet.body body) (limit : Nat) :
    Stylesheet.evaluate { sheet with body := body } limit = sheet.evaluate limit := by
  obtain ⟨hnodes, hproblems⟩ := Stylesheet.expand_alike Diction.any_lawful sheet
    { sheet with body := body } h limit
  rw [Stylesheet.evaluate, Stylesheet.evaluate]
  generalize sheet.expand limit = x at hnodes hproblems ⊢
  generalize Stylesheet.expand { sheet with body := body } limit = y at hnodes hproblems ⊢
  obtain ⟨result, p⟩ := x
  obtain ⟨result', q⟩ := y
  cases hnodes with
  | error e => rfl
  | ok hnodes =>
    obtain ⟨rfl, -⟩ := hnodes
    have hproblems : q.problems = p.problems := hproblems
    simp only [hproblems]

namespace Relocation

/-- `.m(@c) {color: @c}` -/
def definition : Item :=
  .mixin ⟨0, 30⟩ ⟨".m", [.named "c" none], none, [.declaration ⟨"color", .ref "c", false, {}⟩]⟩

/-- `.m(red)` -/
def call : Item := .call ⟨[".m"], [⟨none, .keyword "red"⟩], false, {}⟩

/-- A block inside an at-rule. -/
def around (block : List Item) : Stylesheet :=
  ⟨[], [.atRule "media" "print" [.rule ⟨[".a"], none, block⟩]]⟩

end Relocation

open Relocation in
/-- A call and the definition it is about change places inside a media query, and the sheet is the
same. -/
theorem Stylesheet.evaluate_eq_of_alike_inside :
    Body.Alike (fun _ => True) (around [call, definition]).body (around [definition, call]).body ∧
      (around [definition, call]).evaluate 8 = (around [call, definition]).evaluate 8 ∧
      (around [call, definition]).evaluate 8 = .ok (⟨[], [.atRule "media" "print" []
        [.rule [".a"] [⟨"color", "red", false, {}⟩] {}] {}]⟩, []) := by
  have hquiet : ∀ x ∈ [call], x.isQuiet := List.forall_mem_singleton.2 rfl
  have hmove : Body.Alike (fun _ => True) [call, definition] [definition, call] :=
    (Body.alike_move _ _ [] [] hquiet).2
  have h : Body.Alike (fun _ => True) (around [call, definition]).body
      (around [definition, call]).body :=
    .cons (.atRule _ _ (.cons (.rule _ .none hmove) .nil)) .nil
  exact ⟨h, Stylesheet.evaluate_eq_of_alike _ h 8, rfl⟩

end LessSheet
