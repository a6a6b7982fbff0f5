import LessSheet.Proofs.Scope.Mention

/-! # Guards in two phases

By definition the verdict of guards has two phases: the conjunction of all of them, evaluated from
left to right as far as needed, first with `default()` false and then with `default()` true
(`phasesOf`). `verdictOf` goes the other way round, from guard to guard, each for both values, and
stops only where the answer is no for both.

So a guard may be evaluated for a value for which an earlier guard does not hold. If it then has no
value, neither has the verdict, although the phase for that value had ended before. This is the only
difference (`verdictOf_eq_ok_iff_phases`): where there is a verdict, it is that of the phases, and
where there is none, a phase fails or evaluation has stumbled in this way (`Stumbles`). One guard
that is a conjunction has the verdict of the phases of its two sides, so two guards in its place may
have none (`verdictOf_split_stumbles`).
-/

namespace LessSheet

/-- Whether all guards hold when `default()` is `d`. After the first one that does not hold, no more
are evaluated. -/
def allHold (arena : Arena) (d : Bool) : List ScopedGuard → Except EvalError Bool
  | [] => .ok true
  | (guard, scope) :: rest => do
    if ← guard.holds ⟨arena, scope, some d⟩ then allHold arena d rest else pure false

/-- The verdict of guards by its definition: one phase for each value of `default()`. -/
def phasesOf (arena : Arena) (guards : List ScopedGuard) : Except EvalError Verdict := do
  let plain ← allHold arena false guards
  let assumed ← allHold arena true guards
  return .ofOutcomes plain assumed

/-- Some guard has no value for a value of `default()` for which the guards before it do not all
hold, while they all hold for the other. -/
def Stumbles (arena : Arena) (guards : List ScopedGuard) : Prop :=
  ∃ d before guard scope after, guards = before ++ (guard, scope) :: after ∧
    allHold arena d before = .ok false ∧ allHold arena (!d) before = .ok true ∧
    ∃ e, Condition.holds ⟨arena, scope, some d⟩ guard = .error e

section
variable {arena : Arena} {guards rest : List ScopedGuard} {guard : Condition} {scope : ScopeId}
  {b G : Bool → Bool} {v : Verdict}

/-! ## Answers for both values -/

/-- There is a verdict if there is an answer for either value. -/
theorem ok_ofOutcomes_iff {x : Bool → Except EvalError Bool} :
    (do return Verdict.ofOutcomes (← x false) (← x true)) = Except.ok (ε := EvalError) v ↔
      ∃ G : Bool → Bool, (∀ d, x d = .ok (G d)) ∧ v = .ofOutcomes (G false) (G true) := by
  constructor
  · intro h
    obtain ⟨plain, hplain, h⟩ := ok_of_bind h
    obtain ⟨assumed, hassumed, h⟩ := ok_of_bind h
    cases h
    exact ⟨fun d => cond d assumed plain, fun d => by cases d <;> assumption, rfl⟩
  · rintro ⟨G, hG, rfl⟩
    rw [hG, hG]
    rfl

/-- If there is not an answer for either value, there is an error for one of them. -/
theorem answers_or_fails (x : Bool → Except EvalError Bool) :
    (∃ G : Bool → Bool, ∀ d, x d = .ok (G d)) ∨ ∃ d e, x d = .error e := by
  cases hplain : x false with
  | error e => exact .inr ⟨false, e, hplain⟩
  | ok plain =>
    cases hassumed : x true with
    | error e => exact .inr ⟨true, e, hassumed⟩
    | ok assumed =>
      exact .inl ⟨fun d => cond d assumed plain, fun d => by cases d <;> assumption⟩

/-- A candidate is not out if its guard holds for some value of `default()`. -/
theorem ofOutcomes_ne_doNotUse :
    Verdict.ofOutcomes (b false) (b true) ≠ .doNotUse ↔ ∃ d, b d = true := by
  rw [Bool.exists_bool]
  cases b false <;> cases b true <;> decide

/-- Verdicts of two guards combine to the verdict of both, phase by phase. -/
theorem and_ofOutcomes : (Verdict.ofOutcomes (b false) (b true)).and
    (.ofOutcomes (G false) (G true)) = .ofOutcomes (b false && G false) (b true && G true) := by
  rw [Verdict.and, Verdict.outcomes_ofOutcomes, Verdict.outcomes_ofOutcomes]

/-! ## One guard after others -/

/-- Whether all guards hold after others that come to `b`. -/
def allHoldAfter (arena : Arena) (d b : Bool) (guards : List ScopedGuard) :
    Except EvalError Bool :=
  if b then allHold arena d guards else .ok false

/-- A guard with a value joins those before it. -/
theorem allHoldAfter_cons {d here before : Bool}
    (h : guard.holds ⟨arena, scope, some d⟩ = .ok here) :
    allHoldAfter arena d before ((guard, scope) :: rest) =
      allHoldAfter arena d (before && here) rest := by
  cases before with
  | false => rfl
  | true =>
    rw [allHoldAfter, if_pos rfl, allHold, h]
    cases here <;> rfl

/-- `Stumbles` for guards after others that come to `b`. -/
def StumblesAfter (arena : Arena) (b : Bool → Bool) (guards : List ScopedGuard) : Prop :=
  ∃ d before guard scope after, guards = before ++ (guard, scope) :: after ∧
    allHoldAfter arena d (b d) before = .ok false ∧
    allHoldAfter arena (!d) (b !d) before = .ok true ∧
    ∃ e, Condition.holds ⟨arena, scope, some d⟩ guard = .error e

/-- A guard with values for both is passed without stumbling. -/
theorem stumblesAfter_cons (h : ∀ d, guard.holds ⟨arena, scope, some d⟩ = .ok (G d)) :
    StumblesAfter arena b ((guard, scope) :: rest) ↔
      StumblesAfter arena (fun d => b d && G d) rest := by
  constructor
  · rintro ⟨d, before, guard', scope', after, hsplit, hno, hyes, e, he⟩
    cases before with
    | nil =>
      cases hsplit
      rw [h d] at he
      cases he
    | cons first before =>
      cases hsplit
      rw [allHoldAfter_cons (h _)] at hno hyes
      exact ⟨d, before, guard', scope', after, rfl, hno, hyes, e, he⟩
  · rintro ⟨d, before, guard', scope', after, rfl, hno, hyes, e, he⟩
    refine ⟨d, (guard, scope) :: before, guard', scope', after, rfl, ?_, ?_, e, he⟩
    · rwa [allHoldAfter_cons (h d)]
    · rwa [allHoldAfter_cons (h !d)]

/-- Where the answer is no for both values, no guard is stumbled over any more. -/
theorem not_stumblesAfter (h : ∀ d, b d = false) : ¬ StumblesAfter arena b guards := by
  rintro ⟨d, before, _, _, _, _, _, hyes, _⟩
  rw [h, allHoldAfter, if_neg Bool.false_ne_true] at hyes
  cases hyes

/-- A guard without a value for `d` makes the phase of `d` fail, or is stumbled over. -/
theorem fails_of_guard {d : Bool} {e : EvalError} (hb : ∃ d, b d = true)
    (h : guard.holds ⟨arena, scope, some d⟩ = .error e) (rest : List ScopedGuard) :
    allHoldAfter arena d (b d) ((guard, scope) :: rest) = .error e ∨
      StumblesAfter arena b ((guard, scope) :: rest) := by
  cases hd : b d with
  | true =>
    refine .inl ?_
    rw [allHoldAfter, if_pos rfl, allHold, h]
    rfl
  | false =>
    have hother : b (!d) = true := by
      obtain ⟨c, hc⟩ := hb
      have hne : c ≠ d := by
        rintro rfl
        cases hd.symm.trans hc
      rwa [Bool.eq_not.2 hne] at hc
    refine .inr ⟨d, [], guard, scope, rest, rfl, ?_, ?_, e, h⟩
    · rw [hd]
      rfl
    · rw [hother]
      rfl

/-! ## All guards -/

/-- The verdict of guards after others: there is one if both phases have an answer and no guard is
stumbled over, and then it is made of the two answers. -/
theorem verdictFrom_eq_ok_iff (hb : ∃ d, b d = true) :
    verdictFrom arena (.ofOutcomes (b false) (b true)) guards = .ok v ↔
      (∃ G : Bool → Bool, (∀ d, allHoldAfter arena d (b d) guards = .ok (G d)) ∧
        v = .ofOutcomes (G false) (G true)) ∧ ¬ StumblesAfter arena b guards := by
  induction guards generalizing b with
  | nil =>
    have hphase : ∀ d, allHoldAfter arena d (b d) [] = .ok (b d) := fun d => by
      cases h : b d <;> rfl
    constructor
    · intro h
      cases h
      refine ⟨⟨b, hphase, rfl⟩, ?_⟩
      rintro ⟨_, before, _, _, _, hsplit, _⟩
      cases before <;> cases hsplit
    · rintro ⟨⟨G, hG, rfl⟩, -⟩
      obtain rfl : G = b := funext fun d => Except.ok.inj ((hG d).symm.trans (hphase d))
      rfl
  | cons first rest ih =>
    obtain ⟨guard, scope⟩ := first
    rcases answers_or_fails fun d => guard.holds ⟨arena, scope, some d⟩ with ⟨H, hH⟩ | ⟨d, e, he⟩
    · -- a guard with values for both: those before it and this one together
      have hverdict : guard.verdict arena scope = .ok (.ofOutcomes (H false) (H true)) :=
        ok_ofOutcomes_iff.2 ⟨H, hH, rfl⟩
      have hphases : ∀ d, allHoldAfter arena d (b d) ((guard, scope) :: rest) =
          allHoldAfter arena d (b d && H d) rest := fun d => allHoldAfter_cons (hH d)
      rw [verdictFrom_cons hverdict, and_ofOutcomes, stumblesAfter_cons hH]
      simp only [hphases]
      split
      · next hstop =>
        rw [hstop]
        have hno : ∀ d, (b d && H d) = false := fun d => Bool.eq_false_iff.2 fun hd =>
          ofOutcomes_ne_doNotUse (b := fun d => b d && H d).2 ⟨d, hd⟩ hstop
        have hphase : ∀ d, allHoldAfter arena d (b d && H d) rest = .ok false := fun d => by
          rw [hno d]
          rfl
        constructor
        · intro h
          cases h
          exact ⟨⟨fun _ => false, hphase, rfl⟩, not_stumblesAfter hno⟩
        · rintro ⟨⟨G, hG, rfl⟩, -⟩
          obtain rfl : G = fun _ => false :=
            funext fun d => Except.ok.inj ((hG d).symm.trans (hphase d))
          rfl
      · next hgo =>
        have hopen := ofOutcomes_ne_doNotUse (b := fun d => b d && H d).1 hgo
        exact ih (b := fun d => b d && H d) hopen
    · -- a guard without a value for `d`: no verdict, and a phase fails or it is stumbled over
      constructor
      · intro h
        obtain ⟨w, hw, -⟩ := ok_of_bind h
        obtain ⟨H, hH, -⟩ :=
          (ok_ofOutcomes_iff (x := fun d => guard.holds ⟨arena, scope, some d⟩)).1 hw
        cases (hH d).symm.trans he
      · rintro ⟨⟨G, hG, -⟩, hnot⟩
        rcases fails_of_guard hb he rest with hfails | hstumbles
        · cases (hG d).symm.trans hfails
        · exact absurd hstumbles hnot

end

/-- Guards have a verdict exactly if both phases have an answer and no guard is stumbled over, and
then it is the verdict of the phases. A conjunction as one guard has the verdict of the phases of
its two sides, so the two sides as two guards in the same scope have its verdict exactly if neither
is stumbled over. -/
theorem verdictOf_eq_ok_iff_phases (arena : Arena) :
    (∀ guards v, verdictOf arena guards = .ok v ↔
      phasesOf arena guards = .ok v ∧ ¬ Stumbles arena guards) ∧
    ∀ (a b : Condition) scope, (Condition.and a b).verdict arena scope =
        phasesOf arena [(a, scope), (b, scope)] ∧
      ∀ v, verdictOf arena [(a, scope), (b, scope)] = .ok v ↔
        (Condition.and a b).verdict arena scope = .ok v ∧
          ¬ Stumbles arena [(a, scope), (b, scope)] := by
  have hall : ∀ guards v, verdictOf arena guards = .ok v ↔
      phasesOf arena guards = .ok v ∧ ¬ Stumbles arena guards := by
    intro guards v
    refine (verdictFrom_eq_ok_iff (b := fun _ => true) ⟨true, rfl⟩).trans ?_
    exact and_congr_left fun _ => (ok_ofOutcomes_iff (x := fun d => allHold arena d guards)).symm
  have hand : ∀ (a b : Condition) d scope, (Condition.and a b).holds ⟨arena, scope, some d⟩ =
      allHold arena d [(a, scope), (b, scope)] := by
    intro a b d scope
    rw [Condition.holds, allHold]
    congr 1
    funext here
    cases here with
    | false => rfl
    | true =>
      show b.holds _ = b.holds _ >>= _
      cases b.holds ⟨arena, scope, some d⟩ with
      | error e => rfl
      | ok there => cases there <;> rfl
  have hverdict : ∀ (a b : Condition) scope, (Condition.and a b).verdict arena scope =
      phasesOf arena [(a, scope), (b, scope)] := by
    intro a b scope
    rw [Condition.verdict, phasesOf, hand, hand]
  refine ⟨hall, fun a b scope => ⟨hverdict a b scope, fun v => ?_⟩⟩
  rw [hverdict]
  exact hall _ v

/-- A namespace guard that asks for `default()`, and an own guard that asks for it or else for a
variable that is not there. By definition the two hold where `default()` is true, and as one guard
they do so. One after the other they have no verdict, for the variable is asked for where
`default()` is false. -/
theorem verdictOf_split_stumbles :
    let isDefault : Condition := .truthy (.function "default" [])
    let own : Condition := .or isDefault (.truthy (.ref "missing"))
    let guards : List ScopedGuard := [(isDefault, Arena.root), (own, Arena.root)]
    phasesOf Arena.empty guards = .ok .useAsDefault ∧
      (Condition.and isDefault own).verdict Arena.empty Arena.root = .ok .useAsDefault ∧
      verdictOf Arena.empty guards = .error (.undefinedVariable "missing") :=
  ⟨rfl, rfl, rfl⟩

end LessSheet
