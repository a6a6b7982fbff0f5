import LessSheet.Candidate
import LessSheet.Proofs.Scope.Mention
import LessSheet.Proofs.Script.Steps

/-! # Which candidates a call settles on

Whether `default()` is true for a call depends on all its candidates, so the guards of one candidate
are evaluated for both values and the choice is made at the end. The result is as if the value had
been known from the start (`choose_tryAll`): it is true exactly when no candidate matches either
way, and the candidates chosen are those whose guards hold for it.

`conjunction` says what guards come to for one value of `default()`, all of them evaluated. Their
verdict is the two conjunctions (`verdictOf_eq_ok`), although evaluation stops once nothing can
match.
-/

namespace LessSheet

open Script

/-! ## Guards for one value of `default()` -/

/-- Whether all guards hold when `default()` is `d`. Every guard is evaluated. -/
def conjunction (arena : Arena) (d : Bool) : List ScopedGuard → Except EvalError Bool
  | [] => .ok true
  | (guard, scope) :: rest => do
    let here ← guard.holds ⟨arena, scope, some d⟩
    let others ← conjunction arena d rest
    return here && others

/-- A verdict is known by its two answers. -/
theorem Verdict.ext_outcomes {v w : Verdict} (h : v.outcomes = w.outcomes) : v = w := by
  rw [← Verdict.ofOutcomes_outcomes v, h, Verdict.ofOutcomes_outcomes]

/-- The verdict of guards after others is the conjunction of all, for either value. Where evaluation
stops, both answers are no already. -/
theorem verdictFrom_eq_ok {arena : Arena} {guards : List ScopedGuard} {plain assumed : Bool}
    (hplain : conjunction arena false guards = .ok plain)
    (hassumed : conjunction arena true guards = .ok assumed) (v : Verdict) :
    verdictFrom arena v guards = .ok (v.and (.ofOutcomes plain assumed)) := by
  induction guards generalizing v plain assumed with
  | nil =>
    cases hplain
    cases hassumed
    refine congrArg Except.ok (Verdict.ext_outcomes ?_)
    simp
  | cons guard rest ih =>
    obtain ⟨condition, scope⟩ := guard
    obtain ⟨here₀, hhere₀, hplain⟩ := ok_of_bind hplain
    obtain ⟨others₀, hothers₀, hplain⟩ := ok_of_bind hplain
    obtain ⟨here₁, hhere₁, hassumed⟩ := ok_of_bind hassumed
    obtain ⟨others₁, hothers₁, hassumed⟩ := ok_of_bind hassumed
    cases hplain
    cases hassumed
    have hverdict : condition.verdict arena scope = .ok (.ofOutcomes here₀ here₁) := by
      rw [Condition.verdict, hhere₀, hhere₁]
      rfl
    rw [verdictFrom_cons hverdict]
    split
    · next hstop =>
      have hout := congrArg Verdict.outcomes hstop
      rw [Verdict.outcomes_and, Verdict.outcomes_ofOutcomes] at hout
      obtain ⟨hout₀, hout₁⟩ := Prod.mk.inj hout
      refine congrArg Except.ok (Verdict.ext_outcomes ?_)
      simp only [Verdict.outcomes_and, Verdict.outcomes_ofOutcomes, ← Bool.and_assoc, hout₀,
        hout₁, Bool.false_and]
    · rw [ih hothers₀ hothers₁]
      refine congrArg Except.ok (Verdict.ext_outcomes ?_)
      simp only [Verdict.outcomes_and, Verdict.outcomes_ofOutcomes, Bool.and_assoc]

/-- The verdict of guards is what they come to for the two values. -/
theorem verdictOf_eq_ok {arena : Arena} {guards : List ScopedGuard} {G : Bool → Bool}
    (h : ∀ d, conjunction arena d guards = .ok (G d)) :
    verdictOf arena guards = .ok (.ofOutcomes (G false) (G true)) := by
  rw [verdictOf, verdictFrom_eq_ok (h false) (h true)]
  refine congrArg Except.ok (Verdict.ext_outcomes ?_)
  rw [Verdict.outcomes_and, Verdict.outcomes_ofOutcomes]
  rfl

/-! ## Trials -/

/-- A candidate tried from `p` binds its arguments, and its guards, evaluated then, come to `G d`
when `default()` is `d`. -/
def Candidate.Answers (c : Candidate) (call : String) (args : List Actual) (caller : ScopeId)
    (p : Progress) (G : Bool → Bool) : Prop :=
  ∃ scope q working b,
    (c.registration.mixin.bind c.registration.closure call args).run p = (.ok (.bound scope), q) ∧
    q.arena.join caller scope = (working, b) ∧
    ∀ d, conjunction b d (c.guards working) = .ok (G d)

/-- Candidates tried one after the other from `p`, with what the guards of each come to. -/
inductive AllAnswer (call : String) (args : List Actual) (caller : ScopeId) :
    Progress → List (Candidate × (Bool → Bool)) → Prop where
  | nil (p : Progress) : AllAnswer call args caller p []
  | cons {p : Progress} {c : Candidate} {G : Bool → Bool}
    {rest : List (Candidate × (Bool → Bool))} : c.Answers call args caller p G →
    AllAnswer call args caller ((c.trial call args caller).run p).2 rest →
    AllAnswer call args caller p ((c, G) :: rest)

section
variable {call : String} {args : List Actual} {caller : ScopeId} {p : Progress}

/-- What comes of a trial: the verdict and the candidate itself, unless the verdict is no. -/
def Candidate.outcome (x : Candidate × (Bool → Bool)) : Verdict × Candidate :=
  (.ofOutcomes (x.2 false) (x.2 true), x.1)

/-- An attempt at a candidate that answers comes to the verdict of its two outcomes, in a working
scope. -/
theorem Candidate.attempt_answers {c : Candidate} {G : Bool → Bool}
    (h : c.Answers call args caller p G) :
    ∃ working q, (c.attempt call args caller).run p =
      (.ok (c.judge working (.ok (.ofOutcomes (G false) (G true)))), q) := by
  obtain ⟨scope, q, working, b, hbind, hjoin, hguards⟩ := h
  have hcreate : (Scoped.create (.join caller scope)).run q =
      (.ok working, { q with arena := b }) := by
    rw [Scoped.create, run_create, Creation.apply, hjoin]
    rfl
  refine ⟨working, { q with arena := b }, ?_⟩
  rw [Candidate.attempt, run_bind_ok hbind]
  dsimp only
  rw [run_bind_ok hcreate, ← verdictOf_eq_ok hguards]
  rfl

/-- A trial is accepted with its verdict, unless that is no, and there is no problem. -/
theorem Candidate.trial_answers {c : Candidate} {G : Bool → Bool}
    (h : c.Answers call args caller p G) :
    ∃ t q, (c.trial call args caller).run p = (.ok t, q) ∧ t.problem = none ∧
      (t.accepted.map fun x => (x.1, Selected.mk c x.2)).toList.map
          (fun x => (x.1, x.2.candidate)) =
        [Candidate.outcome (c, G)].filter fun x => x.1 ≠ .doNotUse := by
  obtain ⟨working, q, hattempt⟩ := c.attempt_answers h
  have htrial : (c.trial call args caller).run p =
      ((c.judge working (.ok (.ofOutcomes (G false) (G true)))).settle
        (p.arena.snapshot caller .attempt)).run q := by
    rw [Candidate.trial, run_bind_ok (show (Scoped.mark caller .attempt).run p = _ from rfl),
      run_bind_ok hattempt]
  rw [htrial]
  cases hverdict : Verdict.ofOutcomes (G false) (G true) with
  | doNotUse => exact ⟨⟨none, none⟩, _, rfl, rfl, by simp [Candidate.outcome, hverdict]⟩
  | use | useAsDefault | useUnlessDefault =>
    exact ⟨_, _, rfl, rfl, by simp [Candidate.judge, Candidate.outcome, hverdict]⟩

/-- The trials of candidates that answer are accepted in order, all but those whose verdict is
no. -/
theorem tryAll_answers {tried : List (Candidate × (Bool → Bool))}
    (h : AllAnswer call args caller p tried) :
    ∃ trials q, (tryAll call args caller (tried.map Prod.fst)).run p = (.ok trials, q) ∧
      trials.problems = [] ∧
      trials.accepted.map (fun x => (x.1, x.2.candidate)) =
        (tried.map Candidate.outcome).filter fun x => x.1 ≠ .doNotUse := by
  induction h with
  | nil p => exact ⟨⟨[], []⟩, p, rfl, rfl, rfl⟩
  | @cons p c G rest hc _ ih =>
    obtain ⟨t, q, htrial, hproblem, haccepted⟩ := c.trial_answers hc
    rw [htrial] at ih
    obtain ⟨ts, r, hrest, hproblems, hothers⟩ := ih
    refine ⟨⟨(t.accepted.map fun x => (x.1, Selected.mk c x.2)).toList ++ ts.accepted,
      t.problem.toList ++ ts.problems⟩, r, ?_, ?_, ?_⟩
    · rw [List.map_cons, tryAll, run_bind_ok htrial, run_bind_ok hrest]
      rfl
    · rw [hproblem, hproblems]
      rfl
    · rw [List.map_append, haccepted, hothers, List.map_cons, ← List.filter_append]
      rfl

end

/-! ## The choice -/

section
variable {α β : Type}

/-- The choice depends on the verdicts alone. -/
theorem map_choose (f : α → β) (candidates : List (Verdict × α)) :
    (choose candidates).map f = choose (candidates.map fun x => (x.1, f x.2)) := by
  simp only [choose, List.any_map, List.filter_map, List.map_map]
  rfl

/-- Candidates whose verdict is no make no difference. -/
theorem choose_filter (candidates : List (Verdict × α)) :
    choose (candidates.filter fun x => x.1 ≠ .doNotUse) = choose candidates := by
  have hany : (candidates.filter fun x => x.1 ≠ .doNotUse).any (fun x => x.1 == .use) =
      candidates.any fun x => x.1 == .use := by
    rw [List.any_filter]
    congr 1
    funext x
    cases x.1 <;> rfl
  simp only [choose, hany, List.filter_filter]
  congr 2
  funext x
  cases x.1 <;> simp [Verdict.isKept]

/-- A candidate is kept if its guards hold for the value that `default()` then has. -/
theorem isKept_ofOutcomes (matched : Bool) (G : Bool → Bool) :
    (Verdict.ofOutcomes (G false) (G true)).isKept matched = G !matched := by
  cases hplain : G false <;> cases hassumed : G true <;> cases matched <;>
    simp [Verdict.ofOutcomes, Verdict.isKept, hplain, hassumed]

/-- A candidate is used whatever `default()` is if both outcomes are yes. -/
theorem ofOutcomes_eq_use (plain assumed : Bool) :
    (Verdict.ofOutcomes plain assumed == .use) = (plain && assumed) := by
  cases plain <;> cases assumed <;> rfl

end

/-- If the candidates of a call bind their arguments and their guards have values, whatever
`default()` is, then the trials come to an end without a problem, and the candidates chosen after
them are those whose guards hold, in order and each once, when `default()` is true exactly if no
candidate's guards hold either way. -/
theorem choose_tryAll (call : String) (args : List Actual) (caller : ScopeId) (p : Progress)
    (tried : List (Candidate × (Bool → Bool))) (h : AllAnswer call args caller p tried) :
    let default := !tried.any fun x => x.2 false && x.2 true
    ∃ trials q, (tryAll call args caller (tried.map Prod.fst)).run p = (.ok trials, q) ∧
      trials.problems = [] ∧
      (choose trials.accepted).map Selected.candidate =
        (tried.filter fun x => x.2 default).map Prod.fst := by
  obtain ⟨trials, q, hrun, hproblems, haccepted⟩ := tryAll_answers h
  refine ⟨trials, q, hrun, hproblems, ?_⟩
  have hmatched : (tried.map Candidate.outcome).any (fun x => x.1 == .use) =
      tried.any fun x => x.2 false && x.2 true := by
    rw [List.any_map]
    congr 1
    funext x
    exact ofOutcomes_eq_use _ _
  rw [map_choose, haccepted, choose_filter, choose, hmatched, List.filter_map, List.map_map]
  refine congrArg (List.map Prod.fst) (congrArg (List.filter · tried) (funext fun x => ?_))
  exact isKept_ofOutcomes _ _

/-- Three definitions: one for want of others, one beside others, and one without a guard. The last
makes `default()` false, so the second goes with it. -/
theorem choose_tryAll_default :
    let isDefault : Condition := .truthy (.function "default" [])
    let candidate (n : Nat) (guard : Option Condition) : Candidate :=
      ⟨⟨.written ⟨0, n⟩, ⟨".m", [], guard, []⟩, Arena.root⟩, []⟩
    let tried : List (Candidate × (Bool → Bool)) := [
      (candidate 1 (some isDefault), fun d => d),
      (candidate 2 (some (.not isDefault)), fun d => !d),
      (candidate 3 none, fun _ => true)]
    AllAnswer ".m" [] Arena.root Progress.start tried ∧
    ∃ trials q, (tryAll ".m" [] Arena.root (tried.map Prod.fst)).run Progress.start =
        (.ok trials, q) ∧
      (choose trials.accepted).map Selected.candidate =
        [candidate 2 (some (.not isDefault)), candidate 3 none] := by
  intro isDefault candidate tried
  -- these guards come to the same in every state
  have hanswers : ∀ n guard G, (∀ b w d, conjunction b d ((candidate n guard).guards w) =
      .ok (G d)) → ∀ p, (candidate n guard).Answers ".m" [] Arena.root p G :=
    fun n guard G hG p => ⟨_, _, _, _, rfl, rfl, hG _ _⟩
  have h₁ := hanswers 1 (some isDefault) (fun d => d) fun b w d => by cases d <;> rfl
  have h₂ := hanswers 2 (some (.not isDefault)) (fun d => !d) fun b w d => by cases d <;> rfl
  have h₃ := hanswers 3 none (fun _ => true) fun _ _ _ => rfl
  have h : AllAnswer ".m" [] Arena.root Progress.start tried :=
    .cons (h₁ _) (.cons (h₂ _) (.cons (h₃ _) (.nil _)))
  obtain ⟨trials, q, hrun, -, hchosen⟩ := choose_tryAll ".m" [] Arena.root Progress.start tried h
  exact ⟨h, trials, q, hrun, hchosen⟩

end LessSheet
