import LessSheet.Proofs.Expansion.Bodies

/-! # Trials leave no trace

A candidate is tried by binding its parameters and evaluating its guards. That adds scopes and puts
entries in them, and it does nothing else, whatever the state is (`Candidate.attempt_confined`). So
going back to the snapshot taken before a candidate that is out gives exactly the state before it
(`Candidate.trial_of_rejected`). The candidates after it find what they would have found without it:
it might as well not have been in the list, but for the problem that it is noted with
(`tryAll_append_run`).

A call whose candidates are all out has no body to expand, but it still stages exports and brings
them into force. That changes nothing only where nothing is staged for the caller yet, and so it is
wherever a stylesheet comes to a call (`Call.Due.staged`). All of it is put together in
`tryAll_without_rejected`.
-/

namespace LessSheet

open Script

/-! ## Scripts that work in one scope -/

/-- Whatever the state, the script does its work in scope `s`, and nothing but the arena changes. -/
def Script.Confined {ε α : Type} (s : ScopeId) (x : Script ε α) : Prop :=
  ∀ p, ∃ b, (x.run p).2 = { p with arena := b } ∧ Arena.Grows s p.arena b

section
variable {ε α β : Type} {s : ScopeId} {x : Script ε α}

/-- A script that is over leaves the arena as it is. -/
theorem Script.Confined.done (r : Except ε α) : Confined s (done r) := fun p =>
  ⟨p.arena, rfl, .refl s _⟩

/-- Two scripts that work in one scope, one after the other. -/
theorem Script.Confined.bind {f : α → Script ε β} (hx : Confined s x)
    (hf : ∀ a, Confined s (f a)) : Confined s (x >>= f) := by
  intro p
  obtain ⟨b, hb, hgrows⟩ := hx p
  rw [bind_eq, run_andThen, hb]
  cases (x.run p).1 with
  | error e => exact ⟨b, rfl, hgrows⟩
  | ok a =>
    obtain ⟨c, hc, hmore⟩ := hf a { p with arena := b }
    exact ⟨c, hc, hgrows.trans hmore⟩

/-- A scope is added and the work is done in it, so it is done in no scope that was there. -/
theorem Scoped.confined_child (parent : ScopeId) {f : ScopeId → Scoped α}
    (hf : ∀ u, Confined u (f u)) : Confined s (Scoped.create (.child parent) >>= f) := by
  intro p
  obtain ⟨b, hb, hgrows⟩ := hf p.arena.size { p with arena := (p.arena.child parent).2 }
  exact ⟨b, hb, ((Arena.Grows.push _ _ _).trans hgrows).of_fresh (Nat.le_refl _)⟩

/-- Reading is work in any scope. -/
theorem Scoped.confined_observe (scopes : List ScopeId) (f : Arena → Except EvalError α) :
    Confined s (Scoped.observe scopes f) := fun p => ⟨p.arena, rfl, .refl s _⟩

/-- A variable is bound in the scope that it is bound in. -/
theorem Scoped.confined_define (s : ScopeId) (name : String) (v : Value) :
    Confined s (Scoped.define s name v) := fun p => ⟨_, rfl, .record s p.arena _⟩

/-- Joining two scopes changes none that was there. -/
theorem Scoped.confined_join (caller callee : ScopeId) :
    Confined s (Scoped.create (.join caller callee)) := by
  intro p
  refine ⟨(p.arena.join caller callee).2, rfl, ?_⟩
  rw [Arena.join]
  split
  · exact .refl s _
  · exact .push s _ _

/-! ## Attempts -/

/-- A parameter is bound in its scope, be it to an argument, to its default or to what is left. -/
theorem bindSlot_confined (rest : List Value) (slot : Slot) :
    Confined s (bindSlot s rest slot) := by
  unfold bindSlot
  split
  · exact (Scoped.confined_define s _ _).bind fun _ => .done _
  · refine (Scoped.confined_observe _ _).bind fun v => ?_
    exact (Scoped.confined_define s _ v).bind fun _ => .done _
  · exact .done _
  · exact .done _
  · exact (Scoped.confined_define s _ _).bind fun _ => .done _
  · exact .done _

/-- All parameters are bound in one scope. -/
theorem bindSlots_confined (rest : List Value) (slots : List Slot) :
    Confined s (bindSlots s rest slots) := by
  induction slots with
  | nil => exact .done _
  | cons slot slots ih =>
    exact (bindSlot_confined rest slot).bind fun _ => ih.bind fun _ => .done _

/-- Binding adds a scope below the closure and works in that one. -/
theorem Mixin.bind_confined (m : Mixin) (closure : ScopeId) (call : String) (args : List Actual) :
    Confined s (m.bind closure call args) := by
  unfold Mixin.bind
  split
  · exact .done _
  · next placement _ =>
    refine (Scoped.confined_observe _ _).bind fun fault => ?_
    cases fault with
    | some fault => exact .done _
    | none =>
      refine Scoped.confined_child closure fun u => ?_
      refine (bindSlots_confined placement.rest placement.slots).bind fun values => ?_
      exact (Scoped.confined_define u _ _).bind fun _ => .done _

/-- An attempt adds scopes and works in them, whatever the state. -/
theorem Candidate.attempt_confined (c : Candidate) (call : String) (args : List Actual)
    (caller : ScopeId) : Confined s (c.attempt call args caller) := by
  refine (Mixin.bind_confined _ _ call args).bind fun binding => ?_
  cases binding with
  | patternMismatch => exact .done _
  | rejected problem => exact .done _
  | bound scope =>
    refine (Scoped.confined_join caller scope).bind fun working => ?_
    exact (Scoped.confined_observe _ _).bind fun _ => .done _

end

/-- A candidate that is out when it is attempted from `p`: nothing is accepted, and `t` is what
comes of it. -/
def Candidate.Rejected (c : Candidate) (call : String) (args : List Actual) (caller : ScopeId)
    (p : Progress) (t : Trial) : Prop :=
  t.accepted = none ∧ ∃ q, (c.attempt call args caller).run p = (.ok t, q)

section
variable {call : String} {args : List Actual} {caller : ScopeId} {p q : Progress} {c : Candidate}
  {t : Trial}

/-- The trial of a candidate that is out leaves the state as it was. -/
theorem Candidate.trial_of_rejected (h : c.Rejected call args caller p t) :
    (c.trial call args caller).run p = (.ok t, p) := by
  obtain ⟨hnone, q, hattempt⟩ := h
  obtain ⟨b, hb, hgrows⟩ := c.attempt_confined call args caller (s := p.arena.size) p
  have hq : q = { p with arena := b } := by
    rw [hattempt] at hb
    exact hb
  have hback : b.restore (p.arena.snapshot caller .attempt) = p.arena :=
    hgrows.restore_eq (Nat.le_refl _) caller
  have hsettle : t.settle (p.arena.snapshot caller .attempt) =
      Script.change (.restore (p.arena.snapshot caller .attempt)) (Script.done (.ok t)) := by
    unfold Trial.settle
    rw [hnone]
    rfl
  rw [Candidate.trial, run_bind_ok (show (Scoped.mark caller .attempt).run p = _ from rfl),
    run_bind_ok hattempt, hsettle, hq, run_change, run_done, Change.apply, hback]

/-! ## Lists of candidates -/

/-- The trials of some candidates and then those of others. -/
def Trials.append (ts us : Trials) : Trials :=
  ⟨ts.accepted ++ us.accepted, ts.problems ++ us.problems⟩

/-- Lists of trials may be put together in any grouping. -/
theorem Trials.append_assoc (ts us vs : Trials) :
    (ts.append us).append vs = ts.append (us.append vs) := by
  simp [Trials.append]

/-- The result of one trial. -/
def Trial.alone (c : Candidate) (t : Trial) : Trials :=
  ⟨(t.accepted.map fun (verdict, working) => (verdict, Selected.mk c working)).toList,
    t.problem.toList⟩

/-- Candidates after one whose trial has come to `t`. -/
theorem tryAll_cons_run {rest : List Candidate}
    (h : (c.trial call args caller).run p = (.ok t, q)) :
    (tryAll call args caller (c :: rest)).run p =
      (((tryAll call args caller rest).run q).1.map (t.alone c).append,
        ((tryAll call args caller rest).run q).2) := by
  rw [tryAll, run_bind_ok h, bind_eq, run_andThen]
  cases ((tryAll call args caller rest).run q).1 <;> rfl

/-- Candidates after some whose trials have come to `ts`. -/
theorem tryAll_append_run {before after : List Candidate} {ts : Trials}
    (h : (tryAll call args caller before).run p = (.ok ts, q)) :
    (tryAll call args caller (before ++ after)).run p =
      (((tryAll call args caller after).run q).1.map ts.append,
        ((tryAll call args caller after).run q).2) := by
  induction before generalizing p ts with
  | nil =>
    cases h
    rw [List.nil_append]
    cases hr : ((tryAll call args caller after).run q).1 <;> exact Prod.ext hr rfl
  | cons c before ih =>
    obtain ⟨t, m, ht, hrest⟩ := ok_of_run_bind h
    obtain ⟨us, n, hus, hdone⟩ := ok_of_run_bind hrest
    cases hdone
    rw [List.cons_append, tryAll_cons_run ht, ih hus]
    cases ((tryAll call args caller after).run q).1 with
    | error e => rfl
    | ok vs => exact Prod.ext (congrArg Except.ok (Trials.append_assoc (t.alone c) us vs).symm) rfl

/-- Candidates that are out leave the state as it was, and there is nothing but the problems that
they are noted with. -/
theorem tryAll_of_rejected {candidates : List Candidate}
    (h : ∀ c ∈ candidates, ∃ t, c.Rejected call args caller p t) :
    ∃ problems, (tryAll call args caller candidates).run p = (.ok ⟨[], problems⟩, p) := by
  induction candidates with
  | nil => exact ⟨[], rfl⟩
  | cons c rest ih =>
    obtain ⟨hc, hrest⟩ := List.forall_mem_cons.1 h
    obtain ⟨t, ht⟩ := hc
    obtain ⟨problems, hproblems⟩ := ih hrest
    refine ⟨t.problem.toList ++ problems, ?_⟩
    rw [tryAll_cons_run (Candidate.trial_of_rejected ht), hproblems]
    simp [Trial.alone, Trials.append, ht.1, Except.map]

end

/-! ## Calls that come to nothing -/

/-- Evaluating arguments only reads. -/
theorem evalArguments_state (caller : ScopeId) (args : List Argument) (p : Progress) :
    ((evalArguments caller args).run p).2 = p := by
  induction args with
  | nil => rfl
  | cons arg rest ih =>
    have hview : ((Expand.view caller arg.value.eval).run p).2 = p := rfl
    rw [evalArguments, bind_eq, run_andThen, hview]
    cases ((Expand.view caller arg.value.eval).run p).1 with
    | error e => rfl
    | ok v =>
      rw [orFail, bind_eq, run_andThen, ih]
      cases ((evalArguments caller rest).run p).1 <;> rfl

/-- The expansion of some stylesheet has come to `p`, and the call is what comes next. -/
def Call.Due (call : Call) (expand : Expander) (caller : ScopeId) (p : Progress) : Prop :=
  ∃ sheet limit k, Reaches (Stylesheet.script sheet limit) Progress.start
    ((call.expand expand caller).andThen k) p

section
variable {call : Call} {expand : Expander} {caller : ScopeId} {args : List Actual}
  {candidates : List Candidate} {p q : Progress}

/-- A call by one name whose candidates are all out settles on nothing. -/
theorem Call.select_of_rejected {name : String} (hpath : call.path = [name])
    (hargs : ((evalArguments caller call.args).run p).1 = .ok args)
    (hfound : ((findMixins caller (some args.length) call.path).run p).1 = .ok candidates)
    (h : ∀ c ∈ candidates, ∃ t, c.Rejected call.displayName args caller p t) :
    ∃ selected problems, (selected = none ∨ selected = some []) ∧
      (call.select caller).run p =
        (.ok selected, { p with problems := p.problems ++ problems }) := by
  have hargs : (evalArguments caller call.args).run p = (.ok args, p) :=
    Prod.ext hargs (evalArguments_state caller call.args p)
  have hfound : (Expand.onScopes (findMixins caller (some args.length) call.path)).run p =
      (.ok candidates, p) := by
    rw [hpath] at hfound ⊢
    exact Prod.ext (congrArg (Except.mapError Error.eval) hfound) rfl
  rw [Call.select, run_bind_ok hargs, run_bind_ok hfound]
  split
  · rw [hpath]
    exact ⟨none, _, .inl rfl, rfl⟩
  · obtain ⟨problems, htrials⟩ := tryAll_of_rejected h
    have htrials : (Expand.onScopes (tryAll call.displayName args caller candidates)).run p =
        (.ok ⟨[], problems⟩, p) := run_mapError_ok htrials Error.eval
    rw [run_bind_ok htrials]
    exact ⟨some [], problems.eraseDups, .inr rfl, rfl⟩

/-- Where a call that settles on nothing is due, nothing is staged for its scope. -/
theorem Call.Due.staged (h : call.Due expand caller p)
    (hselect : (call.select caller).run p = (.ok (some []), q)) :
    (q.arena.scope caller).staged = none := by
  obtain ⟨sheet, limit, k, h⟩ := h
  have hplace : Reaches (call.expand expand caller) p
      (call.carryOut expand caller (some [])) q := by
    have hdone := reaches_done (call.select caller) p
    rw [hselect] at hdone
    rw [Call.expand_eq]
    exact hdone.andThen _
  exact (sheet.script_safe limit _ _ (h.trans (hplace.andThen k))).legal

/-- Comments are written around nodes only: where there are none, a call comes to none. -/
theorem Call.finish_nil (call : Call) : call.finish [] = [] := by
  unfold Call.finish
  split <;> rfl

/-- There is nothing to carry out where no body is to be expanded and nothing is staged. -/
theorem Call.carryOut_nothing (call : Call) (expand : Expander)
    (h : (p.arena.scope caller).staged = none) :
    (call.carryOut expand caller (some [])).run p = (.ok [], p) := by
  have hrun : (call.carryOut expand caller (some [])).run p = (.ok (call.finish []),
      { p with arena := (p.arena.openStaging caller).commit caller }) := rfl
  rw [hrun, Call.finish_nil, Arena.commit_openStaging h]

/-- A call by one name whose candidates are all out leaves the arena as it was. -/
theorem Call.expand_of_rejected {name : String} (hpath : call.path = [name])
    (hargs : ((evalArguments caller call.args).run p).1 = .ok args)
    (hfound : ((findMixins caller (some args.length) call.path).run p).1 = .ok candidates)
    (h : ∀ c ∈ candidates, ∃ t, c.Rejected call.displayName args caller p t)
    (hstaged : (p.arena.scope caller).staged = none ∨ call.Due expand caller p) :
    ∃ problems, (call.expand expand caller).run p =
      (.ok [], { p with problems := p.problems ++ problems }) := by
  obtain ⟨selected, problems, hselected, hselect⟩ := Call.select_of_rejected hpath hargs hfound h
  refine ⟨problems, ?_⟩
  rw [Call.expand_eq, run_bind_ok hselect]
  obtain rfl | rfl := hselected
  · rfl
  · refine Call.carryOut_nothing call expand ?_
    exact hstaged.elim id fun hdue => hdue.staged hselect

end

/-- A candidate that is out leaves the state exactly as it was before its trial. So whatever was
tried before it and is tried after it, without it in the list the same candidates are accepted, with
the same verdicts and scopes, the arena is the same, and only the problem that the candidate itself
is noted with is missing; an error that comes later is the same too. A call by one name whose
candidates are all out has no nodes and leaves the arena as it was, wherever the expansion of a
stylesheet comes to such a call, and wherever else nothing is staged for its scope. -/
theorem tryAll_without_rejected (args : List Actual) (caller : ScopeId) (p : Progress) :
    (∀ name c t, Candidate.Rejected c name args caller p t →
      (c.trial name args caller).run p = (.ok t, p)) ∧
    (∀ name before c after ts q t, (tryAll name args caller before).run p = (.ok ts, q) →
      Candidate.Rejected c name args caller q t →
      ∃ (later : Except EvalError Trials) (s : Progress),
        (tryAll name args caller (before ++ after)).run p = (later.map ts.append, s) ∧
        (tryAll name args caller (before ++ c :: after)).run p =
          (later.map fun us => ts.append ⟨us.accepted, t.problem.toList ++ us.problems⟩, s)) ∧
    ∀ call expand name candidates, Call.path call = [name] →
      ((evalArguments caller call.args).run p).1 = .ok args →
      ((findMixins caller (some args.length) call.path).run p).1 = .ok candidates →
      (∀ c ∈ candidates, ∃ t, c.Rejected call.displayName args caller p t) →
      ((p.arena.scope caller).staged = none ∨ call.Due expand caller p) →
      ∃ problems, (call.expand expand caller).run p =
        (.ok [], { p with problems := p.problems ++ problems }) := by
  refine ⟨fun name c t => Candidate.trial_of_rejected, ?_, ?_⟩
  · intro name before c after ts q t hbefore hc
    refine ⟨_, _, tryAll_append_run hbefore, ?_⟩
    rw [tryAll_append_run hbefore, tryAll_cons_run (Candidate.trial_of_rejected hc)]
    have halone : (t.alone c).append =
        fun us => ⟨us.accepted, t.problem.toList ++ us.problems⟩ := by
      funext us
      simp [Trial.alone, Trials.append, hc.1]
    rw [halone]
    cases ((tryAll name args caller after).run q).1 <;> rfl
  · intro call expand name candidates hpath hargs hfound h hstaged
    exact Call.expand_of_rejected hpath hargs hfound h hstaged

/-- A stylesheet has come to the call of a mixin whose guard is false. Its trial opens a scope, and
nothing is left of it: the call comes to nothing, and between two candidates that are accepted the
mixin might as well not be. -/
theorem tryAll_without_rejected_guard :
    let candidate (n : Nat) (guard : Option Condition) : Candidate :=
      ⟨⟨.written ⟨0, n⟩, ⟨".m", [], guard, []⟩, Arena.root⟩, []⟩
    let no := candidate 1 (some (.truthy (.keyword "no")))
    let yes := candidate 2 none
    let call : Call := ⟨[".m"], [], false, {}⟩
    let p : Progress := ⟨Arena.empty.record Arena.root (.mixin no.registration), [], 0⟩
    call.Due (expandBody 1 1) Arena.root p ∧
    ((no.attempt ".m" [] Arena.root).run p).2.arena.size = p.arena.size + 1 ∧
    (no.trial ".m" [] Arena.root).run p = (.ok ⟨none, none⟩, p) ∧
    ((tryAll ".m" [] Arena.root [yes, no, yes]).run p).2 =
      ((tryAll ".m" [] Arena.root [yes, yes]).run p).2 ∧
    ∃ problems, (call.expand (expandBody 1 1) Arena.root).run p =
      (.ok [], { p with problems := p.problems ++ problems }) := by
  intro candidate no yes call p
  have hno : ∀ q, no.Rejected ".m" [] Arena.root q ⟨none, none⟩ := fun q => ⟨rfl, _, rfl⟩
  have hdue : call.Due (expandBody 1 1) Arena.root p := by
    let sheet : Stylesheet := ⟨[], [.mixin ⟨0, 1⟩ no.registration.mixin, .call call]⟩
    have hreach : Reaches (sheet.script 1) Progress.start
        ((call.expand (expandBody 1 1) Arena.root >>= fun nodes => pure (nodes ++ [])) >>= pure)
        p :=
      ((Reaches.start.step rfl).step rfl).step rfl
    rw [bind_assoc] at hreach
    exact ⟨sheet, 1, _, hreach⟩
  obtain ⟨htrial, hlist, hcall⟩ := tryAll_without_rejected [] Arena.root p
  obtain ⟨ts, q, hyes⟩ : ∃ ts q, (tryAll ".m" [] Arena.root [yes]).run p = (.ok ts, q) :=
    ⟨_, _, rfl⟩
  obtain ⟨later, s, hwithout, hwith⟩ := hlist ".m" [yes] no [yes] ts q _ hyes (hno q)
  refine ⟨hdue, by decide, htrial _ no _ (hno p), ?_, ?_⟩
  · exact (congrArg Prod.snd hwith).trans (congrArg Prod.snd hwithout).symm
  · exact hcall call (expandBody 1 1) ".m" [no] rfl rfl rfl
      (List.forall_mem_singleton.2 ⟨_, hno p⟩) (.inr hdue)

end LessSheet
