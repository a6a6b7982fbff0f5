import LessSheet.Proofs.Scope.Commit
import LessSheet.Scope.Operation

/-! # Staging is out of sight

Between starting to stage entries for a scope and committing them, anything else may be done to the
arena but going back, and entries may be staged any number of times. `Arena.run` carries out such a
sequence of operations, `Arena.replies` lists what the operations answer on the way, and
`Arena.stagedBy` the entries that are staged, each scope's as they are at that moment.

Two runs are compared, one with the staging operations and one without them. All along the way the
two arenas differ in nothing but what is staged (`Stages.run`), which no answer depends on
(`Stages.answer?_eq`), and what is staged is what `stagedBy` lists (`staged_run`).
-/

namespace LessSheet

/-! ## Sequences of operations -/

/-- What may be asked of an arena. -/
inductive Query where
  | lookup (scope : ScopeId) (name : String)
  | lookupMixins (scope : ScopeId) (name : String) (arity : Option Nat)
  | ownVariables (scope : ScopeId)
  | ownMixins (scope : ScopeId) (name : String) (arity : Option Nat)
  | mixins (scope : ScopeId)
  | reaches (scope target : ScopeId)
  | snapshot (scope : ScopeId) (kind : Snapshot.Kind)

/-- What an arena answers. -/
inductive Answer where
  | value (value : Option Value)
  | variables (vars : List (String × Value))
  | mixins (found : List Registration)
  | truth (b : Bool)
  | snapshot (snapshot : Snapshot)
  | scope (scope : ScopeId)

/-- The answer to a query. -/
def Query.answer (a : Arena) : Query → Answer
  | .lookup s name => .value (a.lookup s name)
  | .lookupMixins s name arity => .mixins (a.lookupMixins s name arity)
  | .ownVariables s => .variables (a.ownVariables s)
  | .ownMixins s name arity => .mixins (a.ownMixins s name arity)
  | .mixins s => .mixins (a.mixins s)
  | .reaches s target => .truth (a.reaches s target)
  | .snapshot s kind => .snapshot (a.snapshot s kind)

/-- Anything that is done with an arena. -/
inductive Operation where
  | ask (query : Query)
  | create (creation : Creation)
  | change (change : Change)

namespace Operation

/-- The arena after an operation. -/
def apply (a : Arena) : Operation → Arena
  | .ask _ => a
  | .create c => (c.apply a).2
  | .change c => c.apply a

/-- The answer to an operation: of a query what is asked for, of a creation the scope. -/
def answer? (a : Arena) : Operation → Option Answer
  | .ask q => some (q.answer a)
  | .create c => some (.scope (c.apply a).1)
  | .change _ => none

/-- Whether an operation stages entries. -/
def isStaging : Operation → Bool
  | .change (.stage _ _) => true
  | _ => false

/-- The operations that are left if those that stage entries are left out. -/
def withoutStaging (ops : List Operation) : List Operation := ops.filter fun op => !op.isStaging

/-- The entries that an operation stages. -/
def staged (a : Arena) : Operation → List Entry
  | .change (.stage _ exports) => a.log exports
  | _ => []

/-- What may be done while entries are being staged for scope `s`: of the operations that stage,
commit or go back only staging for `s`, and all others. -/
inductive KeepsOpen (s : ScopeId) : Operation → Prop where
  | ask (q : Query) : KeepsOpen s (.ask q)
  | create (c : Creation) : KeepsOpen s (.create c)
  | record (t : ScopeId) (e : Entry) : KeepsOpen s (.change (.record t e))
  | stage (exports : ScopeId) : KeepsOpen s (.change (.stage s exports))

end Operation

open Operation

namespace Arena

/-- The arena after operations one after the other. -/
def run (a : Arena) : List Operation → Arena
  | [] => a
  | op :: ops => (op.apply a).run ops

/-- The answers to operations one after the other. -/
def replies (a : Arena) : List Operation → List Answer
  | [] => []
  | op :: ops => (op.answer? a).toList ++ (op.apply a).replies ops

/-- The entries that operations stage one after the other. -/
def stagedBy (a : Arena) : List Operation → List Entry
  | [] => []
  | op :: ops => op.staged a ++ (op.apply a).stagedBy ops

/-- Whether an entry may be committed to a scope: a mixin, or a variable that the scope does not
have itself. -/
def admits (a : Arena) (s : ScopeId) : Entry → Bool
  | .binding name _ => !(a.ownValue? s name).isSome
  | .mixin _ => true

/-- The entries that a log shadows are those that may not be committed. -/
theorem shadows_eq_not_admits (a : Arena) (s : ScopeId) (e : Entry) :
    shadows (a.log s) e = !a.admits s e := by
  cases e with
  | binding name value =>
    rw [shadows_binding, admits, ownValue?_eq_latest, Bool.not_not]
  | mixin r => rfl

/-! ## What answers depend on -/

section
variable {a b : Arena} {s : ScopeId} {op : Operation} {entries : List Entry}

/-- A walk goes where the links lead. -/
theorem walk_congr (hlink : ∀ t, (b.scope t).link = (a.scope t).link) (fuel : Nat)
    (stack seen : List ScopeId) : b.walk fuel stack seen = a.walk fuel stack seen := by
  induction fuel generalizing stack seen with
  | zero => rfl
  | succ fuel ih =>
    cases stack with
    | nil => rfl
    | cons s stack => rw [walk, walk, hlink, ih, ih]

namespace Stages

/-- While entries are staged, links are as they were. -/
theorem link_eq (h : Stages s a b) (t : ScopeId) : (b.scope t).link = (a.scope t).link := by
  by_cases hts : t = s
  · rw [hts, h.link]
  · rw [h.frame t hts]

/-- While entries are staged, the same scopes are in sight. -/
theorem sight_eq (h : Stages s a b) : b.sight = a.sight := by
  funext t
  rw [sight, sight, h.size, walk_congr h.link_eq]

/-- What is staged for a scope is not found. -/
theorem search_eq {α : Type} (h : Stages s a b) (t : ScopeId) (f : ScopeId → Option α) :
    b.search t f = a.search t f := by
  rw [search_eq_findSome?, search_eq_findSome?, h.sight_eq]

/-- While entries are staged, the same scopes are reached. -/
theorem reaches_eq (h : Stages s a b) (t target : ScopeId) :
    b.reaches t target = a.reaches t target := by
  rw [reaches, reaches, h.search_eq]

/-- No answer depends on what is staged. -/
theorem answer_eq (h : Stages s a b) (q : Query) : q.answer b = q.answer a := by
  have hown : ∀ t name arity, b.ownMixins t name arity = a.ownMixins t name arity := by
    intro t name arity
    rw [ownMixins, ownMixins, Arena.mixins, Arena.mixins, h.log_eq]
  cases q with
  | lookup t name => simp only [Query.answer, Arena.lookup, ownValue?, h.log_eq, h.search_eq]
  | lookupMixins t name arity =>
    simp only [Query.answer, Arena.lookupMixins, ownMixins?, hown, h.search_eq]
  | ownVariables t => rw [Query.answer, Query.answer, Arena.ownVariables, Arena.ownVariables,
      h.log_eq]
  | ownMixins t name arity => rw [Query.answer, Query.answer, hown]
  | mixins t => rw [Query.answer, Query.answer, Arena.mixins, Arena.mixins, h.log_eq]
  | reaches t target => rw [Query.answer, Query.answer, h.reaches_eq]
  | snapshot t kind => rw [Query.answer, Query.answer, Arena.snapshot, Arena.snapshot, h.log_eq,
      h.size]

/-! ## One operation in two arenas -/

/-- A scope that is added to both. -/
theorem push (h : Stages s a b) (hs : s < a.size) (link : Link) :
    Stages s (a.push link).2 (b.push link).2 := by
  have hne : ¬ s = a.size := Nat.ne_of_lt hs
  refine ⟨by rw [size_push, size_push, h.size], fun t hts => ?_, ?_, ?_⟩
  · rw [scope_push, scope_push, h.size, h.frame t hts]
  · rw [scope_push, scope_push, h.size, if_neg hne, if_neg hne, h.link]
  · rw [Arena.log, Arena.log, scope_push, scope_push, h.size, if_neg hne, if_neg hne]
    exact h.log

/-- A creation gives the same scope, whether or not entries are staged. -/
theorem create (h : Stages s a b) (hs : s < a.size) (c : Creation) :
    (c.apply b).1 = (c.apply a).1 ∧ Stages s (c.apply a).2 (c.apply b).2 := by
  cases c with
  | child parent => exact ⟨h.size, h.push hs _⟩
  | detached => exact ⟨h.size, h.push hs _⟩
  | join caller callee =>
    rw [Creation.apply, Creation.apply, Arena.join, Arena.join, h.reaches_eq]
    split
    · exact ⟨rfl, h⟩
    · exact ⟨h.size, h.push hs _⟩

/-- An entry that is recorded in both. -/
theorem record (h : Stages s a b) (t : ScopeId) (e : Entry) :
    Stages s (a.record t e) (b.record t e) := by
  refine ⟨by rw [size_record, size_record, h.size], fun u hu => ?_, ?_, ?_⟩
  · rw [Arena.record, Arena.record, scope_update, scope_update, h.size, h.frame u hu]
  · rw [link_record, link_record, h.link]
  · rw [log_record, log_record, h.size, h.log]

/-- An operation has the same answer in both. -/
theorem answer?_eq (h : Stages s a b) (hs : s < a.size) (op : Operation) :
    op.answer? b = op.answer? a := by
  cases op with
  | ask q => rw [Operation.answer?, Operation.answer?, h.answer_eq]
  | create c => rw [Operation.answer?, Operation.answer?, (h.create hs c).1]
  | change c => rfl

/-- An operation that stages nothing, in both. -/
theorem apply (h : Stages s a b) (hs : s < a.size) (hop : op.KeepsOpen s)
    (hplain : op.isStaging = false) : Stages s (op.apply a) (op.apply b) := by
  cases hop with
  | ask q => exact h
  | create c => exact (h.create hs c).2
  | record t e => exact h.record t e
  | stage exports => cases hplain

/-- An operation that stages, in one of the two. -/
theorem apply_staging (h : Stages s a b) (hop : op.KeepsOpen s) (hstaging : op.isStaging = true) :
    op.answer? b = none ∧ Stages s a (op.apply b) := by
  cases hop with
  | stage exports => exact ⟨rfl, h.trans (.stage s exports b)⟩
  | ask q => cases hstaging
  | create c => cases hstaging
  | record t e => cases hstaging

end Stages

/-! ## What is staged on the way -/

/-- A creation adds a scope and changes none. -/
theorem Grows.create (s : ScopeId) (a : Arena) (c : Creation) : Grows s a (c.apply a).2 := by
  rcases c.apply_cases a with hsame | ⟨link, -, hpush⟩
  · rw [hsame]
    exact .refl s a
  · rw [hpush]
    exact .push s a link

/-- A scope that is there stays there. -/
theorem size_le_apply (hop : op.KeepsOpen s) : a.size ≤ (op.apply a).size := by
  cases hop with
  | ask q => exact Nat.le_refl _
  | create c => exact (Grows.create s a c).size
  | record t e => exact Nat.le_of_eq (size_record a t e).symm
  | stage exports => exact Nat.le_of_eq (size_update a s _).symm

/-- What an operation stages comes after what was staged before. -/
theorem staged_apply (hs : s < a.size) (hstaged : (a.scope s).staged = some entries)
    (hop : op.KeepsOpen s) :
    ((op.apply a).scope s).staged = some (entries ++ op.staged a) := by
  have hsame : some entries = some (entries ++ []) := by rw [List.append_nil]
  cases hop with
  | ask q => exact hstaged.trans hsame
  | create c => exact ((Grows.create s a c).staged hs).trans (hstaged.trans hsame)
  | record t e =>
    refine Eq.trans ?_ (hstaged.trans hsame)
    rw [Operation.apply, Change.apply, Arena.record, scope_update]
    split <;> rfl
  | stage exports =>
    rw [Operation.apply, Change.apply, Arena.stage, scope_update, if_pos ⟨rfl, hs⟩, hstaged]
    rfl

/-! ## Whole sequences -/

/-- A sequence with and without what it stages: the answers are the same, and so are the arenas
afterwards, but for what is staged. -/
theorem Stages.run {ops : List Operation} (h : Stages s a b) (hs : s < a.size)
    (hops : ∀ op ∈ ops, op.KeepsOpen s) :
    b.replies ops = a.replies (withoutStaging ops) ∧
      Stages s (a.run (withoutStaging ops)) (b.run ops) := by
  induction ops generalizing a b with
  | nil => exact ⟨rfl, h⟩
  | cons op ops ih =>
    obtain ⟨hop, hops⟩ := List.forall_mem_cons.1 hops
    cases hkind : op.isStaging with
    | true =>
      obtain ⟨hanswer, hnext⟩ := h.apply_staging hop hkind
      have hleft : withoutStaging (op :: ops) = withoutStaging ops :=
        List.filter_cons_of_neg (by simp [hkind])
      rw [hleft, replies, hanswer]
      exact ih hnext hs hops
    | false =>
      have hleft : withoutStaging (op :: ops) = op :: withoutStaging ops :=
        List.filter_cons_of_pos (by simp [hkind])
      have hnext := ih (h.apply hs hop hkind) (Nat.lt_of_lt_of_le hs (size_le_apply hop)) hops
      rw [hleft, replies, replies, h.answer?_eq hs, hnext.1]
      exact ⟨rfl, hnext.2⟩

/-- After a sequence, all that it staged is staged, in order. -/
theorem staged_run {ops : List Operation} (hs : s < a.size)
    (hstaged : (a.scope s).staged = some entries) (hops : ∀ op ∈ ops, op.KeepsOpen s) :
    s < (a.run ops).size ∧ ((a.run ops).scope s).staged = some (entries ++ a.stagedBy ops) := by
  induction ops generalizing a entries with
  | nil => exact ⟨hs, by rw [run, stagedBy, hstaged, List.append_nil]⟩
  | cons op ops ih =>
    obtain ⟨hop, hops⟩ := List.forall_mem_cons.1 hops
    have hnext := ih (Nat.lt_of_lt_of_le hs (size_le_apply hop)) (staged_apply hs hstaged hop) hops
    rwa [List.append_assoc] at hnext

/-- Staging is out of sight until it is committed. Whatever is done in between, short of going back
and of staging for other scopes, has the answers that it has with the staging left out. The commit
then adds all staged entries to the log of the scope, in the order in which they were staged and as
they were at that time, but for the variables that the scope has itself by now, and changes nothing
else. -/
theorem commit_run {ops : List Operation} (hs : s < a.size) (hops : ∀ op ∈ ops, op.KeepsOpen s) :
    (a.openStaging s).replies ops = a.replies (withoutStaging ops) ∧
    let b := (a.openStaging s).run ops
    (b.commit s).scope s =
      { link := (b.scope s).link
        log := b.log s ++ ((a.openStaging s).stagedBy ops).filter (b.admits s)
        staged := none } ∧
    (∀ t, t ≠ s → (b.commit s).scope t = b.scope t) ∧
    (b.commit s).size = b.size := by
  have hopen := Stages.openStaging s a
  have hstaged : ((a.openStaging s).scope s).staged = some [] := by
    rw [Arena.openStaging, scope_update, if_pos ⟨rfl, hs⟩]
  obtain ⟨hsb, hstaged⟩ := staged_run (hopen.size.symm ▸ hs) hstaged hops
  rw [List.nil_append] at hstaged
  refine ⟨(hopen.run hs hops).1, ?_⟩
  intro b
  have hcommit := Commits.of_stages (.refl s b) hsb hstaged
  refine ⟨?_, hcommit.frame, hcommit.size⟩
  have hadmits : (fun e => !shadows (b.log s) e) = b.admits s := by
    funext e
    rw [shadows_eq_not_admits, Bool.not_not]
  rw [← hcommit.link, ← hadmits, ← hcommit.log, ← staged_commit hsb]
  rfl

/-- The same exports are staged twice, for a scope inside the root: first with a variable that the
scope gets itself after that, then with another one besides. Until the commit neither is seen, and
then the second is there, once. -/
theorem commit_run_twice :
    let a : Arena := ⟨#[⟨.root, [], none⟩, ⟨.child 0, [], none⟩,
      ⟨.root, [.binding "x" (.keyword "given")], none⟩]⟩
    let ops : List Operation :=
      [.change (.stage 1 2), .ask (.lookup 1 "x"),
        .change (.record 1 (.binding "x" (.keyword "own"))),
        .change (.record 2 (.binding "y" (.keyword "late"))),
        .change (.stage 1 2), .ask (.lookup 1 "x"), .ask (.lookup 1 "y")]
    let b := (a.openStaging 1).run ops
    (1 < a.size ∧ ∀ op ∈ ops, op.KeepsOpen 1) ∧
      (a.openStaging 1).replies ops = [.value none, .value (some (.keyword "own")), .value none] ∧
      (b.commit 1).log 1 = [.binding "x" (.keyword "own"), .binding "y" (.keyword "late")] := by
  intro a ops b
  have hops : ∀ op ∈ ops, op.KeepsOpen 1 := by
    simp only [ops, List.forall_mem_cons]
    exact ⟨.stage 2, .ask _, .record 1 _, .record 2 _, .stage 2, .ask _, .ask _, nofun⟩
  obtain ⟨hreplies, hscope, -⟩ := commit_run (a := a) (s := 1) (by decide) hops
  refine ⟨⟨by decide, hops⟩, hreplies.trans ?_, (congrArg Scope.log hscope).trans ?_⟩
  · cbv
  · cbv

end

end Arena

end LessSheet
