import LessSheet.Proofs.Grammar.Scanning

/-! # Where parsers get

A parser that ends, or notices a fault, does so at a place of the text it was run on: what is left
there is a suffix of that text (`Lands`). Some parsers also take at least one character whenever
they succeed.

`Accord n eats p q` says this of `p` on all texts shorter than `n`, and that `q` comes to the same
there. It is about two parsers because productions are built on the level inside the next bracket:
run on one text, they come to the same for any two levels that agree on shorter texts. The relation
goes through all the ways in which parsers are put together.

For repetitions it also matters that a round which asks for another has taken something (`Rounds`).
Then the bound of `iterate` is never what ends it (`loop_eq`).
-/

namespace LessSheet.Grammar

variable {α β σ : Type}

/-- What is left where a parser ended or noticed a fault. -/
def left : Except Failure (α × List Char) → List Char
  | .ok (_, r) => r
  | .error f => f.rest

/-- What a parser came to on `s`: it got to a place of `s`, and if `eats`, then past the start in
case of success. -/
structure Lands (eats : Bool) (s : List Char) (o : Except Failure (α × List Char)) : Prop where
  suffix : left o <:+ s
  lt : eats = true → ∀ a r, o = .ok (a, r) → r.length < s.length

/-- Two parsers came to the same on `s`, and there to a place of `s`. -/
def Meets (eats : Bool) (s : List Char) (o o' : Except Failure (α × List Char)) : Prop :=
  o' = o ∧ Lands eats s o

/-- Two parsers come to the same on all texts shorter than `n`, and get to places of them. -/
def Accord (n : Nat) (eats : Bool) (p q : Parse α) : Prop :=
  ∀ s, s.length < n → Meets eats s (p s) (q s)

/-! ## On one text -/

section
variable {c d : Bool} {r s : List Char} {o o' : Except Failure (α × List Char)}

/-- A parser ended at some place of the text. -/
theorem Lands.ok {a : α} (h : r <:+ s) : Lands false s (.ok (a, r)) := ⟨h, fun h => nomatch h⟩

/-- A parser ended past the start. -/
theorem Lands.okShorter {a : α} (h : Shorter r s) : Lands c s (.ok (a, r)) := by
  refine ⟨h.suffix, fun _ b t hbt => ?_⟩
  cases hbt
  exact h.lt

/-- A parser noticed a fault at some place of the text. -/
theorem Lands.error {f : Failure} (h : f.rest <:+ s) : Lands c s (.error f : Except _ (α × _)) :=
  ⟨h, fun _ _ _ h => nomatch h⟩

/-- A parser came to the same as itself. -/
theorem Meets.same (h : Lands c s o) : Meets c s o o := ⟨rfl, h⟩

/-- That something was taken may be forgotten. -/
theorem Meets.weaken (h : Meets c s o o') : Meets false s o o' :=
  ⟨h.1, h.2.suffix, fun h => nomatch h⟩

/-- What holds on a suffix holds on the text. -/
theorem Meets.of_suffix (h : Meets c r o o') (hr : r <:+ s) : Meets c s o o' :=
  ⟨h.1, h.2.suffix.trans hr, fun hc a t ht => Nat.lt_of_lt_of_le (h.2.lt hc a t ht) hr.length_le⟩

/-- A parser that is run after something has been taken. -/
theorem Meets.of_shorter (h : Meets c r o o') (hr : Shorter r s) : Meets d s o o' := by
  refine ⟨h.1, h.2.suffix.trans hr.suffix, fun _ a t ht => ?_⟩
  have ht' : t <:+ r := by
    have := h.2.suffix
    rwa [ht] at this
  exact Nat.lt_of_le_of_lt ht'.length_le hr.lt

/-- Parsers one after the other: something is taken if either of them takes something. -/
theorem Meets.bind {p p' : Parse α} {f f' : α → Parse β} {e : Bool}
    (he : e = true → c = true ∨ d = true) (h : Meets c s (p s) (p' s))
    (hf : ∀ a r, r <:+ s → (c = true → Shorter r s) → Meets d r (f a r) (f' a r)) :
    Meets e s ((p >>= f) s) ((p' >>= f') s) := by
  obtain ⟨heq, hland⟩ := h
  simp only [Bind.bind, StateT.bind, heq]
  cases hp : p s with
  | error e =>
    rw [hp] at hland
    exact .same (.error hland.suffix)
  | ok x =>
    obtain ⟨a, r⟩ := x
    rw [hp] at hland
    have hr : r <:+ s := hland.suffix
    have hshorter : c = true → Shorter r s := fun hc => ⟨hr, hland.lt hc a r rfl⟩
    have hrest := hf a r hr hshorter
    refine ⟨hrest.1, hrest.2.suffix.trans hr, fun he' b t ht => ?_⟩
    rcases he he' with hc | hd
    · exact (hrest.of_shorter (d := true) (hshorter hc)).2.lt rfl b t ht
    · exact Nat.lt_of_lt_of_le (hrest.2.lt hd b t ht) hr.length_le

/-- What is made of a result does not change where the parsers got. -/
theorem Meets.map {p p' : Parse α} (g : α → β) (h : Meets c s (p s) (p' s)) :
    Meets c s ((g <$> p) s) ((g <$> p') s) := by
  obtain ⟨heq, hland⟩ := h
  simp only [Functor.map, StateT.map, Bind.bind, heq]
  cases hp : p s with
  | error e =>
    rw [hp] at hland
    exact .same (.error hland.suffix)
  | ok x =>
    obtain ⟨a, r⟩ := x
    rw [hp] at hland
    refine .same ⟨hland.suffix, fun hc b t ht => ?_⟩
    cases ht
    exact hland.lt hc a r rfl

end

/-! ## On all texts up to a length -/

section
variable {n : Nat} {c : Bool} {p p' : Parse α} {f f' : α → Parse β}

/-- That something is taken may be forgotten. -/
theorem Accord.weaken (h : Accord n c p p') : Accord n false p p' := fun s hs => (h s hs).weaken

/-- The first parser by itself gets to places of the text. -/
theorem Accord.self (h : Accord n c p p') : Accord n c p p := fun s hs => .same (h s hs).2

/-- The second parser by itself gets to places of the text. -/
theorem Accord.right (h : Accord n c p p') : Accord n c p' p' := by
  intro s hs
  obtain ⟨heq, hland⟩ := h s hs
  rw [heq]
  exact .same hland

/-- Parsers that accord on texts up to some length do on those up to a smaller one. -/
theorem Accord.mono {m : Nat} (h : Accord n c p p') (hm : m ≤ n) : Accord m c p p' :=
  fun s hs => h s (Nat.lt_of_lt_of_le hs hm)

/-- After any step, what follows decides whether something is taken. -/
theorem Accord.bind (h : Accord n false p p') (hf : ∀ a, Accord n c (f a) (f' a)) :
    Accord n c (p >>= f) (p' >>= f') := fun s hs =>
  (h s hs).bind .inr fun a r hr _ => hf a r (Nat.lt_of_le_of_lt hr.length_le hs)

/-- A first step may decide that something is taken. -/
theorem Accord.first (h : Accord n c p p') (hf : ∀ a, Accord n false (f a) (f' a)) :
    Accord n c (p >>= f) (p' >>= f') := fun s hs =>
  (h s hs).bind .inl fun a r hr _ => hf a r (Nat.lt_of_le_of_lt hr.length_le hs)

/-- After a step that takes something, what follows is run on a shorter text. -/
theorem Accord.after (h : Accord (n + 1) true p p') (hf : ∀ a, Accord n false (f a) (f' a)) :
    Accord (n + 1) c (p >>= f) (p' >>= f') := fun s hs =>
  (h s hs).bind (fun _ => .inl rfl) fun a r _ hshorter =>
    hf a r (Nat.lt_of_lt_of_le (hshorter rfl).lt (Nat.le_of_lt_succ hs))

/-- Making something of the results of both. -/
theorem Accord.map (g : α → β) (h : Accord n c p p') : Accord n c (g <$> p) (g <$> p') :=
  fun s hs => (h s hs).map g

/-- A result takes nothing. -/
theorem Accord.pure (a : α) : Accord n false (pure a : Parse α) (pure a) :=
  fun s _ => .same (.ok (List.suffix_refl s))

/-- A fault is noticed here. -/
theorem Accord.fail (cause : ParseError.Cause) :
    Accord n c (Grammar.fail cause : Parse α) (Grammar.fail cause) :=
  fun s _ => .same (.error (List.suffix_refl s))

/-- A parser that looks at the text first. -/
theorem Accord.get {g g' : List Char → Parse β}
    (h : ∀ s, s.length < n → Meets c s (g s s) (g' s s)) :
    Accord n c (get >>= g) (get >>= g') := h

end

section
variable {n : Nat} {c : Bool}

/-- White space and comments may be none. -/
theorem trivia_accord : Accord n false trivia trivia :=
  fun s _ => .same (.ok (skipTrivia_suffix s))

/-- A character that has to come takes that character, and another one is taken before it is
reported. -/
theorem expect_accord (d : Char) : Accord n c (expect d) (expect d) := by
  intro s _
  refine .same ?_
  cases s with
  | nil => exact .error (List.suffix_refl _)
  | cons e r =>
    simp only [expect]
    split
    · exact .okShorter (.cons (List.suffix_refl r))
    · exact .error (List.suffix_cons e r)

/-- A character that may come takes itself or nothing. -/
theorem optional_accord (d : Char) : Accord n false (optional d) (optional d) := by
  intro s _
  refine .same ?_
  cases s with
  | nil => exact .ok (List.suffix_refl _)
  | cons e r =>
    simp only [optional]
    split
    · exact .ok (List.suffix_cons e r)
    · exact .ok (List.suffix_refl _)

/-- The importance marker takes itself or nothing. -/
theorem importance_accord : Accord n false importance importance := by
  intro s _
  refine .same ?_
  unfold importance
  split
  · next r h => exact .ok ⟨_, strip?_append h⟩
  · exact .ok (List.suffix_refl s)

/-- The second of two choices is run on the same text as the first. -/
theorem orElse_accord {p p' q q' : Parse α} (hp : Accord n c p p') (hq : Accord n c q q') :
    Accord n c (orElse p q) (orElse p' q') := by
  intro s hs
  obtain ⟨heq, hland⟩ := hp s hs
  unfold orElse
  rw [heq]
  cases h : p s with
  | ok x =>
    rw [h] at hland
    exact .same hland
  | error e => exact hq s hs

end

/-! ## Repetition -/

/-- Rounds of a repetition that accord, of which each that asks for another has taken something. If
`eats`, then the last one has too. -/
def Rounds (n : Nat) (eats : Bool) (step step' : σ → Parse (σ ⊕ α)) : Prop :=
  ∀ a s, s.length < n → Meets eats s (step a s) (step' a s) ∧
    ∀ a' r, step a s = .ok (.inl a', r) → r.length < s.length

section
variable {n : Nat} {c : Bool} {step step' : σ → Parse (σ ⊕ α)}

/-- Each round of a repetition accords by itself. -/
theorem Rounds.accord (h : Rounds n c step step') (a : σ) : Accord n c (step a) (step' a) :=
  fun s hs => (h a s hs).1

/-- Rounds that accord on texts up to some length do on those up to a smaller one. -/
theorem Rounds.mono {m : Nat} (h : Rounds n c step step') (hm : m ≤ n) : Rounds m c step step' :=
  fun a s hs => h a s (Nat.lt_of_lt_of_le hs hm)

/-- Rounds that accord do so when they are repeated, whatever the bound is. -/
theorem iterate_accord (h : ∀ a, Accord n c (step a) (step' a)) (fuel : List Char) (a : σ) :
    Accord n c (iterate step fuel a) (iterate step' fuel a) := by
  induction fuel generalizing a with
  | nil =>
    refine (h a).first fun x => ?_
    cases x with
    | inl a' => exact .fail _
    | inr b => exact .pure b
  | cons d fuel ih =>
    refine (h a).first fun x => ?_
    cases x with
    | inl a' => exact (ih a').weaken
    | inr b => exact .pure b

/-- Repetitions of rounds that accord do so, for they are bounded by the text they start on. -/
theorem loop_accord (h : Rounds n c step step') (a : σ) :
    Accord n c (loop step a) (loop step' a) :=
  fun s hs => iterate_accord h.accord s a s hs

/-- The first round of `iterate`, with a bound that is long enough; what it leaves of the bound is
long enough for all shorter texts. -/
theorem iterate_round (h : Rounds n c step step) {fuel s : List Char} (hs : s.length < n)
    (hfuel : s.length ≤ fuel.length) (a : σ) :
    ∃ less : List Char, (∀ r : List Char, r.length < s.length → r.length ≤ less.length) ∧
      iterate step fuel a s =
        match step a s with
        | .ok (.inl a', r) => iterate step less a' r
        | .ok (.inr b, r) => .ok (b, r)
        | .error e => .error e := by
  cases fuel with
  | cons d fuel =>
    refine ⟨fuel, fun r hr => Nat.le_of_lt_succ (Nat.lt_of_lt_of_le hr hfuel), ?_⟩
    rw [iterate_cons]
    cases step a s with
    | error e => rfl
    | ok x => obtain ⟨x | x, r⟩ := x <;> rfl
  | nil =>
    -- There is nothing left, so no round asks for another.
    have hnil : s.length = 0 := Nat.le_zero.1 hfuel
    refine ⟨[], fun r hr => by omega, ?_⟩
    have hlast := (h a s hs).2
    simp only [iterate, bind, StateT.bind, Except.bind]
    cases hround : step a s with
    | error e => rfl
    | ok x =>
      obtain ⟨x, r⟩ := x
      cases x with
      | inl a' => exact absurd (hlast a' r hround) (by omega)
      | inr b => rfl

/-- Any two texts that are long enough do as a bound. -/
theorem iterate_fuel (h : Rounds n c step step) {fuel fuel' s : List Char} (hs : s.length < n)
    (hfuel : s.length ≤ fuel.length) (hfuel' : s.length ≤ fuel'.length) (a : σ) :
    iterate step fuel a s = iterate step fuel' a s := by
  induction hlength : s.length using Nat.strongRecOn generalizing fuel fuel' s a with
  | ind k ih =>
    obtain ⟨less, hless, heq⟩ := iterate_round h hs hfuel a
    obtain ⟨less', hless', heq'⟩ := iterate_round h hs hfuel' a
    rw [heq, heq']
    cases hround : step a s with
    | error e => rfl
    | ok x =>
      obtain ⟨x, r⟩ := x
      cases x with
      | inr b => rfl
      | inl a' =>
        have hr := (h a s hs).2 a' r hround
        exact ih r.length (hlength ▸ hr) (by omega) (hless r hr) (hless' r hr) a' rfl

/-- A repetition goes on round by round, and no bound ends it. -/
theorem loop_eq (h : Rounds n c step step) {s : List Char} (hs : s.length < n) (a : σ) :
    loop step a s =
      match step a s with
      | .ok (.inl a', r) => loop step a' r
      | .ok (.inr b, r) => .ok (b, r)
      | .error e => .error e := by
  obtain ⟨less, hless, heq⟩ := iterate_round h hs (Nat.le_refl s.length) a
  rw [loop, heq]
  cases hround : step a s with
  | error e => rfl
  | ok x =>
    obtain ⟨x, r⟩ := x
    cases x with
    | inr b => rfl
    | inl a' =>
      have hr := (h a s hs).2 a' r hround
      exact iterate_fuel h (by omega) (hless r hr) (Nat.le_refl _) a'

end

/-! ### Lists -/

/-- A round that collects results. -/
def collecting (body : Parse (Option α)) (found : List α) : Parse (List α ⊕ List α) := do
  match ← body with
  | some a => pure (.inl (a :: found))
  | none => pure (.inr found.reverse)

/-- Results are collected in a state that holds them, the latest first. -/
theorem collect_eq (body : Parse (Option α)) : collect body = loop (collecting body) [] := rfl

/-- A round adds a result, ends the collection, or fails. -/
theorem collecting_apply (body : Parse (Option α)) (found : List α) (s : List Char) :
    collecting body found s =
      match body s with
      | .ok (some a, r) => .ok (.inl (a :: found), r)
      | .ok (none, r) => .ok (.inr found.reverse, r)
      | .error e => .error e := by
  simp only [collecting, bind, StateT.bind, Except.bind]
  cases body s with
  | error e => rfl
  | ok x => obtain ⟨_ | a, r⟩ := x <;> rfl

/-- What is collected accords, and something has been taken where there is a result. If `eats`, then
also where there is none. -/
structure Collects (n : Nat) (eats : Bool) (body body' : Parse (Option α)) : Prop where
  accord : Accord n eats body body'
  some_lt : ∀ s a r, s.length < n → body s = .ok (some a, r) → r.length < s.length

section
variable {n : Nat} {c : Bool}

/-- A round that takes something in any case does so where there is a result. -/
theorem Collects.of_eats {body body' : Parse (Option α)} (h : Accord n true body body') :
    Collects n true body body' :=
  ⟨h, fun s a r hs hbody => (h s hs).2.lt rfl (some a) r hbody⟩

/-- The first of two rounds by itself. -/
theorem Collects.self {body body' : Parse (Option α)} (h : Collects n c body body') :
    Collects n c body body := ⟨h.accord.self, h.some_lt⟩

/-- Rounds of collecting are rounds of a repetition. -/
theorem collecting_rounds {body body' : Parse (Option α)} (h : Collects n c body body') :
    Rounds n c (collecting body) (collecting body') := by
  intro found s hs
  refine ⟨(h.accord.first fun x => ?_) s hs, fun found' r hr => ?_⟩
  · cases x <;> exact .pure _
  · rw [collecting_apply] at hr
    split at hr
    · next a t hbody =>
      cases hr
      exact h.some_lt s a r hs hbody
    · cases hr
    · cases hr

/-- Rounds that accord do so when their results are collected. -/
theorem collect_accord {body body' : Parse (Option α)} (h : Collects n c body body') :
    Accord n c (collect body) (collect body') := loop_accord (collecting_rounds h) []

/-- Where results have been collected, something has been taken. -/
theorem collect_eats {body : Parse (Option α)} (h : Collects n false body body)
    {s r : List Char} {items : List α} (hs : s.length < n) (hitems : items ≠ [])
    (hcollect : collect body s = .ok (items, r)) : r.length < s.length := by
  have hrounds := collecting_rounds h
  rw [collect_eq, loop_eq hrounds hs, collecting_apply] at hcollect
  cases hbody : body s with
  | error e =>
    rw [hbody] at hcollect
    cases hcollect
  | ok x =>
    rw [hbody] at hcollect
    obtain ⟨_ | a, t⟩ := x
    · cases hcollect
      exact absurd rfl hitems
    · have ht := h.some_lt s a t hs hbody
      have hr : left (loop (collecting body) [a] t) <:+ t :=
        (loop_accord hrounds [a] t (Nat.lt_trans ht hs)).2.suffix
      rw [show loop (collecting body) [a] t = _ from hcollect] at hr
      exact Nat.lt_of_le_of_lt hr.length_le ht

/-! ### Operators and separators -/

/-- Making something of a result, on a text. -/
theorem map_apply (g : α → β) (p : Parse α) (s : List Char) :
    (g <$> p) s =
      match p s with
      | .ok (a, r) => .ok (g a, r)
      | .error e => .error e := by
  simp only [Functor.map, StateT.map, bind, Except.bind]
  cases p s <;> rfl

/-- A round that joins an operand to those before it. -/
def chaining (operand : Parse α) (operator? : List Char → Option ((α → α → α) × List Char))
    (lhs : α) : Parse (α ⊕ α) := fun s =>
  match operator? s with
  | none => .ok (.inr lhs, s)
  | some (combine, r) => ((fun rhs => .inl (combine lhs rhs)) <$> operand) r

/-- Operands are joined round by round, from the first one on. -/
theorem chainLeft_eq (operand : Parse α)
    (operator? : List Char → Option ((α → α → α) × List Char)) :
    chainLeft operand operator? = operand >>= loop (chaining operand operator?) := by
  refine congrArg (fun step => operand >>= loop step) (funext fun lhs => funext fun s => ?_)
  unfold chaining
  cases operator? s with
  | none => rfl
  | some found => exact (map_apply _ _ _).symm

/-- A round that takes a separator and the item after it. -/
def separating (item : Parse α) (separator? : List Char → Option (List Char)) :
    Parse (Option α) := fun s =>
  match separator? s with
  | none => .ok (none, s)
  | some r => (some <$> item) r

/-- Items after the first are collected round by round. -/
theorem separated_eq (item : Parse α) (separator? : List Char → Option (List Char)) :
    separated item separator? =
      item >>= fun first => collect (separating item separator?) >>= fun more =>
        pure (first :: more) := by
  refine congrArg (fun body => item >>= fun first => collect body >>= fun more =>
    pure (first :: more)) (funext fun s => ?_)
  unfold separating
  cases separator? s with
  | none => rfl
  | some r => exact (map_apply _ _ _).symm

/-- A round that goes on has taken an operand. -/
theorem chaining_rounds {operand operand' : Parse α}
    {operator? : List Char → Option ((α → α → α) × List Char)}
    (hoperator : ∀ s f r, operator? s = some (f, r) → r <:+ s)
    (h : Accord n true operand operand') :
    Rounds n false (chaining operand operator?) (chaining operand' operator?) := by
  intro lhs s hs
  unfold chaining
  cases ho : operator? s with
  | none => exact ⟨.same (.ok (List.suffix_refl s)), fun a' r hr => nomatch hr⟩
  | some found =>
    have ht := hoperator s found.1 found.2 ho
    have hrhs := (h.map fun rhs => (.inl (found.1 lhs rhs) : α ⊕ α)) found.2
      (Nat.lt_of_le_of_lt ht.length_le hs)
    have hround := hrhs.of_suffix ht
    exact ⟨hround.weaken, fun a' r hr => hround.2.lt rfl (.inl a') r hr⟩

/-- A chain takes something, and ends where no operator follows. -/
theorem chainLeft_accord {operand operand' : Parse α}
    {operator? : List Char → Option ((α → α → α) × List Char)}
    (hoperator : ∀ s f r, operator? s = some (f, r) → r <:+ s)
    (h : Accord n true operand operand') :
    Accord n true (chainLeft operand operator?) (chainLeft operand' operator?) := by
  rw [chainLeft_eq, chainLeft_eq]
  exact h.first (loop_accord (chaining_rounds hoperator h))

/-- A round with a result has taken an item. -/
theorem separating_collects {item item' : Parse α} {separator? : List Char → Option (List Char)}
    (hseparator : ∀ s r, separator? s = some r → r <:+ s) (h : Accord n true item item') :
    Collects n false (separating item separator?) (separating item' separator?) := by
  have hround : ∀ s r, s.length < n → separator? s = some r →
      Meets true s ((some <$> item) r) ((some <$> item') r) := fun s r hs hr =>
    ((h.map some) r (Nat.lt_of_le_of_lt (hseparator s r hr).length_le hs)).of_suffix
      (hseparator s r hr)
  constructor
  · intro s hs
    unfold separating
    cases hsep : separator? s with
    | none => exact .same (.ok (List.suffix_refl s))
    | some t => exact (hround s t hs hsep).weaken
  · intro s a r hs hbody
    unfold separating at hbody
    cases hsep : separator? s with
    | none =>
      rw [hsep] at hbody
      cases hbody
    | some t =>
      rw [hsep] at hbody
      exact (hround s t hs hsep).2.lt rfl (some a) r hbody

/-- A list takes something, and ends where no separator follows. -/
theorem separated_accord {item item' : Parse α} {separator? : List Char → Option (List Char)}
    (hseparator : ∀ s r, separator? s = some r → r <:+ s) (h : Accord n true item item') :
    Accord n true (separated item separator?) (separated item' separator?) := by
  rw [separated_eq, separated_eq]
  exact h.first fun first =>
    (collect_accord (separating_collects hseparator h)).bind fun more => .pure _

end

end LessSheet.Grammar
