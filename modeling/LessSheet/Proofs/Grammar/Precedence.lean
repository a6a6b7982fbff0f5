import LessSheet.Proofs.Grammar.Written

/-! # Operators of two strengths

Formulas and guards are written alike: operators that bind loosely stand between what operators that
bind tightly make of operands, both group to the left, and an operand may be an atom, which can be
anything in parentheses. `Operators` are the parsers of such a language.

How tightly a tree binds decides which of the parsers read its text (`Operators.Reads`). The text of
a tree with an operator does not end where the tree does: a parser that reads it goes on with what
follows from the tree it has. Parentheses stand where a tree binds too loosely for its place
(`enclose`, `Operators.Reads.enclose`).
-/

namespace LessSheet.Grammar

/-- A text in parentheses, unless it binds as tightly as its place needs. -/
def enclose (strength needed : Nat) (text : List Char) : List Char :=
  if strength < needed then '(' :: (text ++ [')']) else text

/-- Neither a text nor its parentheses begin with white space or a comment. -/
theorem Firm.enclose {s : List Char} (h : Firm s) (strength needed : Nat) :
    Firm (enclose strength needed s) := by
  rw [Grammar.enclose]
  split
  · exact (begins_paren _).firm
  · exact h

/-- Parentheses begin something as well. -/
theorem Begins.enclose {s : List Char} (h : Begins s) (strength needed : Nat) :
    Begins (enclose strength needed s) := by
  rw [Grammar.enclose]
  split
  · exact begins_paren _
  · exact h

/-- Atoms, operands that may be atoms, and how two kinds of operators are found after an operand.
`Ends` is what may follow an operand. -/
structure Operators (document : Nat) (α : Type) where
  atom : Parse α
  operand : Parse α
  tight? : List Char → Option ((α → α → α) × List Char)
  loose? : List Char → Option ((α → α → α) × List Char)
  Ends : List Char → Prop
  operand_paren (s : List Char) : operand ('(' :: s) = atom ('(' :: s)
  tight_repeats : Repetition (unbounded document) (chaining operand tight?)
  loose_repeats : Repetition (unbounded document) (chaining (chainLeft operand tight?) loose?)

namespace Operators

variable {document : Nat} {α : Type} (O : Operators document α)

/-- Operands and tight operators. -/
def tight : Parse α := chainLeft O.operand O.tight?

/-- Operands and operators of both kinds. -/
def loose : Parse α := chainLeft O.tight O.loose?

/-- The text of `a` is read as `a` by the parsers that its strength allows: by all of them for an
atom, by `loose` alone for a tree under a loose operator. -/
structure Reads (strength : Nat) (text : List Char) (a : α) : Prop where
  loose : ∀ r, O.Ends r → O.tight? r = none →
    O.loose (text ++ r) = loop (chaining O.tight O.loose?) a r
  tight : 1 ≤ strength → ∀ r, O.Ends r →
    O.tight (text ++ r) = loop (chaining O.operand O.tight?) a r
  operand : 2 ≤ strength → ∀ r, O.Ends r → O.operand (text ++ r) = .ok (a, r)
  atom : 3 ≤ strength → ∀ r, O.Ends r → O.atom (text ++ r) = .ok (a, r)

variable {O} {strength needed : Nat} {text l r sep : List Char} {a b : α} {f : α → α → α}

/-- What binds more tightly than needed is read where less is needed. -/
theorem Reads.mono (h : O.Reads strength text a) (hle : needed ≤ strength) :
    O.Reads needed text a where
  loose := h.loose
  tight hn := h.tight (Nat.le_trans hn hle)
  operand hn := h.operand (Nat.le_trans hn hle)
  atom hn := h.atom (Nat.le_trans hn hle)

/-- Where no operator follows, the text is read as a whole. -/
theorem Reads.whole (h : O.Reads strength text a) (hr : O.Ends r) (htight : O.tight? r = none)
    (hloose : O.loose? r = none) : O.loose (text ++ r) = .ok (a, r) := by
  rw [h.loose r hr htight]
  exact chain_end O.loose_repeats hloose

/-- What reads as a chain of tight operators reads as one of loose operators too. -/
theorem Reads.of_tight
    (h : ∀ r, O.Ends r → O.tight (text ++ r) = loop (chaining O.operand O.tight?) a r) :
    O.Reads 1 text a where
  loose r hr htight := by
    have hfirst : O.tight (text ++ r) = .ok (a, r) := by
      rw [h r hr, chain_end O.tight_repeats htight]
    exact chainLeft_first hfirst
  tight _ := h
  operand hn := absurd hn (by decide)
  atom hn := absurd hn (by decide)

/-- What reads as an operand reads as a chain of tight operators too. -/
theorem Reads.of_operand (h : ∀ r, O.Ends r → O.operand (text ++ r) = .ok (a, r)) :
    O.Reads 2 text a where
  loose := (Reads.of_tight fun r hr => chainLeft_first (h r hr)).loose
  tight _ r hr := chainLeft_first (h r hr)
  operand _ := h
  atom hn := absurd hn (by decide)

/-- What reads as an atom, and as an operand in the same way, is read everywhere. -/
theorem Reads.of_atom (hoperand : ∀ r, O.operand (text ++ r) = O.atom (text ++ r))
    (h : ∀ r, O.Ends r → O.atom (text ++ r) = .ok (a, r)) : O.Reads 3 text a := by
  have hreads : O.Reads 2 text a := .of_operand fun r hr => (hoperand r).trans (h r hr)
  exact ⟨hreads.loose, fun _ => hreads.tight (by decide), fun _ => hreads.operand (by decide),
    fun _ => h⟩

/-- A text is read in the place it was enclosed for, if it is read in parentheses. -/
theorem Reads.enclose (h : O.Reads strength text a) (hle : needed ≤ 3)
    (hparens : strength < 3 → ∀ r, O.Ends r →
      O.atom ('(' :: (text ++ ')' :: r)) = .ok (a, r)) :
    O.Reads needed (enclose strength needed text) a := by
  rw [Grammar.enclose]
  split
  · next hlt =>
    refine Reads.mono (.of_atom (fun r => O.operand_paren _) fun r hr => ?_) hle
    simpa using hparens (Nat.lt_of_lt_of_le hlt hle) r hr
  · next hlt => exact h.mono (Nat.le_of_not_lt hlt)

/-- A tight operator. What is read after it may pass over white space first. -/
theorem Reads.tight_operation (hl : O.Reads 1 l a) (hr : O.Reads 2 r b)
    (hends : ∀ t, O.Ends (sep ++ t))
    (hfound : ∀ t, ∃ u, O.tight? (sep ++ (r ++ t)) = some (f, u) ∧
      O.operand u = O.operand (r ++ t)) :
    O.Reads 1 (l ++ sep ++ r) (f a b) := by
  refine .of_tight fun t ht => ?_
  obtain ⟨u, hoperator, hu⟩ := hfound t
  have hright : O.operand u = .ok (b, t) := hu.trans (hr.operand (Nat.le_refl 2) t ht)
  rw [List.append_assoc, List.append_assoc, hl.tight (Nat.le_refl 1) _ (hends _),
    chain_next O.tight_repeats hoperator hright]

/-- A loose operator. No tight operator stands in its place. -/
theorem Reads.loose_operation (hl : O.Reads 0 l a) (hr : O.Reads 1 r b)
    (hends : ∀ t, O.Ends (sep ++ t)) (htight : ∀ t, O.tight? (sep ++ t) = none)
    (hfound : ∀ t, ∃ u, O.loose? (sep ++ (r ++ t)) = some (f, u) ∧
      O.tight u = O.tight (r ++ t)) :
    O.Reads 0 (l ++ sep ++ r) (f a b) := by
  refine ⟨fun t ht htight' => ?_, ?_, ?_, ?_⟩
  · obtain ⟨u, hoperator, hu⟩ := hfound t
    have hright : O.tight u = .ok (b, t) := by
      rw [hu, hr.tight (Nat.le_refl 1) t ht, chain_end O.tight_repeats htight']
    rw [List.append_assoc, List.append_assoc, hl.loose _ (hends _) (htight _)]
    exact chain_next O.loose_repeats hoperator hright
  all_goals exact fun hn => absurd hn (by decide)

end Operators

end LessSheet.Grammar
