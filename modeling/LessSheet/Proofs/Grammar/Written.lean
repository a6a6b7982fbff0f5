import LessSheet.Proofs.Grammar.Totality
import LessSheet.Proofs.Text.Appearance
import Mathlib.Data.Bool.AllAny

/-! # Reading what is written

A text that was written from a tree is read back piece by piece: each piece is followed by a text
that does not go on with it, and a parser takes the piece and leaves that text. This module has what
all written trees share: names and words, the white space between pieces, operators and their
operands, lists, and a statement that is a whole source.

The grammar is run without a bound, on `unbounded`, whose repetitions go on round by round
(`chain_next`, `collect_next`).
-/

namespace LessSheet.Grammar

open Text

/-! ## Steps -/

section
variable {α β : Type} {p : Parse α} {f : α → Parse β} {s r : List Char} {a : α}

/-- A parser after one that has read something. -/
theorem bind_of_ok (h : p s = .ok (a, r)) : (p >>= f) s = f a r := by
  simp only [bind, StateT.bind, h]
  rfl

/-- A parser after one that has failed. -/
theorem bind_of_error {e : Failure} (h : p s = .error e) : (p >>= f) s = .error e := by
  simp only [bind, StateT.bind, h]
  rfl

/-- A parser that has read something, with a function of it. -/
theorem map_of_ok (g : α → β) (h : p s = .ok (a, r)) : (g <$> p) s = .ok (g a, r) := by
  rw [map_apply, h]

/-- A parser with a function of its result has read what the parser without it has. -/
theorem ok_of_map {g : α → β} {b : β} (h : (g <$> p) s = .ok (b, r)) :
    ∃ a, p s = .ok (a, r) ∧ b = g a := by
  rw [map_apply] at h
  cases hp : p s with
  | error e =>
    rw [hp] at h
    cases h
  | ok x =>
    rw [hp] at h
    cases h
    exact ⟨x.1, rfl, rfl⟩

@[simp] theorem trivia_bind (f : Unit → Parse β) (s : List Char) :
    (trivia >>= f) s = f () (skipTrivia s) := rfl

@[simp] theorem get_bind (f : List Char → Parse β) (s : List Char) : (get >>= f) s = f s s := rfl

@[simp] theorem set_bind (r : List Char) (f : PUnit → Parse β) (s : List Char) :
    (set r >>= f) s = f ⟨⟩ r := rfl

@[simp] theorem expect_bind (c : Char) (f : Unit → Parse β) (s : List Char) :
    (expect c >>= f) (c :: s) = f () s := by
  rw [bind_of_ok (a := ()) (r := s)]
  exact if_pos rfl

/-- Another character than the expected one is an error that says so. -/
theorem expect_bind_error {c d : Char} (h : d ≠ c) (f : Unit → Parse β) (s : List Char) :
    (expect c >>= f) (d :: s) = .error ⟨.expected c (some d), s⟩ :=
  bind_of_error (if_neg h)

end

/-! ## White space -/

section
variable {c : Char} {s t : List Char}

/-- A text that begins with neither white space nor a comment. -/
def Firm (s : List Char) : Prop := ∃ c r, s = c :: r ∧ isBlank c = false ∧ c ≠ '/'

/-- What follows a text does not change how it begins. -/
theorem Firm.append (h : Firm s) (t : List Char) : Firm (s ++ t) := by
  obtain ⟨c, r, rfl, hc⟩ := h
  exact ⟨c, r ++ t, rfl, hc⟩

/-- No comments are found where none comes first. -/
theorem scanTrivia_of_firm (h : Firm s) : scanTrivia s = ([], s) := by
  obtain ⟨c, r, rfl, hc, hslash⟩ := h
  unfold scanTrivia
  split
  · next heq => exact absurd (List.cons.inj heq).1 hslash
  · next heq => exact absurd (List.cons.inj heq).1 hslash
  · next heq =>
    obtain ⟨rfl, rfl⟩ := List.cons.inj heq
    rw [hc, if_neg Bool.false_ne_true]
  · next heq => cases heq

/-- Nothing is skipped where neither white space nor a comment comes first. -/
theorem skipTrivia_of_firm (h : Firm s) : skipTrivia s = s := by
  rw [skipTrivia, scanTrivia_of_firm h]

/-- White space is skipped, character by character. -/
theorem scanTrivia_blank (hc : isBlank c = true) : scanTrivia (c :: s) = scanTrivia s := by
  have hslash : c ≠ '/' := by
    rintro rfl
    exact absurd hc (by decide)
  rw [scanTrivia.eq_def]
  split
  · next heq => exact absurd (List.cons.inj heq).1 hslash
  · next heq => exact absurd (List.cons.inj heq).1 hslash
  · next heq =>
    obtain ⟨rfl, rfl⟩ := List.cons.inj heq
    rw [hc, if_pos rfl]
  · next heq => cases heq

@[simp] theorem scanTrivia_space (s : List Char) : scanTrivia (' ' :: s) = scanTrivia s :=
  scanTrivia_blank rfl

@[simp] theorem skipTrivia_space (s : List Char) : skipTrivia (' ' :: s) = skipTrivia s := by
  rw [skipTrivia, scanTrivia_space, skipTrivia]

/-- Nothing is skipped before a character that starts neither white space nor a comment. -/
theorem skipTrivia_cons (hc : isBlank c = false) (hslash : c ≠ '/') (s : List Char) :
    skipTrivia (c :: s) = c :: s :=
  skipTrivia_of_firm ⟨c, s, rfl, hc, hslash⟩

/-- Before such a character a space is skipped. -/
theorem skipTrivia_spaced (hc : isBlank c = false) (hslash : c ≠ '/') (s : List Char) :
    skipTrivia (' ' :: c :: s) = c :: s :=
  (skipTrivia_space _).trans (skipTrivia_cons hc hslash s)

end

/-! ## Names and words -/

/-- An ASCII character of an identifier. -/
def isNameChar (c : Char) : Bool := c.isAlphanum || c == '-' || c == '_'

/-- An identifier. -/
structure IsIdentifier (name : String) : Prop where
  ne_nil : name.toList ≠ []
  chars : ∀ c ∈ name.toList, isIdentChar c = true

instance (name : String) : Decidable (IsIdentifier name) :=
  decidable_of_iff (name.toList ≠ [] ∧ name.toList.all isIdentChar = true)
    ⟨fun h => ⟨h.1, List.all_eq_true.1 h.2⟩, fun h => ⟨h.ne_nil, List.all_eq_true.2 h.chars⟩⟩

/-- An identifier of ASCII characters. -/
structure IsName (name : String) : Prop where
  ne_nil : name.toList ≠ []
  ascii : ∀ c ∈ name.toList, isNameChar c = true

/-- An identifier of ASCII characters that starts with a letter. -/
structure IsKeyword (name : String) : Prop extends IsName name where
  letter : ∀ c ∈ name.toList.head?, c.isAlpha = true

instance (name : String) : Decidable (IsName name) :=
  decidable_of_iff (name.toList ≠ [] ∧ name.toList.all isNameChar = true)
    ⟨fun h => ⟨h.1, List.all_eq_true.1 h.2⟩, fun h => ⟨h.ne_nil, List.all_eq_true.2 h.ascii⟩⟩

instance (name : String) : Decidable (IsKeyword name) :=
  decidable_of_iff (IsName name ∧ name.toList.head?.all Char.isAlpha = true)
    ⟨fun h => ⟨h.1, (Option.all_eq_true _ _).1 h.2⟩,
      fun h => ⟨h.toIsName, (Option.all_eq_true _ _).2 h.letter⟩⟩

/-- A text that does not go on with an identifier. -/
def EndsName (s : List Char) : Prop := ∀ c ∈ s.head?, isIdentChar c = false

/-- A character that no identifier has ends a name. -/
theorem endsName_cons {c : Char} (hc : isIdentChar c = false) (s : List Char) :
    EndsName (c :: s) := by
  rintro _ ⟨⟩
  exact hc

/-- A space ends a name. -/
theorem endsName_space (s : List Char) : EndsName (' ' :: s) := endsName_cons rfl s

/-- Letters of ASCII are between `A` and `z`. -/
theorem toNat_of_isAlpha {c : Char} (h : c.isAlpha = true) : 65 ≤ c.toNat ∧ c.toNat ≤ 122 := by
  have hcases : c.isUpper = true ∨ c.isLower = true := Bool.or_eq_true_iff.1 h
  rcases hcases with hupper | hlower
  · have hbounds : 65 ≤ c.toNat ∧ c.toNat ≤ 90 := of_decide_eq_true hupper
    omega
  · have hbounds : 97 ≤ c.toNat ∧ c.toNat ≤ 122 :=
      (Bool.and_eq_true_iff.1 hlower).imp of_decide_eq_true of_decide_eq_true
    omega

/-- Digits of ASCII are between `0` and `9`. -/
theorem toNat_of_isDigit {c : Char} (h : c.isDigit = true) : 48 ≤ c.toNat ∧ c.toNat ≤ 57 :=
  (Bool.and_eq_true_iff.1 h).imp of_decide_eq_true of_decide_eq_true

/-- A letter of ASCII is a letter. -/
theorem isLetter_of_isAlpha {c : Char} (h : c.isAlpha = true) : isLetter c = true := by
  have hascii : c.toNat < 128 := Nat.lt_of_le_of_lt (toNat_of_isAlpha h).2 (by decide)
  rw [isLetter, isSettledLetter, classify, if_pos hascii, h, Bool.true_or]

/-- The characters of names are characters of identifiers. -/
theorem isIdentChar_of_isNameChar {c : Char} (h : isNameChar c = true) : isIdentChar c = true := by
  simp only [isNameChar, Char.isAlphanum, Bool.or_eq_true, beq_iff_eq] at h
  rcases h with ((h | h) | rfl) | rfl
  · rw [isIdentChar, isLetter_of_isAlpha h]
    rfl
  · have hascii : c.toNat < 128 := Nat.lt_of_le_of_lt (toNat_of_isDigit h).2 (by decide)
    have hdigit : isDecimalDigit c = true := by rw [isDecimalDigit, classify, if_pos hascii, h]
    simp only [isIdentChar, isNumeral, hdigit, Bool.true_or, Bool.or_true]
  · decide
  · decide

/-- The printable characters of ASCII are no white space. -/
theorem isBlank_of_toNat {c : Char} (hlow : 32 < c.toNat) (hhigh : c.toNat < 128) :
    isBlank c = false := by
  have hspace : c ≠ ' ' := by
    rintro rfl
    exact absurd hlow (by decide)
  rw [isBlank, classify, if_pos hhigh]
  simp only [Bool.or_eq_false_iff, beq_eq_false_iff_ne, Bool.and_eq_false_iff,
    decide_eq_false_iff_not]
  exact ⟨hspace, .inr (by omega)⟩

/-- No character of a name is white space. -/
theorem isBlank_of_isNameChar {c : Char} (h : isNameChar c = true) : isBlank c = false := by
  simp only [isNameChar, Char.isAlphanum, Bool.or_eq_true, beq_iff_eq] at h
  rcases h with ((h | h) | rfl) | rfl
  · have := toNat_of_isAlpha h
    exact isBlank_of_toNat (by omega) (by omega)
  · have := toNat_of_isDigit h
    exact isBlank_of_toNat (by omega) (by omega)
  · decide
  · decide

/-- A letter is no white space. -/
theorem isBlank_of_isAlpha {c : Char} (h : c.isAlpha = true) : isBlank c = false := by
  have := toNat_of_isAlpha h
  exact isBlank_of_toNat (by omega) (by omega)

/-- A letter is no digit. -/
theorem isDecimalDigit_of_isAlpha {c : Char} (h : c.isAlpha = true) : isDecimalDigit c = false := by
  obtain ⟨hlow, hhigh⟩ := toNat_of_isAlpha h
  rw [isDecimalDigit, classify, if_pos (by omega)]
  refine Bool.eq_false_iff.2 fun hdigit => ?_
  have := (toNat_of_isDigit hdigit).2
  omega

/-- A name of ASCII characters is an identifier. -/
theorem IsName.isIdentifier {name : String} (h : IsName name) : IsIdentifier name :=
  ⟨h.ne_nil, fun c hc => isIdentChar_of_isNameChar (h.ascii c hc)⟩

/-- An identifier is read up to where it ends. -/
theorem identifier_read {name : String} {s : List Char} (hname : IsIdentifier name)
    (hs : EndsName s) : identifier (name.toList ++ s) = (name.toList, s) := by
  rw [identifier, List.takeWhile_append_of_pos hname.chars,
    List.dropWhile_append_of_pos hname.chars]
  cases s with
  | nil => simp
  | cons c r => simp [hs c rfl]

/-- A name of ASCII characters is read up to where it ends. -/
theorem identifier_name {name : String} {s : List Char} (hname : IsName name) (hs : EndsName s) :
    identifier (name.toList ++ s) = (name.toList, s) := identifier_read hname.isIdentifier hs

/-- A text that starts with a word goes on with the rest. -/
theorem strip?_self (word s : List Char) : strip? word (word ++ s) = some s := by
  induction word with
  | nil => rw [strip?, List.nil_append]
  | cons w word ih => rw [List.cons_append, strip?, if_pos rfl, ih]

/-- A keyword is found where it stands and does not go on. -/
theorem keyword?_self {word s : List Char} (hs : EndsName s) :
    keyword? word (word ++ s) = some s := by
  have hend : s.head?.any isIdentChar = false := by
    cases s with
    | nil => rfl
    | cons c r => exact hs c rfl
  rw [keyword?, strip?_self, Option.filter_some, hend]
  rfl

/-- A keyword is not found where another character stands. -/
theorem keyword?_of_ne {w c : Char} (h : w ≠ c) (word s : List Char) :
    keyword? (w :: word) (c :: s) = none := by
  rw [keyword?, strip?, if_neg h]
  rfl

/-- A text that goes on neither with an identifier nor with the parenthesis of a function. -/
structure EndsWord (s : List Char) : Prop where
  name : EndsName s
  paren : s.head? ≠ some '('

/-- Variables, and keywords that start with a letter. -/
inductive IsWord : Expr → Prop where
  | ref {name : String} : IsName name → IsWord (.ref name)
  | keyword {name : String} : IsKeyword name → IsWord (.keyword name)

/-- A word as it is written. -/
def wordText : Expr → List Char
  | .ref name => '@' :: name.toList
  | .keyword name => name.toList
  | _ => []

/-- A keyword starts with a letter. -/
theorem IsKeyword.cons {name : String} (h : IsKeyword name) :
    ∃ c r, name.toList = c :: r ∧ c.isAlpha = true := by
  cases hlist : name.toList with
  | nil => exact absurd hlist h.ne_nil
  | cons c r => exact ⟨c, r, rfl, h.letter c (by rw [hlist]; rfl)⟩

/-- A text without certain characters starts with another and goes on without them. -/
theorem not_mem_of_cons {chars text : List Char} {c : Char} (h : ∀ d ∈ chars, d ∉ c :: text) :
    (∀ d ∈ chars, c ≠ d) ∧ ∀ d ∈ chars, d ∉ text :=
  ⟨fun d hd heq => h d hd (heq ▸ List.mem_cons_self),
    fun d hd hmem => h d hd (List.mem_cons_of_mem c hmem)⟩

/-- The other characters are in no word. -/
theorem not_mem_wordText {e : Expr} {c : Char} (he : IsWord e) (hc : isNameChar c = false)
    (hat : c ≠ '@') : c ∉ wordText e := by
  have hname : ∀ name, IsName name → c ∉ name.toList := fun name h hmem =>
    Bool.false_ne_true (hc.symm.trans (h.ascii c hmem))
  cases he with
  | @ref name h => exact List.not_mem_cons_of_ne_of_not_mem hat (hname name h)
  | @keyword name h => exact hname name h.toIsName

section
variable {L : Level} {e : Expr} {name : String} {s : List Char}

/-- A variable is read as a reference to it. -/
theorem term_identifier (hname : IsIdentifier name) (hs : EndsName s) :
    term L ('@' :: (name.toList ++ s)) = .ok (.ref name, s) := by
  simp only [term, identifier_read hname hs]
  cases hlist : name.toList with
  | nil => exact absurd hlist hname.ne_nil
  | cons c r =>
    simp only [← hlist]
    rw [String.ofList_toList]

/-- A variable with a name of ASCII characters is read as a reference to it. -/
theorem term_ref (hname : IsName name) (hs : EndsName s) :
    term L ('@' :: (name.toList ++ s)) = .ok (.ref name, s) := term_identifier hname.isIdentifier hs

/-- A letter is none of the characters that start other terms. -/
theorem ne_of_isAlpha {c d : Char} (hc : c.isAlpha = true) (hd : d.isAlpha = false) : c ≠ d := by
  rintro rfl
  exact Bool.false_ne_true (hd.symm.trans hc)

/-- A letter starts no number. -/
theorem numeral?_of_isAlpha {c : Char} (hc : c.isAlpha = true) (s : List Char) :
    numeral? (c :: s) = none := by
  have hdigit := isDecimalDigit_of_isAlpha hc
  have htake : (c :: s).takeWhile isDecimalDigit = [] :=
    List.takeWhile_cons_of_neg (by simp [hdigit])
  have hdrop : (c :: s).dropWhile isDecimalDigit = c :: s :=
    List.dropWhile_cons_of_neg (by simp [hdigit])
  unfold numeral?
  split
  · next heq => exact absurd (List.cons.inj heq).1 (ne_of_isAlpha hc rfl)
  · simp only [unsignedNumeral?, htake, hdrop]
    split
    · next heq => exact absurd (List.cons.inj heq).1 (ne_of_isAlpha hc rfl)
    · rfl

/-- A keyword is read as one, up to where it ends. -/
theorem plainTerm_keyword (hname : IsKeyword name) (hs : EndsWord s) :
    plainTerm L (name.toList ++ s) = .ok (.keyword name, s) := by
  obtain ⟨c, r, hlist, hc⟩ := hname.cons
  have hstart : (name.toList ++ s).head?.any startsKeyword = true := by
    simp [hlist, startsKeyword, isLetter_of_isAlpha hc]
  have hnumeral : numeral? (name.toList ++ s) = none := by
    rw [hlist]
    exact numeral?_of_isAlpha hc _
  simp only [plainTerm, hnumeral, hstart, if_true, keywordOrFunction,
    identifier_name hname.toIsName hs.name]
  split
  · exact absurd rfl hs.paren
  · rw [String.ofList_toList]

/-- A term that starts with a letter. -/
theorem signedTerm_of_isAlpha {c : Char} (hc : c.isAlpha = true) (s : List Char) :
    signedTerm L (c :: s) = plainTerm L (c :: s) := by
  have hterm : term L (c :: s) = plainTerm L (c :: s) := by
    unfold term
    split
    case h_9 => rfl
    all_goals next heq => exact absurd (List.cons.inj heq).1 (ne_of_isAlpha hc rfl)
  unfold signedTerm
  split
  case h_3 => exact hterm
  all_goals next heq => exact absurd (List.cons.inj heq).1 (ne_of_isAlpha hc rfl)

/-- A word is read from its text. -/
theorem signedTerm_word (he : IsWord e) (hs : EndsWord s) :
    signedTerm L (wordText e ++ s) = .ok (e, s) := by
  cases he with
  | ref h => exact term_ref (L := L) h hs.name
  | @keyword name h =>
    obtain ⟨c, r, hlist, hc⟩ := h.cons
    have hplain := plainTerm_keyword (L := L) h hs
    rw [hlist, List.cons_append] at hplain
    rw [wordText, hlist, List.cons_append, signedTerm_of_isAlpha hc, hplain]

end

/-! ## Operators and their operands -/

section
variable {α : Type} {document : Nat} {operand : Parse α}
  {operator? : List Char → Option ((α → α → α) × List Char)} {f : α → α → α} {a b : α}
  {s r t : List Char}

/-- A chain starts with its first operand. -/
theorem chainLeft_first (h : operand s = .ok (a, r)) :
    chainLeft operand operator? s = loop (chaining operand operator?) a r := by
  rw [chainLeft_eq, bind_of_ok h]

/-- A chain ends where no operator follows. -/
theorem chain_end (hrep : Repetition (unbounded document) (chaining operand operator?))
    (h : operator? s = none) : loop (chaining operand operator?) a s = .ok (a, s) := by
  have hround : chaining operand operator? a s = .ok (.inr a, s) := by rw [chaining, h]
  rw [hrep.loop_eq, bind_of_ok hround]
  rfl

/-- A chain goes on with an operator and its right operand. -/
theorem chain_next (hrep : Repetition (unbounded document) (chaining operand operator?))
    (h : operator? s = some (f, r)) (hr : operand r = .ok (b, t)) :
    loop (chaining operand operator?) a s = loop (chaining operand operator?) (f a b) t := by
  have hround : chaining operand operator? a s = .ok (.inl (f a b), t) := by
    rw [chaining, h]
    exact map_of_ok _ hr
  rw [hrep.loop_eq, bind_of_ok hround]
  rfl

/-- Where the first operand comes to the same on two texts, so does the whole. -/
theorem chainLeft_congr (h : operand s = operand r) :
    chainLeft operand operator? s = chainLeft operand operator? r := by
  rw [chainLeft_eq]
  simp only [bind, StateT.bind, h]

/-- A single operand is a chain. -/
theorem chainLeft_single (hrep : Repetition (unbounded document) (chaining operand operator?))
    (h : operand s = .ok (a, r)) (hr : operator? r = none) :
    chainLeft operand operator? s = .ok (a, r) := by
  rw [chainLeft_first h, chain_end hrep hr]

end

/-! ## Collecting -/

section
variable {α : Type} {document : Nat} {body : Parse (Option α)} {found : List α} {a : α}
  {s r : List Char}

/-- Collecting stops at a round that finds nothing, with what was found in order. -/
theorem collect_end (hrep : Repetition (unbounded document) (collecting body))
    (h : body s = .ok (none, r)) : loop (collecting body) found s = .ok (found.reverse, r) := by
  have hround : collecting body found s = .ok (.inr found.reverse, r) := by rw [collecting_apply, h]
  rw [hrep.loop_eq, bind_of_ok hround]
  rfl

/-- Collecting goes on after a round that finds something. -/
theorem collect_next (hrep : Repetition (unbounded document) (collecting body))
    (h : body s = .ok (some a, r)) :
    loop (collecting body) found s = loop (collecting body) (a :: found) r := by
  have hround : collecting body found s = .ok (.inl (a :: found), r) := by rw [collecting_apply, h]
  rw [hrep.loop_eq, bind_of_ok hround]
  rfl

/-- Collecting fails with a round that fails. -/
theorem collect_error {f : Failure} (hrep : Repetition (unbounded document) (collecting body))
    (h : body s = .error f) : loop (collecting body) found s = .error f := by
  have hround : collecting body found s = .error f := by rw [collecting_apply, h]
  rw [hrep.loop_eq, bind_of_error hround]

/-- Where the next round comes to the same on two texts, so does the rest. -/
theorem collecting_congr (hrep : Repetition (unbounded document) (collecting body))
    (h : body s = body r) : loop (collecting body) found s = loop (collecting body) found r := by
  have hround : collecting body found s = collecting body found r := by
    rw [collecting_apply, collecting_apply, h]
  rw [hrep.loop_eq]
  simp only [bind, StateT.bind, hround]

/-- Collecting comes to the same on texts on which the first round does. -/
theorem collect_congr (hrep : Repetition (unbounded document) (collecting body))
    (h : body s = body r) : collect body s = collect body r :=
  collecting_congr hrep h

/-- Items that are written one after the other are collected, if each is read before a text that
satisfies `P`, and the next item is such a text. -/
theorem collect_flatMap (hrep : Repetition (unbounded document) (collecting body))
    (P : List Char → Prop) {t : List Char} (text : α → List Char) (items : List α)
    (hstart : ∀ a ∈ items, ∀ r, P (text a ++ r))
    (hread : ∀ a ∈ items, ∀ r, P r → body (text a ++ r) = .ok (some a, r))
    (hs : P s) (hend : body s = .ok (none, t)) :
    collect body (items.flatMap text ++ s) = .ok (items, t) := by
  suffices h : ∀ found, loop (collecting body) found (items.flatMap text ++ s) =
      .ok (found.reverse ++ items, t) from h []
  intro found
  induction items generalizing found with
  | nil =>
    rw [List.flatMap_nil, List.nil_append, List.append_nil]
    exact collect_end hrep hend
  | cons a rest ih =>
    have hnext : P (rest.flatMap text ++ s) := by
      cases rest with
      | nil => exact hs
      | cons b rest =>
        rw [List.flatMap_cons, List.append_assoc]
        exact hstart b (.tail _ (.head _)) _
    rw [List.flatMap_cons, List.append_assoc,
      collect_next hrep (hread a (.head _) _ hnext),
      ih (fun b hb => hstart b (.tail _ hb)) fun b hb => hread b (.tail _ hb)]
    simp

end

/-! ## Words one after the other -/

/-- A text that begins something else than white space, a comment, an operator, or the end of a
value. -/
def Begins (s : List Char) : Prop :=
  ∃ c r, s = c :: r ∧ isBlank c = false ∧ c ∉ ['/', '*', '+', '-'] ∧ endsValue c = false

/-- A text that begins a word: with neither white space, nor a comment, nor the end of a value. -/
def BeginsWord (s : List Char) : Prop :=
  ∃ c r, s = c :: r ∧ isBlank c = false ∧ c ≠ '/' ∧ endsValue c = false

/-- A text that begins with the end of a value. -/
def EndsValue (s : List Char) : Prop := ∃ c r, s = c :: r ∧ endsValue c = true

/-- A text that goes on neither with a word nor with an operation on it. -/
structure EndsTerm (s : List Char) : Prop extends EndsWord s where
  slash : s.head? ≠ some '/'
  operator : ∀ c ∈ (skipTrivia s).head?, c ∉ ['/', '*', '+', '-']

section
variable {s : List Char}

/-- A parenthesis begins something. -/
theorem begins_paren (s : List Char) : Begins ('(' :: s) := ⟨'(', s, rfl, rfl, by decide, rfl⟩

/-- What follows a text does not change what it begins. -/
theorem Begins.append (h : Begins s) (t : List Char) : Begins (s ++ t) := by
  obtain ⟨c, r, rfl, hc⟩ := h
  exact ⟨c, r ++ t, rfl, hc⟩

/-- What begins something begins a word. -/
theorem Begins.word (h : Begins s) : BeginsWord s := by
  obtain ⟨c, r, rfl, hc, hop, hvalue⟩ := h
  exact ⟨c, r, rfl, hc, fun heq => hop (heq ▸ .head _), hvalue⟩

/-- What follows a text does not change that it begins a word. -/
theorem BeginsWord.append (h : BeginsWord s) (t : List Char) : BeginsWord (s ++ t) := by
  obtain ⟨c, r, rfl, hc⟩ := h
  exact ⟨c, r ++ t, rfl, hc⟩

/-- Neither white space nor a comment begins a word. -/
theorem BeginsWord.firm (h : BeginsWord s) : Firm s := by
  obtain ⟨c, r, rfl, hc, hslash, -⟩ := h
  exact ⟨c, r, rfl, hc, hslash⟩

/-- Neither white space nor a comment begins something else. -/
theorem Begins.firm (h : Begins s) : Firm s := h.word.firm

/-- The end of a value is one of five characters. -/
theorem EndsValue.cases (h : EndsValue s) : ∃ c r, s = c :: r ∧ c ∈ [',', ')', ';', '}', '!'] := by
  obtain ⟨c, r, rfl, hc⟩ := h
  simp only [endsValue, Bool.or_eq_true, beq_iff_eq] at hc
  refine ⟨c, r, rfl, ?_⟩
  rcases hc with (((rfl | rfl) | rfl) | rfl) | rfl <;> decide

/-- The end of a value is neither white space nor a comment. -/
theorem EndsValue.firm (h : EndsValue s) : Firm s := by
  obtain ⟨c, r, rfl, hc⟩ := h.cases
  have hall : ∀ c ∈ [',', ')', ';', '}', '!'], isBlank c = false ∧ c ≠ '/' :=
    List.all_iff_forall_prop.1 (by decide)
  exact ⟨c, r, rfl, hall c hc⟩

/-- The end of a value ends what is in the value. -/
theorem EndsValue.endsTerm (h : EndsValue s) : EndsTerm s := by
  have hskip := skipTrivia_of_firm h.firm
  obtain ⟨c, r, rfl, hc⟩ := h.cases
  have hall : ∀ c ∈ [',', ')', ';', '}', '!'],
      isIdentChar c = false ∧ c ≠ '(' ∧ c ∉ ['/', '*', '+', '-'] :=
    List.all_iff_forall_prop.1 (by decide)
  obtain ⟨hident, hparen, hop⟩ := hall c hc
  refine ⟨⟨fun d hd => ?_, fun heq => hparen (Option.some.inj heq)⟩,
    fun heq => hop (Option.some.inj heq ▸ .head _), fun d hd => ?_⟩
  · cases hd
    exact hident
  · rw [hskip] at hd
    cases hd
    exact hop

/-- A space ends a term if no operator follows it. -/
theorem Begins.endsTerm (h : Begins s) : EndsTerm (' ' :: s) := by
  have hskip := skipTrivia_of_firm h.firm
  obtain ⟨c, r, rfl, -, hop, -⟩ := h
  refine ⟨⟨fun d hd => ?_, by simp⟩, by simp, fun d hd => ?_⟩
  · cases hd
    decide
  · rw [skipTrivia_space, hskip] at hd
    cases hd
    exact hop

/-- A word begins something. -/
theorem wordText_begins {e : Expr} (he : IsWord e) : Begins (wordText e) := by
  cases he with
  | ref _ => exact ⟨_, _, rfl, rfl, by decide, rfl⟩
  | keyword h =>
    obtain ⟨c, r, hlist, hc⟩ := h.cons
    have hne : ∀ d : Char, d.isAlpha = false → (c == d) = false := fun d hd =>
      beq_eq_false_iff_ne.2 (ne_of_isAlpha hc hd)
    refine ⟨c, r, hlist, isBlank_of_isAlpha hc, fun hmem => ?_, ?_⟩
    · have hall : ∀ d ∈ ['/', '*', '+', '-'], d.isAlpha = false :=
        List.all_iff_forall_prop.1 (by decide)
      rw [hall c hmem] at hc
      cases hc
    · simp only [endsValue, hne ',' rfl, hne ')' rfl, hne ';' rfl, hne '}' rfl, hne '!' rfl,
        Bool.or_false]

end

section
variable {document : Nat} {e : Expr} {s r : List Char} {inParens : Bool}

/-- No product follows without a slash or a star. -/
theorem productOperator?_eq_none (h : ∀ c ∈ (skipTrivia s).head?, c ∉ ['/', '*']) :
    productOperator? inParens s = none := by
  unfold productOperator?
  split
  · next heq => exact absurd (by simp) (h '*' (by rw [heq]; rfl))
  · next heq => exact absurd (by simp) (h '/' (by rw [heq]; rfl))
  · rfl

/-- No sum follows without a plus or minus sign. -/
theorem sumOperator?_eq_none (h : ∀ c ∈ (skipTrivia s).head?, c ∉ ['+', '-']) :
    sumOperator? inParens s = none := by
  unfold sumOperator?
  split
  · next heq => exact absurd (by simp) (h '+' (by rw [heq]; rfl))
  · next heq => exact absurd (by simp) (h '-' (by rw [heq]; rfl))
  · rfl

/-- A term without operators around it is a sum. -/
theorem sum_of_signedTerm (h : signedTerm (unbounded document) s = .ok (e, r))
    (hr : ∀ c ∈ (skipTrivia r).head?, c ∉ ['/', '*', '+', '-']) :
    sum (unbounded document) inParens s = .ok (e, r) := by
  have hproduct : productOperator? inParens r = none :=
    productOperator?_eq_none fun c hc hmem => hr c hc (List.mem_append_left ['+', '-'] hmem)
  have hsum : sumOperator? inParens r = none :=
    sumOperator?_eq_none fun c hc hmem => hr c hc (List.mem_append_right ['/', '*'] hmem)
  exact chainLeft_single (.sum inParens) (chainLeft_single (.product inParens) h hproduct) hsum

/-- A word is read as a sum, where nothing goes on with it. -/
theorem sum_word (he : IsWord e) (hs : EndsTerm s) :
    sum (unbounded document) inParens (wordText e ++ s) = .ok (e, s) :=
  sum_of_signedTerm (signedTerm_word he hs.toEndsWord) hs.operator

/-- In parentheses a sum is a term. -/
theorem term_paren (hs : Firm s) (h : sum (unbounded document) true s = .ok (e, ')' :: r)) :
    term (unbounded document) ('(' :: s) = .ok (e, r) := by
  rw [← (unbounded_closed document).sum] at h
  simp only [term, trivia_bind, skipTrivia_of_firm hs]
  rw [bind_of_ok h, trivia_bind, skipTrivia_cons rfl (by decide), expect_bind]
  rfl

/-- A sum without slashes after it. -/
theorem slashList_of_sum (h : sum (unbounded document) inParens s = .ok (e, r))
    (hr : r.head? ≠ some '/') : slashList (unbounded document) inParens s = .ok (e, r) := by
  have hslash : slash? r = none := by
    unfold slash?
    split
    · exact absurd rfl hr
    · rfl
  have hround : separating (sum (unbounded document) inParens) slash? r = .ok (none, r) := by
    rw [separating, hslash]
  have hmore : collect (separating (sum (unbounded document) inParens) slash?) r = .ok ([], r) :=
    collect_end (.slashList inParens) hround
  rw [slashList, map_apply, separated_eq, bind_of_ok h, bind_of_ok hmore]
  rfl

/-- White space before a word is passed over. -/
theorem wordRound_space (L : Level) (inParens : Bool) (s : List Char) :
    wordRound L inParens (' ' :: s) = wordRound L inParens s := by
  rw [wordRound, trivia_bind, trivia_bind, skipTrivia_space]

/-- Where a word begins it is read as sums with slashes between them. -/
theorem wordRound_of_begins {L : Level} (hs : BeginsWord s) :
    wordRound L inParens s = (some <$> slashList L inParens) s := by
  have hskip := skipTrivia_of_firm hs.firm
  obtain ⟨c, t, rfl, -, -, hvalue⟩ := hs
  have hgoes : ¬ (c :: t).head?.all endsValue = true := by simp [hvalue]
  rw [wordRound, trivia_bind, get_bind, hskip, if_neg hgoes]

/-- A sum is a word. -/
theorem wordRound_of_sum (hs : BeginsWord s)
    (h : sum (unbounded document) inParens s = .ok (e, r)) (hr : r.head? ≠ some '/') :
    wordRound (unbounded document) inParens s = .ok (some e, r) := by
  rw [wordRound_of_begins hs]
  exact map_of_ok _ (slashList_of_sum h hr)

/-- The end of a value ends its words. -/
theorem wordRound_end (hs : EndsValue s) :
    wordRound (unbounded document) inParens s = .ok (none, s) := by
  have hskip := skipTrivia_of_firm hs.firm
  obtain ⟨c, r, rfl, hc⟩ := hs
  rw [wordRound, trivia_bind, get_bind, hskip, if_pos (by simpa using hc)]
  rfl

/-- White space before words is passed over. -/
theorem words_space (s : List Char) :
    words (unbounded document) inParens (' ' :: s) = words (unbounded document) inParens s := by
  have hround := wordRound_space (unbounded document) inParens s
  rw [words_eq]
  simp only [bind, StateT.bind, collect_congr (.words inParens) hround]

/-- Sums with spaces between them are a list of words, up to the end of the value. -/
theorem words_items (text : Expr → List Char) {items : List Expr} (hne : items ≠ [])
    (hbegins : ∀ e ∈ items, Begins (text e))
    (hread : ∀ e ∈ items, ∀ r, EndsTerm r →
      sum (unbounded document) inParens (text e ++ r) = .ok (e, r)) (hs : EndsValue s) :
    words (unbounded document) inParens ([' '].intercalate (items.map text) ++ s) =
      .ok (listOf .space items, s) := by
  have hround : ∀ e ∈ items, ∀ r, EndsTerm r →
      wordRound (unbounded document) inParens (text e ++ r) = .ok (some e, r) := fun e he r hr =>
    wordRound_of_sum ((hbegins e he).append r).word (hread e he r hr) hr.slash
  have hspace := wordRound_space (unbounded document) inParens
  cases items with
  | nil => exact absurd rfl hne
  | cons e rest =>
    have hcollect : collect (wordRound (unbounded document) inParens)
        ([' '].intercalate ((e :: rest).map text) ++ s) = .ok (e :: rest, s) := by
      have hall := collect_flatMap (.words inParens) EndsTerm (fun e => ' ' :: text e) (e :: rest)
        (fun a ha r => ((hbegins a ha).append r).endsTerm)
        (fun a ha r hr => (hspace _).trans (hround a ha r hr)) hs.endsTerm (wordRound_end hs)
      rw [← collect_congr (.words inParens) (hspace _)]
      simpa [intercalate_cons, List.flatMap_map] using hall
    rw [words_eq, bind_of_ok hcollect]
    rfl

/-- No comma follows where the value ends with another sign. -/
theorem comma?_eq_none (h : EndsValue s) (hcomma : s.head? ≠ some ',') : comma? s = none := by
  unfold comma?
  rw [skipTrivia_of_firm h.firm]
  split
  · exact absurd rfl hcomma
  · rfl

/-- Lists of words with commas between them are a value. -/
theorem value_items (text : Expr → List Char) {items : List Expr} (hne : items ≠ [])
    (hread : ∀ e ∈ items, ∀ r, EndsValue r →
      words (unbounded document) false (text e ++ r) = .ok (e, r)) (hs : EndsValue s)
    (hcomma : s.head? ≠ some ',') :
    value (unbounded document) true ([',', ' '].intercalate (items.map text) ++ s) =
      .ok (listOf .comma items, s) := by
  have hround : ∀ e ∈ items, ∀ r, EndsValue r →
      separating (words (unbounded document) false) comma? ([',', ' '] ++ text e ++ r) =
        .ok (some e, r) := by
    intro e he r hr
    have hfound : comma? ([',', ' '] ++ text e ++ r) = some (' ' :: (text e ++ r)) := by
      rw [comma?, List.append_assoc, List.cons_append, skipTrivia_cons rfl (by decide)]
      rfl
    rw [separating, hfound]
    refine map_of_ok _ ?_
    rw [words_space, hread e he r hr]
  have hend : separating (words (unbounded document) false) comma? s = .ok (none, s) := by
    rw [separating, comma?_eq_none hs hcomma]
  have hstart : ∀ e ∈ items, ∀ r, EndsValue ([',', ' '] ++ text e ++ r) := fun e _ r =>
    ⟨',', _, rfl, rfl⟩
  cases items with
  | nil => exact absurd rfl hne
  | cons e rest =>
    have hmore : EndsValue (rest.flatMap (fun e => [',', ' '] ++ text e) ++ s) := by
      cases rest with
      | nil => exact hs
      | cons b rest =>
        rw [List.flatMap_cons, List.append_assoc]
        exact hstart b (.tail _ (.head _)) _
    have hcollect := collect_flatMap .value EndsValue _ rest
      (fun a ha => hstart a (.tail _ ha)) (fun a ha => hround a (.tail _ ha)) hs hend
    rw [value, if_pos rfl, map_apply, List.map_cons, intercalate_cons, List.flatMap_map,
      List.append_assoc, separated_eq, bind_of_ok (hread e (.head _) _ hmore),
      bind_of_ok hcollect]
    rfl

/-- A sum by itself is a list of words. -/
theorem words_of_sum {text : List Char} (hbegins : Begins text)
    (hread : ∀ r, EndsTerm r → sum (unbounded document) inParens (text ++ r) = .ok (e, r))
    (hs : EndsValue s) : words (unbounded document) inParens (text ++ s) = .ok (e, s) := by
  simpa [listOf] using
    words_items (fun _ => text) (List.cons_ne_nil e []) (by simpa) (by simpa) hs

/-- A list of words by itself is a value. -/
theorem value_of_words {text : List Char}
    (hread : ∀ r, EndsValue r → words (unbounded document) false (text ++ r) = .ok (e, r))
    (hs : EndsValue s) (hcomma : s.head? ≠ some ',') :
    value (unbounded document) true (text ++ s) = .ok (e, s) := by
  simpa [listOf] using value_items (fun _ => text) (List.cons_ne_nil e []) (by simpa) hs hcomma

/-- A term by itself is a value. -/
theorem value_of_signedTerm {text : List Char} (hbegins : Begins text)
    (hread : ∀ r, EndsTerm r → signedTerm (unbounded document) (text ++ r) = .ok (e, r))
    (hs : EndsValue s) (hcomma : s.head? ≠ some ',') :
    value (unbounded document) true (text ++ s) = .ok (e, s) := by
  have hsum : ∀ r, EndsTerm r → sum (unbounded document) false (text ++ r) = .ok (e, r) :=
    fun r hr => sum_of_signedTerm (hread r hr) hr.operator
  exact value_of_words (fun r => words_of_sum hbegins hsum) hs hcomma

end

/-! ## A source of one statement -/

section
variable {name : String} {s : List Char}

/-- A variable or at-rule has its name up to where it ends. -/
theorem atName?_name (hname : IsName name) (hs : EndsName s) :
    atName? ('@' :: (name.toList ++ s)) = some (name.toList, s) := by
  simp only [atName?, identifier_name hname hs]
  cases hlist : name.toList with
  | nil => exact absurd hlist hname.ne_nil
  | cons c r => rfl

/-- A letter is no `@`. -/
theorem atName?_of_isAlpha {c : Char} (hc : c.isAlpha = true) (s : List Char) :
    atName? (c :: s) = none := by
  unfold atName?
  split
  · next heq => exact absurd (List.cons.inj heq).1 (ne_of_isAlpha hc rfl)
  · rfl

/-- A name and a colon start an assignment. -/
theorem assignHead?_name (hname : IsName name) :
    assignHead? ('@' :: (name.toList ++ ':' :: s)) = some (name, s) := by
  have hcolon : skipBlank (':' :: s) = ':' :: s := List.dropWhile_cons_of_neg (by decide)
  have hends : EndsName (':' :: s) := endsName_cons rfl s
  simp only [assignHead?, atName?_name hname hends, hcolon, String.ofList_toList]

end

/-- The name of a class or an id, of ASCII characters. -/
structure IsSegment (segment : String) : Prop where
  mark : segment.toList.head? = some '.' ∨ segment.toList.head? = some '#'
  name : IsName (String.ofList segment.toList.tail)

instance (segment : String) : Decidable (IsSegment segment) :=
  decidable_of_iff ((segment.toList.head? = some '.' ∨ segment.toList.head? = some '#') ∧
    IsName (String.ofList segment.toList.tail)) ⟨fun h => ⟨h.1, h.2⟩, fun h => ⟨h.mark, h.name⟩⟩

/-- A segment is its mark and a name. -/
theorem IsSegment.cons {segment : String} (h : IsSegment segment) :
    ∃ c name, (c = '.' ∨ c = '#') ∧ IsName name ∧ segment.toList = c :: name.toList := by
  obtain ⟨hmark, hname⟩ := h
  cases hlist : segment.toList with
  | nil => simp [hlist] at hmark
  | cons c r =>
    rw [hlist] at hmark hname
    exact ⟨c, String.ofList r, by simpa using hmark, hname, by simp⟩

section
variable {document : Nat} {segment : String} {s : List Char}

/-- A segment is read up to where its name ends. -/
theorem segment?_segment (h : IsSegment segment) (hs : EndsName s) :
    segment? (segment.toList ++ s) = some (segment, s) := by
  obtain ⟨c, name, hc, hname, hlist⟩ := h.cons
  have hmark : (c = '.' ∨ c = '#') = True := eq_true hc
  rw [hlist, List.cons_append]
  simp only [segment?, Bool.or_eq_true, decide_eq_true_eq, hmark, if_true,
    identifier_name hname hs]
  rw [← String.ofList_toList (s := segment), hlist]
  cases hnil : name.toList with
  | nil => exact absurd hnil hname.ne_nil
  | cons d r => rfl

/-- A segment begins with neither white space nor a comment. -/
theorem IsSegment.firm (h : IsSegment segment) : Firm (segment.toList ++ s) := by
  obtain ⟨c, name, hc, -, hlist⟩ := h.cons
  rw [hlist]
  refine ⟨c, _, rfl, ?_⟩
  rcases hc with rfl | rfl <;> decide

/-- A segment is no variable and no at-rule. -/
theorem IsSegment.atName? (h : IsSegment segment) : atName? (segment.toList ++ s) = none := by
  obtain ⟨c, name, rfl | rfl, -, hlist⟩ := h.cons <;> rw [hlist] <;> rfl

/-- A segment is no import. -/
theorem IsSegment.importHead? (h : IsSegment segment) :
    importHead? (segment.toList ++ s) = none := by
  simp only [Grammar.importHead?, h.atName?]

/-- A statement that starts with a class or an id has no `@` of its own. -/
theorem IsSegment.item (h : IsSegment segment) (L : Level) (leading : List String) :
    item L leading (segment.toList ++ s) = plainItem L leading (segment.toList ++ s) := by
  simp [Grammar.item, assignHead?, Grammar.importHead?, detachedHead?, atRuleHead?, h.atName?]

end

section
variable {L : Level} {segment : String} {x : Item} {s r : List Char}

/-- Where no comment comes first, there are no leading comments. -/
theorem leadingComments_of_firm (hs : Firm s) : leadingComments s = .ok ([], s) := by
  rw [leadingComments, scanTrivia_of_firm hs]
  rfl

/-- White space before a statement is passed over. -/
theorem statementRound_space (L : Level) (s : List Char) :
    statementRound L (' ' :: s) = statementRound L s := by
  have hleading : leadingComments (' ' :: s) = leadingComments s := by
    rw [leadingComments, leadingComments, scanTrivia_space]
  simp only [statementRound, bind, StateT.bind, hleading]

/-- A closing brace ends a block. -/
theorem statementRound_close (L : Level) (s : List Char) :
    statementRound L ('}' :: s) = .ok (none, s) := by
  rw [statementRound, bind_of_ok (leadingComments_of_firm ⟨'}', s, rfl, rfl, by decide⟩)]
  rfl

/-- Where a class or an id begins, a block goes on with a statement. -/
theorem IsSegment.statementRound_eq (h : IsSegment segment) (L : Level) (s : List Char) :
    Grammar.statementRound L (segment.toList ++ s) =
      (some <$> Grammar.item L []) (segment.toList ++ s) := by
  have hfirm := h.firm (s := s)
  obtain ⟨c, name, hc, -, hlist⟩ := h.cons
  rw [hlist] at hfirm ⊢
  rw [Grammar.statementRound, bind_of_ok (leadingComments_of_firm hfirm)]
  rcases hc with rfl | rfl <;> rfl

/-- A statement that starts with a segment is read as an item. -/
theorem IsSegment.statementRound (h : IsSegment segment)
    (hitem : Grammar.item L [] (segment.toList ++ s) = .ok (x, r)) :
    statementRound L (segment.toList ++ s) = .ok (some x, r) :=
  (h.statementRound_eq L s).trans (map_of_ok _ hitem)

/-- At the top level, a statement without comments before it is read at once. -/
theorem topItem_of_firm (L : Level) (hs : Firm s) :
    topItem L s = (some <$> topStatement L []) s := by
  have hne : ¬ s.isEmpty = true := by
    obtain ⟨c, t, rfl, -⟩ := hs
    simp
  rw [topItem_eq, skipTrivia_of_firm hs, scanTrivia_of_firm hs, if_neg hne]
  rfl

end

/-- A source that is one statement. -/
theorem parse_statement {document : Nat} {x : String ⊕ Item} {s r : List Char} (hs : Firm s)
    (h : topStatement (unbounded document) [] s = .ok (x, r)) (hr : skipTrivia r = []) :
    Stylesheet.parse (String.ofList s) document =
      .ok ⟨[x].filterMap Sum.getLeft?, [x].filterMap Sum.getRight?⟩ := by
  have hfirst : topItem (unbounded document) s = .ok (some x, r) := by
    rw [topItem_of_firm _ hs]
    exact map_of_ok _ h
  have hlast : topItem (unbounded document) r = .ok (none, []) := by
    rw [topItem_eq, hr]
    rfl
  have hitems : collect (topItem (unbounded document)) s = .ok ([x], []) := by
    rw [collect_eq, collect_next .stylesheet hfirst, collect_end .stylesheet hlast]
    rfl
  rw [parse_eq_unbounded, String.toList_ofList, stylesheet, bind_of_ok hitems]
  rfl

/-- A source that is one statement other than an import. -/
theorem parse_single {document : Nat} {x : Item} {s r : List Char} (hs : Firm s)
    (himport : importHead? s = none) (h : item (unbounded document) [] s = .ok (x, r))
    (hr : skipTrivia r = []) :
    Stylesheet.parse (String.ofList s) document = .ok ⟨[], [x]⟩ := by
  have hstatement : topStatement (unbounded document) [] s = .ok (.inr x, r) := by
    rw [topStatement, himport]
    exact map_of_ok _ h
  exact parse_statement hs hstatement hr

end LessSheet.Grammar
