import LessSheet.Proofs.Grammar.Productions
import Mathlib.Data.String.Basic

/-! # Every text is read to an end

The grammar is bounded in two ways: `level` by a number of brackets inside each other, and `iterate`
by a text. Neither bound is ever what ends a parser. The next level is only entered on a shorter
text, so the productions inside brackets are the one solution of their own equations
(`unbounded_closed`, `Level.Closed.eq_unbounded`), and this solution is what `Stylesheet.parse`
computes. A round of a repetition that asks for another has taken a character.

On the way, all that is left anywhere is a suffix of the source. It starts at a boundary between two
characters (`place_boundary`), and so does what is left where a fault is noticed.
-/

namespace LessSheet.Grammar

/-! ## The levels without a bound -/

/-- The productions inside brackets are those of the grammar, with the level itself for what is
inside further brackets. -/
structure Level.Closed (L : Level) : Prop where
  block : L.block = Grammar.block L
  sum : L.sum = Grammar.sum L true
  words : L.words = Grammar.words L true
  guard : L.guard = Grammar.guard L

/-- The productions inside brackets, with as many levels for each text as it has characters. -/
def unbounded (document : Nat) : Level where
  document := document
  block := fun s => block (level document s.length) s
  sum := fun s => sum (level document s.length) true s
  words := fun s => words (level document s.length) true s
  guard := fun s => guard (level document s.length) s

/-- No text is shorter than nothing. -/
theorem Level.Accord.zero {L L' : Level} (h : L'.document = L.document) : L.Accord 0 L' := by
  refine ⟨h, ?_, ?_, ?_, ?_⟩ <;> exact fun s hs => absurd hs (Nat.not_lt_zero _)

section
variable (document : Nat)

@[simp] theorem level_document (d : Nat) : (level document d).document = document := by
  cases d <;> rfl

/-- One level more reads what is inside brackets by the grammar, with the levels below. -/
theorem level_succ (d : Nat) : level document (d + 1) =
    ⟨document, block (level document d), sum (level document d) true,
      words (level document d) true, guard (level document d)⟩ := by
  rw [level]

/-- The next level accords on texts that are longer by a character. -/
theorem level_accord_succ {n d d' : Nat} (h : (level document d).Accord n (level document d')) :
    (level document (d + 1)).Accord (n + 1) (level document (d' + 1)) := by
  rw [level_succ, level_succ]
  exact ⟨rfl, block_accord h, sum_accord h true, words_accord h true, guard_accord h⟩

/-- Levels accord up to the smaller of their depths. -/
theorem level_accord {n d d' : Nat} (hd : n ≤ d) (hd' : n ≤ d') :
    (level document d).Accord n (level document d') := by
  induction n generalizing d d' with
  | zero => exact .zero (by simp)
  | succ n ih =>
    obtain ⟨d, rfl⟩ := Nat.exists_eq_add_of_le' hd
    obtain ⟨d', rfl⟩ := Nat.exists_eq_add_of_le' hd'
    exact level_accord_succ document (ih (Nat.le_add_left n d) (Nat.le_add_left n d'))

/-- A level accords with the productions without a bound up to its depth. -/
theorem level_accord_unbounded (n : Nat) : (level document n).Accord n (unbounded document) := by
  cases n with
  | zero => exact .zero rfl
  | succ n =>
    have h : ∀ s : List Char, s.length < n + 1 →
        (level document n).Accord s.length (level document s.length) := fun s hs =>
      level_accord document (Nat.le_of_lt_succ hs) (Nat.le_refl _)
    rw [level_succ]
    exact ⟨rfl, fun s hs => block_accord (h s hs) s (Nat.lt_succ_self _),
      fun s hs => sum_accord (h s hs) true s (Nat.lt_succ_self _),
      fun s hs => words_accord (h s hs) true s (Nat.lt_succ_self _),
      fun s hs => guard_accord (h s hs) s (Nat.lt_succ_self _)⟩

/-- The levels without a bound accord with themselves on every text. -/
theorem unbounded_accord (n : Nat) : (unbounded document).Accord n (unbounded document) :=
  have h := level_accord_unbounded document n
  ⟨rfl, h.block.right, h.sum.right, h.words.right, h.guard.right⟩

/-- There are productions inside brackets without a bound. -/
theorem unbounded_closed : (unbounded document).Closed := by
  have h := fun s : List Char => level_accord_unbounded document s.length
  exact ⟨funext fun s => (block_accord (h s) s (Nat.lt_succ_self _)).1.symm,
    funext fun s => (sum_accord (h s) true s (Nat.lt_succ_self _)).1.symm,
    funext fun s => (words_accord (h s) true s (Nat.lt_succ_self _)).1.symm,
    funext fun s => (guard_accord (h s) s (Nat.lt_succ_self _)).1.symm⟩

variable {document}

/-- There are no others. -/
theorem Level.Closed.accord_unbounded {L : Level} (hL : L.Closed)
    (hdocument : L.document = document) (n : Nat) : (unbounded document).Accord n L := by
  have hclosed := unbounded_closed document
  induction n with
  | zero => exact .zero hdocument
  | succ n ih =>
    refine ⟨hdocument, ?_, ?_, ?_, ?_⟩
    · rw [hL.block, hclosed.block]
      exact block_accord ih
    · rw [hL.sum, hclosed.sum]
      exact sum_accord ih true
    · rw [hL.words, hclosed.words]
      exact words_accord ih true
    · rw [hL.guard, hclosed.guard]
      exact guard_accord ih

/-- A level that is closed under the grammar is the one without a bound. -/
theorem Level.Closed.eq_unbounded {L : Level} (hL : L.Closed) (hdocument : L.document = document) :
    L = unbounded document := by
  have h := hL.accord_unbounded hdocument
  have hblock : L.block = (unbounded document).block :=
    funext fun s => ((h (s.length + 1)).block s (Nat.lt_succ_self _)).1
  have hsum : L.sum = (unbounded document).sum :=
    funext fun s => ((h (s.length + 1)).sum s (Nat.lt_succ_self _)).1
  have hwords : L.words = (unbounded document).words :=
    funext fun s => ((h (s.length + 1)).words s (Nat.lt_succ_self _)).1
  have hguard : L.guard = (unbounded document).guard :=
    funext fun s => ((h (s.length + 1)).guard s (Nat.lt_succ_self _)).1
  cases L
  exact Level.mk.injEq .. ▸ ⟨hdocument, hblock, hsum, hwords, hguard⟩

end

/-! ## Places in a source -/

/-- The place where a text is left, as an offset in bytes. -/
def place (source : String) (rest : List Char) : String.Pos.Raw :=
  ⟨byteLength source.toList - byteLength rest⟩

/-- A boundary between two characters of a source, or one of its ends. -/
structure Boundary (source : String) (p : String.Pos.Raw) : Prop where
  valid : p.IsValid source
  le : p.byteIdx ≤ source.utf8ByteSize

/-- `t` is the part of a source from one boundary to another. -/
structure Cut (source : String) (start stop : String.Pos.Raw) (t : List Char) : Prop where
  from_boundary : Boundary source start
  to_boundary : Boundary source stop
  text : String.Pos.Raw.extract source start stop = String.ofList t

/-- The length of a text in bytes is its length in UTF-8. -/
theorem byteLength_eq (s : List Char) : byteLength s = String.utf8Len s := by
  induction s with
  | nil => rfl
  | cons c r ih => rw [byteLength, ih, String.utf8Len_cons, Nat.add_comm]

/-- The place after the characters that have been read. -/
theorem place_eq {source : String} {read rest : List Char} (h : read ++ rest = source.toList) :
    place source rest = (String.ofList read).rawEndPos := by
  rw [place, ← h, String.rawEndPos_ofList, byteLength_eq, byteLength_eq, String.utf8Len_append,
    Nat.add_sub_cancel]

/-- What is left of a source starts at a boundary. -/
theorem place_boundary {source : String} {rest : List Char} (h : rest <:+ source.toList) :
    Boundary source (place source rest) := by
  obtain ⟨read, h⟩ := h
  have hvalid : (place source rest).IsValid source := by
    rw [String.Pos.Raw.isValid_iff_exists_append]
    refine ⟨String.ofList read, String.ofList rest, ?_, place_eq h⟩
    rw [← String.ofList_append, h, String.ofList_toList]
  exact ⟨hvalid, String.Pos.Raw.le_iff.1 hvalid.le_rawEndPos⟩

/-- A slice of a text that starts at a boundary is a part of the source between two. -/
theorem Slice.cut {source : String} {t rest s : List Char} (h : Slice t rest s)
    (hs : s <:+ source.toList) : ∃ start stop, Cut source start stop t := by
  obtain ⟨before, after, hcut⟩ := h.of_suffix hs
  have hstop : (before ++ t) ++ (after ++ rest) = source.toList := by simpa using hcut
  refine ⟨place source (t ++ (after ++ rest)), place source (after ++ rest),
    place_boundary ⟨before, hcut⟩, place_boundary ⟨before ++ t, hstop⟩, ?_⟩
  have hsource : source = String.ofList (before ++ t ++ (after ++ rest)) := by
    rw [hstop, String.ofList_toList]
  rw [place_eq hcut, place_eq hstop, String.rawEndPos_ofList, String.rawEndPos_ofList,
    String.utf8Len_append, hsource]
  exact String.extract_of_valid before t (after ++ rest)

/-! ## Whole texts -/

/-- A source is read by the productions without a bound. -/
theorem parse_eq_unbounded (source : String) (document : Nat) :
    Stylesheet.parse source document =
      match stylesheet (unbounded document) source.toList with
      | .ok (sheet, _) => .ok sheet
      | .error f => .error ⟨f.cause, (place source f.rest).byteIdx⟩ := by
  have h := level_accord_unbounded document source.toList.length
  have heq := (stylesheet_accord h source.toList (Nat.lt_succ_self _)).1
  rw [heq]
  rfl

section
variable {document : Nat}

/-- Each production ends at a place of its text. -/
theorem Production.suffix {α : Type} {p : Parse α} (h : Production (unbounded document) p)
    (s : List Char) : left (p s) <:+ s :=
  (h.accord (unbounded_accord document (s.length + 1)) s (Nat.lt_succ_self _)).2.suffix

/-- Each round of a repetition leaves an end of the text that it was given. -/
theorem Repetition.suffix {σ α : Type} {step : σ → Parse (σ ⊕ α)}
    (h : Repetition (unbounded document) step) (a : σ) (s : List Char) : left (step a s) <:+ s := by
  obtain ⟨c, hrounds⟩ := h.rounds (unbounded_accord document (s.length + 1))
  exact (hrounds a s (Nat.lt_succ_self _)).1.2.suffix

/-- A round that asks for another leaves less than there was. -/
theorem Repetition.shorter {σ α : Type} {step : σ → Parse (σ ⊕ α)}
    (h : Repetition (unbounded document) step) {a a' : σ} {s r : List Char}
    (hround : step a s = .ok (.inl a', r)) : Shorter r s := by
  obtain ⟨c, hrounds⟩ := h.rounds (unbounded_accord document (s.length + 1))
  have hsuffix := h.suffix a s
  rw [hround] at hsuffix
  exact ⟨hsuffix, (hrounds a s (Nat.lt_succ_self _)).2 a' r hround⟩

/-- A repetition goes on until a round asks for no other. -/
theorem Repetition.loop_eq {σ α : Type} {step : σ → Parse (σ ⊕ α)}
    (h : Repetition (unbounded document) step) (a : σ) :
    loop step a = step a >>= Sum.elim (loop step) pure := by
  funext s
  obtain ⟨c, hrounds⟩ := h.rounds (unbounded_accord document (s.length + 1))
  rw [Grammar.loop_eq hrounds (Nat.lt_succ_self _) a]
  simp only [bind, StateT.bind, Except.bind]
  cases step a s with
  | error e => rfl
  | ok x => obtain ⟨_ | _, r⟩ := x <;> rfl

end

/-- A fault is reported at a boundary. -/
theorem parse_error_boundary {source : String} {document : Nat} {e : ParseError}
    (h : Stylesheet.parse source document = .error e) : Boundary source ⟨e.position⟩ := by
  have hsuffix := Production.stylesheet (L := unbounded document) |>.suffix source.toList
  rw [parse_eq_unbounded] at h
  cases hsheet : stylesheet (unbounded document) source.toList with
  | ok x =>
    rw [hsheet] at h
    cases h
  | error f =>
    rw [hsheet] at h hsuffix
    cases h
    exact place_boundary hsuffix

end LessSheet.Grammar

namespace LessSheet

open Grammar

/-- Reading ends on every source, with a stylesheet or a fault at a boundary.

The equations of the productions have one solution `L`, and reading is what it comes to. From a
place of the source, each production of `L` gets to such a place again; what a scanner answers are
parts of the source between boundaries, and what it leaves starts at another; a number is not empty.
A round of a repetition either takes a character or is the last, and so with the segments of a
path. -/
theorem Stylesheet.parse_total (source : String) (document : Nat) :
    ((∃ sheet, Stylesheet.parse source document = .ok sheet) ∨
      ∃ e, Stylesheet.parse source document = .error e ∧ Boundary source ⟨e.position⟩) ∧
    ∃ L : Level, L.document = document ∧ L.Closed ∧
      (∀ L' : Level, L'.document = document → L'.Closed → L' = L) ∧
      (Stylesheet.parse source document =
        match stylesheet L source.toList with
        | .ok (sheet, _) => .ok sheet
        | .error f => .error ⟨f.cause, (place source f.rest).byteIdx⟩) ∧
      ∀ s, s <:+ source.toList → Boundary source (place source s) ∧
        (∀ (α : Type) (p : Parse α), Production L p → left (p s) <:+ s) ∧
        (∀ f, Reader f → ∀ pieces rest, f s = some (pieces, rest) →
          rest <:+ s ∧ ∀ t ∈ pieces, ∃ start stop, Cut source start stop t) ∧
        (∀ n rest, numeral? s = some (n, rest) →
          n.digits ≠ [] ∧ n.digits ++ (n.unit ++ rest) = s) ∧
        (∀ (σ α : Type) (step : σ → Parse (σ ⊕ α)), Repetition L step → ∀ a,
          left (step a s) <:+ s ∧
          (∀ a' r, step a s = .ok (.inl a', r) → r.length < s.length) ∧
          loop step a = step a >>= Sum.elim (loop step) pure) ∧
        (∀ t name r, nextSegment? s = some t → segment? t = some (name, r) →
          r.length < s.length ∧
          segments? s s = (segments? r r).map fun (names, rest) => (name :: names, rest)) := by
  constructor
  · cases h : Stylesheet.parse source document with
    | ok sheet => exact .inl ⟨sheet, rfl⟩
    | error e => exact .inr ⟨e, rfl, parse_error_boundary h⟩
  refine ⟨unbounded document, rfl, unbounded_closed document,
    fun L' hdocument hclosed => hclosed.eq_unbounded hdocument, parse_eq_unbounded source document,
    fun s hs => ⟨place_boundary hs, fun α p hp => hp.suffix s, ?_, ?_, ?_, ?_⟩⟩
  · intro f hf pieces rest h
    have hslices := hf.slices h
    exact ⟨hslices.suffix, fun t ht => (hslices.slice t ht).cut hs⟩
  · intro n rest h
    exact (numeral?_append h).symm
  · intro σ α step hstep a
    exact ⟨hstep.suffix a s, fun a' r h => (hstep.shorter h).lt, hstep.loop_eq a⟩
  · intro t name r hnext hsegment
    refine ⟨(segment?_shorter hnext hsegment).lt, ?_⟩
    rw [segments?_eq]
    simp only [hnext, hsegment]

-- The brace is not closed at the end, which is after four bytes but three characters.
example : Stylesheet.parse "é \x7b" = .error ⟨.unclosedBlock, 4⟩ := by rfl

end LessSheet
