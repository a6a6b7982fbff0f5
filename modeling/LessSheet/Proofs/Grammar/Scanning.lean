import LessSheet.Grammar.Statement

/-! # What scanners take and leave

The place of a parser in its source is the text that is left there. A scanner answers pieces of the
text and what is left after them. What is left is a suffix of the text, so it starts at a place of
the source; and each piece is a slice, which lies between two such places (`Slice`).

A scanner that has to take something leaves less than there was.
-/

namespace LessSheet.Grammar

open Text

/-- `t` is a slice of `s`, and `rest` is what is left of `s` from its end on or from some place
after it. -/
def Slice (t rest s : List Char) : Prop := ∃ before after, before ++ (t ++ (after ++ rest)) = s

section
variable {t rest s u : List Char}

/-- What is left after a slice is an end of the text. -/
theorem Slice.suffix (h : Slice t rest s) : rest <:+ s := by
  obtain ⟨before, after, rfl⟩ := h
  exact ⟨before ++ (t ++ after), by simp⟩

/-- A slice with nothing before it, and all that follows left. -/
theorem Slice.of_append (h : t ++ rest = s) : Slice t rest s := ⟨[], [], h⟩

/-- A slice of what is left somewhere is a slice of the text. -/
theorem Slice.of_suffix (h : Slice t rest u) (hu : u <:+ s) : Slice t rest s := by
  obtain ⟨before, after, rfl⟩ := h
  obtain ⟨start, rfl⟩ := hu
  exact ⟨start ++ before, after, by simp⟩

/-- More may be passed over after a slice. -/
theorem Slice.before (h : Slice t u s) (hu : rest <:+ u) : Slice t rest s := by
  obtain ⟨before, after, rfl⟩ := h
  obtain ⟨middle, rfl⟩ := hu
  exact ⟨before, after ++ middle, by simp⟩

end

/-- Pieces of a text and what is left after all of them. -/
structure Slices (pieces : List (List Char)) (rest s : List Char) : Prop where
  suffix : rest <:+ s
  slice : ∀ t ∈ pieces, Slice t rest s

section
variable {pieces : List (List Char)} {t rest s u : List Char}

/-- No pieces, with any end of the text left. -/
theorem Slices.nil (h : rest <:+ s) : Slices [] rest s := ⟨h, fun _ ht => nomatch ht⟩

/-- Pieces of an end of a text are pieces of the text. -/
theorem Slices.of_suffix (h : Slices pieces rest u) (hu : u <:+ s) : Slices pieces rest s :=
  ⟨h.suffix.trans hu, fun t ht => (h.slice t ht).of_suffix hu⟩

/-- A first piece, before the others. -/
theorem Slices.cons (ht : Slice t u s) (h : Slices pieces rest u) :
    Slices (t :: pieces) rest s := by
  refine ⟨h.suffix.trans ht.suffix, fun v hv => ?_⟩
  rcases List.mem_cons.1 hv with rfl | hv
  · exact ht.before h.suffix
  · exact (h.slice v hv).of_suffix ht.suffix

end

/-- What is left after at least one character has been taken. -/
structure Shorter (r s : List Char) : Prop where
  suffix : r <:+ s
  lt : r.length < s.length

section
variable {r s u : List Char}

/-- A character has been taken, and whatever follows it. -/
theorem Shorter.cons {c : Char} (h : r <:+ s) : Shorter r (c :: s) :=
  ⟨h.trans (List.suffix_cons c s), Nat.lt_succ_of_le h.length_le⟩

/-- A piece has been taken that is not empty. -/
theorem Shorter.append {t : List Char} (ht : t ≠ []) (h : t ++ r = s) : Shorter r s := by
  subst h
  cases t with
  | nil => exact absurd rfl ht
  | cons c t => exact .cons (List.suffix_append t r)

/-- More may have been taken since. -/
theorem Shorter.of_suffix (h : Shorter u s) (hr : r <:+ u) : Shorter r s :=
  ⟨hr.trans h.suffix, Nat.lt_of_le_of_lt hr.length_le h.lt⟩

/-- Something may have been taken before. -/
theorem Shorter.trans_suffix (h : Shorter r u) (hu : u <:+ s) : Shorter r s :=
  ⟨h.suffix.trans hu, Nat.lt_of_lt_of_le h.lt hu.length_le⟩

end

/-! ## White space and comments -/

/-- After white space an end of the text is left. -/
theorem skipBlank_suffix (s : List Char) : skipBlank s <:+ s := List.dropWhile_suffix _

/-- The rest of a comment, the comments after it and what is left. -/
def CommentEnd (o : List Char × List (List Char) × List Char) (s : List Char) : Prop :=
  ∃ middle, o.1 ++ middle = s ∧ Slices o.2.1 o.2.2 middle

/-- A comment goes on by a character. -/
theorem CommentEnd.cons {o : List Char × List (List Char) × List Char} {s : List Char}
    (h : CommentEnd o s) (c : Char) : CommentEnd (c :: o.1, o.2) (c :: s) := by
  obtain ⟨middle, rfl, h⟩ := h
  exact ⟨middle, rfl, h⟩

/-- A comment with its opening, and those after it. -/
theorem CommentEnd.slices {o : List Char × List (List Char) × List Char} {s : List Char}
    (h : CommentEnd o s) : Slices (('/' :: '*' :: o.1) :: o.2.1) o.2.2 ('/' :: '*' :: s) := by
  obtain ⟨middle, rfl, h⟩ := h
  exact .cons (.of_append rfl) h

mutual

/-- Block comments that have been passed over are pieces of the text, one after the other. -/
theorem scanTrivia_slices (s : List Char) : Slices (scanTrivia s).1 (scanTrivia s).2 s := by
  unfold scanTrivia
  split
  · next r => exact (scanLineComment_slices r).of_suffix ⟨['/', '/'], rfl⟩
  · next r => exact (scanBlockComment_end r).slices
  · next c r _ _ =>
    split
    · exact (scanTrivia_slices r).of_suffix (List.suffix_cons c r)
    · exact .nil (List.suffix_refl _)
  · exact .nil (List.suffix_refl _)

/-- Comments that have been passed over after a line comment, which ends with its line, are pieces
of the text, one after the other. -/
theorem scanLineComment_slices (s : List Char) :
    Slices (scanLineComment s).1 (scanLineComment s).2 s := by
  unfold scanLineComment
  split
  · next c r =>
    split
    · exact (scanTrivia_slices r).of_suffix (List.suffix_cons c r)
    · exact (scanLineComment_slices r).of_suffix (List.suffix_cons c r)
  · exact .nil (List.suffix_refl _)

/-- The rest of a block comment runs to its closing mark, and other comments may follow. -/
theorem scanBlockComment_end (s : List Char) : CommentEnd (scanBlockComment s) s := by
  unfold scanBlockComment
  split
  · next r => exact ⟨r, rfl, scanTrivia_slices r⟩
  · next c r _ => exact (scanBlockComment_end r).cons c
  · exact ⟨[], rfl, .nil (List.suffix_refl _)⟩

end

/-- After white space and comments an end of the text is left. -/
theorem skipTrivia_suffix (s : List Char) : skipTrivia s <:+ s := (scanTrivia_slices s).suffix

mutual

/-- The comments after a statement are pieces of the text. Where none is found, all is left from
where the search started. -/
theorem trailingFrom_slices (start s : List Char) (h : s <:+ start) :
    Slices (trailingFrom start s).1 (trailingFrom start s).2 start := by
  unfold trailingFrom
  split
  · next r => exact (trailingInside_end r).slices.of_suffix h
  · next c r _ =>
    split
    · exact trailingFrom_slices start r ((List.suffix_cons c r).trans h)
    · exact .nil (List.suffix_refl _)
  · exact .nil (List.suffix_refl _)

/-- The rest of such a comment, and those after it. -/
theorem trailingInside_end (s : List Char) : CommentEnd (trailingInside s) s := by
  unfold trailingInside
  split
  · next r => exact ⟨r, rfl, trailingFrom_slices r r (List.suffix_refl r)⟩
  · next c r _ => exact (trailingInside_end r).cons c
  · exact ⟨[], rfl, .nil (List.suffix_refl _)⟩

end

/-- The comments after a statement are pieces of the text. -/
theorem trailingComments_slices (s : List Char) :
    Slices (trailingComments s).1 (trailingComments s).2 s :=
  trailingFrom_slices s s (List.suffix_refl s)

/-! ## Words, strings and brackets -/

section
variable {t rest s : List Char}

/-- A word that was found stands at the start of the text. -/
theorem strip?_append {word r : List Char} (h : strip? word s = some r) : word ++ r = s := by
  fun_induction strip? word s with
  | case1 s => exact Option.some.inj h ▸ rfl
  | case2 => cases h
  | case3 word c s ih => rw [List.cons_append, ih h]
  | case4 => cases h

/-- A keyword that was found stands at the start of the text. -/
theorem keyword?_append {word r : List Char} (h : keyword? word s = some r) : word ++ r = s :=
  strip?_append (Option.filter_eq_some_iff.1 h).1

/-- An identifier and what is left of it are the text. -/
theorem identifier_append (s : List Char) : (identifier s).1 ++ (identifier s).2 = s :=
  List.takeWhile_append_dropWhile

/-- A bare word and what is left of it are the text. -/
theorem bareWord_append (s : List Char) : (bareWord s).1 ++ (bareWord s).2 = s :=
  List.takeWhile_append_dropWhile

/-- Where there is an answer, it is the text before some character, and what is left after it. -/
def Closes (o : Option (List Char × List Char)) (s : List Char) : Prop :=
  ∀ t rest, o = some (t, rest) → ∃ c, t ++ c :: rest = s

/-- Characters before a text belong to what is closed in it. -/
theorem Closes.prepend {o : Option (List Char × List Char)} (h : Closes o s) (start : List Char) :
    Closes (o.map fun (t, rest) => (start ++ t, rest)) (start ++ s) := by
  rintro t rest ht
  obtain ⟨⟨u, rest⟩, hu, hcut⟩ := Option.map_eq_some_iff.1 ht
  cases hcut
  obtain ⟨c, rfl⟩ := h u rest hu
  exact ⟨c, by simp⟩

/-- Nothing is closed where there is no answer. -/
theorem Closes.none : Closes none s := fun _ _ h => nomatch h

/-- The first character closes, and there is nothing before it. -/
theorem Closes.here (c : Char) (rest : List Char) : Closes (some ([], rest)) (c :: rest) := by
  rintro t r h
  cases h
  exact ⟨c, rfl⟩

/-- A string is closed by a character after its content. -/
theorem stringBody_closes (quote : Char) (s : List Char) : Closes (stringBody quote s) s := by
  fun_induction stringBody quote s with
  | case1 | case2 => exact .none
  | case3 c r ih => exact ih.prepend ['\\', c]
  | case4 => exact .here _ _
  | case5 c r _ _ _ ih => exact ih.prepend [c]

/-- Bracketed text is closed by a character after it. -/
theorem balancedFrom_closes (depth : Nat) (quote : Option Char) (s : List Char) :
    Closes (balancedFrom depth quote s) s := by
  fun_induction balancedFrom depth quote s with
  | case1 | case2 => exact .none
  | case3 depth q c r ih => exact ih.prepend ['\\', c]
  | case4 depth q c r _ _ ih => exact ih.prepend [c]
  | case5 r => exact .here _ _
  | case6 r depth ih => exact ih.prepend [')']
  | case7 depth r _ ih => exact ih.prepend ['(']
  | case8 depth c r _ _ quote ih => exact ih.prepend [c]

/-- A text in parentheses stands between an opening one and a character that closes it. -/
theorem balanced?_append (h : balanced? s = some (t, rest)) :
    ∃ c, '(' :: (t ++ c :: rest) = s := by
  unfold balanced? at h
  split at h
  · obtain ⟨c, rfl⟩ := balancedFrom_closes 0 none _ t rest h
    exact ⟨c, rfl⟩
  · cases h

/-- The text up to a brace and what is left from there on are the text. -/
theorem uptoBrace_append (depth : Nat) (s : List Char) :
    (uptoBrace depth s).1 ++ (uptoBrace depth s).2 = s := by
  fun_induction uptoBrace depth s with
  | case1 => rfl
  | case2 => rfl
  | case3 depth c r _ t rest heq ih =>
    rw [heq] at ih
    exact congrArg (c :: ·) ih

/-- The raw name of a property and what is left are the text. -/
theorem propertyNameFrom_append (mode : HoleMode) (s : List Char) :
    (propertyNameFrom mode s).1 ++ (propertyNameFrom mode s).2 = s := by
  fun_induction propertyNameFrom mode s with
  | case1 => rfl
  | case2 c r t rest heq ih =>
    rw [heq] at ih
    exact congrArg (c :: ·) ih
  | case3 => rfl
  | case4 mode c r _ _ next t rest heq ih =>
    rw [heq] at ih
    exact congrArg (c :: ·) ih

/-- The raw text of selectors and what is left are the text. -/
theorem selectorFrom_append (mode : SelectorMode) (s : List Char) :
    (selectorFrom mode s).1 ++ (selectorFrom mode s).2 = s := by
  fun_induction selectorFrom mode s with
  | case1 => rfl
  | case2 c r t rest heq ih =>
    rw [heq] at ih
    exact congrArg (c :: ·) ih
  | case3 => rfl
  | case4 mode c r _ _ next t rest heq ih =>
    rw [heq] at ih
    exact congrArg (c :: ·) ih

/-! ## Numbers -/

/-- A unit and what is left are the text. -/
theorem unitText_append (s : List Char) : (unitText s).1 ++ (unitText s).2 = s := by
  unfold unitText
  split
  · rfl
  · exact List.takeWhile_append_dropWhile

/-- A number that starts with the digits `whole`, with `u` after them: if `u` starts with a point
and digits, these are `fraction`. -/
theorem numeral_append {negative : Bool} {n : Numeral} {whole u fraction : List Char}
    (hfraction : fraction ≠ [] → '.' :: (fraction ++ u.drop (fraction.length + 1)) = u)
    (h : (if fraction.isEmpty && whole.isEmpty then none
      else
        let point := !fraction.isEmpty
        let (unit, rest) := unitText (if point then u.drop (fraction.length + 1) else u)
        some (⟨negative, whole, point, fraction, unit⟩, rest)) = some (n, rest)) :
    n.negative = negative ∧ (n.whole ≠ [] ∨ n.point = true) ∧
      n.whole ++ ((if n.point then '.' :: n.fraction else []) ++ (n.unit ++ rest)) =
        whole ++ u := by
  by_cases hempty : fraction = []
  · simp only [hempty, List.isEmpty_nil, Bool.true_and, List.isEmpty_iff, Bool.not_true,
      Bool.false_eq_true, if_false, Option.ite_none_left_eq_some, Option.some.injEq,
      Prod.mk.injEq] at h
    obtain ⟨hne, rfl, rfl⟩ := h
    refine ⟨rfl, .inl hne, ?_⟩
    rw [unitText_append, if_neg Bool.false_ne_true, List.nil_append]
  · simp only [List.isEmpty_eq_false_iff.2 hempty, Bool.false_and, Bool.not_false, if_true,
      Bool.false_eq_true, if_false, Option.some.injEq, Prod.mk.injEq] at h
    obtain ⟨rfl, rfl⟩ := h
    refine ⟨rfl, .inr rfl, ?_⟩
    rw [unitText_append, if_pos rfl, List.cons_append, hfraction hempty]

/-- A number has digits before its point or after it, and its parts, one after the other, and what
is left are the text. -/
theorem unsignedNumeral?_append {negative : Bool} {n : Numeral}
    (h : unsignedNumeral? negative s = some (n, rest)) :
    n.negative = negative ∧ (n.whole ≠ [] ∨ n.point = true) ∧
      n.whole ++ ((if n.point then '.' :: n.fraction else []) ++ (n.unit ++ rest)) = s := by
  have hwhole : s.takeWhile isDecimalDigit ++ s.dropWhile isDecimalDigit = s :=
    List.takeWhile_append_dropWhile
  unfold unsignedNumeral? at h
  simp only at h
  split at h
  · next r hr =>
    have hpoint : '.' :: (r.takeWhile isDecimalDigit ++ (s.dropWhile isDecimalDigit).drop
        ((r.takeWhile isDecimalDigit).length + 1)) = s.dropWhile isDecimalDigit := by
      rw [hr, List.drop_succ_cons, List.prefix_iff_eq_append.1 (List.takeWhile_prefix _)]
    exact hwhole ▸ numeral_append (fun _ => hpoint) h
  · exact hwhole ▸ numeral_append (fun hne => absurd rfl hne) h

/-- A number is a slice at the start of its text, and it is not empty. -/
theorem numeral?_append {n : Numeral} (h : numeral? s = some (n, rest)) :
    n.digits ++ (n.unit ++ rest) = s ∧ n.digits ≠ [] := by
  unfold numeral? at h
  split at h
  · obtain ⟨hsign, -, rfl⟩ := unsignedNumeral?_append h
    simp [Numeral.digits, hsign]
  · obtain ⟨hsign, hdigit, rfl⟩ := unsignedNumeral?_append h
    simp only [Numeral.digits, hsign]
    rcases hdigit with h | h <;> simp [h]

/-! ## Mixin paths -/

/-- A segment of a path stands at the start of the text, and is not empty. -/
theorem segment?_append {name : String} (h : segment? s = some (name, rest)) :
    name.toList ++ rest = s ∧ name.toList ≠ [] := by
  unfold segment? at h
  split at h
  · next c r =>
    split at h
    · have happend := identifier_append r
      split at h
      · cases h
      · next name rest _ heq =>
        cases h
        rw [heq] at happend
        simp [happend]
    · cases h
  · cases h

/-- The next segment starts at an end of the text. -/
theorem nextSegment?_suffix {t : List Char} (h : nextSegment? s = some t) : t <:+ s := by
  unfold nextSegment? at h
  split at h
  · exact Option.some.inj h ▸ List.suffix_refl s
  · split at h
    · next r heq =>
      split at h
      · cases h
        have hafter : r <:+ s := (List.suffix_cons _ r).trans (heq ▸ skipBlank_suffix s)
        exact (skipBlank_suffix r).trans hafter
      · cases h
    · cases h

/-- The segments of a path are pieces of the text, one after the other. -/
theorem segments?_slices {fuel : List Char} {names : List String}
    (h : segments? fuel s = some (names, rest)) : Slices (names.map String.toList) rest s := by
  fun_induction segments? fuel s generalizing names with
  | case1 s =>
    cases h
    exact .nil (List.suffix_refl _)
  | case2 =>
    cases h
    exact .nil (List.suffix_refl _)
  | case3 => cases h
  | case4 _ fuel s t hnext name r hsegment ih =>
    obtain ⟨⟨names, rest⟩, hmore, hcut⟩ := Option.map_eq_some_iff.1 h
    cases hcut
    refine .cons ?_ (ih hmore)
    exact (Slice.of_append (segment?_append hsegment).1).of_suffix (nextSegment?_suffix hnext)

/-- A segment is shorter than the text it was looked for in. -/
theorem segment?_shorter {t : List Char} {name : String} (hnext : nextSegment? s = some t)
    (hsegment : segment? t = some (name, rest)) : Shorter rest s := by
  obtain ⟨happend, hne⟩ := segment?_append hsegment
  exact (Shorter.append hne happend).trans_suffix (nextSegment?_suffix hnext)

/-- Any two texts that are long enough do as fuel. -/
theorem segments?_fuel {fuel fuel' : List Char} (h : s.length ≤ fuel.length)
    (h' : s.length ≤ fuel'.length) : segments? fuel s = segments? fuel' s := by
  induction fuel generalizing fuel' s with
  | nil =>
    obtain rfl : s = [] := List.length_eq_zero_iff.1 (Nat.le_zero.1 h)
    cases fuel' <;> rfl
  | cons c fuel ih =>
    cases fuel' with
    | nil =>
      obtain rfl : s = [] := List.length_eq_zero_iff.1 (Nat.le_zero.1 h')
      rfl
    | cons d fuel' =>
      simp only [segments?]
      split
      · rfl
      · next hnext =>
        split
        · rfl
        · next name r hsegment =>
          have hlt := (segment?_shorter hnext hsegment).lt
          simp only [List.length_cons] at h h'
          have hmore : segments? fuel r = segments? fuel' r := ih (by omega) (by omega)
          rw [hmore]

/-- The further segments of a path, without a bound: each takes at least a character. -/
theorem segments?_eq (s : List Char) :
    segments? s s =
      match nextSegment? s with
      | none => some ([], s)
      | some t =>
        match segment? t with
        | none => none
        | some (name, r) => (segments? r r).map fun (names, rest) => (name :: names, rest) := by
  cases s with
  | nil => rfl
  | cons c s =>
    simp only [segments?]
    cases hnext : nextSegment? (c :: s) with
    | none => rfl
    | some t =>
      cases hsegment : segment? t with
      | none => simp only [hsegment]
      | some found =>
        have hlt := (segment?_shorter hnext hsegment).lt
        simp only [hsegment, segments?_fuel (Nat.le_of_lt_succ hlt) (Nat.le_refl _)]

/-- A path has at least one segment, so something has been taken. -/
theorem path?_slices {names : List String} (h : path? s = some (names, rest)) :
    Slices (names.map String.toList) rest s ∧ Shorter rest s := by
  unfold path? at h
  split at h
  · cases h
  · next name r hsegment =>
    obtain ⟨⟨names, rest⟩, hmore, hcut⟩ := Option.map_eq_some_iff.1 h
    cases hcut
    obtain ⟨happend, hne⟩ := segment?_append hsegment
    have hslices := segments?_slices hmore
    exact ⟨.cons (.of_append happend) hslices,
      (Shorter.append hne happend).of_suffix hslices.suffix⟩

/-! ## Heads of statements -/

/-- A name after an `@` stands at the start of the text with it. -/
theorem atName?_append {name : List Char} (h : atName? s = some (name, rest)) :
    '@' :: (name ++ rest) = s := by
  unfold atName? at h
  split at h
  · next r =>
    have happend := identifier_append r
    split at h
    · cases h
    · next heq =>
      cases h
      rw [← happend, heq]
  · cases h

/-- The name after an `@`, with something left after the name or from some later place on. -/
theorem atName?_slices {name u : List Char} (h : atName? s = some (name, rest)) (hu : u <:+ rest) :
    Slices [name] u s ∧ Shorter u s := by
  have happend := atName?_append h
  have hslice : Slice name u s := Slice.before ⟨['@'], [], happend⟩ hu
  refine ⟨⟨hslice.suffix, fun t ht => List.mem_singleton.1 ht ▸ hslice⟩, ?_⟩
  exact (Shorter.append (t := '@' :: name) (List.cons_ne_nil _ _) happend).of_suffix hu

/-- The name of a variable that is declared, with a colon taken after it. -/
theorem assignHead?_slices {name : String} {r : List Char} (h : assignHead? s = some (name, r)) :
    Slices [name.toList] r s ∧ Shorter r s := by
  unfold assignHead? at h
  split at h
  · cases h
  · next name rest hname =>
    split at h
    · next r heq =>
      cases h
      have hr : r <:+ rest := (List.suffix_cons _ r).trans (heq ▸ skipBlank_suffix rest)
      rw [String.toList_ofList]
      exact atName?_slices hname hr
    · cases h

/-- The word `@import` has been taken. -/
theorem importHead?_shorter {r : List Char} (h : importHead? s = some r) : Shorter r s := by
  unfold importHead? at h
  split at h
  · cases h
  · next name rest hname =>
    cases (Option.ite_none_right_eq_some.1 h).2
    exact (atName?_slices hname (List.suffix_refl _)).2

/-- The name of a ruleset that is called, with the parenthesis taken after it. -/
theorem detachedHead?_slices {name : String} {r : List Char}
    (h : detachedHead? s = some (name, r)) : Slices [name.toList] r s ∧ Shorter r s := by
  unfold detachedHead? at h
  split at h
  · cases h
  · next name rest hname =>
    simp only at h
    split at h
    · cases h
    · cases (Option.ite_none_right_eq_some.1 h).2
      rw [String.toList_ofList]
      exact atName?_slices hname ((List.drop_suffix 1 _).trans (skipTrivia_suffix rest))

/-- The name of an at-rule. -/
theorem atRuleHead?_slices {name : String} {r : List Char} (h : atRuleHead? s = some (name, r)) :
    Slices [name.toList] r s ∧ Shorter r s := by
  unfold atRuleHead? at h
  split at h
  · cases h
  · next name rest hname =>
    cases (Option.ite_none_right_eq_some.1 h).2
    rw [String.toList_ofList]
    exact atName?_slices hname (List.suffix_refl _)

/-- The name of a mixin that is defined. -/
theorem mixinHead?_slices {name : String} {r : List Char} (h : mixinHead? s = some (name, r)) :
    Slices [name.toList] r s ∧ Shorter r s := by
  unfold mixinHead? at h
  split at h
  · cases h
  · next name rest hsegment =>
    simp only at h
    split at h
    · cases h
    · cases (Option.ite_none_right_eq_some.1 h).2
      obtain ⟨happend, hne⟩ := segment?_append hsegment
      exact ⟨.cons (.of_append happend) (.nil (List.suffix_refl _)), .append hne happend⟩

/-- The segments of the path of a call. -/
theorem callHead?_slices {names : List String} {r : List Char} (h : callHead? s = some (names, r)) :
    Slices (names.map String.toList) r s ∧ Shorter r s := by
  unfold callHead? at h
  split at h
  · cases h
  · next path rest hpath =>
    split at h
    · cases h
    · cases (Option.ite_none_right_eq_some.1 h).2
      exact path?_slices hpath

/-- A comparison sign has at least one character. -/
theorem comparison?_shorter {op : Comparison} {r : List Char}
    (h : comparison? s = some (op, r)) : Shorter r s := by
  unfold comparison? at h
  split at h
  case h_1 | h_2 | h_3 =>
    cases h
    exact .cons (List.suffix_cons _ _)
  case h_4 | h_5 | h_6 =>
    cases h
    exact .cons (List.suffix_refl _)
  case h_7 => cases h

end

/-! ## All of them -/

/-- The scanners, each with the pieces that it answers and what it leaves. -/
inductive Reader : (List Char → Option (List (List Char) × List Char)) → Prop where
  | blank : Reader fun s => some ([], skipBlank s)
  | trivia : Reader fun s => some (scanTrivia s)
  | trailing : Reader fun s => some (trailingComments s)
  | word (w : List Char) : Reader fun s => (strip? w s).map fun r => ([w], r)
  | keyword (w : List Char) : Reader fun s => (keyword? w s).map fun r => ([w], r)
  | comparison : Reader fun s => (comparison? s).map fun (_, r) => ([], r)
  | name : Reader fun s => some ([(identifier s).1], (identifier s).2)
  | atName : Reader fun s => (atName? s).map fun (t, r) => ([t], r)
  | bareWord : Reader fun s => some ([(Grammar.bareWord s).1], (Grammar.bareWord s).2)
  | string (quote : Char) : Reader fun s => (stringBody quote s).map fun (t, r) => ([t], r)
  | parens : Reader fun s => (balanced? s).map fun (t, r) => ([t], r)
  | uptoBrace (depth : Nat) :
    Reader fun s => some ([(Grammar.uptoBrace depth s).1], (Grammar.uptoBrace depth s).2)
  | propertyName (mode : HoleMode) :
    Reader fun s => some ([(propertyNameFrom mode s).1], (propertyNameFrom mode s).2)
  | selector (mode : SelectorMode) :
    Reader fun s => some ([(selectorFrom mode s).1], (selectorFrom mode s).2)
  | importTarget : Reader fun s => some ([s.takeWhile (· != ';')], s.dropWhile (· != ';'))
  | numeral : Reader fun s => (numeral? s).map fun (n, r) => ([n.digits, n.unit], r)
  | path : Reader fun s => (path? s).map fun (names, r) => (names.map String.toList, r)
  | assignHead : Reader fun s => (assignHead? s).map fun (name, r) => ([name.toList], r)
  | importHead : Reader fun s => (importHead? s).map fun r => ([], r)
  | detachedHead : Reader fun s => (detachedHead? s).map fun (name, r) => ([name.toList], r)
  | atRuleHead : Reader fun s => (atRuleHead? s).map fun (name, r) => ([name.toList], r)
  | mixinHead : Reader fun s => (mixinHead? s).map fun (name, r) => ([name.toList], r)
  | callHead : Reader fun s => (callHead? s).map fun (names, r) => (names.map String.toList, r)

/-- One piece, from the start of the text on. -/
theorem Slices.single {t rest s : List Char} (h : t ++ rest = s) : Slices [t] rest s :=
  .cons (.of_append h) (.nil (List.suffix_refl _))

/-- What a scanner that may fail answers. -/
theorem Slices.of_map {β : Type} {o : Option β} {k : β → List (List Char) × List Char}
    {s rest : List Char} {pieces : List (List Char)}
    (ho : ∀ x, o = some x → Slices (k x).1 (k x).2 s) (h : o.map k = some (pieces, rest)) :
    Slices pieces rest s := by
  obtain ⟨x, hx, hcut⟩ := Option.map_eq_some_iff.1 h
  have := ho x hx
  rwa [hcut] at this

/-- What any scanner answers are slices of its text, and what it leaves is a suffix of it. -/
theorem Reader.slices {f : List Char → Option (List (List Char) × List Char)} (hf : Reader f)
    {s rest : List Char} {pieces : List (List Char)} (h : f s = some (pieces, rest)) :
    Slices pieces rest s := by
  have htotal : ∀ o : List (List Char) × List Char, Slices o.1 o.2 s →
      some o = some (pieces, rest) → Slices pieces rest s := by
    rintro o ho heq
    cases heq
    exact ho
  cases hf with
  | blank => exact htotal _ (.nil (skipBlank_suffix s)) h
  | trivia => exact htotal _ (scanTrivia_slices s) h
  | trailing => exact htotal _ (trailingComments_slices s) h
  | word w => exact .of_map (fun _ hr => .single (strip?_append hr)) h
  | keyword w => exact .of_map (fun _ hr => .single (keyword?_append hr)) h
  | comparison => exact .of_map (fun _ hr => .nil (comparison?_shorter hr).suffix) h
  | name => exact htotal _ (.single (identifier_append s)) h
  | atName => exact .of_map (fun _ hr => (atName?_slices hr (List.suffix_refl _)).1) h
  | bareWord => exact htotal _ (.single (bareWord_append s)) h
  | string quote =>
    refine .of_map (fun (t, r) hr => ?_) h
    obtain ⟨c, happend⟩ := stringBody_closes quote s t r hr
    exact .cons (.of_append happend) (.nil (List.suffix_cons c r))
  | parens =>
    refine .of_map (fun (t, r) hr => ?_) h
    obtain ⟨c, happend⟩ := balanced?_append hr
    exact .cons ⟨['('], [], happend⟩ (.nil (List.suffix_cons c r))
  | uptoBrace depth => exact htotal _ (.single (uptoBrace_append depth s)) h
  | propertyName mode => exact htotal _ (.single (propertyNameFrom_append mode s)) h
  | selector mode => exact htotal _ (.single (selectorFrom_append mode s)) h
  | importTarget => exact htotal _ (.single List.takeWhile_append_dropWhile) h
  | numeral =>
    exact .of_map (fun _ hr => .cons (.of_append (numeral?_append hr).1) (.single rfl)) h
  | path => exact .of_map (fun _ hr => (path?_slices hr).1) h
  | assignHead => exact .of_map (fun _ hr => (assignHead?_slices hr).1) h
  | importHead => exact .of_map (fun _ hr => .nil (importHead?_shorter hr).suffix) h
  | detachedHead => exact .of_map (fun _ hr => (detachedHead?_slices hr).1) h
  | atRuleHead => exact .of_map (fun _ hr => (atRuleHead?_slices hr).1) h
  | mixinHead => exact .of_map (fun _ hr => (mixinHead?_slices hr).1) h
  | callHead => exact .of_map (fun _ hr => (callHead?_slices hr).1) h

end LessSheet.Grammar
