import LessSheet.Proofs.Text.Marker
import Mathlib.Data.List.TakeWhile

/-! # Filling in a text

A placeholder `@{name}` is found whatever stands around it (`pieces_around_braced`): its `@` is part
of no placeholder that begins before it, and its brace ends it. So a text is filled in once, from
left to right (`View.interpolate_append`): the parts around a placeholder are filled in by
themselves, the value is put between them as it is, and the first of the three that fails decides
the error.
-/

namespace LessSheet

namespace Text

/-! ## Holes -/

/-- The name in a hole. -/
structure IsHoleName (name : List Char) : Prop where
  ne_nil : name ≠ []
  chars : ∀ c ∈ name, isHoleChar c = true

instance (name : List Char) : Decidable (IsHoleName name) :=
  decidable_of_iff (name ≠ [] ∧ name.all isHoleChar = true)
    ⟨fun h => ⟨h.1, List.all_eq_true.1 h.2⟩, fun h => ⟨h.ne_nil, List.all_eq_true.2 h.chars⟩⟩

/-- A text that does not go on with the name in a hole. -/
def EndsHoleName (s : List Char) : Prop := ∀ c ∈ s.head?, isHoleChar c = false

section
variable {c d : Char} {name r s t : List Char} {h : Hole}

/-- A character of names is none that names do not have. -/
theorem ne_of_isHoleChar (hc : isHoleChar c = true) (hd : isHoleChar d = false) : c ≠ d := by
  rintro rfl
  exact Bool.false_ne_true (hd.symm.trans hc)

/-- A character that names do not have is in no name. -/
theorem IsHoleName.not_mem (hname : IsHoleName name) (hd : isHoleChar d = false) : d ∉ name :=
  fun hmem => ne_of_isHoleChar (hname.chars d hmem) hd rfl

/-- A text is cut off where the class of characters ends. -/
theorem takeWhile_append_stop {p : Char → Bool} (ht : ∀ c ∈ t.head?, p c = false) (s : List Char) :
    (s ++ t).takeWhile p = s.takeWhile p := by
  have hstop : t.takeWhile p = [] := by
    cases t with
    | nil => rfl
    | cons c t => exact List.takeWhile_cons_of_neg (by simp [ht c rfl])
  rw [List.takeWhile_append, hstop]
  split
  · next hall => rw [List.append_nil, (List.takeWhile_prefix _).eq_of_length hall]
  · rfl

/-- The name in a hole is read up to where it ends. -/
theorem holeName?_name (hname : IsHoleName name) (hr : EndsHoleName r) :
    holeName? (name ++ r) = some name := by
  rw [holeName?, takeWhile_append_stop hr, List.takeWhile_eq_self_iff.2 hname.chars]
  split
  · exact absurd rfl hname.ne_nil
  · rfl

/-- A name that is found is one, and reaches as far as it can. -/
theorem eq_append_of_holeName? (h : holeName? s = some name) :
    IsHoleName name ∧ ∃ r, EndsHoleName r ∧ s = name ++ r := by
  unfold holeName? at h
  split at h
  · cases h
  · next hne =>
    cases h
    refine ⟨⟨hne, fun c hc => List.mem_takeWhile_imp hc⟩, s.dropWhile isHoleChar, ?_,
      List.takeWhile_append_dropWhile.symm⟩
    intro c hc
    have hstop := List.head?_dropWhile_not isHoleChar s
    rwa [Option.mem_def.1 hc] at hstop

/-- A name in braces after `@` is a hole. -/
theorem braced?_name (hname : IsHoleName name) (r : List Char) :
    braced? ('@' :: '{' :: (name ++ '}' :: r)) = some ⟨name, name.length + 3⟩ := by
  have hfound : holeName? (name ++ '}' :: r) = some name := by
    refine holeName?_name hname ?_
    rintro _ ⟨⟩
    rfl
  simp only [braced?, hfound, List.drop_left]

/-- A hole with braces is `@` and a name in braces. -/
theorem eq_of_braced? (hs : braced? s = some h) :
    ∃ name r, IsHoleName name ∧ h = ⟨name, name.length + 3⟩ ∧
      s = '@' :: '{' :: (name ++ '}' :: r) := by
  unfold braced? at hs
  split at hs
  · next r =>
    split at hs
    · next name hfound =>
      obtain ⟨hname, u, -, rfl⟩ := eq_append_of_holeName? hfound
      rw [List.drop_left] at hs
      split at hs
      · exact ⟨name, _, hname, (Option.some.inj hs).symm, rfl⟩
      · cases hs
    · cases hs
  · cases hs

/-- A hole with braces begins with `@`. -/
theorem braced?_of_ne (hc : c ≠ '@') (r : List Char) : braced? (c :: r) = none := by
  unfold braced?
  split
  · next heq => exact absurd (List.cons.inj heq).1 hc
  · rfl

end

/-! ## Pieces -/

section
variable {hole? : List Char → Option Hole} {c : Char} {name w r s t : List Char}

/-- The characters of a hole are skipped. -/
theorem piecesFrom_skip (w r : List Char) :
    piecesFrom hole? w.length (w ++ r) = pieces hole? r := by
  induction w with
  | nil => rfl
  | cons c w ih => exact ih

/-- A hole that comes first is a piece of its own. -/
theorem pieces_hole (h : hole? (c :: w ++ r) = some ⟨name, w.length + 1⟩) :
    pieces hole? (c :: w ++ r) = .hole name (c :: w) :: pieces hole? r := by
  have htake : (c :: (w ++ r)).take (w.length + 1) = c :: w := by simp
  rw [List.cons_append] at h ⊢
  simp only [pieces, piecesFrom, h, htake, Nat.add_sub_cancel]
  rw [piecesFrom_skip, pieces]

/-- A character at which no hole begins is a piece of its own. -/
theorem pieces_char (h : hole? (c :: r) = none) :
    pieces hole? (c :: r) = .char c :: pieces hole? r := by
  simp only [pieces, piecesFrom, h]

/-- Characters before the first hole. -/
theorem pieces_plain (h : ∀ c ∈ w, ∀ r, hole? (c :: r) = none) (r : List Char) :
    pieces hole? (w ++ r) = w.map .char ++ pieces hole? r := by
  induction w with
  | nil => rfl
  | cons c w ih =>
    rw [List.cons_append, pieces_char (h c (.head _) _), ih fun d hd => h d (.tail _ hd)]
    rfl

/-- Texts are cut one by one, if no hole goes from the first into the second. -/
theorem pieces_append (hwidth : ∀ s x, hole? s = some x → x.width ≤ s.length)
    (ht : ∀ c s, hole? (c :: (s ++ t)) = hole? (c :: s)) (s : List Char) :
    pieces hole? (s ++ t) = pieces hole? s ++ pieces hole? t := by
  suffices h : ∀ skip ≤ s.length,
      piecesFrom hole? skip (s ++ t) = piecesFrom hole? skip s ++ pieces hole? t from
    h 0 (Nat.zero_le _)
  intro skip hskip
  induction s generalizing skip with
  | nil =>
    obtain rfl : skip = 0 := Nat.le_zero.1 hskip
    rfl
  | cons c s ih =>
    cases skip with
    | succ skip => exact ih skip (Nat.le_of_succ_le_succ hskip)
    | zero =>
      rw [List.cons_append, piecesFrom, piecesFrom, ht]
      cases hfound : hole? (c :: s) with
      | none => simp only [ih 0 (Nat.zero_le _), List.cons_append]
      | some x =>
        have hle := hwidth _ _ hfound
        have hrest := ih (x.width - 1) (by simp at hle; omega)
        have htake : (c :: (s ++ t)).take x.width = (c :: s).take x.width :=
          List.take_append_of_le_length hle
        simp only [hrest, htake, List.cons_append]

end

/-! ## Placeholders -/

section
variable {c q : Char} {name r s t : List Char}

/-- The text of a hole of the first shape. -/
theorem hole_text (name r : List Char) :
    '@' :: '{' :: (name ++ '}' :: r) = '@' :: ('{' :: (name ++ ['}'])) ++ r := by simp

/-- A name in braces is a hole of the text. -/
theorem pieces_braced (hname : IsHoleName name) (r : List Char) :
    pieces braced? ('@' :: '{' :: (name ++ '}' :: r)) =
      .hole name ('@' :: '{' :: (name ++ ['}'])) :: pieces braced? r := by
  have hfound := braced?_name hname r
  rw [hole_text] at hfound ⊢
  exact pieces_hole (hfound.trans (by simp))

/-- Whether a hole of the first shape begins at an `@` shows before the next character that is in no
such hole. -/
theorem braced?_congr {q : Char} (hq : isHoleChar q = false) (hbrace : q ∉ ['{', '}'])
    (h : s.takeWhile (· != q) = t.takeWhile (· != q)) (hs : braced? ('@' :: s) = none) :
    braced? ('@' :: t) = none := by
  cases ht : braced? ('@' :: t) with
  | none => rfl
  | some x =>
    obtain ⟨name, r, hname, -, heq⟩ := eq_of_braced? ht
    have hplain : ∀ c ∈ '{' :: (name ++ ['}']), (c != q) = true := by
      intro c hc
      rw [bne_iff_ne]
      rintro rfl
      simp [hname.not_mem hq] at hc hbrace
      exact hc.elim hbrace.1 hbrace.2
    have htext : t = '{' :: (name ++ ['}']) ++ r := by simpa using (List.cons.inj heq).2
    rw [htext, List.takeWhile_append_of_pos hplain] at h
    have hsplit := List.takeWhile_append_dropWhile (p := (· != q)) (l := s)
    rw [h] at hsplit
    have hfound := braced?_name hname (r.takeWhile (· != q) ++ s.dropWhile (· != q))
    rw [← hsplit] at hs
    simp [hfound] at hs

/-- Where a text ends at a character that is in no hole of the first shape, no hole goes on. -/
theorem braced?_append (hq : isHoleChar q = false) (hbrace : q ∉ ['{', '}']) (c : Char)
    (s t : List Char) : braced? (c :: (s ++ q :: t)) = braced? (c :: s) := by
  cases hs : braced? (c :: s) with
  | some x =>
    obtain ⟨name, r, hname, rfl, heq⟩ := eq_of_braced? hs
    have htext : c :: (s ++ q :: t) = '@' :: '{' :: (name ++ '}' :: (r ++ q :: t)) := by
      rw [← List.cons_append, heq]
      simp
    rw [htext, braced?_name hname]
  | none =>
    by_cases hc : c = '@'
    · subst hc
      exact braced?_congr hq hbrace (takeWhile_append_stop (by simp) s).symm hs
    · exact braced?_of_ne hc _

/-- A hole is not wider than the text that it is found in. -/
theorem braced?_width {x : Hole} (h : braced? s = some x) : x.width ≤ s.length := by
  obtain ⟨name, r, -, rfl, rfl⟩ := eq_of_braced? h
  simp

/-- A placeholder is a hole whatever stands around it. -/
theorem pieces_around_braced (hname : IsHoleName name) (s t : List Char) :
    pieces braced? (s ++ '@' :: '{' :: (name ++ '}' :: t)) =
      pieces braced? s ++ .hole name ('@' :: '{' :: (name ++ ['}'])) :: pieces braced? t := by
  rw [pieces_append (fun _ _ => braced?_width)
    fun c s => braced?_append (q := '@') rfl (by decide) c s _, pieces_braced hname]

/-- Where a hole is found, the text has one. -/
theorem exists_of_hole_mem {hole? : List Char → Option Hole} {raw : List Char} :
    ∀ {skip : Nat} {s : List Char}, .hole name raw ∈ piecesFrom hole? skip s →
      ∃ before rest x, s = before ++ rest ∧ hole? rest = some x
  | _, [], h => nomatch h
  | _ + 1, c :: s, h => by
    obtain ⟨before, rest, x, rfl, hx⟩ := exists_of_hole_mem (s := s) h
    exact ⟨c :: before, rest, x, rfl, hx⟩
  | 0, c :: s, h => by
    rw [piecesFrom] at h
    split at h
    · next x hx => exact ⟨[], c :: s, x, rfl, hx⟩
    · rcases List.mem_cons.1 h with h | h
      · cases h
      · obtain ⟨before, rest, x, rfl, hx⟩ := exists_of_hole_mem h
        exact ⟨c :: before, rest, x, rfl, hx⟩

/-- A text without placeholders is one in which none is written. -/
theorem whole_iff : Whole s ↔ ∀ before name after, IsHoleName name →
    s ≠ before ++ '@' :: '{' :: (name ++ '}' :: after) := by
  constructor
  · rintro h before name after hname rfl
    refine h name ('@' :: '{' :: (name ++ ['}'])) ?_
    rw [pieces_around_braced hname]
    exact List.mem_append_right _ (.head _)
  · intro h name raw hmem
    obtain ⟨before, rest, x, rfl, hx⟩ := exists_of_hole_mem hmem
    obtain ⟨name, after, hname, -, rfl⟩ := eq_of_braced? hx
    exact h before name after hname rfl

end

/-- A placeholder as it is written. -/
def placeholder (name : String) : String := "@\x7b" ++ name ++ "\x7d"

/-- A placeholder, character by character. -/
theorem toList_placeholder (name : String) :
    (placeholder name).toList = '@' :: '{' :: (name.toList ++ '}' :: []) := by
  simp [placeholder]

/-- A placeholder in a text, character by character. -/
theorem toList_around_placeholder (before name after : String) :
    (before ++ placeholder name ++ after).toList =
      before.toList ++ '@' :: '{' :: (name.toList ++ '}' :: after.toList) := by
  simp [toList_placeholder]

end Text

open Text

namespace View

/-! ## Filling in -/

section
variable {view : View} {ps qs : List Piece}

/-- A character stays before what the rest is filled with. -/
theorem fill_char (c : Char) : view.fill (.char c :: ps) = (c :: ·) <$> view.fill ps := by
  simp [fill]

/-- A hole is filled with the variable of its name, before the rest. -/
theorem fill_hole (name raw : List Char) :
    view.fill (.hole name raw :: ps) = (do
      let value ← view.lookup (String.ofList name)
      (value.content.toList ++ ·) <$> view.fill ps) := by
  simp [fill]

/-- Pieces are filled in one after the other. -/
theorem fill_append : view.fill (ps ++ qs) = (do
    let first ← view.fill ps
    (first ++ ·) <$> view.fill qs) := by
  induction ps with
  | nil => exact (id_map (view.fill qs)).symm
  | cons p ps ih =>
    cases p with
    | char c =>
      rw [List.cons_append, fill_char, fill_char, ih]
      simp
    | hole name raw =>
      rw [List.cons_append, fill_hole, fill_hole, ih]
      simp

end

/-- The text of a variable: of a string what is between its quotes. -/
def filling (view : View) (name : String) : Except EvalError String :=
  match view.arena.lookup view.scope name with
  | none => .error (.undefinedVariable name)
  | some (.quoted text _) => .ok text
  | some value => .ok value.text

/-- The text of a variable is that of the value found. -/
theorem filling_eq (view : View) (name : String) :
    view.filling name = Value.content <$> view.lookup name := by
  rw [filling, lookup]
  cases view.arena.lookup view.scope name with
  | none => rfl
  | some value => cases value <;> rfl

/-- A placeholder by itself stands for its variable. -/
theorem interpolate_placeholder (view : View) {name : String} (hname : IsHoleName name.toList) :
    view.interpolate (placeholder name) = view.filling name := by
  rw [filling_eq, interpolate, toList_placeholder, pieces_braced hname, fill_hole,
    String.ofList_toList]
  cases view.lookup name with
  | error e => rfl
  | ok value => simp [pieces, piecesFrom, fill, bind, Except.bind]

/-- A text is filled in once, from left to right. Around a placeholder the parts of a text are
filled in by themselves, with the text of the variable between them as it is, and the first of the
three that has no value decides the error. A text in which no placeholder is written stays the same.
-/
theorem interpolate_append (view : View) :
    (∀ before name after : String, IsHoleName name.toList →
      view.interpolate (before ++ placeholder name ++ after) = (do
        let first ← view.interpolate before
        let value ← view.filling name
        let last ← view.interpolate after
        return first ++ value ++ last)) ∧
    ∀ text : String,
      (∀ before name after : String, IsHoleName name.toList →
        text ≠ before ++ placeholder name ++ after) →
      view.interpolate text = .ok text := by
  constructor
  · intro before name after hname
    rw [filling_eq, interpolate, interpolate, interpolate, toList_around_placeholder,
      pieces_around_braced hname, fill_append, fill_hole, String.ofList_toList]
    simp [String.append_assoc]
  · intro text h
    refine view.interpolate_of_whole (whole_iff.2 fun before name after hname heq => ?_)
    refine h (String.ofList before) (String.ofList name) (String.ofList after)
      (by simpa using hname) (String.toList_inj.1 ?_)
    rw [toList_around_placeholder, heq]
    simp

/-- A value that is written like a placeholder, in a text where more of them seem to begin and to
end around it, stays as it is; so does what has nothing or a space between the braces. -/
theorem interpolate_append_nested :
    let view : View :=
      ⟨Arena.empty.define Arena.root "n" (.quoted "@\x7bm\x7d" '"'), Arena.root, none⟩
    view.interpolate "@\x7b@\x7bn\x7dm\x7d" = .ok "@\x7b@\x7bm\x7dm\x7d" ∧
      view.interpolate "@\x7b\x7d @\x7b n\x7d" = .ok "@\x7b\x7d @\x7b n\x7d" := by
  intro view
  have hname : IsHoleName "n".toList := by decide
  have hplain : ∀ before name after : String, IsHoleName name.toList →
      "@\x7b\x7d @\x7b n\x7d" ≠ before ++ placeholder name ++ after := by
    intro before name after hname heq
    have hlist := congrArg String.toList heq
    rw [toList_around_placeholder] at hlist
    have hpieces : pieces braced? "@\x7b\x7d @\x7b n\x7d".toList =
        "@\x7b\x7d @\x7b n\x7d".toList.map .char := by rfl
    have hwhole : Whole "@\x7b\x7d @\x7b n\x7d".toList := by
      intro name raw
      rw [hpieces]
      simp
    exact whole_iff.1 hwhole _ _ _ hname hlist
  refine ⟨((view.interpolate_append).1 "@\x7b" "n" "m\x7d" hname).trans ?_,
    (view.interpolate_append).2 _ hplain⟩
  decide +kernel

end View

/-- A view in which these variables are empty. -/
def blankView (names : List String) : View :=
  ⟨⟨#[⟨.root, names.map fun n => .binding n (.keyword ""), none⟩]⟩, Arena.root, none⟩

/-- In such a view the variables are found, and they are empty. -/
theorem lookup_blankView {names : List String} {name : String} (h : name ∈ names) :
    (blankView names).lookup name = .ok (.keyword "") := by
  have hown : (blankView names).arena.ownValue? Arena.root name = some (.keyword "") := by
    have hlog : (blankView names).arena.log Arena.root =
        names.map fun n => .binding n (.keyword "") := rfl
    have hsome : ((blankView names).arena.ownValue? Arena.root name).isSome := by
      simp [Arena.ownValue?, hlog, Arena.bound?, h]
    obtain ⟨v, hv⟩ := Option.isSome_iff_exists.1 hsome
    obtain ⟨e, he, hbound⟩ := List.exists_of_findSome?_eq_some hv
    rw [hlog, List.mem_reverse] at he
    obtain ⟨n, -, rfl⟩ := List.mem_map.1 he
    rw [hv, ← hbound, Arena.bound?]
    simp [Arena.bound?] at hbound
    simp [hbound]
  have hlookup : (blankView names).arena.lookup (blankView names).scope name =
      some (.keyword "") := by
    simp only [Arena.lookup, Arena.search, Arena.visit, List.contains_nil, Bool.false_eq_true,
      if_false]
    rw [show (blankView names).scope = Arena.root from rfl, hown]
  simp only [View.lookup, hlookup]

end LessSheet
