import LessSheet.Text.Trim
import Mathlib.Data.List.Chain
import Mathlib.Data.List.DropRight

/-! # Texts that appear in a text

Texts appear in a text if they stand in it one after the other (`AppearIn`). Trimming the text cuts
off none of them, provided that the first does not begin with white space and the last does not end
with it (`AppearIn.trim`).

Collapsing white space changes every run of it that is not a single space. What comes out is single
spaced (`singleSpaced_collapse`), so only single spaced texts can appear in it. Those that have no
white space at their ends appear there if they appeared before (`AppearIn.collapse`).
-/

namespace LessSheet.Text

/-- Texts stand in a text, in this order and without overlap. -/
def AppearIn : List (List Char) → List Char → Prop
  | [], _ => True
  | t :: ts, s => ∃ before after, s = before ++ t ++ after ∧ AppearIn ts after

/-- `AppearIn` on strings. -/
def Appear (ts : List String) (s : String) : Prop := AppearIn (ts.map String.toList) s.toList

section
variable {ts us : List (List Char)} {s t r : List Char}

/-! ## Texts next to each other -/

/-- Texts that stand in a text stand in it with something before it. -/
theorem AppearIn.append_left (h : AppearIn ts s) (r : List Char) : AppearIn ts (r ++ s) := by
  cases ts with
  | nil => trivial
  | cons t ts =>
    obtain ⟨before, after, rfl, hafter⟩ := h
    exact ⟨r ++ before, after, by simp only [List.append_assoc], hafter⟩

/-- What appears in two texts appears in the one followed by the other. -/
theorem AppearIn.append (hs : AppearIn ts s) (hr : AppearIn us r) :
    AppearIn (ts ++ us) (s ++ r) := by
  induction ts generalizing s with
  | nil => exact hr.append_left s
  | cons t ts ih =>
    obtain ⟨before, after, rfl, hafter⟩ := hs
    exact ⟨before, after ++ r, by simp only [List.append_assoc], ih hafter⟩

/-- Texts that stand in a text stand in it with something behind it. -/
theorem AppearIn.append_right (h : AppearIn ts s) (r : List Char) : AppearIn ts (s ++ r) := by
  have hnone : AppearIn [] r := trivial
  have hboth := h.append hnone
  rwa [List.append_nil] at hboth

/-- A text stands in itself. -/
theorem appearIn_self (s : List Char) : AppearIn [s] s :=
  ⟨[], [], by simp, trivial⟩

/-- Some of the texts that appear in a text appear there too. -/
theorem AppearIn.sublist (h : AppearIn ts s) (hsub : us.Sublist ts) : AppearIn us s := by
  induction hsub generalizing s with
  | slnil => trivial
  | cons t _ ih =>
    obtain ⟨before, after, rfl, hafter⟩ := h
    exact (ih hafter).append_left _
  | cons_cons t _ ih =>
    obtain ⟨before, after, rfl, hafter⟩ := h
    exact ⟨before, after, rfl, ih hafter⟩

/-- A text that appears in a text is a part of it. -/
theorem AppearIn.part (h : AppearIn ts s) (ht : t ∈ ts) : t <:+: s := by
  obtain ⟨before, after, rfl, -⟩ := h.sublist (List.singleton_sublist.2 ht)
  exact ⟨before, after, rfl⟩

/-- A separator before every text but the first. -/
theorem intercalate_cons (sep s : List Char) (ss : List (List Char)) :
    sep.intercalate (s :: ss) = s ++ ss.flatMap (sep ++ ·) := by
  induction ss generalizing s with
  | nil => simp
  | cons t ss ih => simp [List.intercalate_cons_cons, ih]

/-! ## Strings next to each other -/

/-- Texts of two texts stand in these, one after the other. -/
theorem Appear.append {ts us : List String} {s r : String} (hs : Appear ts s) (hr : Appear us r) :
    Appear (ts ++ us) (s ++ r) := by
  rw [Appear, List.map_append, String.toList_append]
  exact AppearIn.append hs hr

/-- Strings that appear in one appear in it with something before it. -/
theorem Appear.append_left {ts : List String} {s : String} (h : Appear ts s) (r : String) :
    Appear ts (r ++ s) := by
  rw [Appear, String.toList_append]
  exact AppearIn.append_left h _

/-- Strings that appear in one appear in it with something behind it. -/
theorem Appear.append_right {ts : List String} {s : String} (h : Appear ts s) (r : String) :
    Appear ts (s ++ r) := by
  rw [Appear, String.toList_append]
  exact AppearIn.append_right h _

/-- A text appears in itself. -/
theorem appear_self (s : String) : Appear [s] s := appearIn_self s.toList

/-- Of texts that appear any may be left out. -/
theorem Appear.sublist {ts us : List String} {s : String} (h : Appear ts s) (hsub : us.Sublist ts) :
    Appear us s := AppearIn.sublist h (hsub.map _)

/-- What appears in each of some texts appears in all of them put together. -/
theorem appear_join {α : Type} {marks : α → List String} {text : α → String}
    (h : ∀ a, Appear (marks a) (text a)) (as : List α) :
    Appear (as.flatMap marks) (String.join (as.map text)) := by
  induction as with
  | nil => trivial
  | cons a as ih =>
    rw [List.flatMap_cons, List.map_cons, String.join_cons]
    exact (h a).append ih

/-! ## Ends without white space -/

/-- A text that begins with a character other than white space. -/
def FirmStart (t : List Char) : Prop := ∃ c r, t = c :: r ∧ isBlank c = false

/-- A text that ends with a character other than white space. -/
def FirmEnd (t : List Char) : Prop := ∃ r c, t = r ++ [c] ∧ isBlank c = false

/-- The end of a text does not change with what is before it. -/
theorem FirmEnd.append_left (h : FirmEnd t) (r : List Char) : FirmEnd (r ++ t) := by
  obtain ⟨u, c, rfl, hc⟩ := h
  exact ⟨r ++ u, c, (List.append_assoc _ _ _).symm, hc⟩

/-- The start of a text does not change with what is behind it. -/
theorem FirmStart.append_right (h : FirmStart t) (r : List Char) : FirmStart (t ++ r) := by
  obtain ⟨c, u, rfl, hc⟩ := h
  exact ⟨c, u ++ r, rfl, hc⟩

/-- White space is dropped up to a character other than white space at the latest. -/
theorem dropWhile_isBlank {c : Char} (hc : isBlank c = false) (before after : List Char) :
    ∃ kept, (before ++ c :: after).dropWhile isBlank = kept ++ c :: after := by
  induction before with
  | nil => exact ⟨[], by simp [hc]⟩
  | cons b before ih =>
    cases hb : isBlank b with
    | true => simpa [hb] using ih
    | false => exact ⟨b :: before, by simp [hb]⟩

/-- What is left by trimming has no white space at its ends, unless nothing is left. -/
theorem trim_firm (s : List Char) : trim s = [] ∨ FirmStart (trim s) ∧ FirmEnd (trim s) := by
  have hdropped : ∀ t : List Char, t.dropWhile isBlank = [] ∨ FirmStart (t.dropWhile isBlank) := by
    intro t
    induction t with
    | nil => exact .inl rfl
    | cons c t ih =>
      cases hc : isBlank c with
      | true => simpa [hc] using ih
      | false => exact .inr ⟨c, t, by simp [hc], hc⟩
  rcases hdropped (s.dropWhile isBlank).reverse with hnil | ⟨c, r, hr, hc⟩
  · exact .inl (by rw [trim, hnil]; rfl)
  have htrim : trim s = r.reverse ++ [c] := by rw [trim, hr, List.reverse_cons]
  refine .inr ⟨?_, r.reverse, c, htrim, hc⟩
  -- what is cut off at the end does not change the beginning
  rcases hdropped s with hnil | ⟨d, u, hu, hd⟩
  · rw [hnil] at hr
    cases hr
  · have hfirst : trim s <+: d :: u := by
      rw [← hu, ← List.reverse_suffix]
      simpa [trim] using List.dropWhile_suffix isBlank
    rw [htrim] at hfirst ⊢
    cases hv : r.reverse with
    | nil =>
      rw [hv] at hfirst
      exact ⟨c, [], rfl, hc⟩
    | cons e v =>
      rw [hv, List.cons_append, List.cons_prefix_cons] at hfirst
      exact ⟨e, v ++ [c], rfl, hfirst.1 ▸ hd⟩

/-- A text without white space at its ends is trimmed already. -/
theorem trim_of_firm (hstart : FirmStart t) (hend : FirmEnd t) : trim t = t := by
  have hfirst : t.dropWhile isBlank = t := by
    obtain ⟨c, r, rfl, hc⟩ := hstart
    exact List.dropWhile_cons_of_neg (by simp [hc])
  obtain ⟨u, d, rfl, hd⟩ := hend
  rw [trim, hfirst]
  simp [hd]

/-- A text without white space is trimmed already. -/
theorem trim_of_forall (h : ∀ c ∈ t, isBlank c = false) : trim t = t := by
  cases t with
  | nil => rfl
  | cons c r =>
    obtain ⟨u, d, hlast⟩ := List.eq_nil_or_concat (c :: r) |>.resolve_left (List.cons_ne_nil c r)
    have hd : d ∈ c :: r := by simp [hlast]
    exact trim_of_firm ⟨c, r, rfl, h c (.head _)⟩ ⟨u, d, by simpa using hlast, h d hd⟩

/-- White space at the start makes no difference to a trimmed text. -/
theorem trim_dropWhile (s : List Char) : trim (s.dropWhile isBlank) = trim s := by
  rw [trim, trim, List.dropWhile_idempotent]

/-- White space at the end makes no difference to a trimmed text. -/
theorem trim_append_blank {c : Char} (hc : isBlank c = true) (s : List Char) :
    trim (s ++ [c]) = trim s := by
  rw [trim, trim, List.dropWhile_append]
  split
  · next hempty => simp [List.isEmpty_iff.1 hempty, hc]
  · simp [hc]

/-- Trimming adds nothing. -/
theorem mem_of_mem_trim {c : Char} (h : c ∈ trim s) : c ∈ s := by
  have hsuffix := List.dropWhile_suffix isBlank (l := (s.dropWhile isBlank).reverse)
  have hmem := hsuffix.subset (List.mem_reverse.1 h)
  exact (List.dropWhile_suffix isBlank).subset (List.mem_reverse.1 hmem)

/-- Texts of which the last ends firmly end in front of what may be cut off. -/
theorem AppearIn.upto_firm (h : AppearIn ts s) (hlast : ∃ t ∈ ts.getLast?, FirmEnd t) :
    ∃ u c v, s = u ++ c :: v ∧ isBlank c = false ∧ AppearIn ts (u ++ [c]) := by
  induction ts generalizing s with
  | nil =>
    obtain ⟨t, ht, -⟩ := hlast
    cases ht
  | cons t ts ih =>
    obtain ⟨before, after, rfl, hafter⟩ := h
    cases ts with
    | nil =>
      obtain ⟨_, ht, r, c, rfl, hc⟩ := hlast
      cases ht
      refine ⟨before ++ r, c, after, by simp, hc, before, [], by simp, trivial⟩
    | cons t' ts =>
      rw [List.getLast?_cons_cons] at hlast
      obtain ⟨u, c, v, rfl, hc, happear⟩ := ih hafter hlast
      refine ⟨before ++ t ++ u, c, v, by simp, hc, before, u ++ [c], by simp, happear⟩

/-- Trimming a text cuts off none of the texts in it. -/
theorem AppearIn.trim (h : AppearIn ts s) (hfirst : ∃ t ∈ ts.head?, FirmStart t)
    (hlast : ∃ t ∈ ts.getLast?, FirmEnd t) : AppearIn ts (trim s) := by
  have hleft : AppearIn ts (s.dropWhile isBlank) := by
    cases ts with
    | nil => trivial
    | cons t ts =>
      obtain ⟨_, ht, c, r, rfl, hc⟩ := hfirst
      cases ht
      obtain ⟨before, after, rfl, hafter⟩ := h
      obtain ⟨kept, hkept⟩ := dropWhile_isBlank hc before (r ++ after)
      exact ⟨kept, after, by simpa using hkept, hafter⟩
  obtain ⟨u, c, v, hs, hc, happear⟩ := hleft.upto_firm hlast
  obtain ⟨kept, hkept⟩ := dropWhile_isBlank hc v.reverse u.reverse
  have htrim : Text.trim s = u ++ [c] ++ kept.reverse := by
    rw [Text.trim, hs]
    simpa using congrArg List.reverse hkept
  rw [htrim]
  exact happear.append_right _

/-! ## Collapsed text -/

/-- A text in which white space is a single space everywhere. -/
def SingleSpaced (s : List Char) : Prop :=
  s.IsChain (fun a b => isBlank a = true → isBlank b = false) ∧ ∀ c ∈ s, isBlank c = true → c = ' '

/-- What is left of a text by collapsing, where it follows a character other than white space. -/
def resume (s : List Char) : List Char :=
  if s.head?.any isBlank = true ∧ collapse s ≠ [] then ' ' :: collapse s else collapse s

variable {c : Char}

/-- White space at the start is dropped. -/
theorem collapse_blank (hc : isBlank c = true) (s : List Char) :
    collapse (c :: s) = collapse s := by
  rw [collapse, words, if_pos hc]
  rfl

/-- A text that does not start with white space has a word. -/
theorem words_ne_nil (hc : isBlank c = false) (s : List Char) : words (c :: s) ≠ [] := by
  rw [words, if_neg (by simp [hc])]
  split
  · exact List.cons_ne_nil _ _
  · split <;> exact List.cons_ne_nil _ _

/-- Words are not empty, so a text with a word is not collapsed to nothing. -/
theorem collapse_eq_nil (s : List Char) : collapse s = [] ↔ words s = [] := by
  refine ⟨fun h => ?_, fun h => by rw [collapse, h]; rfl⟩
  induction s with
  | nil => rfl
  | cons c s ih =>
    cases hc : isBlank c with
    | true =>
      rw [collapse_blank hc] at h
      rw [words, if_pos hc]
      exact ih h
    | false =>
      rw [collapse, words, if_neg (by simp [hc])] at h
      split at h
      · rw [List.intercalate_cons_cons_left] at h
        cases h
      · split at h
        · rw [List.intercalate_singleton] at h
          cases h
        · rw [List.intercalate_cons_cons_left] at h
          cases h

/-- A character other than white space is kept. -/
theorem collapse_cons (hc : isBlank c = false) (s : List Char) :
    collapse (c :: s) = c :: resume s := by
  rw [collapse, words, if_neg (by simp [hc])]
  cases s with
  | nil => rfl
  | cons d s =>
    cases hd : isBlank d with
    | true =>
      rw [if_pos (by simp [hd]), resume]
      cases hw : words (d :: s) with
      | nil =>
        have hnil : collapse (d :: s) = [] := (collapse_eq_nil _).2 hw
        simp [hnil]
      | cons w ws =>
        have hne : collapse (d :: s) ≠ [] := by
          rw [ne_eq, collapse_eq_nil, hw]
          exact List.cons_ne_nil _ _
        rw [if_pos ⟨by simp [hd], hne⟩, List.intercalate_cons_cons, ← hw]
        rfl
    | false =>
      rw [if_neg (by simp [hd]), resume, if_neg (by simp [hd])]
      have hne := words_ne_nil hd s
      cases hw : words (d :: s) with
      | nil => exact absurd hw hne
      | cons w ws => rw [List.intercalate_cons_cons_left, ← hw]; rfl

/-- A character other than white space is kept as it is. -/
theorem resume_cons (hc : isBlank c = false) (s : List Char) : resume (c :: s) = c :: resume s := by
  rw [resume, if_neg (by simp [hc]), collapse_cons hc]

/-- White space after a character other than white space is one space, if anything follows. -/
theorem resume_blank (hc : isBlank c = true) (s : List Char) :
    resume (c :: s) = if collapse s = [] then [] else ' ' :: collapse s := by
  rw [resume, collapse_blank hc]
  by_cases h : collapse s = [] <;> simp [h, hc]

/-- Up to a character other than white space, text is collapsed on its own. -/
theorem collapse_append_cons (hc : isBlank c = false) (before after : List Char) :
    (∃ kept, collapse (before ++ c :: after) = kept ++ c :: resume after) ∧
      ∃ kept, resume (before ++ c :: after) = kept ++ c :: resume after := by
  induction before with
  | nil => exact ⟨⟨[], collapse_cons hc after⟩, ⟨[], resume_cons hc after⟩⟩
  | cons b before ih =>
    obtain ⟨⟨kept, hkept⟩, ⟨left, hleft⟩⟩ := ih
    cases hb : isBlank b with
    | true =>
      refine ⟨⟨kept, ?_⟩, ⟨' ' :: kept, ?_⟩⟩
      · rw [List.cons_append, collapse_blank hb, hkept]
      · rw [List.cons_append, resume_blank hb, hkept, if_neg (by simp)]
        rfl
    | false =>
      refine ⟨⟨b :: left, ?_⟩, ⟨b :: left, ?_⟩⟩
      · rw [List.cons_append, collapse_cons hb, hleft]
        rfl
      · rw [List.cons_append, resume_cons hb, hleft]
        rfl

/-- Single spaced text that ends firmly is kept. -/
theorem resume_append (hs : SingleSpaced s) (hend : s = [] ∨ FirmEnd s) (r : List Char) :
    resume (s ++ r) = s ++ resume r := by
  induction s with
  | nil => rfl
  | cons c s ih =>
    have htail : SingleSpaced s := ⟨hs.1.tail, fun d hd => hs.2 d (.tail _ hd)⟩
    have hfirm : s = [] ∨ FirmEnd s := by
      obtain h | ⟨u, d, h, hd⟩ := hend
      · cases h
      · cases u with
        | nil => exact .inl (List.cons.inj h).2
        | cons _ u => exact .inr ⟨u, d, (List.cons.inj h).2, hd⟩
    have hkept := ih htail hfirm
    cases hc : isBlank c with
    | false => rw [List.cons_append, resume_cons hc, hkept, List.cons_append]
    | true =>
      -- a blank is not at the end, and what follows it is none
      cases s with
      | nil =>
        obtain h | ⟨u, d, h, hd⟩ := hend
        · cases h
        · cases u with
          | nil =>
            cases h
            rw [hc] at hd
            cases hd
          | cons _ u => cases u <;> cases h
      | cons d s =>
        have hd : isBlank d = false := (List.isChain_cons_cons.1 hs.1).1 hc
        rw [List.cons_append, resume_cons hd] at hkept
        rw [List.cons_append, resume_blank hc, List.cons_append, collapse_cons hd, if_neg (by simp),
          hkept, hs.2 c (.head _) hc]
        rfl

/-- Collapsing a text keeps the single spaced texts in it that have no white space at their ends. -/
theorem AppearIn.collapse (h : AppearIn ts s)
    (hfirm : ∀ t ∈ ts, FirmStart t ∧ FirmEnd t ∧ SingleSpaced t) :
    AppearIn ts (collapse s) ∧ AppearIn ts (resume s) := by
  induction ts generalizing s with
  | nil => exact ⟨trivial, trivial⟩
  | cons t ts ih =>
    obtain ⟨before, after, rfl, hafter⟩ := h
    obtain ⟨⟨c, r, ht, hc⟩, hend, hspaced⟩ := hfirm t (.head _)
    have hrest : c :: resume (r ++ after) = t ++ resume after := by
      rw [← resume_cons hc, ← List.cons_append, ← ht]
      exact resume_append hspaced (.inr hend) after
    have hsplit : before ++ t ++ after = before ++ c :: (r ++ after) := by simp [ht]
    obtain ⟨⟨kept, hkept⟩, ⟨left, hleft⟩⟩ := collapse_append_cons hc before (r ++ after)
    have hlater := (ih hafter fun u hu => hfirm u (.tail _ hu)).2
    refine ⟨⟨kept, resume after, ?_, hlater⟩, ⟨left, resume after, ?_, hlater⟩⟩
    · rw [hsplit, hkept, hrest, List.append_assoc]
    · rw [hsplit, hleft, hrest, List.append_assoc]

/-- A part of a single spaced text is single spaced. -/
theorem SingleSpaced.part (hs : SingleSpaced s) (h : t <:+: s) : SingleSpaced t := by
  refine ⟨?_, fun c hc => hs.2 c (h.subset hc)⟩
  obtain ⟨before, after, rfl⟩ := h
  exact hs.1.left_of_append.right_of_append

/-- A character other than white space may stand before single-spaced text. -/
theorem SingleSpaced.cons (hs : SingleSpaced s) (hc : isBlank c = false) :
    SingleSpaced (c :: s) := by
  refine ⟨List.isChain_cons.2 ⟨fun _ _ h => ?_, hs.1⟩, fun d hd hblank => ?_⟩
  · rw [hc] at h
    cases h
  · rcases List.mem_cons.1 hd with rfl | hd
    · rw [hc] at hblank
      cases hblank
    · exact hs.2 d hd hblank

/-- Collapsed text is single spaced. -/
theorem singleSpaced_collapse (s : List Char) : SingleSpaced (collapse s) := by
  suffices h : SingleSpaced (collapse s) ∧ SingleSpaced (resume s) ∧
      ∀ c ∈ (collapse s).head?, isBlank c = false from h.1
  induction s with
  | nil => exact ⟨⟨.nil, nofun⟩, ⟨.nil, nofun⟩, nofun⟩
  | cons c s ih =>
    obtain ⟨hcollapse, hresume, hhead⟩ := ih
    cases hc : isBlank c with
    | false =>
      rw [collapse_cons hc, resume_cons hc]
      refine ⟨hresume.cons hc, hresume.cons hc, fun d hd => ?_⟩
      cases hd
      exact hc
    | true =>
      rw [collapse_blank hc, resume_blank hc]
      refine ⟨hcollapse, ?_, hhead⟩
      split
      · exact ⟨.nil, nofun⟩
      · refine ⟨List.isChain_cons.2 ⟨fun d hd _ => hhead d hd, hcollapse.1⟩, fun d hd hblank => ?_⟩
        rcases List.mem_cons.1 hd with rfl | hd
        · rfl
        · exact hcollapse.2 d hd hblank

end

end LessSheet.Text
