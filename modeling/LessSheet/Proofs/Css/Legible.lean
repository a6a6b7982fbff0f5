import LessSheet.Css.Text
import LessSheet.Proofs.Text.Appearance
import Mathlib.Tactic.MkIffOfInductiveProp

/-! # Reading the pretty layout back

A stylesheet without comments can be told from its pretty layout, provided that its texts hold none
of the characters that the layout itself puts between them (`Sheet.Plain`): two such stylesheets
with the same text are the same (`Sheet.pretty_inj`).

What is written of a property, an import or a block can be cut off the front of any text, because
the first character that ends a statement or bounds a block says what comes first (`delimiter?`): a
semicolon for a property or an import, an opening brace for a block, and a closing brace for the end
of a block. Line breaks play no part in this, and may be anywhere in a text.
-/

namespace LessSheet.Css

open Text

/-! ## Cutting texts -/

/-- The characters that end statements and bound blocks. -/
def isDelimiter (c : Char) : Bool := c == ';' || c == '{' || c == '}'

/-- The first character of a text that ends a statement or bounds a block. -/
def delimiter? (s : List Char) : Option Char := s.find? isDelimiter

/-- A text without such characters. -/
def Clear (s : List Char) : Prop := ∀ c ∈ s, isDelimiter c = false

-- by going through the text, and not through all characters
instance (s : List Char) : Decidable (Clear s) :=
  List.decidableBAll (fun c => isDelimiter c = false) s

section
variable {s t r u : List Char} {c : Char}

/-- Two texts without delimiters, one after the other. -/
theorem Clear.append (hs : Clear s) (ht : Clear t) : Clear (s ++ t) := by
  intro c hc
  exact (List.mem_append.1 hc).elim (hs c) (ht c)

/-- A space is no delimiter. -/
theorem clear_space : Clear [' '] := by decide

/-- A delimiter is in no clear text. -/
theorem Clear.not_mem (hs : Clear s) (hc : isDelimiter c = true) : c ∉ s := by
  intro h
  rw [hs c h] at hc
  cases hc

/-- A clear text and a delimiter after it. -/
theorem Clear.delimiter?_append (hs : Clear s) (r : List Char) :
    delimiter? (s ++ r) = delimiter? r := by
  have hnone : s.find? isDelimiter = none := List.find?_eq_none.2 fun c hc => by simp [hs c hc]
  rw [delimiter?, List.find?_append, hnone]
  rfl

/-- A delimiter that comes first is the first one. -/
theorem delimiter?_cons (hc : isDelimiter c = true) (r : List Char) :
    delimiter? (c :: r) = some c := by
  rw [delimiter?, List.find?_cons_of_pos hc]

/-- Two texts up to a character that neither of them has. -/
theorem cut_at (hs : c ∉ s) (ht : c ∉ t) (h : s ++ c :: r = t ++ c :: u) : s = t ∧ r = u := by
  induction s generalizing t with
  | nil =>
    cases t with
    | nil => exact ⟨rfl, (List.cons.inj h).2⟩
    | cons a t => exact absurd ((List.cons.inj h).1 ▸ List.mem_cons_self) ht
  | cons a s ih =>
    cases t with
    | nil => exact absurd ((List.cons.inj h).1 ▸ List.mem_cons_self) hs
    | cons b t =>
      obtain ⟨rfl, hrest⟩ := List.cons.inj h
      obtain ⟨rfl, rfl⟩ :=
        ih (List.not_mem_of_not_mem_cons hs) (List.not_mem_of_not_mem_cons ht) hrest
      exact ⟨rfl, rfl⟩

/-- Texts without commas can be told from the text that has a comma between two of them. -/
theorem comma_separated_inj : ∀ {ss ts : List (List Char)}, (∀ s ∈ ss, ',' ∉ s) →
    (∀ t ∈ ts, ',' ∉ t) → ss ≠ [] → ts ≠ [] →
    [',', ' '].intercalate ss = [',', ' '].intercalate ts → ss = ts
  | [], _, _, _, hs, _, _ => absurd rfl hs
  | _, [], _, _, _, ht, _ => absurd rfl ht
  | [s], [t], _, _, _, _, h => by simpa using h
  | [s], t :: t' :: ts, hss, _, _, _, h => by
    refine absurd ?_ (hss s List.mem_cons_self)
    rw [List.intercalate_singleton] at h
    simp [h]
  | s :: s' :: ss, [t], _, hts, _, _, h => by
    refine absurd ?_ (hts t List.mem_cons_self)
    rw [List.intercalate_singleton] at h
    simp [← h]
  | s :: s' :: ss, t :: t' :: ts, hss, hts, _, _, h => by
    simp only [List.intercalate_cons_cons, List.append_assoc, List.cons_append] at h
    obtain ⟨rfl, hrest⟩ := cut_at (hss s List.mem_cons_self) (hts t List.mem_cons_self) h
    have htail : s' :: ss = t' :: ts :=
      comma_separated_inj (fun x hx => hss x (List.mem_cons_of_mem _ hx))
        (fun x hx => hts x (List.mem_cons_of_mem _ hx)) (List.cons_ne_nil _ _)
        (List.cons_ne_nil _ _) (List.cons.inj hrest).2
    rw [htail]

end

/-- Items can be told from their texts put together, if they can be told one by one and the first
delimiter says whether there is another. -/
theorem cut_items {α : Type} {text : α → List Char} {P : α → Prop} {c : Char}
    (hcut : ∀ {a b}, P a → P b → ∀ {r u}, text a ++ r = text b ++ u → a = b ∧ r = u)
    (hfirst : ∀ {a}, P a → ∀ r, delimiter? (text a ++ r) = some c) :
    ∀ {as bs : List α} {r u : List Char}, (∀ a ∈ as, P a) → (∀ b ∈ bs, P b) →
      delimiter? r ≠ some c → delimiter? u ≠ some c →
      as.flatMap text ++ r = bs.flatMap text ++ u → as = bs ∧ r = u
  | [], [], r, u, _, _, _, _, h => ⟨rfl, h⟩
  | [], b :: bs, r, u, _, hbs, hr, _, h => by
    refine absurd ?_ hr
    rw [List.flatMap_cons, List.append_assoc] at h
    exact (congrArg delimiter? h).trans (hfirst (hbs b List.mem_cons_self) _)
  | a :: as, [], r, u, has, _, _, hu, h => by
    refine absurd ?_ hu
    rw [List.flatMap_cons, List.append_assoc] at h
    exact (congrArg delimiter? h.symm).trans (hfirst (has a List.mem_cons_self) _)
  | a :: as, b :: bs, r, u, has, hbs, hr, hu, h => by
    simp only [List.flatMap_cons, List.append_assoc] at h
    obtain ⟨rfl, hrest⟩ := hcut (has a List.mem_cons_self) (hbs b List.mem_cons_self) h
    obtain ⟨rfl, rfl⟩ := cut_items hcut hfirst (fun x hx => has x (List.mem_cons_of_mem _ hx))
      (fun x hx => hbs x (List.mem_cons_of_mem _ hx)) hr hu hrest
    exact ⟨rfl, rfl⟩

/-! ## Plain stylesheets -/

/-- A text that is not empty, has no white space at its ends, and neither a semicolon nor a brace
anywhere. -/
@[mk_iff]
structure PlainText (s : String) : Prop where
  nonempty : s ≠ ""
  trimmed : trimString s = s
  clear : Clear s.toList

/-- An import: a text with one semicolon, at its end. -/
@[mk_iff]
structure PlainImport (s : String) : Prop where
  trimmed : trimString s = s
  clear : Clear s.toList.dropLast
  semicolon : s.toList.getLast? = some ';'

/-- A selector that is no list and does not look like an at-rule. -/
@[mk_iff]
structure PlainSelector (s : String) : Prop extends PlainText s where
  single : ',' ∉ s.toList
  noAt : s.toList.head? ≠ some '@'

/-- A property with a name that ends at the colon, and a value without a mark of importance. -/
@[mk_iff]
structure Property.Plain (p : Property) : Prop where
  name : PlainText p.name
  value : PlainText p.value
  noColon : ':' ∉ p.name.toList
  noMark : '!' ∉ p.value.toList
  comments : p.comments = {}

mutual

/-- A block that is written, with plain texts. An at-rule may have no parameters, no properties and
no blocks in it. -/
def Block.Plain : Block → Prop
  | .rule selectors properties comments =>
    (selectors ≠ [] ∧ ∀ s ∈ selectors, PlainSelector s) ∧
    (properties ≠ [] ∧ ∀ p ∈ properties, p.Plain) ∧ comments = {}
  | .atRule name params properties children comments =>
    (PlainText name ∧ name.toList.any isBlank = false) ∧ (params = "" ∨ PlainText params) ∧
    (∀ p ∈ properties, p.Plain) ∧ PlainAll children ∧ comments = {}

/-- Plain blocks. -/
def PlainAll : List Block → Prop
  | [] => True
  | b :: bs => b.Plain ∧ PlainAll bs

end

/-- A stylesheet without comments, whose texts do not interfere with the layout. -/
@[mk_iff]
structure Sheet.Plain (sheet : Sheet) : Prop where
  imports : ∀ i ∈ sheet.imports, PlainImport i
  blocks : PlainAll sheet.blocks

instance (s : String) : Decidable (PlainText s) := decidable_of_iff' _ (plainText_iff s)

instance (s : String) : Decidable (PlainImport s) := decidable_of_iff' _ (plainImport_iff s)

instance (s : String) : Decidable (PlainSelector s) := decidable_of_iff' _ (plainSelector_iff s)

instance (p : Property) : Decidable p.Plain := decidable_of_iff' _ (Property.plain_iff p)

mutual

/-- Whether a block is plain. -/
def Block.decidePlain : (b : Block) → Decidable b.Plain
  | .rule selectors properties comments =>
    inferInstanceAs (Decidable ((selectors ≠ [] ∧ ∀ s ∈ selectors, PlainSelector s) ∧
      (properties ≠ [] ∧ ∀ p ∈ properties, p.Plain) ∧ comments = {}))
  | .atRule name params properties children comments =>
    have := decidePlainAll children
    inferInstanceAs (Decidable ((PlainText name ∧ name.toList.any isBlank = false) ∧
      (params = "" ∨ PlainText params) ∧ (∀ p ∈ properties, p.Plain) ∧ PlainAll children ∧
      comments = {}))

/-- Whether blocks are plain. -/
def decidePlainAll : (bs : List Block) → Decidable (PlainAll bs)
  | [] => .isTrue trivial
  | b :: bs =>
    have := b.decidePlain
    have := decidePlainAll bs
    inferInstanceAs (Decidable (b.Plain ∧ PlainAll bs))

end

instance (bs : List Block) : Decidable (PlainAll bs) := decidePlainAll bs

instance (sheet : Sheet) : Decidable sheet.Plain := decidable_of_iff' _ (Sheet.plain_iff sheet)

/-! ## Properties -/

/-- A text that trimming leaves alone has no white space at its ends. -/
theorem firm_of_trimmed {s : String} (hne : s ≠ "") (h : trimString s = s) :
    FirmStart s.toList ∧ FirmEnd s.toList := by
  have htrim := congrArg String.toList h
  rw [trimString, String.toList_ofList] at htrim
  rcases trim_firm s.toList with hnil | hfirm
  · rw [htrim, String.toList_eq_nil_iff] at hnil
    exact absurd hnil hne
  · rwa [htrim] at hfirm

/-- Indentation has no delimiters. -/
theorem clear_indent (level : Nat) : Clear (indent level).toList := by
  intro c hc
  rw [indent, String.toList_join] at hc
  obtain ⟨s, hs, hc⟩ := List.mem_flatMap.1 hc
  rw [List.eq_of_mem_replicate hs] at hc
  have hspace : Clear "  ".toList := by decide
  exact hspace c hc

/-- The value of a property with its mark. -/
def Property.shown (p : Property) : List Char :=
  p.value.toList ++ (if p.important then " !important" else "").toList

/-- The pretty text of a plain property, character by character. -/
theorem Property.toList_pretty {p : Property} (hp : p.Plain) (level : Nat) :
    (p.pretty level).toList = (indent level).toList ++ (p.name.toList ++ ':' :: ' ' ::
      (p.shown ++ [';', '\n'])) := by
  simp [Property.pretty, leadingText, trailingText, hp.comments, hp.name.trimmed, hp.value.trimmed,
    Property.shown]

/-- A plain value has no delimiters, and neither does the mark. -/
theorem Property.Plain.clear_shown {p : Property} (hp : p.Plain) : Clear p.shown := by
  refine hp.value.clear.append ?_
  cases p.important <;> decide

/-- A value and its mark can be told from the two together: the value has no exclamation mark. -/
theorem Property.Plain.shown_inj {p q : Property} (hp : p.Plain) (hq : q.Plain)
    (h : p.shown = q.shown) : p.value = q.value ∧ p.important = q.important := by
  have hmark : '!' ∈ " !important".toList := by decide
  unfold Property.shown at h
  cases hpi : p.important <;> cases hqi : q.important <;>
    simp only [hpi, hqi, if_true, if_false, Bool.false_eq_true, String.toList_empty,
      List.append_nil] at h
  · exact ⟨String.toList_inj.1 h, rfl⟩
  · exact absurd (h ▸ List.mem_append_right _ hmark) hp.noMark
  · exact absurd (h ▸ List.mem_append_right _ hmark) hq.noMark
  · exact ⟨String.toList_inj.1 (List.append_cancel_right h), rfl⟩

/-- A plain property can be cut off what follows it. -/
theorem Property.Plain.cut {p q : Property} (hp : p.Plain) (hq : q.Plain) {level : Nat}
    {r u : List Char} (h : (p.pretty level).toList ++ r = (q.pretty level).toList ++ u) :
    p = q ∧ r = u := by
  rw [toList_pretty hp, toList_pretty hq] at h
  simp only [List.append_assoc, List.cons_append] at h
  obtain ⟨hname, hvalue⟩ := cut_at hp.noColon hq.noColon (List.append_cancel_left h)
  obtain ⟨hshown, hrest⟩ := cut_at (hp.clear_shown.not_mem rfl) (hq.clear_shown.not_mem rfl)
    (List.cons.inj hvalue).2
  obtain ⟨hvalue, himportant⟩ := hp.shown_inj hq hshown
  refine ⟨?_, (List.cons.inj hrest).2⟩
  cases p
  cases q
  cases String.toList_inj.1 hname
  cases hvalue
  cases himportant
  cases hp.comments
  cases hq.comments
  rfl

/-- The first delimiter in a property is the semicolon. -/
theorem Property.Plain.first {p : Property} (hp : p.Plain) (level : Nat) (r : List Char) :
    delimiter? ((p.pretty level).toList ++ r) = some ';' := by
  have hclear : Clear ((indent level).toList ++ (p.name.toList ++ ([':', ' '] ++ p.shown))) :=
    (clear_indent level).append (hp.name.clear.append (.append (by decide) hp.clear_shown))
  have hform : (p.pretty level).toList ++ r =
      (indent level).toList ++ (p.name.toList ++ ([':', ' '] ++ p.shown)) ++ ';' :: '\n' :: r := by
    simp [toList_pretty hp]
  rw [hform, hclear.delimiter?_append, delimiter?_cons rfl]

/-- The pretty text of properties is that of each of them. -/
theorem toList_prettyProperties (level : Nat) (ps : List Property) :
    (prettyProperties level ps).toList = ps.flatMap fun p => (p.pretty level).toList := by
  rw [prettyProperties, String.toList_join, List.flatMap_map]

/-- Properties can be cut off what is no property. -/
theorem cut_properties {level : Nat} {ps qs : List Property} {r u : List Char}
    (hps : ∀ p ∈ ps, p.Plain) (hqs : ∀ q ∈ qs, q.Plain) (hr : delimiter? r ≠ some ';')
    (hu : delimiter? u ≠ some ';')
    (h : (prettyProperties level ps).toList ++ r = (prettyProperties level qs).toList ++ u) :
    ps = qs ∧ r = u := by
  rw [toList_prettyProperties, toList_prettyProperties] at h
  exact cut_items (fun hp hq _ _ h => hp.cut hq h) (fun hp => hp.first level) hps hqs hr hu h

/-! ## Blocks -/

/-- What a block has before its opening brace. -/
def Block.header : Block → List Char
  | .rule selectors _ _ => [',', ' '].intercalate (selectors.map String.toList)
  | .atRule name params _ _ _ =>
    '@' :: name.toList ++ (if params = "" then [] else ' ' :: params.toList)

/-- What a block has between its braces. -/
def Block.inside (level : Nat) : Block → List Char
  | .rule _ properties _ => (prettyProperties level properties).toList
  | .atRule _ _ properties children _ =>
    (prettyProperties level properties).toList ++ (prettyBlocks level children).toList

/-- The end of a block, and what comes after it. -/
def closing (level : Nat) (r : List Char) : List Char := (indent level).toList ++ '}' :: '\n' :: r

/-- The pretty text of a plain block is its header, what is inside its braces, and its end. -/
theorem Block.Plain.toList_pretty {b : Block} (hb : b.Plain) (level : Nat) (r : List Char) :
    (b.pretty level).toList ++ r = (indent level).toList ++ (b.header ++ ' ' :: '{' :: '\n' ::
      (b.inside (level + 1) ++ closing level r)) := by
  cases b with
  | rule selectors properties comments =>
    obtain ⟨-, ⟨hne, -⟩, rfl⟩ := hb
    simp [Block.pretty, hne, leadingText, trailingText, Block.header, Block.inside, closing,
      String.toList_intercalate]
  | atRule name params properties children comments =>
    obtain ⟨-, hparams, -, -, rfl⟩ := hb
    have htail : (if params = "" then "" else " " ++ trimString params).toList =
        if params = "" then [] else ' ' :: params.toList := by
      rcases hparams with rfl | hparams
      · rfl
      · simp [hparams.nonempty, hparams.trimmed]
    simp [Block.pretty, leadingText, Block.header, Block.inside, closing, htail]

/-- The selectors of a rule begin with a character that is neither white space nor an at sign. -/
theorem Block.Plain.header_rule {selectors : List String} {properties : List Property}
    {comments : Comments} (hb : (Block.rule selectors properties comments).Plain) :
    ∃ c r, (Block.rule selectors properties comments).header = c :: r ∧ isBlank c = false ∧
      c ≠ '@' := by
  obtain ⟨⟨hne, hselectors⟩, -⟩ := hb
  obtain ⟨s, ss, rfl⟩ := List.exists_cons_of_ne_nil hne
  have hs := hselectors s List.mem_cons_self
  obtain ⟨⟨c, r, hr, hc⟩, -⟩ := firm_of_trimmed hs.nonempty hs.trimmed
  refine ⟨c, r ++ (ss.map String.toList).flatMap ([',', ' '] ++ ·), ?_, hc, fun hat => ?_⟩
  · rw [Block.header, List.map_cons, intercalate_cons, hr, List.cons_append]
  · exact hs.noAt (by rw [hr, hat]; rfl)

/-- Up to its opening brace a block has no delimiters. -/
theorem Block.Plain.clear_header {b : Block} (hb : b.Plain) : Clear b.header := by
  cases b with
  | rule selectors properties comments =>
    obtain ⟨⟨hne, hselectors⟩, -⟩ := hb
    obtain ⟨s, ss, rfl⟩ := List.exists_cons_of_ne_nil hne
    have hcomma : Clear [',', ' '] := by decide
    rw [Block.header, List.map_cons, intercalate_cons]
    refine (hselectors s List.mem_cons_self).clear.append fun c hc => ?_
    obtain ⟨_, htext, hc⟩ := List.mem_flatMap.1 hc
    obtain ⟨t, ht, rfl⟩ := List.mem_map.1 htext
    exact (hcomma.append (hselectors t (List.mem_cons_of_mem s ht)).clear) c hc
  | atRule name params properties children comments =>
    obtain ⟨⟨hname, -⟩, hparams, -⟩ := hb
    have hat : Clear ['@'] := by decide
    refine (hat.append hname.clear).append ?_
    rcases hparams with rfl | hparams
    · decide
    · rw [if_neg hparams.nonempty]
      exact clear_space.append hparams.clear

/-- The selectors of a rule, or the name and the parameters of an at-rule. -/
def Block.title : Block → List String ⊕ (String × String)
  | .rule selectors _ _ => .inl selectors
  | .atRule name params _ _ _ => .inr (name, params)

/-- Selectors without commas can be told from their list. -/
theorem title_inj_rule {ss ts : List String} (hss : ss ≠ []) (hts : ts ≠ [])
    (hs : ∀ s ∈ ss, PlainSelector s) (ht : ∀ t ∈ ts, PlainSelector t)
    (h : [',', ' '].intercalate (ss.map String.toList) =
      [',', ' '].intercalate (ts.map String.toList)) : ss = ts := by
  have hcommas : ∀ {us : List String}, (∀ u ∈ us, PlainSelector u) →
      ∀ x ∈ us.map String.toList, ',' ∉ x := by
    intro us hus x hx
    obtain ⟨u, hu, rfl⟩ := List.mem_map.1 hx
    exact (hus u hu).single
  refine (List.map_inj_right fun _ _ => String.toList_injective).1 ?_
  exact comma_separated_inj (hcommas hs) (hcommas ht) (mt List.map_eq_nil_iff.1 hss)
    (mt List.map_eq_nil_iff.1 hts) h

/-- The name of an at-rule ends at the first space, so the parameters can be told from it. -/
theorem title_inj_atRule {name params name' params' : String}
    (hname : name.toList.any isBlank = false) (hname' : name'.toList.any isBlank = false)
    (h : name.toList ++ (if params = "" then [] else ' ' :: params.toList) =
      name'.toList ++ (if params' = "" then [] else ' ' :: params'.toList)) :
    name = name' ∧ params = params' := by
  have hspace : ∀ {s : String}, s.toList.any isBlank = false → ' ' ∉ s.toList :=
    fun hs hmem => List.any_eq_false.1 hs ' ' hmem rfl
  split at h <;> split at h
  · next h1 h2 => exact ⟨String.toList_inj.1 (by simpa using h), h1.trans h2.symm⟩
  · refine absurd ?_ (hspace hname)
    rw [List.append_nil] at h
    simp [h]
  · refine absurd ?_ (hspace hname')
    rw [List.append_nil] at h
    simp [← h]
  · obtain ⟨h1, h2⟩ := cut_at (hspace hname) (hspace hname') h
    exact ⟨String.toList_inj.1 h1, String.toList_inj.1 h2⟩

/-- Blocks with the same text before the opening brace are of one kind, with the same selectors or
the same name and parameters. -/
theorem Block.Plain.title_inj {b c : Block} (hb : b.Plain) (hc : c.Plain)
    (h : b.header = c.header) : b.title = c.title := by
  cases b with
  | rule ss ps o =>
    cases c with
    | rule ts qs o' =>
      cases title_inj_rule hb.1.1 hc.1.1 hb.1.2 hc.1.2 h
      rfl
    | atRule name params qs cs o' =>
      obtain ⟨c, r, hr, -, hat⟩ := hb.header_rule
      exact absurd (List.cons.inj (hr.symm.trans h)).1 hat
  | atRule name params ps bs o =>
    cases c with
    | rule ts qs o' =>
      obtain ⟨c, r, hr, -, hat⟩ := hc.header_rule
      exact absurd (List.cons.inj (hr.symm.trans h.symm)).1 hat
    | atRule name' params' qs cs o' =>
      obtain ⟨rfl, rfl⟩ := title_inj_atRule hb.1.2 hc.1.2 (List.cons.inj h).2
      rfl

/-- The first delimiter in a block is the opening brace. -/
theorem Block.Plain.first {b : Block} (hb : b.Plain) (level : Nat) (r : List Char) :
    delimiter? ((b.pretty level).toList ++ r) = some '{' := by
  rw [hb.toList_pretty, (clear_indent level).delimiter?_append, hb.clear_header.delimiter?_append]
  exact (clear_space.delimiter?_append _).trans (delimiter?_cons rfl _)

/-- The first delimiter of the end of a block is its brace. -/
theorem delimiter?_closing (level : Nat) (r : List Char) :
    delimiter? (closing level r) = some '}' := by
  rw [closing, (clear_indent level).delimiter?_append, delimiter?_cons rfl]

/-- What comes after the end of a block can be told from the text. -/
theorem closing_inj {level : Nat} {r u : List Char} (h : closing level r = closing level u) :
    r = u := by
  simpa [closing] using h

/-- After the properties of a block comes another block, or the end. -/
theorem PlainAll.first_ne {bs : List Block} (hbs : PlainAll bs) (level outer : Nat)
    (r : List Char) :
    delimiter? ((prettyBlocks level bs).toList ++ closing outer r) ≠ some ';' := by
  cases bs with
  | nil =>
    rw [prettyBlocks, String.toList_empty, List.nil_append, delimiter?_closing]
    decide
  | cons b bs =>
    rw [prettyBlocks, String.toList_append, List.append_assoc, hbs.1.first]
    decide

/-- Two texts that begin with blocks have the same before and between their outer braces. -/
theorem Block.Plain.cut_braces {b c : Block} (hb : b.Plain) (hc : c.Plain) {level : Nat}
    {r u : List Char} (h : (b.pretty level).toList ++ r = (c.pretty level).toList ++ u) :
    b.title = c.title ∧
      b.inside (level + 1) ++ closing level r = c.inside (level + 1) ++ closing level u := by
  rw [hb.toList_pretty, hc.toList_pretty] at h
  have hbrace : b.header ++ [' '] ++ '{' :: '\n' :: (b.inside (level + 1) ++ closing level r) =
      c.header ++ [' '] ++ '{' :: '\n' :: (c.inside (level + 1) ++ closing level u) := by
    simpa using List.append_cancel_left h
  obtain ⟨hheader, hinside⟩ := cut_at ((hb.clear_header.append clear_space).not_mem rfl)
    ((hc.clear_header.append clear_space).not_mem rfl) hbrace
  exact ⟨hb.title_inj hc (List.append_cancel_right hheader), (List.cons.inj hinside).2⟩

mutual

/-- A block can be cut off the front of a text. -/
theorem Block.Plain.cut {level : Nat} {r u : List Char} : ∀ {b : Block}, b.Plain →
    ∀ {c : Block}, c.Plain → (b.pretty level).toList ++ r = (c.pretty level).toList ++ u →
      b = c ∧ r = u
  | .rule ss ps o, hb, c, hc => by
    intro h
    obtain ⟨htitle, hinside⟩ := Block.Plain.cut_braces hb hc h
    cases c with
    | atRule _ _ _ _ _ => cases htitle
    | rule ts qs o' =>
      cases htitle
      obtain ⟨-, ⟨-, hps⟩, rfl⟩ := hb
      obtain ⟨-, ⟨-, hqs⟩, rfl⟩ := hc
      -- the properties end where the closing brace comes before any semicolon
      have hend : ∀ t, delimiter? (closing level t) ≠ some ';' := fun t =>
        PlainAll.first_ne (show PlainAll [] from trivial) 0 level t
      obtain ⟨rfl, hclosing⟩ := cut_properties hps hqs (hend r) (hend u) hinside
      exact ⟨rfl, closing_inj hclosing⟩
  | .atRule name params ps bs o, hb, c, hc => by
    intro h
    obtain ⟨htitle, hinside⟩ := Block.Plain.cut_braces hb hc h
    cases c with
    | rule _ _ _ => cases htitle
    | atRule name' params' qs cs o' =>
      cases htitle
      obtain ⟨-, -, hps, hbs, rfl⟩ := hb
      obtain ⟨-, -, hqs, hcs, rfl⟩ := hc
      -- first the properties, up to an opening or the closing brace, and then the blocks inside
      simp only [Block.inside, List.append_assoc] at hinside
      obtain ⟨rfl, hblocks⟩ := cut_properties hps hqs (hbs.first_ne _ _ _) (hcs.first_ne _ _ _)
        hinside
      obtain ⟨rfl, hclosing⟩ := cut_blocks (delimiter?_closing level r)
        (delimiter?_closing level u) hbs hcs hblocks
      exact ⟨rfl, closing_inj hclosing⟩

/-- Blocks can be cut off the end of the block around them. -/
theorem cut_blocks {level : Nat} {r u : List Char} (hr : delimiter? r = some '}')
    (hu : delimiter? u = some '}') : ∀ {bs cs : List Block}, PlainAll bs → PlainAll cs →
    (prettyBlocks level bs).toList ++ r = (prettyBlocks level cs).toList ++ u → bs = cs ∧ r = u
  | [], [], _, _, h => ⟨rfl, h⟩
  | [], c :: cs, _, hcs, h => by
    rw [prettyBlocks, prettyBlocks, String.toList_append, List.append_assoc] at h
    have hfirst := (congrArg delimiter? h).symm.trans hr
    rw [hcs.1.first] at hfirst
    cases hfirst
  | b :: bs, [], hbs, _, h => by
    rw [prettyBlocks, prettyBlocks, String.toList_append, List.append_assoc] at h
    have hfirst := (congrArg delimiter? h).trans hu
    rw [hbs.1.first] at hfirst
    cases hfirst
  | b :: bs, c :: cs, hbs, hcs, h => by
    simp only [prettyBlocks, String.toList_append, List.append_assoc] at h
    obtain ⟨rfl, hrest⟩ := hbs.1.cut hcs.1 h
    obtain ⟨rfl, rfl⟩ := cut_blocks hr hu hbs.2 hcs.2 hrest
    exact ⟨rfl, rfl⟩

end

/-- Each of several plain blocks is plain. -/
theorem PlainAll.forall {bs : List Block} (h : PlainAll bs) : ∀ b ∈ bs, b.Plain := by
  induction bs with
  | nil => exact fun _ hb => nomatch hb
  | cons b bs ih => exact List.forall_mem_cons.2 ⟨h.1, ih h.2⟩

/-! ## Stylesheets -/

/-- An import on its line. -/
def importLine (s : String) : List Char := s.toList ++ ['\n']

/-- Blocks with an empty line between two of them, after some text unless there are none. -/
def spaced (before : List Char) : List Block → List Char
  | [] => []
  | b :: bs => before ++ ((b.pretty 0).toList ++ bs.flatMap fun c => '\n' :: (c.pretty 0).toList)

/-- What is written of a stylesheet, up to the last line break. -/
def Sheet.lines (sheet : Sheet) : List Char :=
  sheet.imports.flatMap importLine ++
    spaced (if sheet.imports.isEmpty then [] else ['\n']) sheet.blocks

/-- The pretty text of a plain stylesheet is its lines, trimmed. -/
theorem Sheet.Plain.toList_pretty {sheet : Sheet} (h : sheet.Plain) :
    sheet.pretty.toList = trim sheet.lines := by
  obtain ⟨imports, blocks⟩ := sheet
  have himports : (importLines imports).toList = imports.flatMap importLine := by
    rw [importLines, String.toList_join, List.flatMap_map]
    refine List.flatMap_congr fun i hi => ?_
    rw [(h.imports i hi).trimmed, String.toList_append]
    rfl
  have hblocks : (if imports.isEmpty || blocks.isEmpty then "" else "\n").toList ++
      ("\n".intercalate (blocks.map (Block.pretty 0))).toList =
      spaced (if imports.isEmpty then [] else ['\n']) blocks := by
    cases blocks with
    | nil => simp [spaced]
    | cons b bs =>
      rw [String.toList_intercalate, List.map_cons, List.map_cons, intercalate_cons]
      cases imports <;> simp [spaced, List.flatMap_map]
  rw [Sheet.pretty, trimString, String.toList_ofList, String.toList_append, String.toList_append,
    List.append_assoc, himports, hblocks]
  rfl

/-- An import ends with its semicolon. -/
theorem PlainImport.toList_eq {s : String} (h : PlainImport s) :
    s.toList = s.toList.dropLast ++ [';'] := (List.dropLast_append_getLast? ';' h.semicolon).symm

/-- An import can be cut off what follows it. -/
theorem PlainImport.cut {s t : String} (hs : PlainImport s) (ht : PlainImport t) {r u : List Char}
    (h : importLine s ++ r = importLine t ++ u) : s = t ∧ r = u := by
  rw [importLine, importLine, hs.toList_eq, ht.toList_eq] at h
  simp only [List.append_assoc, List.cons_append, List.nil_append] at h
  obtain ⟨htext, hrest⟩ := cut_at (hs.clear.not_mem rfl) (ht.clear.not_mem rfl) h
  refine ⟨String.toList_inj.1 ?_, (List.cons.inj hrest).2⟩
  rw [hs.toList_eq, ht.toList_eq, htext]

/-- The first delimiter in an import is the semicolon. -/
theorem PlainImport.first {s : String} (hs : PlainImport s) (r : List Char) :
    delimiter? (importLine s ++ r) = some ';' := by
  rw [importLine, hs.toList_eq, List.append_assoc, List.append_assoc, hs.clear.delimiter?_append]
  exact delimiter?_cons rfl _

/-- The first delimiter in blocks is an opening brace. -/
theorem first_spaced {before : List Char} (hbefore : Clear before) {b : Block} {bs : List Block}
    (hbs : PlainAll (b :: bs)) : delimiter? (spaced before (b :: bs)) = some '{' := by
  rw [spaced, hbefore.delimiter?_append, hbs.1.first]

/-- The first delimiter in blocks is no semicolon, be there any blocks or not. -/
theorem first_spaced_ne {before : List Char} (hbefore : Clear before) {bs : List Block}
    (hbs : PlainAll bs) : delimiter? (spaced before bs) ≠ some ';' := by
  cases bs with
  | nil => exact nofun
  | cons b bs =>
    rw [first_spaced hbefore hbs]
    decide

/-- Blocks at the top can be told from their text. -/
theorem spaced_inj {before : List Char} (hbefore : Clear before) {bs cs : List Block}
    (hbs : PlainAll bs) (hcs : PlainAll cs) (h : spaced before bs = spaced before cs) :
    bs = cs := by
  cases bs with
  | nil =>
    cases cs with
    | nil => rfl
    | cons c cs => cases (congrArg delimiter? h).trans (first_spaced hbefore hcs)
  | cons b bs =>
    cases cs with
    | nil => cases (congrArg delimiter? h).symm.trans (first_spaced hbefore hbs)
    | cons c cs =>
      obtain ⟨rfl, hrest⟩ := hbs.1.cut hcs.1 (List.append_cancel_left h)
      have hbreak : Clear ['\n'] := by decide
      have hcut : ∀ {b c : Block}, b.Plain → c.Plain → ∀ {r u : List Char},
          '\n' :: (b.pretty 0).toList ++ r = '\n' :: (c.pretty 0).toList ++ u → b = c ∧ r = u :=
        fun hb hc _ _ h => hb.cut hc (List.cons.inj h).2
      have hfirst : ∀ {b : Block}, b.Plain → ∀ r : List Char,
          delimiter? ('\n' :: (b.pretty 0).toList ++ r) = some '{' :=
        fun hb r => (hbreak.delimiter?_append _).trans (hb.first 0 r)
      have hnone : delimiter? [] ≠ some '{' := by decide
      obtain ⟨rfl, -⟩ := cut_items hcut hfirst hbs.2.forall hcs.2.forall hnone hnone
        (by simpa using hrest)
      rfl

/-- Plain stylesheets can be told from their lines. -/
theorem Sheet.Plain.lines_inj {s t : Sheet} (hs : s.Plain) (ht : t.Plain)
    (h : s.lines = t.lines) : s = t := by
  have hgap : ∀ imports : List String, Clear (if imports.isEmpty then [] else ['\n']) := by
    intro imports
    split <;> decide
  have hfirst := first_spaced_ne (hgap s.imports) hs.blocks
  have hfirst' := first_spaced_ne (hgap t.imports) ht.blocks
  obtain ⟨himports, hblocks⟩ := cut_items (fun hi hj _ _ h => hi.cut hj h) (fun hi => hi.first)
    hs.imports ht.imports hfirst hfirst' h
  rw [himports] at hblocks
  have hsame := spaced_inj (hgap _) hs.blocks ht.blocks hblocks
  cases s
  cases t
  cases himports
  cases hsame
  rfl

/-! ## The ends of the text -/

/-- A text of whole lines, with no white space at its ends but the last line break. -/
def WholeLines (s : List Char) : Prop := ∃ t, s = t ++ ['\n'] ∧ FirmStart t ∧ FirmEnd t

/-- Whole lines, a gap and more of them are whole lines. -/
theorem WholeLines.append {s t : List Char} (hs : WholeLines s) (ht : WholeLines t)
    (gap : List Char) : WholeLines (s ++ (gap ++ t)) := by
  obtain ⟨s, rfl, hstart, -⟩ := hs
  obtain ⟨t, rfl, -, hend⟩ := ht
  refine ⟨s ++ ('\n' :: (gap ++ t)), by simp, hstart.append_right _, ?_⟩
  exact FirmEnd.append_left (FirmEnd.append_left hend ('\n' :: gap)) s

/-- Whole lines and any number of others, each behind a gap. -/
theorem WholeLines.append_all {α : Type} {text : α → List Char} {s : List Char}
    (hs : WholeLines s) (gap : List Char) {as : List α} (h : ∀ a ∈ as, WholeLines (text a)) :
    WholeLines (s ++ as.flatMap fun a => gap ++ text a) := by
  induction as generalizing s with
  | nil => simpa using hs
  | cons a as ih =>
    obtain ⟨ha, has⟩ := List.forall_mem_cons.1 h
    have := ih (hs.append ha gap) has
    simpa using this

/-- Only the last line break is trimmed. -/
theorem WholeLines.trim {s : List Char} (hs : WholeLines s) :
    FirmStart (Text.trim s) ∧ s = Text.trim s ++ ['\n'] := by
  obtain ⟨t, rfl, hstart, hend⟩ := hs
  have hbreak : isBlank '\n' = true := rfl
  rw [trim_append_blank hbreak, trim_of_firm hstart hend]
  exact ⟨hstart, rfl⟩

/-- An import is a whole line. -/
theorem PlainImport.wholeLines {s : String} (h : PlainImport s) : WholeLines (importLine s) := by
  have hne : s ≠ "" := by
    rintro rfl
    cases h.semicolon
  obtain ⟨hstart, hend⟩ := firm_of_trimmed hne h.trimmed
  exact ⟨s.toList, rfl, hstart, hend⟩

/-- A block at the top level is made of whole lines. -/
theorem Block.Plain.wholeLines {b : Block} (h : b.Plain) : WholeLines (b.pretty 0).toList := by
  have hheader : FirmStart b.header := by
    cases b with
    | rule selectors properties comments =>
      obtain ⟨c, r, hr, hc, -⟩ := h.header_rule
      exact ⟨c, r, hr, hc⟩
    | atRule name params properties children comments => exact ⟨'@', _, rfl, rfl⟩
  refine ⟨b.header ++ (' ' :: '{' :: '\n' :: (b.inside 1 ++ ['}'])), ?_, hheader.append_right _,
    b.header ++ (' ' :: '{' :: '\n' :: b.inside 1), '}', by simp, rfl⟩
  have hpretty := h.toList_pretty 0 []
  simpa [closing, indent] using hpretty

/-- Blocks with empty lines between them are whole lines, if there are any. -/
theorem spaced_wholeLines (before : List Char) {bs : List Block} (hbs : PlainAll bs) :
    bs = [] ∨ ∃ t, WholeLines t ∧ spaced before bs = before ++ t := by
  cases bs with
  | nil => exact .inl rfl
  | cons b bs =>
    refine .inr ⟨_, hbs.1.wholeLines.append_all ['\n'] fun c hc => ?_, rfl⟩
    exact (hbs.2.forall c hc).wholeLines

/-- A stylesheet that is not empty is made of whole lines. -/
theorem Sheet.Plain.wholeLines {s : Sheet} (h : s.Plain) : s = ⟨[], []⟩ ∨ WholeLines s.lines := by
  obtain ⟨imports, blocks⟩ := s
  obtain ⟨himports, hblocks⟩ := h
  cases imports with
  | nil =>
    rcases spaced_wholeLines [] hblocks with hnil | ⟨t, ht, hspaced⟩
    · exact .inl (congrArg _ hnil)
    · exact .inr (by simpa [Sheet.lines, hspaced] using ht)
  | cons i is =>
    obtain ⟨hi, his⟩ := List.forall_mem_cons.1 himports
    have hlines := hi.wholeLines.append_all [] fun j hj => (his j hj).wholeLines
    refine .inr ?_
    rcases spaced_wholeLines ['\n'] hblocks with hnil | ⟨t, ht, hspaced⟩
    · simpa [Sheet.lines, show blocks = [] from hnil, spaced] using hlines
    · simpa [Sheet.lines, hspaced] using hlines.append ht ['\n']

/-- Stylesheets without comments, whose texts do not interfere with the layout, have the same pretty
layout only if they are the same. -/
theorem Sheet.pretty_inj {s t : Sheet} (hs : s.Plain) (ht : t.Plain) :
    s.render false = t.render false ↔ s = t := by
  refine ⟨fun h => ?_, fun h => h ▸ rfl⟩
  have htrim : trim s.lines = trim t.lines := by
    rw [← hs.toList_pretty, ← ht.toList_pretty]
    exact congrArg String.toList h
  have hempty : ∀ {u : Sheet}, WholeLines u.lines → trim u.lines ≠ [] := by
    intro u hu
    obtain ⟨⟨c, r, hr, -⟩, -⟩ := hu.trim
    rw [hr]
    exact List.cons_ne_nil _ _
  -- a stylesheet with nothing in it has no text, and any other has lost its last line break only
  rcases hs.wholeLines with rfl | hlines <;> rcases ht.wholeLines with rfl | hlines'
  · rfl
  · exact absurd htrim.symm (hempty hlines')
  · exact absurd htrim (hempty hlines)
  · refine hs.lines_inj ht ?_
    rw [hlines.trim.2, htrim, ← hlines'.trim.2]

/-- A rule inside an at-rule, and the same rule after it. -/
theorem Sheet.pretty_inj_nested :
    let first : Block := .rule [".a"] [⟨"top", "0", false, {}⟩] {}
    let second : Block := .rule [".b", ".c"] [⟨"color", "red", true, {}⟩] {}
    let inside : Sheet := ⟨["@import \"x\";"], [.atRule "media" "print" [] [first, second] {}]⟩
    let beside : Sheet := ⟨["@import \"x\";"], [.atRule "media" "print" [] [first] {}, second]⟩
    inside.Plain ∧ beside.Plain ∧ inside.render false ≠ beside.render false := by
  intro first second inside beside
  have hinside : inside.Plain := by decide +kernel
  have hbeside : beside.Plain := by decide +kernel
  refine ⟨hinside, hbeside, fun h => ?_⟩
  have hblocks := congrArg (·.blocks.length) ((Sheet.pretty_inj hinside hbeside).1 h)
  exact absurd hblocks (by decide)

end LessSheet.Css
