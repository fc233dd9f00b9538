import Mathlib.Data.List.Forall2
import PcAssembly.Json.Fields
import PcAssembly.Json.Printer
import PcAssembly.Proofs.Json.Double
import PcAssembly.Proofs.Json.Reading

/-! # What is written is read back

    A value is written between the marks that the reader looks for, with nothing
    but blanks besides, so it is read back as it was, but for its numbers: which
    number a written number is read back as is left open, and `Rereads` carries
    it through arrays and objects.  Integers in 64 bits and texts are read back
    as they were. -/

namespace PcAssembly.Json

open PcAssembly.Number

namespace Quoted

/-- A control character is written with the four digits of its code. -/
theorem exists_hexDigits_eq {n : Nat} (h : n < 0x20) :
    ∃ a b c d, hexDigits 4 n = [a, b, c, d] ∧ natOfHex? [a, b, c, d] = some n := by
  have hall : ∀ n < 0x20, natOfHex? (hexDigits 4 n) = some n ∧ (hexDigits 4 n).length = 4 := by
    decide
  obtain ⟨hvalue, hlength⟩ := hall n h
  match hdigits : hexDigits 4 n, hlength with
  | [a, b, c, d], _ => exact ⟨a, b, c, d, rfl, hdigits ▸ hvalue⟩

/-- A written character spells a piece that stands for it. -/
theorem exists_spells_escape (c : Char) {text : List Char} {pieces : List Piece} {s : List Char}
    (hspells : Spells text pieces) (hjoins : Joins pieces s) :
    ∃ pieces', Spells (escape c ++ text) pieces' ∧ Joins pieces' (c :: s) := by
  unfold escape
  split
  case h_8 hquote hbackslash _ _ _ _ _ =>
    split
    · rename_i hcontrol
      obtain ⟨a, b, d, e, hdigits, hvalue⟩ := exists_hexDigits_eq hcontrol
      have hhigh : isHigh c.toNat = false := by
        simp only [isHigh, Bool.and_eq_false_iff, decide_eq_false_iff_not]
        omega
      have hlow : isLow c.toNat = false := by
        simp only [isLow, Bool.and_eq_false_iff, decide_eq_false_iff_not]
        omega
      rw [hdigits]
      refine ⟨_, .code hvalue hspells, ?_⟩
      simpa using Joins.code hhigh hlow hjoins
    · rename_i hcontrol
      exact ⟨_, .char hquote hbackslash (Nat.not_lt.mp hcontrol) hspells, .char hjoins⟩
  all_goals exact ⟨_, .escape rfl hspells, .char hjoins⟩

/-- A text is the content of what is written between its quotes. -/
theorem isContent_flatMap_escape (s : List Char) :
    IsContent (s.flatMap escape) (some (String.ofList s)) := by
  have hexists : ∃ pieces, Spells (s.flatMap escape) pieces ∧ Joins pieces s := by
    induction s with
    | nil => exact ⟨[], .nil, .nil⟩
    | cons c s ih =>
        obtain ⟨pieces, hspells, hjoins⟩ := ih
        exact exists_spells_escape c hspells hjoins
  obtain ⟨pieces, hspells, hjoins⟩ := hexists
  refine ⟨pieces, hspells, eq_map_ofList_join?_iff.mp ?_⟩
  rw [hjoins.join?_eq]
  rfl

end Quoted

/-- **A text between quotes** is read back as it was. -/
theorem isQuoted_write (s : String) : IsQuoted (Quoted.write s) (some s) := by
  have hcontent := Quoted.isContent_flatMap_escape s.toList
  rw [String.ofList_toList] at hcontent
  exact .quotes hcontent

theorem areBlanks_nil : AreBlanks [] := fun _ hc => nomatch hc

/-- A value alone is a text of it. -/
theorem IsValue.isText {text : List Char} {value : Json} (h : IsValue text value) :
    IsText text value := by
  simpa using IsText.value areBlanks_nil h areBlanks_nil

/-- A text is a value between blanks. -/
theorem IsText.exists_eq {s : List Char} {value : Json} (h : IsText s value) :
    ∃ before text after, s = before ++ (text ++ after) ∧ AreBlanks before ∧
      IsValue text value ∧ AreBlanks after := by
  cases h with
  | value hbefore hvalue hafter => exact ⟨_, _, _, rfl, hbefore, hvalue, hafter⟩

/-- A name, a colon and a value that is read back are a member, up to the blanks
    behind it. -/
theorem exists_isMember {s : List Char} {value : Json} (h : IsText s value) (name : String) :
    ∃ text after, writeName (some name) ++ ':' :: s = text ++ after ∧
      IsMember text (some name, value) ∧ AreBlanks after := by
  obtain ⟨before, text, after, rfl, hbefore, hvalue, hafter⟩ := h.exists_eq
  exact ⟨_, after, by simp [writeName],
    .colon (isQuoted_write name) areBlanks_nil hbefore hvalue, hafter⟩

mutual

/-- The second value is what the first one is read back as.  Nothing but numbers
    may change, and they become what their own texts say. -/
inductive Rereads : Json → Json → Prop
  | null : Rereads .null .null
  | bool (b : Bool) : Rereads (.bool b) (.bool b)
  | number {n : Number} {value : Json} (h : IsText n.write value) : Rereads (.number n) value
  | text (s : String) : Rereads (.text s) (.text s)
  | array {items items' : List Json} (h : RereadItems items items') :
      Rereads (.array items) (.array items')
  | object {members members' : List (Quoted × Json)} (h : RereadMembers members members') :
      Rereads (.object members) (.object members')

/-- Item by item. -/
inductive RereadItems : List Json → List Json → Prop
  | nil : RereadItems [] []
  | cons {item item' : Json} {rest rest' : List Json} (hitem : Rereads item item')
      (hrest : RereadItems rest rest') : RereadItems (item :: rest) (item' :: rest')

/-- Member by member, under the same names. -/
inductive RereadMembers : List (Quoted × Json) → List (Quoted × Json) → Prop
  | nil : RereadMembers [] []
  | cons {item item' : Json} {rest rest' : List (Quoted × Json)} (name : String)
      (hitem : Rereads item item') (hrest : RereadMembers rest rest') :
      RereadMembers ((some name, item) :: rest) ((some name, item') :: rest')

end

/-! ### Blanks between the marks -/

/-- Blanks behind blanks are blanks. -/
theorem areBlanks_append {s t : List Char} (hs : AreBlanks s) (ht : AreBlanks t) :
    AreBlanks (s ++ t) := by
  intro c hc
  rcases List.mem_append.mp hc with hc | hc
  · exact hs c hc
  · exact ht c hc

/-- Blanks in front of a text do not matter. -/
theorem IsText.append_left {blanks s : List Char} {value : Json} (hblanks : AreBlanks blanks)
    (h : IsText s value) : IsText (blanks ++ s) value := by
  obtain ⟨before, text, after, rfl, hbefore, hvalue, hafter⟩ := h.exists_eq
  rw [← List.append_assoc]
  exact .value (areBlanks_append hblanks hbefore) hvalue hafter

/-- Blanks behind a text do not matter. -/
theorem IsText.append_right {blanks s : List Char} {value : Json} (h : IsText s value)
    (hblanks : AreBlanks blanks) : IsText (s ++ blanks) value := by
  obtain ⟨before, text, after, rfl, hbefore, hvalue, hafter⟩ := h.exists_eq
  rw [List.append_assoc, List.append_assoc]
  exact .value hbefore hvalue (areBlanks_append hafter hblanks)

/-- Nothing but blanks is put between the marks. -/
structure Spacing.IsBlank (spacing : Spacing) : Prop where
  line : ∀ level, AreBlanks (spacing.line level)
  colon : AreBlanks spacing.colon

theorem Spacing.isBlank_tight : tight.IsBlank := ⟨fun _ => areBlanks_nil, areBlanks_nil⟩

theorem Spacing.isBlank_indented : indented.IsBlank where
  line level c hc := by
    rcases List.mem_cons.mp hc with rfl | hc
    · rfl
    · rw [List.eq_of_mem_replicate hc]
      rfl
  colon := by simp [AreBlanks, indented, isSpace]

variable {spacing : Spacing}

mutual

/-- **What is written is read back**, with any spacing. -/
theorem Rereads.isText (hspacing : spacing.IsBlank) {value value' : Json}
    (h : Rereads value value') (level : Nat) :
    IsText (value.write spacing level) value' := by
  cases h with
  | null => exact IsValue.null.isText
  | bool b =>
      cases b with
      | true => exact IsValue.true.isText
      | false => exact IsValue.false.isText
  | number h => exact h
  | text s => exact (IsValue.string (isQuoted_write s)).isText
  | array h => exact h.isText hspacing level
  | object h => exact h.isText hspacing level
termination_by sizeOf value

/-- Written items are the text of an array. -/
theorem RereadItems.isText (hspacing : spacing.IsBlank) {items items' : List Json}
    (h : RereadItems items items') (level : Nat) :
    IsText (write spacing level (.array items)) (.array items') := by
  cases h with
  | nil => exact (IsValue.emptyArray areBlanks_nil).isText
  | cons hitem hrest =>
      obtain ⟨blanks, text, htext, hblanks, hitems⟩ := hrest.exists_areItems hspacing
        (level + 1) (hitem.isText hspacing (level + 1)) (hspacing.line level)
      have hvalue := (IsValue.array hblanks hitems).isText
      rwa [← List.append_assoc, ← htext] at hvalue
termination_by sizeOf items

/-- The items with blanks in front of each, and blanks behind the last one. -/
theorem RereadItems.exists_areItems (hspacing : spacing.IsBlank) {item item' : Json}
    {rest rest' : List Json} {after : List Char} (hrest : RereadItems rest rest') (level : Nat)
    (hitem : IsText (item.write spacing level) item') (hafter : AreBlanks after) :
    ∃ blanks text, writeItems spacing level (item :: rest) ++ after = blanks ++ text ∧
      AreBlanks blanks ∧ AreItems text (item' :: rest') := by
  obtain ⟨before, text, behind, hwritten, hbefore, hvalue, hbehind⟩ := hitem.exists_eq
  have hfront := areBlanks_append (hspacing.line level) hbefore
  refine ⟨spacing.line level ++ before, ?_⟩
  cases hrest with
  | nil =>
      refine ⟨text ++ (behind ++ after), ?_, hfront, .last hvalue (areBlanks_append hbehind hafter)⟩
      simp [writeItems, hwritten]
  | cons hnext hrest =>
      obtain ⟨blanks, others, hothers, hblanks, hitems⟩ := hrest.exists_areItems hspacing level
        (hnext.isText hspacing level) hafter
      refine ⟨_, ?_, hfront, .comma hvalue hbehind hblanks hitems⟩
      rw [writeItems, hwritten]
      · simp [hothers]
      · simp
termination_by sizeOf rest

/-- Written members are the text of an object. -/
theorem RereadMembers.isText (hspacing : spacing.IsBlank) {members members' : List (Quoted × Json)}
    (h : RereadMembers members members') (level : Nat) :
    IsText (write spacing level (.object members)) (.object members') := by
  cases h with
  | nil => exact (IsValue.emptyObject areBlanks_nil).isText
  | cons name hitem hrest =>
      obtain ⟨text, htext, hmembers⟩ := hrest.exists_areMembers hspacing (level + 1) name
        (hitem.isText hspacing (level + 1)) (hspacing.line level)
      have hvalue := (IsValue.object (hspacing.line (level + 1)) hmembers).isText
      rwa [← List.append_assoc, ← htext] at hvalue
termination_by sizeOf members

/-- The members with blanks in front of each, and blanks behind the last one. -/
theorem RereadMembers.exists_areMembers (hspacing : spacing.IsBlank) {item item' : Json}
    {rest rest' : List (Quoted × Json)} {after : List Char} (hrest : RereadMembers rest rest')
    (level : Nat) (name : String) (hitem : IsText (item.write spacing level) item')
    (hafter : AreBlanks after) :
    ∃ text,
      writeMembers spacing level ((some name, item) :: rest) ++ after =
        spacing.line level ++ text ∧
      AreMembers text ((some name, item') :: rest') := by
  obtain ⟨text, behind, hwritten, hmember, hbehind⟩ :=
    exists_isMember (hitem.append_left hspacing.colon) name
  cases hrest with
  | nil =>
      refine ⟨_, ?_, .last hmember (areBlanks_append hbehind hafter)⟩
      rw [← List.append_assoc text, ← hwritten]
      simp [writeMembers]
  | cons next hnext hrest =>
      obtain ⟨others, hothers, hmembers⟩ := hrest.exists_areMembers hspacing level next
        (hnext.isText hspacing level) hafter
      refine ⟨_, ?_, .comma hmember hbehind (hspacing.line level) hmembers⟩
      rw [← hothers, ← List.append_assoc text, ← hwritten, writeMembers]
      · simp
      · simp
termination_by sizeOf rest

end

/-- What is written without blanks is a text of what it is read back as. -/
theorem Rereads.isText_compact {value value' : Json} (h : Rereads value value') :
    IsText value.compact.toList value' := by
  rw [compact, String.toList_ofList]
  exact h.isText Spacing.isBlank_tight 0

/-- What is written without blanks is read back from its text. -/
theorem Rereads.ofText?_compact {value value' : Json} (h : Rereads value value') :
    ofText? value.compact = some value' :=
  read?_eq_some_iff.mpr h.isText_compact

/-- What is written line by line is a text of what it is read back as. -/
theorem Rereads.isText_pretty {value value' : Json} (h : Rereads value value') :
    IsText value.pretty.toList value' := by
  rw [pretty, String.toList_ofList]
  exact h.isText Spacing.isBlank_indented 0

/-- What is written line by line is read back from its text. -/
theorem Rereads.ofText?_pretty {value value' : Json} (h : Rereads value value') :
    ofText? value.pretty = some value' :=
  read?_eq_some_iff.mpr h.isText_pretty

/-! ### Values that stay as they are -/

/-- An integer in 64 bits is read back as it was. -/
theorem Rereads.int {i : Int} (hmin : Int64.minValue.toInt ≤ i) (hmax : i < UInt64.size) :
    Rereads (.int i) (.int i) :=
  .number ((isValue_int_iff hmin hmax).mpr rfl).isText

/-- An unsigned number of 32 bits is read back as it was. -/
theorem Rereads.ofUInt32 (n : UInt32) : Rereads (.ofUInt32 n) (.ofUInt32 n) := by
  have hlt := n.toNat_lt
  refine .int ?_ ?_
  · exact Int.le_trans (by decide) (Int.natCast_nonneg n.toNat)
  · rw [UInt64.size]
    omega

/-- Some value is read back for every double. -/
theorem exists_rereads_double (x : Float) : ∃ value, Rereads (.double x) value := by
  rcases Number.exists_isLiteral_write x with ⟨l, hl⟩ | ⟨-, hnull⟩
  · exact ⟨_, .number (IsValue.number hl).isText⟩
  · exact ⟨.null, .number (hnull ▸ IsValue.null.isText)⟩

/-- A list stays as it is if its items do. -/
theorem RereadItems.of_forall {items : List Json} (h : ∀ item ∈ items, Rereads item item) :
    RereadItems items items := by
  induction items with
  | nil => exact .nil
  | cons item items ih =>
      exact .cons (h item List.mem_cons_self) (ih fun other hother =>
        h other (List.mem_cons_of_mem _ hother))

/-- A list whose items are read back one by one. -/
theorem exists_rereadItems {α : Type} {write : α → Json} {P : α → Json → Prop} (xs : List α)
    (h : ∀ x, ∃ value, Rereads (write x) value ∧ P x value) :
    ∃ items, RereadItems (xs.map write) items ∧ List.Forall₂ P xs items := by
  induction xs with
  | nil => exact ⟨[], .nil, .nil⟩
  | cons x xs ih =>
      obtain ⟨value, hvalue, hx⟩ := h x
      obtain ⟨items, hitems, hxs⟩ := ih
      exact ⟨value :: items, .cons hvalue hitems, .cons hx hxs⟩

/-- A list of texts. -/
theorem Rereads.texts (texts : List String) :
    Rereads (.array (texts.map Json.text)) (.array (texts.map Json.text)) := by
  refine .array (.of_forall fun item hitem => ?_)
  obtain ⟨s, -, rfl⟩ := List.mem_map.mp hitem
  exact .text s

/-- A record whose values are read back one by one. -/
theorem RereadItems.record {values values' : List Json} (h : RereadItems values values')
    (names : List String) : Rereads (.record (names.zip values)) (.record (names.zip values')) := by
  refine .object ?_
  match h, names with
  | .nil, names => simpa using RereadMembers.nil
  | .cons _ _, [] => exact .nil
  | .cons hitem hrest, name :: names =>
      cases hrest.record names with
      | object hmembers => exact .cons name hitem hmembers

end PcAssembly.Json
