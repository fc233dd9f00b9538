import PcAssembly.Json.Reader
import PcAssembly.Proofs.Json.Quoted
import PcAssembly.Proofs.Json.Literal

/-! # The grammar of data texts

    A data text is one value between blanks (`IsText`).  The relations below
    say which texts a value has, and do so without a reader: blanks may stand
    between any two tokens and nowhere else, items and members are separated by
    single commas, and every quoted text and every literal is one by its own
    grammar. -/

namespace PcAssembly.Json

/-- Blanks alone, possibly none. -/
def AreBlanks (s : List Char) : Prop := ∀ c ∈ s, isSpace c = true

/-- A quoted text, with its quotes, and its content. -/
inductive IsQuoted : List Char → Quoted → Prop
  | quotes {text : List Char} {content : Quoted} (hcontent : Quoted.IsContent text content) :
      IsQuoted ('"' :: (text ++ ['"'])) content

mutual

/-- The texts of a value. -/
inductive IsValue : List Char → Json → Prop
  | null : IsValue ['n', 'u', 'l', 'l'] .null
  | true : IsValue ['t', 'r', 'u', 'e'] (.bool true)
  | false : IsValue ['f', 'a', 'l', 's', 'e'] (.bool false)
  | number {text : List Char} {l : Number.Literal} (hl : Number.IsLiteral text l) :
      IsValue text (.number (Number.ofLiteral l))
  | string {text : List Char} {content : Quoted} (hquoted : IsQuoted text content) :
      IsValue text (.string content)
  | emptyArray {blanks : List Char} (hblanks : AreBlanks blanks) :
      IsValue ('[' :: (blanks ++ [']'])) (.array [])
  | array {blanks text : List Char} {items : List Json} (hblanks : AreBlanks blanks)
      (hitems : AreItems text items) :
      IsValue ('[' :: (blanks ++ (text ++ [']']))) (.array items)
  | emptyObject {blanks : List Char} (hblanks : AreBlanks blanks) :
      IsValue ('\x7b' :: (blanks ++ ['\x7d'])) (.object [])
  | object {blanks text : List Char} {members : List (Quoted × Json)} (hblanks : AreBlanks blanks)
      (hmembers : AreMembers text members) :
      IsValue ('\x7b' :: (blanks ++ (text ++ ['\x7d']))) (.object members)

/-- The texts of the items of an array, one at least, and of the blanks behind
    the last one. -/
inductive AreItems : List Char → List Json → Prop
  | last {text blanks : List Char} {item : Json} (hitem : IsValue text item)
      (hblanks : AreBlanks blanks) : AreItems (text ++ blanks) [item]
  | comma {text before after rest : List Char} {item : Json} {items : List Json}
      (hitem : IsValue text item) (hbefore : AreBlanks before) (hafter : AreBlanks after)
      (hrest : AreItems rest items) :
      AreItems (text ++ (before ++ ',' :: (after ++ rest))) (item :: items)

/-- The texts of a member: its name, a colon and its value. -/
inductive IsMember : List Char → Quoted × Json → Prop
  | colon {nameText before after text : List Char} {name : Quoted} {item : Json}
      (hname : IsQuoted nameText name) (hbefore : AreBlanks before) (hafter : AreBlanks after)
      (hitem : IsValue text item) :
      IsMember (nameText ++ (before ++ ':' :: (after ++ text))) (name, item)

/-- The texts of the members of an object, one at least, and of the blanks
    behind the last one. -/
inductive AreMembers : List Char → List (Quoted × Json) → Prop
  | last {text blanks : List Char} {member : Quoted × Json} (hmember : IsMember text member)
      (hblanks : AreBlanks blanks) : AreMembers (text ++ blanks) [member]
  | comma {text before after rest : List Char} {member : Quoted × Json}
      {members : List (Quoted × Json)} (hmember : IsMember text member)
      (hbefore : AreBlanks before) (hafter : AreBlanks after) (hrest : AreMembers rest members) :
      AreMembers (text ++ (before ++ ',' :: (after ++ rest))) (member :: members)

end

/-- A data text: one value, and blanks around it. -/
inductive IsText : List Char → Json → Prop
  | value {before text after : List Char} {value : Json} (hbefore : AreBlanks before)
      (hvalue : IsValue text value) (hafter : AreBlanks after) :
      IsText (before ++ (text ++ after)) value

/-! ### Blanks -/

theorem skipSpaces_append {blanks : List Char} (hblanks : AreBlanks blanks) (s : List Char) :
    skipSpaces (blanks ++ s) = skipSpaces s :=
  List.dropWhile_append_of_pos hblanks

theorem skipSpaces_eq_self {s : List Char} (h : ∀ c ∈ s.head?, isSpace c = false) :
    skipSpaces s = s := by
  cases s with
  | nil => rfl
  | cons c rest => exact List.dropWhile_cons_of_neg (Bool.eq_false_iff.mp (h c rfl))

theorem exists_blanks {s rest : List Char} (h : skipSpaces s = rest) :
    ∃ blanks, AreBlanks blanks ∧ s = blanks ++ rest := by
  subst h
  exact ⟨s.takeWhile isSpace, List.all_eq_true.mp List.all_takeWhile,
    List.takeWhile_append_dropWhile.symm⟩

/-- What blanks and a mark follow ends a number. -/
theorem stops_append {blanks s : List Char} (hblanks : AreBlanks blanks) (hs : Number.Stops s) :
    Number.Stops (blanks ++ s) := by
  cases blanks with
  | nil => exact hs
  | cons c blanks =>
      intro d hd
      cases hd
      have hc := hblanks c List.mem_cons_self
      simp only [isSpace, Bool.or_eq_true, decide_eq_true_eq] at hc
      rcases hc with ((rfl | rfl) | rfl) | rfl <;> decide

end PcAssembly.Json
