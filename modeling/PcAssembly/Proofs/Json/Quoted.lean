import PcAssembly.Json.Text

/-! # The grammar of quoted texts

    Between two quotes stand characters and escapes, and what they say is
    found in two steps: each of them is a piece (`Spells`), and the pieces
    give characters once the two halves of every surrogate pair are put
    together (`Joins`).  Pieces with a half that has no partner give none.
    The reader finds exactly the quoted text at the start of its input
    (`read?_eq_some_iff`). -/

namespace PcAssembly.Json.Quoted

open PcAssembly.Number

/-- The pieces that a text between quotes spells. -/
inductive Spells : List Char → List Piece → Prop
  | nil : Spells [] []
  | code {a b c d : Char} {value : Nat} {text : List Char} {pieces : List Piece}
      (hvalue : natOfHex? [a, b, c, d] = some value) (hrest : Spells text pieces) :
      Spells ('\\' :: 'u' :: a :: b :: c :: d :: text) (.code value :: pieces)
  | escape {c meant : Char} {text : List Char} {pieces : List Piece}
      (hmeant : shortEscape? c = some meant) (hrest : Spells text pieces) :
      Spells ('\\' :: c :: text) (.char meant :: pieces)
  | char {c : Char} {text : List Char} {pieces : List Piece}
      (hquote : c ≠ '"') (hbackslash : c ≠ '\\') (hcontrol : 0x20 ≤ c.toNat)
      (hrest : Spells text pieces) : Spells (c :: text) (.char c :: pieces)

/-- The characters that pieces give: a code that is no half of a pair stands
    for itself, and the two halves of a pair stand for one character. -/
inductive Joins : List Piece → List Char → Prop
  | nil : Joins [] []
  | char {c : Char} {pieces : List Piece} {s : List Char} (hrest : Joins pieces s) :
      Joins (.char c :: pieces) (c :: s)
  | code {value : Nat} {pieces : List Piece} {s : List Char}
      (hhigh : isHigh value = false) (hlow : isLow value = false) (hrest : Joins pieces s) :
      Joins (.code value :: pieces) (Char.ofNat value :: s)
  | pair {high low : Nat} {pieces : List Piece} {s : List Char}
      (hhigh : isHigh high = true) (hlow : isLow low = true) (hrest : Joins pieces s) :
      Joins (.code high :: .code low :: pieces)
        (Char.ofNat (0x10000 + 0x400 * (high - 0xD800) + (low - 0xDC00)) :: s)

/-- The content of a text between quotes: what its pieces give, and nothing if
    they give no characters. -/
def IsContent (text : List Char) (content : Quoted) : Prop :=
  ∃ pieces, Spells text pieces ∧ ∀ s : String, content = some s ↔ Joins pieces s.toList

/-- What is read up to the closing quote spells the pieces that are found. -/
theorem exists_of_pieces? {s rest : List Char} {pieces : List Piece}
    (h : pieces? s = some (pieces, rest)) :
    ∃ text, s = text ++ '"' :: rest ∧ Spells text pieces := by
  fun_induction pieces? s generalizing pieces rest with
  | case1 => cases h
  | case2 rest' =>
      cases h
      exact ⟨[], rfl, .nil⟩
  | case3 a b c d after ih =>
      obtain ⟨value, hvalue, h⟩ := Option.bind_eq_some_iff.mp h
      obtain ⟨⟨found, rest'⟩, hfound, h⟩ := Option.bind_eq_some_iff.mp h
      cases h
      obtain ⟨text, rfl, hspells⟩ := ih hfound
      exact ⟨_, rfl, .code hvalue hspells⟩
  | case4 c after hcode ih =>
      obtain ⟨meant, hmeant, h⟩ := Option.bind_eq_some_iff.mp h
      obtain ⟨⟨found, rest'⟩, hfound, h⟩ := Option.bind_eq_some_iff.mp h
      cases h
      obtain ⟨text, rfl, hspells⟩ := ih hfound
      exact ⟨_, rfl, .escape hmeant hspells⟩
  | case5 => cases h
  | case6 c after hquote hcode hescape hcontrol ih =>
      obtain ⟨⟨found, rest'⟩, hfound, h⟩ := Option.bind_eq_some_iff.mp h
      cases h
      obtain ⟨text, rfl, hspells⟩ := ih hfound
      -- a backslash in front of anything is taken by one of the escapes
      have hbackslash : c ≠ '\\' := by
        rintro rfl
        cases text with
        | nil => exact hescape _ _ rfl rfl
        | cons d text => exact hescape _ _ rfl rfl
      exact ⟨c :: text, rfl, .char hquote hbackslash (Nat.not_lt.mp hcontrol) hspells⟩

/-- What spells pieces is read up to the closing quote. -/
theorem Spells.pieces?_append {text : List Char} {pieces : List Piece} (h : Spells text pieces)
    (rest : List Char) : pieces? (text ++ '"' :: rest) = some (pieces, rest) := by
  induction h with
  | nil => rfl
  | code hvalue _ ih => simp [pieces?, hvalue, ih]
  | @escape c meant text pieces hmeant _ ih =>
      -- the letter of the long escape is no short one
      have hne : c ≠ 'u' := by
        rintro rfl
        cases hmeant
      simp [pieces?, hmeant, ih, hne]
  | char hquote hbackslash hcontrol _ ih =>
      simp [pieces?, hbackslash, Nat.not_lt.mpr hcontrol, ih]

/-- **The pieces of a quoted text.** The reader takes the text up to the first
    quote that belongs to no escape. -/
theorem pieces?_eq_some_iff {s rest : List Char} {pieces : List Piece} :
    pieces? s = some (pieces, rest) ↔ ∃ text, s = text ++ '"' :: rest ∧ Spells text pieces := by
  constructor
  · exact exists_of_pieces?
  · rintro ⟨text, rfl, hspells⟩
    exact hspells.pieces?_append rest

/-- A code that is no half of a pair does not look at what follows it. -/
theorem join?_code_cons {value : Nat} (hhigh : isHigh value = false) (hlow : isLow value = false)
    (pieces : List Piece) :
    join? (.code value :: pieces) = (join? pieces).map (Char.ofNat value :: ·) := by
  match pieces with
  | [] => simp [join?, hhigh, hlow]
  | .char _ :: _ => simp [join?, hhigh, hlow]
  | .code _ :: _ => simp [join?, hhigh, hlow]

theorem joins_of_join? {pieces : List Piece} {s : List Char} (h : join? pieces = some s) :
    Joins pieces s := by
  fun_induction join? pieces generalizing s with
  | case1 =>
      cases h
      exact .nil
  | case2 c pieces ih =>
      obtain ⟨after, hafter, rfl⟩ := Option.map_eq_some_iff.mp h
      exact .char (ih hafter)
  | case3 high low pieces hhigh hlow ih =>
      obtain ⟨after, hafter, rfl⟩ := Option.map_eq_some_iff.mp h
      exact .pair hhigh hlow (ih hafter)
  | case4 => cases h
  | case5 => cases h
  | case6 value low pieces hhigh hlow ih =>
      obtain ⟨after, hafter, rfl⟩ := Option.map_eq_some_iff.mp h
      exact .code (Bool.eq_false_iff.mpr hhigh) (Bool.eq_false_iff.mpr hlow) (ih hafter)
  | case7 => cases h
  | case8 value pieces _ halone ih =>
      obtain ⟨after, hafter, rfl⟩ := Option.map_eq_some_iff.mp h
      obtain ⟨hhigh, hlow⟩ := Bool.or_eq_false_iff.mp (Bool.eq_false_iff.mpr halone)
      exact .code hhigh hlow (ih hafter)

theorem Joins.join?_eq {pieces : List Piece} {s : List Char} (h : Joins pieces s) :
    join? pieces = some s := by
  induction h with
  | nil => rfl
  | char _ ih => simp [join?, ih]
  | code hhigh hlow _ ih => simp [join?_code_cons hhigh hlow, ih]
  | pair hhigh hlow _ ih => simp [join?, hhigh, hlow, ih]

/-- **The characters of pieces** are those that the grammar gives them. -/
theorem join?_eq_some_iff {pieces : List Piece} {s : List Char} :
    join? pieces = some s ↔ Joins pieces s :=
  ⟨joins_of_join?, Joins.join?_eq⟩

/-- The content that the reader makes of pieces is what they give. -/
theorem eq_map_ofList_join?_iff {pieces : List Piece} {content : Quoted} :
    content = (join? pieces).map String.ofList ↔
      ∀ s : String, content = some s ↔ Joins pieces s.toList := by
  have hjoined (s : String) :
      (join? pieces).map String.ofList = some s ↔ Joins pieces s.toList := by
    rw [← join?_eq_some_iff, Option.map_eq_some_iff]
    constructor
    · rintro ⟨chars, hchars, rfl⟩
      rw [hchars, String.toList_ofList]
    · exact fun h => ⟨s.toList, h, String.ofList_toList⟩
  constructor
  · rintro rfl
    exact hjoined
  · exact fun h => Option.ext fun s => (h s).trans (hjoined s).symm

/-- **Reading a quoted text.** From after the opening quote, the reader takes
    the text up to the closing one, and returns its content. -/
theorem read?_eq_some_iff {s rest : List Char} {content : Quoted} :
    read? s = some (content, rest) ↔ ∃ text, s = text ++ '"' :: rest ∧ IsContent text content := by
  constructor
  · intro h
    obtain ⟨⟨pieces, _⟩, hpieces, h⟩ := Option.map_eq_some_iff.mp h
    cases h
    obtain ⟨text, hs, hspells⟩ := pieces?_eq_some_iff.mp hpieces
    exact ⟨text, hs, pieces, hspells, eq_map_ofList_join?_iff.mp rfl⟩
  · rintro ⟨text, hs, pieces, hspells, hcontent⟩
    rw [read?, pieces?_eq_some_iff.mpr ⟨text, hs, hspells⟩,
      eq_map_ofList_join?_iff.mpr hcontent]
    rfl

end PcAssembly.Json.Quoted
