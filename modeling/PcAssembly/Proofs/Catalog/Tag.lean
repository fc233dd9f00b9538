import PcAssembly.Tag
import PcAssembly.Proofs.Json.Fields
import PcAssembly.Proofs.Json.Reading

/-! # The grammar of component tags

    A tag is a data text that states a category and an id, as an object with
    the two among its members or as an array of the two (`States`).  Each of
    them is there once under one of its names: two spellings of one field are
    the field given twice.  Any text that is not such a text is no tag
    (`ofText?_grammar`). -/

namespace PcAssembly

theorem Category.ofText?_eq_some_iff {word : String} {category : Category} :
    ofText? word = some category ↔ Text.lowered (Text.trimmed word) = category.key := by
  constructor
  · exact fun h => (key_of_ofKey? h).symm
  · intro h
    rw [ofText?, h, ofKey?_key]

namespace ComponentTag

/-- The values that state a tag.  An object may have other members: their names
    are any whole texts, and their values, which nobody reads, any values at all,
    with halves of surrogate pairs and numbers beyond all doubles in them.  An
    array has no room for more. -/
inductive States : Json → ComponentTag → Prop
  | object {members : List (Json.Quoted × Json)} {tag : ComponentTag} {word : String}
      (hnames : ∀ member ∈ members, member.1 ≠ none)
      (hcategory : Json.HoldsOnce ["category", "componentType", "component_type", "type"]
        members (.text word))
      (hword : Text.lowered (Text.trimmed word) = tag.category.key)
      (hid : Json.HoldsOnce ["component_id", "componentId", "id"]
        members (.int tag.componentId.toInt)) :
      States (.object members) tag
  | array {tag : ComponentTag} {word : String}
      (hword : Text.lowered (Text.trimmed word) = tag.category.key) :
      States (.array [.text word, .int tag.componentId.toInt]) tag

/-- A tag is read off the two fields of its layout. -/
theorem ofJson?_eq_some_iff_fields {value : Json} {tag : ComponentTag} :
    ofJson? value = some tag ↔
      ∃ word, Text.lowered (Text.trimmed word) = tag.category.key ∧
        value.fields? layout = some [some (.text word), some (.int tag.componentId.toInt)] := by
  constructor
  · intro h
    obtain ⟨fields, hfields, h⟩ := Option.bind_eq_some_iff.mp h
    split at h
    · obtain ⟨word, hword, h⟩ := Option.bind_eq_some_iff.mp h
      obtain ⟨category, hcategory, h⟩ := Option.bind_eq_some_iff.mp h
      obtain ⟨componentId, hid, h⟩ := Option.bind_eq_some_iff.mp h
      cases h
      obtain ⟨wordValue, rfl, hword⟩ := Option.bind_eq_some_iff.mp hword
      obtain ⟨idValue, rfl, hid⟩ := Option.bind_eq_some_iff.mp hid
      refine ⟨word, Category.ofText?_eq_some_iff.mp hcategory, ?_⟩
      rw [hfields, Json.string?_eq_some_iff.mp hword, Json.int64?_eq_some_iff.mp hid]
    · cases h
  · rintro ⟨word, hword, hfields⟩
    have hcategory := Category.ofText?_eq_some_iff.mpr hword
    have hid := Json.int64?_eq_some_iff.mpr (Eq.refl (Json.int tag.componentId.toInt))
    simp only [ofJson?, hfields, Json.required, Option.bind_eq_bind, Option.bind_some,
      Json.string?_eq_some_iff.mpr (Eq.refl (Json.text word)), hcategory, hid, Option.pure_def]

/-- **The values that are tags** are those that state one. -/
theorem ofJson?_eq_some_iff {value : Json} {tag : ComponentTag} :
    ofJson? value = some tag ↔ States value tag := by
  rw [ofJson?_eq_some_iff_fields]
  constructor
  · rintro ⟨word, hword, hfields⟩
    cases value with
    | object members =>
        obtain ⟨hnames, hcategory, hid⟩ := Json.fields?_object_iff.mp hfields
        exact .object hnames hcategory hword hid
    | array items =>
        obtain rfl := Json.fields?_array_iff.mp hfields
        exact .array hword
    | _ => cases hfields
  · intro h
    cases h with
    | object hnames hcategory hword hid =>
        exact ⟨_, hword, Json.fields?_object_iff.mpr ⟨hnames, hcategory, hid⟩⟩
    | array hword => exact ⟨_, hword, Json.fields?_array_iff.mpr rfl⟩

/-- **The grammar of component tags.** A text is a tag if and only if it is
    the text of a value that states one; every other text is none.  The id in
    it is written in its digits alone, since a fraction, an exponent or a
    negative zero makes a double of a number, and so do digits beyond 64
    bits. -/
theorem ofText?_grammar :
    (∀ (raw : String) (tag : ComponentTag),
      ofText? raw = some tag ↔ ∃ value, Json.IsText raw.toList value ∧ States value tag) ∧
    ∀ (text : List Char) (id : Int64),
      Json.IsValue text (.int id.toInt) ↔ text = Number.intDigits id.toInt := by
  constructor
  · intro raw tag
    rw [ofText?, Json.ofText?, Option.bind_eq_some_iff]
    exact exists_congr fun value => and_congr Json.read?_eq_some_iff ofJson?_eq_some_iff
  · intro text id
    exact Json.isValue_int_iff id.minValue_le_toInt (Int.lt_of_le_of_lt id.toInt_le (by decide))

example : ofText? "[\" CPU \",7]" = some { category := .cpu, componentId := 7 } := by
  cbv

-- Two spellings of one field are the field given twice.
example : ofText? "\x7b\"type\":\"cpu\",\"category\":\"cpu\",\"id\":7\x7d" = none := by
  cbv

end ComponentTag

end PcAssembly
