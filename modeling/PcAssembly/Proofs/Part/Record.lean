import PcAssembly.Part.Data
import PcAssembly.Proofs.Json.Fields

/-! # Part records

    A part record has its category and a fact sheet.  In an object the sheet is
    the whole object, with the category as one member more; in an array it is
    what follows the category. -/

namespace PcAssembly.Part

open Json

/-- A record with its category and its fact sheet. -/
inductive IsRecord : Json → Json → Json → Prop
  | object {members : List (Quoted × Json)} {category : Json}
      (hcategory : HoldsOnce ["category"] members category) :
      IsRecord (.object members) category (.object members)
  | array (category : Json) (rest : List Json) :
      IsRecord (.array (category :: rest)) category (.array rest)

/-- **A record is read** by its category and its fact sheet. -/
theorem ofRecord?_eq_some_iff {readCategory : Json → Option Category} {record : Json}
    {part : Part} :
    ofRecord? readCategory record = some part ↔
      ∃ value sheet category facts, IsRecord record value sheet ∧
        readCategory value = some category ∧ category.factsOfJson? sheet = some facts ∧
        part = ofFacts category facts := by
  constructor
  · intro h
    unfold ofRecord? at h
    split at h
    · obtain ⟨field, hfield, hsheet⟩ := Option.bind_eq_some_iff.mp h
      obtain ⟨category, hcategory, hsheet⟩ := Option.bind_eq_some_iff.mp hsheet
      obtain ⟨facts, hfacts, hpart⟩ := Option.bind_eq_some_iff.mp hsheet
      obtain ⟨value, rfl, hvalue⟩ := required_eq_some_iff.mp hcategory
      exact ⟨value, _, category, facts, .object (field?_eq_some_some_iff.mp hfield), hvalue, hfacts,
        (Option.some.inj hpart).symm⟩
    · obtain ⟨category, hcategory, hsheet⟩ := Option.bind_eq_some_iff.mp h
      obtain ⟨facts, hfacts, hpart⟩ := Option.bind_eq_some_iff.mp hsheet
      exact ⟨_, _, category, facts, .array _ _, hcategory, hfacts, (Option.some.inj hpart).symm⟩
    · cases h
  · rintro ⟨value, sheet, category, facts, hrecord, hcategory, hfacts, rfl⟩
    cases hrecord with
    | object hfield =>
        simp only [ofRecord?, field?_eq_some_some_iff.mpr hfield, Option.bind_eq_bind,
          Option.bind_some, required_some, hcategory, hfacts, Option.pure_def]
    | array =>
        simp only [ofRecord?, Option.bind_eq_bind, Option.bind_some, hcategory, hfacts,
          Option.pure_def]

theorem ofJson?_eq_some_iff {record : Json} {part : Part} :
    ofJson? record = some part ↔
      record.isKept 0 = true ∧ ofRecord? categoryOfKey? record = some part := by
  rw [ofJson?, Option.ite_none_right_eq_some]

end PcAssembly.Part
