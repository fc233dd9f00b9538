import PcAssembly.Json.Fields
import PcAssembly.Proofs.List.FailingMap

/-! # The fields of a record

    A reader of a field takes the values of one kind and no others.  A field of
    an object is found under one of its names, missing if no member has one, and
    given twice, which is an error, if two have (`HoldsOnce`). -/

namespace PcAssembly

namespace Number

/-- A signed 64-bit number is the integer it stands for. -/
theorem int64?_eq_some_iff {i : Int} {x : Int64} : int64? i = some x ↔ i = x.toInt := by
  constructor
  · intro h
    rw [int64?] at h
    split at h
    · rename_i hbounds
      cases h
      exact (Int64.toInt_ofInt_of_le hbounds.1 (Int.lt_add_one_of_le hbounds.2)).symm
    · cases h
  · rintro rfl
    exact int64?_toInt x

/-- An unsigned 32-bit number is the integer it stands for. -/
theorem uint32?_eq_some_iff {i : Int} {x : UInt32} : uint32? i = some x ↔ i = x.toNat := by
  constructor
  · intro h
    rw [uint32?] at h
    split at h
    · rename_i hbounds
      cases h
      have hlt : i.toNat < UInt32.size := by omega
      rw [UInt32.toNat_ofNat_of_lt' hlt]
      omega
    · cases h
  · rintro rfl
    have hlt := x.toNat_lt
    rw [uint32?, if_pos (by simp only [UInt32.size]; omega), Int.toNat_natCast, UInt32.ofNat_toNat]

end Number

namespace Json

/-- A text is read from itself alone. -/
theorem string?_eq_some_iff {value : Json} {s : String} :
    value.string? = some s ↔ value = .text s := by
  constructor
  · intro h
    cases value with
    | string quoted => exact congrArg Json.string h
    | _ => cases h
  · rintro rfl
    rfl

@[simp] theorem string?_text (s : String) : (text s).string? = some s :=
  string?_eq_some_iff.mpr rfl

/-- An integer is read from itself alone. -/
theorem int?_eq_some_iff {value : Json} {i : Int} : value.int? = some i ↔ value = .int i := by
  constructor
  · intro h
    unfold int? at h
    split at h
    · cases h
      rfl
    · cases h
  · rintro rfl
    rfl

/-- A signed integer is read from itself alone. -/
theorem int64?_eq_some_iff {value : Json} {x : Int64} :
    value.int64? = some x ↔ value = .int x.toInt := by
  constructor
  · intro h
    obtain ⟨i, hi, hx⟩ := Option.bind_eq_some_iff.mp h
    rw [← Number.int64?_eq_some_iff.mp hx]
    exact int?_eq_some_iff.mp hi
  · rintro rfl
    exact Number.int64?_eq_some_iff.mpr rfl

/-- An unsigned integer is read from itself alone. -/
theorem uint32?_eq_some_iff {value : Json} {x : UInt32} :
    value.uint32? = some x ↔ value = .ofUInt32 x := by
  constructor
  · intro h
    obtain ⟨i, hi, hx⟩ := Option.bind_eq_some_iff.mp h
    rw [int?_eq_some_iff.mp hi, Number.uint32?_eq_some_iff.mp hx]
    rfl
  · rintro rfl
    have hint : (Json.ofUInt32 x).int? = some (x.toNat : Int) := rfl
    rw [uint32?, hint, Option.bind_some]
    exact Number.uint32?_eq_some_iff.mpr rfl

@[simp] theorem uint32?_ofUInt32 (x : UInt32) : (ofUInt32 x).uint32? = some x :=
  uint32?_eq_some_iff.mpr rfl

@[simp] theorem required_some {α : Type} (read : Json → Option α) (value : Json) :
    required read (some value) = read value := by
  rw [required, Option.bind_some]

/-- A required field is there and is read. -/
theorem required_eq_some_iff {α : Type} {read : Json → Option α} {field : Option Json} {x : α} :
    required read field = some x ↔ ∃ value, field = some value ∧ read value = some x :=
  Option.bind_eq_some_iff

/-! ### Records -/

/-- One member alone has one of these names, and it holds the value. -/
def HoldsOnce (names : List String) (members : List (Quoted × Json)) (value : Json) : Prop :=
  ∃ before name after, members = before ++ (some name, value) :: after ∧ name ∈ names ∧
    ∀ member ∈ before ++ after, ∀ other ∈ names, member.1 ≠ some other

/-- A member has one of these names. -/
theorem any_contains_iff {name : Quoted} {names : List String} :
    name.any names.contains = true ↔ ∃ other ∈ names, name = some other := by
  cases name with
  | none => simp
  | some name => simp

/-- **A field is found** if one member alone has one of its names. -/
theorem field?_eq_some_some_iff {members : List (Quoted × Json)} {names : List String}
    {value : Json} :
    field? members names = some (some value) ↔ HoldsOnce names members value := by
  constructor
  · intro h
    rw [field?] at h
    split at h
    · cases h
    · rename_i found hfound
      cases h
      obtain ⟨before, after, hmembers, hbefore, hname, hafter⟩ := List.filter_eq_cons_iff.mp hfound
      obtain ⟨name, hmem, hname⟩ := any_contains_iff.mp hname
      refine ⟨before, name, after, ?_, hmem, fun member hmember other hother hsame => ?_⟩
      · rw [hmembers, ← hname]
      · have hfound := any_contains_iff.mpr ⟨other, hother, hsame⟩
        rcases List.mem_append.mp hmember with hmember | hmember
        · exact hbefore member hmember hfound
        · exact List.filter_eq_nil_iff.mp hafter member hmember hfound
    · cases h
  · rintro ⟨before, name, after, rfl, hmem, halone⟩
    have hnone (member : Quoted × Json) (hmember : member ∈ before ++ after) :
        ¬ member.1.any names.contains = true := fun hfound =>
      have ⟨other, hother, hsame⟩ := any_contains_iff.mp hfound
      halone member hmember other hother hsame
    have hfound : (before ++ (some name, value) :: after).filter
        (fun member => member.1.any names.contains) = [(some name, value)] :=
      List.filter_eq_cons_iff.mpr ⟨before, after, rfl,
        fun member hmember => hnone member (List.mem_append_left _ hmember),
        any_contains_iff.mpr ⟨name, hmem, rfl⟩,
        List.filter_eq_nil_iff.mpr fun member hmember =>
          hnone member (List.mem_append_right _ hmember)⟩
    rw [field?, hfound]

/-- **A field is missing** if no member has one of its names. -/
theorem field?_eq_some_none_iff {members : List (Quoted × Json)} {names : List String} :
    field? members names = some none ↔
      ∀ member ∈ members, ∀ other ∈ names, member.1 ≠ some other := by
  have hnone : (members.filter fun member => member.1.any names.contains) = [] ↔
      ∀ member ∈ members, ∀ other ∈ names, member.1 ≠ some other := by
    simp only [List.filter_eq_nil_iff, any_contains_iff, not_exists, not_and, ne_eq]
  rw [← hnone, field?]
  split
  · rename_i hfound
    simp only [hfound]
  · rename_i hfound
    simp [hfound]
  · rename_i hempty _
    exact ⟨nofun, fun h => absurd h hempty⟩

/-- One member alone has one of these names and holds the value, or there is no
    value and no member has one. -/
def HoldsAtMostOnce (names : List String) (members : List (Quoted × Json)) : Option Json → Prop
  | some value => HoldsOnce names members value
  | none => ∀ member ∈ members, ∀ other ∈ names, member.1 ≠ some other

/-- A field is looked up if at most one member has one of its names. -/
theorem field?_eq_some_iff {members : List (Quoted × Json)} {names : List String}
    {field : Option Json} :
    field? members names = some field ↔ HoldsAtMostOnce names members field := by
  cases field with
  | none => exact field?_eq_some_none_iff
  | some value => exact field?_eq_some_some_iff

/-- The fields of an object are looked up one by one, under whole names. -/
theorem fields?_object_eq_some_iff {layout : Layout} {members : List (Quoted × Json)}
    {fields : List (Option Json)} :
    fields? layout (.object members) = some fields ↔
      (∀ member ∈ members, member.1 ≠ none) ∧ layout.map (field? members) = fields.map some := by
  have hwhole : (members.all fun member => member.1.isSome) = true ↔
      ∀ member ∈ members, member.1 ≠ none := by
    simp only [List.all_eq_true, Option.isSome_iff_ne_none]
  rw [fields?, ← hwhole]
  split
  · rename_i hall
    rw [mapM_eq_some_iff, and_iff_right hall]
  · rename_i hall
    exact ⟨nofun, fun h => absurd h.1 hall⟩

/-- Two fields of an object, of which the second one may be missing. -/
theorem fields?_object_iff {first second : List String} {members : List (Quoted × Json)}
    {x : Json} {y : Option Json} :
    fields? [first, second] (.object members) = some [some x, y] ↔
      (∀ member ∈ members, member.1 ≠ none) ∧
        HoldsOnce first members x ∧ HoldsAtMostOnce second members y := by
  rw [fields?_object_eq_some_iff, ← field?_eq_some_some_iff, ← field?_eq_some_iff]
  simp only [List.map_cons, List.map_nil, List.cons.injEq, and_true]

/-- Two items of an array, of which the second one may be missing. -/
theorem fields?_array_iff {first second : List String} {items : List Json} {x : Json}
    {y : Option Json} :
    fields? [first, second] (.array items) = some [some x, y] ↔ items = x :: y.toList := by
  match items with
  | [] => simp [fields?]
  | [_] => cases y <;> simp [fields?]
  | [_, _] => cases y <;> simp [fields?]
  | _ :: _ :: _ :: _ => cases y <;> simp [fields?]

end Json

end PcAssembly
