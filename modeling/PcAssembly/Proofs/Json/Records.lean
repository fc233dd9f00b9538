import Mathlib.Data.List.Forall2
import Mathlib.Data.List.Nodup
import Mathlib.Data.List.Perm.Basic
import PcAssembly.Proofs.Json.Fields
import PcAssembly.Proofs.Json.Writing

/-! # Formats of records

    A record can be written in many ways: as an object whose members stand in
    any order among others that nobody asked for, without the fields that may be
    missing, or as an array of its values.  A list of fields says which values
    state which record (`StatesRecord`), and `IsRecordFormat` what a format
    promises: every record is read back from its texts, and any other text that
    is read as this record is written again as them. -/

namespace PcAssembly.Json

/-! ### Looking up a field -/

/-- The order of the members does not matter. -/
theorem field?_eq_of_perm {members members' : List (Quoted × Json)} (h : members.Perm members')
    (names : List String) : field? members names = field? members' names := by
  have hfound := h.filter fun member => member.1.any names.contains
  rw [field?, field?]
  revert hfound
  generalize (members.filter fun member => member.1.any names.contains) = found
  generalize (members'.filter fun member => member.1.any names.contains) = found'
  intro hfound
  rcases found with _ | ⟨first, _ | ⟨second, others⟩⟩
  · rw [hfound.nil_eq]
  · rw [hfound.singleton_eq]
  · -- two members have the name in one order, so two have it in the other
    have hlength := hfound.length_eq
    rcases found' with _ | ⟨first', _ | ⟨second', others'⟩⟩
    · cases hlength
    · cases hlength
    · rfl

/-- A member with another name does not matter. -/
theorem field?_append_cons_of_ne {before after : List (Quoted × Json)} {name other : String}
    (hne : name ≠ other) (value : Json) :
    field? (before ++ (some name, value) :: after) [other] = field? (before ++ after) [other] := by
  have hother : (Quoted × Json) → Bool := fun member => member.1.any [other].contains
  rw [field?, field?, List.filter_append, List.filter_append, List.filter_cons_of_neg]
  simpa using hne

/-- The field of a member whose name no other member has. -/
theorem field?_append_cons_self {before after : List (Quoted × Json)} {name : String}
    (halone : ∀ member ∈ before ++ after, member.1 ≠ some name) (value : Json) :
    field? (before ++ (some name, value) :: after) [name] = some (some value) := by
  refine field?_eq_some_some_iff.mpr ⟨before, name, after, rfl, List.mem_singleton_self name, ?_⟩
  intro member hmember other hother
  rw [List.mem_singleton.mp hother]
  exact halone member hmember

theorem field?_of_forall_ne {members : List (Quoted × Json)} {name : String}
    (h : ∀ member ∈ members, member.1 ≠ some name) : field? members [name] = some none := by
  refine field?_eq_some_none_iff.mpr fun member hmember other hother => ?_
  rw [List.mem_singleton.mp hother]
  exact h member hmember

/-- Names that stand in front of values are looked up like positions. -/
theorem field?_zip {names : List String} (hnames : names.Nodup) (values : List Json) {i : ℕ}
    (hi : i < names.length) :
    field? ((names.zip values).map fun member => (some member.1, member.2)) [names[i]] =
      some values[i]? := by
  induction names generalizing values i with
  | nil => exact absurd hi (Nat.not_lt_zero i)
  | cons name names ih =>
      obtain ⟨hname, hnames⟩ := List.nodup_cons.mp hnames
      cases values with
      | nil => rfl
      | cons value values =>
          rw [List.zip_cons_cons, List.map_cons, ← List.nil_append (_ :: _)]
          cases i with
          | zero =>
              refine field?_append_cons_self (fun member hmember hsame => ?_) value
              obtain ⟨⟨other, _⟩, hother, rfl⟩ := List.mem_map.mp hmember
              obtain rfl : other = name := Option.some.inj hsame
              exact hname (List.of_mem_zip hother).1
          | succ i =>
              have hi : i < names.length := Nat.lt_of_succ_lt_succ hi
              have hne : name ≠ names[i] := fun hsame => hname (hsame ▸ List.getElem_mem hi)
              exact (field?_append_cons_of_ne hne value).trans (ih hnames values hi)

/-! ### Fields -/

/-- A field of a record: its name, the value that a missing field stands for if
    it may be missing, how it is written, and the values that state it. -/
structure Field (α : Type) where
  name : String
  default : Option Json := none
  write : α → Json
  States : α → Json → Prop := fun x value => value = write x

namespace Field

variable {α : Type}

/-- A value, or none, is what the field of the record may be. -/
def Holds (field : Field α) (x : α) : Option Json → Prop
  | some value => field.States x value
  | none => ∃ value, field.default = some value ∧ field.States x value

/-- The names of the fields, in order. -/
def names (fields : List (Field α)) : List String :=
  fields.map Field.name

/-- The record as an object with every field. -/
def record (fields : List (Field α)) (x : α) : Json :=
  .record ((names fields).zip (fields.map fun field => field.write x))

theorem rereads_record {fields : List (Field α)} {x : α}
    (h : ∀ field ∈ fields, Rereads (field.write x) (field.write x)) :
    Rereads (record fields x) (record fields x) := by
  have hitems : RereadItems (fields.map fun field => field.write x)
      (fields.map fun field => field.write x) := by
    refine .of_forall fun item hitem => ?_
    obtain ⟨field, hfield, rfl⟩ := List.mem_map.mp hitem
    exact h field hfield
  exact hitems.record (names fields)

/-- What a reader of a required field takes. -/
theorem required_eq_some_iff {β : Type} (field : Field α) {read : Json → Option β} {x : α} {y : β}
    {found : Option Json} (hstates : ∀ value, read value = some y ↔ field.States x value)
    (hdefault : field.default = none) :
    required read found = some y ↔ field.Holds x found := by
  rw [Json.required_eq_some_iff]
  cases found with
  | none => simp [Holds, hdefault]
  | some value => simp [Holds, hstates]

/-- What a reader of a field that may be missing takes. -/
theorem optional_eq_some_iff {β : Type} (field : Field α) {read : Json → Option β} {x : α}
    {default y : β} {found : Option Json}
    (hstates : ∀ value, read value = some y ↔ field.States x value)
    (hdefault : ∃ missing, field.default = some missing ∧ read missing = some default) :
    optional default read found = some y ↔ field.Holds x found := by
  obtain ⟨missing, hdefault, hmissing⟩ := hdefault
  cases found with
  | none => simp [Holds, hdefault, ← hstates, hmissing, optional]
  | some value => exact hstates value

end Field

section

variable {α : Type} {fields : List (Field α)} {x : α}

/-- The values that state a record.  Each field of an object is one member or
    missing, and other members may have any whole names and any values.  The
    items of an array are the first fields; it has no room for more. -/
inductive StatesRecord (fields : List (Field α)) : Json → α → Prop
  | object {members : List (Quoted × Json)} {x : α}
      (hnames : ∀ member ∈ members, member.1 ≠ none)
      (hfields : ∀ field ∈ fields, ∃ found,
        HoldsAtMostOnce [field.name] members found ∧ field.Holds x found) :
      StatesRecord fields (.object members) x
  | array {items : List Json} {x : α} (hlength : items.length ≤ fields.length)
      (hfields : ∀ (i : ℕ) (hi : i < fields.length), fields[i].Holds x items[i]?) :
      StatesRecord fields (.array items) x

/-- Looking up one thing after another, each with what it has to be. -/
theorem exists_map_forall₂_iff {β γ : Type} {look : β → Option γ} {P : β → γ → Prop}
    {xs : List β} :
    (∃ ys, xs.map look = ys.map some ∧ List.Forall₂ P xs ys) ↔
      ∀ x ∈ xs, ∃ y, look x = some y ∧ P x y := by
  induction xs with
  | nil => exact iff_of_true ⟨[], rfl, .nil⟩ nofun
  | cons x xs ih =>
      rw [List.forall_mem_cons, ← ih]
      constructor
      · rintro ⟨_, hlook, hall⟩
        obtain ⟨y, ys, hy, hys, rfl⟩ := List.forall₂_cons_left_iff.mp hall
        obtain ⟨hx, hxs⟩ := List.cons.inj hlook
        exact ⟨⟨y, hx, hy⟩, ys, hxs, hys⟩
      · rintro ⟨⟨y, hx, hy⟩, ys, hxs, hys⟩
        exact ⟨y :: ys, by rw [List.map_cons, hx, hxs, List.map_cons], .cons hy hys⟩

/-- The items of an array and a missing field for every item that is not there. -/
theorem getElem_padded (items : List Json) (missing : ℕ) {i : ℕ}
    (hi : i < (items.map some ++ List.replicate missing none).length) :
    (items.map some ++ List.replicate missing none)[i] = items[i]? := by
  rw [List.getElem_append]
  split
  · rename_i hlt
    rw [List.getElem_map, List.getElem?_eq_getElem]
  · rename_i hge
    rw [List.getElem_replicate, List.getElem?_eq_none]
    simpa using hge

/-- What is found for the layout of the fields states them one by one: so it is
    in an object. -/
theorem exists_fields?_object_iff {members : List (Quoted × Json)} :
    (∃ found, (object members).fields? (Layout.plain (Field.names fields)) = some found ∧
      List.Forall₂ (fun field value => field.Holds x value) fields found) ↔
    StatesRecord fields (.object members) x := by
  have hlook (found : List (Option Json)) :
      (Layout.plain (Field.names fields)).map (field? members) = found.map some ↔
        fields.map (fun field => field? members [field.name]) = found.map some := by
    rw [Layout.plain, Field.names, List.map_map, List.map_map]
    rfl
  simp only [fields?_object_eq_some_iff, hlook, and_assoc, exists_and_left,
    exists_map_forall₂_iff, field?_eq_some_iff]
  constructor
  · rintro ⟨hnames, hfields⟩
    exact .object hnames hfields
  · rintro ⟨⟩
    rename_i hnames hfields
    exact ⟨hnames, hfields⟩

/-- And so it is in an array. -/
theorem exists_fields?_array_iff {items : List Json} :
    (∃ found, (array items).fields? (Layout.plain (Field.names fields)) = some found ∧
      List.Forall₂ (fun field value => field.Holds x value) fields found) ↔
    StatesRecord fields (.array items) x := by
  have hlayout : (Layout.plain (Field.names fields)).length = fields.length := by
    rw [Layout.plain, Field.names, List.length_map, List.length_map]
  rw [fields?, hlayout]
  constructor
  · rintro ⟨found, hfound, hall⟩
    split at hfound
    · rename_i hlength
      cases hfound
      refine .array hlength fun i hi => ?_
      have hi' := hall.length_eq ▸ hi
      rw [← getElem_padded items (fields.length - items.length) hi']
      exact hall.get hi hi'
    · cases hfound
  · rintro ⟨⟩
    rename_i hlength hfields
    refine ⟨_, if_pos hlength, List.forall₂_iff_get.mpr ⟨?_, fun i hi hi' => ?_⟩⟩
    · simp
      omega
    · rw [List.get_eq_getElem, List.get_eq_getElem, getElem_padded]
      exact hfields i hi

/-- No other value has fields. -/
theorem exists_fields?_iff {value : Json} :
    (∃ found, value.fields? (Layout.plain (Field.names fields)) = some found ∧
      List.Forall₂ (fun field value => field.Holds x value) fields found) ↔
    StatesRecord fields value x := by
  cases value with
  | object members => exact exists_fields?_object_iff
  | array items => exact exists_fields?_array_iff
  | _ =>
      refine iff_of_false ?_ ?_
      · rintro ⟨_, hfound, _⟩
        cases hfound
      · rintro ⟨⟩

theorem length_of_fields? {layout : Layout} {value : Json} {found : List (Option Json)}
    (h : value.fields? layout = some found) : found.length = layout.length := by
  cases value with
  | object members =>
      have hfound := (fields?_object_eq_some_iff.mp h).2
      simpa using (congrArg List.length hfound).symm
  | array items =>
      rw [fields?] at h
      split at h
      · cases h
        simp
        omega
      · cases h
  | _ => cases h

/-- **A reader of records**, one that looks up the fields and makes a record of
    what it has found, takes the values that state the record, if it makes the
    record of what its fields hold. -/
theorem eq_some_iff_statesRecord (ofJson? : Json → Option α)
    {read : List (Option Json) → Option α}
    (hread : ∀ value, ofJson? value = (value.fields? (Layout.plain (Field.names fields))).bind read)
    (hholds : ∀ found, found.length = fields.length → (read found = some x ↔
      List.Forall₂ (fun field value => field.Holds x value) fields found))
    {value : Json} : ofJson? value = some x ↔ StatesRecord fields value x := by
  rw [hread, Option.bind_eq_some_iff, ← exists_fields?_iff]
  refine exists_congr fun found => and_congr_right fun hfound => hholds found ?_
  rw [length_of_fields? hfound, Layout.plain, Field.names, List.length_map, List.length_map]

theorem statesRecord_object_iff {members : List (Quoted × Json)} :
    StatesRecord fields (.object members) x ↔ (∀ member ∈ members, member.1 ≠ none) ∧
      ∀ field ∈ fields, ∃ found,
        field? members [field.name] = some found ∧ field.Holds x found := by
  simp only [field?_eq_some_iff]
  exact ⟨fun | .object hnames hfields => ⟨hnames, hfields⟩,
    fun ⟨hnames, hfields⟩ => .object hnames hfields⟩

/-- An array states what its items state under the names of the first fields. -/
theorem statesRecord_array_iff (hnames : (Field.names fields).Nodup) {items : List Json}
    (hlength : items.length ≤ fields.length) :
    StatesRecord fields (.array items) x ↔
      StatesRecord fields (.record ((Field.names fields).zip items)) x := by
  have hfound (i : ℕ) (hi : i < fields.length) :
      field? (((Field.names fields).zip items).map fun member => (some member.1, member.2))
        [fields[i].name] = some items[i]? := by
    have hi' : i < (Field.names fields).length := by rwa [Field.names, List.length_map]
    have hname : (Field.names fields)[i] = fields[i].name := List.getElem_map _
    rw [← hname]
    exact field?_zip hnames items hi'
  rw [record, statesRecord_object_iff, and_iff_right]
  · rw [List.forall_mem_iff_getElem]
    simp only [hfound, Option.some.injEq, exists_eq_left']
    exact ⟨fun | .array _ hfields => hfields, .array hlength⟩
  · intro member hmember
    obtain ⟨_, -, rfl⟩ := List.mem_map.mp hmember
    exact Option.some_ne_none _

theorem statesRecord_record (hnames : (Field.names fields).Nodup)
    (h : ∀ field ∈ fields, field.States x (field.write x)) :
    StatesRecord fields (Field.record fields x) x := by
  have hlength : (fields.map fun field => field.write x).length = fields.length :=
    List.length_map _
  refine (statesRecord_array_iff hnames (Nat.le_of_eq hlength)).mp
    (.array (Nat.le_of_eq hlength) fun i hi => ?_)
  rw [List.getElem?_map, List.getElem?_eq_getElem hi]
  exact h _ (List.getElem_mem hi)

/-- A member that is no field says nothing. -/
theorem statesRecord_others_iff {before after : List (Quoted × Json)} {name : String}
    (hname : name ∉ Field.names fields) (value : Json) :
    StatesRecord fields (.object (before ++ (some name, value) :: after)) x ↔
      StatesRecord fields (.object (before ++ after)) x := by
  rw [statesRecord_object_iff, statesRecord_object_iff]
  refine and_congr ?_ (forall₂_congr fun field hfield => ?_)
  · simp [or_imp, forall_and]
  · have hne : name ≠ field.name := fun hsame => hname (hsame ▸ List.mem_map_of_mem hfield)
    rw [field?_append_cons_of_ne hne]

/-- A missing field states what its default states. -/
theorem statesRecord_missing_iff (hnames : (Field.names fields).Nodup)
    {before after : List (Quoted × Json)} {field : Field α} (hfield : field ∈ fields)
    {value : Json} (hdefault : field.default = some value)
    (halone : ∀ member ∈ before ++ after, member.1 ≠ some field.name) :
    StatesRecord fields (.object (before ++ (some field.name, value) :: after)) x ↔
      StatesRecord fields (.object (before ++ after)) x := by
  rw [statesRecord_object_iff, statesRecord_object_iff]
  refine and_congr ?_ (forall₂_congr fun other hother => ?_)
  · simp [or_imp, forall_and]
  · by_cases hsame : field.name = other.name
    · obtain rfl := List.inj_on_of_nodup_map hnames hfield hother hsame
      rw [field?_append_cons_self halone, field?_of_forall_ne halone]
      simp [Field.Holds, hdefault]
    · rw [field?_append_cons_of_ne hsame]

end

/-! ### Formats -/

/-- The two ways in which a value is laid out. -/
def layouts : List (Json → String) := [compact, pretty]

/-- What is written in either way is read back. -/
theorem Rereads.ofText?_layout {value : Json} (h : Rereads value value) {print : Json → String}
    (hprint : print ∈ layouts) : ofText? (print value) = some value := by
  rcases List.mem_pair.mp hprint with rfl | rfl
  · exact h.ofText?_compact
  · exact h.ofText?_pretty

/-- What a text is decoded to. -/
def decode? {α : Type} (read : Json → Option α) (text : String) : Option α :=
  (ofText? text).bind read

/-- **A format of records.** -/
structure IsRecordFormat {α : Type} (fields : List (Field α)) (write : α → Json)
    (read : Json → Option α) : Prop where
  /-- Every record is read back from what it is written as. -/
  decode_write : ∀ print ∈ layouts, ∀ x, decode? read (print (write x)) = some x
  /-- Different records are written differently. -/
  injective : ∀ print ∈ layouts, Function.Injective fun x => print (write x)
  /-- The texts of a record are those of the values that state it. -/
  decode_eq_some_iff : ∀ text x, decode? read text = some x ↔
    ∃ value, IsText text.toList value ∧ StatesRecord fields value x
  /-- A text is one of the record exactly if reading it and writing what was
      read gives the text that the record is written as. -/
  rewrite_iff : ∀ print ∈ layouts, ∀ text x,
    (decode? read text).map (fun x => print (write x)) = some (print (write x)) ↔
      decode? read text = some x
  /-- What a text is decoded to depends on its value alone. -/
  decode_eq : ∀ text value, IsText text.toList value → decode? read text = read value
  /-- The members of an object may come in any order. -/
  order : ∀ members members' : List (Quoted × Json), members.Perm members' →
    read (.object members) = read (.object members')
  /-- A member that is no field may stand anywhere, with any value. -/
  others : ∀ (before after : List (Quoted × Json)) (name : String) (value : Json),
    name ∉ Field.names fields →
      read (.object (before ++ (some name, value) :: after)) = read (.object (before ++ after))
  /-- A field that may be missing can be left out instead of written with the
      value that it then has. -/
  missing : ∀ (before after : List (Quoted × Json)), ∀ field ∈ fields, ∀ value,
    field.default = some value → (∀ member ∈ before ++ after, member.1 ≠ some field.name) →
      read (.object (before ++ (some field.name, value) :: after)) =
        read (.object (before ++ after))
  /-- An array stands for the object in which its items have the names of the
      first fields. -/
  array : ∀ items : List Json, items.length ≤ fields.length →
    read (.array items) = read (.record ((Field.names fields).zip items))

/-- **Writing and reading by the same fields is a format**, if the written
    values of the fields are read back and state them. -/
theorem IsRecordFormat.of_fields {α : Type} {fields : List (Field α)} {write : α → Json}
    {read : Json → Option α} (hnames : (Field.names fields).Nodup)
    (hwrite : ∀ x, write x = Field.record fields x)
    (hrereads : ∀ x, ∀ field ∈ fields, Rereads (field.write x) (field.write x))
    (hstates : ∀ x, ∀ field ∈ fields, field.States x (field.write x))
    (hread : ∀ value x, read value = some x ↔ StatesRecord fields value x) :
    IsRecordFormat fields write read := by
  have hread_congr {value value' : Json}
      (h : ∀ x, StatesRecord fields value x ↔ StatesRecord fields value' x) :
      read value = read value' :=
    Option.ext fun x => by rw [hread, hread, h]
  have hdecode (print : Json → String) (hprint : print ∈ layouts) (x : α) :
      decode? read (print (write x)) = some x := by
    rw [decode?, hwrite, (Field.rereads_record (hrereads x)).ofText?_layout hprint,
      Option.bind_some, hread]
    exact statesRecord_record hnames (hstates x)
  have hinjective (print : Json → String) (hprint : print ∈ layouts) :
      Function.Injective fun x => print (write x) := by
    intro x y (h : print (write x) = print (write y))
    exact Option.some.inj ((hdecode print hprint x).symm.trans (h ▸ hdecode print hprint y))
  exact {
    decode_write := hdecode
    injective := hinjective
    decode_eq_some_iff := fun text x => Option.bind_eq_some_iff.trans
      (exists_congr fun value => and_congr read?_eq_some_iff (hread value x))
    rewrite_iff := fun print hprint text x => by
      rw [Option.map_eq_some_iff]
      constructor
      · rintro ⟨y, htext, hsame⟩
        rwa [← hinjective print hprint hsame]
      · exact fun htext => ⟨x, htext, rfl⟩
    decode_eq := fun text value htext => by
      rw [decode?, ofText?, read?_eq_some_iff.mpr htext, Option.bind_some]
    order := fun members members' hperm => hread_congr fun x => by
      simp only [statesRecord_object_iff, hperm.mem_iff, field?_eq_of_perm hperm]
    others := fun before after name value hname => hread_congr fun x =>
      statesRecord_others_iff hname value
    missing := fun before after field hfield value hdefault halone => hread_congr fun x =>
      statesRecord_missing_iff hnames hfield hdefault halone
    array := fun items hlength => hread_congr fun x => statesRecord_array_iff hnames hlength }

/-- Blanks behind a written record do not matter. -/
theorem IsRecordFormat.decode_write_append {α : Type} {fields : List (Field α)} {write : α → Json}
    {read : Json → Option α} (h : IsRecordFormat fields write read) {print : Json → String}
    (hprint : print ∈ layouts) (x : α) {blanks : String} (hblanks : AreBlanks blanks.toList) :
    decode? read (print (write x) ++ blanks) = some x := by
  obtain ⟨value, htext, hstates⟩ := (h.decode_eq_some_iff _ _).mp (h.decode_write print hprint x)
  refine (h.decode_eq_some_iff _ _).mpr ⟨value, ?_, hstates⟩
  rw [String.toList_append]
  exact htext.append_right hblanks

end PcAssembly.Json
