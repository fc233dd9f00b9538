import PcAssembly.Proofs.Json.Writing
import PcAssembly.Proofs.Number.Finite
import PcAssembly.Proofs.Part.Sockets

/-! # Parts are stable under writing

    A part that was read is in the form in which parts are written: its sockets
    are trimmed and not blank, and its kind of drive has one word.  So it is read
    back as it was from what is written for it, up to its rating, which is read
    back as whatever its text says.  Every rating that is read is finite, so its
    text is that of a number. -/

namespace PcAssembly

open Json Text Binary64

/-! ### Ratings are finite -/

namespace Json

/-- Every item has a text of its own. -/
theorem AreItems.exists_isValue {text : List Char} {items : List Json} (h : AreItems text items)
    {item : Json} (hitem : item ∈ items) : ∃ text, IsValue text item := by
  cases h with
  | last hvalue =>
      obtain rfl := List.mem_singleton.mp hitem
      exact ⟨_, hvalue⟩
  | comma hvalue _ _ hrest =>
      rcases List.mem_cons.mp hitem with rfl | hitem
      · exact ⟨_, hvalue⟩
      · exact hrest.exists_isValue hitem

/-- The value of a member has a text of its own. -/
theorem IsMember.exists_isValue {text : List Char} {member : Quoted × Json}
    (h : IsMember text member) : ∃ text, IsValue text member.2 := by
  cases h with
  | colon _ _ _ hitem => exact ⟨_, hitem⟩

/-- The value of every member has a text of its own. -/
theorem AreMembers.exists_isValue {text : List Char} {members : List (Quoted × Json)}
    (h : AreMembers text members) {member : Quoted × Json} (hmember : member ∈ members) :
    ∃ text, IsValue text member.2 := by
  cases h with
  | last hvalue =>
      obtain rfl := List.mem_singleton.mp hmember
      exact hvalue.exists_isValue
  | comma hvalue _ _ hrest =>
      rcases List.mem_cons.mp hmember with rfl | hmember
      · exact hvalue.exists_isValue
      · exact hrest.exists_isValue hmember

/-- The values that stand directly inside a value. -/
def parts : Json → List Json
  | .array items => items
  | .object members => members.map Prod.snd
  | _ => []

/-- Every part of a value has a text of its own. -/
theorem IsText.exists_isValue {s : List Char} {value part : Json} (h : IsText s value)
    (hpart : part ∈ value.parts) : ∃ text, IsValue text part := by
  obtain ⟨-, text, -, -, -, hvalue, -⟩ := h.exists_eq
  cases hvalue with
  | array _ hitems => exact hitems.exists_isValue hpart
  | object _ hmembers =>
      obtain ⟨member, hmember, rfl⟩ := List.mem_map.mp hpart
      exact hmembers.exists_isValue hmember
  | _ => cases hpart

/-- **A number that is read has a finite value.** -/
theorem isFinite_of_isValue {text : List Char} {value : Json} {x : Float}
    (h : IsValue text value) (hx : value.float? = some x) : isFinite x = true := by
  cases h with
  | number hl => exact Number.isFinite_of_float? hx
  | _ => cases hx

/-- A double is read back as what its text says. -/
theorem rereads_double {x : Float} {value : Json}
    (htext : ofText? (double x).compact = some value) : Rereads (.double x) value := by
  have htext := read?_eq_some_iff.mp htext
  rw [compact, String.toList_ofList] at htext
  exact .number htext

/-- The values of the fields of a record stand in the record. -/
theorem mem_parts_of_fields? {layout : Layout} {record : Json} {fields : List (Option Json)}
    (h : record.fields? layout = some fields) {value : Json} (hvalue : some value ∈ fields) :
    value ∈ record.parts := by
  cases record with
  | object members =>
      obtain ⟨-, hfields⟩ := fields?_object_eq_some_iff.mp h
      have hsome := List.mem_map_of_mem (f := some) hvalue
      rw [← hfields] at hsome
      obtain ⟨names, -, hfound⟩ := List.mem_map.mp hsome
      obtain ⟨before, name, after, rfl, -⟩ := field?_eq_some_some_iff.mp hfound
      simp [parts]
  | array items =>
      rw [fields?, Option.ite_none_right_eq_some] at h
      obtain ⟨-, hfields⟩ := h
      rw [← Option.some.inj hfields] at hvalue
      show value ∈ items
      simpa using hvalue
  | _ => cases h

end Json

/-! ### Sockets and drives -/

/-- Words are not taken apart or trimmed again. -/
theorem socketWords_socketWords (entries : List String) :
    socketWords (socketWords entries) = socketWords entries := by
  have htrimmed : (socketWords entries).map trimmed = socketWords entries := by
    refine List.map_congr_left (fun word hword => ?_) |>.trans (List.map_id _)
    obtain ⟨entry, -, -, rfl⟩ := mem_socketWords_iff.mp hword
    exact trimmed_trimmed entry
  rw [socketWords, htrimmed, socketWords, List.filter_filter]
  simp only [Bool.and_self]

/-- A kind of drive is what its own word gives. -/
theorem DriveKind.ofWord_word (kind : DriveKind) : DriveKind.ofWord kind.word = kind := by
  cases kind <;> decide

@[simp] theorem DriveKind.ofJson?_text (word : String) :
    DriveKind.ofJson? (.text word) = some (DriveKind.ofWord word) := by
  rw [DriveKind.ofJson?, text, word?, Option.map_some]

namespace Part

/-- A part as readers leave it: the sockets of a cooler are its words. -/
def IsTidy : Part → Prop
  | .cooler facts => socketWords facts.supportedSockets = facts.supportedSockets
  | _ => True

/-- **What is read is tidy.** -/
theorem isTidy_of_ofRecord? {readCategory : Json → Option Category} {record : Json} {part : Part}
    (h : ofRecord? readCategory record = some part) : part.IsTidy := by
  cases part with
  | cooler facts =>
      obtain ⟨field, -, hsockets⟩ := ofRecord?_eq_cooler_iff.mp h
      rw [IsTidy, hsockets, socketWords_socketWords]
  | _ => exact True.intro

/-- The rating of a part is one, or the number in one of its fields. -/
theorem perfScore_of_factsOfFields? {category : Category} {fields : List (Option Json)}
    {facts : category.Facts} (h : category.factsOfFields? fields = some facts) :
    (ofFacts category facts).perfScore = 1.0 ∨
      ∃ value, some value ∈ fields ∧ value.float? = some (ofFacts category facts).perfScore := by
  cases category with
  | motherboard | psu | chassis | cooler => exact .inl rfl
  | cpu | ram =>
      match fields, h with
      | [_, _, perfScore], h =>
          obtain ⟨_, -, h⟩ := Option.bind_eq_some_iff.mp h
          obtain ⟨_, -, h⟩ := Option.bind_eq_some_iff.mp h
          obtain ⟨rating, hrating, h⟩ := Option.bind_eq_some_iff.mp h
          cases h
          obtain ⟨value, rfl, hvalue⟩ := required_eq_some_iff.mp hrating
          exact .inr ⟨value, by simp, hvalue⟩
  | gpu =>
      match fields, h with
      | [_, _, _, perfScore], h =>
          obtain ⟨_, -, h⟩ := Option.bind_eq_some_iff.mp h
          obtain ⟨_, -, h⟩ := Option.bind_eq_some_iff.mp h
          obtain ⟨_, -, h⟩ := Option.bind_eq_some_iff.mp h
          obtain ⟨rating, hrating, h⟩ := Option.bind_eq_some_iff.mp h
          cases h
          obtain ⟨value, rfl, hvalue⟩ := required_eq_some_iff.mp hrating
          exact .inr ⟨value, by simp, hvalue⟩
  | storage =>
      match fields, h with
      | [_, perfScore], h =>
          obtain ⟨_, -, h⟩ := Option.bind_eq_some_iff.mp h
          obtain ⟨rating, hrating, h⟩ := Option.bind_eq_some_iff.mp h
          cases h
          obtain ⟨value, rfl, hvalue⟩ := required_eq_some_iff.mp hrating
          exact .inr ⟨value, by simp, hvalue⟩

/-- **The rating of a part that is read is finite.** -/
theorem isFinite_perfScore {s : List Char} {record : Json} {part : Part}
    (htext : IsText s record) (h : ofRecord? categoryOfKey? record = some part) :
    isFinite part.perfScore = true := by
  obtain ⟨value, sheet, category, facts, hrecord, -, hfacts, rfl⟩ := ofRecord?_eq_some_iff.mp h
  obtain ⟨fields, hfields, hfacts⟩ := Option.bind_eq_some_iff.mp hfacts
  rcases perfScore_of_factsOfFields? hfacts with hone | ⟨rating, hmem, hrating⟩
  · rw [hone]
    decide +kernel
  · have hsheet := mem_parts_of_fields? hfields hmem
    have hpart : rating ∈ record.parts := by
      cases hrecord with
      | object => exact hsheet
      | array => exact List.mem_cons_of_mem _ hsheet
    obtain ⟨text, hvalue⟩ := htext.exists_isValue hpart
    exact isFinite_of_isValue hvalue hrating

/-! ### Written records -/

/-- The part with another rating, if it has one of its own. -/
def rated (rating : Float) : Part → Part
  | .cpu facts => .cpu { facts with perfScore := rating }
  | .ram facts => .ram { facts with perfScore := rating }
  | .gpu facts => .gpu { facts with perfScore := rating }
  | .storage facts => .storage { facts with perfScore := rating }
  | part => part

/-- Another rating leaves the category as it is. -/
theorem category_rated (rating : Float) (part : Part) :
    (part.rated rating).category = part.category := by
  cases part <;> rfl

/-- The values of the fields of a part, with this one for its rating. -/
def valuesRated (rating : Json) : Part → List Json
  | .cpu facts => [.text facts.socket, .ofUInt32 facts.tdpWatts, rating]
  | .ram facts => [.text facts.ramType, .ofUInt32 facts.freqMhz, rating]
  | .gpu facts =>
      [.ofUInt32 facts.lengthMm, .ofUInt32 facts.slots, .ofUInt32 facts.tdpWatts, rating]
  | .storage facts => [.text facts.kind.word, rating]
  | part => part.fieldValues

/-- The record of a part with this value for its rating. -/
def toJsonRated (rating : Json) (part : Part) : Json :=
  .record (("category" :: part.category.fieldNames).zip
    (part.category.toJson :: part.valuesRated rating))

/-- What is written for a part is read back with some value for its rating. -/
theorem rereads_toJson {part : Part} {rating : Json} (h : Rereads (.double part.perfScore) rating) :
    Rereads part.toJson (part.toJsonRated rating) := by
  have htext (s : String) : Rereads (.text s) (.text s) := .text s
  have hint (n : UInt32) : Rereads (.ofUInt32 n) (.ofUInt32 n) := .ofUInt32 n
  have hvalues : RereadItems part.fieldValues (part.valuesRated rating) := by
    cases part with
    | cpu facts => exact .cons (htext _) (.cons (hint _) (.cons h .nil))
    | motherboard facts =>
        exact .cons (htext _) (.cons (htext _) (.cons (hint _) (.cons (hint _) (.cons (hint _)
          (.cons (htext _) .nil)))))
    | ram facts => exact .cons (htext _) (.cons (hint _) (.cons h .nil))
    | gpu facts => exact .cons (hint _) (.cons (hint _) (.cons (hint _) (.cons h .nil)))
    | psu facts => exact .cons (hint _) (.cons (htext _) .nil)
    | chassis facts => exact .cons (hint _) (.cons (hint _) (.cons (htext _) .nil))
    | cooler facts => exact .cons (hint _) (.cons (.texts _) .nil)
    | storage facts => exact .cons (htext _) (.cons h .nil)
  exact (RereadItems.cons (htext _) hvalues).record ("category" :: part.category.fieldNames)

/-- The written record of a part is a record of its category. -/
theorem isRecord_toJsonRated (rating : Json) (part : Part) :
    IsRecord (part.toJsonRated rating) part.category.toJson (part.toJsonRated rating) := by
  refine .object (field?_eq_some_some_iff.mp ?_)
  cases part <;> rfl

/-- The fields of a written part hold its values. -/
theorem fields?_toJsonRated (rating : Json) (part : Part) :
    (part.toJsonRated rating).fields? (Layout.plain part.category.fieldNames) =
      some ((part.valuesRated rating).map some) := by
  cases part <;> rfl

/-- The key of a category gives the category back. -/
theorem categoryOfKey?_toJson (category : Category) :
    categoryOfKey? category.toJson = some category := by
  show Category.ofKey? category.key = some category
  exact Category.ofKey?_key category

/-- The fact sheet of a tidy part is found in its fields. -/
theorem factsOfFields?_valuesRated {part : Part} (h : part.IsTidy) {rating : Json} {y : Float}
    (hrating : rating.float? = some y) :
    ∃ facts, part.category.factsOfFields? ((part.valuesRated rating).map some) = some facts ∧
      part.rated y = ofFacts part.category facts := by
  cases part with
  | cooler facts =>
      refine ⟨facts, ?_, rfl⟩
      have hsockets : socketsOf (.array (facts.supportedSockets.map Json.text)) =
          facts.supportedSockets := by
        rw [show socketsOf _ = _ from getD_socketsOf (some _), socketEntries_texts]
        exact h
      simp [valuesRated, fieldValues, Part.category, Category.factsOfFields?, hsockets]
  | cpu facts | ram facts | gpu facts | storage facts =>
      refine ⟨{ facts with perfScore := y }, ?_, rfl⟩
      simp [valuesRated, Part.category, Category.factsOfFields?, hrating, DriveKind.ofWord_word]
  | motherboard facts | psu facts | chassis facts =>
      refine ⟨facts, ?_, rfl⟩
      simp [valuesRated, fieldValues, Part.category, Category.factsOfFields?]

/-- What is written for a part is kept. -/
theorem isKept_toJsonRated {rating : Json} {y : Float} (hrating : rating.float? = some y)
    (part : Part) : (part.toJsonRated rating).isKept 0 = true := by
  have hsound : rating.isSound = true ∧ rating.depth = 0 := by
    unfold float? at hrating
    split at hrating
    · exact ⟨by simp [isSound], by simp [depth]⟩
    · exact ⟨by simp [isSound], by simp [depth]⟩
    · cases hrating
  have htexts (words : List String) : areSoundItems (words.map Json.text) = true ∧
      depthOfItems (words.map Json.text) = 0 := by
    induction words with
    | nil => exact ⟨rfl, rfl⟩
    | cons word words ih =>
        simp [areSoundItems, depthOfItems, text, isSound, depth, ih]
  cases part <;>
    simp [toJsonRated, valuesRated, fieldValues, Part.category, Category.fieldNames, record,
      Category.toJson, isKept, isSound, areSoundMembers, depth, depthOfMembers, text, ofUInt32, int,
      maxDepth, hsound, htexts]

/-- **A tidy part is read back** from the record that has a number for its rating. -/
theorem ofJson?_toJsonRated {part : Part} (h : part.IsTidy) {rating : Json} {y : Float}
    (hrating : rating.float? = some y) :
    ofJson? (part.toJsonRated rating) = some (part.rated y) := by
  obtain ⟨facts, hfacts, hpart⟩ := factsOfFields?_valuesRated h hrating
  rw [ofJson?_eq_some_iff, ofRecord?_eq_some_iff]
  refine ⟨isKept_toJsonRated hrating part, _, _, part.category, facts,
    isRecord_toJsonRated rating part, categoryOfKey?_toJson part.category, ?_, hpart⟩
  rw [Category.factsOfJson?, fields?_toJsonRated]
  exact hfacts

/-- **Parts are stable under writing.**  What is written for a part that was read
    is read back, as a part of the same category whose facts are the same but for
    the rating, which is some finite double; of doubles nothing is assumed but
    that the text of the rating, if it is finite, is read back as a finite one.
    The sockets of a cooler, however they were given, are trimmed and not empty,
    and an array of them gives them again; and a kind of drive, by whatever word
    it was given, is the kind that its own word gives. -/
theorem stable_under_writing :
    (∀ text part, (Json.ofText? text).bind ofJson? = some part →
      (isFinite part.perfScore = true → ∃ y, isFinite y = true ∧
        (Json.ofText? (Json.double part.perfScore).compact).bind float? = some y) →
      ∃ again y, (Json.ofText? part.toJson.compact).bind ofJson? = some again ∧
        again.category = part.category ∧ again = part.rated y ∧ isFinite y = true) ∧
    (∀ value, socketsOf (.array ((socketsOf value).map Json.text)) = socketsOf value ∧
      ∀ socket ∈ socketsOf value, trimmed socket = socket ∧ socket ≠ "") ∧
    (∀ word, DriveKind.ofWord (DriveKind.ofWord word).word = DriveKind.ofWord word) := by
  refine ⟨?_, ?_, fun word => DriveKind.ofWord_word _⟩
  · intro text part hread hrating
    obtain ⟨record, hrecord, hpart⟩ := Option.bind_eq_some_iff.mp hread
    obtain ⟨-, hpart⟩ := ofJson?_eq_some_iff.mp hpart
    obtain ⟨y, hy, hfloat⟩ := hrating (isFinite_perfScore (read?_eq_some_iff.mp hrecord) hpart)
    obtain ⟨rating, htext, hfloat⟩ := Option.bind_eq_some_iff.mp hfloat
    refine ⟨part.rated y, y, ?_, category_rated y part, rfl, hy⟩
    rw [(rereads_toJson (rereads_double htext)).ofText?_compact]
    exact ofJson?_toJsonRated (isTidy_of_ofRecord? hpart) hfloat
  · intro value
    have hsockets : socketsOf value = socketWords (socketEntries (some value)) :=
      getD_socketsOf (some value)
    have harray := getD_socketsOf (some (.array ((socketsOf value).map Json.text)))
    rw [socketEntries_texts] at harray
    refine ⟨?_, fun socket hsocket => ?_⟩
    · refine harray.trans ?_
      rw [hsockets, socketWords_socketWords]
    · rw [hsockets] at hsocket
      obtain ⟨entry, -, hentry, rfl⟩ := mem_socketWords_iff.mp hsocket
      exact ⟨trimmed_trimmed entry, mt trimmed_eq_empty_iff.mp hentry⟩

/-- A fast drive by one of its other spellings, with a whole number for its
    rating. -/
def sampleDrive : Json :=
  .record [("category", .text "storage"), ("kind", .text "nvme"), ("perf_score", .int 320)]

/-- The sample is read as a part that is written with the word of its kind and
    with a fraction, and read back. -/
theorem stable_under_writing_drive :
    (Json.ofText? sampleDrive.compact).bind ofJson? =
        some (.storage ⟨.nvme, Float.ofInt 320⟩) ∧
      ∃ again y, (Json.ofText? (toJson (.storage ⟨.nvme, Float.ofInt 320⟩)).compact).bind ofJson? =
          some again ∧
        again.category = .storage ∧ again = .storage ⟨.nvme, y⟩ ∧ isFinite y = true := by
  have hreread : Rereads sampleDrive sampleDrive :=
    (RereadItems.cons (.text "storage") (.cons (.text "nvme")
      (.cons (.int (by decide) (by decide)) .nil))).record ["category", "kind", "perf_score"]
  have hread : (Json.ofText? sampleDrive.compact).bind ofJson? =
      some (.storage ⟨.nvme, Float.ofInt 320⟩) := by
    rw [hreread.ofText?_compact]
    rfl
  have hrating : ∃ y, isFinite y = true ∧
      (Json.ofText? (Json.double (Float.ofInt 320)).compact).bind float? = some y := by
    have hfinite : ((read? ((Json.double (Float.ofInt 320)).write .tight 0)).bind float?).map
        isFinite = some true := by
      decide +kernel
    obtain ⟨y, hy, hisFinite⟩ := Option.map_eq_some_iff.mp hfinite
    refine ⟨y, hisFinite, ?_⟩
    rw [compact, Json.ofText?, String.toList_ofList]
    exact hy
  exact ⟨hread, stable_under_writing.1 _ _ hread fun _ => hrating⟩

end Part

end PcAssembly
