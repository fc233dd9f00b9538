import Mathlib.Data.Finset.Card
import PcAssembly.Part.Store
import PcAssembly.Proofs.Json.Writing
import PcAssembly.Proofs.List.FailingMap

/-! # What a parts file puts into a store

    A parts file is read entry by entry, and every entry goes to the place that
    its own part names.  The store is therefore known from the entries alone: at
    a place there is the part of the last entry for it, and places of different
    categories have nothing to do with each other.  A file with one entry that
    cannot be read, or with anything else in it than an array, gives no store at
    all (`ofText?_last_entry_wins`). -/

namespace PcAssembly.PartStore

/-- The place that an entry goes to. -/
def Entry.place (entry : Entry) : Category × Int64 := (entry.part.category, entry.id)

theorem Entry.place_eq_iff {entry : Entry} {category : Category} {id : Int64} :
    entry.place = (category, id) ↔ entry.part.category = category ∧ entry.id = id :=
  Prod.mk.injEq .. ▸ Iff.rfl

/-- An entry that no later one replaces. -/
def IsLast (entries : List Entry) (entry : Entry) : Prop :=
  ∃ before after, entries = before ++ entry :: after ∧
    ∀ later ∈ after, later.place ≠ entry.place

theorem ofEntries_append (entries : List Entry) (entry : Entry) :
    ofEntries (entries ++ [entry]) = (ofEntries entries).insert entry.id entry.part := by
  rw [ofEntries, List.foldl_append]
  rfl

/-- Of the entries for one place the last one counts. -/
theorem get?_ofEntries (entries : List Entry) (category : Category) (id : Int64) :
    (ofEntries entries).get? category id =
      (entries.reverse.find? fun entry => entry.part.category = category ∧ entry.id = id).map
        Entry.part := by
  induction entries using List.reverseRecOn with
  | nil => exact Std.HashMap.getElem?_empty
  | append_singleton entries entry ih =>
      rw [ofEntries_append, get?_insert, ih, List.reverse_append, List.reverse_singleton,
        List.singleton_append, List.find?_cons]
      split
      · rename_i hplace
        rw [decide_eq_true hplace]
        rfl
      · rename_i hplace
        rw [decide_eq_false hplace]

/-- **The part at a place** is that of the last entry for it. -/
theorem get?_ofEntries_eq_some_iff {entries : List Entry} {category : Category} {id : Int64}
    {part : Part} :
    (ofEntries entries).get? category id = some part ↔
      ∃ entry, IsLast entries entry ∧ entry.place = (category, id) ∧ entry.part = part := by
  simp only [get?_ofEntries, ← Entry.place_eq_iff, Option.map_eq_some_iff]
  refine exists_congr fun entry => ?_
  rw [← and_assoc, and_congr_left_iff, List.find?_eq_some_iff_append, decide_eq_true_iff, and_comm]
  intro _
  refine and_congr_left fun hplace => ?_
  rw [IsLast, hplace]
  -- what comes behind the last entry is in front of it in the reversed list
  constructor
  · rintro ⟨after, before, hreverse, hafter⟩
    refine ⟨before.reverse, after.reverse, ?_, fun later hlater => ?_⟩
    · rw [← List.reverse_reverse entries, hreverse]
      simp
    · simpa using hafter later (List.mem_reverse.mp hlater)
  · rintro ⟨before, after, rfl, hafter⟩
    refine ⟨after.reverse, before.reverse, by simp, fun later hlater => ?_⟩
    simpa using hafter later (List.mem_reverse.mp hlater)

/-- A place stays empty if no entry is for it. -/
theorem get?_ofEntries_eq_none_iff {entries : List Entry} {category : Category} {id : Int64} :
    (ofEntries entries).get? category id = none ↔
      ∀ entry ∈ entries, entry.place ≠ (category, id) := by
  rw [get?_ofEntries, Option.map_eq_none_iff, List.find?_eq_none]
  simp only [List.mem_reverse, decide_eq_true_eq, ne_eq, Entry.place_eq_iff]

/-- What is found at a place of a category is of that category. -/
theorem category_of_get?_ofEntries {entries : List Entry} {category : Category} {id : Int64}
    {part : Part} (h : (ofEntries entries).get? category id = some part) :
    part.category = category := by
  obtain ⟨entry, -, hplace, rfl⟩ := get?_ofEntries_eq_some_iff.mp h
  exact (Entry.place_eq_iff.mp hplace).1

/-- **Categories are kept apart**: what is found in one depends on its own
    entries alone. -/
theorem get?_ofEntries_congr {entries others : List Entry} {category : Category}
    (h : (entries.filter fun entry => entry.part.category = category) =
      others.filter fun entry => entry.part.category = category) (id : Int64) :
    (ofEntries entries).get? category id = (ofEntries others).get? category id := by
  have hfiltered (list : List Entry) :
      (list.reverse.find? fun entry => entry.part.category = category ∧ entry.id = id) =
        ((list.filter fun entry => entry.part.category = category).reverse.find? fun entry =>
          entry.id = id) := by
    rw [← List.filter_reverse, List.find?_filter]
    simp
  rw [get?_ofEntries, get?_ofEntries, hfiltered, hfiltered, h]

/-- **A store has as many parts as there are places** that the entries name. -/
theorem size_ofEntries (entries : List Entry) :
    (ofEntries entries).size = (entries.map Entry.place).toFinset.card := by
  induction entries using List.reverseRecOn with
  | nil => exact Std.HashMap.size_empty
  | append_singleton entries entry ih =>
      have hmem : entry.place ∈ (ofEntries entries).parts ↔
          entry.place ∈ (entries.map Entry.place).toFinset := by
        have hempty : (ofEntries entries).get? entry.part.category entry.id = none ↔
            ∀ other ∈ entries, other.place ≠ entry.place := get?_ofEntries_eq_none_iff
        rw [Std.HashMap.mem_iff_isSome_getElem?, Option.isSome_iff_ne_none, List.mem_toFinset,
          List.mem_map, ne_eq]
        change ¬ (ofEntries entries).get? entry.part.category entry.id = none ↔ _
        rw [hempty]
        push Not
        rfl
      rw [ofEntries_append, List.map_append, List.toFinset_append, List.map_singleton,
        List.toFinset_cons, List.toFinset_nil, insert_empty_eq, Finset.union_comm,
        ← Finset.insert_eq, Finset.card_insert_eq_ite, ← ih]
      change Std.HashMap.size ((ofEntries entries).parts.insert entry.place entry.part) = _
      rw [Std.HashMap.size_insert]
      exact if_congr hmem rfl rfl

/-- The order of the entries does not matter if no two are for one place. -/
theorem get?_ofEntries_of_perm {entries others : List Entry} (hperm : entries.Perm others)
    (hplaces : (entries.map Entry.place).Nodup) :
    (ofEntries others).get? = (ofEntries entries).get? := by
  have hlast {list : List Entry} (hnodup : (list.map Entry.place).Nodup) (entry : Entry) :
      IsLast list entry ↔ entry ∈ list := by
    constructor
    · rintro ⟨before, after, rfl, -⟩
      simp
    · intro hmem
      obtain ⟨before, after, rfl⟩ := List.append_of_mem hmem
      refine ⟨before, after, rfl, fun later hlater hsame => ?_⟩
      rw [List.map_append, List.map_cons, List.nodup_append] at hnodup
      refine (List.nodup_cons.mp hnodup.2.1).1 ?_
      rw [← hsame]
      exact List.mem_map_of_mem hlater
  have hothers : (others.map Entry.place).Nodup := (hperm.map Entry.place).nodup_iff.mp hplaces
  funext category id
  refine Option.ext fun part => ?_
  simp only [get?_ofEntries_eq_some_iff, hlast hplaces, hlast hothers, hperm.mem_iff]

/-! ## Parts files -/

/-- A file is read if it is an array all of whose items are entries. -/
theorem ofText?_eq_some_iff {text : String} {store : PartStore} :
    ofText? text = some store ↔
      ∃ items entries, Json.IsText text.toList (.array items) ∧
        items.map Entry.ofJson? = entries.map some ∧ store = ofEntries entries := by
  rw [ofText?, Option.map_eq_some_iff]
  constructor
  · rintro ⟨entries, hentries, rfl⟩
    obtain ⟨value, hvalue, hlist⟩ := Option.bind_eq_some_iff.mp hentries
    cases value with
    | array items =>
        exact ⟨items, entries, Json.read?_eq_some_iff.mp hvalue, mapM_eq_some_iff.mp hlist, rfl⟩
    | _ => cases hlist
  · rintro ⟨items, entries, htext, hitems, rfl⟩
    exact ⟨entries, Option.bind_eq_some_iff.mpr
      ⟨.array items, Json.read?_eq_some_iff.mpr htext, mapM_eq_some_iff.mpr hitems⟩, rfl⟩

theorem ofText?_of_entries {text : String} {items : List Json} {entries : List Entry}
    (htext : Json.IsText text.toList (.array items))
    (hitems : items.map Entry.ofJson? = entries.map some) :
    ofText? text = some (ofEntries entries) :=
  ofText?_eq_some_iff.mpr ⟨items, entries, htext, hitems, rfl⟩

/-- All or nothing: one item that is no entry makes the file unreadable. -/
theorem ofText?_eq_none_iff {text : String} :
    ofText? text = none ↔
      ∀ items, Json.IsText text.toList (.array items) →
        ∃ item ∈ items, Entry.ofJson? item = none := by
  constructor
  · intro hnone items htext
    by_contra hall
    push Not at hall
    obtain ⟨entries, hentries⟩ := exists_map_eq_map_some hall
    rw [ofText?_of_entries htext hentries] at hnone
    cases hnone
  · intro hitems
    rw [Option.eq_none_iff_forall_ne_some]
    intro store hstore
    obtain ⟨items, entries, htext, hentries, -⟩ := ofText?_eq_some_iff.mp hstore
    obtain ⟨item, hmem, hitem⟩ := hitems items htext
    have hsome := List.mem_map_of_mem (f := Entry.ofJson?) hmem
    rw [hentries, hitem] at hsome
    simp at hsome

/-- The entries of a file whose items are put in another order are put in
    another order. -/
theorem exists_entries_of_perm {items others : List Json} {entries : List Entry}
    (hperm : items.Perm others) (hitems : items.map Entry.ofJson? = entries.map some) :
    ∃ entries', others.map Entry.ofJson? = entries'.map some ∧ entries.Perm entries' := by
  have hall : ∀ other ∈ others, Entry.ofJson? other ≠ none := by
    intro other hother hnone
    have hsome := List.mem_map_of_mem (f := Entry.ofJson?) (hperm.mem_iff.mpr hother)
    rw [hitems, hnone] at hsome
    simp at hsome
  obtain ⟨entries', hothers⟩ := exists_map_eq_map_some hall
  refine ⟨entries', hothers, ?_⟩
  have hmapped := hperm.map Entry.ofJson?
  rw [hitems, hothers] at hmapped
  simpa using hmapped.filterMap id

/-- **The last entry for a place wins.**  A file that is an array of entries
    gives a store.  At a place the store has the part of the last entry for it,
    of the category that the place names, and nothing if no entry is for it;
    there are as many parts as places; and what is found in a category is the
    same for every file with the same entries of this category.  If no two
    entries are for one place, their order does not matter.  Any other text, and
    an array with one item that is no entry, gives no store. -/
theorem ofText?_last_entry_wins (text : String) :
    (∀ items (entries : List Entry), Json.IsText text.toList (.array items) →
      items.map Entry.ofJson? = entries.map some →
      ∃ store, ofText? text = some store ∧
        (∀ category id part, store.get? category id = some part ↔
          ∃ entry, IsLast entries entry ∧ entry.place = (category, id) ∧ entry.part = part) ∧
        (∀ category id, store.get? category id = none ↔
          ∀ entry ∈ entries, entry.place ≠ (category, id)) ∧
        (∀ category id part, store.get? category id = some part → part.category = category) ∧
        store.size = (entries.map Entry.place).toFinset.card ∧
        (∀ (other : String) items' (entries' : List Entry) category,
          Json.IsText other.toList (.array items') →
          items'.map Entry.ofJson? = entries'.map some →
          ((entries.filter fun entry => entry.part.category = category) =
            entries'.filter fun entry => entry.part.category = category) →
          ∃ store', ofText? other = some store' ∧ store'.get? category = store.get? category) ∧
        (∀ (other : String) items', Json.IsText other.toList (.array items') →
          items.Perm items' → (entries.map Entry.place).Nodup →
          ∃ store', ofText? other = some store' ∧ store'.get? = store.get?)) ∧
    (ofText? text = none ↔
      ∀ items, Json.IsText text.toList (.array items) →
        ∃ item ∈ items, Entry.ofJson? item = none) := by
  refine ⟨fun items entries htext hitems => ?_, ofText?_eq_none_iff⟩
  refine ⟨ofEntries entries, ofText?_of_entries htext hitems,
    fun _ _ _ => get?_ofEntries_eq_some_iff, fun _ _ => get?_ofEntries_eq_none_iff,
    fun _ _ _ => category_of_get?_ofEntries, size_ofEntries entries, ?_, ?_⟩
  · intro other items' entries' category hother hitems' hsame
    exact ⟨ofEntries entries', ofText?_of_entries hother hitems',
      funext fun id => get?_ofEntries_congr hsame.symm id⟩
  · intro other items' hother hperm hplaces
    obtain ⟨entries', hitems', hperm'⟩ := exists_entries_of_perm hperm hitems
    exact ⟨ofEntries entries', ofText?_of_entries hother hitems',
      get?_ofEntries_of_perm hperm' hplaces⟩

/-- A supply, a cooler and a stronger supply, all with the id one.  The category
    of the last one is given by its position. -/
def sampleItems : List Json :=
  [.record [("id", .int 1), ("category", .text "psu"), ("wattage", .int 450),
     ("form_factor", .text "ATX")],
   .record [("id", .int 1), ("category", .text "cooler"), ("height_mm", .int 60)],
   .record [("id", .int 1), ("category", .int 4), ("wattage", .int 750),
     ("form_factor", .text "SFX")]]

/-- What they are. -/
def sampleEntries : List Entry :=
  [⟨1, .psu ⟨450, "ATX"⟩⟩, ⟨1, .cooler ⟨60, []⟩⟩, ⟨1, .psu ⟨750, "SFX"⟩⟩]

theorem map_ofJson?_sampleItems : sampleItems.map Entry.ofJson? = sampleEntries.map some := rfl

/-- Some of them and nulls, in any order, are the items of the file that they are
    written to. -/
theorem isText_of_subset {items : List Json} (h : items ⊆ .null :: sampleItems) :
    Json.IsText (Json.compact (.array items)).toList (.array items) := by
  have hint (n : UInt32) : Json.Rereads (.ofUInt32 n) (.ofUInt32 n) := .ofUInt32 n
  have hsample : ∀ item ∈ Json.null :: sampleItems, Json.Rereads item item := by
    simp only [sampleItems, List.forall_mem_cons]
    refine ⟨.null, ?_, ?_, ?_, nofun⟩
    · exact Json.RereadItems.record (.cons (hint 1) (.cons (.text _) (.cons (hint 450)
        (.cons (.text _) .nil)))) ["id", "category", "wattage", "form_factor"]
    · exact Json.RereadItems.record (.cons (hint 1) (.cons (.text _) (.cons (hint 60) .nil)))
        ["id", "category", "height_mm"]
    · exact Json.RereadItems.record (.cons (hint 1) (.cons (hint 4) (.cons (hint 750)
        (.cons (.text _) .nil)))) ["id", "category", "wattage", "form_factor"]
  exact (Json.Rereads.array (.of_forall fun item hitem => hsample item (h hitem))).isText_compact

/-- Of the two supplies the later one is found, and the cooler with the same id
    is another part.  A file without the weak supply has the same cooler, and in
    whatever order it has its two parts.  With a null among them no store is
    made. -/
theorem ofText?_last_entry_wins_repeated :
    (∃ store, ofText? (Json.compact (.array sampleItems)) = some store ∧
      store.get? .psu 1 = some (.psu ⟨750, "SFX"⟩) ∧
      store.get? .cooler 1 = some (.cooler ⟨60, []⟩) ∧ store.get? .cpu 1 = none ∧
      store.size = 2 ∧
      ∃ store', ofText? (Json.compact (.array sampleItems.tail)) = some store' ∧
        store'.get? .cooler = store.get? .cooler) ∧
    (∃ store store', ofText? (Json.compact (.array sampleItems.tail)) = some store ∧
      ofText? (Json.compact (.array sampleItems.tail.reverse)) = some store' ∧
      store'.get? = store.get?) ∧
    ofText? (Json.compact (.array (.null :: sampleItems))) = none := by
  have htail : sampleItems.tail ⊆ .null :: sampleItems :=
    fun _ hitem => List.mem_cons_of_mem _ (List.mem_of_mem_tail hitem)
  have htailItems : sampleItems.tail.map Entry.ofJson? = sampleEntries.tail.map some := rfl
  refine ⟨?_, ?_, ?_⟩
  · obtain ⟨store, hstore, hpart, hnone, -, hsize, hsame, -⟩ := (ofText?_last_entry_wins _).1 _ _
      (isText_of_subset (List.subset_cons_self _ _)) map_ofJson?_sampleItems
    refine ⟨store, hstore, ?_, ?_, (hnone _ _).mpr (by decide), hsize.trans (by decide),
      hsame _ _ _ _ (isText_of_subset htail) htailItems rfl⟩
    · exact (hpart _ _ _).mpr ⟨_, ⟨[_, _], [], rfl, nofun⟩, rfl, rfl⟩
    · exact (hpart _ _ _).mpr ⟨⟨1, .cooler ⟨60, []⟩⟩, ⟨[_], [_], rfl, by decide⟩, rfl, rfl⟩
  · obtain ⟨store, hstore, -, -, -, -, -, hperm⟩ := (ofText?_last_entry_wins _).1 _ _
      (isText_of_subset htail) htailItems
    have hreverse := List.reverse_perm sampleItems.tail
    obtain ⟨store', hstore', hget⟩ := hperm _ _
      (isText_of_subset (List.Subset.trans hreverse.subset htail)) hreverse.symm (by decide)
    exact ⟨store, store', hstore, hstore', hget⟩
  · refine (ofText?_last_entry_wins _).2.mpr fun items hitems => ?_
    cases (isText_of_subset (List.Subset.refl _)).value_unique hitems
    exact ⟨.null, List.mem_cons_self, rfl⟩

end PcAssembly.PartStore
