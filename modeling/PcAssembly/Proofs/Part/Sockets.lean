import PcAssembly.Proofs.Compatibility
import PcAssembly.Proofs.Part.Record
import PcAssembly.Proofs.Text.Blank

/-! # The sockets of a cooler

    A record gives the sockets of its cooler as the texts of an array or as one
    text with commas between them.  Either way it gives a list of entries
    (`socketEntries`), and the cooler has those that are not blank, trimmed and
    in their order.  The two spellings of one list give the same entries, so
    they are the same cooler; a field that gives no entry, or is not there,
    makes a cooler for every socket. -/

namespace PcAssembly

open Json Text

/-! ### Entries -/

/-- The texts that a socket field gives, as they stand there. -/
def socketEntries : Option Json → List String
  | some (.array items) => items.filterMap string?
  | some (.string (some words)) => splitString ',' words
  | _ => []

/-- The sockets of a field are its words; a missing field has none. -/
theorem getD_socketsOf (field : Option Json) :
    (field.map socketsOf).getD [] = socketWords (socketEntries field) := by
  unfold socketEntries
  split
  · rfl
  · rfl
  · rename_i harray htext
    cases field with
    | none => rfl
    | some value =>
        show socketsOf value = []
        unfold socketsOf
        split
        · exact absurd rfl (harray _)
        · exact absurd rfl (htext _)
        · rfl

/-- The words of a list are its entries that are not blank, trimmed. -/
theorem socketWords_eq (entries : List String) :
    socketWords entries = (entries.filter fun entry => ¬ OnlyBlanks entry).map trimmed := by
  rw [socketWords, List.filter_map]
  refine congrArg (List.map trimmed) (List.filter_congr fun entry _ => ?_)
  rw [Function.comp_apply, Bool.eq_iff_iff, Bool.not_eq_true', decide_eq_true_iff,
    ← trimmed_eq_empty_iff, ← String.isEmpty_iff, Bool.not_eq_true]

/-- The words are the entries that are not blank, trimmed. -/
theorem mem_socketWords_iff {entries : List String} {word : String} :
    word ∈ socketWords entries ↔
      ∃ entry ∈ entries, ¬ OnlyBlanks entry ∧ trimmed entry = word := by
  simp [socketWords_eq, and_assoc]

/-- The words of a list leave a socket out that none of its entries is. -/
theorem not_mem_socketWords_iff {entries : List String} {socket : String} :
    socketWords entries ≠ [] ∧ socket ∉ socketWords entries ↔
      (∃ entry ∈ entries, ¬ OnlyBlanks entry) ∧
        ∀ entry ∈ entries, ¬ OnlyBlanks entry → trimmed entry ≠ socket := by
  refine and_congr ?_ ?_
  · rw [socketWords_eq, ne_eq, List.map_eq_nil_iff, List.filter_eq_nil_iff]
    push Not
    simp only [decide_eq_true_eq]
  · simp only [mem_socketWords_iff, not_exists, not_and, ne_eq]

/-- What is neither an array nor a text gives no entries. -/
theorem socketEntries_eq_nil {field : Option Json} (harray : ∀ items, field ≠ some (.array items))
    (htext : ∀ words, field ≠ some (.text words)) : socketEntries field = [] := by
  unfold socketEntries
  split
  · exact absurd rfl (harray _)
  · exact absurd rfl (htext _)
  · rfl

/-- The entries of an array of texts are these texts. -/
theorem socketEntries_texts (words : List String) :
    socketEntries (some (.array (words.map Json.text))) = words := by
  rw [socketEntries, List.filterMap_map]
  exact List.filterMap_some

/-- Texts between commas are what an array of them gives. -/
theorem socketWords_intercalate {words : List String} (h : ∀ word ∈ words, ',' ∉ word.toList) :
    socketWords (socketEntries (some (.text (",".intercalate words)))) =
      socketWords (socketEntries (some (.array (words.map Json.text)))) := by
  rw [socketEntries_texts, text, socketEntries]
  by_cases hwords : words = []
  · -- the text without pieces is an empty piece
    rw [hwords]
    rfl
  · rw [splitString_intercalate h hwords]

/-- The item of an array names a socket. -/
def namesSocket : Json → Bool
  | .string (some word) => !decide (OnlyBlanks word)
  | _ => false

/-- The words of an array are those of its items that name a socket. -/
theorem socketWords_array (items : List Json) :
    socketWords (socketEntries (some (.array items))) =
      ((items.filter namesSocket).filterMap string?).map trimmed := by
  rw [socketWords_eq, socketEntries, List.filter_filterMap, List.filterMap_filter]
  refine congrArg (List.map trimmed) (List.filterMap_congr fun item _ => ?_)
  match item with
  | .string (some word) =>
      by_cases hword : OnlyBlanks word <;> simp [string?, namesSocket, hword]
  | .string none => rfl
  | .null | .bool _ | .number _ | .array _ | .object _ => rfl

/-- The second list is the first one with items put anywhere between its own that
    are no texts or blank ones. -/
inductive IsPadded : List Json → List Json → Prop
  | nil : IsPadded [] []
  | keep {items padded : List Json} (item : Json) (h : IsPadded items padded) :
      IsPadded (item :: items) (item :: padded)
  | insert {items padded : List Json} {item : Json} (h : IsPadded items padded)
      (hitem : ∀ word, item = .text word → OnlyBlanks word) : IsPadded items (item :: padded)

/-- What is put between the items names no socket. -/
theorem IsPadded.socketWords_eq {items padded : List Json} (h : IsPadded items padded) :
    socketWords (socketEntries (some (.array padded))) =
      socketWords (socketEntries (some (.array items))) := by
  have hnamed : padded.filter namesSocket = items.filter namesSocket := by
    induction h with
    | nil => rfl
    | keep item _ ih => rw [List.filter_cons, List.filter_cons, ih]
    | @insert _ _ item _ hitem ih =>
        have hsilent : namesSocket item = false := by
          unfold namesSocket
          split
          · rename_i word
            simpa using hitem word rfl
          · rfl
        rw [List.filter_cons, hsilent, ih]
        rfl
  rw [socketWords_array, socketWords_array, hnamed]

/-! ### Records -/

/-- The records of a cooler: its height, and what the socket field holds if it is
    there.  An object may have other members, under any other names; an array
    has no room for more. -/
inductive IsCoolerRecord (readCategory : Json → Option Category) :
    Json → UInt32 → Option Json → Prop
  | object {members : List (Quoted × Json)} {category : Json} {height : UInt32}
      {field : Option Json} (hnames : ∀ member ∈ members, member.1 ≠ none)
      (hcategory : HoldsOnce ["category"] members category)
      (hcooler : readCategory category = some .cooler)
      (hheight : HoldsOnce ["height_mm"] members (.ofUInt32 height))
      (hfield : HoldsAtMostOnce ["supported_sockets"] members field) :
      IsCoolerRecord readCategory (.object members) height field
  | array {category : Json} {height : UInt32} (field : Option Json)
      (hcooler : readCategory category = some .cooler) :
      IsCoolerRecord readCategory (.array (category :: .ofUInt32 height :: field.toList))
        height field

/-- A cooler is read off the two fields of its layout. -/
theorem factsOfJson?_cooler_iff {value : Json} {cooler : Cooler} :
    Category.factsOfJson? .cooler value = some cooler ↔
      ∃ field, value.fields? [["height_mm"], ["supported_sockets"]] =
          some [some (.ofUInt32 cooler.heightMm), field] ∧
        cooler.supportedSockets = socketWords (socketEntries field) := by
  rw [Category.factsOfJson?, Option.bind_eq_bind, Option.bind_eq_some_iff]
  constructor
  · rintro ⟨fields, hfields, hfacts⟩
    match fields, hfacts with
    | [height, field], hfacts =>
        obtain ⟨heightMm, hheight, hcooler⟩ := Option.bind_eq_some_iff.mp hfacts
        cases hcooler
        obtain ⟨value, rfl, hvalue⟩ := required_eq_some_iff.mp hheight
        rw [uint32?_eq_some_iff.mp hvalue] at hfields
        exact ⟨field, hfields, getD_socketsOf field⟩
  · rintro ⟨field, hfields, hsockets⟩
    refine ⟨_, hfields, ?_⟩
    rw [Category.factsOfFields?, required_some, uint32?_ofUInt32, getD_socketsOf, ← hsockets]
    rfl

/-- **The records that are coolers.** -/
theorem ofRecord?_eq_cooler_iff {readCategory : Json → Option Category} {record : Json}
    {cooler : Cooler} :
    Part.ofRecord? readCategory record = some (.cooler cooler) ↔
      ∃ field, IsCoolerRecord readCategory record cooler.heightMm field ∧
        cooler.supportedSockets = socketWords (socketEntries field) := by
  rw [Part.ofRecord?_eq_some_iff]
  constructor
  · rintro ⟨value, sheet, category, facts, hrecord, hcategory, hfacts, hpart⟩
    -- no other sheet makes a cooler
    cases category with
    | cooler =>
        cases hpart
        obtain ⟨field, hfields, hsockets⟩ := factsOfJson?_cooler_iff.mp hfacts
        refine ⟨field, ?_, hsockets⟩
        cases hrecord with
        | object hfield =>
            obtain ⟨hnames, hheight, hsocketField⟩ := fields?_object_iff.mp hfields
            exact .object hnames hfield hcategory hheight hsocketField
        | array =>
            obtain rfl := fields?_array_iff.mp hfields
            exact .array field hcategory
    | _ => cases hpart
  · rintro ⟨field, hrecord, hsockets⟩
    cases hrecord with
    | object hnames hcategory hcooler hheight hfield =>
        exact ⟨_, _, .cooler, cooler, .object hcategory, hcooler, factsOfJson?_cooler_iff.mpr
          ⟨field, fields?_object_iff.mpr ⟨hnames, hheight, hfield⟩, hsockets⟩, rfl⟩
    | array field hcooler =>
        exact ⟨_, _, .cooler, cooler, .array _ _, hcooler, factsOfJson?_cooler_iff.mpr
          ⟨field, fields?_array_iff.mpr rfl, hsockets⟩, rfl⟩

/-- A record on its own that is a cooler of this height, with this in its socket
    field.  The whole record has to be kept, also where nobody looks. -/
structure IsCooler (record : Json) (height : UInt32) (field : Option Json) : Prop where
  kept : record.isKept 0 = true
  record : IsCoolerRecord Part.categoryOfKey? record height field

/-- A cooler is read from the records that say it. -/
theorem ofJson?_eq_cooler_iff {record : Json} {cooler : Cooler} :
    Part.ofJson? record = some (.cooler cooler) ↔
      ∃ field, IsCooler record cooler.heightMm field ∧
        cooler.supportedSockets = socketWords (socketEntries field) := by
  rw [Part.ofJson?_eq_some_iff, ofRecord?_eq_cooler_iff]
  constructor
  · rintro ⟨hkept, field, hrecord, hsockets⟩
    exact ⟨field, ⟨hkept, hrecord⟩, hsockets⟩
  · rintro ⟨field, ⟨hkept, hrecord⟩, hsockets⟩
    exact ⟨hkept, field, hrecord, hsockets⟩

/-- A record that says a cooler is read as it. -/
theorem IsCooler.ofJson?_eq {record : Json} {height : UInt32} {field : Option Json}
    (h : IsCooler record height field) :
    Part.ofJson? record = some (.cooler ⟨height, socketWords (socketEntries field)⟩) :=
  ofJson?_eq_cooler_iff.mpr ⟨field, h, rfl⟩

/-- The rule complains about a cooler for some sockets, none of them that of the
    processor. -/
theorem exists_issue_coolerSocket_iff {build : ResolvedBuild} {cooler : Cooler} {cpu : Cpu}
    (hcooler : build.cooler = some cooler) (hcpu : build.cpu = some cpu) :
    (∃ issue ∈ build.issues, Rule.coolerSocket.issue? build = some issue) ↔
      cooler.supportedSockets ≠ [] ∧ cpu.socket ∉ cooler.supportedSockets := by
  obtain ⟨words, hcomplaint⟩ : ∃ words, Rule.coolerSocket.complaint? build =
      Rule.complain (!cooler.supports cpu.socket) words := by
    dsimp only [Rule.coolerSocket]
    rw [hcooler, hcpu]
    exact ⟨_, rfl⟩
  rw [← Cooler.not_supports_iff]
  constructor
  · rintro ⟨issue, -, hissue⟩
    obtain ⟨message, hmessage, -⟩ := Rule.issue?_eq_some_iff.mp hissue
    rw [hcomplaint] at hmessage
    exact (Rule.complain_eq_some_iff.mp hmessage).1
  · intro hunsupported
    have hissue := Rule.issue?_eq_some_iff.mpr
      ⟨_, hcomplaint.trans (Rule.complain_eq_some_iff.mpr ⟨hunsupported, rfl⟩), rfl⟩
    exact ⟨_, ResolvedBuild.mem_issues_iff.mpr ⟨_, by simp [Rule.all], hissue⟩, hissue⟩

/-- A cooler in a parts file is said by its record. -/
theorem exists_isCoolerRecord_of_entry {record : Json} {id : Int64} {cooler : Cooler}
    (h : PartStore.Entry.ofJson? record = some ⟨id, .cooler cooler⟩) :
    ∃ field, IsCoolerRecord PartStore.categoryOfEntry? record cooler.heightMm field ∧
      cooler.supportedSockets = socketWords (socketEntries field) := by
  unfold PartStore.Entry.ofJson? at h
  split at h
  · rw [Option.ite_none_right_eq_some] at h
    obtain ⟨idField, -, hentry⟩ := Option.bind_eq_some_iff.mp h.2
    obtain ⟨idValue, -, hentry⟩ := Option.bind_eq_some_iff.mp hentry
    obtain ⟨part, hpart, hentry⟩ := Option.bind_eq_some_iff.mp hentry
    cases hentry
    exact ofRecord?_eq_cooler_iff.mp hpart
  · cases h

/-- **The two spellings of a socket list agree.**  The records that are coolers
    are known, and such a cooler, also in a parts file, has the entries of its
    socket field that are not blank, trimmed and in their order.  Hence an array
    of texts without commas and the text that joins them with commas are the
    same cooler, and items that are no texts or blank ones change nothing in an
    array.  The rule about the socket of a cooler complains exactly if there is
    an entry that is not blank and none of them is the socket of the processor,
    so a field that is neither an array nor a text, or not there, makes a cooler
    for every socket. -/
theorem Cooler.spellings_agree :
    (∀ record (cooler : Cooler), Part.ofJson? record = some (.cooler cooler) ↔
      ∃ field, IsCooler record cooler.heightMm field ∧ cooler.supportedSockets =
        ((socketEntries field).filter fun entry => ¬ OnlyBlanks entry).map trimmed) ∧
    (∀ record id (cooler : Cooler), PartStore.Entry.ofJson? record = some ⟨id, .cooler cooler⟩ →
      ∃ field, IsCoolerRecord PartStore.categoryOfEntry? record cooler.heightMm field ∧
        cooler.supportedSockets =
          ((socketEntries field).filter fun entry => ¬ OnlyBlanks entry).map trimmed) ∧
    (∀ record joined height words, (∀ word ∈ words, ',' ∉ word.toList) →
      IsCooler record height (some (.array (words.map Json.text))) →
      IsCooler joined height (some (.text (",".intercalate words))) →
      ∃ cooler, Part.ofJson? record = some (.cooler cooler) ∧
        Part.ofJson? joined = some (.cooler cooler)) ∧
    (∀ record padded height items items', IsPadded items items' →
      IsCooler record height (some (.array items)) →
      IsCooler padded height (some (.array items')) →
      ∃ cooler, Part.ofJson? record = some (.cooler cooler) ∧
        Part.ofJson? padded = some (.cooler cooler)) ∧
    (∀ record height field cooler build cpu, IsCooler record height field →
      Part.ofJson? record = some (.cooler cooler) →
      build.cooler = some cooler → build.cpu = some cpu →
      ((∃ issue ∈ build.issues, Rule.coolerSocket.issue? build = some issue) ↔
        (∃ entry ∈ socketEntries field, ¬ OnlyBlanks entry) ∧
          ∀ entry ∈ socketEntries field, ¬ OnlyBlanks entry → trimmed entry ≠ cpu.socket)) ∧
    (∀ record height field, IsCooler record height field →
      (∀ items, field ≠ some (.array items)) → (∀ words, field ≠ some (.text words)) →
      ∃ cooler, Part.ofJson? record = some (.cooler cooler) ∧
        ∀ socket, cooler.supports socket = true) := by
  refine ⟨?_, ?_, ?_, ?_, ?_, ?_⟩
  · intro record cooler
    simp only [← socketWords_eq]
    exact ofJson?_eq_cooler_iff
  · intro record id cooler hentry
    simp only [← socketWords_eq]
    exact exists_isCoolerRecord_of_entry hentry
  · intro record joined height words hwords hrecord hjoined
    refine ⟨_, hrecord.ofJson?_eq, ?_⟩
    rw [hjoined.ofJson?_eq, socketWords_intercalate hwords]
  · intro record padded height items items' hitems hrecord hpadded
    refine ⟨_, hrecord.ofJson?_eq, ?_⟩
    rw [hpadded.ofJson?_eq, hitems.socketWords_eq]
  · intro record height field cooler build cpu hrecord hcooler hbuild hcpu
    rw [hrecord.ofJson?_eq] at hcooler
    cases hcooler
    rw [exists_issue_coolerSocket_iff hbuild hcpu]
    exact not_mem_socketWords_iff
  · intro record height field hrecord harray htext
    refine ⟨_, hrecord.ofJson?_eq, fun socket => ?_⟩
    rw [socketEntries_eq_nil harray htext]
    rfl

/-- A record of a cooler with this in its socket field. -/
def sampleCooler (sockets : Json) : Json :=
  .record [("height_mm", .ofUInt32 150), ("category", .text "cooler"),
    ("supported_sockets", sockets)]

/-- The sample says a cooler. -/
theorem isCooler_sample {sockets : Json} (hkept : (sampleCooler sockets).isKept 0 = true) :
    IsCooler (sampleCooler sockets) 150 (some sockets) where
  kept := hkept
  record := by
    have hcategory : HoldsOnce ["category"] [(some "height_mm", .ofUInt32 150),
        (some "category", .text "cooler"), (some "supported_sockets", sockets)] (.text "cooler") :=
      ⟨[_], _, [_], rfl, List.mem_singleton_self _, by simp⟩
    exact .object (by simp) hcategory rfl ⟨[], _, [_, _], rfl, List.mem_singleton_self _, by simp⟩
      ⟨[_, _], _, [], rfl, List.mem_singleton_self _, by simp⟩

/-- The entries of the sample: two sockets, untidily written, and an empty text. -/
def sampleSockets : List String := ["AM5 ", "", "\u00a0LGA1700"]

/-- The untidy list, its text and the list with other items in it are one cooler,
    which does not fit another socket.  A truth value is no list, and an entry of
    a parts file without a list gives no sockets either. -/
theorem Cooler.spellings_agree_untidy :
    let array := sampleCooler (.array (sampleSockets.map Json.text))
    let padded := sampleCooler (.array (.null :: sampleSockets.map Json.text ++ [.text " \t"]))
    let entry : Json := .record [("id", .int 1), ("category", .int 6), ("height_mm", .int 60)]
    let cooler : Cooler := ⟨150, ["AM5", "LGA1700"]⟩
    let build : ResolvedBuild := { cooler := some cooler, cpu := some ⟨"AM4", 65, 1⟩ }
    (∃ field, IsCooler array 150 field ∧ cooler.supportedSockets =
      ((socketEntries field).filter fun entry => ¬ OnlyBlanks entry).map trimmed) ∧
    (∃ cooler, Part.ofJson? array = some (.cooler cooler) ∧
      Part.ofJson? (sampleCooler (.text (",".intercalate sampleSockets))) =
        some (.cooler cooler)) ∧
    (∃ cooler, Part.ofJson? array = some (.cooler cooler) ∧
      Part.ofJson? padded = some (.cooler cooler)) ∧
    (∃ issue ∈ build.issues, Rule.coolerSocket.issue? build = some issue) ∧
    (∃ cooler, Part.ofJson? (sampleCooler (.bool true)) = some (.cooler cooler) ∧
      ∀ socket, cooler.supports socket = true) ∧
    (∃ field, IsCoolerRecord PartStore.categoryOfEntry? entry 60 field ∧
      [] = ((socketEntries field).filter fun entry => ¬ OnlyBlanks entry).map trimmed) := by
  intro array padded entry cooler build
  obtain ⟨hcoolers, hentries, hjoined, hpadded, hrule, huniversal⟩ := Cooler.spellings_agree
  have harray : IsCooler array 150 (some (.array (sampleSockets.map Json.text))) :=
    isCooler_sample rfl
  have hcooler : Part.ofJson? array = some (.cooler cooler) :=
    ofJson?_eq_cooler_iff.mpr ⟨_, harray, by decide +kernel⟩
  refine ⟨(hcoolers array cooler).mp hcooler, ?_, ?_, ?_, ?_, hentries entry 1 ⟨60, []⟩ rfl⟩
  · exact hjoined _ _ _ sampleSockets (by decide +kernel) harray
      (isCooler_sample (by decide +kernel))
  · have hnull : ∀ word, Json.null = .text word → OnlyBlanks word := nofun
    have hblank : ∀ word, Json.text " \t" = .text word → OnlyBlanks word := by
      rintro _ ⟨⟩
      decide
    exact hpadded _ _ _ _ _ (.insert (.keep _ (.keep _ (.keep _ (.insert .nil hblank)))) hnull)
      harray (isCooler_sample rfl)
  · exact (hrule array _ _ cooler build _ harray hcooler rfl rfl).mpr (by decide +kernel)
  · exact huniversal _ _ _ (isCooler_sample rfl) nofun nofun

end PcAssembly
