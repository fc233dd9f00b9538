import PcAssembly.Table.Reader

/-! # Records, cuts and quotes

    A record that is complete is never touched again: what a reader does next
    depends on the record it is in the middle of, and that is nothing at the
    start of a record.  So a file that is cut behind a record falls into two
    files, and each of them is read by itself.

    Between quotes every byte stands for itself, but for the quote, which is
    written twice; so a table whose fields are all quoted is read back, whatever
    the fields hold. -/

namespace PcAssembly.Table

namespace State

/-- The reader after these bytes. -/
def after (state : State) (bytes : List UInt8) : State := bytes.foldl step state

@[simp] theorem after_cons (state : State) (byte : UInt8) (bytes : List UInt8) :
    state.after (byte :: bytes) = (state.step byte).after bytes := rfl

/-- Bytes are read one after the other. -/
theorem after_append (state : State) (bytes more : List UInt8) :
    state.after (bytes ++ more) = (state.after bytes).after more :=
  List.foldl_append

/-! ## Records that came before -/

/-- The reader with further records read before, last first. -/
def behind (state : State) (earlier : List RawRecord) : State :=
  { state with records := state.records ++ earlier }

/-- Records that came before have no say in a plain byte. -/
theorem plainByte_behind (state : State) (earlier : List RawRecord) (byte : UInt8) :
    (state.behind earlier).plainByte byte = (state.plainByte byte).behind earlier := by
  rw [plainByte, plainByte]
  split
  · rfl
  · split <;> rfl

/-- What a byte does has nothing to do with the records before. -/
theorem step_behind (state : State) (earlier : List RawRecord) (byte : UInt8) :
    (state.behind earlier).step byte = (state.step byte).behind earlier := by
  obtain ⟨place, field, fields, records⟩ := state
  cases place with
  | recordStart =>
      show (if _ then _ else if _ then _ else _) = behind (if _ then _ else if _ then _ else _) _
      split
      · rfl
      · split
        · rfl
        · exact plainByte_behind _ earlier byte
  | fieldStart =>
      show (if _ then _ else _) = behind (if _ then _ else _) _
      split
      · rfl
      · exact plainByte_behind _ earlier byte
  | plain => exact plainByte_behind _ earlier byte
  | quoted =>
      show (if _ then _ else _) = behind (if _ then _ else _) _
      split <;> rfl
  | afterQuote =>
      show (if _ then _ else _) = behind (if _ then _ else _) _
      split
      · rfl
      · exact plainByte_behind _ earlier byte

/-- Records that came before have no say in what is read. -/
theorem after_behind (state : State) (earlier : List RawRecord) (bytes : List UInt8) :
    (state.behind earlier).after bytes = (state.after bytes).behind earlier := by
  induction bytes generalizing state with
  | nil => rfl
  | cons byte bytes ih => rw [after_cons, after_cons, step_behind, ih]

/-- Records that came before come first in the end. -/
theorem finish_behind (state : State) (earlier : List RawRecord) :
    (state.behind earlier).finish = earlier.reverse ++ state.finish := by
  obtain ⟨place, field, fields, records⟩ := state
  cases place <;> simp [finish, behind, endRecord]

/-! ## Between two records -/

/-- At the start of a record nothing is left of the one before. -/
def IsTidy (state : State) : Prop :=
  state.place = .recordStart → state.field = [] ∧ state.fields = []

/-- A plain byte leaves the reader tidy. -/
theorem isTidy_plainByte (state : State) (byte : UInt8) : (state.plainByte byte).IsTidy := by
  rw [plainByte]
  split
  · exact fun h => nomatch h
  · split
    · exact fun _ => ⟨rfl, rfl⟩
    · exact fun h => nomatch h

/-- A step leaves the reader tidy. -/
theorem IsTidy.step {state : State} (h : state.IsTidy) (byte : UInt8) :
    (state.step byte).IsTidy := by
  rw [State.step]
  split
  · split
    · exact h
    · split
      · exact fun h => nomatch h
      · exact isTidy_plainByte state byte
  · split
    · exact fun h => nomatch h
    · exact isTidy_plainByte state byte
  · exact isTidy_plainByte state byte
  · split
    · exact fun h => nomatch h
    · rename_i hplace _
      exact fun h => nomatch hplace.symm.trans h
  · split
    · exact fun h => nomatch h
    · exact isTidy_plainByte state byte

/-- All bytes leave the reader tidy. -/
theorem IsTidy.after {state : State} (h : state.IsTidy) (bytes : List UInt8) :
    (state.after bytes).IsTidy := by
  induction bytes generalizing state with
  | nil => exact h
  | cons byte bytes ih => exact ih (h.step byte)

/-- The reader is tidy at the start. -/
theorem isTidy_start : start.IsTidy := fun _ => ⟨rfl, rfl⟩

/-- A tidy reader at the start of a record is a new one behind the records that
    it has read. -/
theorem IsTidy.eq_behind {state : State} (h : state.IsTidy) (hplace : state.place = .recordStart) :
    state = start.behind state.records := by
  obtain ⟨hfield, hfields⟩ := h hplace
  obtain ⟨place, field, fields, records⟩ := state
  cases hplace
  cases hfield
  cases hfields
  rfl

/-- A line end outside quotes ends the record. -/
theorem plainByte_terminator (state : State) {byte : UInt8} (h : isTerminator byte = true) :
    state.plainByte byte = state.endRecord := by
  have hcomma : (byte == comma) = false := by
    rw [beq_eq_false_iff_ne]
    rintro rfl
    exact nomatch h
  rw [plainByte, hcomma, h]
  rfl

/-- Outside quotes a terminator leads to the start of a record. -/
theorem place_step_terminator {state : State} {byte : UInt8} (h : isTerminator byte = true)
    (houtside : state.place ≠ .quoted) : (state.step byte).place = .recordStart := by
  have hquote : (byte == quote) = false := by
    rw [beq_eq_false_iff_ne]
    rintro rfl
    exact nomatch h
  have hplain : (state.plainByte byte).place = .recordStart := by
    rw [plainByte_terminator state h]
    rfl
  cases hplace : state.place with
  | recordStart => simp only [step, hplace, h, if_true]
  | fieldStart => simpa only [step, hplace, hquote, Bool.false_eq_true, if_false] using hplain
  | plain => simpa only [step, hplace] using hplain
  | quoted => exact absurd hplace houtside
  | afterQuote => simpa only [step, hplace, hquote, Bool.false_eq_true, if_false] using hplain

end State

/-! ## Cutting a file -/

/-- Without a byte order mark nothing is skipped. -/
theorem afterMark_eq_self {bytes : List UInt8} (h : ¬ byteOrderMark <+: bytes) :
    afterMark bytes = bytes := by
  refine if_neg fun htake => h ?_
  exact List.prefix_iff_eq_take.mpr (eq_of_beq htake).symm

/-- One byte order mark is skipped. -/
theorem afterMark_append_mark (bytes : List UInt8) : afterMark (byteOrderMark ++ bytes) = bytes :=
  rfl

/-- Bytes that are more than a part of the mark decide by themselves whether
    they start with it. -/
theorem afterMark_append {bytes : List UInt8} (h : ∃ byte ∈ bytes, byte ∉ byteOrderMark)
    (more : List UInt8) : afterMark (bytes ++ more) = afterMark bytes ++ more := by
  by_cases hmark : byteOrderMark <+: bytes
  · obtain ⟨rest, rfl⟩ := hmark
    rw [List.append_assoc, afterMark_append_mark, afterMark_append_mark]
  · have hmore : ¬ byteOrderMark <+: bytes ++ more := by
      intro hprefix
      rcases List.prefix_or_prefix_of_prefix hprefix (List.prefix_append bytes more) with
        hstart | hpart
      · exact hmark hstart
      · obtain ⟨byte, hbyte, hother⟩ := h
        exact hother (hpart.subset hbyte)
    rw [afterMark_eq_self hmark, afterMark_eq_self hmore]

/-- The records of a file that is known to start with a record, not a mark. -/
def recordsFrom (bytes : List UInt8) : List RawRecord := (State.start.after bytes).finish

theorem records_eq (bytes : List UInt8) : records bytes = recordsFrom (afterMark bytes) := rfl

/-- A reader that has come so far is between quotes. -/
def InQuotes (bytes : List UInt8) : Prop :=
  (State.start.after (afterMark bytes)).place = .quoted

instance (bytes : List UInt8) : Decidable (InQuotes bytes) :=
  inferInstanceAs (Decidable (_ = _))

/-- The last byte ends a line outside quotes. -/
def EndsRecord (bytes : List UInt8) : Prop :=
  ∃ front terminator, bytes = front ++ [terminator] ∧ isTerminator terminator = true ∧
    ¬ InQuotes front

/-- A line end is no byte of the byte order mark. -/
theorem not_mem_byteOrderMark {byte : UInt8} (h : isTerminator byte = true) :
    byte ∉ byteOrderMark := by
  rw [isTerminator, Bool.or_eq_true, beq_iff_eq, beq_iff_eq] at h
  rcases h with rfl | rfl <;> decide

namespace EndsRecord

variable {bytes : List UInt8}

/-- What follows the end of a record has no say in the byte order mark. -/
theorem afterMark_append (h : EndsRecord bytes) (more : List UInt8) :
    afterMark (bytes ++ more) = afterMark bytes ++ more := by
  obtain ⟨front, terminator, rfl, hterminator, -⟩ := h
  exact Table.afterMark_append ⟨terminator, List.mem_append_right _ (List.mem_singleton_self _),
    not_mem_byteOrderMark hterminator⟩ more

/-- Behind a line that ends outside quotes the reader starts a record. -/
theorem place_eq (h : EndsRecord bytes) :
    (State.start.after (afterMark bytes)).place = .recordStart := by
  obtain ⟨front, terminator, rfl, hterminator, houtside⟩ := h
  by_cases hmark : byteOrderMark <+: front
  · obtain ⟨rest, rfl⟩ := hmark
    rw [List.append_assoc, afterMark_append_mark, State.after_append]
    exact State.place_step_terminator hterminator houtside
  · have hwhole : ¬ byteOrderMark <+: front ++ [terminator] := by
      intro hprefix
      -- the terminator is no byte of the mark, so the mark would end before it
      rcases List.prefix_concat_iff.mp hprefix with heq | hstart
      · have hmem : terminator ∈ byteOrderMark :=
          heq ▸ List.mem_append_right _ (List.mem_singleton_self _)
        exact not_mem_byteOrderMark hterminator hmem
      · exact hmark hstart
    rw [InQuotes, afterMark_eq_self hmark] at houtside
    rw [afterMark_eq_self hwhole, State.after_append]
    exact State.place_step_terminator hterminator houtside

/-- **A file that is cut behind a record is read part by part.** -/
theorem records_append (h : EndsRecord bytes) (more : List UInt8) :
    records (bytes ++ more) = records bytes ++ recordsFrom more := by
  have htidy := State.isTidy_start.after (afterMark bytes)
  have hcut := htidy.eq_behind h.place_eq
  rw [records_eq, records_eq, h.afterMark_append more, recordsFrom, recordsFrom, recordsFrom,
    State.after_append, hcut, State.after_behind, State.finish_behind, State.finish_behind]
  simp [State.finish, State.start]

end EndsRecord

/-! ## Quoting -/

/-- A byte between quotes. -/
def quotedByte (byte : UInt8) : List UInt8 :=
  if byte = quote then [quote, quote] else [byte]

/-- A field between quotes. -/
def writeField (field : RawField) : List UInt8 :=
  quote :: (field.flatMap quotedByte ++ [quote])

/-- A record of quoted fields on a line of its own. -/
def writeRecord (record : RawRecord) : List UInt8 :=
  [comma].intercalate (record.map writeField) ++ [0x0A]

/-- A table, record after record. -/
def write (records : List RawRecord) : List UInt8 :=
  records.flatMap writeRecord

namespace State

/-- A byte between quotes stands for itself. -/
theorem after_quotedByte (byte : UInt8) (field : RawField) (fields : RawRecord)
    (records : List RawRecord) :
    after ⟨.quoted, field, fields, records⟩ (quotedByte byte) =
      ⟨.quoted, byte :: field, fields, records⟩ := by
  rw [quotedByte]
  split
  · rename_i hquote
    rw [hquote]
    rfl
  · rename_i hother
    show step ⟨.quoted, field, fields, records⟩ byte = _
    exact if_neg (mt eq_of_beq hother)

/-- All bytes between quotes stand for themselves. -/
theorem after_flatMap_quotedByte (bytes : List UInt8) (field : RawField) (fields : RawRecord)
    (records : List RawRecord) :
    after ⟨.quoted, field, fields, records⟩ (bytes.flatMap quotedByte) =
      ⟨.quoted, bytes.reverse ++ field, fields, records⟩ := by
  induction bytes generalizing field with
  | nil => rfl
  | cons byte bytes ih =>
      rw [List.flatMap_cons, after_append, after_quotedByte, ih, List.reverse_cons,
        List.append_assoc, List.singleton_append]

/-- Where a field may start. -/
def StartsField (place : Place) : Prop := place = .recordStart ∨ place = .fieldStart

/-- A written field is read back, wherever a field may start. -/
theorem after_writeField {place : Place} (hplace : StartsField place) (field : RawField)
    (fields : RawRecord) (records : List RawRecord) :
    after ⟨place, [], fields, records⟩ (writeField field) =
      ⟨.afterQuote, field.reverse, fields, records⟩ := by
  have hopen : step ⟨place, [], fields, records⟩ quote = ⟨.quoted, [], fields, records⟩ := by
    rcases hplace with rfl | rfl <;> rfl
  rw [writeField, after_cons, hopen, after_append, after_flatMap_quotedByte, List.append_nil]
  rfl

/-- A record is read from its start, or from the start of any of its fields. -/
theorem after_writeRecord {place : Place} (hplace : StartsField place) {record : RawRecord}
    (hrecord : record ≠ []) (fields : RawRecord) (records : List RawRecord) :
    after ⟨place, [], fields, records⟩ (writeRecord record) =
      ⟨.recordStart, [], [], (fields.reverse ++ record) :: records⟩ := by
  induction record generalizing place fields with
  | nil => exact absurd rfl hrecord
  | cons field rest ih =>
      by_cases hrest : rest = []
      · subst hrest
        rw [writeRecord, List.map_singleton, List.intercalate_singleton, after_append,
          after_writeField hplace]
        show (⟨_, _, _, (field.reverse.reverse :: fields).reverse :: records⟩ : State) = _
        rw [List.reverse_reverse, List.reverse_cons]
      · have hmore : rest.map writeField ≠ [] := mt List.map_eq_nil_iff.mp hrest
        rw [writeRecord, List.map_cons, List.intercalate_cons_of_ne_nil hmore, List.append_assoc,
          List.append_assoc, after_append, after_writeField hplace, List.singleton_append,
          after_cons]
        show after ⟨.fieldStart, [], field.reverse.reverse :: fields, records⟩
          (writeRecord rest) = _
        rw [ih (Or.inr rfl) hrest, List.reverse_reverse, List.reverse_cons, List.append_assoc,
          List.singleton_append]

/-- A written table is read back behind the records that came before. -/
theorem after_write {table : List RawRecord} (h : ∀ record ∈ table, record ≠ [])
    (records : List RawRecord) :
    after ⟨.recordStart, [], [], records⟩ (write table) =
      ⟨.recordStart, [], [], table.reverse ++ records⟩ := by
  induction table generalizing records with
  | nil => rfl
  | cons record table ih =>
      obtain ⟨hrecord, htable⟩ := List.forall_mem_cons.mp h
      rw [write, List.flatMap_cons, after_append, after_writeRecord (Or.inl rfl) hrecord,
        List.reverse_nil, List.nil_append]
      rw [← write, ih htable, List.reverse_cons, List.append_assoc, List.singleton_append]

end State

/-- A record with a field starts with a quote. -/
theorem exists_writeRecord_eq_cons {record : RawRecord} (h : record ≠ []) :
    ∃ rest, writeRecord record = quote :: rest := by
  obtain ⟨field, rest, rfl⟩ := List.exists_cons_of_ne_nil h
  rw [writeRecord, List.map_cons, writeField, List.intercalate_cons_cons_left, List.cons_append]
  exact ⟨_, rfl⟩

/-- A written table starts with no byte order mark. -/
theorem afterMark_write {table : List RawRecord} (h : ∀ record ∈ table, record ≠ []) :
    afterMark (write table) = write table := by
  refine afterMark_eq_self ?_
  cases table with
  | nil => exact fun hprefix => nomatch List.prefix_nil.mp hprefix
  | cons record table =>
      obtain ⟨rest, hrest⟩ := exists_writeRecord_eq_cons (h record List.mem_cons_self)
      rw [write, List.flatMap_cons, hrest]
      intro hprefix
      exact absurd (List.cons_prefix_cons.mp hprefix).1 (by decide)

/-- **A quoted table is read back**, if every record has a field. -/
theorem records_write {table : List RawRecord} (h : ∀ record ∈ table, record ≠ []) :
    records (write table) = table := by
  rw [records_eq, afterMark_write h, recordsFrom, State.start, State.after_write h]
  simp [State.finish]

end PcAssembly.Table
