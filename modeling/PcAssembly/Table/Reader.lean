/-! # Tables in comma-separated text

    A table file is read byte by byte.  The reader is a machine with four
    states, and all it keeps besides is the field, the record and the table
    it is in the middle of; reading is one pass of a fold, so what comes
    later in a file cannot change the records that came before.

    A record ends at a carriage return or a line feed outside quotes; lines
    without anything on them are no records.  A quote opens a quoted field
    only where a field starts.  Inside, two quotes are one; after the closing
    quote the field goes on as if it had none. -/

namespace PcAssembly.Table

/-- A field as it stands in the file. -/
abbrev RawField := List UInt8

/-- A record as it stands in the file. -/
abbrev RawRecord := List RawField

/-- Where the reader is. -/
inductive Place where
  /-- Before the first byte of a record. -/
  | recordStart
  /-- Before the first byte of a further field. -/
  | fieldStart
  /-- Inside a field without quotes, or after the quotes of one. -/
  | plain
  /-- Between the quotes of a field. -/
  | quoted
  /-- After a quote that closes the field unless another follows. -/
  | afterQuote
  deriving DecidableEq, Repr

/-- The reader between two bytes.  Fields and records are kept last first. -/
structure State where
  place : Place
  field : RawField
  fields : RawRecord
  records : List RawRecord
  deriving Repr

/-- The reader before the first byte. -/
def State.start : State := ⟨.recordStart, [], [], []⟩

/-- The byte of a quote. -/
def quote : UInt8 := 0x22

/-- The byte of a comma. -/
def comma : UInt8 := 0x2C

/-- The bytes that end a record. -/
def isTerminator (byte : UInt8) : Bool := byte == 0x0A || byte == 0x0D

/-- The byte belongs to the field. -/
def State.keep (state : State) (byte : UInt8) : State :=
  { state with place := .plain, field := byte :: state.field }

/-- The field is complete. -/
def State.endField (state : State) : State :=
  { state with
    place := .fieldStart
    field := []
    fields := state.field.reverse :: state.fields }

/-- The record is complete. -/
def State.endRecord (state : State) : State where
  place := .recordStart
  field := []
  fields := []
  records := (state.field.reverse :: state.fields).reverse :: state.records

/-- A byte outside quotes that does not open any. -/
def State.plainByte (state : State) (byte : UInt8) : State :=
  if byte == comma then state.endField
  else if isTerminator byte then state.endRecord
  else state.keep byte

/-- The reader after one more byte. -/
def State.step (state : State) (byte : UInt8) : State :=
  match state.place with
  | .recordStart =>
      if isTerminator byte then state
      else if byte == quote then { state with place := .quoted }
      else state.plainByte byte
  | .fieldStart =>
      if byte == quote then { state with place := .quoted }
      else state.plainByte byte
  | .plain => state.plainByte byte
  | .quoted =>
      if byte == quote then { state with place := .afterQuote }
      else { state with field := byte :: state.field }
  | .afterQuote =>
      if byte == quote then { state with place := .quoted, field := byte :: state.field }
      else state.plainByte byte

/-- The records once the file ends; a record that has begun is complete. -/
def State.finish (state : State) : List RawRecord :=
  match state.place with
  | .recordStart => state.records.reverse
  | _ => state.endRecord.records.reverse

/-- The mark that may stand at the start of a file. -/
def byteOrderMark : List UInt8 := [0xEF, 0xBB, 0xBF]

/-- The bytes after the mark, if there is one. -/
def afterMark (bytes : List UInt8) : List UInt8 :=
  if bytes.take 3 == byteOrderMark then bytes.drop 3 else bytes

/-- The records of a file. -/
def records (bytes : List UInt8) : List RawRecord :=
  ((afterMark bytes).foldl State.step .start).finish

end PcAssembly.Table
