import Mathlib.Data.List.Basic
import PcAssembly.Proofs.Table.Records
import PcAssembly.Proofs.Text.Utf8

/-! # Tables as texts

    A table of texts is written with all fields in quotes, a quote inside being
    written twice.  Its bytes are those of the quoted table of its fields' bytes:
    no character but the quote has the byte of a quote. -/

namespace PcAssembly.Table

open Text (utf8 utf8_ofList utf8_eq_flatMap)

/-- A character between quotes. -/
def quotedChar (c : Char) : List Char := if c = '"' then ['"', '"'] else [c]

/-- A field between quotes. -/
def fieldText (field : String) : List Char :=
  '"' :: (field.toList.flatMap quotedChar ++ ['"'])

/-- A record of quoted fields, ended by a newline. -/
def recordText (record : List String) : List Char :=
  [','].intercalate (record.map fieldText) ++ ['\n']

/-- A table of texts, record after record. -/
def text (records : List (List String)) : String :=
  String.ofList (records.flatMap recordText)

theorem quote_not_mem_utf8EncodeChar {c : Char} (h : c ≠ '"') :
    quote ∉ String.utf8EncodeChar c := by
  intro hmem
  have hcode := Text.toNat_eq_of_mem_utf8EncodeChar (by decide) hmem
  exact h (Char.toNat_inj.mp hcode.symm)

/-- To double the quotes of a text is to double the bytes of its quotes. -/
theorem flatMap_quotedChar (c : Char) :
    (quotedChar c).flatMap String.utf8EncodeChar =
      (String.utf8EncodeChar c).flatMap quotedByte := by
  rw [quotedChar]
  split
  · rename_i hquote
    rw [hquote]
    rfl
  · rename_i hother
    have hsingle : ∀ byte ∈ String.utf8EncodeChar c, quotedByte byte = [byte] := by
      intro byte hbyte
      refine if_neg fun hquote => quote_not_mem_utf8EncodeChar hother ?_
      rwa [← hquote]
    rw [List.flatMap_congr hsingle, List.flatMap_singleton', List.flatMap_singleton]

theorem flatMap_fieldText (field : String) :
    (fieldText field).flatMap String.utf8EncodeChar = writeField (utf8 field) := by
  rw [fieldText, writeField, List.flatMap_cons, List.flatMap_append, List.flatMap_assoc,
    utf8_eq_flatMap, List.flatMap_assoc]
  simp only [flatMap_quotedChar]
  rfl

theorem flatMap_intercalate (fields : List (List Char)) :
    ([','].intercalate fields).flatMap String.utf8EncodeChar =
      [comma].intercalate (fields.map fun field => field.flatMap String.utf8EncodeChar) := by
  induction fields with
  | nil => rfl
  | cons field rest ih =>
      by_cases hrest : rest = []
      · subst hrest
        rw [List.map_singleton, List.intercalate_singleton, List.intercalate_singleton]
      · have hmore : rest.map (fun field => field.flatMap String.utf8EncodeChar) ≠ [] :=
          mt List.map_eq_nil_iff.mp hrest
        rw [List.map_cons, List.intercalate_cons_of_ne_nil hrest,
          List.intercalate_cons_of_ne_nil hmore, List.flatMap_append, List.flatMap_append, ih]
        rfl

theorem flatMap_recordText (record : List String) :
    (recordText record).flatMap String.utf8EncodeChar = writeRecord (record.map utf8) := by
  rw [recordText, writeRecord, List.flatMap_append, flatMap_intercalate, List.map_map,
    List.map_map]
  congr 2
  exact List.map_congr_left fun field _ => flatMap_fieldText field

/-- **The bytes of a table of texts** are the table of the bytes of the texts. -/
theorem utf8_text (records : List (List String)) :
    utf8 (text records) = write (records.map (List.map utf8)) := by
  rw [text, utf8_ofList, List.flatMap_assoc, write, List.flatMap_map]
  exact List.flatMap_congr fun record _ => flatMap_recordText record

end PcAssembly.Table
