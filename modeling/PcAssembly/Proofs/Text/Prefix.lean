import PcAssembly.Text.Blank

/-! # How texts start

    The library takes a head off a text letter by letter.  This is the prefix
    relation on lists of characters, and `startsWith` decides it. -/

namespace PcAssembly.Text

theorem dropStart?_eq_some_iff {head s rest : List Char} :
    dropStart? head s = some rest ↔ s = head ++ rest := by
  induction head generalizing s with
  | nil => simp [dropStart?, eq_comm]
  | cons h head ih =>
      cases s with
      | nil => simp [dropStart?]
      | cons c s =>
          rw [dropStart?, List.cons_append, List.cons.injEq]
          split
          · rename_i heq
            rw [ih, heq]
            simp
          · rename_i hne
            simp [Ne.symm hne]

theorem startsWith_iff {head s : String} :
    startsWith head s = true ↔ head.toList <+: s.toList := by
  rw [startsWith, Option.isSome_iff_exists]
  constructor
  · rintro ⟨rest, hrest⟩
    exact ⟨rest, (dropStart?_eq_some_iff.mp hrest).symm⟩
  · rintro ⟨rest, hrest⟩
    exact ⟨rest, dropStart?_eq_some_iff.mpr hrest.symm⟩

theorem prefix_append (head rest : String) : head.toList <+: (head ++ rest).toList :=
  ⟨rest.toList, String.toList_append.symm⟩

end PcAssembly.Text
