import Mathlib.Data.String.Basic
import PcAssembly.Build.Auto

/-! # The list of the parts of a build

    Products are listed by the names of their slots, one at a time, and the
    list is kept in the order of the names.  Entries with different names are
    all there in the end, each with its product; and the names of the slots of
    a build are all different. -/

namespace PcAssembly

namespace PartList

variable {slot name : String} {productId : Int64} {parts : PartList}
  {entries : List (String × Int64)}

/-- A product for a slot that is not listed yet is one more. -/
theorem insert_perm (h : slot ∉ parts.map Prod.fst) :
    (insert slot productId parts).Perm ((slot, productId) :: parts) := by
  induction parts with
  | nil => exact List.Perm.refl _
  | cons entry rest ih =>
      obtain ⟨name, product⟩ := entry
      rw [List.map_cons, List.mem_cons, not_or] at h
      rw [insert]
      by_cases hbefore : slot < name
      · rw [if_pos hbefore]
      · rw [if_neg hbefore, if_neg h.1]
        exact ((ih h.2).cons _).trans (List.Perm.swap _ _ _)

theorem mem_names_insert (h : name ∈ (insert slot productId parts).map Prod.fst) :
    name = slot ∨ name ∈ parts.map Prod.fst := by
  induction parts with
  | nil => exact Or.inl (List.mem_singleton.mp h)
  | cons entry rest ih =>
      obtain ⟨listed, product⟩ := entry
      rw [insert] at h
      split at h
      · exact List.mem_cons.mp h
      · split at h
        · exact (List.mem_cons.mp h).imp_right (List.mem_cons_of_mem _)
        · rcases List.mem_cons.mp h with hlisted | hrest
          · exact Or.inr (List.mem_cons.mpr (Or.inl hlisted))
          · exact (ih hrest).imp_right (List.mem_cons_of_mem _)

/-- A list that is sorted by name stays so. -/
theorem sorted_insert (h : (parts.map Prod.fst).Pairwise (· < ·)) :
    ((insert slot productId parts).map Prod.fst).Pairwise (· < ·) := by
  induction parts with
  | nil => exact List.pairwise_singleton _ _
  | cons entry rest ih =>
      obtain ⟨name, product⟩ := entry
      obtain ⟨hbelow, hrest⟩ := List.pairwise_cons.mp h
      rw [insert]
      split
      · rename_i hbefore
        refine List.pairwise_cons.mpr ⟨fun other hother => ?_, h⟩
        rcases List.mem_cons.mp hother with rfl | hother
        · exact hbefore
        · exact hbefore.trans (hbelow other hother)
      · rename_i hbefore
        split
        · rename_i hsame
          exact List.pairwise_cons.mpr ⟨fun other hother => hsame ▸ hbelow other hother, hrest⟩
        · rename_i hother
          -- the slot comes after the first name
          have hafter : name < slot := lt_of_le_of_ne (not_lt.mp hbefore) (Ne.symm hother)
          refine List.pairwise_cons.mpr ⟨fun other hmem => ?_, ih hrest⟩
          rcases mem_names_insert hmem with rfl | hmem
          · exact hafter
          · exact hbelow other hmem

/-- Entries with different names that are not listed yet are all added. -/
private theorem foldl_insert_perm (listed : PartList)
    (h : ((listed ++ entries).map Prod.fst).Nodup) :
    (entries.foldl (fun parts entry => insert entry.1 entry.2 parts) listed).Perm
      (listed ++ entries) := by
  induction entries generalizing listed with
  | nil => rw [List.append_nil]; exact List.Perm.refl _
  | cons entry rest ih =>
      have hmiddle : (listed ++ entry :: rest).Perm ((entry :: listed) ++ rest) :=
        List.perm_middle
      have hnames := (hmiddle.map Prod.fst).nodup h
      have hnew : entry.1 ∉ listed.map Prod.fst := by
        intro hmem
        rw [List.cons_append, List.map_cons, List.map_append] at hnames
        exact (List.nodup_cons.mp hnames).1 (List.mem_append_left _ hmem)
      have hstep : (insert entry.1 entry.2 listed ++ rest).Perm ((entry :: listed) ++ rest) :=
        (insert_perm hnew).append_right rest
      exact (ih _ ((hstep.map Prod.fst).symm.nodup hnames)).trans (hstep.trans hmiddle.symm)

/-- **Entries with different names are all listed**, and nothing else is. -/
theorem ofEntries_perm (h : (entries.map Prod.fst).Nodup) : (ofEntries entries).Perm entries :=
  foldl_insert_perm [] h

/-- The list is sorted by name, whatever the entries are. -/
theorem sorted_ofEntries (entries : List (String × Int64)) :
    ((ofEntries entries).map Prod.fst).Pairwise (· < ·) := by
  have hstep : ∀ listed : PartList, (listed.map Prod.fst).Pairwise (· < ·) →
      ((entries.foldl (fun parts entry => insert entry.1 entry.2 parts) listed).map
        Prod.fst).Pairwise (· < ·) := by
    induction entries with
    | nil => exact fun _ hlisted => hlisted
    | cons entry rest ih => exact fun _ hlisted => ih _ (sorted_insert hlisted)
  exact hstep [] List.Pairwise.nil

end PartList

/-! ## The slots of a build -/

namespace Assembly

variable {assembly : Assembly}

/-- The products of a build, each with the name of its slot. -/
def entries (assembly : Assembly) : List (String × Int64) :=
  [("cpu", assembly.cpu.item.productId), ("motherboard", assembly.motherboard.item.productId),
    ("ram", assembly.ram.item.productId), ("gpu", assembly.gpu.item.productId),
    ("psu", assembly.psu.item.productId), ("case", assembly.chassis.item.productId)]
    ++ (assembly.cooler.toList.map fun cooler => ("cooler", cooler.item.productId))
    ++ assembly.storage.zipIdx.map fun (drive, before) =>
      (s!"storage{before + 1}", drive.item.productId)

/-- The names of the slots that are filled in a build. -/
def slotNames (cooled : Bool) (drives : Nat) : List String :=
  ["cpu", "motherboard", "ram", "gpu", "psu", "case"]
    ++ (if cooled then ["cooler"] else [])
    ++ (List.range drives).map fun before => s!"storage{before + 1}"

theorem names_entries (assembly : Assembly) :
    assembly.entries.map Prod.fst =
      slotNames assembly.cooler.isSome assembly.storage.length := by
  have hdrives : (assembly.storage.zipIdx.map fun (drive, before) =>
      (s!"storage{before + 1}", drive.item.productId)).map Prod.fst =
        (List.range assembly.storage.length).map fun before => s!"storage{before + 1}" := by
    rw [List.range_eq_range', ← List.zipIdx_map_snd, List.map_map, List.map_map]
    rfl
  rw [entries, slotNames, List.map_append, List.map_append, hdrives]
  cases assembly.cooler <;> rfl

/-- The names of the slots are all different; a build has two drives at most. -/
theorem nodup_slotNames (cooled : Bool) {drives : Nat} (h : drives ≤ storagePicks) :
    (slotNames cooled drives).Nodup := by
  match drives, h with
  | 0, _ => cases cooled <;> decide
  | 1, _ => cases cooled <;> decide
  | 2, _ => cases cooled <;> decide

end Assembly

/-- **The parts of a build are its entries**, sorted by the names of the slots. -/
theorem ChosenBuild.parts_perm {build : ChosenBuild}
    (h : build.assembly.storage.length ≤ storagePicks) :
    build.parts.Perm build.assembly.entries ∧ (build.parts.map Prod.fst).Pairwise (· < ·) := by
  have hparts : build.parts = .ofEntries build.assembly.entries := rfl
  have hnames : (build.assembly.entries.map Prod.fst).Nodup := by
    rw [Assembly.names_entries]
    exact Assembly.nodup_slotNames _ h
  rw [hparts]
  exact ⟨PartList.ofEntries_perm hnames, PartList.sorted_ofEntries _⟩

end PcAssembly
