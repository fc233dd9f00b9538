import Mathlib.Data.List.DropRight
import PcAssembly.Text.Blank

/-! # Trimmed texts and pieces of texts

    Trimming takes blanks away from the ends of a text and does nothing else, so
    a text without any blank stays as it is; a digit is no blank.  What is left
    has no blank at its ends, so it is not trimmed further, and nothing is left
    of blanks alone.  Pieces that were joined by a separator that none of them
    has are found again. -/

namespace PcAssembly.Text

/-! ### Blanks -/

/-- No digit is a blank. -/
theorem isBlank_of_isDigit {c : Char} (h : c.isDigit = true) : isBlank c = false := by
  obtain ⟨hlow, hhigh⟩ := Char.isDigit_iff_toNat.mp h
  change 48 ≤ c.toNat at hlow
  change c.toNat ≤ 57 at hhigh
  -- digits lie between the second run of blanks and the third
  rw [isBlank, blankRuns]
  simp only [List.any_cons, List.any_nil, Bool.or_false, Bool.or_eq_false_iff,
    Bool.and_eq_false_iff, decide_eq_false_iff_not]
  omega

/-- Without blanks nothing is dropped. -/
theorem dropWhile_isBlank_eq_self {s : List Char} (h : ∀ c ∈ s, isBlank c = false) :
    s.dropWhile isBlank = s := by
  cases s with
  | nil => rfl
  | cons c rest => exact List.dropWhile_cons_of_neg (Bool.eq_false_iff.mp (h c List.mem_cons_self))

/-- Without blanks nothing is trimmed. -/
theorem trim_eq_self {s : List Char} (h : ∀ c ∈ s, isBlank c = false) : trim s = s := by
  rw [trim, dropWhile_isBlank_eq_self h,
    dropWhile_isBlank_eq_self fun c hc => h c (List.mem_reverse.mp hc), List.reverse_reverse]

/-- A text without blanks is not changed by trimming. -/
theorem trimmed_eq_self {s : String} (h : ∀ c ∈ s.toList, isBlank c = false) : trimmed s = s := by
  rw [trimmed, trim_eq_self h, String.ofList_toList]

/-! ### Trimming twice -/

theorem trim_eq_rdropWhile (s : List Char) :
    trim s = (s.dropWhile isBlank).rdropWhile isBlank := rfl

/-- What is left of a text has no blank in front. -/
theorem dropWhile_trim (s : List Char) : (trim s).dropWhile isBlank = trim s := by
  have hstart : trim s <+: s.dropWhile isBlank := List.rdropWhile_prefix _ _
  rw [List.dropWhile_eq_self_iff]
  intro hpos
  have hfront := List.dropWhile_eq_self_iff.mp (List.dropWhile_idempotent isBlank s)
  rw [hstart.getElem hpos]
  exact hfront (Nat.lt_of_lt_of_le hpos hstart.length_le)

/-- **A trimmed text stays as it is.** -/
theorem trim_trim (s : List Char) : trim (trim s) = trim s := by
  rw [trim_eq_rdropWhile (trim s), dropWhile_trim, trim_eq_rdropWhile, List.rdropWhile_idempotent]

/-- What is trimmed stays as it is. -/
theorem trimmed_trimmed (s : String) : trimmed (trimmed s) = trimmed s := by
  rw [trimmed, trimmed, String.toList_ofList, trim_trim]

/-- Nothing is left of blanks alone. -/
theorem trim_eq_nil_iff {s : List Char} : trim s = [] ↔ ∀ c ∈ s, isBlank c = true := by
  rw [← List.dropWhile_eq_nil_iff]
  constructor
  · intro h
    rw [trim_eq_rdropWhile, List.rdropWhile_eq_nil_iff] at h
    rw [← List.dropWhile_idempotent, List.dropWhile_eq_nil_iff]
    exact h
  · intro h
    rw [trim_eq_rdropWhile, h, List.rdropWhile_nil]

/-- A text of blanks alone, possibly of none. -/
def OnlyBlanks (s : String) : Prop := ∀ c ∈ s.toList, isBlank c = true

instance : DecidablePred OnlyBlanks := fun s =>
  decidable_of_iff (s.toList.all isBlank = true) List.all_eq_true

/-- Only blanks are trimmed away altogether. -/
theorem trimmed_eq_empty_iff {s : String} : trimmed s = "" ↔ OnlyBlanks s := by
  rw [OnlyBlanks, ← trim_eq_nil_iff, trimmed, String.ofList_eq_empty_iff]

/-! ### Pieces -/

/-- Without a separator there is one piece. -/
theorem split_eq_singleton {separator : Char} {s : List Char} (h : separator ∉ s) :
    split separator s = [s] := by
  induction s with
  | nil => rfl
  | cons c rest ih =>
      have hc : c ≠ separator := fun heq => h (heq ▸ List.mem_cons_self)
      rw [split, if_neg hc, ih fun hmem => h (List.mem_cons_of_mem c hmem)]

/-- The first piece ends at the first separator. -/
theorem split_append_cons {separator : Char} {piece : List Char} (h : separator ∉ piece)
    (rest : List Char) :
    split separator (piece ++ separator :: rest) = piece :: split separator rest := by
  induction piece with
  | nil => rw [List.nil_append, split, if_pos rfl]
  | cons c piece ih =>
      have hc : c ≠ separator := fun heq => h (heq ▸ List.mem_cons_self)
      rw [List.cons_append, split, if_neg hc, ih fun hmem => h (List.mem_cons_of_mem c hmem)]

/-- **Joined pieces are found again.** -/
theorem split_intercalate {separator : Char} {pieces : List (List Char)}
    (h : ∀ piece ∈ pieces, separator ∉ piece) (hpieces : pieces ≠ []) :
    split separator ([separator].intercalate pieces) = pieces := by
  induction pieces with
  | nil => exact absurd rfl hpieces
  | cons piece rest ih =>
      have hpiece := h piece List.mem_cons_self
      by_cases hrest : rest = []
      · rw [hrest, List.intercalate_singleton, split_eq_singleton hpiece]
      · rw [List.intercalate_cons_of_ne_nil hrest, List.append_assoc, List.singleton_append,
          split_append_cons hpiece, ih (fun other hother => h other (List.mem_cons_of_mem _ hother))
            hrest]

/-- Words joined by commas are split into the same words. -/
theorem splitString_intercalate {words : List String} (h : ∀ word ∈ words, ',' ∉ word.toList)
    (hwords : words ≠ []) : splitString ',' (",".intercalate words) = words := by
  have hpieces : ∀ piece ∈ words.map String.toList, ',' ∉ piece := by
    intro piece hpiece
    obtain ⟨word, hword, rfl⟩ := List.mem_map.mp hpiece
    exact h word hword
  rw [splitString, String.toList_intercalate]
  change (split ',' ([','].intercalate (words.map String.toList))).map String.ofList = words
  rw [split_intercalate hpieces (by simpa using hwords), List.map_map]
  simp

end PcAssembly.Text
