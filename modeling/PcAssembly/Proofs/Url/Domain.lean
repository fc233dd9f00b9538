import PcAssembly.Url.Check

/-! # No domain name ends in a blank

    A blank or control character is no part of a percent escape and has a byte
    of its own.  So a host that ends in one still ends in it when its escapes
    are resolved.  No plain name has such a character, and if the tables of
    international names accept none either (`RefusesBlanks`), the host is no
    name (`domain?_append_edge`). -/

namespace PcAssembly

/-- No international name has a blank or control character in it. -/
def HostNames.RefusesBlanks (names : HostNames) : Prop :=
  ∀ bytes, (∃ byte ∈ bytes, byte ≤ 0x20) → names.ascii? bytes = none

/-- Where there are no tables, no name with a blank is known. -/
theorem HostNames.refusesBlanks_plainOnly : plainOnly.RefusesBlanks := fun _ _ => rfl

namespace Url

open PcAssembly.Number

/-- What holds of the first 33 characters holds of the edges of a URL. -/
theorem of_isEdge {P : Char → Prop} (hall : ∀ n < 0x21, P (Char.ofNat n)) {c : Char}
    (hc : isEdge c = true) : P c := by
  have hle : c.toNat ≤ 0x20 := of_decide_eq_true hc
  have hP := hall c.toNat (Nat.lt_succ_of_le hle)
  rwa [Char.ofNat_toNat] at hP

section

variable {c : Char} (hc : isEdge c = true)
include hc

/-- An edge is no digit of a percent escape. -/
theorem hexDigit?_edge : hexDigit? c = none :=
  of_isEdge (P := fun c => hexDigit? c = none) (by decide) hc

/-- An edge is a single byte. -/
theorem utf8EncodeChar_edge : String.utf8EncodeChar c = [UInt8.ofNat c.toNat] :=
  of_isEdge (P := fun c => String.utf8EncodeChar c = [UInt8.ofNat c.toNat]) (by decide) hc

/-- The byte of an edge is a small one. -/
theorem ofNat_toNat_le_of_isEdge : UInt8.ofNat c.toNat ≤ 0x20 :=
  of_isEdge (P := fun c => UInt8.ofNat c.toNat ≤ 0x20) (by decide) hc

/-- No plain name has an edge in it. -/
theorem isForbiddenAscii_edge : isForbiddenAscii (asciiChar (UInt8.ofNat c.toNat)) = true :=
  of_isEdge (P := fun c => isForbiddenAscii (asciiChar (UInt8.ofNat c.toNat)) = true) (by decide) hc

theorem ne_of_isEdge {d : Char} (hd : isEdge d = false) : c ≠ d := by
  rintro rfl
  rw [hc] at hd
  cases hd

/-- An edge is no part of a percent escape. -/
theorem exists_percentDecoded_append (host : List Char) :
    ∃ bytes, percentDecoded (host ++ [c]) = bytes ++ [UInt8.ofNat c.toNat] := by
  fun_induction percentDecoded host with
  | case1 high low rest h l hhigh hlow ih =>
      obtain ⟨bytes, hbytes⟩ := ih
      refine ⟨UInt8.ofNat (16 * h + l) :: bytes, ?_⟩
      simp only [List.cons_append, percentDecoded, hhigh, hlow, hbytes]
  | case2 high low rest hplain ih =>
      obtain ⟨bytes, hbytes⟩ := ih
      refine ⟨'%'.toNat.toUInt8 :: bytes, ?_⟩
      simp only [List.cons_append] at hbytes ⊢
      rw [percentDecoded, hbytes]
      simp
  | case3 first rest hplain ih =>
      obtain ⟨bytes, hbytes⟩ := ih
      refine ⟨String.utf8EncodeChar first ++ bytes, ?_⟩
      rw [List.append_assoc, ← hbytes]
      by_cases hfirst : first = '%'
      · subst hfirst
        match rest with
        | [] => simp [percentDecoded]
        | [x] =>
            have hnone := hexDigit?_edge hc
            simp [percentDecoded, hnone]; rfl
        | high :: low :: rest => exact (hplain high low rest rfl rfl).elim
      · rw [List.cons_append, percentDecoded]
        exact fun _ _ _ h _ => hfirst h
  | case4 =>
      refine ⟨[], ?_⟩
      simp [percentDecoded, utf8EncodeChar_edge hc]

/-- **No domain name ends in a blank.** -/
theorem domain?_append_edge {names : HostNames} (hnames : names.RefusesBlanks)
    (host : List Char) : domain? names (host ++ [c]) = none := by
  obtain ⟨bytes, hbytes⟩ := exists_percentDecoded_append hc host
  have hmem : UInt8.ofNat c.toNat ∈ percentDecoded (host ++ [c]) := by
    rw [hbytes]
    exact List.mem_append_right _ (List.mem_singleton_self _)
  rw [domain?]
  dsimp only
  split
  · have hforbidden :
        ((percentDecoded (host ++ [c])).map asciiChar).any isForbiddenAscii = true :=
      List.any_eq_true.mpr ⟨_, List.mem_map_of_mem hmem, isForbiddenAscii_edge hc⟩
    rw [if_pos hforbidden]
  · exact hnames _ ⟨_, hmem, ofNat_toNat_le_of_isEdge hc⟩

end

end Url

end PcAssembly
