import PcAssembly.Proofs.Url.Extension

/-! # Paths that stay at the end

    The steps of a path that stand in plain characters are written as they are,
    and no step behind them leads up.  So a path put behind a web URL without a
    query and a fragment is what its server is asked for last
    (`Opens.exists_target`). -/

namespace PcAssembly

/-! ### Pieces -/

namespace Text

/-- The pieces on both sides of a separator. -/
theorem split_append_separator (separator : Char) (s t : List Char) :
    split separator (s ++ separator :: t) = split separator s ++ split separator t := by
  induction s with
  | nil => simp [split]
  | cons c s ih =>
      rw [List.cons_append, split, split, ih]
      split
      · rfl
      · cases hsplit : split separator s with
        | nil => exact absurd hsplit (split_ne_nil separator s)
        | cons piece pieces => rfl

/-- A separator in front of every piece. -/
theorem flatMap_split (separator : Char) (s : List Char) :
    (split separator s).flatMap (separator :: ·) = separator :: s := by
  induction s with
  | nil => simp [split]
  | cons c s ih =>
      rw [split]
      split
      · rename_i hc
        rw [List.flatMap_cons, ih, hc]
        rfl
      · cases hsplit : split separator s with
        | nil => exact absurd hsplit (split_ne_nil separator s)
        | cons piece pieces =>
            rw [hsplit] at ih
            simpa using ih

/-- A piece has characters of the text. -/
theorem mem_of_mem_split {separator : Char} {s piece : List Char} (h : piece ∈ split separator s)
    {c : Char} (hc : c ∈ piece) : c ∈ s := by
  induction s generalizing piece with
  | nil =>
      rw [split, List.mem_singleton] at h
      rw [h] at hc
      cases hc
  | cons d s ih =>
      rw [split] at h
      split at h
      · rcases List.mem_cons.mp h with rfl | h
        · cases hc
        · exact List.mem_cons_of_mem d (ih h hc)
      · cases hsplit : split separator s with
        | nil => exact absurd hsplit (split_ne_nil separator s)
        | cons first pieces =>
            rw [hsplit] at h ih
            rcases List.mem_cons.mp h with rfl | h
            · rcases List.mem_cons.mp hc with rfl | hc
              · exact List.mem_cons_self
              · exact List.mem_cons_of_mem d (ih List.mem_cons_self hc)
            · exact List.mem_cons_of_mem d (ih (List.mem_cons_of_mem first h) hc)

end Text

namespace Url

variable {names : HostNames}

/-! ### Steps of a path -/

/-- A step in plain characters. -/
def IsPlainStep (step : List Char) : Prop := ∀ c ∈ step, isPlain c = true

namespace IsPlainStep

variable {step : List Char} (h : IsPlainStep step)
include h

theorem not_mem {c : Char} (hc : isPlain c = false) : c ∉ step := by
  intro hmem
  rw [h c hmem] at hc
  cases hc

theorem escaped_eq : escaped isPathChar step = step := by
  induction step with
  | nil => rfl
  | cons c step ih =>
      have hc : isPathChar c = true := (Bool.and_eq_true_iff.mp (h c List.mem_cons_self)).1
      rw [escaped, List.flatMap_cons, if_pos hc]
      exact congrArg (c :: ·) (ih fun d hd => h d (List.mem_cons_of_mem c hd))

theorem withPlainDots_eq : withPlainDots step = step := by
  have hpercent : '%' ∉ step := h.not_mem rfl
  clear h
  fun_induction withPlainDots step with
  | case1 => simp at hpercent
  | case2 => simp at hpercent
  | case3 c rest _ _ ih => rw [ih fun hmem => hpercent (List.mem_cons_of_mem c hmem)]
  | case4 => rfl

/-- A plain step is walked. -/
theorem walked_cons (before rest : List (List Char)) :
    walked before (step :: rest) = walked (before ++ [step]) rest := by
  have hdot : '.' ∉ step := h.not_mem rfl
  rw [walked, h.withPlainDots_eq, if_neg, if_neg]
  · rintro rfl
    simp at hdot
  · rintro rfl
    simp at hdot

end IsPlainStep

/-- **Plain steps are never undone.** -/
theorem exists_walked_append {steps : List (List Char)} (hsteps : ∀ step ∈ steps, IsPlainStep step)
    (before others : List (List Char)) :
    ∃ front, walked before (others ++ steps) = front ++ steps := by
  induction others generalizing before with
  | nil =>
      refine ⟨before, ?_⟩
      induction steps generalizing before with
      | nil => simp [walked]
      | cons step steps ih =>
          obtain ⟨hstep, hsteps⟩ := List.forall_mem_cons.mp hsteps
          rw [List.nil_append, hstep.walked_cons, ← List.nil_append steps, ih hsteps]
          simp
  | cons other others ih =>
      rw [List.cons_append, walked]
      split
      · exact ih _
      · split
        · exact ih _
        · exact ih _

/-- A plain path at the end of a path stays there. -/
theorem exists_path_append {behind t : List Char} (ht : IsPlainPath t)
    (hbehind : ∀ c ∈ behind.head?, c = '/' ∨ c = '\\') :
    ∃ front, path (behind ++ t) = front ++ t := by
  obtain ⟨steps, rfl⟩ := ht.exists_cons
  have hbackslash : ∀ c ∈ '/' :: steps, c ≠ '\\' := fun c hc =>
    ht.ne_of_mem hc rfl
  have hmap : ('/' :: steps).map (fun c => if c = '\\' then '/' else c) = '/' :: steps :=
    (List.map_congr_left (g := id) fun c hc => if_neg (hbackslash c hc)).trans (List.map_id _)
  have hplain : ∀ step ∈ Text.split '/' steps, IsPlainStep step := by
    intro step hstep c hc
    exact ht.plain c (List.mem_cons_of_mem '/' (Text.mem_of_mem_split hstep hc))
  have hescaped : (Text.split '/' steps).map (escaped isPathChar) = Text.split '/' steps :=
    (List.map_congr_left (g := id) fun step hstep => (hplain step hstep).escaped_eq).trans
      (List.map_id _)
  rw [path, List.map_append, hmap]
  cases behind with
  | nil =>
      obtain ⟨front, hfront⟩ := exists_walked_append hplain [] []
      rw [List.nil_append] at hfront
      refine ⟨front.flatMap ('/' :: ·), ?_⟩
      simp only [List.map_nil, List.nil_append]
      rw [hescaped, hfront, List.flatMap_append, Text.flatMap_split]
  | cons c behind =>
      have hc : (if c = '\\' then '/' else c) = '/' := by
        rcases hbehind c rfl with rfl | rfl <;> rfl
      obtain ⟨front, hfront⟩ := exists_walked_append hplain []
        ((Text.split '/' (behind.map fun c => if c = '\\' then '/' else c)).map
          (escaped isPathChar))
      refine ⟨front.flatMap ('/' :: ·), ?_⟩
      simp only [List.map_cons, hc, List.cons_append]
      rw [Text.split_append_separator, List.map_append, hescaped, hfront, List.flatMap_append,
        Text.flatMap_split]

/-- A server is asked for something if the text with the path is a web URL. -/
theorem Opens.isSome_ofText?_iff {s rest t : List Char} (h : Opens s rest) (ht : IsPlainPath t) :
    (Target.ofText? names (String.ofList (s ++ t))).isSome = true ↔ IsWebUrl names (s ++ t) := by
  obtain ⟨name, slashed, hscheme, hname, hslashed⟩ := h.exists_scheme_append ht
  have hkind : SchemeKind.of name = .web := by
    rcases hname with rfl | rfl <;> rfl
  rw [h.isWebUrl_append_iff ht, ← authorityFault?_append_ended rest ht.ended, ← hslashed]
  simp only [Target.ofText?, String.toList_ofList, hscheme, Option.bind_eq_bind, Option.bind_some,
    hkind, restFault?, true_and]
  split
  · rename_i hfault
    exact iff_of_true rfl (Option.isNone_iff_eq_none.mp hfault)
  · rename_i hfault
    exact iff_of_false Bool.false_ne_true fun hnone => hfault (Option.isNone_iff_eq_none.mpr hnone)

/-- A mark that is missing in the text is missing in what stands behind its
    authority, and in the path. -/
theorem Opens.bne_of_notMem {s rest authority behind t : List Char} (h : Opens s rest)
    (hrest : rest = authority ++ behind) (ht : IsPlainPath t) {mark : Char} (hmark : mark ∉ s)
    (hplain : isPlain mark = false) : ∀ c ∈ behind ++ t, (c != mark) = true := by
  intro c hc
  rw [bne_iff_ne]
  rcases List.mem_append.mp hc with hc | hc
  · rintro rfl
    exact hmark (h.mem_of_mem_rest (hrest ▸ List.mem_append_right authority hc))
  · exact ht.ne_of_mem hc hplain

/-- Without query and fragment an authority ends with a slash. -/
theorem Opens.slash_of_ended {s rest authority behind : List Char} (h : Opens s rest)
    (hrest : rest = authority ++ behind) (hended : Ended behind) (hquery : '?' ∉ s)
    (hfragment : '#' ∉ s) : ∀ c ∈ behind.head?, c = '/' ∨ c = '\\' := by
  intro c hc
  have hmem : c ∈ s :=
    h.mem_of_mem_rest (hrest ▸ List.mem_append_right authority (List.mem_of_head? hc))
  rcases endsAuthority_iff.mp (hended c hc) with hslash | hslash | rfl | rfl
  · exact .inl hslash
  · exact .inr hslash
  · exact absurd hmem hquery
  · exact absurd hmem hfragment

/-- **What a server is asked for** last is the path behind the text. -/
theorem Opens.exists_target {s rest t : List Char} (h : Opens s rest) (ht : IsPlainPath t)
    (hfault : authorityFault? names .web rest = none) (hquery : '?' ∉ s) (hfragment : '#' ∉ s) :
    ∃ target front, Target.ofText? names (String.ofList (s ++ t)) = some target ∧
      target.path = front ++ t ∧ target.query = none := by
  obtain ⟨name, slashed, hscheme, hname, hslashed⟩ := h.exists_scheme_append ht
  have hkind : SchemeKind.of name = .web := by
    rcases hname with rfl | rfl <;> rfl
  have hnone : (restFault? names .web slashed).isNone = true := by
    rw [restFault?, hslashed, authorityFault?_append_ended _ ht.ended, hfault]
    rfl
  obtain ⟨authority, behind, hrest, hinside, hended⟩ := exists_inside_append rest
  have hauthority := takeWhile_inside hinside ((ended_append_iff ht.ended).mpr hended)
  have hhash := h.bne_of_notMem hrest ht hfragment rfl
  have hmark := h.bne_of_notMem hrest ht hquery rfl
  obtain ⟨front, hpath⟩ :=
    exists_path_append ht (h.slash_of_ended hrest hended hquery hfragment)
  refine ⟨⟨authority, front ++ t, none⟩, front, ?_, rfl, rfl⟩
  simp only [Target.ofText?, String.toList_ofList, hscheme, hslashed, hrest, List.append_assoc,
    hauthority, Option.bind_eq_bind, Option.bind_some, hkind, hnone, and_self, if_true,
    List.drop_left]
  rw [List.takeWhile_eq_self_iff.mpr hhash, List.takeWhile_eq_self_iff.mpr hmark,
    List.dropWhile_eq_nil_iff.mpr hmark, hpath]

end Url

end PcAssembly
