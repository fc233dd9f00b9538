import Mathlib.Data.List.Forall2
import PcAssembly.Build.Result
import PcAssembly.Proofs.Build.Parts
import PcAssembly.Proofs.Build.Soundness
import PcAssembly.Proofs.Exchange
import PcAssembly.Proofs.List.FailingMap

/-! # What a written result says

    A result is written as one object, and what is read back from its text says
    everything the result holds: its selection, its parts, its wattage and its
    reasons as they are, and each price and score as the number that its digits
    stand for.  A score without a finite value is read back as null. -/

namespace PcAssembly

open Json

namespace PricePoint

/-- A value says a price: its label, and the number that its text stands for. -/
inductive IsStatedBy (point : PricePoint) : Json → Prop
  | record {price : Json} (hprice : Rereads (.ofDecimal point.avgPrice) price) :
      IsStatedBy point (.record [("date", .text point.date), ("avgPrice", price)])

/-- What is written for a price says it. -/
theorem exists_rereads (point : PricePoint) :
    ∃ value, Rereads point.toJson value ∧ point.IsStatedBy value := by
  obtain ⟨price, hprice⟩ := exists_rereads_double point.avgPrice.toFloat
  exact ⟨_, (RereadItems.cons (.text _) (.cons hprice .nil)).record fieldNames, .record hprice⟩

end PricePoint

namespace PriceChart

/-- A value says a chart: the part it is about, and its prices in order. -/
inductive IsStatedBy (chart : PriceChart) : Json → Prop
  | record {series : List Json} (hseries : List.Forall₂ PricePoint.IsStatedBy chart.series series) :
      IsStatedBy chart (.record [("partType", .text chart.partType), ("series", .array series)])

/-- What is written for a chart says it. -/
theorem exists_rereads (chart : PriceChart) :
    ∃ value, Rereads chart.toJson value ∧ chart.IsStatedBy value := by
  obtain ⟨series, hrereads, hseries⟩ := exists_rereadItems chart.series PricePoint.exists_rereads
  exact ⟨_, (RereadItems.cons (.text _) (.cons (.array hrereads) .nil)).record fieldNames,
    .record hseries⟩

end PriceChart

namespace PartList

variable {parts : PartList}

/-- A list that is sorted by name is the list of its own entries. -/
theorem ofEntries_of_sorted (h : (parts.map Prod.fst).Pairwise (· < ·)) :
    ofEntries parts = parts := by
  have hperm : (ofEntries parts).Perm parts := ofEntries_perm (h.imp ne_of_lt)
  have hsorted := List.pairwise_map.mp (sorted_ofEntries parts)
  exact hperm.eq_of_pairwise
    (fun _ _ _ _ hlt hgt => absurd (hlt.trans hgt) (lt_irrefl _)) hsorted (List.pairwise_map.mp h)

/-- **Parts are read back** in the order of their names. -/
theorem ofJson?_toJson (h : (parts.map Prod.fst).Pairwise (· < ·)) :
    ofJson? parts.toJson = some parts := by
  refine Option.bind_eq_some_iff.mpr ⟨parts, mapM_eq_some_iff.mpr ?_, ?_⟩
  · rw [List.map_map, List.map_map]
    refine List.map_congr_left fun entry _ => ?_
    have hid : (ofInt64 entry.2).int64? = some entry.2 := int64?_eq_some_iff_ofInt64.mpr rfl
    simp [hid]
  · rw [ofEntries_of_sorted h]
    rfl

/-- The products of the parts stay as they are. -/
theorem rereads_toJson (parts : PartList) : Rereads parts.toJson parts.toJson := by
  refine .object ?_
  rw [List.map_map]
  induction parts with
  | nil => exact .nil
  | cons entry rest ih => exact .cons entry.1 (.ofInt64 entry.2) ih

end PartList

namespace BuildResult

/-- A value says a result.  Its selection, parts, wattage and reasons are what
    their readers take from it, and prices and scores are what their digits
    stand for. -/
inductive IsStatedBy (result : BuildResult) : Json → Prop
  | record {selection parts total wattage score rationale : Json} {charts : List Json}
      (hselection : Selection.ofJson? selection = some result.selection)
      (hparts : PartList.ofJson? parts = some result.parts)
      (htotal : Rereads (.ofDecimal result.total) total)
      (hwattage : wattage.uint32? = some result.requiredPsuWattage)
      (hscore : Rereads (.double result.compositeScore.toFloat) score)
      (hrationale : rationale.list? string? = some result.rationale)
      (hcharts : List.Forall₂ PriceChart.IsStatedBy result.priceCharts charts) :
      IsStatedBy result (.record
        [("selection", selection), ("parts", parts), ("total", total),
         ("requiredPsuWattage", wattage), ("compositeScore", score), ("rationale", rationale),
         ("priceCharts", .array charts)])

/-- **A written result says what it holds.** -/
theorem exists_rereads {result : BuildResult} (h : (result.parts.map Prod.fst).Pairwise (· < ·)) :
    ∃ value, Rereads result.toJson value ∧ result.IsStatedBy value := by
  obtain ⟨total, htotal⟩ := exists_rereads_double result.total.toFloat
  obtain ⟨score, hscore⟩ := exists_rereads_double result.compositeScore.toFloat
  obtain ⟨charts, hrereads, hcharts⟩ :=
    exists_rereadItems result.priceCharts PriceChart.exists_rereads
  have hvalues := RereadItems.cons result.selection.rereads_toJson
    (.cons result.parts.rereads_toJson (.cons htotal (.cons (.ofUInt32 result.requiredPsuWattage)
      (.cons hscore (.cons (.texts result.rationale) (.cons (.array hrereads) .nil))))))
  exact ⟨_, hvalues.record fieldNames,
    .record result.selection.ofJson?_toJson (PartList.ofJson?_toJson h) htotal
      (uint32?_ofUInt32 _) hscore
      ((list?_eq_some_iff_map fun _ _ => string?_eq_some_iff).mpr rfl) hcharts⟩

end BuildResult

/-- What is written for the result of a run says what it holds. -/
theorem AutoBuild.exists_rereads_of_run {workshop : Workshop} {settings : EngineSettings}
    {request : BuildRequest} {result : BuildResult}
    (h : run workshop settings request false = .ok result) :
    ∃ value, Rereads result.toJson value ∧ result.IsStatedBy value := by
  obtain ⟨_, _, build, -, -, rfl⟩ := exists_optimum_of_run h
  exact BuildResult.exists_rereads (PartList.sorted_ofEntries build.assembly.entries)

end PcAssembly
