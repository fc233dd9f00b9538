import PcAssembly.Proofs.Build.Parts
import PcAssembly.Proofs.Build.Soundness

/-! # Prices of the past change nothing

    The price service is asked about a build that has been chosen already.
    Whatever it answers, fails to answer or answers too late, the build is the
    same; a series that comes becomes a chart, and one line of the rationale
    stands for all that do not come. -/

namespace PcAssembly

/-- The chart of a part, if a series has come for it. -/
def PriceReply.chart? (category : Category) : PriceReply → Option PriceChart
  | .series points => some ⟨category.key, points⟩
  | .failed _ => none
  | .timedOut => none

theorem PriceReply.isSome_chart?_iff {category : Category} {reply : PriceReply} :
    (reply.chart? category).isSome = true ↔ ∃ points, reply = .series points := by
  cases reply <;> simp [chart?]

theorem PriceQuery.chart?_eq (service : PriceService) (query : PriceQuery) :
    query.chart? service = (service query).chart? query.category := by
  rw [chart?]
  cases service query <;> rfl

namespace AutoBuild

/-- Two outcomes that differ at most in price charts and in the line that
    stands for missing ones. -/
def SameBuild : Except BuildError BuildResult → Except BuildError BuildResult → Prop
  | .ok x, .ok y =>
      x.selection = y.selection ∧ x.parts = y.parts ∧ x.total = y.total ∧
        x.requiredPsuWattage = y.requiredPsuWattage ∧ x.compositeScore = y.compositeScore ∧
        x.rationale.filter (· ≠ pricesUnavailable) = y.rationale.filter (· ≠ pricesUnavailable)
  | .error x, .error y => x = y
  | .ok _, .error _ => False
  | .error _, .ok _ => False

variable {workshop : Workshop} {settings : EngineSettings} {request : BuildRequest}

/-- What is finished under two price services is the same build. -/
theorem sameBuild_finish (build : ChosenBuild) (prices others : PriceService) :
    SameBuild (.ok (finish { workshop with prices } settings request build))
      (.ok (finish { workshop with prices := others } settings request build)) := by
  refine ⟨rfl, rfl, rfl, rfl, rfl, ?_⟩
  rw [filter_rationale, filter_rationale]

/-- The build is chosen before the price service is asked. -/
theorem sameBuild_run (cancelled : Bool) (prices others : PriceService) :
    SameBuild (run { workshop with prices } settings request cancelled)
      (run { workshop with prices := others } settings request cancelled) := by
  have hchoose : choose { workshop with prices := others } settings request =
      choose { workshop with prices } settings request := rfl
  rw [run, run, hchoose]
  cases cancelled with
  | true => exact rfl
  | false =>
      cases choose { workshop with prices } settings request with
      | error error => exact rfl
      | ok build => exact sameBuild_finish build prices others

/-- The replies about a build: one each for processor, graphics card and
    memory. -/
def replies (workshop : Workshop) (settings : EngineSettings) (cpu gpu ram : Int64) :
    List (Category × PriceReply) :=
  let ask (category : Category) (productId : Int64) : Category × PriceReply :=
    (category, workshop.prices {
      category
      productId
      start := windowStart workshop.today settings.priceWindowDays
      stop := workshop.today
      bucket := .day })
  [ask .cpu cpu, ask .gpu gpu, ask .ram ram]

variable {build : ChosenBuild}

/-- The replies about the products of a build. -/
def buildReplies (workshop : Workshop) (settings : EngineSettings) (build : ChosenBuild) :
    List (Category × PriceReply) :=
  replies workshop settings build.assembly.cpu.item.productId build.assembly.gpu.item.productId
    build.assembly.ram.item.productId

theorem map_chart?_priceQueries :
    (priceQueries workshop.today settings.priceWindowDays build).map
        (PriceQuery.chart? workshop.prices) =
      (buildReplies workshop settings build).map fun (category, reply) =>
        reply.chart? category := by
  simp only [priceQueries, buildReplies, replies, List.map_cons, List.map_nil,
    PriceQuery.chart?_eq]
  rfl

/-- The charts of a finished build are those of the replies that are series. -/
theorem priceCharts_finish :
    (finish workshop settings request build).priceCharts =
      (buildReplies workshop settings build).filterMap fun (category, reply) =>
        reply.chart? category := by
  have hcharts : (finish workshop settings request build).priceCharts =
      ((priceQueries workshop.today settings.priceWindowDays build).map
        (PriceQuery.chart? workshop.prices)).filterMap id := rfl
  rw [hcharts, map_chart?_priceQueries, List.filterMap_map]
  rfl

theorem pricesAnswered_iff :
    pricesAnswered workshop settings build = true ↔
      ∀ answer ∈ buildReplies workshop settings build, ∃ points, answer.2 = .series points := by
  have hall : pricesAnswered workshop settings build =
      ((buildReplies workshop settings build).map fun (category, reply) =>
        reply.chart? category).all Option.isSome := by
    rw [← map_chart?_priceQueries, List.all_map]
    rfl
  rw [hall, List.all_map, List.all_eq_true]
  simp only [Function.comp_apply, PriceReply.isSome_chart?_iff]

/-- **Prices of the past change nothing.**  Under any two price services a
    request gets the same error, or two results with the same selection, parts,
    total, wattage and score, whose rationales differ at most in the line that
    stands for missing charts.  The charts of a result are those of the replies
    that were series, each with its own series, for the processor, the graphics
    card and the memory among its parts and in this order; the line is there
    once if some reply was none, else not at all. -/
theorem run_independent_of_prices (workshop : Workshop) (settings : EngineSettings)
    (request : BuildRequest) (cancelled : Bool) (prices others : PriceService) :
    SameBuild (run { workshop with prices } settings request cancelled)
      (run { workshop with prices := others } settings request cancelled) ∧
    ∀ result, run { workshop with prices } settings request cancelled = .ok result →
      ∃ cpu gpu ram, ("cpu", cpu) ∈ result.parts ∧ ("gpu", gpu) ∈ result.parts ∧
        ("ram", ram) ∈ result.parts ∧
        let answers := replies { workshop with prices } settings cpu gpu ram
        result.priceCharts = answers.filterMap (fun (category, reply) => reply.chart? category) ∧
        ((∀ answer ∈ answers, ∃ points, answer.2 = .series points) →
          result.rationale.count pricesUnavailable = 0) ∧
        ((∃ answer ∈ answers, ∀ points, answer.2 ≠ .series points) →
          result.rationale.count pricesUnavailable = 1) := by
  refine ⟨sameBuild_run cancelled prices others, fun result hrun => ?_⟩
  obtain ⟨rfl, -⟩ := id (run_eq_ok_iff.mp hrun)
  obtain ⟨items, combination, build, -, hoptimum, rfl⟩ := exists_optimum_of_run hrun
  obtain ⟨hcompletes, -⟩ := Evaluation.of?_eq_feasible_iff.mp hoptimum.feasible
  have hdrives : build.assembly.storage.length ≤ storagePicks := by
    rw [hcompletes.storage]
    exact List.length_take_le _ _
  have hlisted : ∀ entry ∈ build.assembly.entries, entry ∈ build.parts := fun entry =>
    (ChosenBuild.parts_perm hdrives).1.mem_iff.mpr
  refine ⟨build.assembly.cpu.item.productId, build.assembly.gpu.item.productId,
    build.assembly.ram.item.productId, hlisted _ ?_, hlisted _ ?_, hlisted _ ?_,
    priceCharts_finish, ?_, ?_⟩
  · simp [Assembly.entries]
  · simp [Assembly.entries]
  · simp [Assembly.entries]
  · intro hall
    rw [count_pricesUnavailable, if_pos (pricesAnswered_iff.mpr hall)]
  · rintro ⟨answer, hanswer, hnone⟩
    have hopen : ¬ pricesAnswered { workshop with prices } settings build = true := by
      intro hall
      obtain ⟨points, hpoints⟩ := pricesAnswered_iff.mp hall answer hanswer
      exact hnone points hpoints
    rw [count_pricesUnavailable, if_neg hopen]

/-- A price service that has a series for processors, fails for graphics cards
    and is too slow for memory. -/
def patchyPrices : PriceService := fun query =>
  match query.category with
  | .cpu => .series [⟨"2026-01-01", .ofInt64 100⟩]
  | .gpu => .failed (.priceHistory query.productId "no such product")
  | _ => .timedOut

/-- With such a service the sample gets one chart and one line for the two that
    are missing. -/
theorem run_independent_of_prices_patchy :
    ∃ result, run { sampleWorkshop with prices := patchyPrices } {} { budget := 800 } false =
        .ok result ∧
      result.priceCharts = [⟨"cpu", [⟨"2026-01-01", .ofInt64 100⟩]⟩] ∧
      result.rationale.count pricesUnavailable = 1 ∧
      SameBuild (.ok result) (run sampleWorkshop {} { budget := 800 } false) := by
  have hbuilt : (run { sampleWorkshop with prices := patchyPrices } {} { budget := 800 }
      false).toOption.any (fun _ => true) = true := by
    decide +kernel
  obtain ⟨result, hrun, -⟩ := exists_result_of_any hbuilt
  obtain ⟨hsame, hanswers⟩ := run_independent_of_prices sampleWorkshop {} { budget := 800 } false
    patchyPrices sampleWorkshop.prices
  rw [hrun] at hsame
  obtain ⟨cpu, gpu, ram, -, -, -, hcharts, -, hnotice⟩ := hanswers result hrun
  refine ⟨result, hrun, hcharts, hnotice ⟨(.ram, .timedOut), ?_, fun _ => nofun⟩, hsame⟩
  exact List.mem_cons_of_mem _ (List.mem_cons_of_mem _ List.mem_cons_self)

end AutoBuild

end PcAssembly
