import Mathlib.Algebra.BigOperators.Group.List.Basic
import Mathlib.Algebra.Group.Pi.Lemmas
import Mathlib.Algebra.Module.NatInt
import Mathlib.Algebra.Order.Ring.Rat
import Mathlib.Data.List.Induction
import Mathlib.Tactic.Abel
import Mathlib.Tactic.Ring
import PcAssembly.Proofs.List.FailingMap
import PcAssembly.Proofs.Number.Exact
import PcAssembly.Weights

/-! # What priority tags add up to

    Every tag adds its own adjustment to the weights, whatever the tags before
    it were.  So the weights are the base weights and a sum, and a sum does not
    depend on the order of its summands: all that counts is how often each of
    the three priorities is named (`adjustments_eq`).  Summed in doubles, tag by
    tag, the weights are the same as long as they stay below 2 ^ 53 halves,
    since no such sum is rounded (`summed_eq`). -/

namespace PcAssembly

/-! ## Weights can be added -/

namespace Weight

/-- The weight as a rational number. -/
def value (weight : Weight) : ℚ := weight.halves / 2

/-- A weight is known by the number of its halves. -/
theorem ext_halves {x y : Weight} (h : x.halves = y.halves) : x = y := by
  cases x
  cases y
  exact congrArg Weight.mk h

instance : Zero Weight := ⟨whole 0⟩

@[simp] theorem halves_zero : (0 : Weight).halves = 0 := rfl

@[simp] theorem halves_whole (n : Int) : (whole n).halves = 2 * n := rfl

@[simp] theorem halves_add (x y : Weight) : (x + y).halves = x.halves + y.halves := rfl

instance : AddCommMonoid Weight where
  add_assoc _ _ _ := ext_halves (Int.add_assoc ..)
  zero_add _ := ext_halves (Int.zero_add _)
  add_zero _ := ext_halves (Int.add_zero _)
  add_comm _ _ := ext_halves (Int.add_comm ..)
  nsmul := nsmulRec

@[simp] theorem value_whole (n : Int) : (whole n).value = n := by
  rw [value, halves_whole, Int.cast_mul, Int.cast_ofNat, mul_div_cancel_left₀ _ two_ne_zero]

/-- The value of a sum is the sum of the values. -/
theorem value_add (x y : Weight) : (x + y).value = x.value + y.value := by
  rw [value, value, value, halves_add, Int.cast_add, add_div]

/-! ### Weights as doubles -/

section Doubles

variable {x y : Weight}

/-- A weight with few halves is a double exactly. -/
theorem toFloat_eq (h : x.halves.natAbs < 2 ^ 53) : x.toFloat = Binary64.dyadic x.halves (-1) := by
  rw [toFloat, Binary64.ofInt_eq_dyadic h, Binary64.half_dyadic h]

/-- Few halves are added in doubles without any error. -/
theorem toFloat_add (hx : x.halves.natAbs < 2 ^ 53) (hy : y.halves.natAbs < 2 ^ 53)
    (hsum : (x + y).halves.natAbs < 2 ^ 53) : (x + y).toFloat = x.toFloat + y.toFloat := by
  rw [toFloat_eq hx, toFloat_eq hy, toFloat_eq hsum, halves_add,
    Binary64.dyadic_add (.ofHalves hx) (.ofHalves hy) (.ofHalves hsum)]

/-- The double of a weight stands for its value. -/
theorem value?_toFloat (h : x.halves.natAbs < 2 ^ 53) :
    Binary64.value? x.toFloat = some x.value := by
  rw [toFloat_eq h, (Binary64.IsExact.ofHalves h).value?_dyadic, value, zpow_neg_one,
    div_eq_mul_inv]

end Doubles

end Weight

namespace Weights

/-- Weights are known by the weight of each category. -/
theorem ext_of {x y : Weights} (h : ∀ category, x.of category = y.of category) : x = y := by
  obtain ⟨cpu, ram, gpu, storage⟩ := x
  obtain ⟨cpu', ram', gpu', storage'⟩ := y
  obtain rfl : cpu = cpu' := h .cpu
  obtain rfl : ram = ram' := h .ram
  obtain rfl : gpu = gpu' := h .gpu
  obtain rfl : storage = storage' := h .storage
  rfl

instance : Zero Weights := ⟨zero⟩

theorem of_zero (category : Category) : (0 : Weights).of category = 0 := by
  cases category <;> rfl

/-- Weights are added category by category. -/
theorem of_add (x y : Weights) (category : Category) :
    (x + y).of category = x.of category + y.of category := by
  cases category <;> rfl

instance : AddCommMonoid Weights where
  add_assoc x y z := ext_of fun category => by simp only [of_add, add_assoc]
  zero_add x := ext_of fun category => by rw [of_add, of_zero, zero_add]
  add_zero x := ext_of fun category => by rw [of_add, of_zero, add_zero]
  add_comm x y := ext_of fun category => by simp only [of_add, add_comm]
  nsmul := nsmulRec

/-- The weights of all categories as rational numbers. -/
def values : Weights →+ (Category → ℚ) where
  toFun weights category := (weights.of category).value
  map_zero' := by
    funext category
    rw [of_zero]
    simp [Weight.value]
  map_add' x y := by
    funext category
    rw [of_add, Weight.value_add, Pi.add_apply]

/-! ## Tags -/

/-- What all tags of a list add together. -/
def adjustments (tags : List String) : Weights := (tags.map adjustment).sum

/-- The first tag adds what it adds alone. -/
theorem adjustments_cons (tag : String) (tags : List String) :
    adjustments (tag :: tags) = adjustment tag + adjustments tags := by
  rw [adjustments, List.map_cons, List.sum_cons, adjustments]

/-- Adding tags one at a time adds what they add together. -/
theorem foldl_adjustment (weights : Weights) (tags : List String) :
    tags.foldl (fun weights tag => weights + adjustment tag) weights =
      weights + adjustments tags := by
  induction tags generalizing weights with
  | nil => exact (add_zero weights).symm
  | cons tag tags ih =>
      rw [List.foldl_cons, ih, adjustments_cons, add_assoc]

/-- The weights of tags are the base and what the tags add. -/
theorem ofTags_eq (tags : List String) : ofTags tags = base + adjustments tags :=
  foldl_adjustment base tags

/-- A repeated tag counts each time. -/
theorem adjustments_replicate (n : ℕ) (tag : String) :
    adjustments (List.replicate n tag) = n • adjustment tag := by
  rw [adjustments, List.map_replicate, List.sum_replicate]

/-- Lists of tags one behind the other add what each of them adds. -/
theorem adjustments_append (xs ys : List String) :
    adjustments (xs ++ ys) = adjustments xs + adjustments ys := by
  rw [adjustments, List.map_append, List.sum_append, adjustments, adjustments]

namespace Priority

/-- The tag is the word of the priority, but for blanks around it and the case
    of its letters. -/
def isNamedBy (priority : Priority) (tag : String) : Bool :=
  Text.lowered (Text.trimmed tag) == priority.word

/-- How many tags name the priority. -/
def count (priority : Priority) (tags : List String) : Nat :=
  tags.countP priority.isNamedBy

/-- A tag stands for the priority that it names. -/
theorem ofTag?_eq_some_iff {tag : String} {priority : Priority} :
    ofTag? tag = some priority ↔ priority.isNamedBy tag = true := by
  rw [isNamedBy, beq_iff_eq, ofTag?]
  exact find?_word_eq_some_iff fun priority => by cases priority <;> rfl

/-- What a tag adds is said by the priority that it names. -/
theorem adjustment_eq (tag : String) :
    Weights.adjustment tag = gaming.count [tag] • gaming.adjustment +
      office.count [tag] • office.adjustment + silent.count [tag] • silent.adjustment := by
  have hnamed (priority : Priority) :
      priority.count [tag] = if ofTag? tag = some priority then 1 else 0 := by
    simp only [count, List.countP_singleton, ofTag?_eq_some_iff]
  rw [hnamed, hnamed, hnamed, Weights.adjustment]
  cases ofTag? tag with
  | none => simp; rfl
  | some priority => cases priority <;> simp

/-- Tags that name a priority are counted one at a time. -/
theorem count_cons (priority : Priority) (tag : String) (tags : List String) :
    priority.count (tag :: tags) = priority.count [tag] + priority.count tags := by
  rw [count, count, count, ← List.singleton_append, List.countP_append]

end Priority

/-- **Only the counts matter.** -/
theorem adjustments_eq (tags : List String) :
    adjustments tags = Priority.gaming.count tags • Priority.gaming.adjustment +
      Priority.office.count tags • Priority.office.adjustment +
      Priority.silent.count tags • Priority.silent.adjustment := by
  induction tags with
  | nil => simp [adjustments, Priority.count]
  | cons tag tags ih =>
      simp only [adjustments_cons, Priority.adjustment_eq, ih, Priority.count_cons _ tag tags,
        add_nsmul]
      abel

/-- The order of tags does not matter for what they add. -/
theorem adjustments_eq_of_perm {tags tags' : List String} (h : tags.Perm tags') :
    adjustments tags = adjustments tags' :=
  (h.map adjustment).sum_eq

/-- A tag that names no priority adds nothing. -/
theorem adjustment_of_not_isNamedBy {tag : String}
    (h : ∀ priority : Priority, priority.isNamedBy tag = false) : adjustment tag = 0 := by
  have hnone : Priority.ofTag? tag = none := by
    refine Option.eq_none_iff_forall_ne_some.mpr fun priority hpriority => ?_
    rw [Priority.ofTag?_eq_some_iff, h priority] at hpriority
    cases hpriority
  rw [adjustment, hnone]
  rfl

/-! ## In numbers -/

/-- What a priority adds to each category. -/
def Priority.share : Priority → Category → ℚ
  | .gaming, .gpu => 2
  | .gaming, .cpu => 1
  | .office, .cpu => 2
  | .office, .storage => 1
  | .silent, .gpu => -1
  | .silent, .cpu => -1 / 2
  | _, _ => 0

/-- A priority adds its share to every category. -/
theorem values_adjustment (priority : Priority) (category : Category) :
    values priority.adjustment category = priority.share category := by
  have hvalue : values priority.adjustment category = (priority.adjustment.of category).value := rfl
  have hhalf : (⟨-1⟩ : Weight).value = -1 / 2 := by simp [Weight.value]
  rw [hvalue]
  cases priority <;> cases category <;>
    simp [of, Priority.adjustment, zero, Priority.share, hhalf]

/-- What a category counts without any priority. -/
def baseShare : Category → ℚ
  | .cpu => 4
  | .ram => 2
  | .gpu => 5
  | .storage => 2
  | _ => 0

/-- The base has these shares. -/
theorem values_base (category : Category) : values base category = baseShare category := by
  have hvalue : values base category = (base.of category).value := rfl
  rw [hvalue]
  cases category <;> simp [of, base, baseShare]

/-- A weight is a base and a share for every tag that names a priority. -/
theorem value_ofTags (tags : List String) (category : Category) :
    ((ofTags tags).of category).value = baseShare category +
      (Priority.gaming.count tags * Priority.gaming.share category +
        Priority.office.count tags * Priority.office.share category +
        Priority.silent.count tags * Priority.silent.share category) := by
  have hvalue : ((ofTags tags).of category).value = values (ofTags tags) category := rfl
  rw [hvalue, ofTags_eq, adjustments_eq, map_add, map_add, map_add, map_nsmul, map_nsmul,
    map_nsmul, Pi.add_apply, Pi.add_apply, Pi.add_apply, Pi.smul_apply, Pi.smul_apply,
    Pi.smul_apply, nsmul_eq_mul, nsmul_eq_mul, nsmul_eq_mul, values_base, values_adjustment,
    values_adjustment, values_adjustment]

/-! ## In doubles -/

/-- A tag changes a weight by two at most. -/
theorem natAbs_halves_adjustment_le (tag : String) (category : Category) :
    ((adjustment tag).of category).halves.natAbs ≤ 4 := by
  rw [adjustment]
  cases Priority.ofTag? tag with
  | none => cases category <;> decide
  | some priority => cases priority <;> cases category <;> decide

/-- One tag changes no weight by more than four halves. -/
theorem natAbs_halves_add_adjustment_le (weights : Weights) (tag : String) (category : Category) :
    ((weights + adjustment tag).of category).halves.natAbs ≤
      (weights.of category).halves.natAbs + 4 := by
  have htag := natAbs_halves_adjustment_le tag category
  have hsum := Int.natAbs_add_le (weights.of category).halves ((adjustment tag).of category).halves
  rw [of_add, Weight.halves_add]
  omega

/-- The last tag is added last. -/
theorem ofTags_concat (tags : List String) (tag : String) :
    ofTags (tags ++ [tag]) = ofTags tags + adjustment tag :=
  List.foldl_concat ..

/-- With `n` tags no weight is beyond `5 + 2 * n`. -/
theorem natAbs_halves_ofTags_le (tags : List String) (category : Category) :
    ((ofTags tags).of category).halves.natAbs ≤ 10 + 4 * tags.length := by
  induction tags using List.reverseRecOn with
  | nil => cases category <;> decide
  | append_singleton tags tag ih =>
      have hlast := natAbs_halves_add_adjustment_le (ofTags tags) tag category
      rw [ofTags_concat, List.length_append, List.length_singleton]
      omega

/-- The weight of a category, summed tag by tag in doubles; a tag that does not
    concern the category adds zero. -/
def summed (tags : List String) (category : Category) : Float :=
  tags.foldl (fun sum tag => sum + ((adjustment tag).of category).toFloat)
    (base.of category).toFloat

/-- The last tag is added last in doubles too. -/
theorem summed_concat (tags : List String) (tag : String) (category : Category) :
    summed (tags ++ [tag]) category =
      summed tags category + ((adjustment tag).of category).toFloat :=
  List.foldl_concat ..

/-- **Nothing is rounded** while the tags are fewer than 2 ^ 50. -/
theorem summed_eq {tags : List String} (h : tags.length < 2 ^ 50) (category : Category) :
    summed tags category = ((ofTags tags).of category).toFloat := by
  induction tags using List.reverseRecOn with
  | nil => rfl
  | append_singleton tags tag ih =>
      rw [List.length_append, List.length_singleton] at h
      have hfront := natAbs_halves_ofTags_le tags category
      have htag := natAbs_halves_adjustment_le tag category
      have hall := natAbs_halves_add_adjustment_le (ofTags tags) tag category
      rw [of_add] at hall
      rw [ofTags_concat, summed_concat, ih (by omega), of_add,
        Weight.toFloat_add (by omega) (by omega) (by omega)]

/-- Few tags are summed in doubles to the very value of their weights. -/
theorem value?_summed {tags : List String} (h : tags.length < 2 ^ 50) (category : Category) :
    Binary64.value? (summed tags category) = some ((ofTags tags).of category).value := by
  have hle := natAbs_halves_ofTags_le tags category
  rw [summed_eq h, Weight.value?_toFloat (by omega)]

/-- **Priority tags add up, in any order.** With `g`, `o` and `s` tags that name
    gaming, office and silent, but for blanks around the word and the case of its
    letters, the weights are sums of a base and of shares of these three numbers
    (`value_ofTags`), and the four categories that count have the values given
    here.  So the tags may be put in another order, those that name no priority
    may be left out, each repetition counts again, and lists of tags one behind
    the other add what each of them adds.  Fewer than 2 ^ 50 tags may as
    well be summed in doubles, which then stand for just these numbers. -/
theorem ofTags_additive :
    (∀ tags : List String,
      let g : ℚ := Priority.gaming.count tags
      let o : ℚ := Priority.office.count tags
      let s : ℚ := Priority.silent.count tags
      ((ofTags tags).of .gpu).value = 5 + 2 * g - s ∧
        ((ofTags tags).of .cpu).value = 4 + g + 2 * o - s / 2 ∧
        ((ofTags tags).of .ram).value = 2 ∧
        ((ofTags tags).of .storage).value = 2 + o ∧
        ∀ category ∉ [Category.gpu, .cpu, .ram, .storage],
          ((ofTags tags).of category).value = 0) ∧
    (∀ tags tags' : List String, tags.Perm tags' → ofTags tags = ofTags tags') ∧
    (∀ (before after : List String) (tag : String),
      (∀ priority : Priority, priority.isNamedBy tag = false) →
        ofTags (before ++ tag :: after) = ofTags (before ++ after)) ∧
    (∀ (tags : List String) (n : ℕ) (tag : String),
      ofTags (tags ++ List.replicate n tag) = ofTags tags + n • adjustment tag) ∧
    (∀ tags : List String, ofTags tags = base + adjustments tags) ∧
    (∀ xs ys : List String, adjustments (xs ++ ys) = adjustments xs + adjustments ys) ∧
    ∀ tags : List String, tags.length < 2 ^ 50 → ∀ category : Category,
      summed tags category = ((ofTags tags).of category).toFloat ∧
        Binary64.value? (summed tags category) = some ((ofTags tags).of category).value := by
  refine ⟨fun tags => ⟨?_, ?_, ?_, ?_, fun category hcategory => ?_⟩, fun tags tags' hperm => ?_,
    fun before after tag htag => ?_, fun tags n tag => ?_, ofTags_eq, adjustments_append,
    fun tags htags category => ⟨summed_eq htags category, value?_summed htags category⟩⟩
  · rw [value_ofTags]
    simp only [baseShare, Priority.share]
    ring
  · rw [value_ofTags]
    simp only [baseShare, Priority.share]
    ring
  · rw [value_ofTags]
    simp only [baseShare, Priority.share]
    ring
  · rw [value_ofTags]
    simp only [baseShare, Priority.share]
    ring
  · rw [value_ofTags]
    cases category <;> simp [baseShare, Priority.share] at hcategory ⊢
  · rw [ofTags_eq, ofTags_eq, adjustments_eq_of_perm hperm]
  · rw [ofTags_eq, ofTags_eq, adjustments_append, adjustments_cons,
      adjustment_of_not_isNamedBy htag, zero_add, adjustments_append]
  · rw [ofTags_eq, ofTags_eq, adjustments_append, adjustments_replicate, add_assoc]

/-- One of three tags names no priority, and the two others may change places.
    Their sum in doubles stands for four and a half. -/
theorem ofTags_additive_untidy :
    ofTags ["silent", " GAMING ", "fast"] = ofTags [" GAMING ", "silent"] ∧
      Binary64.value? (summed ["silent", " GAMING ", "fast"] .cpu) = some (9 / 2) := by
  obtain ⟨-, hperm, hinert, -, -, -, hsummed⟩ := ofTags_additive
  have hfast : ∀ priority : Priority, priority.isNamedBy "fast" = false := by
    intro priority
    cases priority <;> decide
  have hdropped : ofTags ["silent", " GAMING ", "fast"] = ofTags ["silent", " GAMING "] :=
    hinert ["silent", " GAMING "] [] "fast" hfast
  have hvalue : ((ofTags ["silent", " GAMING ", "fast"]).of .cpu).value = 9 / 2 := by
    have hhalves : ((ofTags ["silent", " GAMING ", "fast"]).of .cpu).halves = 9 := by decide +kernel
    rw [Weight.value, hhalves]
    norm_num
  refine ⟨hdropped.trans (hperm _ _ (List.Perm.swap ..)), ?_⟩
  rw [(hsummed ["silent", " GAMING ", "fast"] (by decide) .cpu).2, hvalue]

example : (ofTags ["silent", " GAMING ", "fast"]).toText = "cpu=4.5, ram=2, gpu=6, storage=2" := by
  cbv

end Weights

end PcAssembly
