import PcAssembly.Proofs.Decimal.Sum

/-! # Adding up a bill

    The prices of a bill are added two at a time, in an order that the bill
    fixes: it is a tree with the prices at its leaves.  Every addition may
    round and may overflow.  Here this is compared with the exact sum of the
    prices, by induction on the tree: when there is a total, how far it is
    off, and which bills are added up exactly. -/

namespace PcAssembly

/-- Prices and the order in which they are added. -/
inductive Bill where
  | price (amount : Decimal)
  | both (left right : Bill)

namespace Bill

/-- The total that the bill is added up to, if nothing overflows. -/
def total? : Bill → Option Decimal
  | price amount => some amount
  | both left right => do (← left.total?).add? (← right.total?)

/-- The exact sum of the prices. -/
def due : Bill → ℚ
  | price amount => amount.value
  | both left right => left.due + right.due

/-- The prices without their signs, summed exactly. -/
def magnitude : Bill → ℚ
  | price amount => |amount.value|
  | both left right => left.magnitude + right.magnitude

/-- The prices of the bill. -/
def prices : Bill → List Decimal
  | price amount => [amount]
  | both left right => left.prices ++ right.prices

/-- The longest chain of additions. -/
def depth : Bill → Nat
  | price _ => 0
  | both left right => max left.depth right.depth + 1

/-- Somewhere two amounts have to be added whose sum is too large. -/
def Overflows : Bill → Prop
  | price _ => False
  | both left right => left.Overflows ∨ right.Overflows ∨
      ∃ x y, left.total? = some x ∧ right.total? = some y ∧
        Decimal.overflowBound ≤ |x.value + y.value|

/-- The bill with more prices, added one after the other. -/
def followedBy (bill : Bill) (amounts : List Decimal) : Bill :=
  amounts.foldl (fun bill amount => both bill (price amount)) bill

/-- Two bills have a total if both do and their sum does. -/
theorem total?_both_eq_some_iff {left right : Bill} {total : Decimal} :
    (both left right).total? = some total ↔
      ∃ x y, left.total? = some x ∧ right.total? = some y ∧ x.add? y = some total := by
  simp only [total?, Option.bind_eq_bind, Option.bind_eq_some_iff, exists_and_left]

/-- **There is no total exactly if some addition overflows.** -/
theorem total?_eq_none_iff (bill : Bill) : bill.total? = none ↔ bill.Overflows := by
  induction bill with
  | price amount => simp [total?, Overflows]
  | both left right ihLeft ihRight =>
      rw [Overflows, ← ihLeft, ← ihRight, total?]
      cases hleft : left.total? with
      | none => simp
      | some x =>
          cases hright : right.total? with
          | none => simp
          | some y => simp [Decimal.add?_eq_none_iff]

/-- Without their signs prices come to no less. -/
theorem abs_due_le_magnitude (bill : Bill) : |bill.due| ≤ bill.magnitude := by
  induction bill with
  | price amount => exact le_refl _
  | both left right ihLeft ihRight =>
      exact le_trans (abs_add_le _ _) (add_le_add ihLeft ihRight)

/-- Prices without their signs come to nothing negative. -/
theorem magnitude_nonneg (bill : Bill) : 0 ≤ bill.magnitude :=
  le_trans (abs_nonneg _) bill.abs_due_le_magnitude

/-! ## Prices one after the other -/

/-- **What further prices do to a quantity of a bill**, if it is known what the
    first of them does. -/
theorem measure_followedBy {α : Type} (measure : Bill → α) (combine : α → List Decimal → α)
    (hnil : ∀ bill, combine (measure bill) [] = measure bill)
    (hcons : ∀ bill amount amounts,
      combine (measure (both bill (price amount))) amounts =
        combine (measure bill) (amount :: amounts))
    (bill : Bill) (amounts : List Decimal) :
    measure (bill.followedBy amounts) = combine (measure bill) amounts := by
  induction amounts generalizing bill with
  | nil => exact (hnil bill).symm
  | cons amount amounts ih =>
      exact (ih (both bill (price amount))).trans (hcons bill amount amounts)

/-- Prices are added one at a time, until one overflows. -/
theorem total?_followedBy (bill : Bill) (amounts : List Decimal) :
    (bill.followedBy amounts).total? =
      bill.total?.bind fun start => amounts.foldlM Decimal.add? start :=
  measure_followedBy total? (fun start amounts => start.bind fun x => amounts.foldlM Decimal.add? x)
    (by simp) (by simp [total?, Option.bind_assoc]) bill amounts

/-- Further prices are due in addition. -/
theorem due_followedBy (bill : Bill) (amounts : List Decimal) :
    (bill.followedBy amounts).due = bill.due + (amounts.map Decimal.value).sum :=
  measure_followedBy due (fun start amounts => start + (amounts.map Decimal.value).sum)
    (by simp) (by simp [due, add_assoc]) bill amounts

/-- Further prices are added without their signs too. -/
theorem magnitude_followedBy (bill : Bill) (amounts : List Decimal) :
    (bill.followedBy amounts).magnitude =
      bill.magnitude + (amounts.map fun amount => |amount.value|).sum :=
  measure_followedBy magnitude
    (fun start amounts => start + (amounts.map fun amount => |amount.value|).sum)
    (by simp) (by simp [magnitude, add_assoc]) bill amounts

/-- Further prices come behind those that are there. -/
theorem prices_followedBy (bill : Bill) (amounts : List Decimal) :
    (bill.followedBy amounts).prices = bill.prices ++ amounts :=
  measure_followedBy prices (· ++ ·) (by simp) (by simp [prices]) bill amounts

/-- Every price makes the chain of additions longer by one. -/
theorem depth_followedBy (bill : Bill) (amounts : List Decimal) :
    (bill.followedBy amounts).depth = bill.depth + amounts.length :=
  measure_followedBy depth (fun start amounts => start + amounts.length) (by simp)
    (by simp [depth, add_assoc, add_comm]) bill amounts

/-! ## Bills that are added up exactly -/

/-- **A bill is added up exactly** if its prices have so few places, and are so
    small together, that the coefficient of their sum always fits. -/
theorem exists_total_of_fits {bill : Bill} {places : Nat}
    (hplaces : ∀ amount ∈ bill.prices, amount.scale ≤ places)
    (hfits : bill.magnitude * 10 ^ places < Decimal.overflowBound) :
    ∃ total, bill.total? = some total ∧ total.value = bill.due ∧ total.scale ≤ places := by
  induction bill with
  | price amount => exact ⟨amount, rfl, rfl, hplaces amount (List.mem_singleton.mpr rfl)⟩
  | both left right ihLeft ihRight =>
      have hpow : (0 : ℚ) < 10 ^ places := by positivity
      have hsum : (left.magnitude + right.magnitude) * 10 ^ places < Decimal.overflowBound := hfits
      have hleft : left.magnitude * 10 ^ places < Decimal.overflowBound := by
        have := mul_nonneg right.magnitude_nonneg hpow.le
        linarith
      have hright : right.magnitude * 10 ^ places < Decimal.overflowBound := by
        have := mul_nonneg left.magnitude_nonneg hpow.le
        linarith
      obtain ⟨x, hx, hxDue, hxPlaces⟩ :=
        ihLeft (fun amount h => hplaces amount (List.mem_append_left _ h)) hleft
      obtain ⟨y, hy, hyDue, hyPlaces⟩ :=
        ihRight (fun amount h => hplaces amount (List.mem_append_right _ h)) hright
      -- the parts are exact, so their sum is as small as the whole bill
      have hdue : |x.value + y.value| ≤ left.magnitude + right.magnitude := by
        rw [hxDue, hyDue]
        exact (both left right).abs_due_le_magnitude
      have hnumber : |x.value + y.value| * 10 ^ places < Decimal.overflowBound :=
        lt_of_le_of_lt (mul_le_mul_of_nonneg_right hdue hpow.le) hsum
      have hwhole : |x.value + y.value| < Decimal.overflowBound :=
        lt_of_le_of_lt (le_mul_of_one_le_right (abs_nonneg _) (one_le_pow₀ (by norm_num))) hnumber
      have hsome : x.add? y ≠ none := fun hnone =>
        absurd (Decimal.add?_eq_none_iff.mp hnone) (not_le.mpr hwhole)
      obtain ⟨z, hz⟩ := Option.ne_none_iff_exists'.mp hsome
      have hrounded := Decimal.isRounded_of_add? hz
      have hfewer : (10 : ℚ) ^ max x.scale y.scale ≤ 10 ^ places :=
        pow_le_pow_right₀ (by norm_num) (max_le hxPlaces hyPlaces)
      have hvalue : z.value = x.value + y.value :=
        hrounded.exact_of_fits
          (lt_of_le_of_lt (mul_le_mul_of_nonneg_left hfewer (abs_nonneg _)) hnumber)
      refine ⟨z, total?_both_eq_some_iff.mpr ⟨x, y, hx, hy, hz⟩, ?_,
        le_trans hrounded.scale_le (max_le hxPlaces hyPlaces)⟩
      rw [hvalue, hxDue, hyDue]
      rfl

/-! ## How far a total is off -/

/-- The relative error that this many additions one after the other can
    reach. -/
def drift (depth : Nat) : ℚ := (1 + 1 / 10 ^ 28) ^ depth - 1

/-- More additions can be further off. -/
theorem drift_mono {fewer depth : Nat} (h : fewer ≤ depth) : drift fewer ≤ drift depth := by
  have hpow : (1 + 1 / 10 ^ 28 : ℚ) ^ fewer ≤ (1 + 1 / 10 ^ 28) ^ depth :=
    pow_le_pow_right₀ (by norm_num) h
  show (1 + 1 / 10 ^ 28 : ℚ) ^ fewer - 1 ≤ (1 + 1 / 10 ^ 28) ^ depth - 1
  linarith

/-- One addition more is off by one part in ten to the twenty-eighth more. -/
theorem drift_succ (depth : Nat) :
    drift (depth + 1) = drift depth + (1 + drift depth) / 10 ^ 28 := by
  rw [drift, drift, pow_succ]
  ring

/-- **A total is off by little**: the error of every addition is relative to
    the sum, so that of the total is relative to the prices without their
    signs. -/
theorem abs_total_sub_due_le {bill : Bill} {total : Decimal} (h : bill.total? = some total) :
    |total.value - bill.due| ≤ drift bill.depth * bill.magnitude := by
  induction bill generalizing total with
  | price amount =>
      have heq : amount = total := Option.some.inj h
      simp [heq, due, drift, depth]
  | both left right ihLeft ihRight =>
      obtain ⟨x, y, hx, hy, hz⟩ := total?_both_eq_some_iff.mp h
      have hleft : |x.value - left.due| ≤ drift (max left.depth right.depth) * left.magnitude :=
        le_trans (ihLeft hx)
          (mul_le_mul_of_nonneg_right (drift_mono (le_max_left _ _)) left.magnitude_nonneg)
      have hright : |y.value - right.due| ≤ drift (max left.depth right.depth) * right.magnitude :=
        le_trans (ihRight hy)
          (mul_le_mul_of_nonneg_right (drift_mono (le_max_right _ _)) right.magnitude_nonneg)
      have hlast := (Decimal.isRounded_of_add? hz).abs_sub_le_mul
      have hdue := (both left right).abs_due_le_magnitude
      simp only [due, magnitude, depth, drift_succ] at *
      generalize drift (max left.depth right.depth) = drifted at *
      generalize left.magnitude = leftMagnitude at *
      generalize right.magnitude = rightMagnitude at *
      -- what the two parts are off together
      have hterms : |x.value + y.value - (left.due + right.due)| ≤
          drifted * (leftMagnitude + rightMagnitude) := by
        calc |x.value + y.value - (left.due + right.due)|
            = |(x.value - left.due) + (y.value - right.due)| := by
              congr 1
              ring
          _ ≤ |x.value - left.due| + |y.value - right.due| := abs_add_le _ _
          _ ≤ drifted * (leftMagnitude + rightMagnitude) := by linarith
      -- the last addition is off relative to what it really adds
      have hnumber : |x.value + y.value| ≤ (1 + drifted) * (leftMagnitude + rightMagnitude) := by
        calc |x.value + y.value|
            = |(x.value + y.value - (left.due + right.due)) + (left.due + right.due)| := by
              congr 1
              ring
          _ ≤ |x.value + y.value - (left.due + right.due)| + |left.due + right.due| :=
              abs_add_le _ _
          _ ≤ (1 + drifted) * (leftMagnitude + rightMagnitude) := by linarith
      calc |total.value - (left.due + right.due)|
          ≤ |total.value - (x.value + y.value)| + |x.value + y.value - (left.due + right.due)| :=
            abs_sub_le _ _ _
        _ ≤ |x.value + y.value| / 10 ^ 28 + drifted * (leftMagnitude + rightMagnitude) :=
            add_le_add hlast hterms
        _ ≤ (drifted + (1 + drifted) / 10 ^ 28) * (leftMagnitude + rightMagnitude) := by
            linarith

end Bill

end PcAssembly
