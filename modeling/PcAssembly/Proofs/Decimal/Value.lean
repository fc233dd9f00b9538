import Mathlib.Algebra.Order.Field.Basic
import Mathlib.Algebra.Order.Field.Rat
import Mathlib.Tactic.FieldSimp
import Mathlib.Tactic.Linarith
import Mathlib.Tactic.NormNum
import Mathlib.Tactic.Positivity
import Mathlib.Tactic.Ring
import PcAssembly.Decimal.Basic

/-! # The value of an amount

    An amount stands for a rational number.  The comparisons of amounts are
    those of their values, so everything that is said about prices and budgets
    can be said about numbers. -/

namespace PcAssembly.Decimal

/-- The number that an amount stands for. -/
def value (x : Decimal) : ℚ := x.coefficient / 10 ^ x.scale

theorem lt_iff {x y : Decimal} : x.lt y = true ↔ x.value < y.value := by
  rw [value, value, div_lt_div_iff₀ (by positivity) (by positivity)]
  simp only [lt, decide_eq_true_eq, Nat.pow_eq]
  exact_mod_cast Iff.rfl

theorem le_iff {x y : Decimal} : x.le y = true ↔ x.value ≤ y.value := by
  rw [value, value, div_le_div_iff₀ (by positivity) (by positivity)]
  simp only [le, decide_eq_true_eq, Nat.pow_eq]
  exact_mod_cast Iff.rfl

theorem lt_eq_false_iff {x y : Decimal} : x.lt y = false ↔ y.value ≤ x.value := by
  rw [← not_lt, ← lt_iff, Bool.not_eq_true]

@[simp] theorem value_zero : zero.value = 0 := by
  simp [value, zero]

@[simp] theorem value_ofInt64 (n : Int64) : (ofInt64 n).value = n.toInt := by
  simp [value, ofInt64]

end PcAssembly.Decimal
