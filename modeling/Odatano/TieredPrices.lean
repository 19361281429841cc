import Mathlib.Algebra.BigOperators.Intervals
import Mathlib.Algebra.Order.BigOperators.Group.Finset
import Mathlib.Algebra.Order.Field.Basic

/-!
# Tiered prices

Items are priced one by one, and the price is multiplied by a factor after every full tier.
-/

namespace TieredPrice

open Finset

section Field

variable {K : Type*} [Field K] (tier : ℕ) (factor price : K)

/-- The price of item `b`, counted from zero. -/
def item (b : ℕ) : K := price * factor ^ (b / tier)

/-- The price of the first `size` items. -/
def total (size : ℕ) : K := ∑ b ∈ range size, item tier factor price b

theorem total_succ (size : ℕ) :
    total tier factor price (size + 1) =
      total tier factor price size + item tier factor price size :=
  sum_range_succ _ size

variable {tier}

/-- Within the first tier every item has the base price. -/
theorem total_of_le {size : ℕ} (within : size ≤ tier) :
    total tier factor price size = size * price := by
  have base : ∀ b ∈ range size, item tier factor price b = price := by
    intro b member
    have first : b / tier = 0 := Nat.div_eq_of_lt ((mem_range.mp member).trans_le within)
    simp [item, first]
  rw [total, sum_congr rfl base]
  simp

/-- After a full tier the pricing starts again at the raised price. -/
theorem total_add (positive : 0 < tier) (size : ℕ) :
    total tier factor price (tier + size) =
      tier * price + total tier factor (price * factor) size := by
  have later : ∀ b ∈ range size, item tier factor price (tier + b) =
      item tier factor (price * factor) b := by
    intro b _
    simp only [item, Nat.add_div_left b positive, pow_succ', mul_assoc]
  rw [total, sum_range_add, sum_congr rfl later]
  simpa [total] using total_of_le factor price (le_refl tier)

end Field

section Order

variable {K : Type*} [Field K] [LinearOrder K] [IsStrictOrderedRing K] {tier : ℕ} {factor price : K}

theorem item_nonneg (rises : 0 ≤ factor) (nonneg : 0 ≤ price) (b : ℕ) :
    0 ≤ item tier factor price b :=
  mul_nonneg nonneg (pow_nonneg rises _)

theorem total_nonneg (rises : 0 ≤ factor) (nonneg : 0 ≤ price) (size : ℕ) :
    0 ≤ total tier factor price size :=
  sum_nonneg fun b _ => item_nonneg rises nonneg b

theorem total_mono (rises : 0 ≤ factor) (nonneg : 0 ≤ price) :
    Monotone (total tier factor price) := by
  refine monotone_nat_of_le_succ fun size => ?_
  rw [total_succ]
  exact le_add_of_nonneg_right (item_nonneg rises nonneg size)

end Order

end TieredPrice
