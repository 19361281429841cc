import Mathlib.Data.Int.Basic
import Mathlib.Data.Nat.Log
import Mathlib.Tactic.Ring

/-!
# JavaScript numbers

Doubles without `NaN`.  A finite one is a whole number of units of `2 ^ -1074`, the distance
between the smallest doubles.
-/

/-- A double other than `NaN`. -/
inductive Binary64
  | finite (units : Int)
  | infinite (negative : Bool)
deriving DecidableEq

namespace Binary64

/-- A unit is this power of one half. -/
@[irreducible] def unitExponent : Nat := 179 * 6

/-- How many units are one. -/
@[irreducible] def unitsPerOne : Nat := (2 ^ 179) ^ 6

theorem unitsPerOne_eq : unitsPerOne = 2 ^ unitExponent := by
  rw [unitsPerOne, unitExponent, Nat.pow_mul]

theorem unitsPerOne_pos : 0 < unitsPerOne := by
  rw [unitsPerOne_eq]
  exact Nat.two_pow_pos _

/-- The units of `2 ^ 1024`, which is above all doubles. -/
@[irreducible] def overflow : Nat := (2 ^ 256) ^ 4 * unitsPerOne

/-- The number that is an integer. -/
def ofInt (value : Int) : Binary64 := .finite (value * unitsPerOne)

theorem ofInt_injective : Function.Injective ofInt := by
  intro first second same
  have positive : (unitsPerOne : Int) ≠ 0 := Int.natCast_ne_zero.mpr unitsPerOne_pos.ne'
  exact Int.eq_of_mul_eq_mul_right positive (Binary64.finite.inj same)

/-- The integer that a number is, if `Number.isInteger` holds; `BigInt` of the number. -/
def integer? : Binary64 → Option Int
  | .finite units => if units % unitsPerOne = 0 then some (units / unitsPerOne) else none
  | .infinite _ => none

@[simp] theorem integer?_ofInt (value : Int) : (ofInt value).integer? = some value := by
  have positive : (unitsPerOne : Int) ≠ 0 := Int.natCast_ne_zero.mpr unitsPerOne_pos.ne'
  simp only [ofInt, integer?, Int.mul_emod_left, if_pos, Int.mul_ediv_cancel _ positive]

theorem eq_ofInt_of_integer? {number : Binary64} {value : Int}
    (isInteger : number.integer? = some value) : number = ofInt value := by
  cases number with
  | infinite negative => cases isInteger
  | finite units =>
      rw [integer?] at isInteger
      split at isInteger
      · rename_i whole
        cases isInteger
        rw [ofInt, Int.ediv_mul_cancel (Int.dvd_of_emod_eq_zero whole)]
      · cases isInteger

def isNegative : Binary64 → Bool
  | .finite units => decide (units < 0)
  | .infinite negative => negative

/-- The number with the other sign. -/
def negated : Binary64 → Binary64
  | .finite units => .finite (-units)
  | .infinite negative => .infinite !negative

/-- The distance between the doubles near a count of units: 53 significant bits. -/
def ulp (units : Nat) : Nat := if units < 2 ^ 53 then 1 else 2 ^ (Nat.log2 units - 52)

theorem ulp_pos (units : Nat) : 0 < ulp units := by
  unfold ulp
  split
  · exact Nat.one_pos
  · exact Nat.two_pow_pos _

/-- The double nearest to a ratio, the even one of two. -/
def nearest (num den : Nat) : Binary64 :=
  let scaled := num * unitsPerOne
  let step := ulp (scaled / den)
  let below := scaled / (den * step)
  let rest := scaled % (den * step)
  let rounded :=
    if 2 * rest < den * step ∨ 2 * rest = den * step ∧ below % 2 = 0 then below else below + 1
  if overflow ≤ rounded * step then .infinite false
  else .finite (rounded * step : Nat)

/-- A count of units with at most 53 significant bits is read exactly. -/
theorem nearest_eq_ofInt {value : Nat} (whole : ulp (value * unitsPerOne) ∣ value * unitsPerOne)
    (fits : ¬overflow ≤ value * unitsPerOne) : nearest value 1 = ofInt value := by
  have exactly := Nat.div_mul_cancel whole
  have noRest := Nat.mod_eq_zero_of_dvd whole
  have positive := ulp_pos (value * unitsPerOne)
  unfold nearest
  simp only [Nat.div_one, Nat.one_mul, noRest, Nat.mul_zero, positive, true_or, if_true, exactly,
    fits, if_false]
  rw [ofInt, Int.natCast_mul]

/-- Naturals below `2 ^ 53` are doubles. -/
theorem nearest_natCast {value : Nat} (small : value < 2 ^ 53) : nearest value 1 = ofInt value := by
  refine nearest_eq_ofInt ?_ ?_
  · unfold ulp
    split
    · exact Nat.one_dvd _
    · rename_i large
      refine Dvd.dvd.mul_left ?_ _
      have nonzero : value * unitsPerOne ≠ 0 := by
        intro zero
        rw [zero] at large
        exact large (Nat.two_pow_pos 53)
      have bound : Nat.log2 (value * unitsPerOne) < 53 + unitExponent := by
        rw [Nat.log2_lt nonzero, Nat.pow_add, ← unitsPerOne_eq]
        exact Nat.mul_lt_mul_of_pos_right small unitsPerOne_pos
      rw [unitsPerOne_eq] at bound ⊢
      exact Nat.pow_dvd_pow 2 (by omega)
  · rw [Nat.not_le, overflow]
    refine Nat.mul_lt_mul_of_pos_right (small.trans_le ?_) unitsPerOne_pos
    have first : 2 ^ 53 ≤ 2 ^ 256 := Nat.pow_le_pow_right Nat.two_pos (by omega)
    exact first.trans (Nat.le_self_pow (by omega) _)

/-- Whole multiples of a step, at most `2 ^ 53` of them, have 53 significant bits. -/
theorem ulp_dvd_of_le {count exponent : Nat} (few : count ≤ 2 ^ 53) :
    ulp (count * 2 ^ exponent) ∣ count * 2 ^ exponent := by
  unfold ulp
  split
  · exact Nat.one_dvd _
  · rename_i large
    have nonzero : count * 2 ^ exponent ≠ 0 := by
      intro zero
      rw [zero] at large
      exact large (Nat.two_pow_pos 53)
    rcases Nat.lt_or_eq_of_le few with fewer | most
    · refine Dvd.dvd.mul_left (Nat.pow_dvd_pow 2 ?_) _
      have bound : Nat.log2 (count * 2 ^ exponent) < 53 + exponent := by
        rw [Nat.log2_lt nonzero, Nat.pow_add]
        exact Nat.mul_lt_mul_of_pos_right fewer (Nat.two_pow_pos exponent)
      omega
    · rw [most, ← Nat.pow_add]
      refine Nat.pow_dvd_pow 2 ?_
      have isLog : Nat.log2 (2 ^ (53 + exponent)) = 53 + exponent := Nat.log2_two_pow
      omega

theorem lt_of_div_ulp (units : Nat) : units / ulp units < 2 ^ 53 := by
  unfold ulp
  split
  · rename_i small
    rw [Nat.div_one]
    exact small
  · rename_i large
    have nonzero : units ≠ 0 := by
      intro zero
      rw [zero] at large
      exact large (Nat.two_pow_pos 53)
    rw [Nat.div_lt_iff_lt_mul (Nat.two_pow_pos _), ← Nat.pow_add]
    have least : 53 ≤ Nat.log2 units := (Nat.le_log2 nonzero).mpr (Nat.le_of_not_lt large)
    have bound : units < 2 ^ (Nat.log2 units + 1) := Nat.lt_log2_self
    have sum : 53 + (Nat.log2 units - 52) = Nat.log2 units + 1 := by omega
    rw [sum]
    exact bound

/-- What has been read is read exactly. -/
theorem nearest_of_nearest {num value : Nat} (read : nearest num 1 = ofInt value) :
    nearest value 1 = ofInt value := by
  unfold nearest at read
  simp only [Nat.div_one, Nat.one_mul] at read
  have below := lt_of_div_ulp (num * unitsPerOne)
  generalize num * unitsPerOne = scaled at read below
  obtain ⟨exponent, isStep⟩ : ∃ exponent, ulp scaled = 2 ^ exponent := by
    unfold ulp
    split
    · exact ⟨0, rfl⟩
    · exact ⟨_, rfl⟩
  rw [isStep] at read below
  generalize isRounded : (if 2 * (scaled % 2 ^ exponent) < 2 ^ exponent ∨
    2 * (scaled % 2 ^ exponent) = 2 ^ exponent ∧ scaled / 2 ^ exponent % 2 = 0
      then scaled / 2 ^ exponent else scaled / 2 ^ exponent + 1) = rounded at read
  have few : rounded ≤ 2 ^ 53 := by
    rw [← isRounded]
    split
    · exact below.le
    · exact below
  split at read
  · cases read
  · rename_i fits
    have isValue : rounded * 2 ^ exponent = value * unitsPerOne := by
      have sameUnits := Binary64.finite.inj read
      rw [← Int.natCast_mul] at sameUnits
      exact Int.natCast_inj.mp sameUnits
    rw [isValue] at fits
    refine nearest_eq_ofInt ?_ fits
    rw [← isValue]
    exact ulp_dvd_of_le few

/-- Below `2 ^ 53` only the natural itself is read as it. -/
theorem nearest_eq_ofInt_iff {num value : Nat} (small : value < 2 ^ 53) :
    nearest num 1 = ofInt value ↔ num = value := by
  refine ⟨fun read => ?_, fun same => same ▸ nearest_natCast (same ▸ small)⟩
  by_cases few : num < 2 ^ 53
  · rw [nearest_natCast few] at read
    exact Int.natCast_inj.mp (ofInt_injective read)
  exfalso
  have many : 2 ^ 53 * unitsPerOne ≤ num * unitsPerOne :=
    Nat.mul_le_mul_right _ (Nat.le_of_not_lt few)
  have fewer : value * unitsPerOne < 2 ^ 53 * unitsPerOne :=
    Nat.mul_lt_mul_of_pos_right small unitsPerOne_pos
  unfold nearest at read
  simp only [Nat.div_one, Nat.one_mul] at read
  generalize num * unitsPerOne = scaled at read many
  generalize isRounded : (if 2 * (scaled % ulp scaled) < ulp scaled ∨
    2 * (scaled % ulp scaled) = ulp scaled ∧ scaled / ulp scaled % 2 = 0
      then scaled / ulp scaled else scaled / ulp scaled + 1) = rounded at read
  have up : scaled / ulp scaled ≤ rounded := by
    rw [← isRounded]
    split
    · exact Nat.le_refl _
    · exact Nat.le_succ _
  have isValue : rounded * ulp scaled = value * unitsPerOne := by
    split at read
    · cases read
    · have sameUnits := Binary64.finite.inj read
      rw [← Int.natCast_mul] at sameUnits
      exact Int.natCast_inj.mp sameUnits
  have large : 2 ^ 53 ≤ scaled := (Nat.le_mul_of_pos_right _ unitsPerOne_pos).trans many
  have nonzero : scaled ≠ 0 := by
    intro zero
    rw [zero] at large
    exact absurd large (by decide)
  have step : ulp scaled = 2 ^ (Nat.log2 scaled - 52) := by
    rw [ulp, if_neg (Nat.not_lt.mpr large)]
  have digits : 53 ≤ Nat.log2 scaled := (Nat.le_log2 nonzero).mpr large
  -- the leading bit of the number stays where it is
  have leading : 2 ^ 52 * ulp scaled = 2 ^ Nat.log2 scaled := by
    rw [step, ← Nat.pow_add]
    congr 1
    omega
  have below : 2 ^ 52 ≤ scaled / ulp scaled := by
    rw [Nat.le_div_iff_mul_le (ulp_pos scaled), leading]
    exact Nat.log2_self_le nonzero
  have least : 2 ^ 53 * unitsPerOne ≤ 2 ^ Nat.log2 scaled := by
    rw [unitsPerOne_eq, ← Nat.pow_add] at many ⊢
    exact Nat.pow_le_pow_right Nat.two_pos ((Nat.le_log2 nonzero).mpr many)
  have rounded : 2 ^ Nat.log2 scaled ≤ value * unitsPerOne := by
    rw [← isValue, ← leading]
    exact Nat.mul_le_mul_right _ (below.trans up)
  exact absurd (least.trans rounded) (Nat.not_le.mpr fewer)

end Binary64
