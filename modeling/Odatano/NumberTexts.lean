import Mathlib.Data.List.DropRight
import Odatano.Binary64Numbers
import Odatano.JsonValues

/-!
# Texts of numbers

`String(number)` for doubles that are naturals, and when the text writes the natural that was
read.  JavaScript writes the fewest digits that are read as the same double.
-/

namespace JsString

/-- The number of a text of digits. -/
def digits? (str : JsString) : Option Nat := if isDigits str then some (digitsValue str) else none

theorem toNat_of_mem_toDigits {value : Nat} {c : Char} (cMem : c ∈ Nat.toDigits 10 value) :
    48 ≤ c.toNat ∧ c.toNat ≤ 57 :=
  Char.isDigit_iff_toNat.mp (Nat.isDigit_of_mem_toDigits (by decide) (by decide) cMem)

theorem ofText_toString (value : Nat) :
    ofText (toString value) = (Nat.toDigits 10 value).map fun c => Fin.ofNat 65536 c.toNat := by
  have written : (toString value).toList = Nat.toDigits 10 value := Nat.toList_repr
  rw [ofText, written, List.map_eq_flatMap]
  refine List.flatMap_congr fun c cMem => if_pos ?_
  have bound := (toNat_of_mem_toDigits cMem).2
  omega

theorem isDigits_ofText_toString (value : Nat) : isDigits (ofText (toString value)) = true := by
  rw [ofText_toString, isDigits, Bool.and_eq_true]
  constructor
  · rw [decide_eq_true_iff, ne_eq, List.map_eq_nil_iff]
    exact Nat.toDigits_ne_nil
  · rw [List.all_map, List.all_eq_true]
    intro c cMem
    obtain ⟨least, most⟩ := toNat_of_mem_toDigits cMem
    have small : c.toNat % 65536 = c.toNat := Nat.mod_eq_of_lt (by omega)
    simp only [Function.comp_apply, Fin.ofNat, small, decide_eq_true_iff]
    exact ⟨least, most⟩

theorem digitsValue_ofText_toString (value : Nat) : digitsValue (ofText (toString value)) = value := by
  have read : Nat.ofDigitChars 10 (Nat.toDigits 10 value) 0 = value :=
    Nat.ofDigitChars_toDigits (by decide) (by decide)
  rw [Nat.ofDigitChars_eq_foldl] at read
  rw [ofText_toString, digitsValue, List.foldl_map]
  refine Eq.trans (List.foldl_ext _ _ 0 fun sum c cMem => ?_) read
  obtain ⟨least, most⟩ := toNat_of_mem_toDigits cMem
  have small : c.toNat % 65536 = c.toNat := Nat.mod_eq_of_lt (by omega)
  simp only [Fin.ofNat, small]
  rfl

@[simp] theorem digits?_ofText_toString (value : Nat) :
    digits? (ofText (toString value)) = some value := by
  rw [digits?, if_pos (isDigits_ofText_toString value), digitsValue_ofText_toString]

end JsString

namespace Binary64

/-! ## Fewest digits -/

/-- The multiple of a power next to a natural that is read as its double, the closer one if both
are. -/
def multipleReadAs? (value power : Nat) : Option Nat :=
  let below := value / power * power
  let above := below + power
  let reads (candidate : Nat) : Bool := decide (nearest candidate 1 = ofInt value)
  let belowIsCloser : Bool := decide (value - below < above - value ∨
    value - below = above - value ∧ value / power % 2 = 0)
  if reads below && (belowIsCloser || !reads above) then some below
  else if reads above then some above
  else none

/-- A natural that is read as the double of `value`, with as many zeros at its end as such a
natural has, up to a bound. -/
def fewestDigits (value : Nat) : Nat → Nat
  | 0 => value
  | zeros + 1 => (multipleReadAs? value (10 ^ (zeros + 1))).getD (fewestDigits value zeros)

/-- A natural from `10 ^ 21` on: its significant digits and an exponent. -/
def exponentText (value : Nat) : JsString :=
  let digits := JsString.ofText (toString value)
  let significant := digits.rdropWhile fun unit => decide (unit.val = 48)
  let exponent := JsString.ofText "e+" ++ JsString.ofText (toString (digits.length - 1))
  match significant with
  | first :: second :: rest => first :: JsString.ofText "." ++ second :: rest ++ exponent
  | short => short ++ exponent

/-- `String(number)` of a natural or of `Infinity`. -/
def naturalText (number : Binary64) : JsString :=
  match number.integer? with
  | some value =>
      let written := fewestDigits value.toNat (Nat.toDigits 10 value.toNat).length
      if written < 10 ^ 21 then JsString.ofText (toString written) else exponentText written
  | none => JsString.ofText "Infinity"

/-- The number in a template literal, for an integer or an infinity. -/
def integerText (number : Binary64) : String :=
  let ascii (str : JsString) : String := String.ofList (str.map fun unit => Char.ofNat unit.val)
  if number.isNegative then "-" ++ ascii (naturalText number.negated) else ascii (naturalText number)

theorem nearest_multipleReadAs? {value power written : Nat}
    (found : multipleReadAs? value power = some written) :
    nearest written 1 = ofInt value := by
  unfold multipleReadAs? at found
  simp only at found
  split at found
  · rename_i below
    cases found
    exact of_decide_eq_true (Bool.and_eq_true_iff.mp below).1
  · split at found
    · rename_i above
      cases found
      exact of_decide_eq_true above
    · cases found

/-- What is written is read as the same double. -/
theorem nearest_fewestDigits {value : Nat} (exactly : nearest value 1 = ofInt value)
    (zeros : Nat) : nearest (fewestDigits value zeros) 1 = ofInt value := by
  induction zeros with
  | zero => exact exactly
  | succ zeros ih =>
      rw [fewestDigits]
      cases found : multipleReadAs? value (10 ^ (zeros + 1)) with
      | none => exact ih
      | some written => exact nearest_multipleReadAs? found

/-- What is read from a natural is a natural or `Infinity`. -/
theorem exists_ofInt_of_nearest {num : Nat} {units : Int}
    (isFinite : nearest num 1 = .finite units) :
    ∃ value : Nat, nearest num 1 = ofInt value := by
  by_cases small : num < 2 ^ 53
  · exact ⟨num, nearest_natCast small⟩
  · have large : 2 ^ 53 * unitsPerOne ≤ num * unitsPerOne :=
      Nat.mul_le_mul_right _ (Nat.le_of_not_lt small)
    unfold nearest at isFinite ⊢
    simp only [Nat.div_one, Nat.one_mul] at isFinite ⊢
    generalize num * unitsPerOne = scaled at isFinite large ⊢
    -- the doubles of this size are whole
    have whole : unitsPerOne ∣ ulp scaled := by
      have positive : 2 ^ 53 ≤ scaled := (Nat.le_mul_of_pos_right _ unitsPerOne_pos).trans large
      have nonzero : scaled ≠ 0 := (Nat.two_pow_pos 53).trans_le positive |>.ne'
      rw [ulp, if_neg (Nat.not_lt.mpr positive), unitsPerOne_eq]
      refine Nat.pow_dvd_pow 2 ?_
      rw [unitsPerOne_eq, ← Nat.pow_add] at large
      have bits : 53 + unitExponent ≤ Nat.log2 scaled := (Nat.le_log2 nonzero).mpr large
      omega
    generalize (if 2 * (scaled % ulp scaled) < ulp scaled ∨
      2 * (scaled % ulp scaled) = ulp scaled ∧ scaled / ulp scaled % 2 = 0
        then scaled / ulp scaled else scaled / ulp scaled + 1) = rounded at isFinite ⊢
    split at isFinite
    · cases isFinite
    · rename_i fits
      obtain ⟨ones, isStep⟩ := whole
      refine ⟨rounded * ones, ?_⟩
      rw [if_neg fits, ofInt, isStep]
      congr 1
      push_cast
      ring

theorem digits?_exponentText (value : Nat) : JsString.digits? (exponentText value) = none := by
  have letter {start finish : JsString} :
      JsString.digits? (start ++ (JsString.ofText "e+" ++ finish)) = none := by
    refine if_neg fun isDigits => ?_
    have each := (Bool.and_eq_true_iff.mp isDigits).2
    rw [List.all_append, List.all_append, Bool.and_eq_true, Bool.and_eq_true] at each
    exact absurd each.2.1 (by decide)
  unfold exponentText
  simp only
  split <;> exact letter

/-- A text of digits is read as the double that it writes. -/
theorem nearest_of_naturalText {num written : Nat}
    (writes : JsString.digits? (naturalText (nearest num 1)) = some written) :
    nearest written 1 = nearest num 1 := by
  cases isNumber : nearest num 1 with
  | infinite negative =>
      rw [isNumber] at writes
      have text : JsString.digits? (naturalText (.infinite negative)) = none := rfl
      rw [text] at writes
      cases writes
  | finite units =>
      obtain ⟨value, isValue⟩ := exists_ofInt_of_nearest isNumber
      rw [← isNumber, isValue]
      rw [isValue, naturalText, integer?_ofInt] at writes
      simp only [Int.toNat_natCast] at writes
      split at writes
      · rw [JsString.digits?_ofText_toString, Option.some_inj] at writes
        rw [← writes]
        exact nearest_fewestDigits (nearest_of_nearest isValue) _
      · rw [digits?_exponentText] at writes
        cases writes

end Binary64
