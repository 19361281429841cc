import Odatano.JsonValues
import Mathlib.Data.List.Lex
import Mathlib.Order.Fin.Basic
import Mathlib.Algebra.Group.Nat.Even
import Mathlib.Tactic.Tauto

/-!
# Hexadecimal strings

`Buffer.from(hex, 'hex')` on JavaScript strings.  Two hexadecimal strings compare like their bytes
when the case of the letters is the same.
-/

namespace JsString

/-- The value of a hexadecimal digit: `0` to `9`, `a` to `f` or `A` to `F`. -/
def hexDigit? (unit : CodeUnit) : Option Nat :=
  if 48 ≤ unit.val ∧ unit.val ≤ 57 then some (unit.val - 48)
  else if 97 ≤ unit.val ∧ unit.val ≤ 102 then some (unit.val - 87)
  else if 65 ≤ unit.val ∧ unit.val ≤ 70 then some (unit.val - 55)
  else none

/-- `Buffer.from(str, 'hex')`: the bytes up to the first pair that is not hexadecimal. -/
def hexBytes : JsString → List Nat
  | high :: low :: rest =>
      match hexDigit? high, hexDigit? low with
      | some highValue, some lowValue => (16 * highValue + lowValue) :: hexBytes rest
      | _, _ => []
  | _ => []

def lowerUnit (unit : CodeUnit) : CodeUnit :=
  if 65 ≤ unit.val ∧ unit.val ≤ 90 then Fin.ofNat 65536 (unit.val + 32) else unit

/-- `toLowerCase` of a string of ASCII characters. -/
def toLowerCase (str : JsString) : JsString := str.map lowerUnit

def IsHex (str : JsString) : Prop := ∀ unit ∈ str, ∃ value, hexDigit? unit = some value

instance (str : JsString) : Decidable (IsHex str) :=
  decidable_of_iff ((str.all fun unit => (hexDigit? unit).isSome) = true)
    (List.all_eq_true.trans (forall₂_congr fun _ _ => Option.isSome_iff_exists))

@[simp] theorem hexDigit?_lowerUnit (unit : CodeUnit) :
    hexDigit? (lowerUnit unit) = hexDigit? unit := by
  unfold hexDigit? lowerUnit
  grind [Fin.ofNat]

@[simp] theorem lowerUnit_lowerUnit (unit : CodeUnit) :
    lowerUnit (lowerUnit unit) = lowerUnit unit := by
  unfold lowerUnit
  grind [Fin.ofNat]

@[simp] theorem toLowerCase_toLowerCase (str : JsString) :
    toLowerCase (toLowerCase str) = toLowerCase str := by
  simp [toLowerCase]

@[simp] theorem length_toLowerCase (str : JsString) :
    (toLowerCase str).length = str.length := by
  simp [toLowerCase]

@[simp] theorem isHex_toLowerCase (str : JsString) : IsHex (toLowerCase str) ↔ IsHex str := by
  simp [IsHex, toLowerCase]

theorem lowerUnit_lt_iff {first second : CodeUnit} {value other : Nat}
    (isFirst : hexDigit? first = some value) (isSecond : hexDigit? second = some other) :
    lowerUnit first < lowerUnit second ↔ value < other := by
  unfold hexDigit? at isFirst isSecond
  rw [Fin.lt_def]
  unfold lowerUnit
  split at isFirst <;> split at isSecond <;> grind [Fin.ofNat]

theorem hexDigit?_lt {unit : CodeUnit} {value : Nat} (isDigit : hexDigit? unit = some value) :
    value < 16 := by
  unfold hexDigit? at isDigit
  grind

theorem lowerUnit_eq_iff {first second : CodeUnit} {value other : Nat}
    (isFirst : hexDigit? first = some value) (isSecond : hexDigit? second = some other) :
    lowerUnit first = lowerUnit second ↔ value = other := by
  have less := lowerUnit_lt_iff isFirst isSecond
  have more := lowerUnit_lt_iff isSecond isFirst
  rw [le_antisymm_iff, le_antisymm_iff, ← not_lt, ← not_lt, ← not_lt, ← not_lt, less, more]

/-- Whole bytes compare like their digits. -/
theorem hexBytes_lt_iff : ∀ {first second : JsString}, IsHex first → IsHex second →
    Even first.length → Even second.length →
      (hexBytes first < hexBytes second ↔ toLowerCase first < toLowerCase second)
  | [], [], _, _, _, _ => iff_of_false (lt_irrefl _) (lt_irrefl _)
  | [], [_], _, _, _, whole => absurd whole Nat.not_even_one
  | [_], _, _, _, whole, _ => absurd whole Nat.not_even_one
  | _, [_], _, _, _, whole => absurd whole Nat.not_even_one
  | [], high :: low :: rest, _, hex, _, _ => by
      obtain ⟨value, isHigh⟩ := hex high (List.mem_cons_self ..)
      obtain ⟨other, isLow⟩ := hex low (List.mem_cons_of_mem _ (List.mem_cons_self ..))
      simp [hexBytes, isHigh, isLow, toLowerCase]
  | high :: low :: rest, [], hex, _, _, _ => by
      obtain ⟨value, isHigh⟩ := hex high (List.mem_cons_self ..)
      obtain ⟨other, isLow⟩ := hex low (List.mem_cons_of_mem _ (List.mem_cons_self ..))
      simp [hexBytes, isHigh, isLow, toLowerCase]
  | high :: low :: rest, high' :: low' :: rest', hex, hex', whole, whole' => by
      obtain ⟨value, isHigh⟩ := hex high (List.mem_cons_self ..)
      obtain ⟨other, isLow⟩ := hex low (List.mem_cons_of_mem _ (List.mem_cons_self ..))
      obtain ⟨value', isHigh'⟩ := hex' high' (List.mem_cons_self ..)
      obtain ⟨other', isLow'⟩ := hex' low' (List.mem_cons_of_mem _ (List.mem_cons_self ..))
      have ih := hexBytes_lt_iff
        (fun unit member => hex unit (List.mem_cons_of_mem _ (List.mem_cons_of_mem _ member)))
        (fun unit member => hex' unit (List.mem_cons_of_mem _ (List.mem_cons_of_mem _ member)))
        (by simpa [Nat.even_add_one] using whole) (by simpa [Nat.even_add_one] using whole')
      have bound := hexDigit?_lt isLow
      have bound' := hexDigit?_lt isLow'
      have bytes : 16 * value + other < 16 * value' + other' ↔
          value < value' ∨ value = value' ∧ other < other' := by omega
      have sameBytes : 16 * value + other = 16 * value' + other' ↔
          value = value' ∧ other = other' := by omega
      simp only [hexBytes, isHigh, isLow, isHigh', isLow', toLowerCase, List.map_cons,
        List.cons_lt_cons_iff, bytes, sameBytes, lowerUnit_lt_iff isHigh isHigh',
        lowerUnit_lt_iff isLow isLow', lowerUnit_eq_iff isHigh isHigh',
        lowerUnit_eq_iff isLow isLow']
      rw [ih, toLowerCase, toLowerCase]
      tauto

theorem hexBytes_eq_iff {first second : JsString} (hex : IsHex first) (hex' : IsHex second)
    (whole : Even first.length) (whole' : Even second.length) :
    hexBytes first = hexBytes second ↔ toLowerCase first = toLowerCase second := by
  have less := hexBytes_lt_iff hex hex' whole whole'
  have more := hexBytes_lt_iff hex' hex whole' whole
  rw [le_antisymm_iff, le_antisymm_iff, ← not_lt, ← not_lt, ← not_lt, ← not_lt, less, more]

end JsString
