import Odatano.CallerDatums
import Odatano.ChainData
import Odatano.TieredPrices
import Mathlib

/-!
# The reference-script fee

`srv/blockchain/transaction-building/buildooor-fee-patch.ts` and the script sizes of
`srv/utils/reference-script.ts`.
-/

namespace Odatano

/-! ## The tiers -/

def REF_SCRIPT_TIER_BYTES : Nat := 25600

structure Rational where
  num : Int
  den : Int
  den_ne : den ≠ 0

namespace Rational

def value (r : Rational) : ℚ := r.num / r.den

/-- The accumulated sum with the price of further bytes. -/
def add (acc : Rational) (bytes : Nat) (price : Rational) : Rational where
  num := acc.num * price.den + bytes * price.num * acc.den
  den := acc.den * price.den
  den_ne := mul_ne_zero acc.den_ne price.den_ne

/-- The price of the next tier. -/
def raise (price : Rational) : Rational where
  num := price.num * 6
  den := price.den * 5
  den_ne := mul_ne_zero price.den_ne (by decide)

theorem value_add (acc : Rational) (bytes : Nat) (price : Rational) :
    (acc.add bytes price).value = acc.value + bytes * price.value := by
  have isAcc : (acc.den : ℚ) ≠ 0 := Int.cast_ne_zero.mpr acc.den_ne
  have isPrice : (price.den : ℚ) ≠ 0 := Int.cast_ne_zero.mpr price.den_ne
  simp only [value, add, Int.cast_add, Int.cast_mul, Int.cast_natCast]
  field_simp

theorem value_raise (price : Rational) : price.raise.value = price.value * (6 / 5) := by
  have isPrice : (price.den : ℚ) ≠ 0 := Int.cast_ne_zero.mpr price.den_ne
  simp only [value, raise, Int.cast_mul, Int.cast_ofNat]
  field_simp

theorem num_eq (r : Rational) : (r.num : ℚ) = r.value * r.den :=
  (div_mul_cancel₀ (r.num : ℚ) (Int.cast_ne_zero.mpr r.den_ne)).symm

/-- Division of big integers, which cuts toward zero, is the floor of a value that is not
negative. -/
theorem tdiv_eq_floor {r : Rational} (nonneg : 0 ≤ r.value) : r.num.tdiv r.den = ⌊r.value⌋ := by
  have whole {num : Int} {den : Nat} (isNum : 0 ≤ num) :
      num.tdiv den = ⌊(num : ℚ) / (den : ℚ)⌋ := by
    rw [Int.tdiv_eq_ediv_of_nonneg isNum, Rat.floor_intCast_div_natCast]
  have num := r.num_eq
  obtain ⟨den, isDen | isDen⟩ := Int.eq_nat_or_neg r.den
  · have isNum : (0 : ℚ) ≤ r.num := by
      rw [num, isDen, Int.cast_natCast]
      exact mul_nonneg nonneg den.cast_nonneg
    rw [value, isDen, whole (Int.cast_nonneg_iff.mp isNum), Int.cast_natCast]
  · have isNum : (0 : ℚ) ≤ (-r.num : Int) := by
      rw [Int.cast_neg, num, isDen, Int.cast_neg, Int.cast_natCast, mul_neg, neg_neg]
      exact mul_nonneg nonneg den.cast_nonneg
    have turned : r.num.tdiv (-den) = (-r.num).tdiv den := by
      rw [Int.tdiv_neg, Int.neg_tdiv]
    rw [value, isDen, turned, whole (Int.cast_nonneg_iff.mp isNum), Int.cast_neg, Int.cast_neg,
      Int.cast_natCast, neg_div, div_neg]

end Rational

/-- A price per byte that is not negative. -/
structure PricePerByte where
  rational : Rational
  nonneg : 0 ≤ rational.value

/-- The loop over the full tiers, and the rest after them. -/
def addTiers (remaining : Nat) (price acc : Rational) : Rational :=
  if REF_SCRIPT_TIER_BYTES ≤ remaining then
    addTiers (remaining - REF_SCRIPT_TIER_BYTES) price.raise (acc.add REF_SCRIPT_TIER_BYTES price)
  else
    acc.add remaining price
termination_by remaining
decreasing_by
  simp only [REF_SCRIPT_TIER_BYTES] at *
  omega

def tierRefScriptFee (totalBytes : Nat) (pricePerByte : Rational) : Int :=
  let acc := addTiers totalBytes pricePerByte ⟨0, 1, one_ne_zero⟩
  acc.num.tdiv acc.den

/-- The exact price of reference scripts, byte by byte. -/
def exactRefScriptFee (totalBytes : Nat) (pricePerByte : Rational) : ℚ :=
  ∑ b ∈ Finset.range totalBytes, pricePerByte.value * (6 / 5) ^ (b / REF_SCRIPT_TIER_BYTES)

theorem exactRefScriptFee_eq (totalBytes : Nat) (price : Rational) :
    exactRefScriptFee totalBytes price =
      TieredPrice.total REF_SCRIPT_TIER_BYTES (6 / 5) price.value totalBytes :=
  rfl

theorem value_addTiers (remaining : Nat) (price acc : Rational) :
    (addTiers remaining price acc).value = acc.value +
      TieredPrice.total REF_SCRIPT_TIER_BYTES (6 / 5) price.value remaining := by
  fun_induction addTiers remaining price acc with
  | case1 remaining price acc full ih =>
      have parts := TieredPrice.total_add (6 / 5 : ℚ) price.value
        (show 0 < REF_SCRIPT_TIER_BYTES by decide) (remaining - REF_SCRIPT_TIER_BYTES)
      rw [Nat.add_sub_cancel' full] at parts
      rw [ih, parts, Rational.value_add, Rational.value_raise, add_assoc]
  | case2 remaining price acc last =>
      rw [Rational.value_add, TieredPrice.total_of_le _ _ (Nat.le_of_not_le last)]

theorem exactRefScriptFee_nonneg (totalBytes : Nat) (price : PricePerByte) :
    0 ≤ exactRefScriptFee totalBytes price.rational := by
  rw [exactRefScriptFee_eq]
  exact TieredPrice.total_nonneg (by norm_num) price.nonneg totalBytes

theorem tierRefScriptFee_eq_floor (totalBytes : Nat) (price : PricePerByte) :
    tierRefScriptFee totalBytes price.rational = ⌊exactRefScriptFee totalBytes price.rational⌋ := by
  have whole : (addTiers totalBytes price.rational ⟨0, 1, one_ne_zero⟩).value =
      exactRefScriptFee totalBytes price.rational := by
    rw [value_addTiers, exactRefScriptFee_eq]
    simp [Rational.value]
  have nonneg := exactRefScriptFee_nonneg totalBytes price
  rw [← whole] at nonneg ⊢
  exact Rational.tdiv_eq_floor nonneg

theorem tierRefScriptFee_mono (price : PricePerByte) :
    Monotone fun totalBytes => tierRefScriptFee totalBytes price.rational := by
  intro less more lower
  simp only [tierRefScriptFee_eq_floor, exactRefScriptFee_eq]
  exact Int.floor_mono (TieredPrice.total_mono (by norm_num) price.nonneg lower)

/-! ## Script sizes -/

structure Script where
  type : ReferenceScriptType
  bytes : Bytes

/-- Length of the header of a byte string. -/
def bytesHeader (n : Nat) : Nat :=
  if n < 24 then 1 else if n < 0x100 then 2 else if n < 0x10000 then 3 else 5

def referenceScriptSize (script : Script) : Nat :=
  if script.type = .native then script.bytes.length
  else script.bytes.length + bytesHeader script.bytes.length

/-- A Plutus V3 script of zero bytes. -/
def emptyPlutusV3 (n : Nat) : Script := ⟨.plutusV3, List.replicate n 0⟩

/-- The lengths the search tries, in order. -/
def placeholderLengths (size : Nat) : List Nat := List.range' (size - 5) (size - (size - 5) + 1)

def sizePlaceholderScript (size : Nat) : Script :=
  match (placeholderLengths size).find? fun n => decide (n + bytesHeader n = size) with
  | some n => emptyPlutusV3 n
  | none => emptyPlutusV3 (size - 1)

/-- The size the fee counts for a script of which only the size is known. -/
def placeholderSize (size : Nat) : Nat := referenceScriptSize (sizePlaceholderScript size)

theorem referenceScriptSize_emptyPlutusV3 (n : Nat) :
    referenceScriptSize (emptyPlutusV3 n) = n + bytesHeader n := by
  simp [referenceScriptSize, emptyPlutusV3]

theorem bytesHeader_pos (n : Nat) : 1 ≤ bytesHeader n := by
  unfold bytesHeader
  split_ifs <;> decide

theorem bytesHeader_le (n : Nat) : bytesHeader n ≤ 5 := by
  unfold bytesHeader
  split_ifs <;> decide

theorem bytesHeader_le_succ (n : Nat) : bytesHeader n ≤ n + 1 := by
  unfold bytesHeader
  split_ifs <;> omega

theorem mem_placeholderLengths {n size : Nat} (whole : n + bytesHeader n = size) :
    n ∈ placeholderLengths size := by
  have short := bytesHeader_le n
  rw [placeholderLengths, List.mem_range'_1]
  omega

/-- A size that some script has is met. -/
theorem placeholderSize_of_exists {size : Nat} (attained : ∃ n, n + bytesHeader n = size) :
    placeholderSize size = size := by
  obtain ⟨n, whole⟩ := attained
  have found : ((placeholderLengths size).find? fun n =>
      decide (n + bytesHeader n = size)).isSome := by
    rw [List.find?_isSome]
    exact ⟨n, mem_placeholderLengths whole, decide_eq_true whole⟩
  obtain ⟨chosen, isChosen⟩ := Option.isSome_iff_exists.mp found
  have met := List.find?_some isChosen
  rw [placeholderSize, sizePlaceholderScript, isChosen, referenceScriptSize_emptyPlutusV3]
  exact of_decide_eq_true met

/-- A size that no script has is overshot by at most four bytes. -/
theorem placeholderSize_of_not_exists {size : Nat} (missed : ¬∃ n, n + bytesHeader n = size) :
    placeholderSize size = size - 1 + bytesHeader (size - 1) := by
  have none : ((placeholderLengths size).find? fun n =>
      decide (n + bytesHeader n = size)) = none := by
    rw [List.find?_eq_none]
    intro n _ met
    exact missed ⟨n, of_decide_eq_true met⟩
  rw [placeholderSize, sizePlaceholderScript, none, referenceScriptSize_emptyPlutusV3]

theorem placeholderSize_bounds (size : Nat) :
    size ≤ placeholderSize size ∧ placeholderSize size ≤ size + 4 := by
  by_cases attained : ∃ n, n + bytesHeader n = size
  · rw [placeholderSize_of_exists attained]
    exact ⟨le_refl size, Nat.le_add_right size 4⟩
  · rw [placeholderSize_of_not_exists attained]
    have long := bytesHeader_pos (size - 1)
    have short := bytesHeader_le (size - 1)
    have small := bytesHeader_le_succ (size - 1)
    omega

/-- The header of a byte string as CBOR writes it; only from four gigabytes on it is longer. -/
theorem length_encode_bytes (content : Bytes) :
    (CborItem.bytes content).encode.length =
      content.length + if content.length < 2 ^ 32 then bytesHeader content.length else 9 := by
  have split : (CborItem.bytes content).encode.length =
      1 + (CborArgument.ofNat content.length).trail.length + content.length := by
    simp only [CborItem.bytes, CborItem.encode, CborHead.encode, List.length_append,
      List.length_cons, Option.map_some, Option.getD_some]
    omega
  rw [split]
  unfold CborArgument.ofNat bytesHeader
  split_ifs <;> simp only [CborArgument.trail, CborArgument.length_bigEndian, List.length_nil] <;>
    omega

theorem placeholderSize_of_encoding (content : Bytes) :
    placeholderSize (CborItem.bytes content).encode.length =
      (CborItem.bytes content).encode.length := by
  refine placeholderSize_of_exists ?_
  rw [length_encode_bytes]
  by_cases short : content.length < 2 ^ 32
  · rw [if_pos short]
    exact ⟨content.length, rfl⟩
  · -- four more bytes make up for the shorter header
    have long : bytesHeader (content.length + 4) = 5 := by
      unfold bytesHeader
      split_ifs <;> omega
    rw [if_neg short]
    exact ⟨content.length + 4, by rw [long]⟩

/-! ## The ledger's scripts -/

/-- A native script of the ledger. -/
inductive NativeScript
  | signature (keyHash : Bytes)
  | all (scripts : List NativeScript)
  | any (scripts : List NativeScript)
  | atLeast (required : Nat) (scripts : List NativeScript)
  | after (slot : Nat)
  | before (slot : Nat)

namespace NativeScript

def array (items : List CborItem) : CborItem := .node ⟨4, some (.ofNat items.length)⟩ items

mutual

/-- The CBOR of a native script: an array that starts with the number of its kind. -/
def item : NativeScript → CborItem
  | signature keyHash => array [.uint 0, .bytes keyHash]
  | all scripts => array [.uint 1, array (items scripts)]
  | any scripts => array [.uint 2, array (items scripts)]
  | atLeast required scripts => array [.uint 3, .uint required, array (items scripts)]
  | after slot => array [.uint 4, .uint slot]
  | before slot => array [.uint 5, .uint slot]

def items : List NativeScript → List CborItem
  | [] => []
  | script :: scripts => item script :: items scripts

end

end NativeScript

/-- A reference script on the chain.  A transaction is shorter than `2 ^ 32` bytes, and so is a
script. -/
inductive LedgerScript
  | native (script : NativeScript)
  | plutus (language : ReferenceScriptType) (isPlutus : language ≠ .native) (compiled : Bytes)
      (short : compiled.length < 2 ^ 32)

namespace LedgerScript

/-- What the ledger stores and charges: the CBOR of a native script, a byte string of a Plutus
script. -/
def bytes : LedgerScript → Bytes
  | native script => script.item.encode
  | plutus _ _ compiled _ => (CborItem.bytes compiled).encode

def ledgerSize (script : LedgerScript) : Nat := script.bytes.length

/-- The library's object for it. -/
def script : LedgerScript → Script
  | native script => ⟨.native, script.item.encode⟩
  | plutus language _ compiled _ => ⟨language, compiled⟩

/-- A script of which the bytes are known is charged as the ledger charges it. -/
theorem referenceScriptSize_script (script : LedgerScript) :
    referenceScriptSize script.script = script.ledgerSize := by
  cases script with
  | native script => rfl
  | plutus language isPlutus compiled short =>
      rw [ledgerSize, bytes, length_encode_bytes, if_pos short]
      exact if_neg isPlutus

theorem ledgerSize_pos (script : LedgerScript) : 0 < script.ledgerSize := by
  have head (first : CborHead) : 0 < first.encode.length := Nat.succ_pos _
  rw [ledgerSize, List.length_pos_iff]
  cases script with
  | native script =>
      have isArray : ∃ items, script.item = NativeScript.array items := by
        cases script <;> exact ⟨_, rfl⟩
      obtain ⟨items, isArray⟩ := isArray
      rw [bytes, isArray, NativeScript.array, CborItem.encode, CborHead.encode]
      exact List.cons_ne_nil _ _
  | plutus language isPlutus compiled short =>
      exact List.cons_ne_nil _ _

end LedgerScript

/-! ## The scripts of a transaction -/

/-- The reference-script fields of a UTxO. -/
structure UtxoScriptRef where
  scriptRefCbor : Option JsString
  scriptRef : Option JsString
  scriptRefSize : Option Nat

/-- The package that reads scripts, and the parts of a transaction that its fee also counts. -/
class FeePackages (Rest : Type) where
  scriptFromCbor : JsString → Option Script
  calcLinearFee : List (Option Script) → List (Option Script) → Rest → Nat
  estimateMaxSignersNeeded : List (Option Script) → List (Option Script) → Rest → Nat
  defaultTxFeePerByte : Nat
  defaultRefScriptCostPerByte : PricePerByte

section

variable {Rest : Type} [FeePackages Rest]

variable (Rest) in
/-- `_buildInputRefScript`; a hash alone has 56 digits. -/
def buildInputRefScript (utxo : UtxoScriptRef) : Option Script :=
  let cbor := utxo.scriptRefCbor.or (utxo.scriptRef.filter fun ref => decide (56 < ref.length))
  match cbor.filter fun cbor => decide (cbor ≠ []) with
  | none =>
      match utxo.scriptRef.filter fun ref => decide (ref ≠ []), utxo.scriptRefSize with
      | some _, some size => if size = 0 then none else some (sizePlaceholderScript size)
      | _, _ => none
  | some cbor => FeePackages.scriptFromCbor Rest cbor

/-- A transaction with the reference scripts of its inputs and reference inputs. -/
structure ResolvedTx (Rest : Type) where
  inputs : List UtxoScriptRef
  refInputs : List UtxoScriptRef
  rest : Rest

/-- The protocol parameters that price a transaction. -/
structure FeeParameters where
  txFeePerByte : Option Nat
  minfeeRefScriptCostPerByte : Option PricePerByte

variable (Rest) in
/-- The price per byte of reference scripts. -/
def refScriptPrice (pp : FeeParameters) : PricePerByte :=
  pp.minfeeRefScriptCostPerByte.getD (FeePackages.defaultRefScriptCostPerByte Rest)

namespace ResolvedTx

variable (tx : ResolvedTx Rest)

def inputScripts : List (Option Script) := tx.inputs.map (buildInputRefScript Rest)

def refInputScripts : List (Option Script) := tx.refInputs.map (buildInputRefScript Rest)

/-- Bytes of reference scripts, an absent script counting none. -/
def refScriptBytesOf : Nat :=
  ((tx.inputScripts ++ tx.refInputScripts).map fun script =>
    script.elim 0 referenceScriptSize).sum

def calcMinFeeWithRefScripts (pp : FeeParameters) (minimum : Option Int) : Int :=
  let perByte : Int := pp.txFeePerByte.getD (FeePackages.defaultTxFeePerByte Rest)
  let nVkeyWits :=
    FeePackages.estimateMaxSignersNeeded tx.inputScripts tx.refInputScripts tx.rest
  let minFee := FeePackages.calcLinearFee tx.inputScripts tx.refInputScripts tx.rest
    + tierRefScriptFee tx.refScriptBytesOf (refScriptPrice Rest pp).rational
    -- one key witness is 102 CBOR bytes plus 2 for encoding slack, plus the array header
    + 104 * nVkeyWits * perByte
    + (if nVkeyWits < 24 then 1 else if nVkeyWits < 256 then 2 else 4) * perByte
  match minimum with
  | none => minFee
  | some min => if minFee < min then min else minFee

end ResolvedTx

/-! ## The fee of the true sizes -/

variable (Rest) in
/-- What a provider reports of the script on a UTxO: the script itself, or its hash and size. -/
inductive Reports : UtxoScriptRef → Option LedgerScript → Prop
  | none (size : Option Nat) : Reports ⟨none, none, size⟩ none
  | cbor {cbor : JsString} {script : LedgerScript} (ref : Option JsString) (size : Option Nat)
      (nonempty : cbor ≠ []) (reads : FeePackages.scriptFromCbor Rest cbor = some script.script) :
      Reports ⟨some cbor, ref, size⟩ (some script)
  | inRef {cbor : JsString} {script : LedgerScript} (size : Option Nat) (long : 56 < cbor.length)
      (reads : FeePackages.scriptFromCbor Rest cbor = some script.script) :
      Reports ⟨none, some cbor, size⟩ (some script)
  | sized {hash : JsString} {script : LedgerScript} (isHash : hash.length = 56) :
      Reports ⟨none, some hash, some script.ledgerSize⟩ (some script)

/-- The bytes that the ledger charges for the scripts of a transaction. -/
def ledgerBytes (scripts : List (Option LedgerScript)) : Nat :=
  (scripts.map fun script => script.elim 0 LedgerScript.ledgerSize).sum

/-- The script in a UTxO is the reported one, or a placeholder of its size. -/
theorem buildInputRefScript_of_reports {utxo : UtxoScriptRef} {script : LedgerScript}
    (reports : Reports Rest utxo (some script)) :
    buildInputRefScript Rest utxo = some script.script ∨
      buildInputRefScript Rest utxo = some (sizePlaceholderScript script.ledgerSize) := by
  have present {str : JsString} (nonempty : str ≠ []) :
      (some str).filter (fun cbor => decide (cbor ≠ [])) = some str :=
    if_pos (decide_eq_true nonempty)
  cases reports with
  | cbor ref size nonempty reads =>
      left
      unfold buildInputRefScript
      simp only [Option.some_or, present nonempty, reads]
  | @inRef cbor _ size long reads =>
      left
      have nonempty := List.ne_nil_of_length_pos (Nat.zero_lt_of_lt long)
      have isCbor : (some cbor).filter (fun ref => decide (56 < ref.length)) = some cbor :=
        if_pos (decide_eq_true long)
      unfold buildInputRefScript
      simp only [Option.none_or, isCbor, present nonempty, reads]
  | @sized hash _ isHash =>
      right
      have nonempty : hash ≠ [] := List.ne_nil_of_length_pos (by omega)
      have noCbor : (some hash).filter (fun ref => decide (56 < ref.length)) = none :=
        if_neg (by simp [isHash])
      unfold buildInputRefScript
      simp only [Option.none_or, noCbor, Option.filter_none, present nonempty,
        if_neg script.ledgerSize_pos.ne']

/-- A reported script is charged its true size or more. -/
theorem ledgerSize_le_of_reports {utxo : UtxoScriptRef} {script : Option LedgerScript}
    (reports : Reports Rest utxo script) :
    script.elim 0 LedgerScript.ledgerSize ≤
      (buildInputRefScript Rest utxo).elim 0 referenceScriptSize := by
  cases script with
  | none => exact Nat.zero_le _
  | some script =>
      rcases buildInputRefScript_of_reports reports with isWhole | isSized
      · rw [isWhole]
        exact script.referenceScriptSize_script.ge
      · rw [isSized]
        exact (placeholderSize_bounds script.ledgerSize).1

theorem ledgerBytes_le {utxos : List UtxoScriptRef} {scripts : List (Option LedgerScript)}
    (reports : List.Forall₂ (Reports Rest) utxos scripts) :
    ledgerBytes scripts ≤ ((utxos.map (buildInputRefScript Rest)).map fun script =>
      script.elim 0 referenceScriptSize).sum := by
  induction reports with
  | nil => exact le_rfl
  | cons first _ ih => exact Nat.add_le_add (ledgerSize_le_of_reports first) ih

namespace ResolvedTx

variable (tx : ResolvedTx Rest)

/-- The fee of the transaction and its key witnesses, with each byte of the true reference scripts
at its price. -/
def ledgerFee (pp : FeeParameters) (scripts : List (Option LedgerScript)) : Int :=
  let perByte : Int := pp.txFeePerByte.getD (FeePackages.defaultTxFeePerByte Rest)
  let keys := FeePackages.estimateMaxSignersNeeded tx.inputScripts tx.refInputScripts tx.rest
  FeePackages.calcLinearFee tx.inputScripts tx.refInputScripts tx.rest +
    ⌊exactRefScriptFee (ledgerBytes scripts) (refScriptPrice Rest pp).rational⌋ +
    (104 * keys + if keys < 24 then 1 else if keys < 256 then 2 else 4) * perByte

theorem ledgerFee_le (pp : FeeParameters) (minimum : Option Int)
    {scripts : List (Option LedgerScript)}
    (reports : List.Forall₂ (Reports Rest) (tx.inputs ++ tx.refInputs) scripts) :
    tx.ledgerFee pp scripts ≤ tx.calcMinFeeWithRefScripts pp minimum ∧
      ∀ min ∈ minimum, min ≤ tx.calcMinFeeWithRefScripts pp minimum := by
  have more : ledgerBytes scripts ≤ tx.refScriptBytesOf := by
    rw [refScriptBytesOf, inputScripts, refInputScripts, ← List.map_append]
    exact ledgerBytes_le reports
  have raised := tierRefScriptFee_mono (refScriptPrice Rest pp) more
  simp only [tierRefScriptFee_eq_floor (ledgerBytes scripts)] at raised
  have covered : tx.ledgerFee pp scripts ≤ tx.calcMinFeeWithRefScripts pp none := by
    simp only [ledgerFee, calcMinFeeWithRefScripts, add_mul]
    omega
  have raisedTo (fee least : Int) : fee ≤ (if fee < least then least else fee) ∧
      least ≤ if fee < least then least else fee := by
    split <;> omega
  cases minimum with
  | none => exact ⟨covered, fun min isNone => by cases isNone⟩
  | some least =>
      have both := raisedTo (tx.calcMinFeeWithRefScripts pp none) least
      refine ⟨covered.trans both.1, fun min isLeast => ?_⟩
      cases isLeast
      exact both.2

end ResolvedTx

/-! ## Main result -/

/-- The reference-script fee is the floor of the price byte by byte, and a script known by its size
is charged that size where a Plutus script has it, else at most four bytes more. -/
theorem referenceScriptFee_covers :
    (∀ totalBytes (price : PricePerByte),
      tierRefScriptFee totalBytes price.rational =
        ⌊∑ b ∈ Finset.range totalBytes, price.rational.value * (6 / 5 : ℚ) ^ (b / 25600)⌋) ∧
    (∀ price : PricePerByte, Monotone fun totalBytes =>
      tierRefScriptFee totalBytes price.rational) ∧
    (∀ size, size ≤ placeholderSize size ∧ placeholderSize size ≤ size + 4) ∧
    (∀ content, placeholderSize (CborItem.bytes content).encode.length =
      (CborItem.bytes content).encode.length) ∧
    ∀ (tx : ResolvedTx Rest) (pp : FeeParameters) (minimum : Option Int)
      (scripts : List (Option LedgerScript)),
      List.Forall₂ (Reports Rest) (tx.inputs ++ tx.refInputs) scripts →
        tx.ledgerFee pp scripts ≤ tx.calcMinFeeWithRefScripts pp minimum ∧
          ∀ min ∈ minimum, min ≤ tx.calcMinFeeWithRefScripts pp minimum :=
  ⟨tierRefScriptFee_eq_floor, tierRefScriptFee_mono, placeholderSize_bounds,
    placeholderSize_of_encoding,
    fun tx pp minimum _ reports => tx.ledgerFee_le pp minimum reports⟩

end

/-! ## Scripts of both kinds -/

/-- Two time locks, 25 bytes together. -/
def timeLocks : LedgerScript := .native (.all [.after (2 ^ 32), .after (2 ^ 32)])

/-- A Plutus script of six bytes. -/
def sixBytes : LedgerScript :=
  .plutus .plutusV3 (by decide) [0x01, 0x00, 0x00, 0x22, 0x24, 0x99] (by decide)

/-- Packages that know the CBOR of the six bytes. -/
instance sixBytesPackages : FeePackages Unit where
  scriptFromCbor cbor :=
    if cbor = JsString.ofText "46010000222499" then some sixBytes.script else none
  calcLinearFee _ _ _ := 170000
  estimateMaxSignersNeeded _ _ _ := 1
  defaultTxFeePerByte := 44
  defaultRefScriptCostPerByte := ⟨⟨15, 1, by decide⟩, by norm_num [Rational.value]⟩

/-- An input with the time locks, known by their size, and a reference input with the Plutus
script. -/
def bothKindsTx : ResolvedTx Unit where
  inputs := [⟨none, some (List.replicate 56 97), some 25⟩]
  refInputs := [⟨some (JsString.ofText "46010000222499"), none, none⟩]
  rest := ()

/-- 32 bytes of scripts are paid for. -/
theorem referenceScriptFee_covers_bothKinds :
    ledgerBytes [some timeLocks, some sixBytes] = 32 ∧
      bothKindsTx.ledgerFee ⟨none, none⟩ [some timeLocks, some sixBytes] ≤
        bothKindsTx.calcMinFeeWithRefScripts ⟨none, none⟩ none := by
  have isSize : timeLocks.ledgerSize = 25 := by decide +kernel
  have sized : Reports Unit ⟨none, some (List.replicate 56 97), some 25⟩ (some timeLocks) :=
    isSize ▸ .sized rfl
  have whole : Reports Unit ⟨some (JsString.ofText "46010000222499"), none, none⟩ (some sixBytes) :=
    .cbor none none (by decide +kernel) (if_pos rfl)
  obtain ⟨-, -, -, -, covers⟩ := @referenceScriptFee_covers Unit sixBytesPackages
  exact ⟨by decide +kernel,
    (covers bothKindsTx ⟨none, none⟩ none _ (.cons sized (.cons whole .nil))).1⟩

/-- The native script has 25 bytes, and the placeholder of that size is charged 26. -/
theorem placeholderSize_timeLocks :
    ¬∀ script : LedgerScript, placeholderSize script.ledgerSize = script.ledgerSize := by
  intro equal
  exact absurd (equal timeLocks) (by decide +kernel)

end Odatano
