import Odatano.Binary64Numbers
import Odatano.DatumGrowth

/-!
# Script builds

`_buildScriptTx` of `srv/blockchain/transaction-building/buildooor-tx.ts`: one build to evaluate,
a second one with a fee floor for the target units, and the units stamped into its redeemers.
-/

namespace Odatano

open DatumPackages

/-! ## Execution units -/

inductive TxRedeemerTag
  | spend
  | mint
  | cert
  | withdraw
  | voting
  | proposing
deriving DecidableEq

/-- Execution units, like `ExBudget`. -/
structure ExUnits where
  mem : Nat
  cpu : Nat
deriving DecidableEq

/-- A redeemer of a built transaction. -/
structure BuiltRedeemer where
  tag : TxRedeemerTag
  index : Nat
  execUnits : ExUnits
deriving DecidableEq

structure LocalEvalFailure where
  tag : TxRedeemerTag
  index : Nat
  logs : List String

/-- A price per unit. -/
structure UnitPrice where
  num : Nat
  den : Nat
  den_pos : 0 < den

/-- What a build reads of the protocol parameters. -/
structure FeePrices where
  txFeePerByte : Nat
  txFeeFixed : Nat
  priceMemory : UnitPrice
  priceSteps : UnitPrice

/-- CBOR-encoded length in bytes of an unsigned integer. -/
def cborUIntLength (n : Nat) : Nat :=
  if n < 24 then 1 else if n < 256 then 2 else if n < 65536 then 3 else if n < 4294967296 then 5
  else 9

def ceilDiv (a b : Nat) : Nat := (a + b - 1) / b

def EXECUTION_UNIT_BUFFER : Binary64 := .nearest 11 10

def ABS_CPU_BUFFER : Nat := 200000

def ABS_MEM_BUFFER : Nat := 5000

/-- `Math.ceil(Number(value) * EXECUTION_UNIT_BUFFER) + buffer`, as an integer. -/
def bufferedUnit (value buffer : Nat) : Except String Nat :=
  match Binary64.nearest value 1, EXECUTION_UNIT_BUFFER with
  | .finite number, .finite factor =>
      match Binary64.nearest (number * factor).toNat (Binary64.unitsPerOne * Binary64.unitsPerOne) with
      | .finite product =>
          let ceil := ceilDiv product.toNat Binary64.unitsPerOne
          match (Binary64.nearest (ceil + buffer) 1).integer? with
          | some sum => .ok sum.toNat
          | none => .error "The number Infinity cannot be converted to a BigInt"
      | .infinite _ => .error "The number Infinity cannot be converted to a BigInt"
  | _, _ => .error "The number Infinity cannot be converted to a BigInt"

/-- The multiplier covers drift on large validators, the absolute floor covers small ones. -/
def applyExUnitBuffer (units : ExUnits) : Except String ExUnits := do
  let mem ← bufferedUnit units.mem ABS_MEM_BUFFER
  let cpu ← bufferedUnit units.cpu ABS_CPU_BUFFER
  .ok ⟨mem, cpu⟩

/-! ## The evaluator -/

/-- Budgets by redeemer tag and index. -/
abbrev EvaluatedUnits := OrderedMap (TxRedeemerTag × Int) ExUnits

/-- One evaluation result.  A validator pointer in the form `purpose:index` is split already. -/
structure EvaluationResult where
  purpose : String
  index : Binary64
  budget : ExUnits

/-- What an evaluator answers: results, a validation error, or any other failure. -/
inductive EvaluatorAnswer
  | results (results : List EvaluationResult)
  | rejected (message : String)
  | failed

/-- Ogmios purposes. -/
def PURPOSE_TO_TAG (purpose : String) : Option TxRedeemerTag :=
  if purpose = "spend" then some .spend
  else if purpose = "mint" then some .mint
  else if purpose = "publish" ∨ purpose = "certificate" then some .cert
  else if purpose = "withdraw" ∨ purpose = "withdrawal" then some .withdraw
  else none

/-- Take up one result; an unrecognized validator pointer is skipped. -/
def takeResult (byRedeemer : EvaluatedUnits) (result : EvaluationResult) :
    Except String EvaluatedUnits :=
  match PURPOSE_TO_TAG result.purpose, result.index.integer? with
  | some tag, some index => do
      let units ← applyExUnitBuffer result.budget
      .ok (OrderedMap.set byRedeemer (tag, index) units)
  | _, _ => .ok byRedeemer

/-- Cushioned Ogmios budgets.  Null when the evaluation is unusable; validation errors are
rethrown. -/
def evaluateExUnitsByRedeemer : EvaluatorAnswer → Except String (Option EvaluatedUnits)
  | .rejected message => .error message
  | .failed => .ok none
  | .results results =>
      match results.foldlM takeResult Table.empty with
      | .error _ => .ok none
      | .ok byRedeemer => .ok (if byRedeemer.rows = [] then none else some byRedeemer)

/-! ## Targets -/

/-- The names Buildooor gives redeemer tags, and what it makes of a transaction with other units:
new redeemers, no key witnesses, and a hash over the language views. -/
class LedgerPackages (Tx : Type) where
  txRedeemerTagToString : TxRedeemerTag → String
  restamped : Tx → List ExUnits → Bytes → LedgerBytes

/-- A built transaction. -/
structure BuiltTx where
  bytes : LedgerBytes
  fee : Nat
  redeemers : List BuiltRedeemer
  /-- Bytes the key witnesses will add. -/
  keyWitnessBytes : Nat
  referenceScriptFee : Nat

/-- The result of one build, with the scripts that failed local evaluation. -/
structure Pass where
  tx : BuiltTx
  failures : List LocalEvalFailure

section Builds

variable [DatumPackages] [LedgerPackages BuiltTx]

open LedgerPackages

/-- The error of a local failure that nothing certifies. -/
def uncertifiedError (r : BuiltRedeemer) (failure : LocalEvalFailure) : String :=
  "Plutus script failed local evaluation (redeemer " ++ txRedeemerTagToString BuiltTx r.tag ++
    ":" ++ toString r.index ++ ") and no Ogmios evaluation is available to certify its " ++
    "execution units. Refusing to return a transaction with unreliable execution units. " ++
    "Signing and submitting it would forfeit the collateral. Configure an Ogmios backend for " ++
    "authoritative script evaluation, or fix the script/datum/redeemer. Script logs: [" ++
    String.intercalate ", " failure.logs ++ "]"

/-- Per redeemer: max of local and Ogmios, else buffered local, else Ogmios after a local failure. -/
def targetExUnits (evaluatedUnits : Option EvaluatedUnits) (failures : List LocalEvalFailure)
    (r : BuiltRedeemer) : Except String ExUnits :=
  let evaluated := evaluatedUnits.bind fun units => OrderedMap.get? units (r.tag, (r.index : Int))
  match failures.find? fun f => decide (f.tag = r.tag ∧ f.index = r.index) with
  | some failure =>
      match evaluated with
      | none => .error (uncertifiedError r failure)
      | some units => .ok units
  | none =>
      match evaluated with
      | some units =>
          .ok ⟨max r.execUnits.mem units.mem, max r.execUnits.cpu units.cpu⟩
      | none => applyExUnitBuffer r.execUnits

def resolveTargetExUnits (pass : Pass) (evaluatedUnits : Option EvaluatedUnits) :
    Except String (List ExUnits) :=
  pass.tx.redeemers.mapM (targetExUnits evaluatedUnits pass.failures)

/-! ## The fee floor -/

/-- The price of units, rounded up for each kind. -/
def unitsPrice (prices : FeePrices) (units : ExUnits) : Nat :=
  ceilDiv (units.mem * prices.priceMemory.num) prices.priceMemory.den +
    ceilDiv (units.cpu * prices.priceSteps.num) prices.priceSteps.den

/-- Units added up. -/
def totalUnits (units : List ExUnits) : ExUnits :=
  ⟨(units.map ExUnits.mem).sum, (units.map ExUnits.cpu).sum⟩

/-- The units by which a target exceeds the local ones. -/
def excessUnits (r : BuiltRedeemer) (target : ExUnits) : ExUnits :=
  ⟨target.mem - r.execUnits.mem, target.cpu - r.execUnits.cpu⟩

/-- Fee delta of the target vs local units, priced like Buildooor's own fee loop. -/
def exUnitsPriceDelta (prices : FeePrices) (rdmrs : List BuiltRedeemer) (targets : List ExUnits) :
    Nat :=
  let delta := totalUnits (List.zipWith excessUnits rdmrs targets)
  if delta.mem = 0 ∧ delta.cpu = 0 then 0 else unitsPrice prices delta

/-- CBOR size growth (bytes) from stamping larger budgets into the redeemers. -/
def exUnitsSizeDelta (rdmrs : List BuiltRedeemer) (targets : List ExUnits) : Nat :=
  (List.zipWith (fun (r : BuiltRedeemer) (target : ExUnits) =>
    (cborUIntLength target.mem - cborUIntLength r.execUnits.mem) +
      (cborUIntLength target.cpu - cborUIntLength r.execUnits.cpu)) rdmrs targets).sum

/-- A number of bytes that needs readable datums. -/
def datumsGrowth (growth : Option Int) : Except String Int :=
  match growth with
  | some bytes => .ok bytes
  | none => .error "a datum is no Plutus data"

/-- Buildooor's fee already covers local budgets and future vkey witnesses; add the price delta of
the stamped units, their longer CBOR encoding, and a pad for change-size wobble. -/
def scriptFeeFloor (prices : FeePrices) (first : Pass) (evaluatedUnits : Option EvaluatedUnits)
    (callerDatums : OrderedMap Nat Bytes) (witnessDatums : List Bytes) : Except String Nat := do
  let targets ← resolveTargetExUnits first evaluatedUnits
  let callers ← datumsGrowth (callerDatumsGrowth callerDatums)
  let witnesses ← datumsGrowth (witnessDatumsGrowth witnessDatums)
  .ok (first.tx.fee + exUnitsPriceDelta prices first.tx.redeemers targets +
    exUnitsSizeDelta first.tx.redeemers targets * prices.txFeePerByte +
    (callers + witnesses).toNat * prices.txFeePerByte + 10 * prices.txFeePerByte)

/-! ## Stamping -/

/-- Put the units into the redeemers and compute scriptDataHash again, even when units match. -/
def stampExecUnits (languageViews : BuiltTx → Bytes) (tx : BuiltTx) (targets : List ExUnits) :
    BuiltTx :=
  { tx with
    bytes := restamped tx targets (languageViews tx)
    redeemers := List.zipWith (fun r target => { r with execUnits := target }) tx.redeemers targets }

/-- Stamp the units into the second build and write the caller's datums. -/
def finishScriptTx (languageViews : BuiltTx → Bytes) (second : Pass)
    (evaluatedUnits : Option EvaluatedUnits) (callerDatums : OrderedMap Nat Bytes)
    (witnessDatums : List Bytes) : Except String BuiltTx := do
  let targets ← resolveTargetExUnits second evaluatedUnits
  let stamped := stampExecUnits languageViews second.tx targets
  let called ← writeCallerDatums stamped.bytes callerDatums
  let tx := { stamped with bytes := called }
  let written ← writeWitnessDatums tx.bytes witnessDatums (languageViews tx)
  .ok { tx with bytes := written }

/-- Build, then write the caller's datum bytes; when they are longer, a second build raises the
fee. -/
def buildWithCallerDatums (prices : FeePrices) (build : Option Nat → Option Pass)
    (datums : OrderedMap Nat Bytes) : Except String BuiltTx := do
  let some pass := build none | .error "Cannot read properties of null"
  let growth ← datumsGrowth (callerDatumsGrowth datums)
  if growth = 0 then
    let written ← writeCallerDatums pass.tx.bytes datums
    .ok { pass.tx with bytes := written }
  else
    -- the extra bytes plus a pad for change-size wobble
    let fee := pass.tx.fee + (growth.toNat + 10) * prices.txFeePerByte
    let some raised := build (some fee) | .error "Cannot read properties of null"
    let written ← writeCallerDatums raised.tx.bytes datums
    .ok { raised.tx with bytes := written }

/-- Budgets from the evaluator for a built transaction, null without an evaluator. -/
def evaluatedUnitsOf (evaluator : Option (Bytes → EvaluatorAnswer)) (tx : BuiltTx) :
    Except String (Option EvaluatedUnits) :=
  match evaluator with
  | some evaluate => evaluateExUnitsByRedeemer (evaluate tx.bytes.toCbor)
  | none => .ok none

/-- Buildooor stamps local budgets and ignores caller units.  So build once, evaluate via Ogmios,
build again with a fee floor for the target units, then stamp them. -/
def buildScriptTx (prices : FeePrices) (languageViews : BuiltTx → Bytes)
    (build : Option Nat → Option Pass) (evaluator : Option (Bytes → EvaluatorAnswer))
    (callerDatums : OrderedMap Nat Bytes) (witnessDatums : List Bytes) : Except String BuiltTx := do
  let some first := build none
    | .error ("Buildooor txBuilder.build() returned null; check inputs, datum, and collateral " ++
        "configuration")
  if first.tx.redeemers = [] then
    if callerDatums.rows = [] then .ok first.tx
    else buildWithCallerDatums prices build callerDatums
  else
    let evaluatedUnits ← evaluatedUnitsOf evaluator first.tx
    let feeFloor ← scriptFeeFloor prices first evaluatedUnits callerDatums witnessDatums
    let some second := build (some feeFloor) | .error "Cannot read properties of null"
    finishScriptTx languageViews second evaluatedUnits callerDatums witnessDatums

end Builds

end Odatano
