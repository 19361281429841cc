import Mathlib.Data.List.Basic
import Odatano.OrderedMap
import Odatano.ChainData

/-!
# Inputs of a build

How the builders of `srv/blockchain/transaction-building/buildooor-tx.ts` divide a list
of UTxOs into forced inputs, collateral and the pool of coin selection.
-/

namespace Odatano

/-! ## UTxOs -/

/-- An output reference, as a request or a backend spells it. -/
structure OutRef where
  txHash : String
  outputIndex : Nat
deriving DecidableEq

/-- The ledger's reference: the hash of a request may be in capitals. -/
def OutRef.key (ref : OutRef) : OutRef := { ref with txHash := ref.txHash.toLower }

/-- `txhash#index`. -/
def OutRef.text (ref : OutRef) : String := ref.txHash ++ "#" ++ toString ref.outputIndex

def Amount.isLovelace (a : Amount) : Bool := decide (a.unit.chars.toLower = "lovelace")

structure UTxO where
  ref : OutRef
  address : String
  amount : List Amount
  scriptRef : Option Text
  scriptRefCbor : Option Text
deriving DecidableEq

namespace UTxO

def key (u : UTxO) : OutRef := u.ref.key

def getLovelace (u : UTxO) : Int :=
  ((u.amount.find? Amount.isLovelace).map Amount.quantity).getD 0

/-- A UTxO the builders may take as collateral: lovelace only and no reference script. -/
def isCollateralCandidate (u : UTxO) : Bool :=
  (u.amount.all fun a => a.isLovelace || decide (a.quantity = 0)) &&
    u.scriptRef.isNone && u.scriptRefCbor.isNone

def hasRefScript (u : UTxO) : Bool := u.scriptRef.isSome || u.scriptRefCbor.isSome

end UTxO

inductive BuildError
  | insufficientFunds
  | transactionValidation (message : String)
  /-- What Buildooor, an address or a script refuses. -/
  | other
deriving DecidableEq

/-! ## Forced inputs -/

/-- Forced inputs and the pool that is left. -/
structure ForcedPartition where
  forced : List UTxO
  rest : List UTxO
deriving DecidableEq

/-- Forced inputs must be consumed.  Refs absent from the UTxOs are ignored. -/
def partitionForcedInputs (utxos : List UTxO) (forceInputs referenced protectInputs : List OutRef)
    (includeRefScriptUtxos : Bool) : Except BuildError ForcedPartition :=
  let excluded (u : UTxO) := !includeRefScriptUtxos && u.hasRefScript
  let protectedKeys := protectInputs.map OutRef.key
  if forceInputs = [] ∧ referenced = [] ∧ protectedKeys = [] ∧ ¬ utxos.any excluded = true then
    .ok ⟨[], utxos⟩
  else
    let forcedKeys := distinct (forceInputs.map OutRef.key)
    -- a UTxO cannot be spent and referenced in one transaction
    match forcedKeys.find? fun k => decide (k ∈ referenced) with
    | some clash =>
        .error (.transactionValidation ("forceInputs " ++ clash.text ++
          " is also a reference input; a UTxO cannot be spent and referenced in one transaction"))
    | none =>
        match forcedKeys.find? fun k => decide (k ∈ protectedKeys) with
        | some clash =>
            .error (.transactionValidation
              ("forceInputs " ++ clash.text ++ " is also in protectInputs"))
        | none =>
            .ok
              { forced := utxos.filter fun u => decide (u.key ∈ forcedKeys)
                rest := utxos.filter fun u =>
                  decide (u.key ∉ forcedKeys) && decide (u.key ∉ referenced) &&
                    decide (u.key ∉ protectedKeys) && !excluded u }

/-- Keys of the reference inputs of a build, from the resolved UTxOs and the request. -/
def referencedKeys (referenceInputUtxos : List UTxO) (refs : List OutRef) : List OutRef :=
  distinct (referenceInputUtxos.map UTxO.key ++ refs.map OutRef.key)

section Partition

variable {utxos : List UTxO} {forceInputs referenced protectInputs : List OutRef}
  {includeRefScriptUtxos : Bool} {partition : ForcedPartition}

/-- Neither the forced inputs nor the pool hold a protected UTxO. -/
theorem partitionForcedInputs_unprotected
    (divided : partitionForcedInputs utxos forceInputs referenced protectInputs
      includeRefScriptUtxos = .ok partition) :
    (∀ u ∈ partition.forced, u.key ∉ protectInputs.map OutRef.key) ∧
      ∀ u ∈ partition.rest, u.key ∉ protectInputs.map OutRef.key := by
  simp only [partitionForcedInputs] at divided
  split at divided
  · rename_i nothing
    cases divided
    exact ⟨fun _ m => absurd m List.not_mem_nil, fun _ _ => nothing.2.2.1 ▸ List.not_mem_nil⟩
  · split at divided
    · cases divided
    · split at divided
      · cases divided
      · rename_i apart
        cases divided
        constructor
        · intro u uMem
          have isForced := of_decide_eq_true (List.mem_filter.mp uMem).2
          exact fun listed => List.find?_eq_none.mp apart u.key isForced (decide_eq_true listed)
        · intro u uMem
          have kept := (List.mem_filter.mp uMem).2
          simp only [Bool.and_eq_true, decide_eq_true_eq] at kept
          exact kept.1.2

/-- A forced input that is protected is refused. -/
theorem partitionForcedInputs_refuses {ref : OutRef} (forces : ref ∈ forceInputs)
    (isProtected : ref.key ∈ protectInputs.map OutRef.key) :
    ∃ error, partitionForcedInputs utxos forceInputs referenced protectInputs
      includeRefScriptUtxos = .error error := by
  have keyMem : ref.key ∈ distinct (forceInputs.map OutRef.key) :=
    mem_distinct.mpr (List.mem_map_of_mem forces)
  simp only [partitionForcedInputs]
  split
  · rename_i nothing
    exact absurd (nothing.1 ▸ forces) List.not_mem_nil
  · split
    · exact ⟨_, rfl⟩
    · split
      · exact ⟨_, rfl⟩
      · rename_i apart
        have unprotected := List.find?_eq_none.mp apart ref.key keyMem
        exact absurd (decide_eq_true isProtected) unprotected

end Partition

/-! ## Collateral -/

/-- Lovelace and assets of an output or a funding need. -/
structure LedgerValue where
  lovelaces : Int
  assets : List Amount

def LedgerValue.add (first second : LedgerValue) : LedgerValue :=
  ⟨first.lovelaces + second.lovelaces, first.assets ++ second.assets⟩

/-- Build a value from lovelace and an asset list. -/
def buildLedgerValue (lovelace : Int) (assets : List Amount) : LedgerValue :=
  ⟨lovelace, assets.filter fun a => !a.isLovelace && decide (0 < a.quantity)⟩

def COLLATERAL_LOVELACE : Int := 5000000
def FEE_BUFFER_LOVELACE : Int := 1000000
def MIN_CHANGE_LOVELACE : Int := 2000000

structure Collateral where
  collateralUtxos : List UTxO
  fundingUtxos : List UTxO
  /-- The excess over the floor, returned to the owner. -/
  collateralReturn : Option (String × Int)
deriving DecidableEq

/-- Smallest ADA-only UTxO covering the collateral floor, else a forced sender input.  When
funds are short the collateral UTxO also funds the transaction. -/
def setupCollateral (minimumOutputLovelaces : String → Int → Int) (utxos : List UTxO)
    (requiredLovelace : Int) (forced : List UTxO) (senderAddress : String) :
    Except BuildError Collateral :=
  let byLovelace (a b : UTxO) := decide (a.getLovelace ≤ b.getLovelace)
  let coversFloor (u : UTxO) := decide (COLLATERAL_LOVELACE ≤ u.getLovelace)
  let sorted := (utxos.filter UTxO.isCollateralCandidate).mergeSort byLovelace
  let forcedChoice :=
    if sorted.any coversFloor then none
    else ((forced.filter fun u => decide (u.address.toLower = senderAddress.toLower) &&
      u.isCollateralCandidate && coversFloor u).mergeSort byLovelace).head?
  match (forcedChoice.or (sorted.find? coversFloor)).or sorted.getLast? with
  | none =>
      .error (.transactionValidation ("No ADA-only UTxO available for collateral. Plutus scripts " ++
        "require ADA-only collateral; create one with SetCollateral."))
  | some chosen =>
      let rest := utxos.filter fun u => decide (u.ref ≠ chosen.ref)
      let restLovelace := (rest.map UTxO.getLovelace).sum
      let excess := chosen.getLovelace - COLLATERAL_LOVELACE
      .ok
        { collateralUtxos := [chosen]
          -- a forced input is already spent, so it is never offered to coin selection as well
          fundingUtxos :=
            if forcedChoice.isSome ∨
                requiredLovelace + FEE_BUFFER_LOVELACE + MIN_CHANGE_LOVELACE ≤ restLovelace then rest
            else rest ++ [chosen]
          collateralReturn :=
            if 0 < excess ∧ minimumOutputLovelaces chosen.address excess ≤ excess then
              some (chosen.address, excess)
            else none }

section Collateral

variable {minimumOutputLovelaces : String → Int → Int} {utxos forced : List UTxO}
  {requiredLovelace : Int} {senderAddress : String} {collateral : Collateral}

/-- Collateral and funding come from the pool or the forced inputs. -/
theorem setupCollateral_mem
    (set : setupCollateral minimumOutputLovelaces utxos requiredLovelace forced senderAddress =
      .ok collateral) :
    (∀ u ∈ collateral.collateralUtxos, u ∈ utxos ∨ u ∈ forced) ∧
      ∀ u ∈ collateral.fundingUtxos, u ∈ utxos ∨ u ∈ forced := by
  simp only [setupCollateral] at set
  split at set
  · cases set
  · rename_i chosen isChosen
    cases set
    have chosenFrom : chosen ∈ utxos ∨ chosen ∈ forced := by
      have fromPool {u : UTxO} (sortedMem : u ∈ (utxos.filter UTxO.isCollateralCandidate).mergeSort
          fun a b => decide (a.getLovelace ≤ b.getLovelace)) : u ∈ utxos :=
        (List.mem_filter.mp (List.mem_mergeSort.mp sortedMem)).1
      rcases Option.or_eq_some_iff.mp isChosen with early | ⟨-, last⟩
      · rcases Option.or_eq_some_iff.mp early with isForced | ⟨-, found⟩
        · rw [Option.ite_none_left_eq_some] at isForced
          have forcedMem := List.mem_of_head? isForced.2
          exact Or.inr (List.mem_filter.mp (List.mem_mergeSort.mp forcedMem)).1
        · exact Or.inl (fromPool (List.mem_of_find?_eq_some found))
      · exact Or.inl (fromPool (List.mem_of_getLast? last))
    refine ⟨fun u uMem => List.mem_singleton.mp uMem ▸ chosenFrom, fun u uMem => ?_⟩
    have either {p : Prop} [Decidable p] {first second : List UTxO}
        (uMem : u ∈ if p then first else second) : u ∈ first ∨ u ∈ second := by
      split at uMem
      · exact Or.inl uMem
      · exact Or.inr uMem
    rcases either uMem with rest | whole
    · exact Or.inl (List.mem_filter.mp rest).1
    · rcases List.mem_append.mp whole with rest | isChosen
      · exact Or.inl (List.mem_filter.mp rest).1
      · exact List.mem_singleton.mp isChosen ▸ chosenFrom

end Collateral

end Odatano
