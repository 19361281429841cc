import Odatano.OrderedMap
import Odatano.ShelleyAddress

/-!
# The ledger tables

The five tables of the maintained UTxO set and the row builder shared by the
block path and the import (`srv/blockchain/ledger-state.ts`, `db/schema.cds`).
-/

namespace Odatano

/-- Quantity and decomposed unit of an asset. -/
structure AssetSlice where
  quantity : Int
  policyId : Option String
  assetNameHex : String
  assetName : Option String
deriving DecidableEq

/-- A `LedgerUTxOs` row. -/
structure LedgerUtxoRow where
  txHash : TxHash
  outputIndex : Nat
  address : Address
  stakeAddress : Option StakeAddress
  addressType : AddressType
  isScript : Bool
  lovelace : Int
  createdSlot : Option Nat
  spentTxHash : Option TxHash
  spentSlot : Option Nat
  utxo : UtxoData
  paymentCredential : Option String
  hasAssets : Bool
deriving DecidableEq

/-- A `LedgerUTxOAssets` row; its key is the owning output and the unit. -/
structure LedgerUtxoAssetRow where
  utxo : Outpoint
  unit : AssetUnit
  asset : AssetSlice
deriving DecidableEq

/-- A `LedgerAddresses` row: running sums over the open outputs of an address. -/
structure LedgerAddressRow where
  address : Address
  stakeAddress : Option StakeAddress
  paymentCredential : Option String
  addressType : AddressType
  isScript : Bool
  totalLovelace : Int
  utxoCount : Int
  firstSeenSlot : Option Nat
  lastActiveSlot : Option Nat
deriving DecidableEq

/-- A `LedgerAddressAssets` row. -/
structure LedgerAddressAssetRow where
  address : Address
  unit : AssetUnit
  asset : AssetSlice
deriving DecidableEq

/-- A `LedgerAccounts` row: running sums over the addresses of a stake key. -/
structure LedgerAccountRow where
  stakeAddress : StakeAddress
  controlledAmount : Int
  addressCount : Int
  utxoCount : Int
  lastActiveSlot : Option Nat
deriving DecidableEq

/-- The primary key `txHash#outputIndex`. -/
def LedgerUtxoRow.outpoint (row : LedgerUtxoRow) : Outpoint :=
  ⟨row.txHash, row.outputIndex⟩

@[simp] theorem LedgerUtxoRow.outpoint_txHash (row : LedgerUtxoRow) :
    row.outpoint.txHash = row.txHash := rfl

/-- The primary key of an asset of an output. -/
def LedgerUtxoAssetRow.key (row : LedgerUtxoAssetRow) : Outpoint × AssetUnit :=
  (row.utxo, row.unit)

/-- The primary key of an asset of an address. -/
def LedgerAddressAssetRow.key (row : LedgerAddressAssetRow) : Address × AssetUnit :=
  (row.address, row.unit)

/-- The ledger tables. -/
structure LedgerDb where
  utxos : Table LedgerUtxoRow.outpoint
  utxoAssets : Table LedgerUtxoAssetRow.key
  addresses : Table LedgerAddressRow.address
  addressAssets : Table LedgerAddressAssetRow.key
  accounts : Table LedgerAccountRow.stakeAddress

/-- The ledger tables before the first import. -/
def LedgerDb.empty : LedgerDb :=
  ⟨Table.empty, Table.empty, Table.empty, Table.empty, Table.empty⟩

namespace LedgerState

/-- The value of a hexadecimal digit. -/
def hexDigitValue (digit : Char) : Option Nat :=
  if '0' ≤ digit ∧ digit ≤ '9' then some (digit.toNat - '0'.toNat)
  else if 'a' ≤ digit ∧ digit ≤ 'f' then some (digit.toNat - 'a'.toNat + 10)
  else if 'A' ≤ digit ∧ digit ≤ 'F' then some (digit.toNat - 'A'.toNat + 10)
  else none

/-- `Buffer.from(hex, 'hex')`: the bytes up to the first pair that is not hexadecimal. -/
def hexBytes : List Char → List Nat
  | high :: low :: rest =>
      match hexDigitValue high, hexDigitValue low with
      | some highValue, some lowValue => (16 * highValue + lowValue) :: hexBytes rest
      | _, _ => []
  | _ => []

/-- The text of an asset name of printable ASCII bytes.  Any other byte decodes
to a character outside that range, so it leaves no useful text. -/
def decodeAssetName (hex : String) : Option String :=
  if hex = "" then none
  else
    let bytes := hexBytes hex.toList
    if bytes.all fun byte => decide (0x20 ≤ byte ∧ byte ≤ 0x7e) then
      some (String.ofList (bytes.map Char.ofNat))
    else none

/-- The asset columns of a unit: 56 hexadecimal digits of policy, then the name. -/
def assetSlice (unit : AssetUnit) (quantity : Int) : AssetSlice :=
  let digits := unit.chars.toList
  let name := String.ofList (digits.drop 56)
  { quantity
    policyId := if 56 ≤ digits.length then some (String.ofList (digits.take 56)) else none
    assetNameHex := if 56 < digits.length then name else ""
    assetName := if 56 < digits.length then decodeAssetName name else none }

end LedgerState

open LedgerState

/-- Minimal output shape the row builder needs. -/
structure LedgerOutputLike where
  txHash : TxHash
  outputIndex : Nat
  address : Address
  amount : Value
  data : UtxoData
deriving DecidableEq

/-- The amounts other than ada, without empty ones. -/
def nativeAssets (amount : Value) : List Amount :=
  amount.amounts.filter fun a => decide (a.unit ≠ lovelace ∧ a.quantity ≠ 0)

theorem nativeAssets_units_nodup (amount : Value) :
    ((nativeAssets amount).map Amount.unit).Nodup :=
  amount.units_nodup.sublist (List.filter_sublist.map _)

/-- A `LedgerUTxOs` row together with its asset rows. -/
structure LedgerOutput where
  row : LedgerUtxoRow
  assets : List LedgerUtxoAssetRow
deriving DecidableEq

variable [Bech32]

/-- Build the `LedgerUTxOs` row and the asset rows for one output. -/
def buildLedgerUtxoRows (o : LedgerOutputLike) (createdSlot : Option Nat) : LedgerOutput :=
  let decoded := decodeShelleyAddress o.address
  let assets := (nativeAssets o.amount).map fun a =>
    { utxo := ⟨o.txHash, o.outputIndex⟩
      unit := a.unit
      asset := assetSlice a.unit a.quantity : LedgerUtxoAssetRow }
  { row :=
      { txHash := o.txHash
        outputIndex := o.outputIndex
        address := o.address
        stakeAddress := decoded.stakeAddress
        addressType := decoded.type
        isScript := decoded.isScript
        lovelace := lovelaceOf o.amount.amounts
        createdSlot
        spentTxHash := none
        spentSlot := none
        utxo :=
          { dataHash := orNull o.data.dataHash
            inlineDatum := orNull o.data.inlineDatum
            referenceScriptHash := orNull o.data.referenceScriptHash
            referenceScriptSize := o.data.referenceScriptSize
            referenceScriptType := o.data.referenceScriptType }
        paymentCredential := decoded.paymentCredential
        hasAssets := !assets.isEmpty }
    assets }

/-- The columns of a row that repeat what its address decodes to. -/
structure LedgerUtxoRow.OwnerDecoded (row : LedgerUtxoRow) : Prop where
  stakeAddress : row.stakeAddress = (decodeShelleyAddress row.address).stakeAddress
  addressType : row.addressType = (decodeShelleyAddress row.address).type
  isScript : row.isScript = (decodeShelleyAddress row.address).isScript
  paymentCredential :
    row.paymentCredential = (decodeShelleyAddress row.address).paymentCredential

/-- What an output built by the row builder looks like, spent since or not. -/
structure LedgerOutput.WellBuilt (output : LedgerOutput) : Prop where
  ownerDecoded : output.row.OwnerDecoded
  unspent : output.row.spentTxHash = none → output.row.spentSlot = none
  assetsOwned : ∀ asset ∈ output.assets, asset.utxo = output.row.outpoint
  assetUnits_nodup : (output.assets.map LedgerUtxoAssetRow.unit).Nodup
  hasAssets : output.row.hasAssets = !output.assets.isEmpty

theorem buildLedgerUtxoRows_wellBuilt (o : LedgerOutputLike) (createdSlot : Option Nat) :
    (buildLedgerUtxoRows o createdSlot).WellBuilt where
  ownerDecoded := ⟨rfl, rfl, rfl, rfl⟩
  unspent := fun _ => rfl
  assetsOwned := by
    intro asset assetMem
    obtain ⟨amount, -, rfl⟩ := List.mem_map.mp assetMem
    rfl
  assetUnits_nodup := by
    simpa [buildLedgerUtxoRows, Function.comp_def] using nativeAssets_units_nodup o.amount
  hasAssets := rfl

@[simp] theorem buildLedgerUtxoRows_spentTxHash (o : LedgerOutputLike)
    (createdSlot : Option Nat) : (buildLedgerUtxoRows o createdSlot).row.spentTxHash = none := rfl

@[simp] theorem buildLedgerUtxoRows_outpoint (o : LedgerOutputLike) (createdSlot : Option Nat) :
    (buildLedgerUtxoRows o createdSlot).row.outpoint = ⟨o.txHash, o.outputIndex⟩ := rfl

end Odatano
