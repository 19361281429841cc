import Odatano.LedgerApply

/-!
# Undoing blocks and recounting sums

`undoLedgerForTransactions` and the two recounts of
`srv/blockchain/ledger-state.ts`.
-/

namespace Odatano

open LedgerState

/-- Clear the marks of a spent output. -/
def LedgerUtxoRow.reopen (row : LedgerUtxoRow) : LedgerUtxoRow :=
  { row with spentTxHash := none, spentSlot := none }

@[simp] theorem LedgerUtxoRow.outpoint_reopen (row : LedgerUtxoRow) :
    row.reopen.outpoint = row.outpoint := rfl

/-- Whether the row is an open output of an address. -/
def LedgerUtxoRow.openAt (row : LedgerUtxoRow) (address : Address) : Bool :=
  decide (row.address = address) && row.spentTxHash.isNone

/-- Whether the row was spent by one of some transactions. -/
def LedgerUtxoRow.spentBy (row : LedgerUtxoRow) (hashes : List TxHash) : Bool :=
  row.spentTxHash.any fun h => decide (h ∈ hashes)

/-- Quantities per unit of the open outputs of an address. -/
def openAssetSums (db : LedgerDb) (address : Address) : OrderedMap AssetUnit Int :=
  let openRows := db.utxos.select fun row => row.openAt address
  let openKeys := openRows.map LedgerUtxoRow.outpoint
  let withAssets :=
    distinct ((openRows.filter LedgerUtxoRow.hasAssets).map LedgerUtxoRow.txHash)
  (chunk withAssets IN_CHUNK).foldl
    (fun sums hashChunk =>
      let rows := db.utxoAssets.select fun a => decide (a.utxo.txHash ∈ hashChunk)
      OrderedMap.accumulate LedgerUtxoAssetRow.unit (fun _ => 0)
        (fun a quantity => quantity + a.asset.quantity) sums
        (rows.filter fun a => decide (a.utxo ∈ openKeys)))
    Table.empty

/-- Totals per stake key of some address rows. -/
def stakeTotals (rows : List LedgerAddressRow) : OrderedMap StakeAddress StakeDelta :=
  OrderedMap.accumulate (fun entry : StakeAddress × LedgerAddressRow => entry.1)
    (fun _ => ⟨0, 0, 0⟩)
    (fun entry s =>
      { lovelace := s.lovelace + entry.2.totalLovelace
        utxos := s.utxos + entry.2.utxoCount
        newAddresses := s.newAddresses + 1 })
    Table.empty (rows.filterMap fun row => row.stakeAddress.map fun stake => (stake, row))

/-- The account row with recounted sums. -/
def recountedAccount (totals : OrderedMap StakeAddress StakeDelta)
    (accounts : Table LedgerAccountRow.stakeAddress) (stakeAddress : StakeAddress) :
    LedgerAccountRow :=
  let s := (OrderedMap.get? totals stakeAddress).getD ⟨0, 0, 0⟩
  { stakeAddress
    controlledAmount := s.lovelace
    addressCount := s.newAddresses
    utxoCount := s.utxos
    lastActiveSlot := (accounts.find? stakeAddress).bind LedgerAccountRow.lastActiveSlot }

/-- Recount the accounts of one chunk of stake keys. -/
def recountAccountChunk (db : LedgerDb) (stakeChunk : List StakeAddress) : LedgerDb :=
  let addrRows := db.addresses.select fun row => row.stakeAddress.any fun s =>
    decide (s ∈ stakeChunk)
  let existing := db.accounts.restrict stakeChunk
  { db with
    accounts := db.accounts.upsertAll
      (stakeChunk.map (recountedAccount (stakeTotals addrRows) existing)) }

/-- Recount `LedgerAccounts` for the given stake keys from `LedgerAddresses`. -/
def recountLedgerAccounts (db : LedgerDb) (stakeAddresses : List StakeAddress) : LedgerDb :=
  (chunk stakeAddresses IN_CHUNK).foldl recountAccountChunk db

/-- Drop the outputs some transactions created and reopen those they spent. -/
def undoRows (utxos : Table LedgerUtxoRow.outpoint) (hashes : List TxHash) :
    Table LedgerUtxoRow.outpoint :=
  (utxos.delete fun row => decide (row.txHash ∈ hashes)).update
    (fun row => row.spentBy hashes) LedgerUtxoRow.reopen fun _ => rfl

/-- Drop the asset rows of the outputs some transactions created. -/
def undoAssetRows (assets : Table LedgerUtxoAssetRow.key) (hashes : List TxHash) :
    Table LedgerUtxoAssetRow.key :=
  assets.delete fun a => decide (a.utxo.txHash ∈ hashes)

/-- Drop what one chunk of transactions created and reopen what it spent. -/
def undoChunk (state : LedgerDb × List Address) (hashChunk : List TxHash) :
    LedgerDb × List Address :=
  let db := state.1
  let createdRows := db.utxos.select fun row => decide (row.txHash ∈ hashChunk)
  let spentRows := db.utxos.select fun row => row.spentBy hashChunk
  ({ db with
      utxoAssets := undoAssetRows db.utxoAssets hashChunk
      utxos := undoRows db.utxos hashChunk },
    state.2 ++ (createdRows ++ spentRows).map LedgerUtxoRow.address)

section Recount

variable [Bech32]

/-- The address row with recounted sums. -/
def recountedAddress (db : LedgerDb) (address : Address) : LedgerAddressRow :=
  let openRows := db.utxos.select fun row => row.openAt address
  let prev := db.addresses.find? address
  let decoded := decodeShelleyAddress address
  { address
    stakeAddress := (prev.bind LedgerAddressRow.stakeAddress).or
      ((openRows.head?.bind LedgerUtxoRow.stakeAddress).or decoded.stakeAddress)
    paymentCredential := decoded.paymentCredential
    addressType := (prev.map LedgerAddressRow.addressType).getD decoded.type
    isScript := (prev.map LedgerAddressRow.isScript).getD decoded.isScript
    totalLovelace := (openRows.map LedgerUtxoRow.lovelace).sum
    utxoCount := openRows.length
    firstSeenSlot := prev.bind LedgerAddressRow.firstSeenSlot
    lastActiveSlot := prev.bind LedgerAddressRow.lastActiveSlot }

/-- Recount the sums of one address from its open rows. -/
def recountAddress (db : LedgerDb) (address : Address) : LedgerDb :=
  let assetRows := (openAssetSums db address).rows.filterMap fun (unit, quantity) =>
    if quantity = 0 then none
    else some { address, unit, asset := assetSlice unit quantity : LedgerAddressAssetRow }
  { db with
    addresses := db.addresses.upsert (recountedAddress db address)
    addressAssets :=
      writeChunks (db.addressAssets.delete fun row => decide (row.address = address)) assetRows }

/-- Recount the sums of these addresses and of their stake keys. -/
def recountLedgerAddresses (db : LedgerDb) (addresses : List Address) : LedgerDb :=
  let counted := addresses.foldl
    (fun state address =>
      (recountAddress state.1 address,
        state.2 ++ (recountedAddress state.1 address).stakeAddress.toList))
    (db, [])
  recountLedgerAccounts counted.1 (distinct counted.2)

/-- Undo rolled-back transactions, then recount every touched address.  Returns
the recounted addresses. -/
def undoLedgerForTransactions (db : LedgerDb) (txHashes : List TxHash) :
    LedgerDb × List Address :=
  if txHashes = [] then (db, [])
  else
    let undone := (chunk txHashes IN_CHUNK).foldl undoChunk (db, [])
    let addresses := distinct undone.2
    (recountLedgerAddresses undone.1 addresses, addresses)

end Recount

/-! ## The aggregate statements of the import -/

/-- `MIN` over a text column, null on no value. -/
def minText {α : Type*} (chars : α → String) : List α → Option α
  | [] => none
  | value :: rest =>
      match minText chars rest with
      | none => some value
      | some best => if chars value ≤ chars best then some value else some best

theorem minText_of_all_eq {α : Type*} {chars : α → String} {values : List α} {value : α}
    (some_value : values ≠ []) (all_eq : ∀ other ∈ values, other = value) :
    minText chars values = some value := by
  induction values with
  | nil => exact (some_value rfl).elim
  | cons first rest ih =>
      have firstEq : first = value := all_eq first (List.mem_cons_self ..)
      subst firstEq
      cases rest with
      | nil => rfl
      | cons second rest =>
          rw [minText, ih (by simp) fun other otherMem =>
            all_eq other (List.mem_cons_of_mem _ otherMem)]
          simp

/-- The stored spelling of an address type. -/
def AddressType.name : AddressType → String
  | .base => "base"
  | .pointer => "pointer"
  | .enterprise => "enterprise"
  | .reward => "reward"
  | .byron => "byron"
  | .unknown => "unknown"

/-- Sums per address over the open rows. -/
def aggregateAddresses (db : LedgerDb) : List LedgerAddressRow :=
  let openRows := db.utxos.select fun row => row.spentTxHash.isNone
  (distinct (openRows.map LedgerUtxoRow.address)).map fun address =>
    let group := openRows.filter fun row => decide (row.address = address)
    { address
      stakeAddress := minText Text.chars (group.filterMap LedgerUtxoRow.stakeAddress)
      paymentCredential := none
      addressType :=
        (minText AddressType.name (group.map LedgerUtxoRow.addressType)).getD .unknown
      isScript := group.any LedgerUtxoRow.isScript
      totalLovelace := (group.map LedgerUtxoRow.lovelace).sum
      utxoCount := group.length
      firstSeenSlot := none
      lastActiveSlot := none }

/-- The asset rows of open outputs, joined with the address of the output. -/
def openAssets (db : LedgerDb) : List (Address × LedgerUtxoAssetRow) :=
  db.utxoAssets.rows.filterMap fun a =>
    ((db.utxos.find? a.utxo).filter fun row => row.spentTxHash.isNone).map fun row =>
      (row.address, a)

/-- Sums per address and unit over the asset rows of open outputs. -/
def aggregateAddressAssets (db : LedgerDb) : List LedgerAddressAssetRow :=
  let joined := openAssets db
  (distinct (joined.map fun entry => (entry.1, entry.2.unit))).map fun (address, unit) =>
    let group := (joined.filter fun entry =>
      decide ((entry.1, entry.2.unit) = (address, unit))).map fun entry => entry.2.asset
    { address
      unit
      asset :=
        { quantity := (group.map AssetSlice.quantity).sum
          policyId := minText id (group.filterMap AssetSlice.policyId)
          assetNameHex := (minText id (group.map AssetSlice.assetNameHex)).getD ""
          assetName := minText id (group.filterMap AssetSlice.assetName) } }

/-- Sums per stake key over the address rows. -/
def aggregateAccounts (db : LedgerDb) : List LedgerAccountRow :=
  (distinct (db.addresses.rows.filterMap LedgerAddressRow.stakeAddress)).map fun stake =>
    let group := db.addresses.rows.filter fun row => decide (row.stakeAddress = some stake)
    { stakeAddress := stake
      controlledAmount := (group.map LedgerAddressRow.totalLovelace).sum
      addressCount := group.length
      utxoCount := (group.map LedgerAddressRow.utxoCount).sum
      lastActiveSlot := none }

/-- The tables with the three sum tables emptied. -/
def LedgerDb.clearSums (db : LedgerDb) : LedgerDb :=
  { db with addresses := Table.empty, addressAssets := Table.empty, accounts := Table.empty }

/-- Insert the sums of the imported rows.  Each statement fails on a key that is
already stored. -/
def aggregateStatements (db : LedgerDb) : Option LedgerDb := do
  let addresses ← db.addresses.insertAll? (aggregateAddresses db)
  let db := { db with addresses }
  let addressAssets ← db.addressAssets.insertAll? (aggregateAddressAssets db)
  let db := { db with addressAssets }
  let accounts ← db.accounts.insertAll? (aggregateAccounts db)
  pure { db with accounts }

end Odatano
