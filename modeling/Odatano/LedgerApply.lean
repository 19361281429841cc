import Odatano.LedgerRows

/-!
# Applying a block to the ledger tables

`applyBlockToLedger` of `srv/blockchain/ledger-state.ts` and what it calls: the
outputs a block produces and consumes, the rows it reads, the per-address and
per-stake deltas, and the chunked writes.
-/

namespace Odatano

open LedgerState

/-- The element chunks of a bulk statement, written one after another. -/
def writeChunks {κ ρ : Type*} {key : ρ → κ} [DecidableEq κ] (table : Table key)
    (rows : List ρ) : Table key :=
  (chunk rows IN_CHUNK).foldl Table.upsertAll table

@[simp] theorem writeChunks_eq {κ ρ : Type*} {key : ρ → κ} [DecidableEq κ]
    (table : Table key) (rows : List ρ) : writeChunks table rows = table.upsertAll rows := by
  rw [writeChunks, Table.foldl_upsertAll, flatten_chunk_IN_CHUNK]

/-! ## What a block produces and consumes -/

/-- Outputs the ledger actually produced: collateral return on a phase-2
failure, else the regular ones. -/
def producedOutputs (t : Transaction) : List TxOutputLine :=
  t.outputs.filter fun o => if t.phase2Failed then o.isCollateral else !o.isCollateral

/-- Inputs the ledger actually consumed: collateral on a phase-2 failure, else
the regular ones. -/
def consumedInputs (t : Transaction) : List Outpoint :=
  (t.inputs.filter fun i =>
      if t.phase2Failed then i.isCollateral else !i.isReference && !i.isCollateral).map
    TxInputLine.outpoint

/-- One consumption of an output. -/
structure LedgerSpend where
  key : Outpoint
  spender : TxHash
deriving DecidableEq

/-- All consumptions of a block, in order. -/
def blockSpends (txs : List Transaction) : List LedgerSpend :=
  txs.flatMap fun t => (consumedInputs t).map fun key => ⟨key, t.hash⟩

/-- The marks a spent output carries. -/
def LedgerUtxoRow.markSpent (row : LedgerUtxoRow) (spender : TxHash) (slot : Nat) :
    LedgerUtxoRow :=
  { row with spentTxHash := some spender, spentSlot := some slot }

@[simp] theorem LedgerUtxoRow.outpoint_markSpent (row : LedgerUtxoRow) (spender : TxHash)
    (slot : Nat) : (row.markSpent spender slot).outpoint = row.outpoint := rfl

section Created

variable [Bech32]

/-- The outputs a block produces, built into ledger rows. -/
def producedRows (txs : List Transaction) (slot : Nat) : List LedgerOutput :=
  txs.flatMap fun t => (producedOutputs t).map fun o =>
    buildLedgerUtxoRows ⟨t.hash, o.outputIndex, o.address, o.amount, o.data⟩ (some slot)

/-- The `created` map before any consumption. -/
def createdByBlock (txs : List Transaction) (slot : Nat) : OrderedMap Outpoint LedgerOutput :=
  (producedRows txs slot).foldl
    (fun created built => OrderedMap.set created built.row.outpoint built) Table.empty

end Created

/-- The state of the consumption loop. -/
structure BlockSpends where
  created : OrderedMap Outpoint LedgerOutput
  spentInBlock : List Outpoint
  lookups : List LedgerSpend

/-- Same-block outputs are marked in place, the rest is looked up later. -/
def BlockSpends.spend (slot : Nat) (state : BlockSpends) (s : LedgerSpend) : BlockSpends :=
  match OrderedMap.get? state.created s.key with
  | some own =>
      { state with
        created := OrderedMap.set state.created s.key
          { own with row := own.row.markSpent s.spender slot }
        spentInBlock := state.spentInBlock ++ [s.key] }
  | none => { state with lookups := state.lookups ++ [s] }

/-! ## Reading the consumed outputs -/

/-- Ledger rows and asset rows of a set of source transactions. -/
structure LedgerLookup where
  /-- Source transaction hashes this lookup covers, found or not. -/
  hashes : List TxHash
  rows : OrderedMap Outpoint LedgerUtxoRow
  assets : OrderedMap Outpoint (List LedgerUtxoAssetRow)

/-- A lookup that covers nothing yet. -/
def LedgerLookup.empty : LedgerLookup := ⟨[], Table.empty, Table.empty⟩

/-- Read the rows of one chunk of source transactions into a lookup. -/
def readLedgerChunk (db : LedgerDb) (lookup : LedgerLookup) (hashChunk : List TxHash) :
    LedgerLookup :=
  let rows := db.utxos.select fun r => decide (r.txHash ∈ hashChunk)
  let withAssets := distinct ((rows.filter LedgerUtxoRow.hasAssets).map LedgerUtxoRow.txHash)
  let assets := db.utxoAssets.select fun a => decide (a.utxo.txHash ∈ withAssets)
  { hashes := lookup.hashes ++ hashChunk
    rows := rows.foldl (fun map r => OrderedMap.set map r.outpoint r) lookup.rows
    assets :=
      if withAssets = [] then lookup.assets
      else OrderedMap.collect LedgerUtxoAssetRow.utxo lookup.assets assets }

/-- Read the ledger rows of the given source transactions, except those the
lookup already covers. -/
def readLedgerOutputs (db : LedgerDb) (txHashes : List TxHash) (into : LedgerLookup) :
    LedgerLookup :=
  let todo := (distinct txHashes).filter fun h => decide (h ∉ into.hashes)
  (chunk todo IN_CHUNK).foldl (readLedgerChunk db) into

/-- The rows a block spends outside itself, marked as spent. -/
def spentRowsOf (lookup : LedgerLookup) (slot : Nat) (lookups : List LedgerSpend) :
    List LedgerUtxoRow :=
  lookups.filterMap fun s =>
    match OrderedMap.get? lookup.rows s.key with
    | some row => if row.spentTxHash.isSome then none else some (row.markSpent s.spender slot)
    | none => none

/-! ## Deltas -/

/-- What a block changes at one address. -/
structure AddressDelta where
  lovelace : Int
  utxos : Int
  assets : OrderedMap AssetUnit Int
  stakeAddress : Option StakeAddress
  addressType : AddressType
  isScript : Bool

/-- The delta `deltaFor` sets up for the address of a row. -/
def AddressDelta.start (row : LedgerUtxoRow) : AddressDelta :=
  ⟨0, 0, Table.empty, row.stakeAddress, row.addressType, row.isScript⟩

/-- An output entering (`sign = 1`) or leaving (`sign = -1`) an address. -/
structure LedgerMove where
  row : LedgerUtxoRow
  assets : List LedgerUtxoAssetRow
  sign : Int

/-- Add one move to the delta of its address. -/
def applyDelta (move : LedgerMove) (d : AddressDelta) : AddressDelta :=
  { d with
    lovelace := d.lovelace + move.sign * move.row.lovelace
    utxos := d.utxos + move.sign
    assets := OrderedMap.accumulate LedgerUtxoAssetRow.unit (fun _ => 0)
      (fun a quantity => quantity + move.sign * a.asset.quantity) d.assets move.assets }

/-- The moves of the created outputs; one spent in the same block also leaves. -/
def createdMoves (spends : BlockSpends) : List LedgerMove :=
  spends.created.rows.flatMap fun entry =>
    let output := entry.2
    ⟨output.row, output.assets, 1⟩ ::
      if entry.1 ∈ spends.spentInBlock then [⟨output.row, output.assets, -1⟩] else []

/-- The moves of the outputs spent from the tables. -/
def spentMoves (lookup : LedgerLookup) (spentRows : List LedgerUtxoRow) : List LedgerMove :=
  spentRows.map fun row =>
    ⟨row, (OrderedMap.get? lookup.assets row.outpoint).getD [], -1⟩

/-- `applyDelta(deltaFor(deltas, row), …)` for every move in turn. -/
def deltasOf (moves : List LedgerMove) : OrderedMap Address AddressDelta :=
  OrderedMap.accumulate (fun move => move.row.address) (fun move => AddressDelta.start move.row)
    applyDelta Table.empty moves

/-! ## Writing the sums -/

/-- What a block changes at one stake key. -/
structure StakeDelta where
  lovelace : Int
  utxos : Int
  newAddresses : Int

/-- The stake key of an address row, taken from the delta when there is no row. -/
def stakeOf (prev : Option LedgerAddressRow) (d : AddressDelta) : Option StakeAddress :=
  (prev.bind LedgerAddressRow.stakeAddress).or d.stakeAddress

/-- Add the delta of one address to the delta of its stake key. -/
def addStakeDelta (prev : Option LedgerAddressRow) (d : AddressDelta) (s : StakeDelta) :
    StakeDelta where
  lovelace := s.lovelace + d.lovelace
  utxos := s.utxos + d.utxos
  newAddresses := if prev.isSome then s.newAddresses else s.newAddresses + 1

/-- Every asset delta of some touched addresses, with its key. -/
def assetDeltas (entries : List (Address × AddressDelta)) :
    List ((Address × AssetUnit) × Int) :=
  entries.flatMap fun entry =>
    entry.2.assets.rows.map fun asset => ((entry.1, asset.1), asset.2)

/-- The row an asset delta writes, if the quantity changes and is not used up. -/
def nextAssetRow (stored : Option Int) (key : Address × AssetUnit) (delta : Int) :
    Option LedgerAddressAssetRow :=
  let next := stored.getD 0 + delta
  if delta = 0 ∨ next = 0 then none else some ⟨key.1, key.2, assetSlice key.2 next⟩

/-- The key an asset delta deletes, if it uses the stored quantity up. -/
def nextAssetDelete (stored : Option Int) (key : Address × AssetUnit) (delta : Int) :
    Option (Address × AssetUnit) :=
  if delta ≠ 0 ∧ stored.getD 0 + delta = 0 ∧ stored.isSome then some key else none

/-- Write and delete the rows of some asset deltas. -/
def adjustAssets (assetQty : Address × AssetUnit → Option Int)
    (assets : Table LedgerAddressAssetRow.key) (deltas : List ((Address × AssetUnit) × Int)) :
    Table LedgerAddressAssetRow.key :=
  let assetRows := deltas.filterMap fun delta =>
    nextAssetRow (assetQty delta.1) delta.1 delta.2
  let assetDeletes := deltas.filterMap fun delta =>
    nextAssetDelete (assetQty delta.1) delta.1 delta.2
  assetDeletes.foldl (fun table del => table.delete fun row => decide (row.key = del))
    (writeChunks assets assetRows)

/-- The account row after a block. -/
def nextAccountRow (slot : Nat) (accounts : Table LedgerAccountRow.stakeAddress)
    (entry : StakeAddress × StakeDelta) : LedgerAccountRow :=
  let prev := accounts.find? entry.1
  { stakeAddress := entry.1
    controlledAmount := (prev.map LedgerAccountRow.controlledAmount).getD 0 + entry.2.lovelace
    addressCount := (prev.map LedgerAccountRow.addressCount).getD 0 + entry.2.newAddresses
    utxoCount := (prev.map LedgerAccountRow.utxoCount).getD 0 + entry.2.utxos
    lastActiveSlot := some slot }

/-- Write the accounts of one chunk of stake keys. -/
def writeAccountChunk (slot : Nat) (db : LedgerDb) (entries : List (StakeAddress × StakeDelta)) :
    LedgerDb :=
  let existing := db.accounts.restrict (entries.map Prod.fst)
  { db with accounts := db.accounts.upsertAll (entries.map (nextAccountRow slot existing)) }

/-- Tables and stake deltas while the address chunks are written. -/
structure SumWrites where
  db : LedgerDb
  stakeDeltas : OrderedMap StakeAddress StakeDelta

/-- Write the created rows, their assets, and the spent rows. -/
def writeOutputs (db : LedgerDb) (created : List LedgerOutput)
    (spentRows : List LedgerUtxoRow) : LedgerDb :=
  { db with
    utxos := writeChunks (writeChunks db.utxos (created.map LedgerOutput.row)) spentRows
    utxoAssets := writeChunks db.utxoAssets (created.flatMap LedgerOutput.assets) }

section Apply

variable [Bech32]

/-- The address row after a block. -/
def nextAddressRow (slot : Nat) (prev : Option LedgerAddressRow) (address : Address)
    (d : AddressDelta) : LedgerAddressRow where
  address
  stakeAddress := stakeOf prev d
  paymentCredential := (decodeShelleyAddress address).paymentCredential
  addressType := (prev.map LedgerAddressRow.addressType).getD d.addressType
  isScript := (prev.map LedgerAddressRow.isScript).getD d.isScript
  totalLovelace := (prev.map LedgerAddressRow.totalLovelace).getD 0 + d.lovelace
  utxoCount := (prev.map LedgerAddressRow.utxoCount).getD 0 + d.utxos
  -- null stays null: an address that came with the snapshot has no known first slot
  firstSeenSlot := (prev.map LedgerAddressRow.firstSeenSlot).getD (some slot)
  lastActiveSlot := some slot

/-- Write the addresses and address assets of one chunk of touched addresses.
The chunk carries each address with its delta, which the source looks up again. -/
def writeAddressChunk (slot : Nat) (writes : SumWrites)
    (entries : List (Address × AddressDelta)) : SumWrites :=
  let db := writes.db
  let existing := db.addresses.restrict (entries.map Prod.fst)
  let existingAssets := db.addressAssets.delete fun row =>
    decide (row.address ∉ entries.map Prod.fst)
  let assetQty (key : Address × AssetUnit) : Option Int :=
    (existingAssets.find? key).map fun row => row.asset.quantity
  let addressRows := entries.map fun (address, d) =>
    nextAddressRow slot (existing.find? address) address d
  let stakes := entries.filterMap fun (address, d) =>
    (stakeOf (existing.find? address) d).map fun stake => (stake, existing.find? address, d)
  { db :=
      { db with
        addresses := writeChunks db.addresses addressRows
        addressAssets := adjustAssets assetQty db.addressAssets (assetDeltas entries) }
    stakeDeltas := OrderedMap.accumulate (fun s => s.1) (fun _ => ⟨0, 0, 0⟩)
      (fun s => addStakeDelta s.2.1 s.2.2) writes.stakeDeltas stakes }

/-- Write the addresses, address assets and accounts the deltas touch. -/
def writeSums (slot : Nat) (db : LedgerDb) (deltas : OrderedMap Address AddressDelta) :
    LedgerDb :=
  let writes := (chunk deltas.rows IN_CHUNK).foldl (writeAddressChunk slot) ⟨db, Table.empty⟩
  (chunk writes.stakeDeltas.rows IN_CHUNK).foldl (writeAccountChunk slot) writes.db

/-- What `applyBlockToLedger` reports. -/
structure LedgerApplyResult where
  created : Nat
  spent : Nat
  /-- Consumed outputs with no open row. -/
  missing : Nat
  addresses : Nat
deriving DecidableEq

/-- Apply one block after the anchor.  `lookup` may carry rows the caller
already read.  A missing output is counted and otherwise ignored. -/
def applyBlockToLedger (db : LedgerDb) (block : BlockData) (txs : List Transaction)
    (lookup : Option LedgerLookup) : LedgerDb × LedgerApplyResult :=
  let slot := block.slotOrZero
  -- 1) everything this block produces
  let created := createdByBlock txs slot
  -- 2) everything this block consumes, same-block outputs first, the rest from the tables
  let spends := (blockSpends txs).foldl (BlockSpends.spend slot) ⟨created, [], []⟩
  let lookup := readLedgerOutputs db (spends.lookups.map fun s => s.key.txHash)
    (lookup.getD LedgerLookup.empty)
  let spentRows := spentRowsOf lookup slot spends.lookups
  -- 3) per-address deltas
  let deltas := deltasOf (createdMoves spends ++ spentMoves lookup spentRows)
  -- 4) UTxO rows
  let db := writeOutputs db (spends.created.rows.map Prod.snd) spentRows
  -- 5) addresses, address assets, accounts
  let db := writeSums slot db deltas
  (db,
    { created := spends.created.rows.length
      spent := spends.spentInBlock.length + spentRows.length
      missing := spends.lookups.length - spentRows.length
      addresses := deltas.rows.length })

end Apply

end Odatano
