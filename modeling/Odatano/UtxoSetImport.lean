import Odatano.CrawlerTransactions
import Odatano.LedgerRuns

/-!
# Importing the UTxO set

The transactions of `srv/blockchain/crawler/utxo-set-import.ts`.  An import
loads a snapshot page by page and activates it with the sums in one last
transaction; the rebuild derives only the sums again.  Every transaction fails
when the import lease is lost, and a failed transaction leaves the tables alone.
-/

namespace Odatano

/-- The columns the start of an import writes. -/
def SyncState.beginImport (row : SyncState) (anchor : LedgerAnchor) : SyncState :=
  { row with
    utxoSet := ⟨.importing, some anchor.slot, some anchor.hash, none, none, none⟩ }

/-- The columns the activation writes. -/
def SyncState.activateUtxoSet (row : SyncState) (anchor : LedgerAnchor) (importedAt : Time) :
    SyncState :=
  { row with
    utxoSet :=
      { row.utxoSet with
        status := .active
        anchorSlot := some anchor.slot
        anchorHash := some anchor.hash
        importedAt := some importedAt
        error := none } }

/-- `writeTx`: the lease is renewed first. -/
def writeTx (db : Db) (leaseOwner : LeaseOwner) (now : Time) (write : Db → Option Db) :
    Option Db :=
  let renewed := db.sync.renewImportLease leaseOwner now
  if renewed.2 then write { db with sync := renewed.1 } else none

/-- `writeTxLeaseLast`: the lease is renewed last. -/
def writeTxLeaseLast (db : Db) (leaseOwner : LeaseOwner) (now : Time)
    (write : Db → Option Db) : Option Db :=
  (write db).bind fun written =>
    let renewed := written.sync.renewImportLease leaseOwner now
    if renewed.2 then some { written with sync := renewed.1 } else none

/-- Empty the ledger tables and announce the import. -/
def beginImportTx (db : Db) (anchor : LedgerAnchor) (leaseOwner : LeaseOwner) (now : Time) :
    Option Db :=
  writeTx db leaseOwner now fun db =>
    some { db with ledger := LedgerDb.empty, sync := db.sync.beginImport anchor }

/-- Load the rows of one page of the snapshot. -/
def LedgerDb.loadPage [Bech32] (db : LedgerDb) (entries : List LedgerOutputLike) : LedgerDb :=
  let built := entries.map fun entry => buildLedgerUtxoRows entry none
  { db with
    utxos := writeChunks db.utxos (built.map LedgerOutput.row)
    utxoAssets := writeChunks db.utxoAssets (built.flatMap LedgerOutput.assets) }

def importPageTx [Bech32] (db : Db) (entries : List LedgerOutputLike) (leaseOwner : LeaseOwner)
    (now : Time) : Option Db :=
  writeTx db leaseOwner now fun db => some { db with ledger := db.ledger.loadPage entries }

/-- Derive the sums and mark the set active in one transaction. -/
def activateWithAggregates (db : Db) (anchor : LedgerAnchor) (importedAt : Time)
    (prepare : LedgerDb → LedgerDb) (finish : SyncState → SyncState) (leaseOwner : LeaseOwner)
    (now : Time) : Option Db :=
  writeTxLeaseLast db leaseOwner now fun db =>
    (aggregateStatements (prepare db.ledger)).map fun ledger =>
      { db with ledger, sync := (finish db.sync).activateUtxoSet anchor importedAt }

/-- Write the failure state if the lease is still ours. -/
def markInvalidTx (db : Db) (error : String) (leaseOwner : LeaseOwner) (now : Time) : Db :=
  let renewed := db.sync.renewImportLease leaseOwner now
  { db with
    sync := if renewed.2 then renewed.1.markUtxoSetInvalid (sliceError error) else renewed.1 }

/-! ## Rows of a page -/

section Pages

variable [Bech32] {db : LedgerDb} {entries : List LedgerOutputLike}

/-- The output a snapshot entry describes. -/
def LedgerOutputLike.outpoint (entry : LedgerOutputLike) : Outpoint :=
  ⟨entry.txHash, entry.outputIndex⟩

/-- A page of a snapshot that lists no output twice. -/
structure NewOutputs (db : LedgerDb) (entries : List LedgerOutputLike) : Prop where
  once : (entries.map LedgerOutputLike.outpoint).Nodup
  new : ∀ row ∈ db.utxos.rows, row.outpoint ∉ entries.map LedgerOutputLike.outpoint

private theorem loadPage_outpoints (entries : List LedgerOutputLike) :
    ((entries.map fun entry => buildLedgerUtxoRows entry none).map LedgerOutput.row).map
      LedgerUtxoRow.outpoint = entries.map LedgerOutputLike.outpoint := by
  rw [List.map_map, List.map_map]
  rfl

/-- The output rows after a page: those before and those of the page. -/
theorem rows_loadPage (isNew : NewOutputs db entries) :
    (db.loadPage entries).utxos.rows = db.utxos.rows ++
      entries.map fun entry => (buildLedgerUtxoRows entry none).row := by
  rw [LedgerDb.loadPage, writeChunks_eq, Table.rows_upsertAll_of_new db.utxos]
  · rw [List.map_map]
    rfl
  · rw [loadPage_outpoints]
    exact isNew.once
  · intro row rowMem stored
    obtain ⟨old, oldMem, same⟩ := List.mem_map.mp stored
    refine isNew.new old oldMem ?_
    rw [same, ← loadPage_outpoints]
    exact List.mem_map_of_mem rowMem

/-- A page of new outputs keeps the rows well built. -/
theorem loadPage_rowsBuilt (built : db.RowsBuilt) (isNew : NewOutputs db entries) :
    (db.loadPage entries).RowsBuilt where
  ownerDecoded := by
    intro row rowMem
    rw [rows_loadPage isNew] at rowMem
    rcases List.mem_append.mp rowMem with stored | loaded
    · exact built.ownerDecoded row stored
    · obtain ⟨entry, -, rfl⟩ := List.mem_map.mp loaded
      exact (buildLedgerUtxoRows_wellBuilt entry none).ownerDecoded
  unspent := by
    intro row rowMem
    rw [rows_loadPage isNew] at rowMem
    rcases List.mem_append.mp rowMem with stored | loaded
    · exact built.unspent row stored
    · obtain ⟨entry, -, rfl⟩ := List.mem_map.mp loaded
      exact (buildLedgerUtxoRows_wellBuilt entry none).unspent
  assetOwned := by
    intro a aMem
    rw [rows_loadPage isNew]
    simp only [LedgerDb.loadPage, writeChunks_eq] at aMem
    rcases Table.mem_upsertAll aMem with stored | loaded
    · obtain ⟨row, rowMem, owner, hasAssets⟩ := built.assetOwned a stored
      exact ⟨row, List.mem_append_left _ rowMem, owner, hasAssets⟩
    · obtain ⟨output, outputMem, owned⟩ := List.mem_flatMap.mp loaded
      obtain ⟨entry, entryMem, rfl⟩ := List.mem_map.mp outputMem
      have wellBuilt := buildLedgerUtxoRows_wellBuilt entry none
      refine ⟨_, List.mem_append_right _ (List.mem_map_of_mem entryMem),
        (wellBuilt.assetsOwned a owned).symm, ?_⟩
      rw [wellBuilt.hasAssets, Bool.not_eq_true', List.isEmpty_eq_false_iff]
      exact List.ne_nil_of_mem owned

end Pages

end Odatano
