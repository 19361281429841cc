import Odatano.IndexedChain
import Odatano.LedgerUndo
import Odatano.SyncState

/-!
# The crawler's transactions

What `persistBlock` and `handleReorg` of `srv/blockchain/crawler/crawler.ts` do
inside one database transaction, with the part of `indexBlockFull` that keeps
the UTxO set.  A transaction that throws is rolled back, but what it changed in
memory stays.
-/

namespace Odatano

/-- The tables the crawler writes. -/
structure Db where
  crawl : CrawlStore
  ledger : LedgerDb
  sync : SyncState

/-- The anchor the imported UTxO set describes. -/
structure LedgerAnchor where
  slot : Nat
  hash : BlockHash
deriving DecidableEq

/-- The indexer's memory, as far as blocks depend on it. -/
structure Indexer where
  coverage : CrawlCoverage
  crawlUtxoSet : Bool
  utxoAnchor : Option LedgerAnchor
  utxoAnchorVerified : Bool
  ledgerInvalidation : Option String
  /-- The anchor that counts as verified once the open transaction commits. -/
  pendingVerified : Option LedgerAnchor
deriving DecidableEq

namespace Indexer

/-- Set the anchor the imported set describes; null keeps the ledger off. -/
def setUtxoAnchor (indexer : Indexer) (anchor : Option LedgerAnchor) : Indexer :=
  { indexer with
    utxoAnchor := anchor, utxoAnchorVerified := false, ledgerInvalidation := none }

/-- Null while the mode is off, nothing is imported, or an invalidation awaits
its commit. -/
def getUtxoAnchor (indexer : Indexer) : Option LedgerAnchor :=
  if indexer.crawlUtxoSet && indexer.ledgerInvalidation.isNone then indexer.utxoAnchor else none

/-- Apply the memo updates of the block transaction that just committed. -/
def confirmBlockCommit (indexer : Indexer) : Indexer :=
  { indexer with
    pendingVerified := none
    utxoAnchorVerified := indexer.utxoAnchorVerified ||
      (indexer.pendingVerified.isSome && decide (indexer.utxoAnchor = indexer.pendingVerified)) }

/-- Drop the anchor when an invalidation was committed. -/
def takeLedgerInvalidation (indexer : Indexer) : Indexer :=
  if indexer.ledgerInvalidation.isSome then
    { indexer with
      ledgerInvalidation := none, utxoAnchor := none, utxoAnchorVerified := false }
  else indexer

/-- The anchor when the ledger is due for a block: only blocks after it. -/
def ledgerDue (indexer : Indexer) (block : BlockData) : Option LedgerAnchor :=
  if indexer.crawlUtxoSet then
    indexer.utxoAnchor.filter fun anchor => decide (anchor.slot < block.slotOrZero)
  else none

end Indexer

/-- The first 500 characters of an error text. -/
def sliceError (error : String) : String := String.ofList (error.toList.take 500)

def sameHashText (first second : String) : Bool := decide (first.toLower = second.toLower)

/-- Why an anchor is off the chain the crawler followed. -/
def anchorMismatch (anchor : LedgerAnchor) (cursor : SyncState) : String :=
  let anchorHash := anchor.hash.chars
  let cursorHash := (cursor.lastBlockHash.map Text.chars).getD "null"
  s!"anchor {anchor.slot}/{anchorHash} is not the block the crawler followed " ++
    s!"(cursor {cursor.lastSlot}/{cursorHash})"

/-- Before the first block past the anchor the cursor must equal it; not asked
again once a block was applied. -/
def anchorOnChain (cursor : SyncState) (anchor : LedgerAnchor) : Bool :=
  cursor.utxoSet.appliedSlot.isSome ||
    (decide (cursor.lastSlot = anchor.slot) &&
      sameHashText ((cursor.lastBlockHash.map Text.chars).getD "") anchor.hash.chars)

/-- Check the anchor against the cursor; a mismatch is stored and remembered. -/
def verifyUtxoAnchor (indexer : Indexer) (sync : SyncState) (anchor : LedgerAnchor) :
    Indexer × SyncState × Bool :=
  if anchorOnChain sync anchor then
    ({ indexer with pendingVerified := some anchor }, sync, true)
  else
    let reason := anchorMismatch anchor sync
    ({ indexer with ledgerInvalidation := some reason },
      sync.markUtxoSetInvalid (sliceError reason), false)

section Transactions

variable [Bech32]

/-- Index a block with its ledger part in the caller's transaction. -/
def indexBlockFull (indexer : Indexer) (db : Db) (block : BlockData) (txs : List Transaction)
    (epochData : Option Nat) : Indexer × Db :=
  -- memo updates of a rolled-back attempt must not survive into this one
  let indexer := { indexer with pendingVerified := none }
  let crawl (ledger : Option LedgerDb) : CrawlStore :=
    indexBlock indexer.coverage db.crawl ⟨block, txs, epochData, ledger⟩
  match indexer.ledgerDue block with
  | none => (indexer, { db with crawl := crawl none })
  | some anchor =>
      match indexer.ledgerInvalidation with
      | some reason =>
          -- decided in an earlier attempt that rolled back: written again, nothing applied
          (indexer, { db with
            crawl := crawl none
            sync := db.sync.markUtxoSetInvalid (sliceError reason) })
      | none =>
          let verdict :=
            if indexer.utxoAnchorVerified then (indexer, db.sync, true)
            else verifyUtxoAnchor indexer db.sync anchor
          if verdict.2.2 then
            let prepared := prepareBlock db.crawl (some db.ledger) block txs
            (verdict.1,
              { crawl := crawl (some db.ledger)
                ledger :=
                  (applyBlockToLedger db.ledger prepared.block prepared.txs prepared.lookup).1
                sync := verdict.2.1 })
          else (verdict.1, { db with crawl := crawl none, sync := verdict.2.1 })

/-- The point of a block. -/
def BlockData.point (block : BlockData) : ChainPoint :=
  ⟨block.slotOrZero, block.hash, block.height⟩

/-- The block is at or past the tip the source reported. -/
def BlockData.isAtTip (block : BlockData) (tip : Option ChainPoint) : Bool :=
  tip.any fun tip => block.slot.any fun slot => decide (tip.slot ≤ slot)

/-- The transaction of `persistBlock`: null when the lease is lost and it is
rolled back. -/
def persistBlockTx (indexer : Indexer) (db : Db) (block : BlockData) (txs : List Transaction)
    (epochData : Option Nat) (tip : Option ChainPoint) (leaseOwner : Option LeaseOwner)
    (now : Time) : Indexer × Option Db :=
  let indexed := indexBlockFull indexer db block txs epochData
  -- written with the cursor, so a cursor ahead of this mark means blocks skipped the set
  let ledgerApplied := indexed.1.getUtxoAnchor.any fun anchor =>
    decide (anchor.slot < block.slotOrZero)
  let advanced := indexed.2.sync.advanceCursor block.point tip
    (if block.isAtTip tip then .synced else .syncing)
    (if ledgerApplied then some block.slotOrZero else none) leaseOwner now
  (indexed.1, if advanced.2 then some { indexed.2 with sync := advanced.1 } else none)

/-- What a commit of `persistBlock` does in memory. -/
def Indexer.blockCommitted (indexer : Indexer) : Indexer :=
  indexer.confirmBlockCommit.takeLedgerInvalidation

/-- The configured crawl start. -/
structure CrawlStart where
  startSlot : Option Nat
  startBlockHash : Option BlockHash
  startHeight : Option Nat
deriving DecidableEq

/-- The start point, when slot and hash are configured. -/
def CrawlStart.point (config : CrawlStart) : Option ChainPoint :=
  match config.startSlot, config.startBlockHash with
  | some slot, some hash => some ⟨slot, hash, config.startHeight⟩
  | _, _ => none

/-- Where a rollback to a point, or to the origin when there is none, ends. -/
def forkSlotOf (config : CrawlStart) (point : Option ChainPoint) : Nat :=
  match point with
  | none => config.startSlot.getD 0
  | some point => point.slot

/-- The height of the fork point, for the cursor only. -/
def forkHeightOf (crawl : CrawlStore) (point : Option ChainPoint) : Option Nat :=
  match point with
  | none => some 0
  | some point =>
      point.height.or (((crawl .blocks).find? point.hash).map fun row => row.height.getD 0)

/-- The ledger part of a rollback, by the stored status: a fork after the
snapshot is undone, one before it invalidates the set. -/
def rollBackLedger (db : Db) (forkSlot : Nat) (txHashes : List TxHash) : Db × Bool :=
  match db.sync.utxoSet.status, db.sync.utxoSet.anchorSlot with
  | .active, some anchorSlot =>
      if forkSlot < anchorSlot then
        ({ db with
            sync := db.sync.markUtxoSetInvalid
              (s!"reorg to slot {forkSlot} before the UTxO set anchor {anchorSlot}: " ++
                "re-import the set") },
          true)
      else
        ({ db with
            ledger := (undoLedgerForTransactions db.ledger txHashes).1
            sync :=
              if db.sync.utxoSet.appliedSlot.any fun applied => decide (forkSlot < applied) then
                db.sync.setAppliedSlot forkSlot
              else db.sync },
          false)
  | _, _ => (db, false)

/-- The transaction of `handleReorg`: null when the lease is lost and it is
rolled back; otherwise with whether the UTxO set became invalid. -/
def handleReorgTx (config : CrawlStart) (db : Db) (point : Option ChainPoint)
    (leaseOwner : Option LeaseOwner) (now : Time) : Option (Db × Bool) :=
  let renewed := match leaseOwner with
    | none => (db.sync, true)
    | some owner => db.sync.renewCrawlerLease owner now
  if renewed.2 then
    let forkSlot := forkSlotOf config point
    let forkHeight := forkHeightOf db.crawl point
    let rolled := rollBackBlocks db.crawl (staleBlocks db.crawl forkSlot)
    let undone := rollBackLedger { db with crawl := rolled.1, sync := renewed.1 } forkSlot rolled.2
    let sync := match point with
      | none => undone.1.sync.resetCursorTo forkSlot config.startBlockHash 0
      | some point => undone.1.sync.resetCursorTo point.slot (some point.hash) (forkHeight.getD 0)
    some ({ undone.1 with sync }, undone.2)
  else none

/-- What a commit of `handleReorg` does in memory. -/
def Indexer.reorgCommitted (indexer : Indexer) (ledgerInvalidated : Bool) : Indexer :=
  if ledgerInvalidated then indexer.setUtxoAnchor none else indexer

/-! ## What the transactions do to the crawled tables and the cursor -/

/-- The ledger tables, when they answer the inputs of a block. -/
def ledgerAnswering (indexer : Indexer) (db : Db) (block : BlockData) : Option LedgerDb :=
  match indexer.ledgerDue block with
  | none => none
  | some anchor =>
      if indexer.ledgerInvalidation.isNone &&
          (indexer.utxoAnchorVerified || anchorOnChain db.sync anchor) then some db.ledger
      else none

/-- Whatever the ledger does, the crawled tables get the rows of the block. -/
theorem indexBlockFull_crawl (indexer : Indexer) (db : Db) (block : BlockData)
    (txs : List Transaction) (epochData : Option Nat) :
    (indexBlockFull indexer db block txs epochData).2.crawl =
      indexBlock indexer.coverage db.crawl
        ⟨block, txs, epochData, ledgerAnswering indexer db block⟩ := by
  have due : { indexer with pendingVerified := none }.ledgerDue block =
      indexer.ledgerDue block := rfl
  simp only [indexBlockFull, ledgerAnswering, due]
  cases indexer.ledgerDue block with
  | none => rfl
  | some anchor =>
      cases indexer.ledgerInvalidation with
      | some reason => rfl
      | none =>
          cases indexer.utxoAnchorVerified with
          | true => rfl
          | false =>
              by_cases onChain : anchorOnChain db.sync anchor = true
              · simp [verifyUtxoAnchor, onChain]
              · simp [verifyUtxoAnchor, onChain]

/-- Indexing a block keeps the configuration. -/
theorem indexBlockFull_coverage (indexer : Indexer) (db : Db) (block : BlockData)
    (txs : List Transaction) (epochData : Option Nat) :
    (indexBlockFull indexer db block txs epochData).1.coverage = indexer.coverage := by
  simp only [indexBlockFull]
  split
  · rfl
  · split
    · rfl
    · simp only [verifyUtxoAnchor]
      split <;> split <;> rfl

omit [Bech32] in
/-- An advanced cursor stands at the block. -/
theorem SyncState.advanceCursor_cursor {row : SyncState} {block : ChainPoint}
    {tip : Option ChainPoint} {status : CrawlSyncStatus} {applied : Option Nat}
    {leaseOwner : Option LeaseOwner} {now : Time}
    (advanced : (row.advanceCursor block tip status applied leaseOwner now).2 = true) :
    (row.advanceCursor block tip status applied leaseOwner now).1.lastSlot = block.slot ∧
      (row.advanceCursor block tip status applied leaseOwner now).1.lastBlockHash =
        some block.hash := by
  cases leaseOwner with
  | none => exact ⟨rfl, rfl⟩
  | some owner =>
      simp only [advanceCursor] at advanced ⊢
      split
      · exact ⟨rfl, rfl⟩
      · rename_i fenced
        rw [if_neg fenced] at advanced
        simp only [leaseDeadlineReached, importLeaseHeld, Bool.and_eq_true,
          decide_eq_true_eq] at advanced
        exact absurd ⟨advanced.2.1, advanced.1⟩ fenced

/-- A committed block transaction indexed the block and moved the cursor to it. -/
theorem persistBlockTx_committed {indexer : Indexer} {db stored : Db} {block : BlockData}
    {txs : List Transaction} {epochData : Option Nat} {tip : Option ChainPoint}
    {leaseOwner : Option LeaseOwner} {now : Time}
    (committed : (persistBlockTx indexer db block txs epochData tip leaseOwner now).2 =
      some stored) :
    stored.crawl = indexBlock indexer.coverage db.crawl
        ⟨block, txs, epochData, ledgerAnswering indexer db block⟩ ∧
      stored.sync.lastSlot = block.slotOrZero ∧ stored.sync.lastBlockHash = some block.hash := by
  simp only [persistBlockTx, Option.ite_none_right_eq_some] at committed
  obtain ⟨advanced, same⟩ := committed
  cases same
  exact ⟨indexBlockFull_crawl .., SyncState.advanceCursor_cursor advanced⟩

/-- The ledger part of a rollback leaves the crawled tables alone. -/
theorem rollBackLedger_crawl (db : Db) (forkSlot : Nat) (txHashes : List TxHash) :
    (rollBackLedger db forkSlot txHashes).1.crawl = db.crawl := by
  unfold rollBackLedger
  split
  · split <;> rfl
  · rfl

/-- A committed rollback deleted the stale blocks and moved the cursor to the point. -/
theorem handleReorgTx_committed {config : CrawlStart} {db stored : Db} {point : ChainPoint}
    {leaseOwner : Option LeaseOwner} {now : Time} {ledgerInvalidated : Bool}
    (committed : handleReorgTx config db (some point) leaseOwner now =
      some (stored, ledgerInvalidated)) :
    stored.crawl = (rollBackBlocks db.crawl (staleBlocks db.crawl point.slot)).1 ∧
      stored.sync.lastSlot = point.slot ∧ stored.sync.lastBlockHash = some point.hash := by
  simp only [handleReorgTx, Option.ite_none_right_eq_some] at committed
  obtain ⟨-, same⟩ := committed
  cases same
  exact ⟨rollBackLedger_crawl .., rfl, rfl⟩

end Transactions

end Odatano
