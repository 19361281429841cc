import Odatano.CrawlerLedger
import Odatano.UtxoSetImport

/-!
# Crawling with the UTxO set

Runs of one crawler whose block and rollback transactions come one after
another, with imports while it is stopped.  While it runs with the mode on, an
active set holds every block after its anchor up to the cursor, and no other.
-/

namespace Odatano

/-- The crawler, the import that runs, and what the ledger tables were built from. -/
structure SetCrawl where
  crawler : Crawler
  running : Bool
  /-- The block whose last attempt failed; it is the next one attempted. -/
  retrying : Option RollForward
  /-- The anchor of the import that holds the lease. -/
  importing : Option LedgerAnchor
  /-- The ledger tables the last import activated. -/
  snapshot : LedgerDb
  /-- The blocks applied to the ledger since, without those undone. -/
  applied : List IndexedBlock

/-- The stored UTxO-set columns. -/
def SetCrawl.utxoSet (c : SetCrawl) : UtxoSetState := c.crawler.db.sync.utxoSet

def SetCrawl.lastSlot (c : SetCrawl) : Nat := c.crawler.db.sync.lastSlot

/-- A block as the ledger sees it. -/
def IndexedBlock.ledgerBlock (b : IndexedBlock) : LedgerBlock := ⟨b.block, b.txs⟩

/-- The blocks of a chain after a slot. -/
def blocksAfter (chain : List IndexedBlock) (slot : Nat) : List IndexedBlock :=
  chain.filter fun b => decide (slot < b.slot)

/-- The anchor is the crawl start or a block of the chain. -/
def AnchorOnChain (start : ChainPoint) (chain : List IndexedBlock) (anchor : LedgerAnchor) :
    Prop :=
  ∃ point, OnChain start chain point ∧ point.slot = anchor.slot ∧
    sameHashText point.hash.chars anchor.hash.chars = true

/-- The blocks after the anchor are transactions the snapshot does not know yet,
once the anchor is on the chain. -/
def SetCrawl.Extends (start : ChainPoint) (c : SetCrawl) (chain : List IndexedBlock) : Prop :=
  ∀ anchor, c.utxoSet.activeAnchor = some anchor → AnchorOnChain start chain anchor →
    ExtendsLedger c.snapshot ((blocksAfter chain anchor.slot).map IndexedBlock.ledgerBlock)

/-- The lease `start` takes before it runs, if the crawler is given an owner. -/
def SyncState.acquireFor (row : SyncState) (leaseOwner : Option LeaseOwner) (now : Time) :
    SyncState × Bool :=
  match leaseOwner with
  | none => (row, true)
  | some owner => row.tryAcquireCrawlerLease owner now

/-- `start` takes the lease and looks at the UTxO set it has read before. -/
def SetCrawl.start (c : SetCrawl) (utxoSet : Bool) (leaseOwner : Option LeaseOwner) (now : Time) :
    SetCrawl :=
  let started := startUtxoSet utxoSet c.crawler.db.sync c.crawler.indexer
    (c.crawler.db.sync.acquireFor leaseOwner now).1
  { c with
    crawler := { c.crawler with db := { c.crawler.db with sync := started.2 }, indexer := started.1 }
    running := true
    retrying := none }

/-- A block whose transaction committed. -/
def SetCrawl.blockCommitted (c : SetCrawl) (db : Db) (attempt : Indexer) (b : IndexedBlock) :
    SetCrawl :=
  { c with
    crawler := ⟨db, attempt.blockCommitted, c.crawler.chain ++ [b]⟩
    retrying := none
    applied := if b.ledger.isSome then c.applied ++ [b] else c.applied }

section Steps

variable [Bech32]

/-- The steps of a crawl with the UTxO set. -/
inductive SetCrawlStep (config : CrawlStart) (start : ChainPoint) (base : CrawlStore) :
    SetCrawl → SetCrawl → Prop
  | start (c : SetCrawl) (utxoSet : Bool) (leaseOwner : Option LeaseOwner) (now : Time)
      (stopped : c.running = false) (noImport : c.importing = none)
      (acquired : (c.crawler.db.sync.acquireFor leaseOwner now).2 = true) :
      SetCrawlStep config start base c (c.start utxoSet leaseOwner now)
  -- stop, halt or a crash, which loses the memory
  | stop (c : SetCrawl) (indexer : Indexer)
      (configured : indexer.coverage = c.crawler.indexer.coverage) :
      SetCrawlStep config start base c
        { c with crawler := { c.crawler with indexer }, running := false, retrying := none }
  -- leases, statuses, error streaks
  | bookkeeping (c : SetCrawl) (sync : SyncState)
      (cursorSlot : sync.lastSlot = c.crawler.db.sync.lastSlot)
      (cursorHash : sync.lastBlockHash = c.crawler.db.sync.lastBlockHash)
      (utxoSet : sync.utxoSet = c.crawler.db.sync.utxoSet) :
      SetCrawlStep config start base c
        { c with crawler := { c.crawler with db := { c.crawler.db with sync } } }
  -- the transaction rolls back at any statement, the memory stays
  | attemptFails (c : SetCrawl) (message : RollForward) (indexer : Indexer)
      (running : c.running = true) (turn : c.retrying = none ∨ c.retrying = some message)
      (memory : indexer = c.crawler.indexer ∨
        indexer = { c.crawler.indexer with pendingVerified := none } ∨
        indexer = (indexBlockFull c.crawler.indexer c.crawler.db message.block message.txs
          message.epochData).1) :
      SetCrawlStep config start base c
        { c with crawler := { c.crawler with indexer }, retrying := some message }
  | commitBlock (c : SetCrawl) (message : RollForward) (leaseOwner : Option LeaseOwner)
      (now : Time) (indexer : Indexer) (db : Db) (running : c.running = true)
      (turn : c.retrying = none ∨ c.retrying = some message)
      (complete : message.txs.length = message.block.txCount)
      (next : FollowedChain start base
        (c.crawler.chain ++ [message.indexed c.crawler.indexer c.crawler.db]))
      (valid : c.Extends start
        (c.crawler.chain ++ [message.indexed c.crawler.indexer c.crawler.db]))
      (committed : persistBlockTx c.crawler.indexer c.crawler.db message.block message.txs
        message.epochData message.tip leaseOwner now = (indexer, some db)) :
      SetCrawlStep config start base c
        (c.blockCommitted db indexer (message.indexed c.crawler.indexer c.crawler.db))
  | commitReorg (c : SetCrawl) (point : ChainPoint) (leaseOwner : Option LeaseOwner)
      (now : Time) (db : Db) (ledgerInvalidated : Bool) (running : c.running = true)
      (idle : c.retrying = none) (onChain : OnChain start c.crawler.chain point)
      (offCursor : c.crawler.db.sync.lastBlockHash ≠ some point.hash)
      (committed : handleReorgTx config c.crawler.db (some point) leaseOwner now =
        some (db, ledgerInvalidated)) :
      SetCrawlStep config start base c
        { c with
          crawler :=
            ⟨db, c.crawler.indexer.reorgCommitted ledgerInvalidated,
              c.crawler.chain.filter fun b => decide (b.slot ≤ point.slot)⟩
          applied :=
            if c.crawler.db.undoesLedger point.slot then
              c.applied.filter fun b => decide (b.slot ≤ point.slot)
            else c.applied }
  | beginImport (c : SetCrawl) (anchor : LedgerAnchor) (leaseOwner : LeaseOwner) (now : Time)
      (db : Db) (stopped : c.running = false)
      (ahead : c.crawler.db.sync.lastSlot ≤ anchor.slot)
      (committed : beginImportTx c.crawler.db anchor leaseOwner now = some db) :
      SetCrawlStep config start base c
        { c with
          crawler := { c.crawler with db, indexer := c.crawler.indexer.setUtxoAnchor none }
          importing := some anchor }
  | importPage (c : SetCrawl) (anchor : LedgerAnchor) (entries : List LedgerOutputLike)
      (leaseOwner : LeaseOwner) (now : Time) (db : Db) (loading : c.importing = some anchor)
      (isNew : NewOutputs c.crawler.db.ledger entries)
      (committed : importPageTx c.crawler.db entries leaseOwner now = some db) :
      SetCrawlStep config start base c { c with crawler := { c.crawler with db } }
  | activate (c : SetCrawl) (anchor : LedgerAnchor) (importedAt : Time)
      (leaseOwner : LeaseOwner) (now : Time) (db : Db) (loading : c.importing = some anchor)
      (committed : activateWithAggregates c.crawler.db anchor importedAt id id leaseOwner now =
        some db) :
      SetCrawlStep config start base c
        { c with
          crawler := { c.crawler with db, indexer := c.crawler.indexer.setUtxoAnchor (some anchor) }
          importing := none
          snapshot := db.ledger
          applied := [] }
  | importFails (c : SetCrawl) (error : String) (leaseOwner : LeaseOwner) (now : Time) :
      SetCrawlStep config start base c
        { c with
          crawler := { c.crawler with db := markInvalidTx c.crawler.db error leaseOwner now }
          importing := none }
  -- the import's process dies
  | importCrashes (c : SetCrawl) : SetCrawlStep config start base c { c with importing := none }

end Steps

end Odatano
