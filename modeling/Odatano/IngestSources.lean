import Odatano.CrawledChain
import Odatano.ParentTree

/-!
# Sources of one crawler

The ingest loop of `srv/blockchain/crawler/crawler.ts` reads blocks from one
source after another: chain-sync streams, reopened when the socket closes, and
rounds of pagination.  A callback of an ended stream may still be in flight when
the next source starts, because `endStream` closes the socket without waiting
for it, unlike `beginHalt`.
-/

namespace Odatano

/-- What a callback in flight is about to do. -/
inductive IngestJob
  | persist (message : RollForward)
  /-- A `rollBackward` that has not compared its point with the cursor yet. -/
  | check (point : ChainPoint)
  | reorg (point : ChainPoint)

/-- The block a job leaves the cursor at. -/
def IngestJob.target : IngestJob → BlockHash
  | persist message => message.block.hash
  | check point => point.hash
  | reorg point => point.hash

structure Callback where
  source : Nat
  job : IngestJob

inductive SourceKind
  | chainSync
  | pagination
deriving DecidableEq

/-- The source the ingest loop reads from: `point` is what it delivered last. -/
structure Source where
  id : Nat
  kind : SourceKind
  point : ChainPoint
  /-- Its position was compared with the cursor. -/
  checked : Bool

inductive NextSource
  | chainSync
  | pagination
  | stopped
deriving DecidableEq

structure Ingest where
  db : Db
  indexer : Indexer
  /-- Blocks applied to the store and not rolled back, the last one first. -/
  applied : List BlockHash
  /-- The block below them: the crawl start, or an earlier block rolled back to. -/
  base : BlockHash
  source : Option Source
  next : NextSource
  blocksThisStream : Nat
  callbacks : List Callback
  /-- The last source that read the cursor to start from. -/
  lastRead : Nat
  /-- The last source whose position was compared with the cursor. -/
  lastChecked : Nat

namespace Ingest

/-- The last block applied. -/
def tip (ingest : Ingest) : BlockHash := ingest.applied.headD ingest.base

/-- The callbacks left when the one of a source is done. -/
def settle (ingest : Ingest) (id : Nat) : List Callback :=
  ingest.callbacks.filter fun c => decide (c.source ≠ id)

def Busy (ingest : Ingest) (id : Nat) : Prop := ∃ c ∈ ingest.callbacks, c.source = id

/-- A source's position was compared with the cursor. -/
def markChecked (ingest : Ingest) (id : Nat) : Ingest :=
  { ingest with
    source := ingest.source.map fun source =>
      if source.id = id then { source with checked := true } else source
    lastChecked := max ingest.lastChecked id }

def openSource (ingest : Ingest) (kind : SourceKind) (point : ChainPoint) : Ingest :=
  { ingest with
    source := some ⟨ingest.lastRead + 1, kind, point, false⟩
    lastRead := ingest.lastRead + 1
    blocksThisStream := 0 }

def deliver (ingest : Ingest) (source : Source) (point : ChainPoint) (job : IngestJob) : Ingest :=
  { ingest with
    source := some { source with point }
    callbacks := ingest.callbacks ++ [⟨source.id, job⟩] }

/-- What `handleReorg` leaves of the applied blocks. -/
def cutAt (ingest : Ingest) (tree : ParentTree BlockHash) (point : ChainPoint) : Ingest :=
  { ingest with
    applied := tree.upTo point.slot ingest.applied
    base := if point.slot < tree.rank ingest.base then point.hash else ingest.base }

end Ingest

section Steps

variable [Bech32]

/-- The steps of the ingest loop and of its callbacks.  `allowed` says which
callbacks may commit a transaction; the code itself asks for nothing. -/
inductive IngestStep (tree : ParentTree BlockHash) (config : CrawlStart)
    (allowed : Ingest → Callback → Prop) : Ingest → Ingest → Prop
  | openStream (ingest : Ingest) (point : ChainPoint) (idle : ingest.source = none)
      (due : ingest.next = .chainSync) (offered : point ∈ buildIntersectionPoints config ingest.db)
      (slot : point.slot = tree.rank point.hash)
      -- the server has the blocks the crawl started from
      (settled : point.slot ≤ tree.rank ingest.base ∨ config.point = some point →
        tree.Ancestor point.hash ingest.tip) :
      IngestStep tree config allowed ingest (ingest.openSource .chainSync point)
  -- a stream opens with a rollBackward to the intersection
  | handshake (ingest : Ingest) (source : Source) (live : ingest.source = some source)
      (unchecked : source.checked = false) (ready : ¬ ingest.Busy source.id) :
      IngestStep tree config allowed ingest
        (ingest.deliver source source.point (.check source.point))
  | rollForward (ingest : Ingest) (source : Source) (message : RollForward)
      (live : ingest.source = some source) (checked : source.checked = true)
      (ready : ¬ ingest.Busy source.id)
      (child : tree.ChildOf message.block.hash source.point.hash)
      (slot : message.block.slot = some (tree.rank message.block.hash)) :
      IngestStep tree config allowed ingest
        (ingest.deliver source message.block.point (.persist message))
  | rollBackward (ingest : Ingest) (source : Source) (point : ChainPoint)
      (live : ingest.source = some source) (stream : source.kind = .chainSync)
      (checked : source.checked = true) (ready : ¬ ingest.Busy source.id)
      (ancestor : tree.Ancestor point.hash source.point.hash)
      (slot : point.slot = tree.rank point.hash) :
      IngestStep tree config allowed ingest (ingest.deliver source point (.check point))
  -- the round reads the cursor and asks for the blocks after it
  | openPagination (ingest : Ingest) (hash : BlockHash) (idle : ingest.source = none)
      (due : ingest.next = .pagination) (cursor : ingest.db.sync.lastBlockHash = some hash) :
      IngestStep tree config allowed ingest
        ((ingest.openSource .pagination ⟨ingest.db.sync.lastSlot, hash, none⟩).markChecked
          (ingest.lastRead + 1))
  -- tryReorgRecovery rolls back to a stored block the provider still has
  | recover (ingest : Ingest) (source : Source) (point : ChainPoint)
      (live : ingest.source = some source) (pages : source.kind = .pagination)
      (checked : source.checked = true) (ready : ¬ ingest.Busy source.id)
      (ancestor : tree.Ancestor point.hash source.point.hash)
      (slot : point.slot = tree.rank point.hash) :
      IngestStep tree config allowed ingest (ingest.deliver source point (.reorg point))
  | endRound (ingest : Ingest) (source : Source) (next : NextSource)
      (live : ingest.source = some source) (pages : source.kind = .pagination)
      (ready : ¬ ingest.Busy source.id) :
      IngestStep tree config allowed ingest { ingest with source := none, next }
  -- the socket closes or fails at any moment; without progress pagination takes over
  | endStream (ingest : Ingest) (source : Source) (next : NextSource)
      (live : ingest.source = some source) (stream : source.kind = .chainSync)
      (progress : next = .chainSync → 0 < ingest.blocksThisStream) :
      IngestStep tree config allowed ingest { ingest with source := none, next }
  | halt (ingest : Ingest) :
      IngestStep tree config allowed ingest { ingest with source := none, next := .stopped }
  -- beginHalt drains the callbacks before the crawler can be started again
  | restart (ingest : Ingest) (stopped : ingest.next = .stopped)
      (drained : ingest.callbacks = []) :
      IngestStep tree config allowed ingest { ingest with next := .chainSync }
  | acknowledge (ingest : Ingest) (c : Callback) (point : ChainPoint)
      (inFlight : c ∈ ingest.callbacks) (job : c.job = .check point)
      (atCursor : ingest.db.sync.lastBlockHash = some point.hash) :
      IngestStep tree config allowed ingest
        { ingest.markChecked c.source with callbacks := ingest.settle c.source }
  | mismatch (ingest : Ingest) (c : Callback) (point : ChainPoint)
      (inFlight : c ∈ ingest.callbacks) (job : c.job = .check point)
      (offCursor : ingest.db.sync.lastBlockHash ≠ some point.hash) :
      IngestStep tree config allowed ingest
        { ingest with callbacks := ingest.settle c.source ++ [⟨c.source, .reorg point⟩] }
  | commitBlock (ingest : Ingest) (c : Callback) (message : RollForward)
      (leaseOwner : Option LeaseOwner) (now : Time) (indexer : Indexer) (db : Db)
      (inFlight : c ∈ ingest.callbacks) (job : c.job = .persist message)
      (complete : message.txs.length = message.block.txCount) (permitted : allowed ingest c)
      (committed : persistBlockTx ingest.indexer ingest.db message.block message.txs
        message.epochData message.tip leaseOwner now = (indexer, some db)) :
      IngestStep tree config allowed ingest
        { ingest with
          db
          indexer := indexer.blockCommitted
          applied := message.block.hash :: ingest.applied
          callbacks := ingest.settle c.source
          blocksThisStream := ingest.blocksThisStream + 1 }
  | commitReorg (ingest : Ingest) (c : Callback) (point : ChainPoint)
      (leaseOwner : Option LeaseOwner) (now : Time) (db : Db) (ledgerInvalidated : Bool)
      (inFlight : c ∈ ingest.callbacks) (job : c.job = .reorg point)
      (permitted : allowed ingest c)
      (committed : handleReorgTx config ingest.db (some point) leaseOwner now =
        some (db, ledgerInvalidated)) :
      IngestStep tree config allowed ingest
        { (ingest.markChecked c.source).cutAt tree point with
          db
          indexer := ingest.indexer.reorgCommitted ledgerInvalidated
          callbacks := ingest.settle c.source }
  -- a callback whose source ended gives up without a commit
  | abandon (ingest : Ingest) (c : Callback) (inFlight : c ∈ ingest.callbacks)
      (orphaned : ∀ source, ingest.source = some source → source.id ≠ c.source) :
      IngestStep tree config allowed ingest
        { ingest with callbacks := ingest.settle c.source }
  -- failed attempts, imports, operator commands: not the crawled tables nor the cursor
  | other (ingest : Ingest) (db : Db) (indexer : Indexer) (tables : db.crawl = ingest.db.crawl)
      (cursorSlot : db.sync.lastSlot = ingest.db.sync.lastSlot)
      (cursorHash : db.sync.lastBlockHash = ingest.db.sync.lastBlockHash) :
      IngestStep tree config allowed ingest { ingest with db, indexer }

end Steps

/-! ## The property -/

/-- Every applied block is on top of its parent and was applied once, and the
cursor is at the last one. -/
structure AppliedInOrder (tree : ParentTree BlockHash) (ingest : Ingest) : Prop where
  linked : tree.Path (ingest.applied ++ [ingest.base])
  once : ingest.applied.Nodup
  cursor : ingest.db.sync.lastBlockHash = some ingest.tip

/-- A crawl that starts: nothing is applied yet and no source was read. -/
structure Ingest.Starts (tree : ParentTree BlockHash) (ingest : Ingest) : Prop where
  nothingApplied : ingest.applied = []
  cursor : ingest.db.sync.lastBlockHash = some ingest.base
  cursorSlot : ingest.db.sync.lastSlot = tree.rank ingest.base
  stored : ∀ row ∈ (ingest.db.crawl .blocks).rows, ∀ slot, row.slot = some slot →
    slot ≤ tree.rank ingest.base
  noSource : ingest.source = none
  idle : ingest.callbacks = []
  notRead : ingest.lastChecked = ingest.lastRead

/-- A block of an ended source commits before a later source compared its
position with the cursor, a rollback before a later source read the cursor. -/
def CommitsInTime (ingest : Ingest) (c : Callback) : Prop :=
  match c.job with
  | .persist _ => ingest.lastChecked ≤ c.source
  | _ => c.source = ingest.lastRead

end Odatano
