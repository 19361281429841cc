import Odatano.LocalCoverage
import Odatano.UtxoSetCrawl

/-!
# Taking the crawl over

`start` of `srv/blockchain/crawler/crawler.ts` reads the cursor, acquires the lease and
then uses what it has read, in separate transactions.  Any number of instances start,
crawl, lose their lease and import the UTxO set in between.
-/

namespace Odatano

/-- The block of the cursor. -/
def SyncState.position (row : SyncState) : Nat × Option BlockHash :=
  (row.lastSlot, row.lastBlockHash)

/-- What one instance, named by its lease identifier, is at. -/
inductive Peer
  | absent
  /-- The cursor is read, at some count of commits. -/
  | reading (cursor : SyncState) (seen : Nat)
  /-- The lease is granted. -/
  | granted (cursor : SyncState) (seen : Nat)
  /-- The memory, and the cursor the source was opened at. -/
  | running (indexer : Indexer) (position : Option (Nat × Option BlockHash))
  /-- An import, and its anchor once it has begun. -/
  | importing (anchor : Option LedgerAnchor)
  | gone

/-- A granted start: the cursor it goes on to use and the row its lease was granted on. -/
structure Grant where
  used : SyncState
  stored : SyncState

structure Takeover where
  db : Db
  clock : Time
  peers : LeaseOwner → Peer
  /-- The transactions so far that wrote the cursor or the UTxO-set columns. -/
  commits : Nat
  grants : List Grant
  /-- The blocks indexed, without those rolled back. -/
  indexed : List ChainPoint
  /-- The blocks applied to the ledger tables as they stand. -/
  applied : List ChainPoint
  /-- The blocks rolled back although the chain still had the point of the source. -/
  accidents : List ChainPoint

/-- The next thing an instance is at. -/
def Takeover.at (s : Takeover) (owner : LeaseOwner) (peer : Peer) : LeaseOwner → Peer :=
  Function.update s.peers owner peer

/-- No other transaction has written the cursor or the UTxO-set columns since the start
read them. -/
def Takeover.Undisturbed (s : Takeover) (owner : LeaseOwner) : Prop :=
  ∀ cursor seen, s.peers owner = .reading cursor seen ∨ s.peers owner = .granted cursor seen →
    seen = s.commits

/-- A fresh database. -/
def Takeover.begin (network : String) (start : Option ChainPoint) : Takeover where
  db := ⟨CrawlStore.empty, LedgerDb.empty, SyncState.initial network start⟩
  clock := 0
  peers := fun _ => .absent
  commits := 0
  grants := []
  indexed := []
  applied := []
  accidents := []

section Steps

variable [Bech32] (config : CrawlStart) (allowed : Takeover → LeaseOwner → Prop)

/-- The steps of any number of instances; a transaction is one step.  Each use of what a
start has read must be `allowed`. -/
inductive TakeoverStep : Takeover → Takeover → Prop
  | tick (s : Takeover) (now : Time) (later : s.clock ≤ now) :
      TakeoverStep s { s with clock := now }
  | readCursor (s : Takeover) (owner : LeaseOwner) (network : String)
      (start : Option ChainPoint) (cursor : SyncState) (absent : s.peers owner = .absent)
      (read : ensureSyncStateSingleton (some s.db.sync) network start = some cursor)
      (resumable : cursor.lastBlockHash.isSome ∨ start.isSome) :
      TakeoverStep s { s with peers := s.at owner (.reading cursor s.commits) }
  | grant (s : Takeover) (owner : LeaseOwner) (cursor : SyncState) (seen : Nat) (now : Time)
      (later : s.clock ≤ now) (reads : s.peers owner = .reading cursor seen)
      (may : allowed s owner)
      (granted : (s.db.sync.tryAcquireCrawlerLease owner now).2 = true) :
      TakeoverStep s
        { s with
          db := { s.db with sync := (s.db.sync.tryAcquireCrawlerLease owner now).1 }
          clock := now
          peers := s.at owner (.granted cursor seen)
          grants := s.grants ++ [⟨cursor, s.db.sync⟩] }
  -- what `start` decides about the set; only its verdict is stored
  | configure (s : Takeover) (owner : LeaseOwner) (cursor : SyncState) (seen : Nat)
      (utxoSet : Bool) (indexer : Indexer) (starts : s.peers owner = .granted cursor seen)
      (may : utxoSet = true → (skippedSince cursor).isSome = true → allowed s owner) :
      TakeoverStep s
        { s with
          db := { s.db with sync := (startUtxoSet utxoSet cursor indexer s.db.sync).2 }
          peers := s.at owner
            (.running (startUtxoSet utxoSet cursor indexer s.db.sync).1 none)
          commits := if utxoSet && (skippedSince cursor).isSome then s.commits + 1
            else s.commits }
  -- chain-sync or pagination reads the cursor again
  | openSource (s : Takeover) (owner : LeaseOwner) (indexer : Indexer)
      (position : Option (Nat × Option BlockHash))
      (runs : s.peers owner = .running indexer position) :
      TakeoverStep s
        { s with peers := s.at owner (.running indexer (some s.db.sync.position)) }
  -- the transaction rolls back at any statement, the memory stays
  | attemptFails (s : Takeover) (owner : LeaseOwner) (indexer memory : Indexer)
      (position : Option (Nat × Option BlockHash)) (message : RollForward)
      (runs : s.peers owner = .running indexer position)
      (changed : memory = { indexer with pendingVerified := none } ∨
        memory = (indexBlockFull indexer s.db message.block message.txs message.epochData).1) :
      TakeoverStep s { s with peers := s.at owner (.running memory position) }
  -- the source delivers a block after the one it stands at
  | commitBlock (s : Takeover) (owner : LeaseOwner) (indexer attempt : Indexer)
      (position : Nat × Option BlockHash) (message : RollForward) (now : Time) (db : Db)
      (runs : s.peers owner = .running indexer (some position))
      (next : position.1 < message.block.slotOrZero)
      (committed : persistBlockTx indexer s.db message.block message.txs message.epochData
        message.tip (some owner) now = (attempt, some db)) :
      TakeoverStep s
        { s with
          db
          peers := s.at owner (.running attempt.blockCommitted
            (some (message.block.slotOrZero, some message.block.hash)))
          commits := s.commits + 1
          indexed := s.indexed ++ [message.block.point]
          applied :=
            if (ledgerAnswering indexer s.db message.block).isSome then
              s.applied ++ [message.block.point]
            else s.applied }
  -- the source goes back to a point
  | commitReorg (s : Takeover) (owner : LeaseOwner) (indexer : Indexer)
      (position : Nat × Option BlockHash) (point : Option ChainPoint) (now : Time) (db : Db)
      (ledgerInvalidated : Bool) (runs : s.peers owner = .running indexer (some position))
      (back : forkSlotOf config point ≤ position.1)
      (committed : handleReorgTx config s.db point (some owner) now =
        some (db, ledgerInvalidated)) :
      TakeoverStep s
        { s with
          db
          peers := s.at owner (.running (indexer.reorgCommitted ledgerInvalidated)
            (some db.sync.position))
          commits := s.commits + 1
          indexed := s.indexed.filter fun b => decide (b.slot ≤ forkSlotOf config point)
          applied :=
            if s.db.undoesLedger (forkSlotOf config point) then
              s.applied.filter fun b => decide (b.slot ≤ forkSlotOf config point)
            else s.applied }
  -- the handshake of a stream: the chain still has the point it was opened at
  | handshake (s : Takeover) (owner : LeaseOwner) (indexer : Indexer) (position : ChainPoint)
      (now : Time) (db : Db) (ledgerInvalidated : Bool)
      (runs : s.peers owner = .running indexer (some (position.slot, some position.hash)))
      (differs : s.db.sync.lastBlockHash ≠ some position.hash)
      (committed : handleReorgTx config s.db (some position) (some owner) now =
        some (db, ledgerInvalidated)) :
      TakeoverStep s
        { s with
          db
          peers := s.at owner (.running (indexer.reorgCommitted ledgerInvalidated)
            (some db.sync.position))
          commits := s.commits + 1
          indexed := s.indexed.filter fun b => decide (b.slot ≤ position.slot)
          accidents := s.accidents ++
            s.indexed.filter fun b => decide (position.slot < b.slot) }
  -- heartbeats, releases, pauses, statuses, error streaks
  | bookkeeping (s : Takeover) (sync : SyncState) (now : Time) (later : s.clock ≤ now)
      (position : sync.position = s.db.sync.position)
      (utxoSet : sync.utxoSet = s.db.sync.utxoSet)
      (holder : sync.leaseOwner = s.db.sync.leaseOwner ∨ sync.leaseOwner = none) :
      TakeoverStep s { s with db := { s.db with sync }, clock := now }
  -- stop, halt or a crash, at any moment
  | ends (s : Takeover) (owner : LeaseOwner) : TakeoverStep s { s with peers := s.at owner .gone }
  | grantImport (s : Takeover) (owner : LeaseOwner) (now : Time) (later : s.clock ≤ now)
      (absent : s.peers owner = .absent)
      (granted : (s.db.sync.tryAcquireImportLease owner now).2 = true) :
      TakeoverStep s
        { s with
          db := { s.db with sync := (s.db.sync.tryAcquireImportLease owner now).1 }
          clock := now
          peers := s.at owner (.importing none) }
  | beginImport (s : Takeover) (owner : LeaseOwner) (anchor : LedgerAnchor) (now : Time)
      (db : Db) (imports : s.peers owner = .importing none)
      (committed : beginImportTx s.db anchor owner now = some db) :
      TakeoverStep s
        { s with
          db
          peers := s.at owner (.importing (some anchor))
          commits := s.commits + 1
          applied := [] }
  | importPage (s : Takeover) (owner : LeaseOwner) (anchor : LedgerAnchor)
      (entries : List LedgerOutputLike) (now : Time) (db : Db)
      (imports : s.peers owner = .importing (some anchor))
      (committed : importPageTx s.db entries owner now = some db) :
      TakeoverStep s { s with db }
  | activate (s : Takeover) (owner : LeaseOwner) (anchor : LedgerAnchor) (importedAt : Time)
      (now : Time) (db : Db) (imports : s.peers owner = .importing (some anchor))
      (committed : activateWithAggregates s.db anchor importedAt id id owner now = some db) :
      TakeoverStep s
        { s with db, peers := s.at owner .gone, commits := s.commits + 1 }
  -- after a takeover the failure is not written
  | importFails (s : Takeover) (owner : LeaseOwner) (anchor : Option LedgerAnchor)
      (error : String) (now : Time) (imports : s.peers owner = .importing anchor)
      (renewed : (s.db.sync.renewImportLease owner now).2 = true) :
      TakeoverStep s
        { s with
          db := markInvalidTx s.db error owner now
          peers := s.at owner .gone
          commits := s.commits + 1 }

end Steps

/-- A start continues from the state it finds: it uses what is stored when its lease is
granted, no block is indexed or applied again, and none is rolled back by accident. -/
structure Takeover.Continues (s : Takeover) : Prop where
  fresh : ∀ g ∈ s.grants, g.used.position = g.stored.position ∧ g.used.utxoSet = g.stored.utxoSet
  indexedOnce : s.indexed.Pairwise fun b later => b.slot < later.slot
  appliedOnce : s.applied.Pairwise fun b later => b.slot < later.slot
  /-- The snapshot has the blocks up to its anchor. -/
  afterAnchor : s.db.sync.utxoSet.status = .active → ∀ b ∈ s.applied,
    ∃ anchorSlot, s.db.sync.utxoSet.anchorSlot = some anchorSlot ∧ anchorSlot < b.slot
  noAccident : s.accidents = []

end Odatano
