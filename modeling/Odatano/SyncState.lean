import Odatano.ChainData

/-!
# The sync-state row

The singleton `CardanoSyncState` row and the statements of
`srv/blockchain/crawler/sync-state.ts` on it.  Times are milliseconds, and `now`
is the clock of the calling instance.  Every statement is a function on the row;
a guarded update leaves a row it does not match alone.
-/

namespace Odatano

/-- Milliseconds since the epoch. -/
abbrev Time := Nat

/-- Opaque process identifier of one instance. -/
abbrev LeaseOwner := String

/-- Pause crawling after this many back-to-back failures. -/
def MAX_CONSECUTIVE_ERRORS : Nat := 10

/-- A short, renewable lease prevents two instances from advancing one cursor. -/
def CRAWLER_LEASE_TTL_MS : Time := 15000

inductive CrawlSyncStatus
  | stopped
  | syncing
  | synced
  | error
deriving DecidableEq

inductive UtxoSetStatus
  | none
  | importing
  | active
  | invalid
deriving DecidableEq

/-- A chain point the crawler can start from or roll back to. -/
structure ChainPoint where
  slot : Nat
  hash : BlockHash
  height : Option Nat
deriving DecidableEq

/-- Crawler-fed ledger state: the anchor the imported UTxO set describes. -/
structure UtxoSetState where
  status : UtxoSetStatus
  anchorSlot : Option Nat
  anchorHash : Option BlockHash
  importedAt : Option Time
  /-- Slot of the last block applied to the ledger tables, null since the import. -/
  appliedSlot : Option Nat
  error : Option String
deriving DecidableEq

/-- The cursor row. -/
structure SyncState where
  network : String
  startSlot : Option Nat
  startBlockHash : Option BlockHash
  lastSlot : Nat
  lastBlockHash : Option BlockHash
  lastHeight : Nat
  tipSlot : Option Nat
  tipHeight : Option Nat
  syncStatus : CrawlSyncStatus
  consecutiveErrors : Nat
  desiredRunning : Bool
  leaseOwner : Option LeaseOwner
  leaseUntil : Option Time
  utxoSet : UtxoSetState
deriving DecidableEq

/-- No UTxO set was imported yet. -/
def UtxoSetState.initial : UtxoSetState := ⟨.none, none, none, none, none, none⟩

/-- The row a fresh database gets. -/
def SyncState.initial (network : String) (start : Option ChainPoint) : SyncState where
  network
  startSlot := start.map ChainPoint.slot
  startBlockHash := start.map ChainPoint.hash
  lastSlot := (start.map ChainPoint.slot).getD 0
  lastBlockHash := start.map ChainPoint.hash
  lastHeight := (start.bind ChainPoint.height).getD 0
  tipSlot := none
  tipHeight := none
  syncStatus := .stopped
  consecutiveErrors := 0
  desiredRunning := true
  leaseOwner := none
  leaseUntil := none
  utxoSet := .initial

/-- Ensure the cursor row exists; fails when it tracks another network. -/
def ensureSyncStateSingleton (row : Option SyncState) (network : String)
    (start : Option ChainPoint) : Option SyncState :=
  match row with
  | some existing => if existing.network = network then some existing else none
  | none => some (SyncState.initial network start)

namespace SyncState

/-! ## Leases -/

/-- Whether the shared lease represents a live cluster-wide crawler. -/
def isCrawlerLeaseActive (cursor : SyncState) (now : Time) : Bool :=
  cursor.desiredRunning && cursor.leaseOwner.isSome &&
    cursor.leaseUntil.any fun deadline => decide (now < deadline)

/-- Another owner's lease is still running. -/
def heldByOther (cursor : SyncState) (owner : LeaseOwner) (now : Time) : Bool :=
  cursor.leaseOwner.any fun holder =>
    decide (holder ≠ owner) && cursor.leaseUntil.any fun deadline => decide (now < deadline)

/-- The read-back of an import lease.  One second tolerance covers a change of
representation. -/
def importLeaseHeld (cursor : SyncState) (owner : LeaseOwner) (expected : Time) : Bool :=
  decide (cursor.leaseOwner = some owner) &&
    cursor.leaseUntil.any fun actual => decide (expected - 1000 ≤ actual)

/-- The read-back of a crawler lease, which a pause also ends. -/
def leaseDeadlineReached (cursor : SyncState) (owner : LeaseOwner) (expected : Time) : Bool :=
  cursor.desiredRunning && cursor.importLeaseHeld owner expected

/-- The update of `tryAcquireCrawlerLease`, guarded by the owner and the intent
that were `seen`. -/
def takeCrawlerLease (row seen : SyncState) (owner : LeaseOwner) (leaseUntil : Time) :
    SyncState :=
  if row.leaseOwner = seen.leaseOwner ∧ row.desiredRunning = seen.desiredRunning then
    { row with leaseOwner := some owner, leaseUntil := some leaseUntil }
  else row

/-- Take a free or expired lease. -/
def tryAcquireCrawlerLease (row : SyncState) (owner : LeaseOwner) (now : Time) :
    SyncState × Bool :=
  if !row.desiredRunning || row.heldByOther owner now then (row, false)
  else
    let updated := row.takeCrawlerLease row owner (now + CRAWLER_LEASE_TTL_MS)
    (updated, updated.leaseDeadlineReached owner (now + CRAWLER_LEASE_TTL_MS))

/-- Renew the lease inside a crawler write transaction. -/
def renewCrawlerLease (row : SyncState) (owner : LeaseOwner) (now : Time) :
    SyncState × Bool :=
  let updated :=
    if row.leaseOwner = some owner ∧ row.desiredRunning = true then
      { row with leaseUntil := some (now + CRAWLER_LEASE_TTL_MS) }
    else row
  (updated, updated.leaseDeadlineReached owner (now + CRAWLER_LEASE_TTL_MS))

/-- Release only the caller's lease.  `pauseCluster` keeps the crawler down. -/
def releaseCrawlerLease (row : SyncState) (owner : LeaseOwner) (status : CrawlSyncStatus)
    (pauseCluster : Bool) : SyncState :=
  if row.leaseOwner = some owner then
    { row with
      leaseOwner := none
      leaseUntil := none
      syncStatus := status
      desiredRunning := if pauseCluster then false else row.desiredRunning }
  else row

/-- The update of `tryAcquireImportLease`, guarded by the owner that was `seen`. -/
def takeImportLease (row seen : SyncState) (owner : LeaseOwner) (leaseUntil : Time) :
    SyncState :=
  if row.leaseOwner = seen.leaseOwner then
    { row with leaseOwner := some owner, leaseUntil := some leaseUntil }
  else row

/-- Lease for the UTxO set import, on the crawler's lease columns. -/
def tryAcquireImportLease (row : SyncState) (owner : LeaseOwner) (now : Time) :
    SyncState × Bool :=
  if row.heldByOther owner now then (row, false)
  else
    let updated := row.takeImportLease row owner (now + CRAWLER_LEASE_TTL_MS)
    (updated, updated.importLeaseHeld owner (now + CRAWLER_LEASE_TTL_MS))

/-- Renew the import lease, which a pause does not end. -/
def renewImportLease (row : SyncState) (owner : LeaseOwner) (now : Time) :
    SyncState × Bool :=
  let updated :=
    if row.leaseOwner = some owner then
      { row with leaseUntil := some (now + CRAWLER_LEASE_TTL_MS) }
    else row
  (updated, updated.importLeaseHeld owner (now + CRAWLER_LEASE_TTL_MS))

def releaseImportLease (row : SyncState) (owner : LeaseOwner) : SyncState :=
  if row.leaseOwner = some owner then { row with leaseOwner := none, leaseUntil := none }
  else row

/-- Store the pause intent for all instances. -/
def setCrawlerDesiredRunning (row : SyncState) (desiredRunning : Bool) : SyncState :=
  if desiredRunning then { row with desiredRunning, consecutiveErrors := 0 }
  else { row with desiredRunning, syncStatus := .stopped }

/-- Latch the cluster off for a poison block; not tied to the lease. -/
def latchPoisonBlock (row : SyncState) : SyncState :=
  { row with desiredRunning := false, syncStatus := .error }

/-! ## Cursor -/

/-- What `advanceCursor` writes: the block, its ledger mark if one is given, and
the tip. -/
def cursorAt (row : SyncState) (block : ChainPoint) (tip : Option ChainPoint)
    (status : CrawlSyncStatus) (utxoAppliedSlot : Option Nat) : SyncState :=
  { row with
    lastSlot := block.slot
    lastBlockHash := some block.hash
    lastHeight := block.height.getD 0
    syncStatus := status
    consecutiveErrors := 0
    utxoSet := { row.utxoSet with appliedSlot := utxoAppliedSlot.or row.utxoSet.appliedSlot }
    tipSlot := (tip.map ChainPoint.slot).or row.tipSlot
    tipHeight := (tip.bind ChainPoint.height).or row.tipHeight }

/-- Advance the cursor to an indexed block.  With an owner the same update
renews the lease, and false means the lease is lost. -/
def advanceCursor (row : SyncState) (block : ChainPoint) (tip : Option ChainPoint)
    (status : CrawlSyncStatus) (utxoAppliedSlot : Option Nat) (leaseOwner : Option LeaseOwner)
    (now : Time) : SyncState × Bool :=
  match leaseOwner with
  | none => (row.cursorAt block tip status utxoAppliedSlot, true)
  | some owner =>
      let updated :=
        if row.leaseOwner = some owner ∧ row.desiredRunning = true then
          { row.cursorAt block tip status utxoAppliedSlot with
            leaseUntil := some (now + CRAWLER_LEASE_TTL_MS) }
        else row
      (updated, updated.leaseDeadlineReached owner (now + CRAWLER_LEASE_TTL_MS))

/-- Reset the cursor to a rollback point. -/
def resetCursorTo (row : SyncState) (slot : Nat) (hash : Option BlockHash) (height : Nat) :
    SyncState :=
  { row with lastSlot := slot, lastBlockHash := hash, lastHeight := height }

/-- Set the crawler status. -/
def setSyncStatus (row : SyncState) (status : CrawlSyncStatus) (pauseCluster : Bool) :
    SyncState :=
  { row with
    syncStatus := status
    desiredRunning := if pauseCluster then false else row.desiredRunning }

/-- Record a crawler error and return the new streak; none when the lease is lost. -/
def recordError (row : SyncState) (leaseOwner : Option LeaseOwner) (now : Time) :
    SyncState × Option Nat :=
  let renewed := match leaseOwner with
    | none => (row, true)
    | some owner => row.renewCrawlerLease owner now
  if renewed.2 then
    let streak := renewed.1.consecutiveErrors + 1
    ({ renewed.1 with
        consecutiveErrors := streak
        syncStatus := if MAX_CONSECUTIVE_ERRORS ≤ streak then .error else .syncing },
      some streak)
  else (renewed.1, none)

/-! ## Ledger state -/

/-- Mark the UTxO set unusable. -/
def markUtxoSetInvalid (row : SyncState) (error : String) : SyncState :=
  { row with utxoSet := { row.utxoSet with status := .invalid, error := some error } }

/-- Move the mark of the last applied block. -/
def setAppliedSlot (row : SyncState) (slot : Nat) : SyncState :=
  { row with utxoSet := { row.utxoSet with appliedSlot := some slot } }

end SyncState

end Odatano
