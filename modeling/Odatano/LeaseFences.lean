import Mathlib.Logic.Relation
import Odatano.RowTransactions
import Odatano.SyncState

/-!
# Lease fences

The database transactions of crawlers and imports on the cursor row, statement by
statement, while any number of instances take, renew, lose and release its lease.  An
instance is its lease identifier, which every start of a crawler and every import makes
anew.  A pause of the cluster stays; an operator's resume is not among the steps.
-/

namespace Odatano

open RowTransactions

section Programs

variable {Tables : Type}

/-- A statement that stands before or after the fence of its transaction. -/
inductive BodyStatement (Tables : Type)
  | tables (write : Tables → Tables)
  | setUtxoSetState (set : UtxoSetState → UtxoSetState)
  | resetCursorTo (slot : Nat) (hash : Option BlockHash) (height : Nat)

def BodyStatement.statement : BodyStatement Tables → Statement SyncState Tables
  | tables write => .write write
  | setUtxoSetState set =>
      .update (fun _ => true) fun row => { row with utxoSet := set row.utxoSet }
  | resetCursorTo slot hash height =>
      .update (fun _ => true) fun row => row.resetCursorTo slot hash height

/-- A guarded update of the lease columns and the read-back that follows it. -/
structure Fence where
  matched : SyncState → Bool
  set : SyncState → SyncState
  held : SyncState → Bool

def Fence.statements (fence : Fence) : List (Statement SyncState Tables) :=
  [.update fence.matched fence.set, .check fence.held]

/-- The fence of `renewCrawlerLease`. -/
def renewCrawlerFence (owner : LeaseOwner) (now : Time) : Fence where
  matched row := decide (row.leaseOwner = some owner ∧ row.desiredRunning = true)
  set row := (row.renewCrawlerLease owner now).1
  held row := row.leaseDeadlineReached owner (now + CRAWLER_LEASE_TTL_MS)

/-- The fence of `advanceCursor`. -/
def advanceCursorFence (owner : LeaseOwner) (block : ChainPoint) (tip : Option ChainPoint)
    (status : CrawlSyncStatus) (utxoAppliedSlot : Option Nat) (now : Time) : Fence where
  matched row := decide (row.leaseOwner = some owner ∧ row.desiredRunning = true)
  set row := (row.advanceCursor block tip status utxoAppliedSlot (some owner) now).1
  held row := row.leaseDeadlineReached owner (now + CRAWLER_LEASE_TTL_MS)

/-- The fence of `renewImportLease`. -/
def renewImportFence (owner : LeaseOwner) (now : Time) : Fence where
  matched row := decide (row.leaseOwner = some owner)
  set row := (row.renewImportLease owner now).1
  held row := row.importLeaseHeld owner (now + CRAWLER_LEASE_TTL_MS)

/-- The update and the read-back of `tryAcquireCrawlerLease`, after its first read. -/
def takeCrawlerFence (owner : LeaseOwner) (seen : SyncState) (now : Time) : Fence where
  matched row :=
    decide (row.leaseOwner = seen.leaseOwner ∧ row.desiredRunning = seen.desiredRunning)
  set row := row.takeCrawlerLease seen owner (now + CRAWLER_LEASE_TTL_MS)
  held row := row.leaseDeadlineReached owner (now + CRAWLER_LEASE_TTL_MS)

/-- The update and the read-back of `tryAcquireImportLease`. -/
def takeImportFence (owner : LeaseOwner) (seen : SyncState) (now : Time) : Fence where
  matched row := decide (row.leaseOwner = seen.leaseOwner)
  set row := row.takeImportLease seen owner (now + CRAWLER_LEASE_TTL_MS)
  held row := row.importLeaseHeld owner (now + CRAWLER_LEASE_TTL_MS)

/-- The transactions that write the tables or the cursor. -/
inductive WriteTx (Tables : Type)
  | persistBlock (indexBlockFull : List (BodyStatement Tables)) (block : ChainPoint)
      (tip : Option ChainPoint) (status : CrawlSyncStatus) (utxoAppliedSlot : Option Nat)
      (now : Time)
  | handleReorg (now : Time) (rollBack : List (BodyStatement Tables))
  -- a page of an import, and its start
  | writeTx (now : Time) (fn : List (BodyStatement Tables))
  -- the activation of an import or a rebuild
  | writeTxLeaseLast (fn : List (BodyStatement Tables)) (now : Time)

namespace WriteTx

def before : WriteTx Tables → List (BodyStatement Tables)
  | persistBlock indexBlockFull _ _ _ _ _ => indexBlockFull
  | handleReorg _ _ => []
  | writeTx _ _ => []
  | writeTxLeaseLast fn _ => fn

def fence (owner : LeaseOwner) : WriteTx Tables → Fence
  | persistBlock _ block tip status utxoAppliedSlot now =>
      advanceCursorFence owner block tip status utxoAppliedSlot now
  | handleReorg now _ => renewCrawlerFence owner now
  | writeTx now _ => renewImportFence owner now
  | writeTxLeaseLast _ now => renewImportFence owner now

def after : WriteTx Tables → List (BodyStatement Tables)
  | persistBlock _ _ _ _ _ _ => []
  | handleReorg _ rollBack => rollBack
  | writeTx _ fn => fn
  | writeTxLeaseLast _ _ => []

end WriteTx

/-- The other transactions on the row. -/
inductive RowTx
  -- the heartbeats
  | renewCrawlerLease (now : Time)
  | renewImportLease (now : Time)
  | releaseCrawlerLease (status : CrawlSyncStatus) (latch : Bool)
  | releaseImportLease
  -- pagination at its target
  | setSyncStatus (now : Time) (status : CrawlSyncStatus)
  | recordError (now : Time)
  | markInvalid (now : Time) (error : String)
  -- `start`, on a set that missed blocks
  | setUtxoSetInvalid (error : String)
  | latchPoisonBlock
  | pauseCluster

def RowTx.program (owner : LeaseOwner) : RowTx → List (Statement SyncState Tables)
  | renewCrawlerLease now => (renewCrawlerFence owner now).statements
  | renewImportLease now => (renewImportFence owner now).statements
  | releaseCrawlerLease status latch =>
      [.update (fun row => decide (row.leaseOwner = some owner)) fun row =>
        row.releaseCrawlerLease owner status latch]
  | releaseImportLease =>
      [.update (fun row => decide (row.leaseOwner = some owner)) fun row =>
        row.releaseImportLease owner]
  | setSyncStatus now status =>
      (renewCrawlerFence owner now).statements ++
        [.update (fun _ => true) fun row => row.setSyncStatus status false]
  | recordError now =>
      (renewCrawlerFence owner now).statements ++
        [.update (fun _ => true) fun row => (row.recordError none now).1]
  | markInvalid now error =>
      (renewImportFence owner now).statements ++
        [.update (fun _ => true) fun row => row.markUtxoSetInvalid error]
  | setUtxoSetInvalid error => [.update (fun _ => true) fun row => row.markUtxoSetInvalid error]
  | latchPoisonBlock => [.update (fun _ => true) SyncState.latchPoisonBlock]
  | pauseCluster => [.update (fun _ => true) fun row => row.setCrawlerDesiredRunning false]

inductive TxKind (Tables : Type)
  | acquireCrawler (seen : SyncState) (now : Time)
  | acquireImport (seen : SyncState) (now : Time)
  | write (tx : WriteTx Tables)
  | row (tx : RowTx)

def TxKind.program (owner : LeaseOwner) : TxKind Tables → List (Statement SyncState Tables)
  | acquireCrawler seen now => (takeCrawlerFence owner seen now).statements
  | acquireImport seen now => (takeImportFence owner seen now).statements
  | write tx =>
      tx.before.map BodyStatement.statement ++ (tx.fence owner).statements ++
        tx.after.map BodyStatement.statement
  | row tx => tx.program owner

/-- A transaction of one instance. -/
structure LeaseTx (Tables : Type) where
  owner : LeaseOwner
  kind : TxKind Tables

def LeaseTx.opened (tx : LeaseTx Tables) :
    RowTransactions.Transaction SyncState Tables (LeaseTx Tables) :=
  .of tx (tx.kind.program tx.owner)

/-- The transaction of `tryAcquireCrawlerLease` or `tryAcquireImportLease`. -/
def LeaseTx.Acquires (tx : LeaseTx Tables) : Prop :=
  match tx.kind with
  | .acquireCrawler _ _ => True
  | .acquireImport _ _ => True
  | .write _ => False
  | .row _ => False

/-! ## Fences and the calls they stand in -/

/-- The update and the read-back of a fence in one. -/
def Fence.call (fence : Fence) (row : SyncState) : SyncState × Bool :=
  let updated := if fence.matched row then fence.set row else row
  (updated, fence.held updated)

section Calls

variable (row : SyncState) (owner : LeaseOwner) (now : Time)

theorem renewCrawlerLease_eq :
    row.renewCrawlerLease owner now = (renewCrawlerFence owner now).call row := by
  by_cases hit : row.leaseOwner = some owner ∧ row.desiredRunning = true <;>
    simp [Fence.call, renewCrawlerFence, SyncState.renewCrawlerLease, hit]

theorem advanceCursor_eq (block : ChainPoint) (tip : Option ChainPoint)
    (status : CrawlSyncStatus) (utxoAppliedSlot : Option Nat) :
    row.advanceCursor block tip status utxoAppliedSlot (some owner) now =
      (advanceCursorFence owner block tip status utxoAppliedSlot now).call row := by
  by_cases hit : row.leaseOwner = some owner ∧ row.desiredRunning = true <;>
    simp [Fence.call, advanceCursorFence, SyncState.advanceCursor, hit]

theorem renewImportLease_eq :
    row.renewImportLease owner now = (renewImportFence owner now).call row := by
  by_cases hit : row.leaseOwner = some owner <;>
    simp [Fence.call, renewImportFence, SyncState.renewImportLease, hit]

/-- A start on a row that no one changes between its statements. -/
theorem tryAcquireCrawlerLease_eq (wanted : row.desiredRunning = true)
    (free : row.heldByOther owner now = false) :
    row.tryAcquireCrawlerLease owner now = (takeCrawlerFence owner row now).call row := by
  simp [SyncState.tryAcquireCrawlerLease, wanted, free, Fence.call, takeCrawlerFence]

theorem tryAcquireImportLease_eq (free : row.heldByOther owner now = false) :
    row.tryAcquireImportLease owner now = (takeImportFence owner row now).call row := by
  simp [SyncState.tryAcquireImportLease, free, Fence.call, takeImportFence]

end Calls

end Programs

/-! ## Runs -/

section Runs

variable {Tables : Type}

/-- A committed transaction that wrote the tables or the cursor. -/
structure CommittedTx (Tables : Type) where
  owner : LeaseOwner
  writes : Tables → Tables
  /-- The cursor it leaves. -/
  cursor : Nat × Option BlockHash × Nat
  /-- The tenure and the holder of the lease when its fence passed, and when it committed. -/
  checkedIn : Option (Nat × LeaseOwner)
  committedIn : Option (Nat × LeaseOwner)

structure LeaseRun (Tables : Type) where
  store : Store SyncState Tables (LeaseTx Tables)
  clock : Time
  /-- The lease identifiers made so far. -/
  started : List LeaseOwner
  /-- Who was granted the lease, in order. -/
  tenures : List LeaseOwner
  /-- The tenure in which the fence of an open transaction passed. -/
  checkedIn : Nat → Option (Nat × LeaseOwner)
  log : List (CommittedTx Tables)

def SyncState.cursor (row : SyncState) : Nat × Option BlockHash × Nat :=
  (row.lastSlot, row.lastBlockHash, row.lastHeight)

/-- The tenure that runs, and the owner whom the row names. -/
def LeaseRun.currentTenure (s : LeaseRun Tables) : Option (Nat × LeaseOwner) :=
  s.store.row.leaseOwner.map fun owner => (s.tenures.length - 1, owner)

/-- The tenure is noted when a read-back passes. -/
def LeaseRun.noteCheck (s : LeaseRun Tables) (i : Nat)
    (rest : List (Statement SyncState Tables)) : Nat → Option (Nat × LeaseOwner) :=
  match rest with
  | .check _ :: _ => Function.update s.checkedIn i s.currentTenure
  | _ => s.checkedIn

/-- A fresh database. -/
def LeaseRun.start (network : String) (start : Option ChainPoint) (tables : Tables) :
    LeaseRun Tables where
  store := ⟨SyncState.initial network start, tables, fun _ => none, none⟩
  clock := 0
  started := []
  tenures := []
  checkedIn := fun _ => none
  log := []

/-- The steps of any number of instances.  A statement may be put off for ever, and a
transaction may be rolled back before any of its statements and before its commit. -/
inductive LeaseStep : LeaseRun Tables → LeaseRun Tables → Prop
  | tick (s : LeaseRun Tables) (now : Time) (later : s.clock ≤ now) :
      LeaseStep s { s with clock := now }
  -- the first read of an acquisition
  | acquireCrawler (s : LeaseRun Tables) (i : Nat) (owner : LeaseOwner) (now : Time)
      (unused : s.store.opened i = none) (new : owner ∉ s.started) (later : s.clock ≤ now)
      (wanted : s.store.row.desiredRunning = true)
      (free : s.store.row.heldByOther owner now = false) :
      LeaseStep s
        { s with
          store := s.store.proceed i
            (LeaseTx.opened ⟨owner, .acquireCrawler s.store.row now⟩)
          clock := now
          started := owner :: s.started }
  | acquireImport (s : LeaseRun Tables) (i : Nat) (owner : LeaseOwner) (now : Time)
      (unused : s.store.opened i = none) (new : owner ∉ s.started) (later : s.clock ≤ now)
      (free : s.store.row.heldByOther owner now = false) :
      LeaseStep s
        { s with
          store := s.store.proceed i
            (LeaseTx.opened ⟨owner, .acquireImport s.store.row now⟩)
          clock := now
          started := owner :: s.started }
  -- only after the lease was granted
  | beginWrite (s : LeaseRun Tables) (i : Nat) (owner : LeaseOwner) (tx : WriteTx Tables)
      (unused : s.store.opened i = none) (granted : owner ∈ s.tenures) :
      LeaseStep s { s with store := s.store.proceed i (LeaseTx.opened ⟨owner, .write tx⟩) }
  | beginRow (s : LeaseRun Tables) (i : Nat) (owner : LeaseOwner) (tx : RowTx)
      (unused : s.store.opened i = none) :
      LeaseStep s { s with store := s.store.proceed i (LeaseTx.opened ⟨owner, .row tx⟩) }
  | statement (s : LeaseRun Tables) (i : Nat)
      (t : RowTransactions.Transaction SyncState Tables (LeaseTx Tables))
      (store : Store SyncState Tables (LeaseTx Tables)) (opened : s.store.opened i = some t)
      (runs : s.store.Runs i t store) :
      LeaseStep s { s with store, checkedIn := s.noteCheck i t.rest }
  | rollBack (s : LeaseRun Tables) (i : Nat) : LeaseStep s { s with store := s.store.close i }
  | grant (s : LeaseRun Tables) (i : Nat)
      (t : RowTransactions.Transaction SyncState Tables (LeaseTx Tables))
      (opened : s.store.opened i = some t) (acquires : t.label.Acquires)
      (finished : t.rest = []) :
      LeaseStep s
        { s with store := s.store.commit i t, tenures := s.tenures ++ [t.label.owner] }
  | commitWrite (s : LeaseRun Tables) (i : Nat)
      (t : RowTransactions.Transaction SyncState Tables (LeaseTx Tables))
      (tx : WriteTx Tables) (opened : s.store.opened i = some t)
      (writes : t.label.kind = .write tx) (finished : t.rest = []) :
      LeaseStep s
        { s with
          store := s.store.commit i t
          log := s.log ++
            [⟨t.label.owner, t.writes, (s.store.view i).cursor, s.checkedIn i,
              s.currentTenure⟩] }
  | commitRow (s : LeaseRun Tables) (i : Nat)
      (t : RowTransactions.Transaction SyncState Tables (LeaseTx Tables)) (tx : RowTx)
      (opened : s.store.opened i = some t) (writes : t.label.kind = .row tx)
      (finished : t.rest = []) :
      LeaseStep s { s with store := s.store.commit i t }

end Runs

end Odatano
