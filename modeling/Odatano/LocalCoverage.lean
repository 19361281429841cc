import Mathlib.Logic.Relation
import Odatano.SyncState

/-!
# Local coverage

`CardanoIndexer.localCoverage` over the cursor row, while crawlers, imports and rebuilds
of any instances take, renew and lose its lease.  A transaction is one step.  A crash
and a lease that runs out write nothing: the steps of that owner no longer come.
-/

namespace Odatano

/-- The range the crawled data answers. -/
structure LocalCoverage where
  fromSlot : Nat
  lastSlot : Nat
  tipHeight : Option Nat
  ledger : Bool
deriving DecidableEq

/-- Only while a live crawler is at the tip. -/
def localCoverage (cursor : SyncState) (now : Time) : Option LocalCoverage :=
  if cursor.syncStatus = .synced ∧ cursor.isCrawlerLeaseActive now = true then
    cursor.startSlot.map fun fromSlot =>
      { fromSlot
        lastSlot := cursor.lastSlot
        tipHeight := cursor.tipHeight
        ledger := decide (cursor.utxoSet.status = .active) }
  else none

/-! ## Tenures of the lease -/

/-- Who an owner identifier belongs to: `pid:uuid` of a crawler, or `import:pid:time`. -/
inductive LeaseParty
  | crawler
  | importer
deriving DecidableEq

structure TenureState where
  row : SyncState
  clock : Time
  /-- Leases granted so far; each grant begins a tenure. -/
  tenure : Nat
  /-- The tenure that last wrote the status `synced`. -/
  syncedIn : Option Nat

def TenureState.start (network : String) (start : Option ChainPoint) : TenureState :=
  ⟨SyncState.initial network start, 0, 0, none⟩

section Steps

variable (party : LeaseOwner → LeaseParty) (allowed : SyncState → Prop)

/-- Each grant must be `allowed` on the row that it finds. -/
inductive TenureStep : TenureState → TenureState → Prop
  | startCrawler (s : TenureState) (owner : LeaseOwner) (now : Time) (later : s.clock ≤ now)
      (crawler : party owner = .crawler) (may : allowed s.row)
      (granted : (s.row.tryAcquireCrawlerLease owner now).2 = true) :
      TenureStep s
        { s with
          row := (s.row.tryAcquireCrawlerLease owner now).1
          clock := now
          tenure := s.tenure + 1 }
  -- `withImportLease`, of an import, a rebuild or a script refresh
  | startImport (s : TenureState) (owner : LeaseOwner) (now : Time) (later : s.clock ≤ now)
      (importer : party owner = .importer) (may : allowed s.row)
      (granted : (s.row.tryAcquireImportLease owner now).2 = true) :
      TenureStep s
        { s with
          row := (s.row.tryAcquireImportLease owner now).1
          clock := now
          tenure := s.tenure + 1 }
  -- a refused start, and all else that does not write the row
  | idle (s : TenureState) (now : Time) (later : s.clock ≤ now) :
      TenureStep s { s with clock := now }
  | beatCrawler (s : TenureState) (owner : LeaseOwner) (now : Time) (later : s.clock ≤ now)
      (crawler : party owner = .crawler) :
      TenureStep s { s with row := (s.row.renewCrawlerLease owner now).1, clock := now }
  -- the heartbeat of an import, and the fence of its writes
  | beatImport (s : TenureState) (owner : LeaseOwner) (now : Time) (later : s.clock ≤ now)
      (importer : party owner = .importer) :
      TenureStep s { s with row := (s.row.renewImportLease owner now).1, clock := now }
  -- `persistBlock`; a lost lease rolls it back
  | persistSynced (s : TenureState) (owner : LeaseOwner) (block : ChainPoint)
      (tip : Option ChainPoint) (utxoAppliedSlot : Option Nat) (now : Time)
      (later : s.clock ≤ now) (crawler : party owner = .crawler)
      (leaseHeld :
        (s.row.advanceCursor block tip .synced utxoAppliedSlot (some owner) now).2 = true) :
      TenureStep s
        { s with
          row := (s.row.advanceCursor block tip .synced utxoAppliedSlot (some owner) now).1
          clock := now
          syncedIn := some s.tenure }
  | persistSyncing (s : TenureState) (owner : LeaseOwner) (block : ChainPoint)
      (tip : Option ChainPoint) (utxoAppliedSlot : Option Nat) (now : Time)
      (later : s.clock ≤ now) (crawler : party owner = .crawler)
      (leaseHeld :
        (s.row.advanceCursor block tip .syncing utxoAppliedSlot (some owner) now).2 = true) :
      TenureStep s
        { s with
          row := (s.row.advanceCursor block tip .syncing utxoAppliedSlot (some owner) now).1
          clock := now }
  -- pagination at its target
  | caughtUp (s : TenureState) (owner : LeaseOwner) (now : Time) (later : s.clock ≤ now)
      (crawler : party owner = .crawler)
      (renewed : (s.row.renewCrawlerLease owner now).2 = true) :
      TenureStep s
        { s with
          row := ((s.row.renewCrawlerLease owner now).1).setSyncStatus .synced false
          clock := now
          syncedIn := some s.tenure }
  | rolledBack (s : TenureState) (owner : LeaseOwner) (slot height : Nat)
      (hash : Option BlockHash) (now : Time) (later : s.clock ≤ now)
      (crawler : party owner = .crawler)
      (renewed : (s.row.renewCrawlerLease owner now).2 = true) :
      TenureStep s
        { s with
          row := ((s.row.renewCrawlerLease owner now).1).resetCursorTo slot hash height
          clock := now }
  | crawlerError (s : TenureState) (owner : LeaseOwner) (now : Time) (later : s.clock ≤ now)
      (crawler : party owner = .crawler) :
      TenureStep s { s with row := (s.row.recordError (some owner) now).1, clock := now }
  | haltCrawler (s : TenureState) (owner : LeaseOwner) (finalStatus : CrawlSyncStatus)
      (latch : Bool) (now : Time) (later : s.clock ≤ now) (crawler : party owner = .crawler)
      (final : finalStatus = .stopped ∨ finalStatus = .error) :
      TenureStep s
        { s with row := s.row.releaseCrawlerLease owner finalStatus latch, clock := now }
  | endImport (s : TenureState) (owner : LeaseOwner) (now : Time) (later : s.clock ≤ now)
      (importer : party owner = .importer) :
      TenureStep s { s with row := s.row.releaseImportLease owner, clock := now }
  -- a rebuild that sets the cursor back, with the lease re-taken last
  | rewind (s : TenureState) (owner : LeaseOwner) (slot height : Nat) (hash : Option BlockHash)
      (now : Time) (later : s.clock ≤ now) (importer : party owner = .importer)
      (renewed :
        ((s.row.resetCursorTo slot hash height).renewImportLease owner now).2 = true) :
      TenureStep s
        { s with
          row := ((s.row.resetCursorTo slot hash height).renewImportLease owner now).1
          clock := now }
  -- `setUtxoSetState` of a start, an import, a block or a rollback
  | utxoSetState (s : TenureState) (utxoSet : UtxoSetState) (now : Time)
      (later : s.clock ≤ now) :
      TenureStep s { s with row := { s.row with utxoSet }, clock := now }
  -- `pauseCrawler` and `resumeCrawler`
  | desiredRunning (s : TenureState) (desired : Bool) (now : Time) (later : s.clock ≤ now) :
      TenureStep s { s with row := s.row.setCrawlerDesiredRunning desired, clock := now }
  | poison (s : TenureState) (now : Time) (later : s.clock ≤ now) :
      TenureStep s { s with row := s.row.latchPoisonBlock, clock := now }

/-- The runs of a fresh database. -/
def TenureRun (s : TenureState) : Prop :=
  ∃ network start, Relation.ReflTransGen (TenureStep party allowed)
    (TenureState.start network start) s

end Steps

/-- A crawler holds the unexpired lease, and its tenure wrote the status. -/
structure TenureState.KeptCurrent (party : LeaseOwner → LeaseParty) (s : TenureState)
    (now : Time) : Prop where
  holder : ∃ owner, s.row.leaseOwner = some owner ∧ party owner = .crawler
  unexpired : ∃ deadline, s.row.leaseUntil = some deadline ∧ now < deadline
  synced : s.row.syncStatus = .synced ∧ s.syncedIn = some s.tenure

/-! ## What the operations on the row keep -/

namespace SyncState

variable {row : SyncState} {owner : LeaseOwner} {now : Time}

theorem renewCrawlerLease_leaseOwner :
    (row.renewCrawlerLease owner now).1.leaseOwner = row.leaseOwner := by
  rw [renewCrawlerLease]
  dsimp only
  split <;> rfl

theorem renewCrawlerLease_syncStatus :
    (row.renewCrawlerLease owner now).1.syncStatus = row.syncStatus := by
  rw [renewCrawlerLease]
  dsimp only
  split <;> rfl

theorem renewImportLease_leaseOwner :
    (row.renewImportLease owner now).1.leaseOwner = row.leaseOwner := by
  rw [renewImportLease]
  dsimp only
  split <;> rfl

theorem renewImportLease_syncStatus :
    (row.renewImportLease owner now).1.syncStatus = row.syncStatus := by
  rw [renewImportLease]
  dsimp only
  split <;> rfl

theorem tryAcquireCrawlerLease_syncStatus :
    (row.tryAcquireCrawlerLease owner now).1.syncStatus = row.syncStatus := by
  rw [tryAcquireCrawlerLease]
  split
  · rfl
  · dsimp only
    rw [takeCrawlerLease]
    split <;> rfl

theorem tryAcquireImportLease_syncStatus :
    (row.tryAcquireImportLease owner now).1.syncStatus = row.syncStatus := by
  rw [tryAcquireImportLease]
  split
  · rfl
  · dsimp only
    rw [takeImportLease]
    split <;> rfl

theorem leaseOwner_of_leaseDeadlineReached {expected : Time}
    (reached : row.leaseDeadlineReached owner expected = true) : row.leaseOwner = some owner := by
  rw [leaseDeadlineReached, importLeaseHeld] at reached
  simp only [Bool.and_eq_true, decide_eq_true_eq] at reached
  exact reached.2.1

/-- A fence that passes was passed by the holder. -/
theorem leaseOwner_of_renewed (renewed : (row.renewCrawlerLease owner now).2 = true) :
    row.leaseOwner = some owner := by
  rw [← @renewCrawlerLease_leaseOwner row owner now]
  exact leaseOwner_of_leaseDeadlineReached renewed

theorem advanceCursor_leaseOwner {block : ChainPoint} {tip : Option ChainPoint}
    {status : CrawlSyncStatus} {utxoAppliedSlot : Option Nat}
    (leaseHeld : (row.advanceCursor block tip status utxoAppliedSlot (some owner) now).2 = true) :
    (row.advanceCursor block tip status utxoAppliedSlot (some owner) now).1.leaseOwner =
      some owner :=
  leaseOwner_of_leaseDeadlineReached leaseHeld

theorem advanceCursor_syncStatus {block : ChainPoint} {tip : Option ChainPoint}
    {status : CrawlSyncStatus} {utxoAppliedSlot : Option Nat}
    (matched : row.leaseOwner = some owner ∧ row.desiredRunning = true) :
    (row.advanceCursor block tip status utxoAppliedSlot (some owner) now).1.syncStatus =
      status := by
  rw [advanceCursor]
  dsimp only
  rw [if_pos matched]
  rfl

/-- The update of a block matched when its read-back holds. -/
theorem matched_of_leaseHeld {block : ChainPoint} {tip : Option ChainPoint}
    {status : CrawlSyncStatus} {utxoAppliedSlot : Option Nat}
    (leaseHeld : (row.advanceCursor block tip status utxoAppliedSlot (some owner) now).2 = true) :
    row.leaseOwner = some owner ∧ row.desiredRunning = true := by
  by_contra unmatched
  rw [advanceCursor] at leaseHeld
  dsimp only at leaseHeld
  rw [if_neg unmatched] at leaseHeld
  refine unmatched ⟨leaseOwner_of_leaseDeadlineReached leaseHeld, ?_⟩
  rw [leaseDeadlineReached, Bool.and_eq_true] at leaseHeld
  exact leaseHeld.1

theorem recordError_syncStatus (streak : Nat)
    (recorded : (row.recordError (some owner) now).2 = some streak) :
    (row.recordError (some owner) now).1.syncStatus ≠ .synced := by
  rw [recordError] at recorded ⊢
  dsimp only at recorded ⊢
  split at recorded
  · rename_i renewed
    rw [if_pos renewed]
    dsimp only
    split <;> exact nofun
  · cases recorded

theorem recordError_lost (lost : (row.recordError (some owner) now).2 = none) :
    (row.recordError (some owner) now).1 = (row.renewCrawlerLease owner now).1 := by
  rw [recordError] at lost ⊢
  dsimp only at lost ⊢
  split at lost
  · cases lost
  · rename_i unrenewed
    rw [if_neg unrenewed]

end SyncState

/-! ## The status belongs to the tenure -/

/-- While the status is `synced`, the current tenure wrote it, and it is a crawler's. -/
def TenureState.StatusOwned (party : LeaseOwner → LeaseParty) (s : TenureState) : Prop :=
  s.row.syncStatus = .synced →
    s.syncedIn = some s.tenure ∧ ∀ owner, s.row.leaseOwner = some owner → party owner = .crawler

namespace TenureState.StatusOwned

variable {party : LeaseOwner → LeaseParty} {s : TenureState}

/-- A step that leaves the status and the holder alone. -/
theorem kept (owned : s.StatusOwned party) {row : SyncState} {clock : Time}
    (status : row.syncStatus = s.row.syncStatus) (holder : row.leaseOwner = s.row.leaseOwner) :
    TenureState.StatusOwned party { s with row, clock } := by
  intro synced
  obtain ⟨wrote, crawler⟩ := owned (status.symm.trans synced)
  exact ⟨wrote, fun owner held => crawler owner (holder.symm.trans held)⟩

/-- A step of a crawler that holds the lease and writes the status. -/
theorem written {row : SyncState} {clock : Time} {owner : LeaseOwner}
    (holder : row.leaseOwner = some owner) (crawler : party owner = .crawler) :
    TenureState.StatusOwned party { s with row, clock, syncedIn := some s.tenure } := by
  refine fun _ => ⟨rfl, fun other held => ?_⟩
  cases holder.symm.trans held
  exact crawler

theorem ofStatus (status : s.row.syncStatus ≠ .synced) : s.StatusOwned party :=
  fun synced => absurd synced status

theorem released (owned : s.StatusOwned party) {row : SyncState} {clock : Time}
    (status : row.syncStatus = s.row.syncStatus) (holder : row.leaseOwner = none) :
    TenureState.StatusOwned party { s with row, clock } := by
  intro synced
  refine ⟨(owned (status.symm.trans synced)).1, fun owner held => ?_⟩
  cases holder.symm.trans held

end TenureState.StatusOwned

/-- A lease is only granted while the stored status is not `synced`. -/
def GrantedUnsynced (row : SyncState) : Prop := row.syncStatus ≠ .synced

section Runs

variable {party : LeaseOwner → LeaseParty} {s s' : TenureState}

theorem TenureStep.statusOwned (step : TenureStep party GrantedUnsynced s s')
    (owned : s.StatusOwned party) : s'.StatusOwned party := by
  cases step with
  | startCrawler owner now later crawler may granted =>
      refine .ofStatus (s := { s with row := _, clock := now, tenure := s.tenure + 1 }) ?_
      dsimp only
      rwa [SyncState.tryAcquireCrawlerLease_syncStatus]
  | startImport owner now later importer may granted =>
      refine .ofStatus (s := { s with row := _, clock := now, tenure := s.tenure + 1 }) ?_
      dsimp only
      rwa [SyncState.tryAcquireImportLease_syncStatus]
  | idle now later => exact owned.kept rfl rfl
  | beatCrawler owner now later crawler =>
      exact owned.kept SyncState.renewCrawlerLease_syncStatus
        SyncState.renewCrawlerLease_leaseOwner
  | beatImport owner now later importer =>
      exact owned.kept SyncState.renewImportLease_syncStatus SyncState.renewImportLease_leaseOwner
  | persistSynced owner block tip utxoAppliedSlot now later crawler leaseHeld =>
      exact .written (SyncState.advanceCursor_leaseOwner leaseHeld) crawler
  | persistSyncing owner block tip utxoAppliedSlot now later crawler leaseHeld =>
      refine .ofStatus (s := { s with row := _, clock := now }) ?_
      rw [SyncState.advanceCursor_syncStatus (SyncState.matched_of_leaseHeld leaseHeld)]
      exact nofun
  | caughtUp owner now later crawler renewed =>
      refine .written ?_ crawler
      exact SyncState.leaseOwner_of_leaseDeadlineReached renewed
  | rolledBack owner slot height hash now later crawler renewed =>
      exact owned.kept SyncState.renewCrawlerLease_syncStatus
        SyncState.renewCrawlerLease_leaseOwner
  | crawlerError owner now later crawler =>
      cases recorded : (s.row.recordError (some owner) now).2 with
      | some streak => exact .ofStatus (SyncState.recordError_syncStatus streak recorded)
      | none =>
          rw [SyncState.recordError_lost recorded]
          exact owned.kept SyncState.renewCrawlerLease_syncStatus
            SyncState.renewCrawlerLease_leaseOwner
  | haltCrawler owner finalStatus latch now later crawler final =>
      by_cases held : s.row.leaseOwner = some owner
      · refine .ofStatus ?_
        rw [SyncState.releaseCrawlerLease, if_pos held]
        rcases final with rfl | rfl <;> exact nofun
      · rw [SyncState.releaseCrawlerLease, if_neg held]
        exact owned.kept rfl rfl
  | endImport owner now later importer =>
      by_cases held : s.row.leaseOwner = some owner
      · rw [SyncState.releaseImportLease, if_pos held]
        exact owned.released rfl rfl
      · rw [SyncState.releaseImportLease, if_neg held]
        exact owned.kept rfl rfl
  | rewind owner slot height hash now later importer renewed =>
      exact owned.kept SyncState.renewImportLease_syncStatus SyncState.renewImportLease_leaseOwner
  | utxoSetState utxoSet now later => exact owned.kept rfl rfl
  | desiredRunning desired now later =>
      cases desired with
      | true => exact owned.kept rfl rfl
      | false => exact .ofStatus nofun
  | poison now later => exact .ofStatus nofun

theorem TenureRun.statusOwned (run : TenureRun party GrantedUnsynced s) :
    s.StatusOwned party := by
  obtain ⟨network, start, steps⟩ := run
  induction steps with
  | refl => exact .ofStatus nofun
  | tail _ step owned => exact step.statusOwned owned

theorem lease_of_localCoverage {row : SyncState} {now : Time} {coverage : LocalCoverage}
    (served : localCoverage row now = some coverage) :
    row.syncStatus = .synced ∧ (∃ owner, row.leaseOwner = some owner) ∧
      ∃ deadline, row.leaseUntil = some deadline ∧ now < deadline := by
  rw [localCoverage] at served
  split at served
  · rename_i live
    obtain ⟨synced, active⟩ := live
    rw [SyncState.isCrawlerLeaseActive] at active
    simp only [Bool.and_eq_true, Option.any_eq_true, decide_eq_true_eq] at active
    exact ⟨synced, Option.isSome_iff_exists.mp active.1.2, active.2⟩
  · cases served

/-- Without a grant over a left-over `synced`, local answers are only served while a
crawler keeps the tables current. -/
theorem localCoverage_keptCurrent (run : TenureRun party GrantedUnsynced s) {now : Time}
    {coverage : LocalCoverage} (served : localCoverage s.row now = some coverage) :
    s.KeptCurrent party now := by
  obtain ⟨synced, ⟨owner, held⟩, unexpired⟩ := lease_of_localCoverage served
  obtain ⟨wrote, crawler⟩ := run.statusOwned synced
  exact ⟨⟨owner, held, crawler owner held⟩, unexpired, synced, wrote⟩

/-- A crawler that starts over a left-over `synced` is taken for one at the tip. -/
theorem localCoverage_startedOverSynced {row : SyncState} {owner : LeaseOwner} {now : Time}
    {fromSlot : Nat} (synced : row.syncStatus = .synced) (started : row.startSlot = some fromSlot)
    (granted : (row.tryAcquireCrawlerLease owner now).2 = true) :
    (localCoverage (row.tryAcquireCrawlerLease owner now).1 now).isSome := by
  have status := @SyncState.tryAcquireCrawlerLease_syncStatus row owner now
  rw [SyncState.tryAcquireCrawlerLease] at granted status ⊢
  split at granted
  · cases granted
  · rename_i free
    simp only [if_neg free] at status ⊢
    have held := SyncState.leaseOwner_of_leaseDeadlineReached granted
    simp only [SyncState.leaseDeadlineReached, SyncState.importLeaseHeld, Bool.and_eq_true,
      Option.any_eq_true, decide_eq_true_eq] at granted
    obtain ⟨running, -, deadline, stored, reached⟩ := granted
    have tolerance : ∀ a b : Nat, a + 15000 - 1000 ≤ b → a < b := by omega
    have unexpired : now < deadline := tolerance now deadline reached
    have active : SyncState.isCrawlerLeaseActive
        (row.takeCrawlerLease row owner (now + CRAWLER_LEASE_TTL_MS)) now = true := by
      simp [SyncState.isCrawlerLeaseActive, running, held, stored, unexpired]
    rw [localCoverage, if_pos ⟨status.trans synced, active⟩, SyncState.takeCrawlerLease,
      if_pos ⟨rfl, rfl⟩]
    simp [started]

end Runs

section Samples

def sampleParty (owner : LeaseOwner) : LeaseParty :=
  if owner = "import:7:k3" then .importer else .crawler

def syncedBlock : ChainPoint := ⟨120, text "b1", some 2⟩

/-- A crawler has reached the tip. -/
def syncedTenure : TenureState where
  row :=
    (((SyncState.initial "preview" (some ⟨100, text "b0", some 1⟩)).tryAcquireCrawlerLease
      "41:a" 0).1.advanceCursor syncedBlock (some syncedBlock) .synced none (some "41:a") 1000).1
  clock := 1000
  tenure := 1
  syncedIn := some 1

theorem syncedTenure_run {allowed : SyncState → Prop}
    (may : allowed (SyncState.initial "preview" (some ⟨100, text "b0", some 1⟩))) :
    TenureRun sampleParty allowed syncedTenure :=
  ⟨"preview", some ⟨100, text "b0", some 1⟩,
    .tail (.single (.startCrawler (.start "preview" (some ⟨100, text "b0", some 1⟩)) "41:a" 0
        (Nat.le_refl _) rfl may (by decide +kernel)))
      (.persistSynced _ "41:a" syncedBlock (some syncedBlock) none 1000 (Nat.zero_le _) rfl
        (by decide +kernel))⟩

theorem localCoverage_keptCurrent_sample :
    localCoverage syncedTenure.row 2000 = some ⟨100, 120, some 2, false⟩ ∧
      syncedTenure.KeptCurrent sampleParty 2000 := by
  have served : localCoverage syncedTenure.row 2000 = some ⟨100, 120, some 2, false⟩ := by
    decide +kernel
  exact ⟨served, localCoverage_keptCurrent (syncedTenure_run nofun) served⟩

/-- The crawler crashed, its lease ran out, and an import took it. -/
def importTenure : TenureState :=
  { syncedTenure with
    row := (syncedTenure.row.tryAcquireImportLease "import:7:k3" 20000).1
    clock := 20000
    tenure := 2 }

theorem localCoverage_servedOverImport :
    TenureRun sampleParty (fun _ => True) importTenure ∧
      localCoverage importTenure.row 20000 = some ⟨100, 120, some 2, false⟩ ∧
      ¬importTenure.KeptCurrent sampleParty 20000 := by
  refine ⟨?_, by decide +kernel, ?_⟩
  · obtain ⟨network, start, steps⟩ := @syncedTenure_run (fun _ => True) trivial
    exact ⟨network, start, steps.tail (.startImport syncedTenure "import:7:k3" 20000
      (by decide) rfl trivial (by decide +kernel))⟩
  · rintro ⟨⟨owner, held, crawler⟩, -, -⟩
    have holder : importTenure.row.leaseOwner = some "import:7:k3" := by decide +kernel
    cases held.symm.trans holder
    exact absurd crawler (by decide +kernel)

end Samples

end Odatano
