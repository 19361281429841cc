import Odatano.WalletJobs

/-!
# Wallet leases

The wallet rows of `srv/blockchain/wallet-worker/job-store.ts`, the lease
statements on them and the two transactions of a worker's tick.  Every instance
reads its own clock, twice where a transaction calls two functions that do.
-/

namespace Odatano

def WORKER_LEASE_TTL_MS : Time := 15000

structure WorkerWallet where
  walletId : WalletId
  enabled : Bool
  leaseOwner : Option LeaseOwner
  leaseUntil : Option Time
deriving DecidableEq

abbrev WorkerWalletTable := Table WorkerWallet.walletId

/-- True when the wallet's lease is currently held by some instance. -/
def walletLeaseHeld (wallet : Option WorkerWallet) (now : Time) : Bool :=
  wallet.any fun wallet =>
    wallet.leaseOwner.isSome && wallet.leaseUntil.any fun deadline => decide (now < deadline)

/-- Another owner's lease is still running. -/
def WorkerWallet.heldByOther (wallet : WorkerWallet) (owner : LeaseOwner) (now : Time) : Bool :=
  wallet.leaseOwner.any fun holder =>
    decide (holder ≠ owner) && wallet.leaseUntil.any fun deadline => decide (now < deadline)

/-- The read-back, with one second tolerance. -/
def walletDeadlineReached (wallet : Option WorkerWallet) (owner : LeaseOwner) (expected : Time) :
    Bool :=
  wallet.any fun wallet =>
    decide (wallet.leaseOwner = some owner) &&
      wallet.leaseUntil.any fun actual => decide (expected - 1000 ≤ actual)

/-- Register a configured wallet; a row that is there keeps its lease. -/
def upsertWalletRegistration (wallets : WorkerWalletTable) (walletId : WalletId) :
    WorkerWalletTable :=
  match wallets.find? walletId with
  | some _ => wallets
  | none => wallets.upsert ⟨walletId, true, none, none⟩

/-- Takes a free wallet lease by compare-and-swap with read-back. -/
def tryAcquireWalletLease (wallets : WorkerWalletTable) (walletId : WalletId) (owner : LeaseOwner)
    (now : Time) : WorkerWalletTable × Bool :=
  match wallets.find? walletId with
  | none => (wallets, false)
  | some current =>
      if !current.enabled || current.heldByOther owner now then (wallets, false)
      else
        let taken := wallets.update
          (fun wallet => wallet.walletId = walletId ∧ wallet.leaseOwner = current.leaseOwner)
          (fun wallet =>
            { wallet with leaseOwner := some owner, leaseUntil := some (now + WORKER_LEASE_TTL_MS) })
          fun _ => rfl
        (taken, walletDeadlineReached (taken.find? walletId) owner (now + WORKER_LEASE_TTL_MS))

/-- Renew the caller's lease; the answer is whether it is still the caller's. -/
def renewWalletLease (wallets : WorkerWalletTable) (walletId : WalletId) (owner : LeaseOwner)
    (now : Time) : WorkerWalletTable × Bool :=
  let renewed := wallets.update
    (fun wallet => wallet.walletId = walletId ∧ wallet.leaseOwner = some owner)
    (fun wallet => { wallet with leaseUntil := some (now + WORKER_LEASE_TTL_MS) }) fun _ => rfl
  (renewed, walletDeadlineReached (renewed.find? walletId) owner (now + WORKER_LEASE_TTL_MS))

/-- Release only the caller's lease. -/
def releaseWalletLease (wallets : WorkerWalletTable) (walletId : WalletId) (owner : LeaseOwner) :
    WorkerWalletTable :=
  wallets.update (fun wallet => wallet.walletId = walletId ∧ wallet.leaseOwner = some owner)
    (fun wallet => { wallet with leaseOwner := none, leaseUntil := none }) fun _ => rfl

/-- `LeaseHeartbeat.fence`: a lease that was lost once stays lost. -/
def leaseFence (wallets : WorkerWalletTable) (walletId : WalletId) (owner : LeaseOwner)
    (lost : Bool) (now : Time) : WorkerWalletTable × Bool :=
  if lost then (wallets, false) else renewWalletLease wallets walletId owner now

/-! ## The transactions of a tick -/

/-- Fails orphaned building rows of a wallet without a live lease. -/
def failOrphanedBuildingJobs (jobs : WalletJobTable) (wallets : WorkerWalletTable)
    (walletId : WalletId) (now : Time) : WalletJobTable :=
  if walletLeaseHeld (wallets.find? walletId) now then jobs else failBuilding jobs walletId

/-- In flight: building, submitting or submitted. -/
def WalletJobStatus.isActive : WalletJobStatus → Bool
  | .building | .submitting | .submitted => true
  | _ => false

def walletHasActiveJob (jobs : WalletJobTable) (walletId : WalletId) : Bool :=
  jobs.rows.any fun job => decide (job.walletId = walletId) && job.status.isActive

/-- Oldest submitting row of a wallet without a live lease. -/
def findOrphanedSubmittingJob (jobs : WalletJobTable) (wallets : WorkerWalletTable)
    (walletId : WalletId) (now : Time) : Option WalletJob :=
  if walletLeaseHeld (wallets.find? walletId) now then none
  else jobs.rows.find? fun job => decide (job.walletId = walletId ∧ job.status = .submitting)

/-- The transaction of `tick` for a wallet with a runnable job. -/
def dispatchTx (jobs : WalletJobTable) (wallets : WorkerWalletTable) (walletId : WalletId)
    (owner : LeaseOwner) (swept now : Time) : WalletJobTable × WorkerWalletTable × Bool :=
  let jobs := failOrphanedBuildingJobs jobs wallets walletId swept
  if walletHasActiveJob jobs walletId then (jobs, wallets, false)
  else (jobs, tryAcquireWalletLease wallets walletId owner now)

/-- The transaction of `reconcileOrphanedSubmissions` for a wallet. -/
def reconcileTx (jobs : WalletJobTable) (wallets : WorkerWalletTable) (walletId : WalletId)
    (owner : LeaseOwner) (looked now : Time) : WorkerWalletTable × Option WalletJob :=
  match findOrphanedSubmittingJob jobs wallets walletId looked with
  | none => (wallets, none)
  | some stuck =>
      let taken := tryAcquireWalletLease wallets walletId owner now
      (taken.1, if taken.2 then some stuck else none)

/-! ## Whose lease it is -/

def leaseHolder (wallets : WorkerWalletTable) (walletId : WalletId) : Option LeaseOwner :=
  (wallets.find? walletId).bind WorkerWallet.leaseOwner

section Holders

variable {wallets : WorkerWalletTable} {walletId : WalletId} {owner : LeaseOwner}

theorem leaseHolder_of_deadlineReached {expected : Time}
    (reached : walletDeadlineReached (wallets.find? walletId) owner expected = true) :
    leaseHolder wallets walletId = some owner := by
  rw [leaseHolder]
  cases found : wallets.find? walletId with
  | none =>
      rw [found] at reached
      cases reached
  | some wallet =>
      simp only [found, walletDeadlineReached, Option.any_some, Bool.and_eq_true,
        decide_eq_true_eq] at reached
      exact reached.1

theorem leaseHolder_register (other : WalletId) :
    leaseHolder (upsertWalletRegistration wallets walletId) other = leaseHolder wallets other := by
  rw [upsertWalletRegistration]
  split
  · rfl
  · rename_i unregistered
    rw [leaseHolder, Table.find?_upsert]
    split
    · rename_i same
      cases same
      rw [leaseHolder, unregistered]
      rfl
    · rfl

theorem leaseHolder_renew (now : Time) (other : WalletId) :
    leaseHolder (renewWalletLease wallets walletId owner now).1 other =
      leaseHolder wallets other := by
  simp only [renewWalletLease, leaseHolder, Table.find?_update]
  cases wallets.find? other with
  | none => rfl
  | some wallet =>
      simp only [Option.map_some, Option.bind_some]
      split <;> rfl

theorem leaseHolder_of_renewed {now : Time}
    (held : (renewWalletLease wallets walletId owner now).2 = true) :
    leaseHolder wallets walletId = some owner :=
  (leaseHolder_renew now walletId).symm.trans (leaseHolder_of_deadlineReached held)

theorem leaseHolder_fence (lost : Bool) (now : Time) (other : WalletId) :
    leaseHolder (leaseFence wallets walletId owner lost now).1 other =
      leaseHolder wallets other := by
  rw [leaseFence]
  split
  · rfl
  · exact leaseHolder_renew now other

theorem leaseHolder_of_fence {lost : Bool} {now : Time}
    (held : (leaseFence wallets walletId owner lost now).2 = true) :
    leaseHolder wallets walletId = some owner := by
  rw [leaseFence] at held
  split at held
  · cases held
  · exact leaseHolder_of_renewed held

theorem leaseHolder_of_release {other : WalletId} {holder : LeaseOwner}
    (holds : leaseHolder (releaseWalletLease wallets walletId owner) other = some holder) :
    leaseHolder wallets other = some holder := by
  simp only [releaseWalletLease, leaseHolder, Table.find?_update] at holds ⊢
  cases found : wallets.find? other with
  | none =>
      rw [found] at holds
      cases holds
  | some wallet =>
      simp only [found, Option.map_some, Option.bind_some] at holds ⊢
      split at holds
      · cases holds
      · exact holds

theorem leaseHolder_acquire_other (now : Time) {other : WalletId} (different : other ≠ walletId) :
    leaseHolder (tryAcquireWalletLease wallets walletId owner now).1 other =
      leaseHolder wallets other := by
  rw [tryAcquireWalletLease]
  split
  · rfl
  split
  · rfl
  simp only [leaseHolder, Table.find?_update]
  cases found : wallets.find? other with
  | none => rfl
  | some wallet =>
      have isOther : wallet.walletId = other := Table.key_of_find? found
      have unselected : ¬ (wallet.walletId = walletId) := isOther ▸ different
      simp only [Option.map_some, Option.bind_some, unselected, false_and, decide_false,
        Bool.false_eq_true, if_false]

theorem leaseHolder_of_acquired {now : Time}
    (acquired : (tryAcquireWalletLease wallets walletId owner now).2 = true) :
    leaseHolder (tryAcquireWalletLease wallets walletId owner now).1 walletId = some owner := by
  rw [tryAcquireWalletLease] at acquired ⊢
  split at acquired
  · cases acquired
  split at acquired
  · cases acquired
  · rename_i free
    rw [if_neg free]
    exact leaseHolder_of_deadlineReached acquired

end Holders

end Odatano
