import Odatano.WalletLeases

/-!
# Wallet workers

Any number of instances of `srv/blockchain/wallet-worker/wallet-worker.ts` over one
job table.  A transaction is one step; between two of its awaits an execution may
pause for any time, its lease may run out, any statement may fail and an instance
may crash.
-/

namespace Odatano

/-! ## Executions -/

/-- What an execution does next. -/
inductive WorkerStage
  | claiming
  | fenceBuild
  | building
  | signing
  /-- Signed, before the last fence. -/
  | fenceSubmit (tx : SignedTx)
  /-- Past the fence, about to store the bytes. -/
  | storing (tx : SignedTx)
  | sending (tx : SignedTx)
  | sent (tx : SignedTx)
  | adopting (tx : SignedTx)
  /-- `handleExecutionFailure`, before it reads the row. -/
  | failing
  /-- `handleExecutionFailure` of a row that was read as building, or not read. -/
  | notSubmitted
  | lookingUp (tx : SignedTx)
  | failReconciled
  | releasing
deriving DecidableEq

/-- One wallet's work in one process: `executeJob`, or `reconcileSubmitting`. -/
structure Execution where
  /-- The row as it was found. -/
  job : WalletJob
  reconciling : Bool
  /-- `LeaseHeartbeat.lost`. -/
  lost : Bool
  stage : WorkerStage
deriving DecidableEq

/-- What happens between two awaits without a statement on the store. -/
inductive StageMove : Bool → WorkerStage → WorkerStage → Prop
  | prepareThrows : StageMove false .fenceBuild .failing
  | buildThrows : StageMove false .building .failing
  | signs (tx : SignedTx) : StageMove false .signing (.fenceSubmit tx)
  | signThrows : StageMove false .signing .failing
  | hashThrows (tx : SignedTx) : StageMove false (.fenceSubmit tx) .failing
  | storeThrows (tx : SignedTx) : StageMove false (.storing tx) .failing
  -- accepted, or already known
  | accepted (reconciling : Bool) (tx : SignedTx) : StageMove reconciling (.sent tx) (.adopting tx)
  | rejected (tx : SignedTx) : StageMove false (.sent tx) .releasing
  | resubmitRejected (tx : SignedTx) : StageMove true (.sent tx) (.lookingUp tx)
  | adoptThrows (tx : SignedTx) : StageMove false (.adopting tx) .failing
  | readoptThrows (tx : SignedTx) : StageMove true (.adopting tx) (.lookingUp tx)
  | foundAdoptThrows (tx : SignedTx) : StageMove true (.adopting tx) .releasing
  | failureUnread : StageMove false .failing .notSubmitted
  | failureUnsaved : StageMove false .notSubmitted .releasing
  | onChain (tx : SignedTx) : StageMove true (.lookingUp tx) (.adopting tx)
  -- the lookup is inconclusive, or the failure transient
  | retryNextTick (tx : SignedTx) : StageMove true (.lookingUp tx) .releasing
  | absent (tx : SignedTx) : StageMove true (.lookingUp tx) .failReconciled
  | failureNotPersisted : StageMove true .failReconciled .releasing

/-! ## Runs -/

inductive WorkerEvent
  | built (jobId : String)
  | stored (jobId : String) (tx : SignedTx)
  | submitted (jobId : String) (tx : SignedTx)
deriving DecidableEq

/-- The job whose submission has begun by then, and its bytes. -/
def WorkerEvent.bytes : WorkerEvent → Option (String × SignedTx)
  | .built _ => none
  | .stored jobId tx | .submitted jobId tx => some (jobId, tx)

structure WorkersState where
  jobs : WalletJobTable
  wallets : WorkerWalletTable
  /-- What each instance works on, by wallet. -/
  executing : LeaseOwner → WalletId → Option Execution
  /-- Jobs handed to a confirmation tracker, with the bytes it may send again. -/
  tracked : List (String × SignedTx)
  /-- Builds, stored bytes and submissions, newest first. -/
  events : List WorkerEvent

def WorkersState.put (s : WorkersState) (owner : LeaseOwner) (walletId : WalletId)
    (execution : Option Execution) : WorkersState :=
  { s with
    executing := fun o w =>
      if o = owner ∧ w = walletId then execution else s.executing o w }

section Steps

variable (sha256 : String → String) (requestTx : WalletJob → Option SignedTx)
  (allowed : WorkersState → String → Prop)

/-- After its claim a job is built, unless its request carries the signed bytes. -/
def claimedStage (job : WalletJob) : WorkerStage :=
  if job.kind = "submitSigned" then
    match requestTx job with
    | none => .failing
    | some tx => .fenceSubmit tx
  else .fenceBuild

/-- Where a reconciliation starts; a row without signed bytes cannot be sent. -/
def reconcileStage (job : WalletJob) : WorkerStage :=
  match job.signedTx with
  | none => .failReconciled
  | some tx => .sending tx

/-- Steps that end a job must be `allowed`. -/
inductive WorkerStep : WorkersState → WorkersState → Prop
  | register (s : WorkersState) (walletId : WalletId) :
      WorkerStep s { s with wallets := upsertWalletRegistration s.wallets walletId }
  | enqueue (s : WorkersState) (args : InsertJobArgs) (ID : String) (jobs : WalletJobTable)
      (inserted : insertJob sha256 s.jobs args ID = some jobs) : WorkerStep s { s with jobs }
  | cancel (s : WorkersState) (jobId : String) :
      WorkerStep s { s with jobs := markCancelled s.jobs jobId }
  -- `recoverInterruptedJobs` of a process that starts
  | recover (s : WorkersState) (walletId : WalletId) (now : Time) :
      WorkerStep s { s with jobs := failOrphanedBuildingJobs s.jobs s.wallets walletId now }
  | track (s : WorkersState) (job : WalletJob) (tx : SignedTx) (jobMem : job ∈ s.jobs.rows)
      (submitted : job.status = .submitted) (stored : job.signedTx = some tx) :
      WorkerStep s { s with tracked := (job.ID, tx) :: s.tracked }
  | dispatchRefused (s : WorkersState) (owner : LeaseOwner) (walletId : WalletId)
      (swept now : Time)
      (refused : (dispatchTx s.jobs s.wallets walletId owner swept now).2.2 = false) :
      WorkerStep s { s with jobs := (dispatchTx s.jobs s.wallets walletId owner swept now).1 }
  -- the job was found by an earlier transaction
  | dispatch (s : WorkersState) (owner : LeaseOwner) (job row : WalletJob) (swept now : Time)
      (rowMem : row ∈ s.jobs.rows) (sameJob : row.ID = job.ID)
      (sameWallet : row.walletId = job.walletId) (sameKind : row.kind = job.kind)
      (idle : s.executing owner job.walletId = none)
      (taken : (dispatchTx s.jobs s.wallets job.walletId owner swept now).2.2 = true) :
      WorkerStep s
        (WorkersState.put
          { s with
            jobs := (dispatchTx s.jobs s.wallets job.walletId owner swept now).1
            wallets := (dispatchTx s.jobs s.wallets job.walletId owner swept now).2.1 }
          owner job.walletId (some ⟨job, false, false, .claiming⟩))
  -- `stop` began after the lease was taken
  | dispatchStopped (s : WorkersState) (owner : LeaseOwner) (walletId : WalletId)
      (swept now : Time) (idle : s.executing owner walletId = none)
      (taken : (dispatchTx s.jobs s.wallets walletId owner swept now).2.2 = true) :
      WorkerStep s
        { s with
          jobs := (dispatchTx s.jobs s.wallets walletId owner swept now).1
          wallets := (dispatchTx s.jobs s.wallets walletId owner swept now).2.1 }
  | reconcile (s : WorkersState) (owner : LeaseOwner) (walletId : WalletId) (job : WalletJob)
      (looked now : Time) (idle : s.executing owner walletId = none)
      (taken : (reconcileTx s.jobs s.wallets walletId owner looked now).2 = some job) :
      WorkerStep s
        (WorkersState.put
          { s with wallets := (reconcileTx s.jobs s.wallets walletId owner looked now).1 }
          owner walletId (some ⟨job, true, false, reconcileStage job⟩))
  | reconcileStopped (s : WorkersState) (owner : LeaseOwner) (walletId : WalletId)
      (job : WalletJob) (looked now : Time) (idle : s.executing owner walletId = none)
      (taken : (reconcileTx s.jobs s.wallets walletId owner looked now).2 = some job) :
      WorkerStep s { s with wallets := (reconcileTx s.jobs s.wallets walletId owner looked now).1 }
  | claim (s : WorkersState) (owner : LeaseOwner) (walletId : WalletId) (job row : WalletJob)
      (lost : Bool) (running : s.executing owner walletId = some ⟨job, false, lost, .claiming⟩)
      (rowMem : row ∈ s.jobs.rows) (sameJob : row.ID = job.ID) (pending : row.status = .pending) :
      WorkerStep s
        (WorkersState.put { s with jobs := markBuilding s.jobs job.ID (job.attempt + 1) }
          owner walletId (some ⟨job, false, lost, claimedStage requestTx job⟩))
  -- cancelled or claimed elsewhere; the lease is left to run out
  | claimLost (s : WorkersState) (owner : LeaseOwner) (walletId : WalletId) (execution : Execution)
      (running : s.executing owner walletId = some execution)
      (claiming : execution.stage = .claiming) : WorkerStep s (s.put owner walletId none)
  -- the claim throws although it was committed
  | claimUnanswered (s : WorkersState) (owner : LeaseOwner) (walletId : WalletId)
      (job row : WalletJob) (lost : Bool)
      (running : s.executing owner walletId = some ⟨job, false, lost, .claiming⟩)
      (rowMem : row ∈ s.jobs.rows) (sameJob : row.ID = job.ID) (pending : row.status = .pending) :
      WorkerStep s
        (WorkersState.put { s with jobs := markBuilding s.jobs job.ID (job.attempt + 1) }
          owner walletId none)
  | fenceBuild (s : WorkersState) (owner : LeaseOwner) (walletId : WalletId) (job : WalletJob)
      (lost : Bool) (now : Time)
      (running : s.executing owner walletId = some ⟨job, false, lost, .fenceBuild⟩)
      (held : (leaseFence s.wallets walletId owner lost now).2 = true) :
      WorkerStep s
        (WorkersState.put
          { s with wallets := (leaseFence s.wallets walletId owner lost now).1 }
          owner walletId (some ⟨job, false, lost, .building⟩))
  | build (s : WorkersState) (owner : LeaseOwner) (walletId : WalletId) (job : WalletJob)
      (lost : Bool) (running : s.executing owner walletId = some ⟨job, false, lost, .building⟩) :
      WorkerStep s
        (WorkersState.put { s with events := .built job.ID :: s.events }
          owner walletId (some ⟨job, false, lost, .signing⟩))
  | fenceSubmit (s : WorkersState) (owner : LeaseOwner) (walletId : WalletId) (job : WalletJob)
      (lost : Bool) (tx : SignedTx) (now : Time)
      (running : s.executing owner walletId = some ⟨job, false, lost, .fenceSubmit tx⟩)
      (held : (leaseFence s.wallets walletId owner lost now).2 = true) :
      WorkerStep s
        (WorkersState.put
          { s with wallets := (leaseFence s.wallets walletId owner lost now).1 }
          owner walletId (some ⟨job, false, lost, .storing tx⟩))
  -- a fence that fails, or whose renewal throws
  | standDown (s : WorkersState) (owner : LeaseOwner) (walletId : WalletId) (job : WalletJob)
      (lost : Bool) (stage : WorkerStage) (now : Time)
      (running : s.executing owner walletId = some ⟨job, false, lost, stage⟩)
      (fence : stage = .fenceBuild ∨ ∃ tx, stage = .fenceSubmit tx) :
      WorkerStep s
        (WorkersState.put
          { s with wallets := (leaseFence s.wallets walletId owner lost now).1 }
          owner walletId (some ⟨job, false, true, .releasing⟩))
  | store (s : WorkersState) (owner : LeaseOwner) (walletId : WalletId) (job row : WalletJob)
      (lost : Bool) (tx : SignedTx) (now : Time)
      (running : s.executing owner walletId = some ⟨job, false, lost, .storing tx⟩)
      (rowMem : row ∈ s.jobs.rows) (sameJob : row.ID = job.ID)
      (building : row.status = .building) :
      WorkerStep s
        (WorkersState.put
          { s with
            jobs := markSubmitting s.jobs job.ID tx now
            events := .stored job.ID tx :: s.events }
          owner walletId (some ⟨job, false, lost, .sending tx⟩))
  -- committed, and then an error
  | storeUnanswered (s : WorkersState) (owner : LeaseOwner) (walletId : WalletId)
      (job row : WalletJob) (lost : Bool) (tx : SignedTx) (now : Time)
      (running : s.executing owner walletId = some ⟨job, false, lost, .storing tx⟩)
      (rowMem : row ∈ s.jobs.rows) (sameJob : row.ID = job.ID)
      (building : row.status = .building) :
      WorkerStep s
        (WorkersState.put
          { s with
            jobs := markSubmitting s.jobs job.ID tx now
            events := .stored job.ID tx :: s.events }
          owner walletId (some ⟨job, false, lost, .failing⟩))
  -- a takeover failed the row
  | storeFenced (s : WorkersState) (owner : LeaseOwner) (walletId : WalletId) (job row : WalletJob)
      (lost : Bool) (tx : SignedTx)
      (running : s.executing owner walletId = some ⟨job, false, lost, .storing tx⟩)
      (rowMem : row ∈ s.jobs.rows) (sameJob : row.ID = job.ID)
      (notBuilding : row.status ≠ .building) :
      WorkerStep s (s.put owner walletId (some ⟨job, false, lost, .releasing⟩))
  | send (s : WorkersState) (owner : LeaseOwner) (walletId : WalletId) (job : WalletJob)
      (reconciling lost : Bool) (tx : SignedTx)
      (running : s.executing owner walletId = some ⟨job, reconciling, lost, .sending tx⟩) :
      WorkerStep s
        (WorkersState.put { s with events := .submitted job.ID tx :: s.events }
          owner walletId (some ⟨job, reconciling, lost, .sent tx⟩))
  | move (s : WorkersState) (owner : LeaseOwner) (walletId : WalletId) (job : WalletJob)
      (reconciling lost : Bool) (stage next : WorkerStage)
      (running : s.executing owner walletId = some ⟨job, reconciling, lost, stage⟩)
      (moves : StageMove reconciling stage next) :
      WorkerStep s (s.put owner walletId (some ⟨job, reconciling, lost, next⟩))
  -- the tracker takes the job over also when the transition matched no row
  | adopt (s : WorkersState) (owner : LeaseOwner) (walletId : WalletId) (job : WalletJob)
      (reconciling lost : Bool) (tx : SignedTx)
      (running : s.executing owner walletId = some ⟨job, reconciling, lost, .adopting tx⟩) :
      WorkerStep s
        (WorkersState.put
          { s with
            jobs := markSubmitted s.jobs job.ID
            tracked := (job.ID, tx) :: s.tracked }
          owner walletId (some ⟨job, reconciling, lost, .releasing⟩))
  | adoptUnanswered (s : WorkersState) (owner : LeaseOwner) (walletId : WalletId)
      (job : WalletJob) (reconciling lost : Bool) (tx : SignedTx) (next : WorkerStage)
      (running : s.executing owner walletId = some ⟨job, reconciling, lost, .adopting tx⟩)
      (moves : StageMove reconciling (.adopting tx) next) :
      WorkerStep s
        (WorkersState.put { s with jobs := markSubmitted s.jobs job.ID }
          owner walletId (some ⟨job, reconciling, lost, next⟩))
  | failureRead (s : WorkersState) (owner : LeaseOwner) (walletId : WalletId) (job row : WalletJob)
      (lost : Bool) (running : s.executing owner walletId = some ⟨job, false, lost, .failing⟩)
      (rowMem : row ∈ s.jobs.rows) (sameJob : row.ID = job.ID) :
      WorkerStep s
        (s.put owner walletId
          (some ⟨job, false, lost, if row.status = .building then .notSubmitted else .releasing⟩))
  | requeue (s : WorkersState) (owner : LeaseOwner) (walletId : WalletId) (job : WalletJob)
      (lost : Bool) (running : s.executing owner walletId = some ⟨job, false, lost, .notSubmitted⟩) :
      WorkerStep s
        (WorkersState.put { s with jobs := requeueForRetry s.jobs job.ID }
          owner walletId (some ⟨job, false, lost, .releasing⟩))
  | failExecution (s : WorkersState) (owner : LeaseOwner) (walletId : WalletId) (job : WalletJob)
      (lost : Bool) (code : String) (may : allowed s job.ID)
      (running : s.executing owner walletId = some ⟨job, false, lost, .notSubmitted⟩) :
      WorkerStep s
        (WorkersState.put { s with jobs := markFailed s.jobs job.ID code }
          owner walletId (some ⟨job, false, lost, .releasing⟩))
  | failReconciled (s : WorkersState) (owner : LeaseOwner) (walletId : WalletId) (job : WalletJob)
      (lost : Bool) (code : String) (may : allowed s job.ID)
      (running : s.executing owner walletId = some ⟨job, true, lost, .failReconciled⟩) :
      WorkerStep s
        (WorkersState.put { s with jobs := markFailed s.jobs job.ID code }
          owner walletId (some ⟨job, true, lost, .releasing⟩))
  | release (s : WorkersState) (owner : LeaseOwner) (walletId : WalletId) (execution : Execution)
      (running : s.executing owner walletId = some execution)
      (releasing : execution.stage = .releasing) :
      WorkerStep s
        (WorkersState.put { s with wallets := releaseWalletLease s.wallets walletId owner }
          owner walletId none)
  -- the release fails
  | releaseThrows (s : WorkersState) (owner : LeaseOwner) (walletId : WalletId)
      (execution : Execution) (running : s.executing owner walletId = some execution)
      (releasing : execution.stage = .releasing) : WorkerStep s (s.put owner walletId none)
  -- `stop`, after its executions ended
  | stopReleases (s : WorkersState) (owner : LeaseOwner) (walletId : WalletId)
      (idle : s.executing owner walletId = none) :
      WorkerStep s { s with wallets := releaseWalletLease s.wallets walletId owner }
  | beat (s : WorkersState) (owner : LeaseOwner) (walletId : WalletId) (now : Time) :
      WorkerStep s { s with wallets := (renewWalletLease s.wallets walletId owner now).1 }
  | beatLost (s : WorkersState) (owner : LeaseOwner) (walletId : WalletId) (execution : Execution)
      (now : Time) (running : s.executing owner walletId = some execution)
      (gone : (renewWalletLease s.wallets walletId owner now).2 = false) :
      WorkerStep s (s.put owner walletId (some { execution with lost := true }))
  | crash (s : WorkersState) (owner : LeaseOwner) :
      WorkerStep s
        { s with executing := fun o w => if o = owner then none else s.executing o w }
  | confirm (s : WorkersState) (jobId : String) (tx : SignedTx) (watched : (jobId, tx) ∈ s.tracked)
      (may : allowed s jobId) : WorkerStep s { s with jobs := markConfirmed s.jobs jobId }
  | drop (s : WorkersState) (jobId : String) (tx : SignedTx) (code : String)
      (watched : (jobId, tx) ∈ s.tracked) (may : allowed s jobId) :
      WorkerStep s { s with jobs := markFailed s.jobs jobId code }
  -- the tracker, after a rollback
  | resubmit (s : WorkersState) (jobId : String) (tx : SignedTx)
      (watched : (jobId, tx) ∈ s.tracked) :
      WorkerStep s { s with events := .submitted jobId tx :: s.events }

def WorkersState.start : WorkersState := ⟨.empty, .empty, fun _ _ => none, [], []⟩

inductive WorkerRun : WorkersState → Prop
  | start : WorkerRun .start
  | step {s s' : WorkersState} (before : WorkerRun s) (step : WorkerStep sha256 requestTx allowed s s') :
      WorkerRun s'

/-! ## What is claimed of them -/

/-- Every submission of a job carries the same bytes. -/
def WorkersState.SameBytes (s : WorkersState) : Prop :=
  ∀ jobId tx other, .submitted jobId tx ∈ s.events → .submitted jobId other ∈ s.events → tx = other

/-- No build of a job comes after its submission has begun. -/
def WorkersState.NeverRebuilt (s : WorkersState) : Prop :=
  s.events.Pairwise fun newer older =>
    ∀ jobId tx, newer = .built jobId → older.bytes ≠ some (jobId, tx)

/-- From the stored bytes to the end of the network call. -/
def WorkerStage.isSending : WorkerStage → Bool
  | .sending _ | .sent _ => true
  | _ => false

def WorkersState.BeingSent (s : WorkersState) (jobId : String) : Prop :=
  ∃ owner walletId execution, s.executing owner walletId = some execution ∧
    execution.job.ID = jobId ∧ execution.stage.isSending = true

/-- An execution of the job is about to store its bytes. -/
def BeingStored (executing : LeaseOwner → WalletId → Option Execution) (job : WalletJob) : Prop :=
  ∃ owner execution tx, executing owner job.walletId = some execution ∧
    execution.job.ID = job.ID ∧ execution.stage = .storing tx

/-- Between the fence and the end of the job's submission.  A row that a takeover
has failed is stopped by the second half of the fence. -/
def WorkersState.PastFence (s : WorkersState) (job : WalletJob) : Prop :=
  job.status = .submitting ∨ (job.status = .building ∧ BeingStored s.executing job) ∨
    s.BeingSent job.ID

/-- One job of a wallet at most is past the fence. -/
def WorkersState.OneInFlight (s : WorkersState) : Prop :=
  ∀ job ∈ s.jobs.rows, ∀ other ∈ s.jobs.rows, job.walletId = other.walletId →
    s.PastFence job → s.PastFence other → job = other

end Steps

/-! ## What every run keeps -/

section Invariant

/-- Before the bytes are stored. -/
def WorkerStage.unstored : WorkerStage → Bool
  | .fenceBuild | .building | .signing | .fenceSubmit _ | .storing _ => true
  | _ => false

def WorkerStage.beforeFence : WorkerStage → Bool
  | .claiming | .fenceBuild | .building | .signing | .fenceSubmit _ => true
  | _ => false

/-- The bytes that are being sent, or were. -/
def WorkerStage.tx? : WorkerStage → Option SignedTx
  | .sending tx | .sent tx | .adopting tx | .lookingUp tx => some tx
  | _ => none

/-- This execution moved the job to building. -/
def Execution.claimed (execution : Execution) : Bool :=
  !execution.reconciling &&
    match execution.stage with
    | .claiming | .releasing => false
    | _ => true

/-- What an execution may rely on of its job's row.  The last field is only kept
where no job is ended while it is being sent. -/
structure Execution.Fits (strict : Prop) (execution : Execution) (row : WalletJob) : Prop where
  unstored : execution.stage.unstored = true →
    row.signedTx = none ∧ (row.status = .building ∨ row.status = .failed)
  executes : execution.stage.unstored = true → execution.reconciling = false
  bytes : ∀ tx, execution.stage.tx? = some tx → row.signedTx = some tx
  claimed : execution.claimed = true → row.status ≠ .pending
  sending : strict → execution.stage.isSending = true →
    row.status = .submitting ∨ row.status = .submitted

/-- Past the fence as the store tells, until its outcome is known. -/
def Occupies (executing : LeaseOwner → WalletId → Option Execution) (job : WalletJob) : Prop :=
  job.status = .submitting ∨ job.status = .submitted ∨
    (job.status = .building ∧ BeingStored executing job)

structure WorkersSound (strict : Prop) (s : WorkersState) : Prop where
  unsent : ∀ row ∈ s.jobs.rows, row.status = .pending ∨ row.status = .building →
    row.signedTx = none
  begun : ∀ event ∈ s.events, ∀ jobId tx, event.bytes = some (jobId, tx) →
    ∃ row ∈ s.jobs.rows, row.ID = jobId ∧ row.signedTx = some tx
  tracked : ∀ jobId tx, (jobId, tx) ∈ s.tracked →
    ∃ row ∈ s.jobs.rows, row.ID = jobId ∧ row.signedTx = some tx
  neverRebuilt : s.NeverRebuilt
  executions : ∀ owner walletId execution, s.executing owner walletId = some execution →
    ∃ row ∈ s.jobs.rows, row.ID = execution.job.ID ∧ row.walletId = walletId ∧
      execution.Fits strict row
  claimedOnce : ∀ owner other walletId execution otherExecution,
    s.executing owner walletId = some execution →
    s.executing other walletId = some otherExecution → execution.claimed = true →
      otherExecution.claimed = true → execution.job.ID = otherExecution.job.ID → owner = other
  occupiedOnce : ∀ row ∈ s.jobs.rows, ∀ other ∈ s.jobs.rows, row.walletId = other.walletId →
    Occupies s.executing row → Occupies s.executing other → row = other
  -- a fence can only be passed by the holder of the lease
  free : ∀ owner walletId execution, s.executing owner walletId = some execution →
    execution.stage.beforeFence = true → leaseHolder s.wallets walletId = some owner →
      ∀ row ∈ s.jobs.rows, row.walletId = walletId → ¬ Occupies s.executing row

end Invariant

section Preserved

variable {strict : Prop} {s : WorkersState}

/-- A transition other than to pending, building and submitting. -/
structure WalletJob.Quiet (old new : WalletJob) : Prop where
  ID : new.ID = old.ID
  walletId : new.walletId = old.walletId
  signedTx : new.signedTx = old.signedTx
  status : new.status = old.status ∨ new.status = .failed ∨
    (old.status = .submitting ∧ new.status = .submitted) ∨
    (old.status = .submitted ∧ new.status = .confirmed) ∨
    (old.status = .pending ∧ new.status = .cancelled)

theorem WalletJob.Quiet.refl (job : WalletJob) : job.Quiet job := ⟨rfl, rfl, rfl, Or.inl rfl⟩

/-- What an execution relies on survives a quiet transition. -/
theorem Execution.Fits.quiet {execution : Execution} {old new : WalletJob}
    (fits : execution.Fits strict old) (quiet : old.Quiet new)
    (unended : strict → execution.stage.isSending = true →
      new.status = .submitting ∨ new.status = .submitted) : execution.Fits strict new := by
  refine ⟨?_, fits.executes, ?_, ?_, unended⟩
  · intro unstored
    obtain ⟨unsigned, live⟩ := fits.unstored unstored
    refine ⟨quiet.signedTx.trans unsigned, ?_⟩
    rcases quiet.status with same | failed | ⟨was, -⟩ | ⟨was, -⟩ | ⟨was, -⟩
    · exact same ▸ live
    · exact Or.inr failed
    all_goals exact absurd live (by simp [was])
  · intro tx sends
    exact quiet.signedTx.trans (fits.bytes tx sends)
  · intro claimed pending
    rcases quiet.status with same | failed | ⟨-, new⟩ | ⟨-, new⟩ | ⟨-, new⟩
    · exact fits.claimed claimed (same ▸ pending)
    · cases failed.symm.trans pending
    all_goals cases new.symm.trans pending

/-- A job that occupies its wallet after a quiet transition did before. -/
theorem WalletJob.Quiet.occupies {executing : LeaseOwner → WalletId → Option Execution}
    {old new : WalletJob} (quiet : old.Quiet new) (occupied : Occupies executing new) :
    Occupies executing old := by
  rcases quiet.status with same | failed | ⟨was, -⟩ | ⟨was, -⟩ | ⟨-, is⟩
  · rcases occupied with submitting | submitted | ⟨building, beingStored⟩
    · exact Or.inl (same ▸ submitting)
    · exact Or.inr (Or.inl (same ▸ submitted))
    · refine Or.inr (Or.inr ⟨same ▸ building, ?_⟩)
      rwa [BeingStored, quiet.ID, quiet.walletId] at beingStored
  · rw [Occupies, failed] at occupied
    simp at occupied
  · exact Or.inl was
  · exact Or.inr (Or.inl was)
  · rw [Occupies, is] at occupied
    simp at occupied

namespace WorkersSound

/-- A change of rows and executions after which no more jobs occupy their wallet. -/
theorem change (sound : WorkersSound strict s) {jobs : WalletJobTable}
    {executing : LeaseOwner → WalletId → Option Execution}
    (kept : ∀ row ∈ s.jobs.rows, ∃ row' ∈ jobs.rows, row'.ID = row.ID ∧
      ∀ tx, row.signedTx = some tx → row'.signedTx = some tx)
    (unsent : ∀ row ∈ jobs.rows, row.status = .pending ∨ row.status = .building →
      row.signedTx = none)
    (executions : ∀ owner walletId execution, executing owner walletId = some execution →
      ∃ row ∈ jobs.rows, row.ID = execution.job.ID ∧ row.walletId = walletId ∧
        execution.Fits strict row)
    (claimedOnce : ∀ owner other walletId execution otherExecution,
      executing owner walletId = some execution →
      executing other walletId = some otherExecution → execution.claimed = true →
        otherExecution.claimed = true → execution.job.ID = otherExecution.job.ID → owner = other)
    (occupies : ∀ row ∈ jobs.rows, Occupies executing row →
      ∃ old ∈ s.jobs.rows, old.ID = row.ID ∧ old.walletId = row.walletId ∧
        Occupies s.executing old)
    (beforeFence : ∀ owner walletId execution, executing owner walletId = some execution →
      execution.stage.beforeFence = true →
        ∃ old, s.executing owner walletId = some old ∧ old.stage.beforeFence = true) :
    WorkersSound strict { s with jobs, executing } := by
  have bytesKept {jobId : String} {tx : SignedTx}
      (stored : ∃ row ∈ s.jobs.rows, row.ID = jobId ∧ row.signedTx = some tx) :
      ∃ row ∈ jobs.rows, row.ID = jobId ∧ row.signedTx = some tx := by
    obtain ⟨row, rowMem, isJob, hasTx⟩ := stored
    obtain ⟨row', row'Mem, sameId, keeps⟩ := kept row rowMem
    exact ⟨row', row'Mem, sameId.trans isJob, keeps tx hasTx⟩
  refine ⟨unsent, ?_, ?_, sound.neverRebuilt, executions, claimedOnce, ?_, ?_⟩
  · intro event eventMem jobId tx bytes
    exact bytesKept (sound.begun event eventMem jobId tx bytes)
  · intro jobId tx watched
    exact bytesKept (sound.tracked jobId tx watched)
  · intro row rowMem other otherMem sameWallet occupied otherOccupied
    obtain ⟨old, oldMem, oldId, oldWallet, oldOccupied⟩ := occupies row rowMem occupied
    obtain ⟨oldOther, oldOtherMem, otherId, otherWallet, oldOtherOccupied⟩ :=
      occupies other otherMem otherOccupied
    have sameOld := sound.occupiedOnce old oldMem oldOther oldOtherMem
      ((oldWallet.trans sameWallet).trans otherWallet.symm) oldOccupied oldOtherOccupied
    refine Table.mem_rows_inj rowMem otherMem ?_
    exact oldId.symm.trans (sameOld ▸ otherId)
  · intro owner walletId execution running early holds row rowMem isWallet occupied
    obtain ⟨old, wasRunning, wasEarly⟩ := beforeFence owner walletId execution running early
    obtain ⟨oldRow, oldMem, -, oldWallet, oldOccupied⟩ := occupies row rowMem occupied
    exact sound.free owner walletId old wasRunning wasEarly holds oldRow oldMem
      (oldWallet.trans isWallet) oldOccupied

/-- Quiet transitions of some rows. -/
theorem update (sound : WorkersSound strict s) {jobs : WalletJobTable}
    {selected : WalletJob → Bool} {set : WalletJob → WalletJob}
    (rows : jobs.rows = s.jobs.rows.map fun job => if selected job then set job else job)
    (quiet : ∀ row ∈ s.jobs.rows, selected row = true → row.Quiet (set row))
    (unended : strict → ∀ owner walletId execution, s.executing owner walletId = some execution →
      execution.stage.isSending = true → ∀ row ∈ s.jobs.rows, row.ID = execution.job.ID →
        selected row = true → (set row).status = .submitting ∨ (set row).status = .submitted) :
    WorkersSound strict { s with jobs } := by
  have moved {row : WalletJob} (rowMem : row ∈ s.jobs.rows) :
      ∃ row' ∈ jobs.rows, row.Quiet row' ∧ row' = if selected row then set row else row := by
    refine ⟨_, rows ▸ List.mem_map.mpr ⟨row, rowMem, rfl⟩, ?_, rfl⟩
    split
    · exact quiet row rowMem ‹_›
    · exact .refl row
  have origin {row' : WalletJob} (rowMem : row' ∈ jobs.rows) :
      ∃ row ∈ s.jobs.rows, row.Quiet row' := by
    obtain ⟨row, oldMem, rfl⟩ := List.mem_map.mp (rows ▸ rowMem)
    refine ⟨row, oldMem, ?_⟩
    split
    · exact quiet row oldMem ‹_›
    · exact .refl row
  refine sound.change ?_ ?_ ?_ sound.claimedOnce ?_ fun owner walletId old running early =>
    ⟨old, running, early⟩
  · intro row rowMem
    obtain ⟨row', row'Mem, isQuiet, -⟩ := moved rowMem
    exact ⟨row', row'Mem, isQuiet.ID, fun tx hasTx => isQuiet.signedTx.trans hasTx⟩
  · intro row' row'Mem open_
    obtain ⟨row, rowMem, isQuiet⟩ := origin row'Mem
    refine isQuiet.signedTx.trans (sound.unsent row rowMem ?_)
    rcases isQuiet.status with same | failed | ⟨-, is⟩ | ⟨-, is⟩ | ⟨-, is⟩
    · exact same ▸ open_
    · exact absurd open_ (by simp [failed])
    all_goals exact absurd open_ (by simp [is])
  · intro owner walletId execution running
    obtain ⟨row, rowMem, isJob, isWallet, fits⟩ :=
      sound.executions owner walletId execution running
    obtain ⟨row', row'Mem, isQuiet, isRow⟩ := moved rowMem
    refine ⟨row', row'Mem, isQuiet.ID.trans isJob, isQuiet.walletId.trans isWallet,
      fits.quiet isQuiet ?_⟩
    intro isStrict sending
    rw [isRow]
    split
    · exact unended isStrict owner walletId execution running sending row rowMem isJob ‹_›
    · exact fits.sending isStrict sending
  · intro row' row'Mem occupied
    obtain ⟨row, rowMem, isQuiet⟩ := origin row'Mem
    exact ⟨row, rowMem, isQuiet.ID.symm, isQuiet.walletId.symm, isQuiet.occupies occupied⟩

/-- A new pending job. -/
theorem insert (sound : WorkersSound strict s) {jobs : WalletJobTable} {entry : WalletJob}
    (rows : jobs.rows = s.jobs.rows ++ [entry]) (pending : entry.status = .pending)
    (unsigned : entry.signedTx = none) : WorkersSound strict { s with jobs } := by
  have old {row : WalletJob} (rowMem : row ∈ s.jobs.rows) : row ∈ jobs.rows :=
    rows ▸ List.mem_append_left _ rowMem
  have isOld {row : WalletJob} (rowMem : row ∈ jobs.rows) : row ∈ s.jobs.rows ∨ row = entry :=
    (List.mem_append.mp (rows ▸ rowMem)).imp_right List.mem_singleton.mp
  refine sound.change ?_ ?_ ?_ sound.claimedOnce ?_ fun owner walletId old running early =>
    ⟨old, running, early⟩
  · exact fun row rowMem => ⟨row, old rowMem, rfl, fun _ => id⟩
  · intro row rowMem open_
    rcases isOld rowMem with wasRow | rfl
    · exact sound.unsent row wasRow open_
    · exact unsigned
  · intro owner walletId execution running
    obtain ⟨row, rowMem, rest⟩ := sound.executions owner walletId execution running
    exact ⟨row, old rowMem, rest⟩
  · intro row rowMem occupied
    rcases isOld rowMem with wasRow | rfl
    · exact ⟨row, wasRow, rfl, rfl, occupied⟩
    · rw [Occupies, pending] at occupied
      simp at occupied

theorem insertJob (sound : WorkersSound strict s) {sha256 : String → String}
    {args : InsertJobArgs} {ID : String} {jobs : WalletJobTable}
    (inserted : Odatano.insertJob sha256 s.jobs args ID = some jobs) :
    WorkersSound strict { s with jobs } := by
  rw [Odatano.insertJob] at inserted
  split at inserted
  · exact sound.insert (Table.rows_of_insertAll? inserted) rfl rfl
  · rename_i holder found
    split at inserted
    · have released : WorkersSound strict
          { s with jobs := releaseDedupClaim s.jobs holder.ID } :=
        sound.update rfl (fun _ _ _ => ⟨rfl, rfl, rfl, Or.inl rfl⟩)
          fun isStrict owner walletId execution running sending row rowMem isJob _ => by
            obtain ⟨row', row'Mem, isJob', -, fits⟩ :=
              sound.executions owner walletId execution running
            cases Table.mem_rows_inj rowMem row'Mem (isJob.trans isJob'.symm)
            exact fits.sending isStrict sending
      exact released.insert (Table.rows_of_insertAll? inserted) rfl rfl
    · cases inserted

/-- A lease that passes to nobody new. -/
theorem wallets (sound : WorkersSound strict s) {wallets : WorkerWalletTable}
    (kept : ∀ walletId holder, leaseHolder wallets walletId = some holder →
      leaseHolder s.wallets walletId = some holder) : WorkersSound strict { s with wallets } :=
  ⟨sound.unsent, sound.begun, sound.tracked, sound.neverRebuilt, sound.executions,
    sound.claimedOnce, sound.occupiedOnce, fun owner walletId execution running early holds =>
      sound.free owner walletId execution running early (kept walletId owner holds)⟩

/-- A lease that passes to an instance which does nothing for the wallet. -/
theorem takeLease (sound : WorkersSound strict s) {wallets : WorkerWalletTable}
    {owner : LeaseOwner} {walletId : WalletId} (idle : s.executing owner walletId = none)
    (taken : leaseHolder wallets walletId = some owner)
    (others : ∀ other, other ≠ walletId → leaseHolder wallets other = leaseHolder s.wallets other) :
    WorkersSound strict { s with wallets } := by
  refine ⟨sound.unsent, sound.begun, sound.tracked, sound.neverRebuilt, sound.executions,
    sound.claimedOnce, sound.occupiedOnce, ?_⟩
  intro holder wallet execution running early holds
  by_cases same : wallet = walletId
  · subst same
    cases taken.symm.trans holds
    cases idle.symm.trans running
  · exact sound.free holder wallet execution running early ((others wallet same).symm.trans holds)

end WorkersSound

/-- An execution goes on without having passed the fence or moved its job. -/
structure Execution.Follows (strict : Prop) (execution next : Execution) : Prop where
  sameJob : next.job = execution.job
  fits : ∀ row, execution.Fits strict row → next.Fits strict row
  claimed : next.claimed = true → execution.claimed = true
  storing : ∀ tx, next.stage = .storing tx → execution.stage = .storing tx
  beforeFence : next.stage.beforeFence = true → execution.stage.beforeFence = true

theorem Execution.Follows.refl (execution : Execution) : execution.Follows strict execution :=
  ⟨rfl, fun _ => id, id, fun _ => id, id⟩

namespace WorkersSound

theorem follow (sound : WorkersSound strict s)
    {executing : LeaseOwner → WalletId → Option Execution}
    (follows : ∀ owner walletId next, executing owner walletId = some next →
      ∃ execution, s.executing owner walletId = some execution ∧ execution.Follows strict next) :
    WorkersSound strict { s with executing } := by
  refine sound.change (fun row rowMem => ⟨row, rowMem, rfl, fun _ => id⟩) sound.unsent ?_ ?_ ?_ ?_
  · intro owner walletId next running
    obtain ⟨execution, wasRunning, isNext⟩ := follows owner walletId next running
    obtain ⟨row, rowMem, isJob, isWallet, fits⟩ :=
      sound.executions owner walletId execution wasRunning
    exact ⟨row, rowMem, isNext.sameJob ▸ isJob, isWallet, isNext.fits row fits⟩
  · intro owner other walletId next otherNext running otherRunning claimed otherClaimed sameJob
    obtain ⟨execution, wasRunning, isNext⟩ := follows owner walletId next running
    obtain ⟨otherExecution, otherWasRunning, otherIsNext⟩ :=
      follows other walletId otherNext otherRunning
    refine sound.claimedOnce owner other walletId execution otherExecution wasRunning
      otherWasRunning (isNext.claimed claimed) (otherIsNext.claimed otherClaimed) ?_
    rw [← isNext.sameJob, ← otherIsNext.sameJob, sameJob]
  · intro row rowMem occupied
    refine ⟨row, rowMem, rfl, rfl, occupied.imp_right fun rest => rest.imp_right fun stored => ?_⟩
    obtain ⟨building, owner, next, tx, running, isJob, storing⟩ := stored
    obtain ⟨execution, wasRunning, isNext⟩ := follows owner row.walletId next running
    exact ⟨building, owner, execution, tx, wasRunning, isNext.sameJob ▸ isJob,
      isNext.storing tx storing⟩
  · intro owner walletId next running early
    obtain ⟨execution, wasRunning, isNext⟩ := follows owner walletId next running
    exact ⟨execution, wasRunning, isNext.beforeFence early⟩

theorem put (sound : WorkersSound strict s) {owner : LeaseOwner} {walletId : WalletId}
    {execution next : Execution} (running : s.executing owner walletId = some execution)
    (follows : execution.Follows strict next) :
    WorkersSound strict (s.put owner walletId (some next)) := by
  refine sound.follow ?_
  intro o w other otherRunning
  change (if o = owner ∧ w = walletId then some next else s.executing o w) = _ at otherRunning
  split at otherRunning
  · rename_i same
    obtain ⟨rfl, rfl⟩ := same
    cases otherRunning
    exact ⟨execution, running, follows⟩
  · exact ⟨other, otherRunning, .refl other⟩

theorem leave (sound : WorkersSound strict s) (owner : LeaseOwner) (walletId : WalletId) :
    WorkersSound strict (s.put owner walletId none) := by
  refine sound.follow ?_
  intro o w other otherRunning
  change (if o = owner ∧ w = walletId then none else s.executing o w) = _ at otherRunning
  split at otherRunning
  · cases otherRunning
  · exact ⟨other, otherRunning, .refl other⟩

end WorkersSound

theorem Execution.Follows.of_stage {job : WalletJob} {reconciling lost lost' : Bool}
    {stage next : WorkerStage} (unstored : next.unstored = true → stage.unstored = true)
    (bytes : ∀ tx, next.tx? = some tx → stage.tx? = some tx)
    (claimed : Execution.claimed ⟨job, reconciling, lost', next⟩ = true →
      Execution.claimed ⟨job, reconciling, lost, stage⟩ = true)
    (sending : next.isSending = true → stage.isSending = true)
    (storing : ∀ tx, next = .storing tx → stage = .storing tx)
    (beforeFence : next.beforeFence = true → stage.beforeFence = true) :
    Execution.Follows strict ⟨job, reconciling, lost, stage⟩ ⟨job, reconciling, lost', next⟩ where
  sameJob := rfl
  fits _ fits :=
    ⟨fun isUnstored => fits.unstored (unstored isUnstored),
      fun isUnstored => fits.executes (unstored isUnstored),
      fun tx sends => fits.bytes tx (bytes tx sends),
      fun isClaimed => fits.claimed (claimed isClaimed),
      fun isStrict isSending => fits.sending isStrict (sending isSending)⟩
  claimed := claimed
  storing := storing
  beforeFence := beforeFence

theorem StageMove.follows {reconciling : Bool} {stage next : WorkerStage}
    (moves : StageMove reconciling stage next) (job : WalletJob) (lost : Bool) :
    Execution.Follows strict ⟨job, reconciling, lost, stage⟩ ⟨job, reconciling, lost, next⟩ := by
  apply Execution.Follows.of_stage
  all_goals
    cases moves <;>
      simp [WorkerStage.unstored, WorkerStage.tx?, Execution.claimed, WorkerStage.isSending,
        WorkerStage.beforeFence]

/-! ## What a put and a transition change -/

/-- What runs after a put was put or ran before. -/
theorem WorkersState.executing_put_cases {s : WorkersState} {owner o : LeaseOwner}
    {walletId w : WalletId} {execution other : Execution}
    (running : (s.put owner walletId (some execution)).executing o w = some other) :
    (o = owner ∧ w = walletId ∧ other = execution) ∨
      (s.executing o w = some other ∧ (o = owner → w ≠ walletId)) := by
  simp only [WorkersState.put] at running
  split at running
  · rename_i same
    exact Or.inl ⟨same.1, same.2, (Option.some.inj running).symm⟩
  · rename_i different
    exact Or.inr ⟨running, fun sameOwner sameWallet => different ⟨sameOwner, sameWallet⟩⟩

/-- Only an execution that stores occupies by itself. -/
theorem Occupies.of_put {s : WorkersState} {owner : LeaseOwner} {walletId : WalletId}
    {execution : Execution} {row : WalletJob} (notStoring : ∀ tx, execution.stage ≠ .storing tx)
    (occupied : Occupies (s.put owner walletId (some execution)).executing row) :
    Occupies s.executing row := by
  refine occupied.imp_right fun rest => rest.imp_right fun stored => ?_
  obtain ⟨building, o, storer, tx, running, isRow, storing⟩ := stored
  rcases WorkersState.executing_put_cases running with ⟨-, -, rfl⟩ | ⟨wasRunning, -⟩
  · exact absurd storing (notStoring tx)
  · exact ⟨building, o, storer, tx, wasRunning, isRow, storing⟩

section Transitions

variable {jobs : WalletJobTable} {jobId : String} {source : WalletJobStatus}
  {set : WalletJob → WalletJob} (keepsId : ∀ job, (set job).ID = job.ID)

theorem mem_guardedTransition_of_mem {row : WalletJob} (rowMem : row ∈ jobs.rows) :
    (if row.ID = jobId ∧ row.status = source then set row else row) ∈
      (guardedTransition jobs jobId [source] set keepsId).rows := by
  refine List.mem_map.mpr ⟨row, rowMem, ?_⟩
  simp only [List.mem_singleton, decide_eq_true_eq]

theorem exists_of_mem_guardedTransition {row' : WalletJob}
    (row'Mem : row' ∈ (guardedTransition jobs jobId [source] set keepsId).rows) :
    ∃ row ∈ jobs.rows, row' = row ∨
      (row.ID = jobId ∧ row.status = source ∧ row' = set row) := by
  obtain ⟨row, rowMem, rfl⟩ := List.mem_map.mp row'Mem
  refine ⟨row, rowMem, ?_⟩
  split
  · rename_i isSelected
    simp only [List.mem_singleton, decide_eq_true_eq] at isSelected
    exact Or.inr ⟨isSelected.1, isSelected.2, rfl⟩
  · exact Or.inl rfl

end Transitions

namespace WorkersSound

/-- An execution begins under the lease. -/
theorem enter (sound : WorkersSound strict s) {owner : LeaseOwner} {walletId : WalletId}
    {execution : Execution} {row : WalletJob} (rowMem : row ∈ s.jobs.rows)
    (isJob : row.ID = execution.job.ID) (isWallet : row.walletId = walletId)
    (fits : execution.Fits strict row) (unclaimed : execution.claimed = false)
    (notStoring : ∀ tx, execution.stage ≠ .storing tx)
    (unoccupied : execution.stage.beforeFence = true →
      ∀ row ∈ s.jobs.rows, row.walletId = walletId → ¬ Occupies s.executing row) :
    WorkersSound strict (s.put owner walletId (some execution)) := by
  refine ⟨sound.unsent, sound.begun, sound.tracked, sound.neverRebuilt, ?_, ?_, ?_, ?_⟩
  · intro o w other running
    rcases WorkersState.executing_put_cases running with ⟨-, rfl, rfl⟩ | ⟨wasRunning, -⟩
    · exact ⟨row, rowMem, isJob, isWallet, fits⟩
    · exact sound.executions o w other wasRunning
  · intro o o' w first second running otherRunning claimed otherClaimed
    rcases WorkersState.executing_put_cases running with ⟨-, -, rfl⟩ | ⟨wasRunning, -⟩
    · cases unclaimed.symm.trans claimed
    · rcases WorkersState.executing_put_cases otherRunning with
        ⟨-, -, rfl⟩ | ⟨otherWasRunning, -⟩
      · cases unclaimed.symm.trans otherClaimed
      · exact sound.claimedOnce o o' w first second wasRunning otherWasRunning claimed otherClaimed
  · intro first firstMem second secondMem sameWallet occupied otherOccupied
    exact sound.occupiedOnce first firstMem second secondMem sameWallet
      (occupied.of_put notStoring) (otherOccupied.of_put notStoring)
  · intro o w other running early holds first firstMem inWallet occupied
    rcases WorkersState.executing_put_cases running with ⟨-, rfl, rfl⟩ | ⟨wasRunning, -⟩
    · exact unoccupied early first firstMem inWallet (occupied.of_put notStoring)
    · exact sound.free o w other wasRunning early holds first firstMem inWallet (occupied.of_put notStoring)

/-- The last fence: only the holder of the lease passes it. -/
theorem passFence (sound : WorkersSound strict s) {owner : LeaseOwner} {walletId : WalletId}
    {job : WalletJob} {lost : Bool} {tx : SignedTx}
    (running : s.executing owner walletId = some ⟨job, false, lost, .fenceSubmit tx⟩)
    (holds : leaseHolder s.wallets walletId = some owner) :
    WorkersSound strict (s.put owner walletId (some ⟨job, false, lost, .storing tx⟩)) := by
  obtain ⟨row, rowMem, isJob, isWallet, fits⟩ := sound.executions owner walletId _ running
  have unoccupied := sound.free owner walletId _ running rfl holds
  have occupies {other : WalletJob} (otherMem : other ∈ s.jobs.rows)
      (occupied : Occupies
        (s.put owner walletId (some ⟨job, false, lost, .storing tx⟩)).executing other) :
      other = row ∨ Occupies s.executing other := by
    rcases occupied with
      submitting | submitted | ⟨building, o, storer, stored, isRunning, isOther, storing⟩
    · exact Or.inr (Or.inl submitting)
    · exact Or.inr (Or.inr (Or.inl submitted))
    · rcases WorkersState.executing_put_cases isRunning with ⟨-, -, rfl⟩ | ⟨wasRunning, -⟩
      · exact Or.inl (Table.mem_rows_inj otherMem rowMem (isOther.symm.trans isJob.symm))
      · exact Or.inr (Or.inr (Or.inr ⟨building, o, storer, stored, wasRunning, isOther, storing⟩))
  refine ⟨sound.unsent, sound.begun, sound.tracked, sound.neverRebuilt, ?_, ?_, ?_, ?_⟩
  · intro o w other isRunning
    rcases WorkersState.executing_put_cases isRunning with ⟨rfl, rfl, rfl⟩ | ⟨wasRunning, -⟩
    · exact ⟨row, rowMem, isJob, isWallet,
        ⟨fun _ => fits.unstored rfl, fun _ => rfl, fun _ sends => (nomatch sends),
          fun _ => fits.claimed rfl, fun _ sending => (nomatch sending)⟩⟩
    · exact sound.executions o w other wasRunning
  · intro o o' w first second isRunning otherRunning claimed otherClaimed sameJob
    rcases WorkersState.executing_put_cases isRunning with ⟨rfl, rfl, rfl⟩ | ⟨wasRunning, -⟩
    · rcases WorkersState.executing_put_cases otherRunning with ⟨rfl, -, -⟩ | ⟨otherWasRunning, -⟩
      · rfl
      · exact sound.claimedOnce o o' w _ second running otherWasRunning rfl otherClaimed sameJob
    · rcases WorkersState.executing_put_cases otherRunning with
        ⟨rfl, rfl, rfl⟩ | ⟨otherWasRunning, -⟩
      · exact sound.claimedOnce o o' w first _ wasRunning running claimed rfl sameJob
      · exact sound.claimedOnce o o' w first second wasRunning otherWasRunning claimed
          otherClaimed sameJob
  · intro first firstMem second secondMem sameWallet occupied otherOccupied
    rcases occupies firstMem occupied with rfl | wasOccupied
    · rcases occupies secondMem otherOccupied with rfl | otherWasOccupied
      · rfl
      · exact absurd otherWasOccupied
          (unoccupied second secondMem (sameWallet.symm.trans isWallet))
    · rcases occupies secondMem otherOccupied with rfl | otherWasOccupied
      · exact absurd wasOccupied (unoccupied first firstMem (sameWallet.trans isWallet))
      · exact sound.occupiedOnce first firstMem second secondMem sameWallet wasOccupied
          otherWasOccupied
  · intro o w other isRunning early otherHolds first firstMem inWallet occupied
    rcases WorkersState.executing_put_cases isRunning with ⟨-, -, rfl⟩ | ⟨wasRunning, -⟩
    · cases early
    · rcases occupies firstMem occupied with rfl | wasOccupied
      · cases inWallet.symm.trans isWallet
        cases holds.symm.trans otherHolds
        simp only [WorkersState.put, and_self, if_true] at isRunning
        cases isRunning
        cases early
      · exact sound.free o w other wasRunning early otherHolds first firstMem inWallet wasOccupied

theorem built (sound : WorkersSound strict s) {jobId : String}
    (unbegun : ∀ row ∈ s.jobs.rows, row.ID = jobId → row.signedTx = none) :
    WorkersSound strict { s with events := .built jobId :: s.events } := by
  refine ⟨sound.unsent, ?_, sound.tracked, ?_, sound.executions, sound.claimedOnce,
    sound.occupiedOnce, sound.free⟩
  · intro event eventMem id tx bytes
    rcases List.mem_cons.mp eventMem with rfl | old
    · cases bytes
    · exact sound.begun event old id tx bytes
  · refine List.pairwise_cons.mpr ⟨?_, sound.neverRebuilt⟩
    intro event eventMem id tx isBuild bytes
    cases isBuild
    obtain ⟨row, rowMem, isJob, stored⟩ := sound.begun event eventMem jobId tx bytes
    cases (unbegun row rowMem isJob).symm.trans stored

theorem sent (sound : WorkersSound strict s) {event : WorkerEvent} {jobId : String} {tx : SignedTx}
    (bytes : event.bytes = some (jobId, tx))
    (stored : ∃ row ∈ s.jobs.rows, row.ID = jobId ∧ row.signedTx = some tx) :
    WorkersSound strict { s with events := event :: s.events } := by
  refine ⟨sound.unsent, ?_, sound.tracked, ?_, sound.executions, sound.claimedOnce,
    sound.occupiedOnce, sound.free⟩
  · intro other otherMem id otherTx otherBytes
    rcases List.mem_cons.mp otherMem with rfl | old
    · cases bytes.symm.trans otherBytes
      exact stored
    · exact sound.begun other old id otherTx otherBytes
  · refine List.pairwise_cons.mpr ⟨?_, sound.neverRebuilt⟩
    rintro other - id otherTx rfl
    cases bytes

theorem watched (sound : WorkersSound strict s) {jobId : String} {tx : SignedTx}
    (stored : ∃ row ∈ s.jobs.rows, row.ID = jobId ∧ row.signedTx = some tx) :
    WorkersSound strict { s with tracked := (jobId, tx) :: s.tracked } := by
  refine ⟨sound.unsent, sound.begun, ?_, sound.neverRebuilt, sound.executions, sound.claimedOnce,
    sound.occupiedOnce, sound.free⟩
  intro id otherTx isTracked
  rcases List.mem_cons.mp isTracked with same | old
  · cases same
    exact stored
  · exact sound.tracked id otherTx old

/-- A transition of the job of an execution, which goes on with it. -/
theorem transition (sound : WorkersSound strict s) {owner : LeaseOwner} {walletId : WalletId}
    {execution next : Execution} {source : WalletJobStatus} {set : WalletJob → WalletJob}
    {keepsId : ∀ job, (set job).ID = job.ID}
    (running : s.executing owner walletId = some execution) (sameJob : next.job = execution.job)
    (sameWallet : ∀ job, (set job).walletId = job.walletId)
    (bytes : ∀ row ∈ s.jobs.rows, row.status = source →
      ∀ tx, row.signedTx = some tx → (set row).signedTx = some tx)
    (unsent : ∀ row ∈ s.jobs.rows, row.status = source →
      (set row).status = .pending ∨ (set row).status = .building → (set row).signedTx = none)
    (fits : ∀ row ∈ s.jobs.rows, row.ID = execution.job.ID → execution.Fits strict row →
      (row.status = source → next.Fits strict (set row)) ∧
        (row.status ≠ source → next.Fits strict row))
    (others : ∀ other otherExecution row, s.executing other walletId = some otherExecution →
      other ≠ owner → otherExecution.job.ID = execution.job.ID → row ∈ s.jobs.rows →
        row.status = source → otherExecution.Fits strict row →
          otherExecution.Fits strict (set row) ∧
            (next.claimed = true → otherExecution.claimed = false))
    (notStoring : ∀ tx, next.stage ≠ .storing tx)
    (beforeFence : next.stage.beforeFence = true → execution.stage.beforeFence = true)
    (claims : next.claimed = true → execution.claimed = true ∨
      ∃ row ∈ s.jobs.rows, row.ID = execution.job.ID ∧ row.status = source)
    (occupies : ∀ row ∈ s.jobs.rows, row.status = source → row.ID = execution.job.ID →
      Occupies s.executing (set row) → Occupies s.executing row) :
    WorkersSound strict
      (WorkersState.put
        { s with jobs := guardedTransition s.jobs execution.job.ID [source] set keepsId }
        owner walletId (some next)) := by
  obtain ⟨jobRow, jobRowMem, isJob, isWallet, jobFits⟩ :=
    sound.executions owner walletId execution running
  refine sound.change ?_ ?_ ?_ ?_ ?_ ?_
  · intro row rowMem
    refine ⟨_, mem_guardedTransition_of_mem keepsId rowMem, ?_⟩
    split
    · rename_i isSelected
      exact ⟨keepsId row, bytes row rowMem isSelected.2⟩
    · exact ⟨rfl, fun _ => id⟩
  · intro row' row'Mem open_
    obtain ⟨row, rowMem, rfl | ⟨-, isSource, rfl⟩⟩ := exists_of_mem_guardedTransition keepsId row'Mem
    · exact sound.unsent row' rowMem open_
    · exact unsent row rowMem isSource open_
  · intro o w other isRunning
    rcases WorkersState.executing_put_cases isRunning with ⟨rfl, rfl, rfl⟩ | ⟨wasRunning, notMover⟩
    · refine ⟨_, mem_guardedTransition_of_mem keepsId jobRowMem, ?_⟩
      rw [sameJob]
      split
      · rename_i isSelected
        exact ⟨(keepsId jobRow).trans isJob, (sameWallet jobRow).trans isWallet,
          (fits jobRow jobRowMem isJob jobFits).1 isSelected.2⟩
      · rename_i unselected
        exact ⟨isJob, isWallet,
          (fits jobRow jobRowMem isJob jobFits).2 fun isSource => unselected ⟨isJob, isSource⟩⟩
    · obtain ⟨row, rowMem, isOther, inWallet, otherFits⟩ := sound.executions o w other wasRunning
      refine ⟨_, mem_guardedTransition_of_mem keepsId rowMem, ?_⟩
      split
      · rename_i isSelected
        have sameRow := Table.mem_rows_inj rowMem jobRowMem (isSelected.1.trans isJob.symm)
        have inSame : w = walletId := inWallet.symm.trans (sameRow ▸ isWallet)
        exact ⟨(keepsId row).trans isOther, (sameWallet row).trans inWallet,
          (others o other row (inSame ▸ wasRunning) (fun sameOwner => notMover sameOwner inSame)
            (isOther.symm.trans isSelected.1) rowMem isSelected.2 otherFits).1⟩
      · exact ⟨isOther, inWallet, otherFits⟩
  · have apart {o : LeaseOwner} {other : Execution}
        (wasRunning : s.executing o walletId = some other) (different : o ≠ owner)
        (claimed : next.claimed = true) (otherClaimed : other.claimed = true)
        (sameId : other.job.ID = execution.job.ID) : False := by
      rcases claims claimed with wasClaimed | ⟨row, rowMem, isRow, isSource⟩
      · exact different (sound.claimedOnce o owner walletId other execution wasRunning running
          otherClaimed wasClaimed sameId)
      · obtain ⟨otherRow, otherRowMem, isOther, -, otherFits⟩ :=
          sound.executions o walletId other wasRunning
        cases Table.mem_rows_inj rowMem otherRowMem (isRow.trans (sameId.symm.trans isOther.symm))
        exact absurd otherClaimed (by
          rw [(others o other row wasRunning different sameId rowMem isSource otherFits).2 claimed]
          exact Bool.false_ne_true)
    intro o o' w first second isRunning otherRunning claimed otherClaimed sameId
    rcases WorkersState.executing_put_cases isRunning with ⟨rfl, rfl, rfl⟩ | ⟨wasRunning, notMover⟩
    · rcases WorkersState.executing_put_cases otherRunning with
        ⟨rfl, -, -⟩ | ⟨otherWasRunning, otherNotMover⟩
      · rfl
      · exact (apart otherWasRunning (fun sameOwner => otherNotMover sameOwner rfl) claimed
          otherClaimed (sameId.symm.trans (congrArg _ sameJob))).elim
    · rcases WorkersState.executing_put_cases otherRunning with
        ⟨rfl, rfl, rfl⟩ | ⟨otherWasRunning, otherNotMover⟩
      · exact (apart wasRunning (fun sameOwner => notMover sameOwner rfl) otherClaimed claimed
          (sameId.trans (congrArg _ sameJob))).elim
      · exact sound.claimedOnce o o' w first second wasRunning otherWasRunning claimed
          otherClaimed sameId
  · intro row' row'Mem occupied
    obtain ⟨row, rowMem, rfl | ⟨isRow, isSource, rfl⟩⟩ := exists_of_mem_guardedTransition keepsId row'Mem
    · exact ⟨row', rowMem, rfl, rfl, occupied.of_put notStoring⟩
    · exact ⟨row, rowMem, (keepsId row).symm, (sameWallet row).symm,
        occupies row rowMem isSource isRow (occupied.of_put notStoring)⟩
  · intro o w other isRunning early
    rcases WorkersState.executing_put_cases isRunning with ⟨rfl, rfl, rfl⟩ | ⟨wasRunning, -⟩
    · exact ⟨execution, running, beforeFence early⟩
    · exact ⟨other, wasRunning, early⟩

/-- Stages that only an execution of its own job is in. -/
theorem claimed_of_unstored {execution : Execution} {row : WalletJob}
    (fits : execution.Fits strict row) (unstored : execution.stage.unstored = true) :
    execution.claimed = true := by
  have executes := fits.executes unstored
  obtain ⟨job, reconciling, lost, stage⟩ := execution
  cases executes
  cases stage <;> first | rfl | cases unstored

theorem claim (sound : WorkersSound strict s) {owner : LeaseOwner} {walletId : WalletId}
    {job row : WalletJob} {lost : Bool} (requestTx : WalletJob → Option SignedTx)
    (running : s.executing owner walletId = some ⟨job, false, lost, .claiming⟩)
    (rowMem : row ∈ s.jobs.rows) (isJob : row.ID = job.ID) (pending : row.status = .pending)
    (attempt : Nat) :
    WorkersSound strict
      (WorkersState.put { s with jobs := markBuilding s.jobs job.ID attempt }
        owner walletId (some ⟨job, false, lost, claimedStage requestTx job⟩)) := by
  have notStarted : (claimedStage requestTx job).isSending = false ∧
      (claimedStage requestTx job).tx? = none ∧
      ∀ tx, claimedStage requestTx job ≠ .storing tx := by
    rw [claimedStage]
    split
    · split
      · exact ⟨rfl, rfl, nofun⟩
      · exact ⟨rfl, rfl, nofun⟩
    · exact ⟨rfl, rfl, nofun⟩
  obtain ⟨notSending, noBytes, notStoring⟩ := notStarted
  refine sound.transition running rfl (fun _ => rfl) ?_ ?_ ?_ ?_ notStoring (fun _ => rfl)
    (fun _ => Or.inr ⟨row, rowMem, isJob, pending⟩) ?_
  · exact fun _ _ _ _ => id
  · intro other otherMem otherPending _
    exact sound.unsent other otherMem (Or.inl otherPending)
  · intro other otherMem isOther fits
    refine ⟨fun otherPending => ?_, fun notPending => ?_⟩
    · have unsigned := sound.unsent other otherMem (Or.inl otherPending)
      refine ⟨fun _ => ⟨unsigned, Or.inl rfl⟩, fun _ => rfl, ?_, fun _ => nofun, ?_⟩
      · intro tx sends
        cases noBytes.symm.trans sends
      · intro _ sending
        cases notSending.symm.trans sending
    · cases Table.mem_rows_inj otherMem rowMem (isOther.trans isJob.symm)
      exact absurd pending notPending
  · intro o other otherRow otherRunning different sameJob otherMem otherPending fits
    have unclaimed : other.claimed = false := by
      by_contra claimed
      exact fits.claimed (eq_true_of_ne_false claimed) otherPending
    refine ⟨⟨?_, fits.executes, fits.bytes, fun _ => nofun, ?_⟩, fun _ => unclaimed⟩
    · intro unstored
      cases unclaimed.symm.trans (claimed_of_unstored fits unstored)
    · intro isStrict sending
      have live := fits.sending isStrict sending
      simp [otherPending] at live
  · intro other otherMem otherPending isOther occupied
    rcases occupied with submitting | submitted | ⟨-, stored⟩
    · cases submitting
    · cases submitted
    · obtain ⟨o, storer, tx, isRunning, sameJob, storing⟩ := stored
      obtain ⟨storerRow, storerMem, isStorer, -, fits⟩ := sound.executions o _ storer isRunning
      cases Table.mem_rows_inj otherMem storerMem (sameJob.symm.trans isStorer.symm)
      have live := (fits.unstored (by rw [storing]; rfl)).2
      simp [otherPending] at live

theorem requeue (sound : WorkersSound strict s) {owner : LeaseOwner} {walletId : WalletId}
    {job : WalletJob} {lost : Bool}
    (running : s.executing owner walletId = some ⟨job, false, lost, .notSubmitted⟩) :
    WorkersSound strict
      (WorkersState.put { s with jobs := requeueForRetry s.jobs job.ID }
        owner walletId (some ⟨job, false, lost, .releasing⟩)) := by
  refine sound.transition running rfl (fun _ => rfl) ?_ ?_ ?_ ?_ (fun _ => nofun) nofun nofun ?_
  · exact fun _ _ _ _ => id
  · intro row rowMem building _
    exact sound.unsent row rowMem (Or.inr building)
  · exact fun row _ _ _ => ⟨fun _ => ⟨nofun, nofun, nofun, nofun, nofun⟩,
      fun _ => ⟨nofun, nofun, nofun, nofun, nofun⟩⟩
  · intro o other row otherRunning different sameJob rowMem building fits
    -- the job's own execution is the one that requeues it
    have unclaimed : ¬ other.claimed = true := fun claimed =>
      different (sound.claimedOnce o owner walletId other _ otherRunning running claimed rfl sameJob)
    refine ⟨⟨?_, fits.executes, fits.bytes, ?_, ?_⟩, nofun⟩
    · intro unstored
      exact absurd (claimed_of_unstored fits unstored) unclaimed
    · exact fun claimed => absurd claimed unclaimed
    · intro isStrict sending
      have live := fits.sending isStrict sending
      simp [building] at live
  · rintro row rowMem - - (submitting | submitted | ⟨building, -⟩)
    · cases submitting
    · cases submitted
    · cases building

theorem store (sound : WorkersSound strict s) {owner : LeaseOwner} {walletId : WalletId}
    {job row : WalletJob} {lost : Bool} {tx : SignedTx}
    (running : s.executing owner walletId = some ⟨job, false, lost, .storing tx⟩)
    (rowMem : row ∈ s.jobs.rows) (isJob : row.ID = job.ID) (building : row.status = .building)
    (now : Time) :
    WorkersSound strict
      (WorkersState.put
        { s with
          jobs := markSubmitting s.jobs job.ID tx now
          events := .stored job.ID tx :: s.events }
        owner walletId (some ⟨job, false, lost, .sending tx⟩)) := by
  have stored : WorkersSound strict
      (WorkersState.put { s with jobs := markSubmitting s.jobs job.ID tx now }
        owner walletId (some ⟨job, false, lost, .sending tx⟩)) := by
    refine sound.transition running rfl (fun _ => rfl) ?_ ?_ ?_ ?_ (fun _ => nofun) nofun
      (fun _ => Or.inl rfl) ?_
    · intro other otherMem otherBuilding otherTx hasTx
      cases (sound.unsent other otherMem (Or.inr otherBuilding)).symm.trans hasTx
    · exact fun _ _ _ open_ => open_.elim nofun nofun
    · intro other otherMem isOther fits
      refine ⟨fun _ => ⟨nofun, nofun, ?_, fun _ => nofun, fun _ _ => Or.inl rfl⟩,
        fun notBuilding => ?_⟩
      · intro otherTx sends
        cases sends
        rfl
      · cases Table.mem_rows_inj otherMem rowMem (isOther.trans isJob.symm)
        exact absurd building notBuilding
    · intro o other otherRow otherRunning different sameJob otherMem otherBuilding fits
      have unclaimed : ¬ other.claimed = true := fun claimed =>
        different
          (sound.claimedOnce o owner walletId other _ otherRunning running claimed rfl sameJob)
      refine ⟨⟨?_, fits.executes, ?_, fun _ => nofun, fun _ _ => Or.inl rfl⟩,
        fun _ => eq_false_of_ne_true unclaimed⟩
      · intro unstored
        exact absurd (claimed_of_unstored fits unstored) unclaimed
      · intro otherTx sends
        cases (sound.unsent otherRow otherMem (Or.inr otherBuilding)).symm.trans
          (fits.bytes otherTx sends)
    · intro other otherMem otherBuilding isOther _
      obtain ⟨storingRow, storingMem, isStoring, isWallet, -⟩ :=
        sound.executions owner walletId _ running
      cases Table.mem_rows_inj otherMem storingMem (isOther.trans isStoring.symm)
      exact Or.inr (Or.inr ⟨otherBuilding, owner, _, tx, isWallet.symm ▸ running, isStoring.symm,
        rfl⟩)
  refine stored.sent rfl ⟨_, List.mem_map.mpr ⟨row, rowMem, rfl⟩, ?_⟩
  have isSelected : decide (row.ID = job.ID ∧ row.status ∈ [WalletJobStatus.building]) = true :=
    decide_eq_true ⟨isJob, List.mem_singleton.mpr building⟩
  rw [if_pos isSelected]
  exact ⟨isJob, rfl⟩

theorem sending_row (sound : WorkersSound strict s) (isStrict : strict) {owner : LeaseOwner}
    {walletId : WalletId} {execution : Execution} {row : WalletJob}
    (running : s.executing owner walletId = some execution)
    (sending : execution.stage.isSending = true) (rowMem : row ∈ s.jobs.rows)
    (isJob : row.ID = execution.job.ID) :
    row.status = .submitting ∨ row.status = .submitted := by
  obtain ⟨jobRow, jobRowMem, isJob', -, fits⟩ := sound.executions owner walletId execution running
  cases Table.mem_rows_inj rowMem jobRowMem (isJob.trans isJob'.symm)
  exact fits.sending isStrict sending

theorem sweep (sound : WorkersSound strict s) (walletId : WalletId) (now : Time) :
    WorkersSound strict { s with jobs := failOrphanedBuildingJobs s.jobs s.wallets walletId now } := by
  rw [failOrphanedBuildingJobs]
  split
  · exact sound
  · refine sound.update rfl (fun _ _ _ => ⟨rfl, rfl, rfl, Or.inr (Or.inl rfl)⟩) ?_
    intro isStrict owner wallet execution running sending row rowMem isJob isSelected
    have live := sound.sending_row isStrict running sending rowMem isJob
    simp [(of_decide_eq_true isSelected).2] at live

/-- A job that is not being sent may end. -/
theorem fail (sound : WorkersSound strict s) {jobId : String} (code : String)
    (notSent : strict → ¬ s.BeingSent jobId) :
    WorkersSound strict { s with jobs := markFailed s.jobs jobId code } := by
  refine sound.update rfl (fun _ _ _ => ⟨rfl, rfl, rfl, Or.inr (Or.inl rfl)⟩) ?_
  intro isStrict owner wallet execution running sending row rowMem isJob isSelected
  exact absurd ⟨owner, wallet, execution, running,
    isJob.symm.trans (of_decide_eq_true isSelected).1, sending⟩ (notSent isStrict)

theorem confirm (sound : WorkersSound strict s) {jobId : String}
    (notSent : strict → ¬ s.BeingSent jobId) :
    WorkersSound strict { s with jobs := markConfirmed s.jobs jobId } := by
  refine sound.update rfl ?_ ?_
  · intro row rowMem isSelected
    have submitted := List.mem_singleton.mp (of_decide_eq_true isSelected).2
    exact ⟨rfl, rfl, rfl, Or.inr (Or.inr (Or.inr (Or.inl ⟨submitted, rfl⟩)))⟩
  · intro isStrict owner wallet execution running sending row rowMem isJob isSelected
    exact absurd ⟨owner, wallet, execution, running,
      isJob.symm.trans (of_decide_eq_true isSelected).1, sending⟩ (notSent isStrict)

theorem cancel (sound : WorkersSound strict s) (jobId : String) :
    WorkersSound strict { s with jobs := markCancelled s.jobs jobId } := by
  refine sound.update rfl ?_ ?_
  · intro row rowMem isSelected
    have pending := List.mem_singleton.mp (of_decide_eq_true isSelected).2
    exact ⟨rfl, rfl, rfl, Or.inr (Or.inr (Or.inr (Or.inr ⟨pending, rfl⟩)))⟩
  · intro isStrict owner wallet execution running sending row rowMem isJob isSelected
    have live := sound.sending_row isStrict running sending rowMem isJob
    simp [List.mem_singleton.mp (of_decide_eq_true isSelected).2] at live

theorem submitted (sound : WorkersSound strict s) (jobId : String) :
    WorkersSound strict { s with jobs := markSubmitted s.jobs jobId } := by
  refine sound.update rfl ?_ fun _ _ _ _ _ _ _ _ _ _ => Or.inr rfl
  intro row rowMem isSelected
  have submitting := List.mem_singleton.mp (of_decide_eq_true isSelected).2
  exact ⟨rfl, rfl, rfl, Or.inr (Or.inr (Or.inl ⟨submitting, rfl⟩))⟩

/-- The bytes an execution sends are those of its job. -/
theorem bytes_stored (sound : WorkersSound strict s) {owner : LeaseOwner} {walletId : WalletId}
    {execution : Execution} {tx : SignedTx} (running : s.executing owner walletId = some execution)
    (sends : execution.stage.tx? = some tx) :
    ∃ row ∈ s.jobs.rows, row.ID = execution.job.ID ∧ row.signedTx = some tx := by
  obtain ⟨row, rowMem, isJob, -, fits⟩ := sound.executions owner walletId execution running
  exact ⟨row, rowMem, isJob, fits.bytes tx sends⟩

end WorkersSound

theorem dispatchTx_jobs (jobs : WalletJobTable) (wallets : WorkerWalletTable) (walletId : WalletId)
    (owner : LeaseOwner) (swept now : Time) :
    (dispatchTx jobs wallets walletId owner swept now).1 =
      failOrphanedBuildingJobs jobs wallets walletId swept := by
  simp only [dispatchTx]
  split <;> rfl

/-- A job is dispatched only when no job of the wallet is in flight. -/
theorem dispatchTx_taken {jobs : WalletJobTable} {wallets : WorkerWalletTable}
    {walletId : WalletId} {owner : LeaseOwner} {swept now : Time}
    (taken : (dispatchTx jobs wallets walletId owner swept now).2.2 = true) :
    walletHasActiveJob (failOrphanedBuildingJobs jobs wallets walletId swept) walletId = false ∧
      (dispatchTx jobs wallets walletId owner swept now).2 =
        tryAcquireWalletLease wallets walletId owner now := by
  simp only [dispatchTx] at taken ⊢
  split
  · rename_i active
    rw [if_pos active] at taken
    cases taken
  · rename_i idle
    exact ⟨eq_false_of_ne_true idle, rfl⟩

theorem not_occupies_of_idle {jobs : WalletJobTable} {walletId : WalletId}
    {executing : LeaseOwner → WalletId → Option Execution}
    (idle : walletHasActiveJob jobs walletId = false) {row : WalletJob} (rowMem : row ∈ jobs.rows)
    (inWallet : row.walletId = walletId) : ¬ Occupies executing row := by
  intro occupied
  have inactive := List.any_eq_false.mp idle row rowMem
  simp only [inWallet, decide_true, Bool.true_and] at inactive
  rcases occupied with submitting | submitted | ⟨building, -⟩
  · exact inactive (by rw [submitting]; rfl)
  · exact inactive (by rw [submitted]; rfl)
  · exact inactive (by rw [building]; rfl)

theorem reconcileTx_taken {jobs : WalletJobTable} {wallets : WorkerWalletTable}
    {walletId : WalletId} {owner : LeaseOwner} {looked now : Time} {job : WalletJob}
    (taken : (reconcileTx jobs wallets walletId owner looked now).2 = some job) :
    job ∈ jobs.rows ∧ job.walletId = walletId ∧ job.status = .submitting ∧
      (tryAcquireWalletLease wallets walletId owner now).2 = true ∧
      (reconcileTx jobs wallets walletId owner looked now).1 =
        (tryAcquireWalletLease wallets walletId owner now).1 := by
  rw [reconcileTx] at taken ⊢
  split at taken
  · cases taken
  · rename_i stuck found
    dsimp only at taken ⊢
    split at taken
    · rename_i acquired
      cases taken
      rw [findOrphanedSubmittingJob] at found
      split at found
      · cases found
      · have isStuck := List.find?_some found
        simp only [decide_eq_true_eq] at isStuck
        exact ⟨List.mem_of_find?_eq_some found, isStuck.1, isStuck.2, acquired, rfl⟩
    · cases taken

theorem WorkersState.put_put (s : WorkersState) (owner : LeaseOwner) (walletId : WalletId)
    (first second : Option Execution) :
    (s.put owner walletId first).put owner walletId second = s.put owner walletId second := by
  simp only [WorkersState.put]
  congr 1
  funext o w
  split <;> rfl

theorem WorkersState.put_executing (s : WorkersState) (owner : LeaseOwner) (walletId : WalletId)
    (execution : Option Execution) :
    (s.put owner walletId execution).executing owner walletId = execution :=
  if_pos ⟨rfl, rfl⟩

theorem WorkersState.put_executing_other (s : WorkersState) {owner other : LeaseOwner}
    (different : other ≠ owner) (walletId inWallet : WalletId) (execution : Option Execution) :
    (s.put owner walletId execution).executing other inWallet = s.executing other inWallet :=
  if_neg fun same => different same.1

section Runs

variable {sha256 : String → String} {requestTx : WalletJob → Option SignedTx}
  {allowed : WorkersState → String → Prop} {s' : WorkersState}

theorem WorkersSound.dispatch (sound : WorkersSound strict s) {owner : LeaseOwner}
    {walletId : WalletId} {swept now : Time} (idle : s.executing owner walletId = none)
    (taken : (dispatchTx s.jobs s.wallets walletId owner swept now).2.2 = true) :
    WorkersSound strict
      { s with
        jobs := (dispatchTx s.jobs s.wallets walletId owner swept now).1
        wallets := (dispatchTx s.jobs s.wallets walletId owner swept now).2.1 } := by
  obtain ⟨-, isAcquire⟩ := dispatchTx_taken taken
  rw [isAcquire] at taken
  rw [dispatchTx_jobs, isAcquire]
  exact (sound.sweep walletId swept).takeLease idle (leaseHolder_of_acquired taken)
    fun _ different => leaseHolder_acquire_other now different

theorem exists_swept {jobs : WalletJobTable} {row : WalletJob} (rowMem : row ∈ jobs.rows)
    (wallets : WorkerWalletTable) (walletId : WalletId) (now : Time) :
    ∃ row' ∈ (failOrphanedBuildingJobs jobs wallets walletId now).rows,
      row'.ID = row.ID ∧ row'.walletId = row.walletId := by
  rw [failOrphanedBuildingJobs]
  split
  · exact ⟨row, rowMem, rfl, rfl⟩
  · refine ⟨_, List.mem_map.mpr ⟨row, rowMem, rfl⟩, ?_⟩
    split <;> exact ⟨rfl, rfl⟩

theorem WorkersSound.reconcile (sound : WorkersSound strict s) {owner : LeaseOwner}
    {walletId : WalletId} {job : WalletJob} {looked now : Time}
    (idle : s.executing owner walletId = none)
    (taken : (reconcileTx s.jobs s.wallets walletId owner looked now).2 = some job) :
    WorkersSound strict
      { s with wallets := (reconcileTx s.jobs s.wallets walletId owner looked now).1 } := by
  obtain ⟨-, -, -, acquired, isAcquire⟩ := reconcileTx_taken taken
  rw [isAcquire]
  exact sound.takeLease idle (leaseHolder_of_acquired acquired)
    fun _ different => leaseHolder_acquire_other now different

/-- A reconciliation that starts has what it sends from the row. -/
theorem reconcileStage_fits {job : WalletJob} (submitting : job.status = .submitting) :
    Execution.Fits strict ⟨job, true, false, reconcileStage job⟩ job := by
  rw [reconcileStage]
  split
  · exact ⟨nofun, nofun, nofun, nofun, nofun⟩
  · rename_i tx stored
    exact ⟨nofun, nofun, fun other sends => sends ▸ stored, nofun, fun _ _ => Or.inl submitting⟩

theorem WorkerStep.sound (step : WorkerStep sha256 requestTx allowed s s')
    (notSent : strict → ∀ s jobId, allowed s jobId → ¬ s.BeingSent jobId)
    (sound : WorkersSound strict s) : WorkersSound strict s' := by
  have fenced {owner : LeaseOwner} {walletId : WalletId} (lost : Bool) (now : Time) :
      WorkersSound strict
        { s with wallets := (leaseFence s.wallets walletId owner lost now).1 } :=
    sound.wallets fun wallet _ holds => (leaseHolder_fence lost now wallet).symm.trans holds
  cases step with
  | register walletId =>
      exact sound.wallets fun wallet _ holds => (leaseHolder_register wallet).symm.trans holds
  | enqueue args ID jobs inserted => exact sound.insertJob inserted
  | cancel jobId => exact sound.cancel jobId
  | recover walletId now => exact sound.sweep walletId now
  | track job tx jobMem submitted stored => exact sound.watched ⟨job, jobMem, rfl, stored⟩
  | dispatchRefused owner walletId swept now refused =>
      rw [dispatchTx_jobs]
      exact sound.sweep walletId swept
  | dispatch owner job row swept now rowMem sameJob sameWallet sameKind idle taken =>
      have inactive := (dispatchTx_taken taken).1
      obtain ⟨row', row'Mem, sameId, inWallet⟩ := exists_swept rowMem s.wallets job.walletId swept
      rw [← dispatchTx_jobs s.jobs s.wallets job.walletId owner swept now] at row'Mem inactive
      exact (sound.dispatch idle taken).enter row'Mem (sameId.trans sameJob)
        (inWallet.trans sameWallet) ⟨nofun, nofun, nofun, nofun, nofun⟩ rfl nofun
        fun _ other otherMem => not_occupies_of_idle inactive otherMem
  | dispatchStopped owner walletId swept now idle taken => exact sound.dispatch idle taken
  | reconcile owner walletId job looked now idle taken =>
      obtain ⟨jobMem, isWallet, submitting, -, -⟩ := reconcileTx_taken taken
      have starts : (reconcileStage job).beforeFence = false ∧
          ∀ tx, reconcileStage job ≠ .storing tx := by
        rw [reconcileStage]
        split
        · exact ⟨rfl, nofun⟩
        · exact ⟨rfl, nofun⟩
      refine (sound.reconcile idle taken).enter jobMem rfl isWallet (reconcileStage_fits submitting)
        rfl starts.2 fun early => ?_
      cases starts.1.symm.trans early
  | reconcileStopped owner walletId job looked now idle taken => exact sound.reconcile idle taken
  | claim owner walletId job row lost running rowMem sameJob pending =>
      exact sound.claim requestTx running rowMem sameJob pending _
  | claimLost owner walletId execution running claiming => exact sound.leave owner walletId
  | claimUnanswered owner walletId job row lost running rowMem sameJob pending =>
      have claimed := sound.claim requestTx running rowMem sameJob pending (job.attempt + 1)
      have left := claimed.leave owner walletId
      rw [WorkersState.put_put] at left
      exact left
  | fenceBuild owner walletId job lost now running held =>
      refine (fenced lost now).put running (.of_stage ?_ nofun ?_ nofun nofun ?_)
      all_goals exact fun _ => rfl
  | build owner walletId job lost running =>
      have unbegun : ∀ row ∈ s.jobs.rows, row.ID = job.ID → row.signedTx = none := by
        intro row rowMem isJob
        obtain ⟨jobRow, jobRowMem, isJob', -, fits⟩ := sound.executions owner walletId _ running
        cases Table.mem_rows_inj rowMem jobRowMem (isJob.trans isJob'.symm)
        exact (fits.unstored rfl).1
      refine (sound.built unbegun).put running (.of_stage ?_ nofun ?_ nofun nofun ?_)
      all_goals exact fun _ => rfl
  | fenceSubmit owner walletId job lost tx now running held =>
      exact (fenced lost now).passFence running
        ((leaseHolder_fence lost now walletId).trans (leaseHolder_of_fence held))
  | standDown owner walletId job lost stage now running fence =>
      exact (fenced lost now).put running (.of_stage nofun nofun nofun nofun nofun nofun)
  | store owner walletId job row lost tx now running rowMem sameJob building =>
      exact sound.store running rowMem sameJob building now
  | storeUnanswered owner walletId job row lost tx now running rowMem sameJob building =>
      have stored := sound.store running rowMem sameJob building now
      have throws : Execution.Follows strict ⟨job, false, lost, .sending tx⟩
          ⟨job, false, lost, .failing⟩ := .of_stage nofun nofun (fun _ => rfl) nofun nofun nofun
      have failing := stored.put (WorkersState.put_executing _ owner walletId _) throws
      rw [WorkersState.put_put] at failing
      exact failing
  | storeFenced owner walletId job row lost tx running rowMem sameJob notBuilding =>
      exact sound.put running (.of_stage nofun nofun nofun nofun nofun nofun)
  | send owner walletId job reconciling lost tx running =>
      refine (sound.sent rfl (sound.bytes_stored running rfl)).put running ?_
      exact .of_stage nofun (fun _ => id) id (fun _ => rfl) nofun nofun
  | move owner walletId job reconciling lost stage next running moves =>
      exact sound.put running (moves.follows job lost)
  | adopt owner walletId job reconciling lost tx running =>
      have tracked := sound.watched (sound.bytes_stored running rfl)
      refine (tracked.submitted job.ID).put running ?_
      exact .of_stage nofun nofun (fun claimed => by simp [Execution.claimed] at claimed) nofun
        nofun nofun
  | adoptUnanswered owner walletId job reconciling lost tx next running moves =>
      exact (sound.submitted job.ID).put running (moves.follows job lost)
  | failureRead owner walletId job row lost running rowMem sameJob =>
      refine sound.put running ?_
      split
      · exact .of_stage nofun nofun (fun _ => rfl) nofun nofun nofun
      · exact .of_stage nofun nofun nofun nofun nofun nofun
  | requeue owner walletId job lost running => exact sound.requeue running
  | failExecution owner walletId job lost code may running =>
      exact (sound.fail code fun isStrict => notSent isStrict s job.ID may).put running
        (.of_stage nofun nofun nofun nofun nofun nofun)
  | failReconciled owner walletId job lost code may running =>
      exact (sound.fail code fun isStrict => notSent isStrict s job.ID may).put running
        (.of_stage nofun nofun nofun nofun nofun nofun)
  | release owner walletId execution running releasing =>
      exact (sound.wallets fun _ _ holds => leaseHolder_of_release holds).leave owner walletId
  | releaseThrows owner walletId execution running releasing => exact sound.leave owner walletId
  | stopReleases owner walletId idle =>
      exact sound.wallets fun _ _ holds => leaseHolder_of_release holds
  | beat owner walletId now =>
      exact sound.wallets fun wallet _ holds => (leaseHolder_renew now wallet).symm.trans holds
  | beatLost owner walletId execution now running gone =>
      exact sound.put running
        ⟨rfl, fun _ fits => ⟨fits.unstored, fits.executes, fits.bytes, fits.claimed, fits.sending⟩,
          id, fun _ => id, id⟩
  | crash owner =>
      refine sound.follow ?_
      intro o w execution running
      split at running
      · cases running
      · exact ⟨execution, running, .refl execution⟩
  | confirm jobId tx watched may => exact sound.confirm fun isStrict => notSent isStrict s jobId may
  | drop jobId tx code watched may =>
      exact sound.fail code fun isStrict => notSent isStrict s jobId may
  | resubmit jobId tx watched => exact sound.sent rfl (sound.tracked jobId tx watched)

theorem WorkersSound.start : WorkersSound strict .start where
  unsent := fun _ rowMem => absurd rowMem List.not_mem_nil
  begun := fun _ eventMem => absurd eventMem List.not_mem_nil
  tracked := fun _ _ watched => absurd watched List.not_mem_nil
  neverRebuilt := List.Pairwise.nil
  executions := fun _ _ _ running => nomatch running
  claimedOnce := fun _ _ _ _ _ running => nomatch running
  occupiedOnce := fun _ rowMem => absurd rowMem List.not_mem_nil
  free := fun _ _ _ running => nomatch running

theorem WorkerRun.sound (run : WorkerRun sha256 requestTx allowed s)
    (notSent : strict → ∀ s jobId, allowed s jobId → ¬ s.BeingSent jobId) :
    WorkersSound strict s := by
  induction run with
  | start => exact .start
  | step before step ih => exact step.sound notSent ih

namespace WorkersSound

theorem sameBytes (sound : WorkersSound strict s) : s.SameBytes := by
  intro jobId tx other sent otherSent
  obtain ⟨row, rowMem, isJob, stored⟩ := sound.begun _ sent jobId tx rfl
  obtain ⟨otherRow, otherMem, isJob', otherStored⟩ := sound.begun _ otherSent jobId other rfl
  cases Table.mem_rows_inj rowMem otherMem (isJob.trans isJob'.symm)
  exact Option.some.inj (stored.symm.trans otherStored)

theorem occupies_of_pastFence (sound : WorkersSound True s) {row : WalletJob}
    (rowMem : row ∈ s.jobs.rows) (past : s.PastFence row) : Occupies s.executing row := by
  rcases past with submitting | beingStored | ⟨owner, walletId, execution, running, isJob, sending⟩
  · exact Or.inl submitting
  · exact Or.inr (Or.inr beingStored)
  · rcases sound.sending_row trivial running sending rowMem isJob.symm with submitting | submitted
    · exact Or.inl submitting
    · exact Or.inr (Or.inl submitted)

theorem oneInFlight (sound : WorkersSound True s) : s.OneInFlight := by
  intro row rowMem other otherMem sameWallet past otherPast
  exact sound.occupiedOnce row rowMem other otherMem sameWallet
    (sound.occupies_of_pastFence rowMem past) (sound.occupies_of_pastFence otherMem otherPast)

end WorkersSound

/-- In every run the submissions of a job carry the same bytes and a job whose
submission has begun is not built again; where no job is ended while it is still
being sent, one job of a wallet at most is past the fence. -/
theorem walletWorkers_oneTransaction (run : WorkerRun sha256 requestTx allowed s) :
    s.SameBytes ∧ s.NeverRebuilt ∧
      ((∀ s jobId, allowed s jobId → ¬ s.BeingSent jobId) → s.OneInFlight) := by
  have sound : WorkersSound False s := run.sound nofun
  exact ⟨sound.sameBytes, sound.neverRebuilt, fun notSent => (run.sound fun _ => notSent).oneInFlight⟩

end Runs

end Preserved

/-! Two instances and two payments from one wallet. -/

def payment : InsertJobArgs := ⟨"w", "simpleAda", none, none⟩

def paymentTx : SignedTx := ⟨text "t", [⟨text "a", 0⟩], none⟩

/-- The row of a payment in a status, with the bytes it has by then. -/
def paymentRow (ID : String) (status : WalletJobStatus) (signedTx : Option SignedTx) : WalletJob :=
  { payment.entry id ID with
    status
    attempt := if signedTx.isSome then 1 else 0
    signedTx
    submittedAt := signedTx.map fun _ => 3 }

def takenOverJobs : WalletJobTable :=
  ⟨[paymentRow "1" .submitting (some paymentTx), paymentRow "2" .pending none], by decide⟩

/-- The first instance pauses before it sends what it stored, its lease runs out,
and the second one sends the stored bytes. -/
theorem workers_takenOver (allowed : WorkersState → String → Prop) :
    ∃ s : WorkersState, WorkerRun id (fun _ => none) allowed s ∧
      s.jobs = takenOverJobs ∧ s.wallets = ⟨[⟨"w", true, some "B", some 45000⟩], by decide⟩ ∧
      s.executing "A" "w" = some ⟨paymentRow "1" .pending none, false, false, .sending paymentTx⟩ ∧
      s.executing "B" "w" =
        some ⟨paymentRow "1" .submitting (some paymentTx), true, false, .sent paymentTx⟩ := by
  refine ⟨_, .step (.step (.step (.step (.step (.step (.step (.step (.step (.step (.step (.step
    .start
    (.register _ "w"))
    (.enqueue _ payment "1" _ rfl))
    (.enqueue _ payment "2" _ rfl))
    (.dispatch _ "A" (paymentRow "1" .pending none) (paymentRow "1" .pending none) 0 0
      (by decide +kernel) rfl rfl rfl rfl (by decide +kernel)))
    (.claim _ "A" "w" (paymentRow "1" .pending none) (paymentRow "1" .pending none) false
      (WorkersState.put_executing _ _ _ _) (by decide +kernel) rfl rfl))
    (.fenceBuild _ "A" "w" (paymentRow "1" .pending none) false 1
      (WorkersState.put_executing _ _ _ _) (by decide +kernel)))
    (.build _ "A" "w" (paymentRow "1" .pending none) false (WorkersState.put_executing _ _ _ _)))
    (.move _ "A" "w" (paymentRow "1" .pending none) false false _ _
      (WorkersState.put_executing _ _ _ _) (.signs paymentTx)))
    (.fenceSubmit _ "A" "w" (paymentRow "1" .pending none) false paymentTx 2
      (WorkersState.put_executing _ _ _ _) (by decide +kernel)))
    (.store _ "A" "w" (paymentRow "1" .pending none)
      { paymentRow "1" .building none with attempt := 1 } false paymentTx 3
      (WorkersState.put_executing _ _ _ _) (by decide +kernel) rfl rfl))
    (.reconcile _ "B" "w" (paymentRow "1" .submitting (some paymentTx)) 30000 30000
      (by decide +kernel) (by decide +kernel)))
    (.send _ "B" "w" (paymentRow "1" .submitting (some paymentTx)) true false paymentTx
      (WorkersState.put_executing _ _ _ _)), ?_, ?_, ?_, ?_⟩
  · exact Table.ext (by decide +kernel)
  · exact Table.ext (by decide +kernel)
  · decide +kernel
  · decide +kernel

theorem walletWorkers_oneTransaction_sample :
    ∃ s : WorkersState,
      (s.jobs = takenOverJobs ∧ s.events.head? = some (.submitted "1" paymentTx) ∧
        s.executing "B" "w" =
          some ⟨paymentRow "1" .submitting (some paymentTx), true, false, .sent paymentTx⟩) ∧
      s.SameBytes ∧ s.NeverRebuilt ∧ s.OneInFlight := by
  obtain ⟨s, run, jobs, wallets, first, second⟩ :=
    workers_takenOver fun s jobId => ¬ s.BeingSent jobId
  have bothSent := run.step (.send _ "A" "w" _ false false paymentTx first)
  obtain ⟨sameBytes, neverRebuilt, oneInFlight⟩ := walletWorkers_oneTransaction bothSent
  refine ⟨_, ⟨?_, ?_, ?_⟩, sameBytes, neverRebuilt, oneInFlight fun _ _ notSent => notSent⟩
  · exact jobs
  · rfl
  · exact (WorkersState.put_executing_other _ (by decide) _ _ _).trans second

/-- The second instance finds the transaction rejected and absent, fails its job and
stores the next payment, while the first still sends. -/
theorem walletWorkers_twoInFlight :
    ∃ s, WorkerRun id (fun _ => none) (fun _ _ => True) s ∧ ¬ s.OneInFlight := by
  obtain ⟨s, run, jobs, wallets, first, second⟩ := workers_takenOver fun _ _ => True
  obtain ⟨rows, leases, executing, tracked, events⟩ := s
  dsimp only at jobs wallets first second
  subst jobs wallets
  let failedJobs := markFailed takenOverJobs "1" "SUBMIT_REJECTED"
  let freeWallets : WorkerWalletTable :=
    releaseWalletLease ⟨[⟨"w", true, some "B", some 45000⟩], by decide⟩ "w" "B"
  have freed : WorkerRun id (fun _ => none) (fun _ _ => True) _ :=
    .step (.step (.step (.step run
      (.move _ "B" "w" (paymentRow "1" .submitting (some paymentTx)) true false _ _ second
        (.resubmitRejected paymentTx)))
      (.move _ "B" "w" (paymentRow "1" .submitting (some paymentTx)) true false _ _
        (WorkersState.put_executing _ _ _ _) (.absent paymentTx)))
      (.failReconciled _ "B" "w" (paymentRow "1" .submitting (some paymentTx)) false
        "SUBMIT_REJECTED" trivial (WorkersState.put_executing _ _ _ _)))
      (.release _ "B" "w" _ (WorkersState.put_executing _ _ _ _) rfl)
  have pending : paymentRow "2" .pending none ∈ failedJobs.rows := by decide +kernel
  have taken : (dispatchTx failedJobs freeWallets "w" "B" 30001 30001).2.2 = true := by
    decide +kernel
  have dispatched := freed.step
    (.dispatch _ "B" (paymentRow "2" .pending none) (paymentRow "2" .pending none) 30001 30001
      pending rfl rfl rfl (WorkersState.put_executing _ _ _ _) taken)
  let dispatch := dispatchTx failedJobs freeWallets "w" "B" 30001 30001
  have stillPending : paymentRow "2" .pending none ∈ dispatch.1.rows := by decide +kernel
  have held : (leaseFence dispatch.2.1 "w" "B" false 30002).2 = true := by decide +kernel
  have built := (((dispatched.step
    (.claim _ "B" "w" (paymentRow "2" .pending none) (paymentRow "2" .pending none) false
      (WorkersState.put_executing _ _ _ _) stillPending rfl rfl)).step
    (.fenceBuild _ "B" "w" (paymentRow "2" .pending none) false 30002
      (WorkersState.put_executing _ _ _ _) held)).step
    (.build _ "B" "w" (paymentRow "2" .pending none) false (WorkersState.put_executing _ _ _ _))).step
    (.move _ "B" "w" (paymentRow "2" .pending none) false false _ _
      (WorkersState.put_executing _ _ _ _) (.signs paymentTx))
  have stillHeld :
      (leaseFence (leaseFence dispatch.2.1 "w" "B" false 30002).1 "w" "B" false 30003).2 = true := by
    decide +kernel
  have building : { paymentRow "2" .building none with attempt := 1 } ∈
      (markBuilding dispatch.1 "2" 1).rows := by decide +kernel
  have stored := (built.step
    (.fenceSubmit _ "B" "w" (paymentRow "2" .pending none) false paymentTx 30003
      (WorkersState.put_executing _ _ _ _) stillHeld)).step
    (.store _ "B" "w" (paymentRow "2" .pending none)
      { paymentRow "2" .building none with attempt := 1 } false paymentTx 30004
      (WorkersState.put_executing _ _ _ _) building rfl rfl)
  refine ⟨_, stored, fun oneInFlight => ?_⟩
  let storedJobs := markSubmitting (markBuilding dispatch.1 "2" 1) "2" paymentTx 30004
  let sentJob : WalletJob :=
    { paymentRow "2" .submitting (some paymentTx) with submittedAt := some 30004 }
  let failedJob : WalletJob :=
    { paymentRow "1" .failed (some paymentTx) with errorCode := some "SUBMIT_REJECTED" }
  have sentMem : sentJob ∈ storedJobs.rows := by decide +kernel
  have failedMem : failedJob ∈ storedJobs.rows := by decide +kernel
  have same := oneInFlight sentJob sentMem failedJob failedMem rfl (Or.inl rfl)
    (Or.inr (Or.inr ⟨"A", "w", _, first, rfl, rfl⟩))
  exact absurd same (by decide +kernel)

end Odatano
