import Odatano.AgentGrants
import Odatano.ChainData

/-!
# Wallet jobs

The job rows of `srv/blockchain/wallet-worker/job-store.ts` and the statements on
them.  Transitions are updates guarded by the status; one that matches no row
changes nothing.
-/

namespace Odatano

abbrev WalletId := String

/-- A signed transaction: its bytes stand for its hash, its inputs and the end of
its validity interval, which a plain transfer has only when the request gives one. -/
structure SignedTx where
  hash : TxHash
  inputs : List Outpoint
  invalidAfter : Option Nat
deriving DecidableEq

inductive WalletJobStatus
  | pending
  | building
  | submitting
  | submitted
  | confirmed
  | failed
  | cancelled
deriving DecidableEq

/-- Terminal without a payment: such a job gives its idempotency key back. -/
def WalletJobStatus.releasesKey : WalletJobStatus → Bool
  | .failed | .cancelled => true
  | _ => false

structure WalletJob where
  ID : String
  walletId : WalletId
  kind : String
  status : WalletJobStatus
  idempotencyKey : Option String
  dedupKey : String
  attempt : Nat
  createdBy : Option String
  /-- `txHash` and `signedTxCbor`, stored before the transaction can reach a backend. -/
  signedTx : Option SignedTx
  submittedAt : Option Time
  errorCode : Option String
deriving DecidableEq

/-- What the UNIQUE constraint of the table is on. -/
def WalletJob.uniqueKey (job : WalletJob) : WalletId × String × String :=
  (job.walletId, job.kind, job.dedupKey)

abbrev WalletJobTable := Table WalletJob.ID

/-- The UNIQUE constraint. -/
def DedupUnique (jobs : WalletJobTable) : Prop :=
  (jobs.rows.map WalletJob.uniqueKey).Nodup

instance (jobs : WalletJobTable) : Decidable (DedupUnique jobs) :=
  inferInstanceAs (Decidable (List.Nodup _))

/-! ## Job creation -/

section Keys

variable (sha256 : String → String)

/-- Dedup key scoped to the submitting user; an owner-less key stays raw. -/
def dedupKeyFor (owner : Option String) (idempotencyKey : String) : String :=
  match nonBlank owner with
  | none => idempotencyKey
  | some scope => "o:" ++ (sha256 (scope ++ "\x00" ++ idempotencyKey)).take 48

/-- The dedup key a request with an idempotency key claims. -/
def claimOf (createdBy idempotencyKey : Option String) : Option String :=
  (idempotencyKey.filter (· ≠ "")).map (dedupKeyFor sha256 createdBy)

def WalletJob.claim (job : WalletJob) : Option String :=
  claimOf sha256 job.createdBy job.idempotencyKey

structure InsertJobArgs where
  walletId : WalletId
  kind : String
  idempotencyKey : Option String
  createdBy : Option String
deriving DecidableEq

/-- The row `insertJob` inserts; without a key its own id is the dedup key. -/
def InsertJobArgs.entry (args : InsertJobArgs) (ID : String) : WalletJob where
  ID := ID
  walletId := args.walletId
  kind := args.kind
  status := .pending
  idempotencyKey := args.idempotencyKey
  dedupKey := (claimOf sha256 args.createdBy args.idempotencyKey).getD ID
  attempt := 0
  createdBy := args.createdBy
  signedTx := none
  submittedAt := none
  errorCode := none

/-- The job that holds a dedup key. -/
def readDedupHolder (jobs : WalletJobTable) (walletId : WalletId) (kind dedupKey : String) :
    Option WalletJob :=
  jobs.rows.find? fun job => decide (job.uniqueKey = (walletId, kind, dedupKey))

/-- Frees the idempotency key by pointing the dedup key at the job's id. -/
def releaseDedupClaim (jobs : WalletJobTable) (jobId : String) : WalletJobTable :=
  jobs.update (fun job => job.ID = jobId) (fun job => { job with dedupKey := job.ID }) fun _ => rfl

/-- Insert a job, or nothing when an active or confirmed job has its key.  A row
that still holds it although it is terminal is released first. -/
def insertJob (jobs : WalletJobTable) (args : InsertJobArgs) (ID : String) :
    Option WalletJobTable :=
  let entry := args.entry sha256 ID
  match (entry.claim sha256).bind (readDedupHolder jobs entry.walletId entry.kind) with
  | none => jobs.insertAll? [entry]
  | some holder =>
      if holder.status.releasesKey then (releaseDedupClaim jobs holder.ID).insertAll? [entry]
      else none

end Keys

/-! ## Guarded transitions -/

/-- An update of the job with an id while its status is one of those listed. -/
def guardedTransition (jobs : WalletJobTable) (jobId : String) (fromStatuses : List WalletJobStatus)
    (set : WalletJob → WalletJob) (keepsId : ∀ job, (set job).ID = job.ID) : WalletJobTable :=
  jobs.update (fun job => job.ID = jobId ∧ job.status ∈ fromStatuses) set keepsId

def markBuilding (jobs : WalletJobTable) (jobId : String) (attempt : Nat) : WalletJobTable :=
  guardedTransition jobs jobId [.pending]
    (fun job => { job with status := .building, attempt }) fun _ => rfl

/-- Stores the signed transaction before the network call. -/
def markSubmitting (jobs : WalletJobTable) (jobId : String) (signedTx : SignedTx) (now : Time) :
    WalletJobTable :=
  guardedTransition jobs jobId [.building]
    (fun job =>
      { job with status := .submitting, signedTx := some signedTx, submittedAt := some now })
    fun _ => rfl

def markSubmitted (jobs : WalletJobTable) (jobId : String) : WalletJobTable :=
  guardedTransition jobs jobId [.submitting] (fun job => { job with status := .submitted })
    fun _ => rfl

/-- Requeues a building job after a transient error. -/
def requeueForRetry (jobs : WalletJobTable) (jobId : String) : WalletJobTable :=
  guardedTransition jobs jobId [.building] (fun job => { job with status := .pending })
    fun _ => rfl

def markConfirmed (jobs : WalletJobTable) (jobId : String) : WalletJobTable :=
  guardedTransition jobs jobId [.submitted]
    (fun job => { job with status := .confirmed, errorCode := none }) fun _ => rfl

/-- Fails an active job and frees its key. -/
def markFailed (jobs : WalletJobTable) (jobId code : String) : WalletJobTable :=
  guardedTransition jobs jobId [.pending, .building, .submitting, .submitted]
    (fun job =>
      { job with status := .failed, errorCode := some (code.take 50).toString, dedupKey := job.ID })
    fun _ => rfl

def markCancelled (jobs : WalletJobTable) (jobId : String) : WalletJobTable :=
  guardedTransition jobs jobId [.pending]
    (fun job =>
      { job with status := .cancelled, errorCode := some "CANCELLED", dedupKey := job.ID })
    fun _ => rfl

/-- Fails a wallet's building jobs; such rows were never sent. -/
def failBuilding (jobs : WalletJobTable) (walletId : WalletId) : WalletJobTable :=
  jobs.update (fun job => job.walletId = walletId ∧ job.status = .building)
    (fun job =>
      { job with status := .failed, errorCode := some "PROCESS_RESTART", dedupKey := job.ID })
    fun _ => rfl

end Odatano
