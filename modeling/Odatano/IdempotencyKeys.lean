import Odatano.WalletJobs

/-!
# Payments under one idempotency key

Clients, workers and the confirmation tracker over one job table, with a network
that takes every submission, whatever it answers, and may include it at any later
time.  The chain may roll back to its settled part.
-/

namespace Odatano

/-! ## The chain as payments see it -/

def SignedTx.Conflicts (tx other : SignedTx) : Prop :=
  ∃ input ∈ tx.inputs, input ∈ other.inputs

instance (tx other : SignedTx) : Decidable (tx.Conflicts other) :=
  inferInstanceAs (Decidable (∃ input ∈ tx.inputs, input ∈ other.inputs))

/-- A transaction of a block at a slot. -/
structure Inclusion where
  slot : Nat
  tx : SignedTx
deriving DecidableEq

structure PaymentState where
  jobs : WalletJobTable
  now : Time
  /-- Every transaction ever handed to a backend, with the job it was for. -/
  submissions : List (String × SignedTx)
  /-- Jobs whose transaction a lookup found neither indexed nor on any backend. -/
  absent : List String
  chain : List Inclusion
  /-- The chain up to this slot no longer rolls back. -/
  settledSlot : Nat

def PaymentState.Included (s : PaymentState) (tx : SignedTx) : Prop :=
  ∃ inclusion ∈ s.chain, inclusion.tx = tx

/-- Not to be included any more: its validity interval has ended, or another
transaction has spent one of its inputs. -/
def PaymentState.Dead (s : PaymentState) (tx : SignedTx) : Prop :=
  (¬ s.Included tx ∧ ∃ last, tx.invalidAfter = some last ∧ last ≤ s.settledSlot + 1) ∨
    ∃ inclusion ∈ s.chain, inclusion.slot ≤ s.settledSlot ∧ inclusion.tx ≠ tx ∧
      tx.Conflicts inclusion.tx

section Steps

variable (sha256 : String → String) (confirmationTimeout : Nat)
  (allowed : PaymentState → String → SignedTx → Prop)

/-- Jobs of one wallet and kind that claim one key. -/
def WalletJob.SameKey (job other : WalletJob) : Prop :=
  job.walletId = other.walletId ∧ job.kind = other.kind ∧
    job.claim sha256 = other.claim sha256 ∧ (job.claim sha256).isSome

inductive PaymentStep : PaymentState → PaymentState → Prop
  | enqueue (s : PaymentState) (args : InsertJobArgs) (ID : String) (jobs : WalletJobTable)
      (inserted : insertJob sha256 s.jobs args ID = some jobs) (unique : DedupUnique jobs) :
      PaymentStep s { s with jobs }
  | cancel (s : PaymentState) (jobId : String) (unique : DedupUnique (markCancelled s.jobs jobId)) :
      PaymentStep s { s with jobs := markCancelled s.jobs jobId }
  | claim (s : PaymentState) (jobId : String) (attempt : Nat) :
      PaymentStep s { s with jobs := markBuilding s.jobs jobId attempt }
  | requeue (s : PaymentState) (jobId : String) :
      PaymentStep s { s with jobs := requeueForRetry s.jobs jobId }
  | failOrphaned (s : PaymentState) (walletId : WalletId)
      (unique : DedupUnique (failBuilding s.jobs walletId)) :
      PaymentStep s { s with jobs := failBuilding s.jobs walletId }
  -- `handleExecutionFailure` of a build or a signature
  | failExecution (s : PaymentState) (job : WalletJob) (code : String) (jobMem : job ∈ s.jobs.rows)
      (building : job.status = .building) (unique : DedupUnique (markFailed s.jobs job.ID code)) :
      PaymentStep s { s with jobs := markFailed s.jobs job.ID code }
  -- the point of no return: the bytes are stored before they are sent
  | store (s : PaymentState) (jobId : String) (tx : SignedTx) (may : allowed s jobId tx) :
      PaymentStep s { s with jobs := markSubmitting s.jobs jobId tx s.now }
  -- the executor, a reconciliation, or the tracker after a rollback; the network's answer
  -- proves nothing, so it is not looked at
  | submit (s : PaymentState) (job : WalletJob) (tx : SignedTx) (jobMem : job ∈ s.jobs.rows)
      (stored : job.signedTx = some tx) :
      PaymentStep s { s with submissions := (job.ID, tx) :: s.submissions }
  | adopt (s : PaymentState) (jobId : String) :
      PaymentStep s { s with jobs := markSubmitted s.jobs jobId }
  | lookupAbsent (s : PaymentState) (job : WalletJob) (tx : SignedTx) (jobMem : job ∈ s.jobs.rows)
      (stored : job.signedTx = some tx) (notIncluded : ¬ s.Included tx) :
      PaymentStep s { s with absent := job.ID :: s.absent }
  -- `failReconciled` after a rejected submission, or past the timeout
  | failReconciled (s : PaymentState) (job : WalletJob) (code : String)
      (jobMem : job ∈ s.jobs.rows) (submitting : job.status = .submitting)
      (absent : job.ID ∈ s.absent)
      (dropped : code = "SUBMIT_REJECTED" ∨ code = "TX_DROPPED" ∧
        ∀ at_, job.submittedAt = some at_ → confirmationTimeout < s.now - at_)
      (unique : DedupUnique (markFailed s.jobs job.ID code)) :
      PaymentStep s { s with jobs := markFailed s.jobs job.ID code }
  -- `finalize` of a polling round past the timeout
  | drop (s : PaymentState) (job : WalletJob) (jobMem : job ∈ s.jobs.rows)
      (absent : job.ID ∈ s.absent)
      (expired : ∀ at_, job.submittedAt = some at_ → confirmationTimeout < s.now - at_)
      (unique : DedupUnique (markFailed s.jobs job.ID "TX_DROPPED")) :
      PaymentStep s { s with jobs := markFailed s.jobs job.ID "TX_DROPPED" }
  | confirm (s : PaymentState) (jobId : String) :
      PaymentStep s { s with jobs := markConfirmed s.jobs jobId }
  -- a submitted transaction, or one of somebody else
  | includeTx (s : PaymentState) (slot : Nat) (tx : SignedTx)
      (sent : (∃ jobId, (jobId, tx) ∈ s.submissions) ∨
        ∀ job ∈ s.jobs.rows, job.signedTx ≠ some tx)
      (open_ : s.settledSlot < slot) (onTop : ∀ inclusion ∈ s.chain, inclusion.slot ≤ slot)
      (valid : ∀ last, tx.invalidAfter = some last → slot < last)
      (unspent : ∀ inclusion ∈ s.chain, ¬ tx.Conflicts inclusion.tx) :
      PaymentStep s { s with chain := ⟨slot, tx⟩ :: s.chain }
  | rollBack (s : PaymentState) (forkSlot : Nat) (settled : s.settledSlot ≤ forkSlot) :
      PaymentStep s
        { s with chain := s.chain.filter fun inclusion => decide (inclusion.slot ≤ forkSlot) }
  | settle (s : PaymentState) (slot : Nat) (later : s.settledSlot ≤ slot) :
      PaymentStep s { s with settledSlot := slot }
  | tick (s : PaymentState) (now : Time) (later : s.now ≤ now) :
      PaymentStep s { s with now }

def PaymentState.start (now : Time) : PaymentState := ⟨.empty, now, [], [], [], 0⟩

inductive PaymentRun (now : Time) : PaymentState → Prop
  | start : PaymentRun now (.start now)
  | step {s s' : PaymentState} (before : PaymentRun now s)
      (step : PaymentStep sha256 confirmationTimeout allowed s s') : PaymentRun now s'

/-- A job is stored for sending only when no earlier transaction of its key can be
included next to it. -/
def SafeReRun (s : PaymentState) (jobId : String) (tx : SignedTx) : Prop :=
  ∀ job ∈ s.jobs.rows, job.ID = jobId → ∀ earlier ∈ s.jobs.rows,
    earlier.status.releasesKey = true → job.SameKey sha256 earlier →
      ∀ sent, earlier.signedTx = some sent → sent = tx ∨ sent.Conflicts tx ∨ s.Dead sent

/-- Of the transactions submitted for one key, one at most is in the chain. -/
def PaidOnce (s : PaymentState) : Prop :=
  ∀ job ∈ s.jobs.rows, ∀ other ∈ s.jobs.rows, job.SameKey sha256 other →
    ∀ tx otherTx, (job.ID, tx) ∈ s.submissions → (other.ID, otherTx) ∈ s.submissions →
      s.Included tx → s.Included otherTx → tx = otherTx

/-! ## What every run keeps -/

/-- Two transactions that are not both included, now or later. -/
def PaymentState.Exclusive (s : PaymentState) (tx other : SignedTx) : Prop :=
  tx = other ∨ tx.Conflicts other ∨ s.Dead tx ∨ s.Dead other

structure PaymentsSound (s : PaymentState) : Prop where
  unique : DedupUnique s.jobs
  keyed : ∀ job ∈ s.jobs.rows, job.status.releasesKey = false →
    job.dedupKey = (job.claim sha256).getD job.ID
  unsent : ∀ job ∈ s.jobs.rows, job.status = .pending ∨ job.status = .building →
    job.signedTx = none
  submitted : ∀ jobId tx, (jobId, tx) ∈ s.submissions →
    ∃ job ∈ s.jobs.rows, job.ID = jobId ∧ job.signedTx = some tx
  exclusive : ∀ job ∈ s.jobs.rows, ∀ other ∈ s.jobs.rows, job.ID ≠ other.ID →
    job.SameKey sha256 other → ∀ tx otherTx, job.signedTx = some tx →
      other.signedTx = some otherTx → s.Exclusive tx otherTx
  spentOnce : ∀ inclusion ∈ s.chain, ∀ other ∈ s.chain,
    inclusion.tx.Conflicts other.tx → inclusion.tx = other.tx

end Steps

theorem SignedTx.Conflicts.symm {tx other : SignedTx} (conflict : tx.Conflicts other) :
    other.Conflicts tx := by
  obtain ⟨input, spent, spentByOther⟩ := conflict
  exact ⟨input, spentByOther, spent⟩

/-- A dead transaction stays dead while the settled part of the chain stays and
what is included later is valid. -/
theorem PaymentState.Dead.mono {s s' : PaymentState} {tx : SignedTx} (dead : s.Dead tx)
    (kept : ∀ inclusion ∈ s.chain, inclusion.slot ≤ s.settledSlot → inclusion ∈ s'.chain)
    (later : s.settledSlot ≤ s'.settledSlot)
    (new : ∀ inclusion ∈ s'.chain, inclusion ∈ s.chain ∨ s.settledSlot < inclusion.slot ∧
      ∀ last, inclusion.tx.invalidAfter = some last → inclusion.slot < last) :
    s'.Dead tx := by
  rcases dead with ⟨notIncluded, last, isLast, ended⟩ | ⟨spender, spenderMem, settled, spends⟩
  · refine Or.inl ⟨?_, last, isLast, by omega⟩
    rintro ⟨inclusion, inclusionMem, rfl⟩
    rcases new inclusion inclusionMem with old | ⟨unsettled, valid⟩
    · exact notIncluded ⟨inclusion, old, rfl⟩
    · have := valid last isLast
      omega
  · exact Or.inr ⟨spender, kept spender spenderMem settled, by omega, spends⟩

section Runs

variable {sha256 : String → String} {confirmationTimeout : Nat} {s s' : PaymentState}

theorem PaymentState.Exclusive.symm {tx other : SignedTx} (exclusive : s.Exclusive tx other) :
    s.Exclusive other tx := by
  rcases exclusive with rfl | conflict | dead | dead
  · exact Or.inl rfl
  · exact Or.inr (Or.inl conflict.symm)
  · exact Or.inr (Or.inr (Or.inr dead))
  · exact Or.inr (Or.inr (Or.inl dead))

theorem WalletJob.SameKey.symm {job other : WalletJob} (same : job.SameKey sha256 other) :
    other.SameKey sha256 job :=
  ⟨same.1.symm, same.2.1.symm, same.2.2.1.symm, same.2.2.1 ▸ same.2.2.2⟩

/-- What no transition of a stored job changes. -/
def WalletJob.request (job : WalletJob) :
    String × WalletId × String × Option String × Option String :=
  (job.ID, job.walletId, job.kind, job.createdBy, job.idempotencyKey)

theorem WalletJob.SameKey.congr {job other job' other' : WalletJob}
    (same : job.SameKey sha256 other) (sameJob : job'.request = job.request)
    (sameOther : other'.request = other.request) : job'.SameKey sha256 other' := by
  simp only [WalletJob.request, Prod.mk.injEq] at sameJob sameOther
  obtain ⟨-, wallet, kind, createdBy, key⟩ := sameJob
  obtain ⟨-, otherWallet, otherKind, otherCreatedBy, otherKey⟩ := sameOther
  simp only [WalletJob.SameKey, WalletJob.claim, wallet, kind, createdBy, key, otherWallet,
    otherKind, otherCreatedBy, otherKey] at same ⊢
  exact same

theorem dedupUnique_update {jobs changed : WalletJobTable} {selected : WalletJob → Bool}
    {set : WalletJob → WalletJob}
    (rows : changed.rows = jobs.rows.map fun job => if selected job then set job else job)
    (sameKey : ∀ job, (set job).uniqueKey = job.uniqueKey) (unique : DedupUnique jobs) :
    DedupUnique changed := by
  have sameKeys : changed.rows.map WalletJob.uniqueKey =
      jobs.rows.map WalletJob.uniqueKey := by
    rw [rows, List.map_map]
    refine List.map_congr_left fun job _ => ?_
    simp only [Function.comp_apply]
    split
    · exact sameKey job
    · rfl
  rw [DedupUnique, sameKeys]
  exact unique

namespace PaymentsSound

/-- At most one job of a key is not over without a payment. -/
theorem live_unique (sound : PaymentsSound sha256 s) {job other : WalletJob}
    (jobMem : job ∈ s.jobs.rows) (otherMem : other ∈ s.jobs.rows)
    (same : job.SameKey sha256 other) (live : job.status.releasesKey = false)
    (otherLive : other.status.releasesKey = false) : job = other := by
  refine List.inj_on_of_nodup_map sound.unique jobMem otherMem ?_
  obtain ⟨wallet, kind, sameClaim, claims⟩ := same
  obtain ⟨claim, isClaim⟩ := Option.isSome_iff_exists.mp claims
  have holds := sound.keyed job jobMem live
  have otherHolds := sound.keyed other otherMem otherLive
  rw [isClaim] at holds
  rw [← sameClaim, isClaim] at otherHolds
  simp only [WalletJob.uniqueKey, wallet, kind, holds, otherHolds, Option.getD_some]

/-- A change of jobs that keeps what they send and gives a key back at most. -/
theorem update (sound : PaymentsSound sha256 s) {jobs : WalletJobTable}
    {selected : WalletJob → Bool} {set : WalletJob → WalletJob}
    (rows : jobs.rows = s.jobs.rows.map fun job => if selected job then set job else job)
    (sameRequest : ∀ job, (set job).request = job.request)
    (sameTx : ∀ job, (set job).signedTx = job.signedTx)
    (keyed : ∀ job ∈ s.jobs.rows, selected job = true → (set job).status.releasesKey = false →
      (set job).dedupKey = job.dedupKey ∧ job.status.releasesKey = false)
    (unsent : ∀ job ∈ s.jobs.rows, selected job = true →
      (set job).status = .pending ∨ (set job).status = .building →
        job.status = .pending ∨ job.status = .building)
    (unique : DedupUnique jobs) : PaymentsSound sha256 { s with jobs } := by
  have sameClaim (job) : (set job).claim sha256 = job.claim sha256 := by
    have same := sameRequest job
    simp only [WalletJob.request, Prod.mk.injEq] at same
    simp only [WalletJob.claim, same]
  have keepsId (job) : (set job).ID = job.ID := (Prod.mk.inj (sameRequest job)).1
  have changed {job} (jobMem : job ∈ jobs.rows) :
      ∃ old ∈ s.jobs.rows, (if selected old then set old else old) = job :=
    List.mem_map.mp (rows ▸ jobMem)
  have origin (job) (jobMem : job ∈ jobs.rows) :
      ∃ old ∈ s.jobs.rows, old.request = job.request ∧ old.signedTx = job.signedTx := by
    obtain ⟨old, oldMem, rfl⟩ := changed jobMem
    refine ⟨old, oldMem, ?_⟩
    split
    · exact ⟨(sameRequest old).symm, (sameTx old).symm⟩
    · exact ⟨rfl, rfl⟩
  constructor
  · exact unique
  · intro job jobMem live
    obtain ⟨old, oldMem, rfl⟩ := changed jobMem
    split
    · rename_i isSelected
      rw [if_pos isSelected] at live
      obtain ⟨sameKey, wasLive⟩ := keyed old oldMem isSelected live
      rw [sameKey, sameClaim, keepsId]
      exact sound.keyed old oldMem wasLive
    · rename_i notSelected
      rw [if_neg notSelected] at live
      exact sound.keyed old oldMem live
  · intro job jobMem open_
    obtain ⟨old, oldMem, rfl⟩ := changed jobMem
    split
    · rename_i isSelected
      rw [if_pos isSelected] at open_
      rw [sameTx]
      exact sound.unsent old oldMem (unsent old oldMem isSelected open_)
    · rename_i notSelected
      rw [if_neg notSelected] at open_
      exact sound.unsent old oldMem open_
  · intro jobId tx sent
    obtain ⟨job, jobMem, isJob, stored⟩ := sound.submitted jobId tx sent
    refine ⟨_, rows ▸ List.mem_map.mpr ⟨job, jobMem, rfl⟩, ?_⟩
    split
    · exact ⟨(keepsId job).trans isJob, (sameTx job).trans stored⟩
    · exact ⟨isJob, stored⟩
  · intro job jobMem other otherMem different same tx otherTx stored otherStored
    obtain ⟨old, oldMem, sameOld, sameOldTx⟩ := origin job jobMem
    obtain ⟨oldOther, oldOtherMem, sameOther, sameOtherTx⟩ := origin other otherMem
    have stillDifferent : old.ID ≠ oldOther.ID := by
      rw [(Prod.mk.inj sameOld).1, (Prod.mk.inj sameOther).1]
      exact different
    exact sound.exclusive old oldMem oldOther oldOtherMem stillDifferent
      (same.congr sameOld sameOther) tx otherTx (sameOldTx.trans stored)
      (sameOtherTx.trans otherStored)
  · exact sound.spentOnce

theorem insert (sound : PaymentsSound sha256 s) {args : InsertJobArgs} {ID : String}
    {jobs : WalletJobTable} (inserted : s.jobs.insertAll? [args.entry sha256 ID] = some jobs)
    (unique : DedupUnique jobs) : PaymentsSound sha256 { s with jobs } := by
  have rows : jobs.rows = s.jobs.rows ++ [args.entry sha256 ID] :=
    Table.rows_of_insertAll? inserted
  have cases {job : WalletJob} (jobMem : job ∈ jobs.rows) :
      job ∈ s.jobs.rows ∨ job = args.entry sha256 ID := by
    rw [rows, List.mem_append, List.mem_singleton] at jobMem
    exact jobMem
  constructor
  · exact unique
  · intro job jobMem live
    rcases cases jobMem with old | rfl
    · exact sound.keyed job old live
    · rfl
  · intro job jobMem open_
    rcases cases jobMem with old | rfl
    · exact sound.unsent job old open_
    · rfl
  · intro jobId tx sent
    obtain ⟨job, jobMem, stored⟩ := sound.submitted jobId tx sent
    exact ⟨job, rows ▸ List.mem_append_left _ jobMem, stored⟩
  · intro job jobMem other otherMem different same tx otherTx stored otherStored
    rcases cases jobMem with old | rfl
    · rcases cases otherMem with oldOther | rfl
      · exact sound.exclusive job old other oldOther different same tx otherTx stored otherStored
      · cases otherStored
    · cases stored
  · exact sound.spentOnce

theorem enqueue (sound : PaymentsSound sha256 s) {args : InsertJobArgs} {ID : String}
    {jobs : WalletJobTable} (inserted : insertJob sha256 s.jobs args ID = some jobs)
    (unique : DedupUnique jobs) : PaymentsSound sha256 { s with jobs } := by
  simp only [insertJob] at inserted
  split at inserted
  · exact sound.insert inserted unique
  · rename_i holder isHolder
    split at inserted
    · rename_i released
      have holderMem : holder ∈ s.jobs.rows := by
        obtain ⟨claim, -, found⟩ := Option.bind_eq_some_iff.mp isHolder
        exact List.mem_of_find?_eq_some found
      have stillUnique : DedupUnique (releaseDedupClaim s.jobs holder.ID) := by
        rw [DedupUnique, Table.rows_of_insertAll? inserted, List.map_append] at unique
        exact unique.of_append_left
      have releasedSound : PaymentsSound sha256
          { s with jobs := releaseDedupClaim s.jobs holder.ID } := by
        refine sound.update rfl (fun _ => rfl) (fun _ => rfl) ?_ (fun _ _ _ => id) stillUnique
        intro job jobMem isSelected live
        cases Table.mem_rows_inj jobMem holderMem (of_decide_eq_true isSelected)
        exact absurd live (by rw [released]; nofun)
      exact releasedSound.insert inserted unique
    · cases inserted

/-- The transaction a job stores, next to one of another job of its key. -/
theorem exclusive_stored (sound : PaymentsSound sha256 s) {job other : WalletJob}
    {tx otherTx : SignedTx} (may : SafeReRun sha256 s job.ID tx) (jobMem : job ∈ s.jobs.rows)
    (building : job.status = .building) (otherMem : other ∈ s.jobs.rows)
    (different : job.ID ≠ other.ID) (same : job.SameKey sha256 other)
    (stored : other.signedTx = some otherTx) : s.Exclusive tx otherTx := by
  cases released : other.status.releasesKey with
  | true =>
      rcases may job jobMem rfl other otherMem released same otherTx stored with
        rfl | conflict | dead
      · exact Or.inl rfl
      · exact Or.inr (Or.inl conflict.symm)
      · exact Or.inr (Or.inr (Or.inr dead))
  | false =>
      have live : job.status.releasesKey = false := by rw [building]; rfl
      cases sound.live_unique jobMem otherMem same live released
      exact absurd rfl different

theorem store (sound : PaymentsSound sha256 s) {jobId : String} {tx : SignedTx}
    (may : SafeReRun sha256 s jobId tx) :
    PaymentsSound sha256 { s with jobs := markSubmitting s.jobs jobId tx s.now } := by
  have origin (job) (jobMem : job ∈ (markSubmitting s.jobs jobId tx s.now).rows) :
      ∃ old ∈ s.jobs.rows, old.request = job.request ∧
        (old.ID = jobId ∧ old.status = .building ∧ job.signedTx = some tx ∧
          job.status = .submitting ∧ job.dedupKey = old.dedupKey ∨ job = old) := by
    obtain ⟨old, oldMem, rfl⟩ := List.mem_map.mp jobMem
    refine ⟨old, oldMem, ?_⟩
    split
    · rename_i isSelected
      obtain ⟨isJob, building⟩ := of_decide_eq_true isSelected
      exact ⟨rfl, Or.inl ⟨isJob, List.mem_singleton.mp building, rfl, rfl, rfl⟩⟩
    · exact ⟨rfl, Or.inr rfl⟩
  constructor
  · exact dedupUnique_update rfl (fun _ => rfl) sound.unique
  · intro job jobMem live
    obtain ⟨old, oldMem, sameRequest, ⟨-, building, -, -, sameKey⟩ | rfl⟩ := origin job jobMem
    · have held := sound.keyed old oldMem (by rw [building]; rfl)
      simp only [WalletJob.request, Prod.mk.injEq] at sameRequest
      simp only [WalletJob.claim, sameRequest] at held
      rw [sameKey, held]
      rfl
    · exact sound.keyed job oldMem live
  · intro job jobMem open_
    obtain ⟨old, oldMem, -, ⟨-, -, -, submitting, -⟩ | rfl⟩ := origin job jobMem
    · rw [submitting] at open_
      exact open_.elim nofun nofun
    · exact sound.unsent job oldMem open_
  · intro sentId sentTx sent
    obtain ⟨job, jobMem, isJob, stored⟩ := sound.submitted sentId sentTx sent
    refine ⟨job, List.mem_map.mpr ⟨job, jobMem, if_neg ?_⟩, isJob, stored⟩
    intro isSelected
    obtain ⟨-, building⟩ := of_decide_eq_true isSelected
    rw [sound.unsent job jobMem (Or.inr (List.mem_singleton.mp building))] at stored
    cases stored
  · intro job jobMem other otherMem different same jobTx otherTx stored otherStored
    obtain ⟨old, oldMem, sameOld, isOld⟩ := origin job jobMem
    obtain ⟨oldOther, oldOtherMem, sameOther, isOther⟩ := origin other otherMem
    have stillDifferent : old.ID ≠ oldOther.ID := by
      rw [(Prod.mk.inj sameOld).1, (Prod.mk.inj sameOther).1]
      exact different
    have sameKey := same.congr sameOld sameOther
    rcases isOld with ⟨rfl, building, storedNow, -⟩ | rfl
    · rcases isOther with ⟨isJob, -⟩ | rfl
      · exact absurd isJob.symm stillDifferent
      · cases storedNow.symm.trans stored
        exact sound.exclusive_stored may oldMem building oldOtherMem stillDifferent sameKey
          otherStored
    · rcases isOther with ⟨rfl, building, storedNow, -⟩ | rfl
      · cases storedNow.symm.trans otherStored
        exact (sound.exclusive_stored may oldOtherMem building oldMem stillDifferent.symm
          sameKey.symm stored).symm
      · exact sound.exclusive job oldMem other oldOtherMem different same jobTx otherTx stored
          otherStored
  · exact sound.spentOnce

/-- A change of the chain only. -/
theorem chain (sound : PaymentsSound sha256 s) {inclusions : List Inclusion} {settledSlot : Nat}
    (kept : ∀ inclusion ∈ s.chain, inclusion.slot ≤ s.settledSlot → inclusion ∈ inclusions)
    (later : s.settledSlot ≤ settledSlot)
    (new : ∀ inclusion ∈ inclusions, inclusion ∈ s.chain ∨ s.settledSlot < inclusion.slot ∧
      ∀ last, inclusion.tx.invalidAfter = some last → inclusion.slot < last)
    (spentOnce : ∀ inclusion ∈ inclusions, ∀ other ∈ inclusions,
      inclusion.tx.Conflicts other.tx → inclusion.tx = other.tx) :
    PaymentsSound sha256 { s with chain := inclusions, settledSlot } := by
  refine ⟨sound.unique, sound.keyed, sound.unsent, sound.submitted, ?_, spentOnce⟩
  intro job jobMem other otherMem different same tx otherTx stored otherStored
  exact (sound.exclusive job jobMem other otherMem different same tx otherTx stored
    otherStored).imp_right fun apart => apart.imp_right fun dead =>
      dead.imp (fun dead => dead.mono kept later new) fun dead => dead.mono kept later new

theorem extend (sound : PaymentsSound sha256 s) {slot : Nat} {tx : SignedTx}
    (open_ : s.settledSlot < slot) (valid : ∀ last, tx.invalidAfter = some last → slot < last)
    (unspent : ∀ inclusion ∈ s.chain, ¬ tx.Conflicts inclusion.tx) :
    PaymentsSound sha256 { s with chain := ⟨slot, tx⟩ :: s.chain } := by
  refine sound.chain (fun _ inclusionMem _ => List.mem_cons_of_mem _ inclusionMem)
    (Nat.le_refl _) ?_ ?_
  · intro inclusion inclusionMem
    rcases List.mem_cons.mp inclusionMem with rfl | old
    · exact Or.inr ⟨open_, valid⟩
    · exact Or.inl old
  · intro inclusion inclusionMem other otherMem conflict
    rcases List.mem_cons.mp inclusionMem with rfl | old
    · rcases List.mem_cons.mp otherMem with rfl | oldOther
      · rfl
      · exact absurd conflict (unspent other oldOther)
    · rcases List.mem_cons.mp otherMem with rfl | oldOther
      · exact absurd conflict.symm (unspent inclusion old)
      · exact sound.spentOnce inclusion old other oldOther conflict

theorem rollBack (sound : PaymentsSound sha256 s) {forkSlot : Nat}
    (settled : s.settledSlot ≤ forkSlot) :
    PaymentsSound sha256
      { s with chain := s.chain.filter fun inclusion => decide (inclusion.slot ≤ forkSlot) } := by
  refine sound.chain ?_ (Nat.le_refl _) (fun _ kept => Or.inl (List.mem_filter.mp kept).1) ?_
  · intro inclusion inclusionMem below
    exact List.mem_filter.mpr ⟨inclusionMem, decide_eq_true (Nat.le_trans below settled)⟩
  · intro inclusion inclusionMem other otherMem
    exact sound.spentOnce inclusion (List.mem_filter.mp inclusionMem).1 other
      (List.mem_filter.mp otherMem).1

theorem paidOnce (sound : PaymentsSound sha256 s) : PaidOnce sha256 s := by
  have stored {job : WalletJob} (jobMem : job ∈ s.jobs.rows) {tx : SignedTx}
      (sent : (job.ID, tx) ∈ s.submissions) : job.signedTx = some tx := by
    obtain ⟨row, rowMem, isJob, stored⟩ := sound.submitted job.ID tx sent
    exact Table.mem_rows_inj rowMem jobMem isJob ▸ stored
  have notDead {tx : SignedTx} (included : s.Included tx) : ¬ s.Dead tx := by
    rintro (⟨notIncluded, -⟩ | ⟨spender, spenderMem, -, different, conflict⟩)
    · exact notIncluded included
    · obtain ⟨inclusion, inclusionMem, rfl⟩ := included
      exact different (sound.spentOnce inclusion inclusionMem spender spenderMem conflict).symm
  intro job jobMem other otherMem same tx otherTx sent otherSent included otherIncluded
  by_cases sameJob : job.ID = other.ID
  · cases Table.mem_rows_inj jobMem otherMem sameJob
    exact Option.some.inj ((stored jobMem sent).symm.trans (stored jobMem otherSent))
  rcases sound.exclusive job jobMem other otherMem sameJob same tx otherTx (stored jobMem sent)
    (stored otherMem otherSent) with same | conflict | dead | dead
  · exact same
  · obtain ⟨inclusion, inclusionMem, rfl⟩ := included
    obtain ⟨otherInclusion, otherInclusionMem, rfl⟩ := otherIncluded
    exact sound.spentOnce inclusion inclusionMem otherInclusion otherInclusionMem conflict
  · exact absurd dead (notDead included)
  · exact absurd dead (notDead otherIncluded)

end PaymentsSound

theorem PaymentStep.sound
    (step : PaymentStep sha256 confirmationTimeout (SafeReRun sha256) s s')
    (sound : PaymentsSound sha256 s) : PaymentsSound sha256 s' := by
  have failed (jobId code : String) (unique : DedupUnique (markFailed s.jobs jobId code)) :
      PaymentsSound sha256 { s with jobs := markFailed s.jobs jobId code } :=
    sound.update rfl (fun _ => rfl) (fun _ => rfl) (fun _ _ _ live => nomatch live)
      (fun _ _ _ open_ => open_.elim nofun nofun) unique
  -- a transition from one status to another that keeps the key
  have moves {jobs : WalletJobTable} {jobId : String} {source : WalletJobStatus}
      {set : WalletJob → WalletJob}
      (rows : jobs.rows = s.jobs.rows.map fun job =>
        if decide (job.ID = jobId ∧ job.status ∈ [source]) then set job else job)
      (sameRequest : ∀ job, (set job).request = job.request)
      (sameTx : ∀ job, (set job).signedTx = job.signedTx)
      (sameKey : ∀ job, (set job).dedupKey = job.dedupKey)
      (live : source.releasesKey = false)
      (open_ : ∀ job, (set job).status = .pending ∨ (set job).status = .building →
        source = .pending ∨ source = .building) :
      PaymentsSound sha256 { s with jobs } := by
    have isSource {job : WalletJob}
        (isSelected : decide (job.ID = jobId ∧ job.status ∈ [source]) = true) :
        job.status = source :=
      List.mem_singleton.mp (of_decide_eq_true isSelected).2
    refine sound.update rows sameRequest sameTx ?_ ?_ ?_
    · intro job _ isSelected _
      exact ⟨sameKey job, isSource isSelected ▸ live⟩
    · intro job _ isSelected open'
      rw [isSource isSelected]
      exact open_ job open'
    · refine dedupUnique_update rows (fun job => ?_) sound.unique
      have same := sameRequest job
      simp only [WalletJob.request, Prod.mk.injEq] at same
      simp only [WalletJob.uniqueKey, same, sameKey]
  cases step with
  | enqueue args ID jobs inserted unique => exact sound.enqueue inserted unique
  | cancel jobId unique =>
      exact sound.update rfl (fun _ => rfl) (fun _ => rfl) (fun _ _ _ live => nomatch live)
        (fun _ _ _ open_ => open_.elim nofun nofun) unique
  | claim jobId attempt =>
      exact moves rfl (fun _ => rfl) (fun _ => rfl) (fun _ => rfl) rfl
        fun _ _ => Or.inl rfl
  | requeue jobId =>
      exact moves rfl (fun _ => rfl) (fun _ => rfl) (fun _ => rfl) rfl
        fun _ _ => Or.inr rfl
  | failOrphaned walletId unique =>
      exact sound.update rfl (fun _ => rfl) (fun _ => rfl) (fun _ _ _ live => nomatch live)
        (fun _ _ _ open_ => open_.elim nofun nofun) unique
  | failExecution job code jobMem building unique => exact failed job.ID code unique
  | store jobId tx may => exact sound.store may
  | submit job tx jobMem stored =>
      refine ⟨sound.unique, sound.keyed, sound.unsent, ?_, sound.exclusive, sound.spentOnce⟩
      intro sentId sentTx sent
      rcases List.mem_cons.mp sent with isNew | old
      · cases isNew
        exact ⟨job, jobMem, rfl, stored⟩
      · exact sound.submitted sentId sentTx old
  | adopt jobId =>
      exact moves rfl (fun _ => rfl) (fun _ => rfl) (fun _ => rfl) rfl
        fun _ open_ => open_.elim nofun nofun
  | lookupAbsent job tx jobMem stored notIncluded =>
      exact ⟨sound.unique, sound.keyed, sound.unsent, sound.submitted, sound.exclusive,
        sound.spentOnce⟩
  | failReconciled job code jobMem submitting absent dropped unique =>
      exact failed job.ID code unique
  | drop job jobMem absent expired unique => exact failed job.ID "TX_DROPPED" unique
  | confirm jobId =>
      exact moves rfl (fun _ => rfl) (fun _ => rfl) (fun _ => rfl) rfl
        fun _ open_ => open_.elim nofun nofun
  | includeTx slot tx sent open_ onTop valid unspent => exact sound.extend open_ valid unspent
  | rollBack forkSlot settled => exact sound.rollBack settled
  | settle slot later =>
      exact sound.chain (fun _ inclusionMem _ => inclusionMem) later (fun _ => Or.inl)
        sound.spentOnce
  | tick now later =>
      exact ⟨sound.unique, sound.keyed, sound.unsent, sound.submitted, sound.exclusive,
        sound.spentOnce⟩

theorem PaymentRun.sound {now : Time}
    (run : PaymentRun sha256 confirmationTimeout (SafeReRun sha256) now s) :
    PaymentsSound sha256 s := by
  induction run with
  | start =>
      refine ⟨List.nodup_nil, ?_, ?_, ?_, ?_, ?_⟩
      · exact fun _ jobMem => absurd jobMem List.not_mem_nil
      · exact fun _ jobMem => absurd jobMem List.not_mem_nil
      · exact fun _ _ sent => absurd sent List.not_mem_nil
      · exact fun _ jobMem => absurd jobMem List.not_mem_nil
      · exact fun _ inclusionMem => absurd inclusionMem List.not_mem_nil
  | step before step ih => exact step.sound ih

/-- Where each re-run meets only transactions that are over or that it conflicts
with, one transaction at most of those submitted for a key is in the chain, and of
the transactions of two jobs of a key one keeps the other out of it. -/
theorem idempotencyKey_paidOnce {now : Time}
    (run : PaymentRun sha256 confirmationTimeout (SafeReRun sha256) now s) :
    PaidOnce sha256 s ∧
      ∀ job ∈ s.jobs.rows, ∀ other ∈ s.jobs.rows, job.ID ≠ other.ID →
        job.SameKey sha256 other → ∀ tx otherTx, job.signedTx = some tx →
          other.signedTx = some otherTx → s.Exclusive tx otherTx :=
  ⟨run.sound.paidOnce, run.sound.exclusive⟩

end Runs

/-! Two runs of one order under one key. -/

def order : InsertJobArgs := ⟨"w", "simpleAda", some "k", none⟩

def firstTx : SignedTx := ⟨text "t", [⟨text "a", 0⟩], none⟩

def failedJob : WalletJob where
  ID := "1"
  walletId := "w"
  kind := "simpleAda"
  status := .failed
  idempotencyKey := some "k"
  dedupKey := "1"
  attempt := 1
  createdBy := none
  signedTx := some firstTx
  submittedAt := some 0
  errorCode := some "SUBMIT_REJECTED"

def reRunJob : WalletJob where
  ID := "2"
  walletId := "w"
  kind := "simpleAda"
  status := .building
  idempotencyKey := some "k"
  dedupKey := "k"
  attempt := 1
  createdBy := none
  signedTx := none
  submittedAt := none
  errorCode := none

def reRunState : PaymentState where
  jobs := ⟨[failedJob, reRunJob], by decide⟩
  now := 0
  submissions := [("1", firstTx)]
  absent := ["1"]
  chain := []
  settledSlot := 0

/-- The first job is sent, reported as rejected, and failed; the client tries again. -/
theorem payment_reRun (allowed : PaymentState → String → SignedTx → Prop)
    (may : ∀ s, (∀ job ∈ s.jobs.rows, job.status.releasesKey = false) → allowed s "1" firstTx) :
    PaymentRun id 1000 allowed 0 reRunState := by
  refine .step (.step (.step (.step (.step (.step (.step (.step .start
    (.enqueue _ order "1" _ rfl (by decide +kernel)))
    (.claim _ "1" 1))
    (.store _ "1" firstTx (may _ (by decide +kernel))))
    (.submit _ { failedJob with status := .submitting, dedupKey := "k", errorCode := none } firstTx
      List.mem_cons_self rfl))
    (.lookupAbsent _ { failedJob with status := .submitting, dedupKey := "k", errorCode := none }
      firstTx List.mem_cons_self rfl (by rintro ⟨_, inclusionMem, -⟩; cases inclusionMem)))
    (.failReconciled _ { failedJob with status := .submitting, dedupKey := "k", errorCode := none }
      "SUBMIT_REJECTED" List.mem_cons_self rfl List.mem_cons_self (Or.inl rfl)
      (by decide +kernel)))
    (.enqueue _ order "2" _ rfl (by decide +kernel)))
    (.claim _ "2" 1)

/-- The state after the re-run stored and sent its transaction. -/
theorem payment_reRunSent (allowed : PaymentState → String → SignedTx → Prop) (tx : SignedTx)
    (may : ∀ s, (∀ job ∈ s.jobs.rows, job.status.releasesKey = false) → allowed s "1" firstTx)
    (mayAgain : allowed reRunState "2" tx) :
    PaymentRun id 1000 allowed 0
      { reRunState with
        jobs := markSubmitting reRunState.jobs "2" tx 0
        submissions := [("2", tx), ("1", firstTx)] } :=
  .step (.step (payment_reRun allowed may) (.store _ "2" tx mayAgain))
    (.submit _ { reRunJob with status := .submitting, signedTx := some tx, submittedAt := some 0 } tx
      (List.mem_cons_of_mem _ (List.mem_singleton_self _)) rfl)

theorem idempotencyKey_paidOnce_sample :
    ∃ s, s.chain = [⟨11, ⟨text "u", [⟨text "a", 0⟩], none⟩⟩] ∧ s.submissions.length = 2 ∧
      PaidOnce id s := by
  have run := payment_reRunSent (SafeReRun id) ⟨text "u", [⟨text "a", 0⟩], none⟩ ?_ ?_
  · exact ⟨_, rfl, rfl, (idempotencyKey_paidOnce
      (.step run (.includeTx _ 11 ⟨text "u", [⟨text "a", 0⟩], none⟩
        (Or.inl ⟨"2", List.mem_cons_self⟩) (by decide) nofun nofun nofun))).1⟩
  · intro s live job jobMem isJob earlier earlierMem released
    rw [live earlier earlierMem] at released
    cases released
  · intro job jobMem isJob earlier earlierMem released same sent stored
    rcases List.mem_cons.mp earlierMem with rfl | otherMem
    · cases stored
      exact Or.inr (Or.inl (by decide +kernel))
    · cases List.mem_singleton.mp otherMem
      cases released

/-- The first transaction was only slow: it has no end of validity and shares no
input with that of the re-run, and both are included. -/
theorem idempotencyKey_paidTwice :
    ∃ s, PaymentRun id 1000 (fun _ _ _ => True) 0 s ∧ ¬ PaidOnce id s := by
  have run := payment_reRunSent (fun _ _ _ => True) ⟨text "u", [⟨text "b", 0⟩], none⟩
    (fun _ _ => trivial) trivial
  refine ⟨_, .step (.step run (.includeTx _ 10 firstTx
    (Or.inl ⟨"1", List.mem_cons_of_mem _ (List.mem_singleton_self _)⟩) (by decide) nofun nofun nofun))
    (.includeTx _ 11 ⟨text "u", [⟨text "b", 0⟩], none⟩ (Or.inl ⟨"2", List.mem_cons_self⟩)
      (by decide) (by decide +kernel) nofun (by decide +kernel)), ?_⟩
  intro paidOnce
  have same := paidOnce failedJob List.mem_cons_self
    { reRunJob with
      status := .submitting
      signedTx := some ⟨text "u", [⟨text "b", 0⟩], none⟩
      submittedAt := some 0 }
    (List.mem_cons_of_mem _ (List.mem_singleton_self _)) ⟨rfl, rfl, rfl, rfl⟩ firstTx
    ⟨text "u", [⟨text "b", 0⟩], none⟩ (List.mem_cons_of_mem _ (List.mem_singleton_self _))
    List.mem_cons_self ⟨_, List.mem_cons_of_mem _ (List.mem_singleton_self _), rfl⟩
    ⟨_, List.mem_cons_self, rfl⟩
  exact absurd same (by decide +kernel)

end Odatano
