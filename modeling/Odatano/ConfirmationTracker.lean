import Mathlib.Logic.Function.Basic
import Odatano.ChainData

/-!
# The confirmation tracker

`srv/blockchain/wallet-worker/confirmation-tracker.ts` against a chain that grows
and rolls back.  An operation is one asynchronous function of the tracker between
two of its awaits; any number of them are in flight and interleave.  A lookup is
answered from the chain at some moment of the call and resumes later.
-/

namespace Odatano

abbrev JobId := String

/-! ## The chain as reported -/

structure ReportedBlock where
  slot : Nat
  height : Nat
  txHashes : List TxHash
deriving DecidableEq

/-- Newest first. -/
abbrev ReportedChain := List ReportedBlock

def ReportedChain.tipHeight (chain : ReportedChain) : Nat := (chain.head?.map (·.height)).getD 0

/-- The transaction is in a block of the chain with this height, and slot when given. -/
def ReportedChain.Holds (chain : ReportedChain) (txHash : TxHash) (slot : Option Nat)
    (height : Nat) : Prop :=
  ∃ b ∈ chain, txHash ∈ b.txHashes ∧ b.height = height ∧ ∀ s, slot = some s → b.slot = s

def ReportedChain.rollBack (chain : ReportedChain) (forkSlot : Nat) : ReportedChain :=
  chain.filter fun b => decide (b.slot ≤ forkSlot)

/-! ## The tracker -/

/-- The mutable part of a tracked job. -/
structure TrackedJob where
  foundSlot : Option Nat
  foundHeight : Option Nat
  /-- Polling round that last saw the transaction. -/
  seenRound : Option Nat
deriving DecidableEq

def TrackedJob.forgotten : TrackedJob := ⟨none, none, none⟩

def TrackedJob.rolledBack (job : TrackedJob) (forkSlot : Nat) : Bool :=
  job.foundSlot.any fun slot => decide (forkSlot < slot)

/-- How a transaction lookup answers. -/
inductive TxAnswer
  | found (slot height : Option Nat)
  | notFound
  | transient
deriving DecidableEq

inductive TrackerOp
  /-- `onBlockIndexed`: the found jobs whose position is still to be set. -/
  | record (slot height : Option Nat) (rest : List JobId)
  /-- `pollOnce`, awaiting `getLatestBlock`. -/
  | tipLookup (answer : Option (Option Nat))
  | pollJobs (rest : List JobId)
  /-- `pollOnce`, awaiting `getTransaction` of a job. -/
  | txLookup (job : JobId) (rest : List JobId) (answer : Option TxAnswer)
  /-- `confirmMature`, with the tip it read. -/
  | mature (revalidate : Bool) (tip : Nat) (rest : List JobId)
  /-- `stillIncluded` of a job whose depth was enough at `height`. -/
  | recheck (tip : Nat) (job : JobId) (height : Nat) (rest : List JobId) (answer : Option TxAnswer)
  /-- `finalize` of a job as confirmed, at `height`. -/
  | confirming (revalidate : Bool) (tip : Nat) (job : JobId) (height : Nat) (rest : List JobId)
  /-- `finalize` of a job as dropped. -/
  | dropping (job : JobId) (rest : List JobId)
  /-- `onReorg`, awaiting a `forgetInclusion`. -/
  | forget (forkSlot : Nat) (rest : List JobId)
deriving DecidableEq

structure TrackerState where
  chain : ReportedChain
  jobs : JobId → TrackedJob
  pending : List JobId
  lastKnownTipHeight : Option Nat
  round : Nat
  polling : Bool
  ops : List TrackerOp
  /-- Whether the job's row has reached a final status. -/
  final : JobId → Bool

/-- `Math.max(this.lastKnownTipHeight ?? 0, height)`, for a height that is known. -/
def raiseTip (known height : Option Nat) : Option Nat :=
  match height with
  | none => known
  | some height => some (max (known.getD 0) height)

/-- The tip after a reorg: clamped to the fork's height, dropped when that is unknown. -/
def clampTip (known forkHeight : Option Nat) : Option Nat :=
  match forkHeight with
  | none => none
  | some forkHeight => known.map fun tip => min tip forkHeight

/-- The loop of `onReorg` up to the first inclusion it forgets, and what is left of it. -/
def forgetFirst (forkSlot : Nat) (jobs : JobId → TrackedJob) :
    List JobId → (JobId → TrackedJob) × List JobId
  | [] => (jobs, [])
  | id :: rest =>
      if (jobs id).rolledBack forkSlot then (Function.update jobs id .forgotten, rest)
      else forgetFirst forkSlot jobs rest

/-- `confirmMature` begins: it reads the tip and the pending jobs, or returns. -/
def matureOps (s : TrackerState) (revalidate : Bool) : List TrackerOp :=
  (s.lastKnownTipHeight.map fun tip => TrackerOp.mature revalidate tip s.pending).toList

/-- What the environment reports. -/
inductive TrackerInput
  | track (job : JobId) (confirmedSlot confirmedHeight : Option Nat)
  | reorg (forkSlot : Nat)
deriving DecidableEq

section Steps

variable (txOf : JobId → TxHash) (depth : Nat) (allowed : TrackerState → TrackerInput → Prop)

/-- An answer that is right for a chain. -/
def TxAnswer.Right (chain : ReportedChain) (txHash : TxHash) (answer : TxAnswer) : Prop :=
  ∀ slot height, answer = .found slot (some height) → chain.Holds txHash slot height

/-- A step, and the job it moves to confirmed. -/
inductive TrackerStep : TrackerState → Option JobId → TrackerState → Prop
  | grow (s : TrackerState) (b : ReportedBlock) (onTop : s.chain.tipHeight ≤ b.height) :
      TrackerStep s none { s with chain := b :: s.chain }
  | track (s : TrackerState) (job : JobId) (slot height : Option Nat) (new : job ∉ s.pending)
      (open_ : s.final job = false) (may : allowed s (.track job slot height)) :
      TrackerStep s none
        { s with
          pending := s.pending ++ [job]
          jobs := Function.update s.jobs job ⟨slot, height, none⟩ }
  -- another actor finishes the job
  | finishElsewhere (s : TrackerState) (job : JobId) :
      TrackerStep s none { s with final := Function.update s.final job true }
  | onBlockIndexed (s : TrackerState) (b : ReportedBlock) (tipHeight : Option Nat)
      (onChain : b ∈ s.chain) (tipOnChain : ∀ tip, tipHeight = some tip → tip ≤ s.chain.tipHeight)
      (blockBelow : b.height ≤ s.chain.tipHeight) (watching : s.pending ≠ []) :
      TrackerStep s none
        { s with
          lastKnownTipHeight := raiseTip s.lastKnownTipHeight (tipHeight.or (some b.height))
          ops :=
            .record (some b.slot) (some b.height)
              (s.pending.filter fun job =>
                (s.jobs job).foundHeight = none ∧ txOf job ∈ b.txHashes) :: s.ops }
  | recordNext (s : TrackerState) (before after : List TrackerOp) (slot height : Option Nat)
      (job : JobId) (rest : List JobId)
      (inFlight : s.ops = before ++ .record slot height (job :: rest) :: after) :
      TrackerStep s none
        { s with
          jobs := Function.update s.jobs job ⟨slot, height, (s.jobs job).seenRound⟩
          ops := before ++ .record slot height rest :: after }
  | recordEnds (s : TrackerState) (before after : List TrackerOp) (slot height : Option Nat)
      (inFlight : s.ops = before ++ .record slot height [] :: after) :
      TrackerStep s none { s with ops := matureOps s false ++ (before ++ after) }
  | onReorg (s : TrackerState) (forkSlot : Nat) (forkHeight : Option Nat)
      (known : ∀ height, forkHeight = some height →
        height ≤ (s.chain.rollBack forkSlot).tipHeight)
      (may : allowed s (.reorg forkSlot)) :
      TrackerStep s none
        { s with
          chain := s.chain.rollBack forkSlot
          lastKnownTipHeight := clampTip s.lastKnownTipHeight forkHeight
          jobs := (forgetFirst forkSlot s.jobs s.pending).1
          ops := .forget forkSlot (forgetFirst forkSlot s.jobs s.pending).2 :: s.ops }
  | forgetNext (s : TrackerState) (before after : List TrackerOp) (forkSlot : Nat)
      (rest : List JobId) (inFlight : s.ops = before ++ .forget forkSlot rest :: after) :
      TrackerStep s none
        { s with
          jobs := (forgetFirst forkSlot s.jobs rest).1
          ops := before ++ .forget forkSlot (forgetFirst forkSlot s.jobs rest).2 :: after }
  | pollOnce (s : TrackerState) (idle : s.polling = false) (watching : s.pending ≠ []) :
      TrackerStep s none
        { s with polling := true, round := s.round + 1, ops := .tipLookup none :: s.ops }
  | tipAnswered (s : TrackerState) (before after : List TrackerOp) (height : Option Nat)
      (inFlight : s.ops = before ++ .tipLookup none :: after)
      (right : ∀ tip, height = some tip → tip ≤ s.chain.tipHeight) :
      TrackerStep s none { s with ops := before ++ .tipLookup (some height) :: after }
  | tipResumes (s : TrackerState) (before after : List TrackerOp) (height : Option Nat)
      (inFlight : s.ops = before ++ .tipLookup (some height) :: after) :
      TrackerStep s none
        { s with
          lastKnownTipHeight := raiseTip s.lastKnownTipHeight height
          ops := before ++ .pollJobs s.pending :: after }
  | tipFails (s : TrackerState) (before after : List TrackerOp) (answer : Option (Option Nat))
      (inFlight : s.ops = before ++ .tipLookup answer :: after) :
      TrackerStep s none { s with polling := false, ops := before ++ after }
  | pollNext (s : TrackerState) (before after : List TrackerOp) (job : JobId)
      (rest : List JobId) (inFlight : s.ops = before ++ .pollJobs (job :: rest) :: after) :
      TrackerStep s none
        { s with
          ops :=
            before ++
              (if (s.jobs job).foundHeight = none then TrackerOp.txLookup job rest none
                else .pollJobs rest) :: after }
  | pollEnds (s : TrackerState) (before after : List TrackerOp)
      (inFlight : s.ops = before ++ .pollJobs [] :: after) :
      TrackerStep s none
        { s with
          polling := s.lastKnownTipHeight.isSome
          ops := matureOps s true ++ (before ++ after) }
  | txAnswered (s : TrackerState) (before after : List TrackerOp) (job : JobId)
      (rest : List JobId) (answer : TxAnswer)
      (inFlight : s.ops = before ++ .txLookup job rest none :: after)
      (right : answer.Right s.chain (txOf job)) :
      TrackerStep s none { s with ops := before ++ .txLookup job rest (some answer) :: after }
  | txFound (s : TrackerState) (before after : List TrackerOp) (job : JobId)
      (rest : List JobId) (slot height : Option Nat)
      (inFlight : s.ops = before ++ .txLookup job rest (some (.found slot height)) :: after) :
      TrackerStep s none
        { s with
          jobs := Function.update s.jobs job ⟨slot, height, some s.round⟩
          ops := before ++ .pollJobs rest :: after }
  -- not on the chain, or a transient error
  | txMissing (s : TrackerState) (before after : List TrackerOp) (job : JobId)
      (rest : List JobId) (answer : TxAnswer)
      (inFlight : s.ops = before ++ .txLookup job rest (some answer) :: after)
      (missing : answer = .notFound ∨ answer = .transient) :
      TrackerStep s none { s with ops := before ++ .pollJobs rest :: after }
  -- not on the chain and past the timeout
  | txDropped (s : TrackerState) (before after : List TrackerOp) (job : JobId)
      (rest : List JobId)
      (inFlight : s.ops = before ++ .txLookup job rest (some .notFound) :: after) :
      TrackerStep s none { s with ops := before ++ .dropping job rest :: after }
  | dropped (s : TrackerState) (before after : List TrackerOp) (job : JobId)
      (rest : List JobId) (inFlight : s.ops = before ++ .dropping job rest :: after) :
      TrackerStep s none
        { s with
          final := Function.update s.final job true
          pending := s.pending.filter fun other => decide (other ≠ job)
          ops := before ++ .pollJobs rest :: after }
  | matureSkips (s : TrackerState) (before after : List TrackerOp) (revalidate : Bool)
      (tip : Nat) (job : JobId) (rest : List JobId)
      (inFlight : s.ops = before ++ .mature revalidate tip (job :: rest) :: after)
      (shallow : ∀ height, (s.jobs job).foundHeight = some height → ¬ height + depth ≤ tip + 1) :
      TrackerStep s none { s with ops := before ++ .mature revalidate tip rest :: after }
  | matureConfirms (s : TrackerState) (before after : List TrackerOp) (revalidate : Bool)
      (tip height : Nat) (job : JobId) (rest : List JobId)
      (inFlight : s.ops = before ++ .mature revalidate tip (job :: rest) :: after)
      (found : (s.jobs job).foundHeight = some height) (deep : height + depth ≤ tip + 1)
      (seen : revalidate = true → (s.jobs job).seenRound = some s.round) :
      TrackerStep s none
        { s with ops := before ++ .confirming revalidate tip job height rest :: after }
  | matureRechecks (s : TrackerState) (before after : List TrackerOp) (tip height : Nat)
      (job : JobId) (rest : List JobId)
      (inFlight : s.ops = before ++ .mature true tip (job :: rest) :: after)
      (found : (s.jobs job).foundHeight = some height) (deep : height + depth ≤ tip + 1)
      (unseen : (s.jobs job).seenRound ≠ some s.round) :
      TrackerStep s none
        { s with ops := before ++ .recheck tip job height rest none :: after }
  | matureEnds (s : TrackerState) (before after : List TrackerOp) (revalidate : Bool)
      (tip : Nat) (inFlight : s.ops = before ++ .mature revalidate tip [] :: after) :
      TrackerStep s none
        { s with polling := s.polling && !revalidate, ops := before ++ after }
  | recheckAnswered (s : TrackerState) (before after : List TrackerOp) (tip height : Nat)
      (job : JobId) (rest : List JobId) (answer : TxAnswer)
      (inFlight : s.ops = before ++ .recheck tip job height rest none :: after)
      (right : answer.Right s.chain (txOf job)) :
      TrackerStep s none
        { s with ops := before ++ .recheck tip job height rest (some answer) :: after }
  | recheckSame (s : TrackerState) (before after : List TrackerOp) (tip height : Nat)
      (job : JobId) (rest : List JobId) (slot found : Option Nat)
      (inFlight : s.ops = before ++ .recheck tip job height rest (some (.found slot found)) :: after)
      (same : found = none ∨ found = (s.jobs job).foundHeight) :
      TrackerStep s none
        { s with
          jobs := Function.update s.jobs job
            ⟨(s.jobs job).foundSlot, (s.jobs job).foundHeight, some s.round⟩
          ops := before ++ .confirming true tip job height rest :: after }
  | recheckMoved (s : TrackerState) (before after : List TrackerOp) (tip height moved : Nat)
      (job : JobId) (rest : List JobId) (slot : Option Nat)
      (inFlight : s.ops =
        before ++ .recheck tip job height rest (some (.found slot (some moved))) :: after)
      (different : (s.jobs job).foundHeight ≠ some moved) :
      TrackerStep s none
        { s with
          jobs := Function.update s.jobs job ⟨slot, some moved, some s.round⟩
          ops :=
            before ++
              (if moved + depth ≤ tip + 1 then TrackerOp.confirming true tip job moved rest
                else .mature true tip rest) :: after }
  | recheckGone (s : TrackerState) (before after : List TrackerOp) (tip height : Nat)
      (job : JobId) (rest : List JobId)
      (inFlight : s.ops = before ++ .recheck tip job height rest (some .notFound) :: after) :
      TrackerStep s none
        { s with
          lastKnownTipHeight := none
          jobs := Function.update s.jobs job .forgotten
          ops := before ++ .mature true tip rest :: after }
  | recheckFails (s : TrackerState) (before after : List TrackerOp) (tip height : Nat)
      (job : JobId) (rest : List JobId) (answer : Option TxAnswer)
      (inFlight : s.ops = before ++ .recheck tip job height rest answer :: after) :
      TrackerStep s none { s with ops := before ++ .mature true tip rest :: after }
  | confirm (s : TrackerState) (before after : List TrackerOp) (revalidate : Bool)
      (tip height : Nat) (job : JobId) (rest : List JobId)
      (inFlight : s.ops = before ++ .confirming revalidate tip job height rest :: after)
      (open_ : s.final job = false) :
      TrackerStep s (some job)
        { s with
          final := Function.update s.final job true
          pending := s.pending.filter fun other => decide (other ≠ job)
          ops := before ++ .mature revalidate tip rest :: after }
  -- the row was final already
  | confirmedElsewhere (s : TrackerState) (before after : List TrackerOp) (revalidate : Bool)
      (tip height : Nat) (job : JobId) (rest : List JobId)
      (inFlight : s.ops = before ++ .confirming revalidate tip job height rest :: after)
      (done : s.final job = true) :
      TrackerStep s none
        { s with
          pending := s.pending.filter fun other => decide (other ≠ job)
          ops := before ++ .mature revalidate tip rest :: after }
  | confirmFails (s : TrackerState) (before after : List TrackerOp) (revalidate : Bool)
      (tip height : Nat) (job : JobId) (rest : List JobId)
      (inFlight : s.ops = before ++ .confirming revalidate tip job height rest :: after) :
      TrackerStep s none { s with ops := before ++ .mature revalidate tip rest :: after }

/-- Runs of a tracker that starts on some chain. -/
inductive TrackerRun : TrackerState → Prop
  | start (chain : ReportedChain) (final : JobId → Bool) :
      TrackerRun ⟨chain, fun _ => .forgotten, [], none, 0, false, [], final⟩
  | step {s s' : TrackerState} {event : Option JobId} (before : TrackerRun s)
      (step : TrackerStep txOf depth allowed s event s') : TrackerRun s'

end Steps

/-! ## What the tracker holds -/

section Invariant

variable (txOf : JobId → TxHash) (depth : Nat)

/-- What an operation holds is true of a chain, as far as unfinished jobs go. -/
def TrackerOp.Sound (chain : ReportedChain) (final : JobId → Bool) : TrackerOp → Prop
  | .record slot height rest => ∀ job ∈ rest, final job = false → ∀ h, height = some h →
      chain.Holds (txOf job) slot h
  | .tipLookup answer => ∀ tip, answer = some (some tip) → tip ≤ chain.tipHeight
  | .pollJobs _ => True
  | .txLookup job _ answer => final job = false → ∀ a, answer = some a → a.Right chain (txOf job)
  | .mature _ tip _ => tip ≤ chain.tipHeight
  | .recheck tip job height _ answer => tip ≤ chain.tipHeight ∧ height + depth ≤ tip + 1 ∧
      (final job = false → chain.Holds (txOf job) none height ∧
        ∀ a, answer = some a → a.Right chain (txOf job))
  | .confirming _ tip job height _ => tip ≤ chain.tipHeight ∧ height + depth ≤ tip + 1 ∧
      (final job = false → chain.Holds (txOf job) none height)
  | .dropping _ _ => True
  | .forget _ _ => True

/-- The jobs an operation still refers to. -/
def TrackerOp.jobs : TrackerOp → List JobId
  | .record _ _ rest => rest
  | .tipLookup _ => []
  | .pollJobs rest => rest
  | .txLookup job rest _ => job :: rest
  | .mature _ _ rest => rest
  | .recheck _ job _ rest _ => job :: rest
  | .confirming _ _ job _ rest => job :: rest
  | .dropping job rest => job :: rest
  | .forget _ rest => rest

structure TrackerSound (s : TrackerState) : Prop where
  tip : ∀ tip, s.lastKnownTipHeight = some tip → tip ≤ s.chain.tipHeight
  jobs : ∀ job, s.final job = false → ∀ height, (s.jobs job).foundHeight = some height →
    s.chain.Holds (txOf job) (s.jobs job).foundSlot height
  tracked : ∀ job, s.final job = false → (s.jobs job).foundHeight ≠ none → job ∈ s.pending
  ops : ∀ op ∈ s.ops, op.Sound txOf depth s.chain s.final
  opJobs : ∀ op ∈ s.ops, ∀ job ∈ op.jobs, s.final job = false → job ∈ s.pending

/-- A reorg finds nothing in flight that it takes away: what the operations hold
is still true of the chain that is left, inclusions have a slot, and at most one
of them is above the fork.  A job is taken over with an inclusion on the chain. -/
def NothingTakenAway (s : TrackerState) : TrackerInput → Prop
  | .track job slot height => ∀ h, height = some h → s.chain.Holds (txOf job) slot h
  | .reorg forkSlot =>
      (∀ op ∈ s.ops, op.Sound txOf depth (s.chain.rollBack forkSlot) s.final) ∧
      (∀ job ∈ s.pending, (s.jobs job).foundHeight ≠ none → (s.jobs job).foundSlot ≠ none) ∧
      ∀ job ∈ s.pending, (s.jobs job).rolledBack forkSlot = true →
        ∀ other ∈ s.pending, (s.jobs other).rolledBack forkSlot = true → other = job

end Invariant

/-! ## Chains -/

theorem ReportedChain.Holds.grow {chain : ReportedChain} {txHash : TxHash} {slot : Option Nat}
    {height : Nat} (holds : chain.Holds txHash slot height) (b : ReportedBlock) :
    ReportedChain.Holds (b :: chain) txHash slot height := by
  obtain ⟨c, cMem, rest⟩ := holds
  exact ⟨c, List.mem_cons_of_mem _ cMem, rest⟩

theorem ReportedChain.Holds.anySlot {chain : ReportedChain} {txHash : TxHash} {slot : Option Nat}
    {height : Nat} (holds : chain.Holds txHash slot height) : chain.Holds txHash none height := by
  obtain ⟨c, cMem, isIn, sameHeight, -⟩ := holds
  exact ⟨c, cMem, isIn, sameHeight, nofun⟩

/-- An inclusion at a slot that stays is not rolled back. -/
theorem ReportedChain.Holds.rollBack {chain : ReportedChain} {txHash : TxHash} {slot : Nat}
    {height forkSlot : Nat} (holds : chain.Holds txHash (some slot) height)
    (stays : slot ≤ forkSlot) : (chain.rollBack forkSlot).Holds txHash (some slot) height := by
  obtain ⟨c, cMem, isIn, sameHeight, sameSlot⟩ := holds
  refine ⟨c, List.mem_filter.mpr ⟨cMem, decide_eq_true ?_⟩, isIn, sameHeight, sameSlot⟩
  exact (sameSlot slot rfl).symm ▸ stays

theorem TxAnswer.Right.grow {chain : ReportedChain} {txHash : TxHash} {answer : TxAnswer}
    (right : answer.Right chain txHash) (b : ReportedBlock) :
    TxAnswer.Right (b :: chain) txHash answer :=
  fun slot height found => (right slot height found).grow b

/-- The tip after a block or a lookup is still on the chain. -/
theorem raiseTip_le {known height : Option Nat} {bound : Nat}
    (knownBelow : ∀ tip, known = some tip → tip ≤ bound)
    (heightBelow : ∀ tip, height = some tip → tip ≤ bound) :
    ∀ tip, raiseTip known height = some tip → tip ≤ bound := by
  intro tip raised
  cases height with
  | none => exact knownBelow tip raised
  | some height =>
      cases raised
      refine Nat.max_le.mpr ⟨?_, heightBelow height rfl⟩
      cases known with
      | none => exact Nat.zero_le _
      | some known => exact knownBelow known rfl

theorem clampTip_le {known forkHeight : Option Nat} {bound : Nat}
    (forkBelow : ∀ height, forkHeight = some height → height ≤ bound) :
    ∀ tip, clampTip known forkHeight = some tip → tip ≤ bound := by
  intro tip clamped
  cases forkHeight with
  | none => cases clamped
  | some forkHeight =>
      obtain ⟨before, -, rfl⟩ := Option.map_eq_some_iff.mp clamped
      exact Nat.le_trans (Nat.min_le_right _ _) (forkBelow forkHeight rfl)

/-- What `onReorg` does to the jobs at once. -/
theorem forgetFirst_spec (forkSlot : Nat) (jobs : JobId → TrackedJob) (watched : List JobId) :
    ((forgetFirst forkSlot jobs watched).1 = jobs ∧
        ∀ job ∈ watched, (jobs job).rolledBack forkSlot = false) ∨
      ∃ job ∈ watched, (jobs job).rolledBack forkSlot = true ∧
        (forgetFirst forkSlot jobs watched).1 = Function.update jobs job .forgotten := by
  induction watched with
  | nil => exact Or.inl ⟨rfl, fun _ jobMem => absurd jobMem List.not_mem_nil⟩
  | cons job rest ih =>
      rw [forgetFirst]
      split
      · rename_i rolledBack
        exact Or.inr ⟨job, List.mem_cons_self, rolledBack, rfl⟩
      · rename_i kept
        rcases ih with ⟨same, restKept⟩ | ⟨other, otherMem, rolledBack, changed⟩
        · refine Or.inl ⟨same, fun other otherMem => ?_⟩
          rcases List.mem_cons.mp otherMem with rfl | later
          · exact Bool.eq_false_iff.mpr kept
          · exact restKept other later
        · exact Or.inr ⟨other, List.mem_cons_of_mem _ otherMem, rolledBack, changed⟩

theorem forgetFirst_rest (forkSlot : Nat) (jobs : JobId → TrackedJob) (watched : List JobId) :
    (forgetFirst forkSlot jobs watched).2 ⊆ watched := by
  induction watched with
  | nil => exact List.Subset.refl _
  | cons job rest ih =>
      rw [forgetFirst]
      split
      · exact List.subset_cons_self ..
      · exact fun other otherMem => List.mem_cons_of_mem _ (ih otherMem)

/-! ## Steps -/

theorem mem_ops_replace {ops before after : List TrackerOp} {old new op : TrackerOp}
    (inFlight : ops = before ++ old :: after) (opMem : op ∈ before ++ new :: after) :
    op ∈ ops ∨ op = new := by
  rw [inFlight]
  rcases List.mem_append.mp opMem with earlier | later
  · exact Or.inl (List.mem_append_left _ earlier)
  · rcases List.mem_cons.mp later with rfl | later
    · exact Or.inr rfl
    · exact Or.inl (List.mem_append_right _ (List.mem_cons_of_mem _ later))

theorem mem_ops_remove {ops before after : List TrackerOp} {old op : TrackerOp}
    (inFlight : ops = before ++ old :: after) (opMem : op ∈ before ++ after) : op ∈ ops := by
  rw [inFlight]
  rcases List.mem_append.mp opMem with earlier | later
  · exact List.mem_append_left _ earlier
  · exact List.mem_append_right _ (List.mem_cons_of_mem _ later)

section Keeping

variable {txOf : JobId → TxHash} {depth : Nat} {s s' : TrackerState}

/-- Fewer unfinished jobs, fewer facts. -/
theorem TrackerOp.Sound.finish {op : TrackerOp} {chain : ReportedChain}
    {final final' : JobId → Bool} (sound : op.Sound txOf depth chain final)
    (fewer : ∀ job, final' job = false → final job = false) :
    op.Sound txOf depth chain final' := by
  cases op with
  | record slot height rest => exact fun job jobMem open_ => sound job jobMem (fewer job open_)
  | tipLookup answer => exact sound
  | pollJobs rest => exact trivial
  | txLookup job rest answer => exact fun open_ => sound (fewer job open_)
  | mature revalidate tip rest => exact sound
  | recheck tip job height rest answer =>
      exact ⟨sound.1, sound.2.1, fun open_ => sound.2.2 (fewer job open_)⟩
  | confirming revalidate tip job height rest =>
      exact ⟨sound.1, sound.2.1, fun open_ => sound.2.2 (fewer job open_)⟩
  | dropping job rest => exact trivial
  | forget forkSlot rest => exact trivial

theorem TrackerOp.Sound.grow {op : TrackerOp} {chain : ReportedChain} {final : JobId → Bool}
    (sound : op.Sound txOf depth chain final) {b : ReportedBlock}
    (onTop : chain.tipHeight ≤ b.height) : op.Sound txOf depth (b :: chain) final := by
  have higher : chain.tipHeight ≤ ReportedChain.tipHeight (b :: chain) := onTop
  cases op with
  | record slot height rest =>
      exact fun job jobMem open_ h isHeight => (sound job jobMem open_ h isHeight).grow b
  | tipLookup answer => exact fun tip answered => Nat.le_trans (sound tip answered) higher
  | pollJobs rest => exact trivial
  | txLookup job rest answer => exact fun open_ a answered => (sound open_ a answered).grow b
  | mature revalidate tip rest => exact Nat.le_trans sound higher
  | recheck tip job height rest answer =>
      exact ⟨Nat.le_trans sound.1 higher, sound.2.1, fun open_ =>
        ⟨(sound.2.2 open_).1.grow b, fun a answered => ((sound.2.2 open_).2 a answered).grow b⟩⟩
  | confirming revalidate tip job height rest =>
      exact ⟨Nat.le_trans sound.1 higher, sound.2.1, fun open_ => (sound.2.2 open_).grow b⟩
  | dropping job rest => exact trivial
  | forget forkSlot rest => exact trivial

/-- A step on an unchanged chain: each job keeps its inclusion or gets one of the
chain, each operation was there or holds what is true. -/
theorem TrackerSound.sameChain (sound : TrackerSound txOf depth s) (chain : s'.chain = s.chain)
    (final : ∀ job, s'.final job = false → s.final job = false)
    (pending : ∀ job ∈ s.pending, s'.final job = false → job ∈ s'.pending)
    (tip : ∀ tip, s'.lastKnownTipHeight = some tip → tip ≤ s.chain.tipHeight)
    (jobs : ∀ job, s'.final job = false → s'.jobs job = s.jobs job ∨
      (∀ height, (s'.jobs job).foundHeight = some height →
        s.chain.Holds (txOf job) (s'.jobs job).foundSlot height) ∧
        ((s'.jobs job).foundHeight ≠ none → job ∈ s'.pending))
    (ops : ∀ op ∈ s'.ops, op ∈ s.ops ∨ op.Sound txOf depth s.chain s'.final ∧
      ∀ job ∈ op.jobs, s'.final job = false → job ∈ s'.pending) : TrackerSound txOf depth s' := by
  refine ⟨chain ▸ tip, ?_, ?_, ?_, ?_⟩
  · intro job open_ height found
    rw [chain]
    rcases jobs job open_ with same | ⟨holds, -⟩
    · rw [same] at found ⊢
      exact sound.jobs job (final job open_) height found
    · exact holds height found
  · intro job open_ found
    rcases jobs job open_ with same | ⟨-, watched⟩
    · rw [same] at found
      exact pending job (sound.tracked job (final job open_) found) open_
    · exact watched found
  · intro op opMem
    rw [chain]
    rcases ops op opMem with old | ⟨opSound, -⟩
    · exact (sound.ops op old).finish final
    · exact opSound
  · intro op opMem job jobMem open_
    rcases ops op opMem with old | ⟨-, watched⟩
    · exact pending job (sound.opJobs op old job jobMem (final job open_)) open_
    · exact watched job jobMem open_

/-- A step that only replaces one operation. -/
theorem TrackerSound.replaceOp (sound : TrackerSound txOf depth s) {before after : List TrackerOp}
    {old new : TrackerOp} (inFlight : s.ops = before ++ old :: after)
    (newSound : old.Sound txOf depth s.chain s.final → new.Sound txOf depth s.chain s.final)
    (newJobs : new.jobs ⊆ old.jobs) :
    TrackerSound txOf depth { s with ops := before ++ new :: after } := by
  have oldMem : old ∈ s.ops := inFlight ▸ List.mem_append_right _ List.mem_cons_self
  refine sound.sameChain rfl (fun _ => id) (fun _ jobMem _ => jobMem) sound.tip
    (fun _ _ => Or.inl rfl) ?_
  intro op opMem
  refine (mem_ops_replace inFlight opMem).imp_right ?_
  rintro rfl
  exact ⟨newSound (sound.ops old oldMem), fun job jobMem open_ =>
    sound.opJobs old oldMem job (newJobs jobMem) open_⟩

theorem TrackerSound.matureOps (sound : TrackerSound txOf depth s) {revalidate : Bool}
    {op : TrackerOp} (opMem : op ∈ matureOps s revalidate) :
    op.Sound txOf depth s.chain s.final ∧
      ∀ job ∈ op.jobs, s.final job = false → job ∈ s.pending := by
  obtain ⟨tip, known, rfl⟩ := Option.map_eq_some_iff.mp (Option.mem_toList.mp opMem)
  exact ⟨sound.tip tip known, fun job jobMem _ => jobMem⟩

/-- Moving one job to an inclusion of the chain, and replacing one operation. -/
theorem TrackerSound.setJob (sound : TrackerSound txOf depth s) {before after : List TrackerOp}
    {old new : TrackerOp} (inFlight : s.ops = before ++ old :: after) {job : JobId}
    {next : TrackedJob} {tip : Option Nat}
    (tipBelow : ∀ t, tip = some t → t ≤ s.chain.tipHeight)
    (included : s.final job = false → ∀ height, next.foundHeight = some height →
      s.chain.Holds (txOf job) next.foundSlot height)
    (jobMem : job ∈ old.jobs)
    (newSound : old.Sound txOf depth s.chain s.final → new.Sound txOf depth s.chain s.final)
    (newJobs : new.jobs ⊆ old.jobs) :
    TrackerSound txOf depth { s with
      lastKnownTipHeight := tip
      jobs := Function.update s.jobs job next
      ops := before ++ new :: after } := by
  have oldMem : old ∈ s.ops := inFlight ▸ List.mem_append_right _ List.mem_cons_self
  refine sound.sameChain rfl (fun _ => id) (fun _ jobMem _ => jobMem) tipBelow ?_ ?_
  · intro other open_
    by_cases same : other = job
    · subst same
      simp only [Function.update_self]
      exact Or.inr ⟨included open_, fun _ => sound.opJobs old oldMem other jobMem open_⟩
    · exact Or.inl (Function.update_of_ne same _ _)
  · intro op opMem
    refine (mem_ops_replace inFlight opMem).imp_right ?_
    rintro rfl
    exact ⟨newSound (sound.ops old oldMem), fun other otherMem open_ =>
      sound.opJobs old oldMem other (newJobs otherMem) open_⟩

/-- A job that becomes final, or was, leaves the pending ones. -/
theorem TrackerSound.finishJob (sound : TrackerSound txOf depth s) {before after : List TrackerOp}
    {old new : TrackerOp} (inFlight : s.ops = before ++ old :: after) {job : JobId}
    {final : JobId → Bool} (isFinal : final job = true)
    (fewer : ∀ other, final other = false → s.final other = false)
    (newSound : old.Sound txOf depth s.chain s.final → new.Sound txOf depth s.chain s.final)
    (newJobs : new.jobs ⊆ old.jobs) :
    TrackerSound txOf depth { s with
      final
      pending := s.pending.filter fun other => decide (other ≠ job)
      ops := before ++ new :: after } := by
  have oldMem : old ∈ s.ops := inFlight ▸ List.mem_append_right _ List.mem_cons_self
  have stays : ∀ other ∈ s.pending, final other = false →
      other ∈ s.pending.filter fun other => decide (other ≠ job) := by
    intro other otherMem open_
    refine List.mem_filter.mpr ⟨otherMem, decide_eq_true ?_⟩
    rintro rfl
    exact absurd (isFinal.symm.trans open_) nofun
  refine sound.sameChain rfl fewer stays sound.tip (fun _ _ => Or.inl rfl) ?_
  intro op opMem
  refine (mem_ops_replace inFlight opMem).imp_right ?_
  rintro rfl
  exact ⟨(newSound (sound.ops old oldMem)).finish fewer, fun other otherMem open_ =>
    stays other (sound.opJobs old oldMem other (newJobs otherMem) (fewer other open_)) open_⟩

end Keeping

section Runs

variable {txOf : JobId → TxHash} {depth : Nat} {s s' : TrackerState}

/-- Clearing jobs keeps what the tracker holds. -/
theorem TrackerSound.forget (sound : TrackerSound txOf depth s) {before after : List TrackerOp}
    {forkSlot : Nat} {rest : List JobId} (inFlight : s.ops = before ++ .forget forkSlot rest :: after) :
    TrackerSound txOf depth { s with
      jobs := (forgetFirst forkSlot s.jobs rest).1
      ops := before ++ .forget forkSlot (forgetFirst forkSlot s.jobs rest).2 :: after } := by
  have oldMem : .forget forkSlot rest ∈ s.ops :=
    inFlight ▸ List.mem_append_right _ List.mem_cons_self
  refine sound.sameChain rfl (fun _ => id) (fun _ jobMem _ => jobMem) sound.tip ?_ ?_
  · intro job _
    rcases forgetFirst_spec forkSlot s.jobs rest with ⟨same, -⟩ | ⟨cleared, -, -, changed⟩
    · exact Or.inl (congrFun same job)
    · simp only [changed]
      by_cases same : job = cleared
      · subst same
        rw [Function.update_self]
        exact Or.inr ⟨nofun, fun found => absurd rfl found⟩
      · exact Or.inl (Function.update_of_ne same _ _)
  · intro op opMem
    refine (mem_ops_replace inFlight opMem).imp_right ?_
    rintro rfl
    exact ⟨trivial, fun job jobMem open_ =>
      sound.opJobs _ oldMem job (forgetFirst_rest forkSlot s.jobs rest jobMem) open_⟩

/-- A reorg that takes nothing away leaves what the tracker holds true. -/
theorem TrackerSound.reorg (sound : TrackerSound txOf depth s) {forkSlot : Nat}
    {forkHeight : Option Nat}
    (known : ∀ height, forkHeight = some height → height ≤ (s.chain.rollBack forkSlot).tipHeight)
    (nothing : NothingTakenAway txOf depth s (.reorg forkSlot)) :
    TrackerSound txOf depth { s with
      chain := s.chain.rollBack forkSlot
      lastKnownTipHeight := clampTip s.lastKnownTipHeight forkHeight
      jobs := (forgetFirst forkSlot s.jobs s.pending).1
      ops := .forget forkSlot (forgetFirst forkSlot s.jobs s.pending).2 :: s.ops } := by
  obtain ⟨opsStay, haveSlots, onlyOne⟩ := nothing
  -- after the first one is forgotten, no inclusion is above the fork
  have below : ∀ job ∈ s.pending, ((forgetFirst forkSlot s.jobs s.pending).1 job).foundHeight ≠ none →
      (forgetFirst forkSlot s.jobs s.pending).1 job = s.jobs job ∧
        (s.jobs job).rolledBack forkSlot = false := by
    intro job jobMem found
    rcases forgetFirst_spec forkSlot s.jobs s.pending with
      ⟨same, kept⟩ | ⟨cleared, clearedMem, rolledBack, changed⟩
    · exact ⟨congrFun same job, kept job jobMem⟩
    · rw [changed] at found ⊢
      by_cases isCleared : job = cleared
      · subst isCleared
        rw [Function.update_self] at found
        exact absurd rfl found
      · refine ⟨Function.update_of_ne isCleared _ _, ?_⟩
        refine Bool.eq_false_iff.mpr fun alsoRolledBack => isCleared ?_
        exact onlyOne cleared clearedMem rolledBack job jobMem alsoRolledBack
  have unchanged : ∀ job, s.final job = false →
      ((forgetFirst forkSlot s.jobs s.pending).1 job).foundHeight ≠ none → job ∈ s.pending := by
    intro job open_ found
    rcases forgetFirst_spec forkSlot s.jobs s.pending with ⟨same, -⟩ | ⟨cleared, -, -, changed⟩
    · rw [same] at found
      exact sound.tracked job open_ found
    · rw [changed] at found
      by_cases isCleared : job = cleared
      · subst isCleared
        rw [Function.update_self] at found
        exact absurd rfl found
      · rw [Function.update_of_ne isCleared] at found
        exact sound.tracked job open_ found
  refine ⟨clampTip_le known, ?_, unchanged, ?_, ?_⟩
  · intro job open_ height found
    have hasHeight : ((forgetFirst forkSlot s.jobs s.pending).1 job).foundHeight ≠ none := by
      rw [found]
      exact nofun
    have jobMem := unchanged job open_ hasHeight
    obtain ⟨same, kept⟩ := below job jobMem hasHeight
    simp only [same] at found hasHeight ⊢
    obtain ⟨slot, isSlot⟩ := Option.ne_none_iff_exists'.mp (haveSlots job jobMem hasHeight)
    have holds := sound.jobs job open_ height found
    rw [isSlot] at holds ⊢
    refine holds.rollBack ?_
    rw [TrackedJob.rolledBack, isSlot, Option.any_some, decide_eq_false_iff_not] at kept
    exact Nat.not_lt.mp kept
  · intro op opMem
    rcases List.mem_cons.mp opMem with rfl | old
    · exact trivial
    · exact opsStay op old
  · intro op opMem job jobMem open_
    rcases List.mem_cons.mp opMem with rfl | old
    · exact forgetFirst_rest forkSlot s.jobs s.pending jobMem
    · exact sound.opJobs op old job jobMem open_

/-- Finishing a job leaves fewer unfinished ones. -/
theorem unfinished_update (final : JobId → Bool) (job other : JobId)
    (open_ : Function.update final job true other = false) : final other = false := by
  by_cases same : other = job
  · subst same
    rw [Function.update_self] at open_
    cases open_
  · rwa [Function.update_of_ne same] at open_

theorem TrackerStep.sound {event : Option JobId}
    (step : TrackerStep txOf depth (NothingTakenAway txOf depth) s event s')
    (sound : TrackerSound txOf depth s) : TrackerSound txOf depth s' := by
  cases step with
  | grow b onTop =>
      refine ⟨fun tip known => Nat.le_trans (sound.tip tip known) onTop, ?_, sound.tracked,
        fun op opMem => (sound.ops op opMem).grow onTop, sound.opJobs⟩
      exact fun job open_ height found => (sound.jobs job open_ height found).grow b
  | track job slot height new open_ may =>
      refine sound.sameChain rfl (fun _ => id)
        (fun _ jobMem _ => List.mem_append_left _ jobMem) sound.tip ?_ fun _ => Or.inl
      intro other _
      by_cases same : other = job
      · subst same
        simp only [Function.update_self]
        exact Or.inr ⟨may, fun _ => List.mem_append_right _ List.mem_cons_self⟩
      · exact Or.inl (Function.update_of_ne same _ _)
  | finishElsewhere job =>
      exact sound.sameChain rfl (unfinished_update s.final job) (fun _ jobMem _ => jobMem)
        sound.tip (fun _ _ => Or.inl rfl) fun _ => Or.inl
  | onBlockIndexed b tipHeight onChain tipOnChain blockBelow watching =>
      refine sound.sameChain rfl (fun _ => id) (fun _ jobMem _ => jobMem) ?_
        (fun _ _ => Or.inl rfl) ?_
      · refine raiseTip_le sound.tip fun tip isTip => ?_
        cases tipHeight with
        | none => exact Option.some.inj isTip ▸ blockBelow
        | some height => exact tipOnChain tip isTip
      · intro op opMem
        rcases List.mem_cons.mp opMem with rfl | old
        · refine Or.inr ⟨?_, fun job jobMem _ => (List.mem_filter.mp jobMem).1⟩
          intro job jobMem _ h isHeight
          cases isHeight
          have isIn := (of_decide_eq_true (List.mem_filter.mp jobMem).2).2
          exact ⟨b, onChain, isIn, rfl, fun slot isSlot => Option.some.inj isSlot⟩
        · exact Or.inl old
  | recordNext before after slot height job rest inFlight =>
      have oldMem : .record slot height (job :: rest) ∈ s.ops :=
        inFlight ▸ List.mem_append_right _ List.mem_cons_self
      exact sound.setJob inFlight sound.tip
        (fun open_ h found => sound.ops _ oldMem job List.mem_cons_self open_ h found)
        List.mem_cons_self
        (fun was other otherMem => was other (List.mem_cons_of_mem _ otherMem))
        (List.subset_cons_self ..)
  | recordEnds before after slot height inFlight =>
      refine sound.sameChain rfl (fun _ => id) (fun _ jobMem _ => jobMem) sound.tip
        (fun _ _ => Or.inl rfl) ?_
      intro op opMem
      rcases List.mem_append.mp opMem with new | old
      · exact Or.inr (sound.matureOps new)
      · exact Or.inl (mem_ops_remove inFlight old)
  | onReorg forkSlot forkHeight known may => exact sound.reorg known may
  | forgetNext before after forkSlot rest inFlight => exact sound.forget inFlight
  | pollOnce idle watching =>
      refine sound.sameChain rfl (fun _ => id) (fun _ jobMem _ => jobMem) sound.tip
        (fun _ _ => Or.inl rfl) ?_
      intro op opMem
      rcases List.mem_cons.mp opMem with rfl | old
      · exact Or.inr ⟨nofun, fun _ jobMem => absurd jobMem List.not_mem_nil⟩
      · exact Or.inl old
  | tipAnswered before after height inFlight right =>
      refine sound.replaceOp inFlight (fun _ tip answered => ?_) (List.Subset.refl _)
      exact right tip (Option.some.inj answered)
  | tipResumes before after height inFlight =>
      have oldMem : .tipLookup (some height) ∈ s.ops :=
        inFlight ▸ List.mem_append_right _ List.mem_cons_self
      refine sound.sameChain rfl (fun _ => id) (fun _ jobMem _ => jobMem) ?_
        (fun _ _ => Or.inl rfl) ?_
      · exact raiseTip_le sound.tip fun tip isTip =>
          sound.ops _ oldMem tip (congrArg some isTip)
      · intro op opMem
        refine (mem_ops_replace inFlight opMem).imp_right ?_
        rintro rfl
        exact ⟨trivial, fun _ jobMem _ => jobMem⟩
  | tipFails before after answer inFlight =>
      exact sound.sameChain rfl (fun _ => id) (fun _ jobMem _ => jobMem) sound.tip
        (fun _ _ => Or.inl rfl) fun op opMem => Or.inl (mem_ops_remove inFlight opMem)
  | pollNext before after job rest inFlight =>
      split
      · exact sound.replaceOp inFlight (fun _ _ => nofun) (List.Subset.refl _)
      · exact sound.replaceOp inFlight (fun _ => trivial) (List.subset_cons_self ..)
  | pollEnds before after inFlight =>
      refine sound.sameChain rfl (fun _ => id) (fun _ jobMem _ => jobMem) sound.tip
        (fun _ _ => Or.inl rfl) ?_
      intro op opMem
      rcases List.mem_append.mp opMem with new | old
      · exact Or.inr (sound.matureOps new)
      · exact Or.inl (mem_ops_remove inFlight old)
  | txAnswered before after job rest answer inFlight right =>
      refine sound.replaceOp inFlight (fun _ _ a answered => ?_) (List.Subset.refl _)
      exact Option.some.inj answered ▸ right
  | txFound before after job rest slot height inFlight =>
      have oldMem : .txLookup job rest (some (.found slot height)) ∈ s.ops :=
        inFlight ▸ List.mem_append_right _ List.mem_cons_self
      refine sound.setJob inFlight sound.tip ?_ List.mem_cons_self (fun _ => trivial)
        (List.subset_cons_self ..)
      intro open_ h found
      exact sound.ops _ oldMem open_ _ rfl slot h (congrArg (TxAnswer.found slot) found)
  | txMissing before after job rest answer inFlight missing =>
      exact sound.replaceOp inFlight (fun _ => trivial) (List.subset_cons_self ..)
  | txDropped before after job rest inFlight =>
      exact sound.replaceOp inFlight (fun _ => trivial) (List.Subset.refl _)
  | dropped before after job rest inFlight =>
      exact sound.finishJob inFlight (Function.update_self ..) (unfinished_update s.final job)
        (fun _ => trivial) (List.subset_cons_self ..)
  | matureSkips before after revalidate tip job rest inFlight shallow =>
      exact sound.replaceOp inFlight id (List.subset_cons_self ..)
  | matureConfirms before after revalidate tip height job rest inFlight found deep seen =>
      refine sound.replaceOp inFlight (fun was => ⟨was, deep, fun open_ => ?_⟩)
        (List.Subset.refl _)
      exact (sound.jobs job open_ height found).anySlot
  | matureRechecks before after tip height job rest inFlight found deep unseen =>
      refine sound.replaceOp inFlight (fun was => ⟨was, deep, fun open_ => ⟨?_, nofun⟩⟩)
        (List.Subset.refl _)
      exact (sound.jobs job open_ height found).anySlot
  | matureEnds before after revalidate tip inFlight =>
      exact sound.sameChain rfl (fun _ => id) (fun _ jobMem _ => jobMem) sound.tip
        (fun _ _ => Or.inl rfl) fun op opMem => Or.inl (mem_ops_remove inFlight opMem)
  | recheckAnswered before after tip height job rest answer inFlight right =>
      refine sound.replaceOp inFlight (fun was => ⟨was.1, was.2.1, fun open_ =>
        ⟨(was.2.2 open_).1, fun a answered => ?_⟩⟩) (List.Subset.refl _)
      exact Option.some.inj answered ▸ right
  | recheckSame before after tip height job rest slot found inFlight same =>
      exact sound.setJob inFlight sound.tip (sound.jobs job) List.mem_cons_self
        (fun was => ⟨was.1, was.2.1, fun open_ => (was.2.2 open_).1⟩) (List.Subset.refl _)
  | recheckMoved before after tip height moved job rest slot inFlight different =>
      have oldMem : .recheck tip job height rest (some (.found slot (some moved))) ∈ s.ops :=
        inFlight ▸ List.mem_append_right _ List.mem_cons_self
      have included : s.final job = false → ∀ h, some moved = some h →
          s.chain.Holds (txOf job) slot h := fun open_ h isMoved =>
        ((sound.ops _ oldMem).2.2 open_).2 _ rfl slot h
          (congrArg (TxAnswer.found slot) isMoved)
      split
      · rename_i deep
        exact sound.setJob inFlight sound.tip included List.mem_cons_self
          (fun was => ⟨was.1, deep, fun open_ => (included open_ moved rfl).anySlot⟩)
          (List.Subset.refl _)
      · exact sound.setJob inFlight sound.tip included List.mem_cons_self
          (fun was => was.1) (List.subset_cons_self ..)
  | recheckGone before after tip height job rest inFlight =>
      exact sound.setJob inFlight nofun (fun _ => nofun) List.mem_cons_self
        (fun was => was.1) (List.subset_cons_self ..)
  | recheckFails before after tip height job rest answer inFlight =>
      exact sound.replaceOp inFlight (fun was => was.1) (List.subset_cons_self ..)
  | confirm before after revalidate tip height job rest inFlight open_ =>
      exact sound.finishJob inFlight (Function.update_self ..) (unfinished_update s.final job)
        (fun was => was.1) (List.subset_cons_self ..)
  | confirmedElsewhere before after revalidate tip height job rest inFlight done =>
      exact sound.finishJob inFlight done (fun _ => id) (fun was => was.1)
        (List.subset_cons_self ..)
  | confirmFails before after revalidate tip height job rest inFlight =>
      exact sound.replaceOp inFlight (fun was => was.1) (List.subset_cons_self ..)

theorem TrackerRun.sound (run : TrackerRun txOf depth (NothingTakenAway txOf depth) s) :
    TrackerSound txOf depth s := by
  induction run with
  | start chain final =>
      exact ⟨nofun, fun _ _ _ => nofun, fun _ _ found => absurd rfl found,
        fun _ opMem => absurd opMem List.not_mem_nil,
        fun _ opMem => absurd opMem List.not_mem_nil⟩
  | step before step ih => exact step.sound ih

/-- Where a reorg takes nothing away from the operations in flight, a job becomes
confirmed only with its transaction deep enough in the chain, and every inclusion
the tracker holds is one of the chain. -/
theorem confirmed_included
    (run : TrackerRun txOf depth (NothingTakenAway txOf depth) s) :
    (∀ job s', TrackerStep txOf depth (NothingTakenAway txOf depth) s (some job) s' →
      ∃ height, s.chain.Holds (txOf job) none height ∧
        height + depth ≤ s.chain.tipHeight + 1) ∧
      ∀ job, s.final job = false → ∀ height, (s.jobs job).foundHeight = some height →
        s.chain.Holds (txOf job) (s.jobs job).foundSlot height := by
  have sound := run.sound
  refine ⟨?_, sound.jobs⟩
  intro job s' step
  cases step with
  | confirm before after revalidate tip height job rest inFlight open_ =>
      have opMem : .confirming revalidate tip job height rest ∈ s.ops :=
        inFlight ▸ List.mem_append_right _ List.mem_cons_self
      obtain ⟨below, deep, holds⟩ := sound.ops _ opMem
      exact ⟨height, holds open_, Nat.le_trans deep (Nat.succ_le_succ below)⟩

end Runs

/-! A transaction `t` in the block after the fork point, and the block of another
fork at the same height. -/

def sentTx : TxHash := text "t"

def forkPoint : ReportedBlock := ⟨40, 4, []⟩

def includingBlock : ReportedBlock := ⟨50, 5, [sentTx]⟩

def otherForkBlock : ReportedBlock := ⟨51, 5, []⟩

/-- A job whose transaction is reported in a block is about to be confirmed. -/
theorem tracker_confirming (allowed : TrackerState → TrackerInput → Prop)
    (may : ∀ s, allowed s (.track "j" none none)) :
    ∃ s s', TrackerRun (fun _ => sentTx) 1 allowed s ∧ s.chain = [includingBlock, forkPoint] ∧
      TrackerStep (fun _ => sentTx) 1 allowed s (some "j") s' := by
  refine ⟨_, _, .step (.step (.step (.step (.step
    (.start [includingBlock, forkPoint] fun _ => false)
    (.track _ "j" none none List.not_mem_nil rfl (may _)))
    (.onBlockIndexed _ includingBlock none List.mem_cons_self nofun (by decide) (List.cons_ne_nil _ _)))
    (.recordNext _ [] [] (some 50) (some 5) "j" [] rfl))
    (.recordEnds _ [] [] (some 50) (some 5) rfl))
    (.matureConfirms _ [] [] false 5 5 "j" [] rfl rfl (by decide) nofun), rfl,
    .confirm _ [] [] false 5 5 "j" [] rfl rfl⟩

theorem confirmed_included_sample :
    ∃ s s', TrackerStep (fun _ => sentTx) 1 (NothingTakenAway (fun _ => sentTx) 1) s (some "j") s' ∧
      ∃ height, s.chain.Holds sentTx none height ∧ height + 1 ≤ s.chain.tipHeight + 1 := by
  obtain ⟨s, s', run, -, step⟩ :=
    tracker_confirming (NothingTakenAway (fun _ => sentTx) 1) fun _ => nofun
  exact ⟨s, s', step, (confirmed_included run).1 "j" s' step⟩

/-- A lookup answers from the old fork, a reorg takes its block away, and the
answer is recorded afterwards: the next block of the new fork confirms the job. -/
theorem confirmed_rolledBack :
    ∃ s s', TrackerRun (fun _ => sentTx) 1 (fun _ _ => True) s ∧
      TrackerStep (fun _ => sentTx) 1 (fun _ _ => True) s (some "j") s' ∧
      ∀ b ∈ s.chain, sentTx ∉ b.txHashes := by
  refine ⟨_, _, .step (.step (.step (.step (.step (.step (.step (.step (.step (.step (.step (.step
    (.step (.step (.step
    (.start [includingBlock, forkPoint] fun _ => false)
    (.track _ "j" none none List.not_mem_nil rfl trivial))
    (.pollOnce _ rfl (List.cons_ne_nil _ _)))
    (.tipAnswered _ [] [] (some 5) rfl (by rintro _ ⟨⟩; decide)))
    (.tipResumes _ [] [] (some 5) rfl))
    (.pollNext _ [] [] "j" [] rfl))
    (.txAnswered _ [] [] "j" [] (.found (some 50) (some 5)) rfl ?_))
    (.onReorg _ 40 (some 4) (by rintro _ ⟨⟩; decide) trivial))
    (.txFound _ [.forget 40 []] [] "j" [] (some 50) (some 5) rfl))
    (.pollEnds _ [.forget 40 []] [] rfl))
    (.matureSkips _ [] [.forget 40 []] true 4 "j" [] rfl (by rintro _ ⟨⟩; decide)))
    (.matureEnds _ [] [.forget 40 []] true 4 rfl))
    (.grow _ otherForkBlock (by decide)))
    (.onBlockIndexed _ otherForkBlock none List.mem_cons_self nofun (by decide)
      (List.cons_ne_nil _ _)))
    (.recordEnds _ [] [.forget 40 []] (some 51) (some 5) rfl))
    (.matureConfirms _ [] [.forget 40 []] false 5 5 "j" [] rfl rfl (by decide) nofun),
    .confirm _ [] [.forget 40 []] false 5 5 "j" [] rfl rfl, by decide +kernel⟩
  rintro slot height ⟨⟩
  exact ⟨includingBlock, List.mem_cons_self, List.mem_singleton_self _, rfl, by rintro _ ⟨⟩; rfl⟩

end Odatano
