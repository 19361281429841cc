import Mathlib.Logic.Relation
import Odatano.ChainData
import Odatano.KeyedTable

/-!
# Epoch snapshots

`maybeSnapshotEpoch` and `handleReorg` of `srv/blockchain/crawler/crawler.ts` over the
snapshot tables that `snapshotEpoch` of `srv/blockchain/cardano-indexer.ts` fills.  A
snapshot is read and written outside the transaction of its block, and it goes on after
its caller timed out.
-/

namespace Odatano

/-! ## Tables -/

/-- The block a snapshot is taken at; no hash where the provider reports the current
state. -/
structure SnapshotPoint where
  slot : Nat
  time : Nat
  hash : Option BlockHash
deriving DecidableEq

/-- A `PoolEpochSnapshots` or `DrepEpochSnapshots` row. -/
structure EntitySnapshotRow where
  id : String
  epoch : Nat
  takenAt : SnapshotPoint
deriving DecidableEq

def EntitySnapshotRow.key (row : EntitySnapshotRow) : String × Nat := (row.id, row.epoch)

structure EpochLedgerSnapshotRow where
  epoch : Nat
  takenAt : SnapshotPoint
deriving DecidableEq

structure SnapshotTables where
  pools : Table EntitySnapshotRow.key
  dreps : Table EntitySnapshotRow.key
  ledgers : Table EpochLedgerSnapshotRow.epoch

namespace SnapshotTables

def empty : SnapshotTables := ⟨.empty, .empty, .empty⟩

/-- Epoch and block of every row. -/
def taken (tables : SnapshotTables) : List (Nat × SnapshotPoint) :=
  (tables.pools.rows ++ tables.dreps.rows).map (fun row => (row.epoch, row.takenAt)) ++
    tables.ledgers.rows.map fun row => (row.epoch, row.takenAt)

/-- Whether a snapshot of the epoch exists, as `maybeSnapshotEpoch` checks it. -/
def existing (tables : SnapshotTables) (epoch : Nat) : Bool :=
  (tables.ledgers.rows.any fun row => row.epoch = epoch) ||
    tables.pools.rows.any fun row => row.epoch = epoch

/-- The transaction of `snapshotEpoch`. -/
def write (tables : SnapshotTables) (epoch : Nat) (takenAt : SnapshotPoint)
    (poolIds drepIds : List String) : SnapshotTables where
  pools := tables.pools.upsertAll (poolIds.map fun id => ⟨id, epoch, takenAt⟩)
  dreps := tables.dreps.upsertAll (drepIds.map fun id => ⟨id, epoch, takenAt⟩)
  ledgers := tables.ledgers.upsert ⟨epoch, takenAt⟩

/-- What `handleReorg` deletes. -/
def deleteAfter (tables : SnapshotTables) (forkSlot : Nat) : SnapshotTables where
  pools := tables.pools.delete fun row => forkSlot < row.takenAt.slot
  dreps := tables.dreps.delete fun row => forkSlot < row.takenAt.slot
  ledgers := tables.ledgers.delete fun row => forkSlot < row.takenAt.slot

end SnapshotTables

/-! ## Runs -/

inductive SnapshotStage
  | checking
  | waiting
  /-- The epoch has a snapshot, or its work settled; the mark comes next. -/
  | settled
deriving DecidableEq

/-- `snapshotInFlight`. -/
structure SnapshotAttempt where
  epoch : Nat
  takenAt : SnapshotPoint
  stage : SnapshotStage
deriving DecidableEq

/-- A call of `snapshotEpoch` that has not settled. -/
structure SnapshotWork where
  epoch : Nat
  takenAt : SnapshotPoint
  /-- Its caller has not timed out. -/
  awaited : Bool
deriving DecidableEq

structure SnapshotState where
  /-- The followed chain, newest block first. -/
  chain : List BlockData
  tables : SnapshotTables
  snapshotedEpoch : Option Nat
  snapshotInFlight : Option SnapshotAttempt
  works : List SnapshotWork
  /-- Rollbacks that are committed and have not yet reset the mark. -/
  resets : Nat
  /-- Epochs whose snapshot a rollback removed, with no attempt begun since. -/
  removed : List Nat

def SnapshotState.start : SnapshotState := ⟨[], .empty, none, none, [], 0, []⟩

namespace SnapshotState

/-- The attempt that waits for a work sees that it settled. -/
def settle (s : SnapshotState) (work : SnapshotWork) : Option SnapshotAttempt :=
  if work.awaited then s.snapshotInFlight.map fun attempt => { attempt with stage := .settled }
  else s.snapshotInFlight

/-- The attempt that waits for a work fails with it. -/
def fail (s : SnapshotState) (work : SnapshotWork) : Option SnapshotAttempt :=
  if work.awaited then none else s.snapshotInFlight

/-- The transaction of `handleReorg`, while readers stored some more blocks beyond the
fork. -/
def handleReorg (s : SnapshotState) (forkSlot strayBlocks : Nat) : SnapshotState :=
  let staleBlocks := s.chain.filter fun block => forkSlot < block.slotOrZero
  let rolledBack := { s with
    chain := s.chain.filter fun block => block.slotOrZero ≤ forkSlot
    resets := s.resets + 1 }
  if 0 < staleBlocks.length + strayBlocks then
    { rolledBack with
      tables := s.tables.deleteAfter forkSlot
      removed :=
        (s.tables.taken.filter fun row => forkSlot < row.2.slot).map Prod.fst ++ s.removed }
  else rolledBack

end SnapshotState

/-- The block is on the followed chain. -/
def SnapshotState.OnChain (s : SnapshotState) (takenAt : SnapshotPoint) : Prop :=
  ∃ block ∈ s.chain, block.slotOrZero = takenAt.slot

/-- The point of the snapshot that a block triggers. -/
def snapshotPoint (block : BlockData) (fromLedger : Bool) : SnapshotPoint :=
  ⟨block.slotOrZero, block.time, if fromLedger then some block.hash else none⟩

/-- Which blocks, snapshot attempts and rollbacks may come in a state. -/
structure SnapshotRules where
  block : SnapshotState → Prop
  attempt : SnapshotState → Nat → Prop
  rollback : SnapshotState → Nat → Prop

section Steps

variable (allowed : SnapshotRules)

inductive SnapshotStep : SnapshotState → SnapshotState → Prop
  | persistBlock (s : SnapshotState) (block : BlockData) (may : allowed.block s)
      (later : ∀ old ∈ s.chain, old.slotOrZero < block.slotOrZero) :
      SnapshotStep s { s with chain := block :: s.chain }
  -- a block near the tip starts a snapshot
  | persistSnapshot (s : SnapshotState) (block : BlockData) (epoch : Nat) (fromLedger : Bool)
      (may : allowed.block s) (mayAttempt : allowed.attempt s epoch)
      (later : ∀ old ∈ s.chain, old.slotOrZero < block.slotOrZero)
      (dated : block.epoch = some epoch) (unmarked : s.snapshotedEpoch ≠ some epoch)
      (idle : s.snapshotInFlight = none) :
      SnapshotStep s
        { s with
          chain := block :: s.chain
          snapshotInFlight := some ⟨epoch, snapshotPoint block fromLedger, .checking⟩
          removed := s.removed.filter fun e => e ≠ epoch }
  | found (s : SnapshotState) (attempt : SnapshotAttempt)
      (running : s.snapshotInFlight = some attempt) (checking : attempt.stage = .checking)
      (exist : s.tables.existing attempt.epoch = true) :
      SnapshotStep s { s with snapshotInFlight := some { attempt with stage := .settled } }
  | missing (s : SnapshotState) (attempt : SnapshotAttempt)
      (running : s.snapshotInFlight = some attempt) (checking : attempt.stage = .checking)
      (absent : s.tables.existing attempt.epoch = false) :
      SnapshotStep s
        { s with
          snapshotInFlight := some { attempt with stage := .waiting }
          works := ⟨attempt.epoch, attempt.takenAt, true⟩ :: s.works }
  | workWrites (s : SnapshotState) (before after : List SnapshotWork) (work : SnapshotWork)
      (poolIds drepIds : List String) (running : s.works = before ++ work :: after) :
      SnapshotStep s
        { s with
          tables := s.tables.write work.epoch work.takenAt poolIds drepIds
          works := before ++ after
          snapshotInFlight := s.settle work }
  -- no backend can read pools and DReps
  | workSkips (s : SnapshotState) (before after : List SnapshotWork) (work : SnapshotWork)
      (running : s.works = before ++ work :: after) :
      SnapshotStep s { s with works := before ++ after, snapshotInFlight := s.settle work }
  | workFails (s : SnapshotState) (before after : List SnapshotWork) (work : SnapshotWork)
      (running : s.works = before ++ work :: after) :
      SnapshotStep s { s with works := before ++ after, snapshotInFlight := s.fail work }
  -- the work goes on
  | timeout (s : SnapshotState) (attempt : SnapshotAttempt)
      (running : s.snapshotInFlight = some attempt) (waiting : attempt.stage = .waiting) :
      SnapshotStep s
        { s with
          snapshotInFlight := none
          works := s.works.map fun work => { work with awaited := false } }
  | mark (s : SnapshotState) (attempt : SnapshotAttempt)
      (running : s.snapshotInFlight = some attempt) (settled : attempt.stage = .settled) :
      SnapshotStep s
        { s with snapshotedEpoch := some attempt.epoch, snapshotInFlight := none }
  -- one of the queries of the attempt fails
  | attemptFails (s : SnapshotState) (attempt : SnapshotAttempt)
      (running : s.snapshotInFlight = some attempt) (queries : attempt.stage ≠ .waiting) :
      SnapshotStep s { s with snapshotInFlight := none }
  | rollback (s : SnapshotState) (forkSlot strayBlocks : Nat)
      (may : allowed.rollback s forkSlot) : SnapshotStep s (s.handleReorg forkSlot strayBlocks)
  | resetMark (s : SnapshotState) (resets : Nat) (pending : s.resets = resets + 1) :
      SnapshotStep s { s with resets, snapshotedEpoch := none }
  -- the process dies, with its network calls
  | restart (s : SnapshotState) :
      SnapshotStep s
        { s with snapshotedEpoch := none, snapshotInFlight := none, works := [], resets := 0 }

def SnapshotRun (s : SnapshotState) : Prop :=
  Relation.ReflTransGen (SnapshotStep allowed) .start s

end Steps

/-- A rollback goes behind no snapshot that has not settled, an epoch has no two
unsettled snapshots, and no block comes between a rollback and the reset of the mark. -/
def SettledSnapshots : SnapshotRules where
  block s := s.resets = 0
  attempt s epoch := ∀ work ∈ s.works, work.epoch ≠ epoch
  rollback s forkSlot :=
    (∀ work ∈ s.works, work.takenAt.slot ≤ forkSlot) ∧
      ∀ attempt, s.snapshotInFlight = some attempt → attempt.takenAt.slot ≤ forkSlot

/-! ## The tables -/

namespace SnapshotTables

variable {tables : SnapshotTables} {epoch forkSlot : Nat} {takenAt : SnapshotPoint}
  {row : Nat × SnapshotPoint}

theorem mem_taken_ledger {ledger : EpochLedgerSnapshotRow}
    (ledgerMem : ledger ∈ tables.ledgers.rows) : (ledger.epoch, ledger.takenAt) ∈ tables.taken :=
  List.mem_append_right _ (List.mem_map_of_mem ledgerMem)

theorem mem_taken : row ∈ tables.taken ↔
    (∃ pool ∈ tables.pools.rows, (pool.epoch, pool.takenAt) = row) ∨
      (∃ drep ∈ tables.dreps.rows, (drep.epoch, drep.takenAt) = row) ∨
        ∃ ledger ∈ tables.ledgers.rows, (ledger.epoch, ledger.takenAt) = row := by
  simp only [taken, List.map_append, List.mem_append, List.mem_map, or_assoc]

theorem mem_taken_write {poolIds drepIds : List String}
    (rowMem : row ∈ (tables.write epoch takenAt poolIds drepIds).taken) :
    row = (epoch, takenAt) ∨ row ∈ tables.taken := by
  rcases mem_taken.mp rowMem with ⟨pool, poolMem, rfl⟩ | ⟨drep, drepMem, rfl⟩ |
    ⟨ledger, ledgerMem, rfl⟩
  · rcases Table.mem_upsertAll poolMem with old | new
    · exact .inr (mem_taken.mpr (.inl ⟨pool, old, rfl⟩))
    · obtain ⟨id, -, rfl⟩ := List.mem_map.mp new
      exact .inl rfl
  · rcases Table.mem_upsertAll drepMem with old | new
    · exact .inr (mem_taken.mpr (.inr (.inl ⟨drep, old, rfl⟩)))
    · obtain ⟨id, -, rfl⟩ := List.mem_map.mp new
      exact .inl rfl
  · rcases Table.mem_upsert.mp ledgerMem with rfl | ⟨old, -⟩
    · exact .inl rfl
    · exact .inr (mem_taken_ledger old)

theorem mem_taken_deleteAfter :
    row ∈ (tables.deleteAfter forkSlot).taken ↔ row ∈ tables.taken ∧ row.2.slot ≤ forkSlot := by
  simp only [mem_taken, deleteAfter, Table.mem_delete, decide_eq_false_iff_not, Nat.not_lt]
  constructor
  · rintro (⟨pool, ⟨old, kept⟩, rfl⟩ | ⟨drep, ⟨old, kept⟩, rfl⟩ | ⟨ledger, ⟨old, kept⟩, rfl⟩)
    · exact ⟨.inl ⟨pool, old, rfl⟩, kept⟩
    · exact ⟨.inr (.inl ⟨drep, old, rfl⟩), kept⟩
    · exact ⟨.inr (.inr ⟨ledger, old, rfl⟩), kept⟩
  · rintro ⟨⟨pool, old, rfl⟩ | ⟨drep, old, rfl⟩ | ⟨ledger, old, rfl⟩, kept⟩
    · exact .inl ⟨pool, ⟨old, kept⟩, rfl⟩
    · exact .inr (.inl ⟨drep, ⟨old, kept⟩, rfl⟩)
    · exact .inr (.inr ⟨ledger, ⟨old, kept⟩, rfl⟩)

end SnapshotTables

/-! ## The invariant -/

structure SnapshotState.Sound (s : SnapshotState) : Prop where
  sorted : s.chain.Pairwise fun later earlier => earlier.slotOrZero < later.slotOrZero
  onChain : ∀ row ∈ s.tables.taken, s.OnChain row.2
  -- every row of an epoch was written with the ledger row
  ledgered : ∀ row ∈ s.tables.taken, ⟨row.1, row.2⟩ ∈ s.tables.ledgers.rows
  worksOnChain : ∀ work ∈ s.works, s.OnChain work.takenAt
  worksUnwritten : ∀ work ∈ s.works, ∀ row ∈ s.tables.taken, row.1 ≠ work.epoch
  worksOnce : (s.works.map SnapshotWork.epoch).Nodup
  attemptOnChain : ∀ attempt, s.snapshotInFlight = some attempt → s.OnChain attempt.takenAt
  -- the snapshot of its epoch is no younger than the attempt
  attemptLatest : ∀ attempt, s.snapshotInFlight = some attempt → ∀ row ∈ s.tables.taken,
    row.1 = attempt.epoch → row.2.slot ≤ attempt.takenAt.slot
  attemptWork : ∀ attempt, s.snapshotInFlight = some attempt → ∀ work ∈ s.works,
    work.epoch = attempt.epoch → attempt.stage ≠ .checking ∧ work.takenAt = attempt.takenAt
  attemptSince : ∀ attempt, s.snapshotInFlight = some attempt → attempt.epoch ∉ s.removed
  marked : s.resets = 0 → ∀ epoch, s.snapshotedEpoch = some epoch → epoch ∉ s.removed

theorem SnapshotTables.existing_of_mem_taken {tables : SnapshotTables} {row : Nat × SnapshotPoint}
    (ledgered : ⟨row.1, row.2⟩ ∈ tables.ledgers.rows) : tables.existing row.1 = true := by
  rw [existing, Bool.or_eq_true]
  exact .inl (List.any_eq_true.mpr ⟨_, ledgered, decide_eq_true rfl⟩)

namespace SnapshotState.Sound

variable {s : SnapshotState}

theorem block (sound : s.Sound) {block : BlockData}
    (later : ∀ old ∈ s.chain, old.slotOrZero < block.slotOrZero) :
    SnapshotState.Sound { s with chain := block :: s.chain } :=
  have extended : ∀ takenAt, s.OnChain takenAt →
      SnapshotState.OnChain { s with chain := block :: s.chain } takenAt :=
    fun _ ⟨old, oldMem, slot⟩ => ⟨old, List.mem_cons_of_mem _ oldMem, slot⟩
  { sound with
    sorted := List.pairwise_cons.mpr ⟨later, sound.sorted⟩
    onChain := fun row rowMem => extended _ (sound.onChain row rowMem)
    worksOnChain := fun work workMem => extended _ (sound.worksOnChain work workMem)
    attemptOnChain := fun attempt running => extended _ (sound.attemptOnChain attempt running) }

theorem noAttempt (sound : s.Sound) : SnapshotState.Sound { s with snapshotInFlight := none } :=
  { sound with
    attemptOnChain := nofun
    attemptLatest := nofun
    attemptWork := nofun
    attemptSince := nofun }

/-- An attempt starts at the newest block. -/
theorem attempt (sound : s.Sound) {block : BlockData} {epoch : Nat} {fromLedger : Bool}
    (free : ∀ work ∈ s.works, work.epoch ≠ epoch)
    (later : ∀ old ∈ s.chain, old.slotOrZero < block.slotOrZero) :
    SnapshotState.Sound
      { s with
        chain := block :: s.chain
        snapshotInFlight := some ⟨epoch, snapshotPoint block fromLedger, .checking⟩
        removed := s.removed.filter fun e => e ≠ epoch } := by
  refine { sound.block later with
    attemptOnChain := ?_, attemptLatest := ?_, attemptWork := ?_, attemptSince := ?_,
    marked := ?_ }
  · rintro _ ⟨⟩
    exact ⟨block, List.mem_cons_self, rfl⟩
  · rintro _ ⟨⟩ row rowMem -
    obtain ⟨old, oldMem, slot⟩ := sound.onChain row rowMem
    exact slot ▸ Nat.le_of_lt (later old oldMem)
  · rintro _ ⟨⟩ work workMem same
    exact absurd same (free work workMem)
  · rintro _ ⟨⟩ removed
    exact of_decide_eq_true (List.mem_filter.mp removed).2 rfl
  · intro none e marked removed
    exact sound.marked none e marked (List.mem_filter.mp removed).1

/-- The attempt in flight moves on. -/
theorem stage (sound : s.Sound) {attempt : SnapshotAttempt}
    (running : s.snapshotInFlight = some attempt) {stage : SnapshotStage}
    (onward : stage ≠ .checking) :
    SnapshotState.Sound { s with snapshotInFlight := some { attempt with stage } } := by
  refine { sound with
    attemptOnChain := ?_, attemptLatest := ?_, attemptWork := ?_, attemptSince := ?_ }
  · rintro _ ⟨⟩
    exact sound.attemptOnChain attempt running
  · rintro _ ⟨⟩
    exact sound.attemptLatest attempt running
  · rintro _ ⟨⟩ work workMem same
    exact ⟨onward, (sound.attemptWork attempt running work workMem same).2⟩
  · rintro _ ⟨⟩
    exact sound.attemptSince attempt running

theorem settle (sound : s.Sound) (work : SnapshotWork) :
    SnapshotState.Sound { s with snapshotInFlight := s.settle work } := by
  rw [SnapshotState.settle]
  split
  · cases running : s.snapshotInFlight with
    | none => exact sound.noAttempt
    | some attempt => exact sound.stage running nofun
  · exact sound

theorem fail (sound : s.Sound) (work : SnapshotWork) :
    SnapshotState.Sound { s with snapshotInFlight := s.fail work } := by
  rw [SnapshotState.fail]
  split
  · exact sound.noAttempt
  · exact sound

/-- Works that settle, or are no longer awaited. -/
theorem works (sound : s.Sound) {works : List SnapshotWork}
    (fewer : (works.map SnapshotWork.epoch).Sublist (s.works.map SnapshotWork.epoch))
    (known : ∀ work ∈ works, ∃ awaited, { work with awaited } ∈ s.works) :
    SnapshotState.Sound { s with works } :=
  { sound with
    worksOnChain := fun work workMem =>
      (known work workMem).elim fun awaited old => sound.worksOnChain { work with awaited } old
    worksUnwritten := fun work workMem =>
      (known work workMem).elim fun awaited old => sound.worksUnwritten { work with awaited } old
    worksOnce := sound.worksOnce.sublist fewer
    attemptWork := fun attempt running work workMem =>
      (known work workMem).elim fun awaited old =>
        sound.attemptWork attempt running { work with awaited } old }

theorem ended (sound : s.Sound) {before after : List SnapshotWork} {work : SnapshotWork}
    (running : s.works = before ++ work :: after) :
    SnapshotState.Sound { s with works := before ++ after } := by
  refine sound.works (by simp [running]) fun other otherMem => ⟨other.awaited, ?_⟩
  rw [running]
  simp only [List.mem_append, List.mem_cons] at otherMem ⊢
  exact otherMem.imp_right .inr

/-- The attempt finds no snapshot and begins its work. -/
theorem missing (sound : s.Sound) {attempt : SnapshotAttempt}
    (running : s.snapshotInFlight = some attempt) (checking : attempt.stage = .checking)
    (absent : s.tables.existing attempt.epoch = false) :
    SnapshotState.Sound
      { s with
        snapshotInFlight := some { attempt with stage := .waiting }
        works := ⟨attempt.epoch, attempt.takenAt, true⟩ :: s.works } := by
  have staged := @stage s sound attempt running .waiting nofun
  refine { staged with
    worksOnChain := ?_, worksUnwritten := ?_, worksOnce := ?_, attemptWork := ?_ }
  · intro work workMem
    rcases List.mem_cons.mp workMem with rfl | old
    · exact sound.attemptOnChain attempt running
    · exact sound.worksOnChain work old
  · intro work workMem row rowMem same
    rcases List.mem_cons.mp workMem with rfl | old
    · have exist := SnapshotTables.existing_of_mem_taken (sound.ledgered row rowMem)
      rw [same] at exist
      cases absent.symm.trans exist
    · exact sound.worksUnwritten work old row rowMem same
  · refine List.nodup_cons.mpr ⟨fun again => ?_, sound.worksOnce⟩
    obtain ⟨work, workMem, same⟩ := List.mem_map.mp again
    exact (sound.attemptWork attempt running work workMem same).1 checking
  · rintro _ ⟨⟩ work workMem same
    rcases List.mem_cons.mp workMem with rfl | old
    · exact ⟨nofun, rfl⟩
    · exact ⟨nofun, (sound.attemptWork attempt running work old same).2⟩

/-- A work writes the rows of its epoch, which has none. -/
theorem write (sound : s.Sound) {before after : List SnapshotWork} {work : SnapshotWork}
    {poolIds drepIds : List String} (running : s.works = before ++ work :: after) :
    SnapshotState.Sound
      { s with
        tables := s.tables.write work.epoch work.takenAt poolIds drepIds
        works := before ++ after } := by
  have workMem : work ∈ s.works := running ▸ List.mem_append_right _ List.mem_cons_self
  have nodup := sound.worksOnce
  rw [running, List.map_append, List.map_cons, List.nodup_middle, List.nodup_cons,
    ← List.map_append] at nodup
  have kept := sound.ended running
  have ledger : ⟨work.epoch, work.takenAt⟩ ∈
      (s.tables.write work.epoch work.takenAt poolIds drepIds).ledgers.rows :=
    Table.mem_upsert.mpr (.inl rfl)
  refine { kept with
    onChain := ?_, ledgered := ?_, worksUnwritten := ?_, attemptLatest := ?_ }
  · intro row rowMem
    rcases SnapshotTables.mem_taken_write rowMem with rfl | old
    · exact sound.worksOnChain work workMem
    · exact sound.onChain row old
  · intro row rowMem
    rcases SnapshotTables.mem_taken_write rowMem with rfl | old
    · exact ledger
    · exact Table.mem_upsert.mpr
        (.inr ⟨sound.ledgered row old, sound.worksUnwritten work workMem row old⟩)
  · intro other otherMem row rowMem same
    rcases SnapshotTables.mem_taken_write rowMem with rfl | old
    · exact nodup.1 (List.mem_map.mpr ⟨other, otherMem, same.symm⟩)
    · exact kept.worksUnwritten other otherMem row old same
  · intro attempt inFlight row rowMem same
    rcases SnapshotTables.mem_taken_write rowMem with rfl | old
    · exact (sound.attemptWork attempt inFlight work workMem same).2 ▸ Nat.le_refl _
    · exact sound.attemptLatest attempt inFlight row old same

theorem onChain_handleReorg {takenAt : SnapshotPoint} {forkSlot strayBlocks : Nat}
    (onChain : s.OnChain takenAt) (kept : takenAt.slot ≤ forkSlot) :
    (s.handleReorg forkSlot strayBlocks).OnChain takenAt := by
  obtain ⟨block, blockMem, slot⟩ := onChain
  have blockMem' : block ∈ (s.handleReorg forkSlot strayBlocks).chain := by
    rw [SnapshotState.handleReorg]
    dsimp only
    split <;> exact List.mem_filter.mpr ⟨blockMem, decide_eq_true (slot ▸ kept)⟩
  exact ⟨block, blockMem', slot⟩

/-- The rows that a rollback keeps were taken at the blocks that it keeps. -/
theorem mem_taken_handleReorg (sound : s.Sound) {forkSlot strayBlocks : Nat}
    {row : Nat × SnapshotPoint} :
    row ∈ (s.handleReorg forkSlot strayBlocks).tables.taken ↔
      row ∈ s.tables.taken ∧ row.2.slot ≤ forkSlot := by
  rw [SnapshotState.handleReorg]
  dsimp only
  split
  · exact SnapshotTables.mem_taken_deleteAfter
  · rename_i none
    refine ⟨fun old => ⟨old, ?_⟩, And.left⟩
    obtain ⟨block, blockMem, slot⟩ := sound.onChain row old
    by_contra beyond
    have stale : block ∈ s.chain.filter fun block => forkSlot < block.slotOrZero :=
      List.mem_filter.mpr ⟨blockMem, decide_eq_true (slot ▸ Nat.lt_of_not_le beyond)⟩
    exact none (Nat.add_pos_left (List.length_pos_of_mem stale) _)

theorem mem_removed_handleReorg {forkSlot strayBlocks epoch : Nat}
    (removed : epoch ∈ (s.handleReorg forkSlot strayBlocks).removed) :
    (∃ row ∈ s.tables.taken, row.1 = epoch ∧ forkSlot < row.2.slot) ∨ epoch ∈ s.removed := by
  rw [SnapshotState.handleReorg] at removed
  dsimp only at removed
  split at removed
  · rcases List.mem_append.mp removed with new | old
    · obtain ⟨row, rowMem, rfl⟩ := List.mem_map.mp new
      obtain ⟨taken, beyond⟩ := List.mem_filter.mp rowMem
      exact .inl ⟨row, taken, rfl, of_decide_eq_true beyond⟩
    · exact .inr old
  · exact .inr removed

theorem handleReorg (sound : s.Sound) {forkSlot strayBlocks : Nat}
    (may : SettledSnapshots.rollback s forkSlot) : (s.handleReorg forkSlot strayBlocks).Sound := by
  obtain ⟨worksKept, attemptKept⟩ := may
  have works : (s.handleReorg forkSlot strayBlocks).works = s.works := by
    rw [SnapshotState.handleReorg]
    dsimp only
    split <;> rfl
  have inFlight : (s.handleReorg forkSlot strayBlocks).snapshotInFlight = s.snapshotInFlight := by
    rw [SnapshotState.handleReorg]
    dsimp only
    split <;> rfl
  refine ⟨?_, ?_, ?_, ?_, ?_, works ▸ sound.worksOnce, ?_, ?_, ?_, ?_, ?_⟩
  · rw [SnapshotState.handleReorg]
    dsimp only
    split <;> exact sound.sorted.filter _
  · intro row rowMem
    obtain ⟨old, kept⟩ := sound.mem_taken_handleReorg.mp rowMem
    exact onChain_handleReorg (sound.onChain row old) kept
  · intro row rowMem
    obtain ⟨old, kept⟩ := sound.mem_taken_handleReorg.mp rowMem
    rw [SnapshotState.handleReorg]
    dsimp only
    split
    · exact Table.mem_delete.mpr
        ⟨sound.ledgered row old, decide_eq_false (Nat.not_lt.mpr kept)⟩
    · exact sound.ledgered row old
  · intro work workMem
    rw [works] at workMem
    exact onChain_handleReorg (sound.worksOnChain work workMem) (worksKept work workMem)
  · intro work workMem row rowMem
    rw [works] at workMem
    exact sound.worksUnwritten work workMem row (sound.mem_taken_handleReorg.mp rowMem).1
  · intro attempt running
    rw [inFlight] at running
    exact onChain_handleReorg (sound.attemptOnChain attempt running) (attemptKept attempt running)
  · intro attempt running row rowMem
    rw [inFlight] at running
    exact sound.attemptLatest attempt running row (sound.mem_taken_handleReorg.mp rowMem).1
  · intro attempt running work workMem
    rw [inFlight] at running
    rw [works] at workMem
    exact sound.attemptWork attempt running work workMem
  · intro attempt running removed
    rw [inFlight] at running
    rcases mem_removed_handleReorg removed with ⟨row, taken, same, beyond⟩ | old
    · have latest := sound.attemptLatest attempt running row taken same
      have kept := attemptKept attempt running
      omega
    · exact sound.attemptSince attempt running old
  · intro none
    rw [SnapshotState.handleReorg] at none
    dsimp only at none
    split at none <;> cases none

end SnapshotState.Sound

section Runs

variable {s s' : SnapshotState}

theorem SnapshotStep.sound (step : SnapshotStep SettledSnapshots s s') (sound : s.Sound) :
    s'.Sound := by
  cases step with
  | persistBlock block may later => exact sound.block later
  | persistSnapshot block epoch fromLedger may mayAttempt later dated unmarked idle =>
      exact sound.attempt mayAttempt later
  | found attempt running checking exist => exact sound.stage running nofun
  | missing attempt running checking absent => exact sound.missing running checking absent
  | workWrites before after work poolIds drepIds running =>
      exact (sound.write running).settle work
  | workSkips before after work running => exact (sound.ended running).settle work
  | workFails before after work running => exact (sound.ended running).fail work
  | timeout attempt running waiting =>
      refine sound.noAttempt.works ?_ fun work workMem => ?_
      · simp [Function.comp_def]
      · obtain ⟨old, oldMem, rfl⟩ := List.mem_map.mp workMem
        exact ⟨old.awaited, oldMem⟩
  | mark attempt running settled =>
      refine { sound.noAttempt with marked := ?_ }
      rintro - _ ⟨⟩
      exact sound.attemptSince attempt running
  | attemptFails attempt running queries => exact sound.noAttempt
  | rollback forkSlot strayBlocks may => exact sound.handleReorg may
  | resetMark resets pending => exact { sound with marked := nofun }
  | restart =>
      have quiet : SnapshotState.Sound { s with snapshotInFlight := none, works := [] } :=
        sound.noAttempt.works (List.nil_sublist _) nofun
      exact { quiet with marked := nofun }

theorem SnapshotRun.sound (run : SnapshotRun SettledSnapshots s) : s.Sound := by
  induction run with
  | refl =>
      exact ⟨List.Pairwise.nil, nofun, nofun, nofun, nofun, List.nodup_nil, nofun, nofun, nofun,
        nofun, nofun⟩
  | tail _ step sound => exact step.sound sound

/-- While no rollback goes behind an unsettled snapshot, every snapshot row was taken at
a block of the followed chain, an epoch's rows at one block, and the mark of an epoch is
younger than the removal of its snapshot. -/
theorem epochSnapshots_followed (run : SnapshotRun SettledSnapshots s) :
    (∀ row ∈ s.tables.taken, s.OnChain row.2) ∧
      (∀ first ∈ s.tables.taken, ∀ second ∈ s.tables.taken,
        first.1 = second.1 → first.2 = second.2) ∧
      (s.resets = 0 → ∀ epoch, s.snapshotedEpoch = some epoch → epoch ∉ s.removed) := by
  have sound := run.sound
  refine ⟨sound.onChain, fun first firstMem second secondMem same => ?_, sound.marked⟩
  have ledger := Table.mem_rows_inj (sound.ledgered first firstMem)
    (sound.ledgered second secondMem) same
  exact congrArg EpochLedgerSnapshotRow.takenAt ledger

end Runs

section Samples

def boundaryBlock : BlockData where
  time := 1000
  height := some 2
  hash := text "b2"
  slot := some 20
  slotLeader := none
  epoch := some 1
  epochSlot := some 0
  size := 1
  txCount := 0
  fees := none

def boundaryPoint : SnapshotPoint := ⟨20, 1000, some (text "b2")⟩

/-- The snapshot of the first epoch has begun at its first block. -/
def snapshotBegun : SnapshotState :=
  { SnapshotState.start with
    chain := [boundaryBlock]
    snapshotInFlight := some ⟨1, boundaryPoint, .waiting⟩
    works := [⟨1, boundaryPoint, true⟩] }

theorem snapshotBegun_run {allowed : SnapshotRules} (block : allowed.block .start)
    (attempt : allowed.attempt .start 1) : SnapshotRun allowed snapshotBegun :=
  .tail (.single (.persistSnapshot .start boundaryBlock 1 true block attempt nofun rfl nofun rfl))
    (.missing _ ⟨1, boundaryPoint, .checking⟩ rfl rfl rfl)

/-- It was written and marked. -/
def snapshotTaken : SnapshotState :=
  { snapshotBegun with
    tables := SnapshotTables.empty.write 1 boundaryPoint ["pool1"] []
    snapshotInFlight := none
    works := []
    snapshotedEpoch := some 1 }

theorem epochSnapshots_followed_sample :
    (1, boundaryPoint) ∈ snapshotTaken.tables.taken ∧ snapshotTaken.OnChain boundaryPoint ∧
      1 ∉ snapshotTaken.removed := by
  have run : SnapshotRun SettledSnapshots snapshotTaken :=
    ((snapshotBegun_run rfl fun _ none => absurd none List.not_mem_nil).tail
      (.workWrites _ [] [] ⟨1, boundaryPoint, true⟩ ["pool1"] [] rfl)).tail
      (.mark _ ⟨1, boundaryPoint, .settled⟩ rfl rfl)
  have taken : (1, boundaryPoint) ∈ snapshotTaken.tables.taken := by decide +kernel
  obtain ⟨followed, -, marked⟩ := epochSnapshots_followed run
  exact ⟨taken, followed _ taken, marked rfl 1 rfl⟩

/-- The block was rolled back before the snapshot was written. -/
def snapshotLate : SnapshotState :=
  { snapshotTaken with chain := [] }

/-- Anything may come. -/
def anySnapshots : SnapshotRules := ⟨fun _ => True, fun _ _ => True, fun _ _ => True⟩

theorem epochSnapshots_lateWrite :
    SnapshotRun anySnapshots snapshotLate ∧
      snapshotLate.works = [] ∧ snapshotLate.snapshotInFlight = none ∧
      (1, boundaryPoint) ∈ snapshotLate.tables.taken ∧ ¬snapshotLate.OnChain boundaryPoint := by
  refine ⟨?_, rfl, rfl, by decide +kernel, nofun⟩
  have begun : SnapshotRun anySnapshots snapshotBegun := snapshotBegun_run trivial trivial
  have rolledBack := begun.tail (.rollback _ 10 0 trivial)
  exact ((rolledBack.tail (.resetMark _ 0 rfl)).tail
    (.workWrites _ [] [] ⟨1, boundaryPoint, true⟩ ["pool1"] [] rfl)).tail
    (.mark _ ⟨1, boundaryPoint, .settled⟩ rfl rfl)

end Samples

end Odatano
