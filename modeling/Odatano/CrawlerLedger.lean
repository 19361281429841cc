import Odatano.CrawledChain
import Odatano.LedgerRollback

/-!
# What the crawler's transactions do to the UTxO set

The ledger tables, the `utxoSet` columns and the anchor in memory after a
committed `persistBlock` or `handleReorg`, and what `start` decides about them.
-/

namespace Odatano

/-! ## The prepared block -/

section Prepared

/-- Resolving an input keeps what it consumes. -/
theorem resolveInputs_txs (store : CrawlStore) (txs : List Transaction)
    (ledger : Option LedgerDb) :
    ∃ resolve : TxInputLine → TxInputLine,
      (resolveInputs store txs ledger).1 =
          txs.map (fun t => { t with inputs := t.inputs.map resolve }) ∧
        ∀ input, ∃ address amount data, resolve input = { input with address, amount, data } := by
  refine ⟨_, rfl, fun input => ?_⟩
  dsimp only
  split
  · exact ⟨_, _, _, rfl⟩
  · split
    · exact ⟨_, _, _, rfl⟩
    · split
      · exact ⟨_, _, _, rfl⟩
      · exact ⟨_, _, _, rfl⟩

/-- Preparing a block keeps what it produces and consumes. -/
theorem prepareBlock_ledgerPart [Bech32] (store : CrawlStore) (ledger : Option LedgerDb)
    (block : BlockData) (txs : List Transaction) (slot : Nat) :
    producedRows (prepareBlock store ledger block txs).txs slot = producedRows txs slot ∧
      blockSpends (prepareBlock store ledger block txs).txs = blockSpends txs := by
  obtain ⟨resolve, resolved, changes⟩ := resolveInputs_txs store txs ledger
  simp only [prepareBlock, applyCollateralFees, resolved, List.map_map, producedRows,
    blockSpends, List.flatMap_map]
  refine ⟨rfl, List.flatMap_congr fun t _ => ?_⟩
  change (consumedInputs { t with inputs := t.inputs.map resolve }).map _ = _
  congr 1
  simp only [consumedInputs, Transaction.phase2Failed, List.filter_map, List.map_map]
  have kept : ∀ input, (resolve input).isCollateral = input.isCollateral ∧
      (resolve input).isReference = input.isReference ∧
        (resolve input).outpoint = input.outpoint := by
    intro input
    obtain ⟨address, amount, data, same⟩ := changes input
    rw [same]
    exact ⟨rfl, rfl, rfl⟩
  have outpoints : TxInputLine.outpoint ∘ resolve = TxInputLine.outpoint :=
    funext fun input => (kept input).2.2
  rw [outpoints]
  congr 1
  apply List.filter_congr
  intro input _
  simp only [Function.comp_apply, (kept input).1, (kept input).2.1]
  rfl

/-- What a block does to the ledger depends on what it produces and consumes. -/
theorem applyBlockToLedger_congr [Bech32] (db : LedgerDb) {block other : BlockData}
    {txs others : List Transaction} (slot : block.slotOrZero = other.slotOrZero)
    (produced : producedRows txs other.slotOrZero = producedRows others other.slotOrZero)
    (consumed : blockSpends txs = blockSpends others) (lookup : Option LedgerLookup) :
    applyBlockToLedger db block txs lookup = applyBlockToLedger db other others lookup := by
  simp only [applyBlockToLedger, createdByBlock, slot, produced, consumed]

/-- The prepared block does to the ledger what the delivered one does. -/
theorem applyBlockToLedger_prepared [Bech32] {db : LedgerDb} (built : db.RowsBuilt)
    (store : CrawlStore) (block : BlockData) (txs : List Transaction) :
    applyBlockToLedger db (prepareBlock store (some db) block txs).block
        (prepareBlock store (some db) block txs).txs
        (prepareBlock store (some db) block txs).lookup =
      applyBlockToLedger db block txs none := by
  obtain ⟨fees, sameBlock⟩ := prepareBlock_block store (some db) block txs
  obtain ⟨produced, consumed⟩ := prepareBlock_ledgerPart store (some db) block txs block.slotOrZero
  rw [applyBlockToLedger_congr db (by rw [sameBlock]; rfl) produced consumed]
  apply applyBlockToLedger_lookup built
  intro read isRead
  cases Option.some.inj isRead
  exact (readLedgerOutputs_answers built (LedgerLookup.answers_empty db) _).1

end Prepared

/-! ## A committed block -/

/-- An advanced cursor carries the mark of the block, if the ledger got it. -/
theorem SyncState.advanceCursor_utxoSet {row : SyncState} {block : ChainPoint}
    {tip : Option ChainPoint} {status : CrawlSyncStatus} {applied : Option Nat}
    {leaseOwner : Option LeaseOwner} {now : Time}
    (advanced : (row.advanceCursor block tip status applied leaseOwner now).2 = true) :
    (row.advanceCursor block tip status applied leaseOwner now).1.utxoSet =
      { row.utxoSet with appliedSlot := applied.or row.utxoSet.appliedSlot } := by
  cases leaseOwner with
  | none => rfl
  | some owner =>
      simp only [advanceCursor] at advanced ⊢
      split
      · rfl
      · rename_i fenced
        rw [if_neg fenced] at advanced
        simp only [leaseDeadlineReached, importLeaseHeld, Bool.and_eq_true,
          decide_eq_true_eq] at advanced
        exact absurd ⟨advanced.2.1, advanced.1⟩ fenced

section Commits

variable [Bech32] {indexer attempt : Indexer} {db stored : Db} {block : BlockData}
  {txs : List Transaction} {epochData : Option Nat}

/-- The ledger is not due for the block: the UTxO set stays as it is. -/
structure BlockSkipped (indexer attempt : Indexer) (db stored : Db) (block : BlockData) :
    Prop where
  notDue : indexer.ledgerDue block = none
  unanswered : ledgerAnswering indexer db block = none
  ledger : stored.ledger = db.ledger
  utxoSet : stored.sync.utxoSet = db.sync.utxoSet
  memory : attempt = { indexer with pendingVerified := none }

/-- The ledger got the block, on top of the anchor. -/
structure BlockApplied (indexer attempt : Indexer) (db stored : Db) (block : BlockData)
    (txs : List Transaction) (anchor : LedgerAnchor) : Prop where
  due : indexer.ledgerDue block = some anchor
  answered : ledgerAnswering indexer db block = some db.ledger
  onChain : indexer.utxoAnchorVerified = true ∨ anchorOnChain db.sync anchor = true
  ledger : stored.ledger =
    (applyBlockToLedger db.ledger (prepareBlock db.crawl (some db.ledger) block txs).block
      (prepareBlock db.crawl (some db.ledger) block txs).txs
      (prepareBlock db.crawl (some db.ledger) block txs).lookup).1
  utxoSet : stored.sync.utxoSet = { db.sync.utxoSet with appliedSlot := some block.slotOrZero }
  memory : ∃ pendingVerified, attempt = { indexer with pendingVerified }
  noInvalidation : indexer.ledgerInvalidation = none

/-- The set cannot follow the chain and becomes invalid. -/
structure BlockRefused (indexer : Indexer) (db stored : Db) (block : BlockData) : Prop where
  due : (indexer.ledgerDue block).isSome
  unanswered : ledgerAnswering indexer db block = none
  ledger : stored.ledger = db.ledger
  status : stored.sync.utxoSet.status = .invalid

theorem indexBlockFull_skipped (notDue : indexer.ledgerDue block = none) :
    ∃ crawl, indexBlockFull indexer db block txs epochData =
      ({ indexer with pendingVerified := none }, { db with crawl }) := by
  have sameDue : { indexer with pendingVerified := none }.ledgerDue block = none := notDue
  simp only [indexBlockFull, sameDue]
  exact ⟨_, rfl⟩

theorem indexBlockFull_applied {anchor : LedgerAnchor} (due : indexer.ledgerDue block = some anchor)
    (noInvalidation : indexer.ledgerInvalidation = none)
    (onChain : indexer.utxoAnchorVerified = true ∨ anchorOnChain db.sync anchor = true) :
    ∃ pendingVerified crawl, indexBlockFull indexer db block txs epochData =
      ({ indexer with pendingVerified },
        { crawl
          ledger :=
            (applyBlockToLedger db.ledger (prepareBlock db.crawl (some db.ledger) block txs).block
              (prepareBlock db.crawl (some db.ledger) block txs).txs
              (prepareBlock db.crawl (some db.ledger) block txs).lookup).1
          sync := db.sync }) := by
  have sameDue : { indexer with pendingVerified := none }.ledgerDue block = some anchor := due
  simp only [indexBlockFull]
  rw [sameDue]
  simp only [noInvalidation]
  cases verified : indexer.utxoAnchorVerified with
  | true => exact ⟨_, _, rfl⟩
  | false =>
      have matched := onChain.resolve_left (by simp [verified])
      simp only [verifyUtxoAnchor]
      rw [if_neg Bool.false_ne_true, if_pos matched]
      exact ⟨some anchor, _, rfl⟩

theorem indexBlockFull_refused {anchor : LedgerAnchor} (due : indexer.ledgerDue block = some anchor)
    (refused : indexer.ledgerInvalidation.isSome ∨
      indexer.utxoAnchorVerified = false ∧ anchorOnChain db.sync anchor = false) :
    ∃ memory crawl sync, indexBlockFull indexer db block txs epochData =
        (memory, { db with crawl, sync }) ∧
      sync.utxoSet.status = .invalid ∧ memory.ledgerInvalidation.isSome := by
  have sameDue : { indexer with pendingVerified := none }.ledgerDue block = some anchor := due
  simp only [indexBlockFull]
  rw [sameDue]
  cases invalidated : indexer.ledgerInvalidation with
  | some reason => exact ⟨_, _, _, rfl, rfl, rfl⟩
  | none =>
      obtain ⟨unverified, mismatch⟩ := refused.resolve_left (by simp [invalidated])
      have notMatched : ¬ anchorOnChain db.sync anchor = true := by simp [mismatch]
      simp only [unverified, verifyUtxoAnchor]
      rw [if_neg Bool.false_ne_true, if_neg notMatched]
      exact ⟨_, _, _, rfl, rfl, rfl⟩

/-- A committed block transaction adds the mark and the cursor. -/
theorem persistBlockTx_indexed {indexed : Indexer × Db} {tip : Option ChainPoint}
    {leaseOwner : Option LeaseOwner} {now : Time}
    (isIndexed : indexBlockFull indexer db block txs epochData = indexed)
    (committed : persistBlockTx indexer db block txs epochData tip leaseOwner now =
      (attempt, some stored)) :
    attempt = indexed.1 ∧ stored.ledger = indexed.2.ledger ∧
      stored.sync.utxoSet = { indexed.2.sync.utxoSet with
        appliedSlot :=
          (if indexed.1.getUtxoAnchor.any fun anchor => decide (anchor.slot < block.slotOrZero)
            then some block.slotOrZero else none).or indexed.2.sync.utxoSet.appliedSlot } := by
  have memory := congrArg Prod.fst committed
  have attempted := congrArg Prod.snd committed
  simp only [persistBlockTx, isIndexed, Option.ite_none_right_eq_some] at memory attempted
  obtain ⟨advanced, same⟩ := attempted
  cases same
  exact ⟨memory.symm, rfl, SyncState.advanceCursor_utxoSet advanced⟩

omit [Bech32] in
/-- The cursor is marked exactly for the blocks the ledger is due for. -/
theorem ledgerDue_isSome (valid : indexer.ledgerInvalidation = none) :
    (indexer.getUtxoAnchor.any fun (anchor : LedgerAnchor) =>
      decide (anchor.slot < block.slotOrZero)) = (indexer.ledgerDue block).isSome := by
  unfold Indexer.ledgerDue Indexer.getUtxoAnchor
  rw [valid, Option.isNone_none, Bool.and_true]
  cases indexer.crawlUtxoSet with
  | false => rfl
  | true =>
      cases indexer.utxoAnchor with
      | none => rfl
      | some anchor => by_cases after : anchor.slot < block.slotOrZero <;> simp [Option.filter, after]

omit [Bech32] in
/-- A block the ledger is not due for is not marked. -/
theorem getUtxoAnchor_of_notDue (notDue : indexer.ledgerDue block = none) :
    (indexer.getUtxoAnchor.any fun (anchor : LedgerAnchor) =>
      decide (anchor.slot < block.slotOrZero)) = false := by
  cases valid : indexer.ledgerInvalidation with
  | none => rw [ledgerDue_isSome valid, notDue, Option.isSome_none]
  | some reason => simp [Indexer.getUtxoAnchor, valid]

/-- What a committed block transaction does to the UTxO set. -/
theorem persistBlockTx_set {tip : Option ChainPoint} {leaseOwner : Option LeaseOwner} {now : Time}
    (committed : persistBlockTx indexer db block txs epochData tip leaseOwner now =
      (attempt, some stored)) :
    BlockSkipped indexer attempt db stored block ∨
      (∃ anchor, BlockApplied indexer attempt db stored block txs anchor) ∨
        BlockRefused indexer db stored block := by
  cases due : indexer.ledgerDue block with
  | none =>
      obtain ⟨crawl, isIndexed⟩ := indexBlockFull_skipped due
      obtain ⟨memory, ledger, utxoSet⟩ := persistBlockTx_indexed isIndexed committed
      have sameDue : { indexer with pendingVerified := none }.ledgerDue block = none := due
      rw [getUtxoAnchor_of_notDue sameDue] at utxoSet
      exact Or.inl ⟨due, by rw [ledgerAnswering, due], ledger, utxoSet, memory⟩
  | some anchor =>
      right
      by_cases refused : indexer.ledgerInvalidation.isSome ∨
        indexer.utxoAnchorVerified = false ∧ anchorOnChain db.sync anchor = false
      · obtain ⟨_, crawl, sync, isIndexed, invalid, -⟩ := indexBlockFull_refused due refused
        obtain ⟨-, ledger, utxoSet⟩ := persistBlockTx_indexed isIndexed committed
        refine Or.inr ⟨by simp [due], ?_, ledger, by rw [utxoSet, ← invalid]⟩
        simp only [ledgerAnswering, due]
        rw [if_neg]
        rcases refused with invalidated | ⟨unverified, mismatch⟩
        · simp [Option.isSome_iff_ne_none.mp invalidated]
        · simp [unverified, mismatch]
      · simp only [not_or, Bool.not_eq_true, Option.isSome_eq_false_iff, Option.isNone_iff_eq_none,
          not_and, Bool.not_eq_false] at refused
        obtain ⟨noInvalidation, matched⟩ := refused
        have onChain : indexer.utxoAnchorVerified = true ∨ anchorOnChain db.sync anchor = true := by
          cases verified : indexer.utxoAnchorVerified with
          | true => exact Or.inl rfl
          | false => exact Or.inr (matched verified)
        obtain ⟨pendingVerified, crawl, isIndexed⟩ := indexBlockFull_applied due noInvalidation onChain
        obtain ⟨memory, ledger, utxoSet⟩ := persistBlockTx_indexed isIndexed committed
        have sameDue : { indexer with pendingVerified }.ledgerDue block = some anchor := due
        have marked : (({ indexer with pendingVerified } : Indexer).getUtxoAnchor.any
            fun (anchor : LedgerAnchor) => decide (anchor.slot < block.slotOrZero)) = true := by
          have valid : ({ indexer with pendingVerified } : Indexer).ledgerInvalidation = none :=
            noInvalidation
          rw [ledgerDue_isSome valid, sameDue, Option.isSome_some]
        dsimp only at utxoSet
        rw [marked] at utxoSet
        refine Or.inl ⟨anchor, due, ?_, onChain, ledger, utxoSet, ⟨pendingVerified, memory⟩,
          noInvalidation⟩
        simp only [ledgerAnswering, due]
        rw [if_pos]
        rcases onChain with verified | matched
        · simp [noInvalidation, verified]
        · simp [noInvalidation, matched]

end Commits

/-! ## A committed rollback -/

/-- The rollback undoes the ledger: the set is active and the fork is not below
its anchor. -/
def Db.undoesLedger (db : Db) (forkSlot : Nat) : Bool :=
  decide (db.sync.utxoSet.status = .active) &&
    db.sync.utxoSet.anchorSlot.any fun anchorSlot => decide (anchorSlot ≤ forkSlot)

section Rollbacks

variable [Bech32] {config : CrawlStart} {db stored : Db} {point : ChainPoint}
  {leaseOwner : Option LeaseOwner} {now : Time} {ledgerInvalidated : Bool}

end Rollbacks

/-! ## Starting -/

/-- The anchor of an active set. -/
def UtxoSetState.activeAnchor (u : UtxoSetState) : Option LedgerAnchor :=
  match u.status, u.anchorSlot, u.anchorHash with
  | .active, some slot, some hash => some ⟨slot, hash⟩
  | _, _, _ => none

/-- The slot of the last block the ledger got, the anchor's before the first. -/
def UtxoSetState.lastApplied (u : UtxoSetState) : Option Nat := u.appliedSlot.or u.anchorSlot

theorem UtxoSetState.activeAnchor_eq_some {u : UtxoSetState} {anchor : LedgerAnchor} :
    u.activeAnchor = some anchor ↔
      u.status = .active ∧ u.anchorSlot = some anchor.slot ∧ u.anchorHash = some anchor.hash := by
  unfold activeAnchor
  constructor
  · intro isAnchor
    split at isAnchor
    · rename_i active anchorSlot anchorHash
      cases Option.some.inj isAnchor
      exact ⟨active, anchorSlot, anchorHash⟩
    · cases isAnchor
  · rintro ⟨active, anchorSlot, anchorHash⟩
    simp only [active, anchorSlot, anchorHash]

/-- Why a start refuses a set. -/
def skippedBlocksError (cursor : SyncState) (lastApplied : Nat) : String :=
  s!"cursor at slot {cursor.lastSlot} is past the last ledger-applied slot {lastApplied}: " ++
    "blocks were crawled without the set; re-import"

/-- The last applied slot of an active set the cursor has left behind. -/
def skippedSince (cursor : SyncState) : Option Nat :=
  if cursor.utxoSet.status = .active then
    cursor.utxoSet.lastApplied.filter fun lastApplied => decide (lastApplied < cursor.lastSlot)
  else none

/-- What `start` does with the UTxO set, from the `cursor` it has read. -/
def startUtxoSet (utxoSet : Bool) (cursor : SyncState) (indexer : Indexer) (sync : SyncState) :
    Indexer × SyncState :=
  let configured := { indexer with crawlUtxoSet := utxoSet }
  if utxoSet then
    -- blocks crawled while the mode was off never reached the ledger tables
    match skippedSince cursor with
    | some lastApplied =>
        (configured.setUtxoAnchor none,
          sync.markUtxoSetInvalid (skippedBlocksError cursor lastApplied))
    | none => (configured.setUtxoAnchor cursor.utxoSet.activeAnchor, sync)
  else (configured.setUtxoAnchor none, sync)

end Odatano
