import Odatano.CrawlTakeover
import Odatano.LeaseTenures

/-!
# Undisturbed starts

When nothing is committed between the cursor read of a start and its uses, the crawl
continues from the state the predecessor left.  An import in between breaks it.
-/

namespace Odatano

/-! ## What the transactions leave on the row -/

section Rows

variable {row : SyncState} {owner : LeaseOwner} {now : Time}

/-- A granted lease names its owner and leaves the cursor and the set alone. -/
structure LeaseMoved (owner : LeaseOwner) (row row' : SyncState) : Prop where
  leaseOwner : row'.leaseOwner = some owner
  position : row'.position = row.position
  utxoSet : row'.utxoSet = row.utxoSet

theorem tryAcquireCrawlerLease_moved
    (granted : (row.tryAcquireCrawlerLease owner now).2 = true) :
    LeaseMoved owner row (row.tryAcquireCrawlerLease owner now).1 := by
  rw [SyncState.tryAcquireCrawlerLease] at granted ⊢
  split at granted
  · cases granted
  · rename_i free
    rw [if_neg free]
    dsimp only at granted ⊢
    refine ⟨SyncState.leaseOwner_of_leaseDeadlineReached granted, ?_, ?_⟩ <;>
      simp [SyncState.takeCrawlerLease, SyncState.position]

theorem tryAcquireImportLease_moved
    (granted : (row.tryAcquireImportLease owner now).2 = true) :
    LeaseMoved owner row (row.tryAcquireImportLease owner now).1 := by
  rw [SyncState.tryAcquireImportLease] at granted ⊢
  split at granted
  · cases granted
  · rename_i free
    rw [if_neg free]
    dsimp only at granted ⊢
    refine ⟨importLeaseHeld_owned granted, ?_, ?_⟩ <;>
      simp [SyncState.takeImportLease, SyncState.position]

theorem renewImportLease_moved (renewed : (row.renewImportLease owner now).2 = true) :
    row.leaseOwner = some owner ∧ LeaseMoved owner row (row.renewImportLease owner now).1 := by
  have holder : row.leaseOwner = some owner := by
    rw [← @SyncState.renewImportLease_leaseOwner row owner now]
    exact importLeaseHeld_owned renewed
  refine ⟨holder, ?_⟩
  constructor <;> simp [SyncState.renewImportLease, SyncState.position, holder]

theorem renewCrawlerLease_moved (renewed : (row.renewCrawlerLease owner now).2 = true) :
    row.leaseOwner = some owner ∧ LeaseMoved owner row (row.renewCrawlerLease owner now).1 := by
  have holder := SyncState.leaseOwner_of_renewed renewed
  refine ⟨holder, SyncState.leaseOwner_of_leaseDeadlineReached renewed, ?_, ?_⟩ <;>
    · simp only [SyncState.renewCrawlerLease, SyncState.position]
      split <;> rfl

section Imports

variable {db stored : Db} {anchor : LedgerAnchor}

theorem beginImportTx_row (committed : beginImportTx db anchor owner now = some stored) :
    db.sync.leaseOwner = some owner ∧ stored.sync.leaseOwner = some owner ∧
      stored.sync.position = db.sync.position ∧
        stored.sync.utxoSet = ⟨.importing, some anchor.slot, some anchor.hash, none, none, none⟩ := by
  simp only [beginImportTx, writeTx, Option.ite_none_right_eq_some] at committed
  obtain ⟨renewed, same⟩ := committed
  cases same
  obtain ⟨holder, moved⟩ := renewImportLease_moved renewed
  exact ⟨holder, moved.leaseOwner, moved.position, rfl⟩

theorem importPageTx_row [Bech32] {entries : List LedgerOutputLike}
    (committed : importPageTx db entries owner now = some stored) :
    db.sync.leaseOwner = some owner ∧ LeaseMoved owner db.sync stored.sync := by
  simp only [importPageTx, writeTx, Option.ite_none_right_eq_some] at committed
  obtain ⟨renewed, same⟩ := committed
  cases same
  exact renewImportLease_moved renewed

theorem activate_row {importedAt : Time}
    (committed : activateWithAggregates db anchor importedAt id id owner now = some stored) :
    db.sync.leaseOwner = some owner ∧ stored.sync.leaseOwner = some owner ∧
      stored.sync.position = db.sync.position ∧
        stored.sync.utxoSet.anchorSlot = some anchor.slot ∧
          stored.sync.utxoSet.appliedSlot = db.sync.utxoSet.appliedSlot := by
  simp only [activateWithAggregates, writeTxLeaseLast, Option.bind_eq_some_iff,
    Option.map_eq_some_iff, id_eq, Option.ite_none_right_eq_some] at committed
  obtain ⟨written, ⟨ledger, -, rfl⟩, renewed, same⟩ := committed
  cases same
  obtain ⟨holder, moved⟩ := renewImportLease_moved renewed
  refine ⟨holder, moved.leaseOwner, moved.position, ?_, ?_⟩
  · rw [moved.utxoSet]
    rfl
  · rw [moved.utxoSet]
    rfl

theorem markInvalidTx_row {error : String}
    (renewed : (db.sync.renewImportLease owner now).2 = true) :
    (markInvalidTx db error owner now).sync.leaseOwner = some owner ∧
      (markInvalidTx db error owner now).sync.position = db.sync.position ∧
        (markInvalidTx db error owner now).sync.utxoSet.status = .invalid := by
  obtain ⟨-, moved⟩ := renewImportLease_moved renewed
  simp only [markInvalidTx, renewed, if_true]
  exact ⟨moved.leaseOwner, moved.position, rfl⟩

end Imports

section Blocks

variable [Bech32] {indexer attempt : Indexer} {db stored : Db} {block : BlockData}
  {txs : List Transaction} {epochData : Option Nat} {tip : Option ChainPoint}

/-- Indexing a block leaves the lease and the anchor alone, and the cursor too. -/
theorem indexBlockFull_row (indexer : Indexer) (db : Db) (block : BlockData)
    (txs : List Transaction) (epochData : Option Nat) :
    (indexBlockFull indexer db block txs epochData).2.sync = db.sync ∨
      ∃ error, (indexBlockFull indexer db block txs epochData).2.sync =
        db.sync.markUtxoSetInvalid error := by
  simp only [indexBlockFull]
  split
  · exact .inl rfl
  · split
    · exact .inr ⟨_, rfl⟩
    · cases verified : indexer.utxoAnchorVerified with
      | true => exact .inl rfl
      | false =>
        simp only [Bool.false_eq_true, if_false, verifyUtxoAnchor]
        split
        · exact .inl rfl
        · exact .inr ⟨_, rfl⟩

/-- A block commits under the lease of its owner, and moves the cursor to the block. -/
theorem persistBlockTx_row
    (committed : persistBlockTx indexer db block txs epochData tip (some owner) now =
      (attempt, some stored)) :
    db.sync.leaseOwner = some owner ∧ stored.sync.leaseOwner = some owner ∧
      stored.sync.position = (block.slotOrZero, some block.hash) ∧
        stored.sync.utxoSet.anchorSlot = db.sync.utxoSet.anchorSlot := by
  have stored' := congrArg Prod.snd committed
  obtain ⟨-, slot, hash⟩ := persistBlockTx_committed stored'
  obtain ⟨-, -, utxoSet⟩ := persistBlockTx_indexed rfl committed
  simp only [persistBlockTx, Option.ite_none_right_eq_some] at stored'
  obtain ⟨advanced, same⟩ := stored'
  have holder := (SyncState.matched_of_leaseHeld advanced).1
  cases same
  refine ⟨?_, SyncState.advanceCursor_leaseOwner advanced, ?_, ?_⟩
  · rcases indexBlockFull_row indexer db block txs epochData with kept | ⟨error, marked⟩
    · rw [← kept]
      exact holder
    · rw [marked] at holder
      exact holder
  · rw [SyncState.position, slot, hash]
  · rw [utxoSet]
    rcases indexBlockFull_row indexer db block txs epochData with kept | ⟨error, marked⟩
    · rw [kept]
    · rw [marked]
      rfl

omit [Bech32] in
/-- What the memory keeps when a block commits. -/
theorem blockCommitted_anchor {indexer : Indexer} {anchor : LedgerAnchor}
    (kept : indexer.blockCommitted.utxoAnchor = some anchor) :
    indexer.utxoAnchor = some anchor ∧ indexer.ledgerInvalidation = none ∧
      indexer.blockCommitted.crawlUtxoSet = indexer.crawlUtxoSet := by
  cases invalid : indexer.ledgerInvalidation with
  | none =>
    simp [Indexer.blockCommitted, Indexer.takeLedgerInvalidation, Indexer.confirmBlockCommit,
      invalid] at kept
    refine ⟨kept, rfl, ?_⟩
    simp [Indexer.blockCommitted, Indexer.takeLedgerInvalidation, Indexer.confirmBlockCommit,
      invalid]
  | some reason =>
    simp [Indexer.blockCommitted, Indexer.takeLedgerInvalidation, Indexer.confirmBlockCommit,
      invalid] at kept

/-- A block that the ledger was due for and that did not get it was refused. -/
theorem persistBlockTx_refused (refused : BlockRefused indexer db stored block)
    (committed : persistBlockTx indexer db block txs epochData tip (some owner) now =
      (attempt, some stored)) : attempt.ledgerInvalidation.isSome = true := by
  obtain ⟨anchor, due⟩ := Option.isSome_iff_exists.mp refused.due
  have unanswered := refused.unanswered
  simp only [ledgerAnswering, due] at unanswered
  have reason : indexer.ledgerInvalidation.isSome ∨
      indexer.utxoAnchorVerified = false ∧ anchorOnChain db.sync anchor = false := by
    cases invalid : indexer.ledgerInvalidation with
    | some reason => exact .inl rfl
    | none =>
      right
      rw [invalid] at unanswered
      cases verified : indexer.utxoAnchorVerified <;>
        cases onChain : anchorOnChain db.sync anchor <;>
        simp_all
  obtain ⟨memory, crawl, sync, isIndexed, -, invalidated⟩ :=
    @indexBlockFull_refused _ indexer db block txs epochData anchor due reason
  obtain ⟨sameMemory, -, -⟩ := persistBlockTx_indexed isIndexed committed
  rw [sameMemory]
  exact invalidated

end Blocks

section Rollbacks

variable [Bech32] {config : CrawlStart} {db stored : Db} {point : Option ChainPoint}
  {ledgerInvalidated : Bool}

/-- What a committed rollback does to the set. -/
inductive SetRolledBack (db stored : Db) (forkSlot : Nat) (ledgerInvalidated : Bool) : Prop
  | undone (undoes : db.undoesLedger forkSlot = true)
      (utxoSet : stored.sync.utxoSet = { db.sync.utxoSet with
        appliedSlot := db.sync.utxoSet.appliedSlot.map fun applied => min applied forkSlot })
      (kept : ledgerInvalidated = false)
  | invalidated (invalid : stored.sync.utxoSet.status = .invalid)
      (keeps : db.undoesLedger forkSlot = false) (dropped : ledgerInvalidated = true)
  | untouched (inactive : db.sync.utxoSet.status = .active → db.sync.utxoSet.anchorSlot = none)
      (keeps : db.undoesLedger forkSlot = false)
      (utxoSet : stored.sync.utxoSet = db.sync.utxoSet) (kept : ledgerInvalidated = false)

/-- The ledger part of a rollback, on the row. -/
theorem rollBackLedger_row (db : Db) (forkSlot : Nat) (txHashes : List TxHash) :
    (rollBackLedger db forkSlot txHashes).1.sync.leaseOwner = db.sync.leaseOwner ∧
      (rollBackLedger db forkSlot txHashes).1.sync.utxoSet.anchorSlot =
        db.sync.utxoSet.anchorSlot ∧
      SetRolledBack db (rollBackLedger db forkSlot txHashes).1 forkSlot
        (rollBackLedger db forkSlot txHashes).2 := by
  unfold rollBackLedger
  split
  · rename_i anchorSlot active anchored
    split
    · rename_i below
      refine ⟨rfl, rfl, .invalidated rfl ?_ rfl⟩
      simp [Db.undoesLedger, active, anchored, below]
    · rename_i notBelow
      have undoes : db.undoesLedger forkSlot = true := by
        simp [Db.undoesLedger, active, anchored, Nat.le_of_not_lt notBelow]
      dsimp only
      cases applied : db.sync.utxoSet.appliedSlot with
      | none =>
        rw [Option.any_none, if_neg Bool.false_ne_true]
        exact ⟨rfl, rfl, .undone undoes (by rw [applied, Option.map_none, ← applied]) rfl⟩
      | some slot =>
        rw [Option.any_some]
        by_cases late : forkSlot < slot
        · rw [if_pos (decide_eq_true late)]
          refine ⟨rfl, rfl, .undone undoes ?_ rfl⟩
          rw [applied, Option.map_some, min_eq_right late.le]
          rfl
        · rw [if_neg (by simpa using late)]
          refine ⟨rfl, rfl, .undone undoes ?_ rfl⟩
          rw [applied, Option.map_some, min_eq_left (Nat.le_of_not_lt late), ← applied]
  · rename_i neither
    have inactive : db.sync.utxoSet.status = .active → db.sync.utxoSet.anchorSlot = none :=
      fun active => Option.eq_none_iff_forall_not_mem.mpr fun slot anchored =>
        neither slot active anchored
    refine ⟨rfl, rfl, .untouched inactive ?_ rfl rfl⟩
    rw [Bool.eq_false_iff]
    intro undoes
    simp only [Db.undoesLedger, Bool.and_eq_true, decide_eq_true_eq, Option.any_eq_true] at undoes
    obtain ⟨active, anchorSlot, anchored, -⟩ := undoes
    exact neither anchorSlot active anchored

/-- A rollback commits under the lease of its owner. -/
theorem handleReorgTx_row
    (committed : handleReorgTx config db point (some owner) now =
      some (stored, ledgerInvalidated)) :
    db.sync.leaseOwner = some owner ∧ stored.sync.leaseOwner = some owner ∧
      stored.sync.position.1 = forkSlotOf config point ∧
        stored.sync.utxoSet.anchorSlot = db.sync.utxoSet.anchorSlot ∧
          SetRolledBack db stored (forkSlotOf config point) ledgerInvalidated := by
  simp only [handleReorgTx, Option.ite_none_right_eq_some] at committed
  obtain ⟨renewed, same⟩ := committed
  obtain ⟨holder, moved⟩ := renewCrawlerLease_moved renewed
  obtain ⟨lease, anchor, outcome⟩ := rollBackLedger_row
    { db with
      crawl := (rollBackBlocks db.crawl (staleBlocks db.crawl (forkSlotOf config point))).1
      sync := (db.sync.renewCrawlerLease owner now).1 } (forkSlotOf config point)
    (rollBackBlocks db.crawl (staleBlocks db.crawl (forkSlotOf config point))).2
  have sameSet : (db.sync.renewCrawlerLease owner now).1.utxoSet = db.sync.utxoSet := moved.utxoSet
  have ofRenewed {after : Db} {invalidated : Bool}
      (set : SetRolledBack { db with
        crawl := (rollBackBlocks db.crawl (staleBlocks db.crawl (forkSlotOf config point))).1
        sync := (db.sync.renewCrawlerLease owner now).1 } after (forkSlotOf config point)
          invalidated) (final : SyncState) (finalSet : final.utxoSet = after.sync.utxoSet) :
      SetRolledBack db { after with sync := final } (forkSlotOf config point) invalidated := by
    cases set with
    | undone undoes utxoSet kept =>
      simp only [Db.undoesLedger, sameSet] at undoes utxoSet
      exact .undone undoes (finalSet.trans utxoSet) kept
    | invalidated invalid keeps dropped =>
      simp only [Db.undoesLedger, sameSet] at keeps
      exact .invalidated (by rw [finalSet]; exact invalid) keeps dropped
    | untouched inactive keeps utxoSet kept =>
      simp only [Db.undoesLedger, sameSet] at inactive keeps utxoSet
      exact .untouched inactive keeps (finalSet.trans utxoSet) kept
  cases point with
  | none =>
    cases same
    exact ⟨holder, lease.trans moved.leaseOwner, rfl, anchor.trans (by rw [sameSet]),
      ofRenewed outcome _ rfl⟩
  | some point =>
    cases same
    exact ⟨holder, lease.trans moved.leaseOwner, rfl, anchor.trans (by rw [sameSet]),
      ofRenewed outcome _ rfl⟩

end Rollbacks

end Rows

/-! ## The invariant -/

section Facts

/-- A set that the blocks up to the cursor have reached. -/
structure Covered (row : SyncState) (anchorSlot : Nat) : Prop where
  active : row.utxoSet.status = .active
  anchored : row.utxoSet.anchorSlot = some anchorSlot
  none_skipped : skippedSince row = none

/-- The anchor in memory is the stored one, and no block was crawled past the set. -/
def Tracks (memory : Indexer) (row : SyncState) : Prop :=
  ∀ anchor, memory.utxoAnchor = some anchor → memory.ledgerInvalidation = none →
    memory.crawlUtxoSet = true ∧ Covered row anchor.slot

/-- What a start has read is stored as long as nothing was committed. -/
structure ReadFact (commits : Nat) (row cursor : SyncState) (seen : Nat) : Prop where
  past : seen ≤ commits
  stored : seen = commits → cursor.position = row.position ∧ cursor.utxoSet = row.utxoSet

/-- What holds of an instance between two steps; what it remembers counts while it holds
the lease. -/
def PeerFact (commits : Nat) (row : SyncState) (applied : List ChainPoint)
    (owner : LeaseOwner) : Peer → Prop
  | .absent => True
  | .reading cursor seen => ReadFact commits row cursor seen
  | .granted cursor seen =>
      ReadFact commits row cursor seen ∧
        (row.leaseOwner = some owner → cursor.position = row.position ∧
          (cursor.utxoSet = row.utxoSet ∨ (skippedSince cursor).isSome = true))
  | .running memory position =>
      row.leaseOwner = some owner →
        (∀ p, position = some p → p = row.position) ∧ Tracks memory row
  | .importing none => True
  | .importing (some _) =>
      row.leaseOwner = some owner → applied = [] ∧ row.utxoSet.appliedSlot = none
  | .gone => True

structure Takeover.Sound (s : Takeover) : Prop where
  continues : s.Continues
  peers : ∀ owner, PeerFact s.commits s.db.sync s.applied owner (s.peers owner)
  indexedBelow : ∀ b ∈ s.indexed, b.slot ≤ s.db.sync.lastSlot
  appliedBelow : s.db.sync.utxoSet.status = .active →
    ∀ b ∈ s.applied, b.slot ≤ s.db.sync.lastSlot
  marked : s.db.sync.utxoSet.status = .active →
    ∀ applied, s.db.sync.utxoSet.appliedSlot = some applied →
      ∀ anchor, s.db.sync.utxoSet.anchorSlot = some anchor → anchor ≤ applied

/-- What holds of the blocks the set got, while it is active. -/
structure AppliedFact (row : SyncState) (applied : List ChainPoint) : Prop where
  once : applied.Pairwise fun b later => b.slot < later.slot
  afterAnchor : row.utxoSet.status = .active → ∀ b ∈ applied,
    ∃ anchorSlot, row.utxoSet.anchorSlot = some anchorSlot ∧ anchorSlot < b.slot
  below : row.utxoSet.status = .active → ∀ b ∈ applied, b.slot ≤ row.lastSlot
  marked : row.utxoSet.status = .active → ∀ mark, row.utxoSet.appliedSlot = some mark →
    ∀ anchor, row.utxoSet.anchorSlot = some anchor → anchor ≤ mark

theorem Takeover.Sound.appliedFact {s : Takeover} (sound : s.Sound) :
    AppliedFact s.db.sync s.applied :=
  ⟨sound.continues.appliedOnce, sound.continues.afterAnchor, sound.appliedBelow, sound.marked⟩

variable {commits : Nat} {row row' cursor : SyncState} {applied applied' : List ChainPoint}
  {owner : LeaseOwner} {peer : Peer} {memory : Indexer}

theorem skippedSince_congr (position : cursor.position = row.position)
    (utxoSet : cursor.utxoSet = row.utxoSet) : skippedSince cursor = skippedSince row := by
  have slot : cursor.lastSlot = row.lastSlot := congrArg Prod.fst position
  rw [skippedSince, skippedSince, utxoSet, slot]

/-- A cursor that is not past the last applied slot of an active set. -/
theorem skippedSince_eq_none (active : row.utxoSet.status = .active) :
    skippedSince row = none ↔
      ∀ lastApplied, row.utxoSet.lastApplied = some lastApplied → row.lastSlot ≤ lastApplied := by
  rw [skippedSince, if_pos active]
  cases row.utxoSet.lastApplied with
  | none => simp
  | some lastApplied => simp [Option.filter_eq_none_iff]

/-- The cursor is not past the anchor. -/
theorem Covered.of_le {anchorSlot : Nat} (active : row.utxoSet.status = .active)
    (anchored : row.utxoSet.anchorSlot = some anchorSlot)
    (marked : ∀ applied, row.utxoSet.appliedSlot = some applied → anchorSlot ≤ applied)
    (notPast : row.lastSlot ≤ anchorSlot) : Covered row anchorSlot := by
  refine ⟨active, anchored, (skippedSince_eq_none active).mpr fun lastApplied last => ?_⟩
  rw [UtxoSetState.lastApplied] at last
  cases applied : row.utxoSet.appliedSlot with
  | none =>
    rw [applied, Option.none_or, anchored] at last
    exact Option.some.inj last ▸ notPast
  | some slot =>
    rw [applied, Option.some_or] at last
    exact Option.some.inj last ▸ notPast.trans (marked slot applied)

/-- The cursor stands at a block the ledger got, or before it. -/
theorem Covered.of_applied {anchorSlot slot : Nat} (active : row.utxoSet.status = .active)
    (anchored : row.utxoSet.anchorSlot = some anchorSlot)
    (applied : row.utxoSet.appliedSlot = some slot) (notPast : row.lastSlot ≤ slot) :
    Covered row anchorSlot := by
  refine ⟨active, anchored, (skippedSince_eq_none active).mpr fun lastApplied last => ?_⟩
  rw [UtxoSetState.lastApplied, applied, Option.some_or] at last
  exact Option.some.inj last ▸ notPast

theorem AppliedFact.of_inactive (once : applied.Pairwise fun b later => b.slot < later.slot)
    (inactive : row.utxoSet.status ≠ .active) : AppliedFact row applied :=
  ⟨once, fun active => absurd active inactive, fun active => absurd active inactive,
    fun active => absurd active inactive⟩

/-- A commit of the lease holder ends what the others remember. -/
theorem PeerFact.lost (fact : PeerFact commits row applied owner peer)
    (lost : row'.leaseOwner ≠ some owner) : PeerFact (commits + 1) row' applied' owner peer := by
  have read {cursor : SyncState} {seen : Nat} (before : ReadFact commits row cursor seen) :
      ReadFact (commits + 1) row' cursor seen :=
    ⟨Nat.le_succ_of_le before.past, fun now => absurd before.past (by omega)⟩
  cases peer with
  | absent => trivial
  | reading cursor seen => exact read fact
  | granted cursor seen => exact ⟨read fact.1, fun held => absurd held lost⟩
  | running memory position => exact fun held => absurd held lost
  | importing anchor =>
    cases anchor with
    | none => trivial
    | some anchor => exact fun held => absurd held lost
  | gone => trivial

/-- A step that writes neither the cursor nor the set, and gives the lease to no one who
did not hold it. -/
theorem PeerFact.kept (fact : PeerFact commits row applied owner peer)
    (position : row'.position = row.position) (utxoSet : row'.utxoSet = row.utxoSet)
    (holder : row'.leaseOwner = some owner → row.leaseOwner = some owner) :
    PeerFact commits row' applied owner peer := by
  have read {cursor : SyncState} {seen : Nat} (before : ReadFact commits row cursor seen) :
      ReadFact commits row' cursor seen := by
    refine ⟨before.past, fun now => ?_⟩
    rw [position, utxoSet]
    exact before.stored now
  cases peer with
  | absent => trivial
  | reading cursor seen => exact read fact
  | granted cursor seen =>
    refine ⟨read fact.1, fun held => ?_⟩
    rw [position, utxoSet]
    exact fact.2 (holder held)
  | running memory remembered =>
    intro held
    obtain ⟨follows, tracks⟩ := fact (holder held)
    rw [position]
    refine ⟨follows, fun anchor remembers valid => ?_⟩
    obtain ⟨mode, covered⟩ := tracks anchor remembers valid
    refine ⟨mode, utxoSet ▸ covered.active, utxoSet ▸ covered.anchored, ?_⟩
    rw [skippedSince_congr position utxoSet]
    exact covered.none_skipped
  | importing anchor =>
    cases anchor with
    | none => trivial
    | some anchor =>
      intro held
      rw [utxoSet]
      exact fact (holder held)
  | gone => trivial

/-- The verdict of another start, on the row that this start has read. -/
theorem PeerFact.verdict {lastApplied : Nat} {error : String}
    (fact : PeerFact commits row applied owner peer) (skipped : skippedSince row = some lastApplied) :
    PeerFact (commits + 1) (row.markUtxoSetInvalid error) applied owner peer := by
  have read {cursor : SyncState} {seen : Nat} (before : ReadFact commits row cursor seen) :
      ReadFact (commits + 1) (row.markUtxoSetInvalid error) cursor seen :=
    ⟨Nat.le_succ_of_le before.past, fun now => absurd before.past (by omega)⟩
  cases peer with
  | absent => trivial
  | reading cursor seen => exact read fact
  | granted cursor seen =>
    refine ⟨read fact.1, fun held => ?_⟩
    obtain ⟨position, utxoSet⟩ := fact.2 held
    refine ⟨position, .inr ?_⟩
    rcases utxoSet with same | already
    · rw [skippedSince_congr position same, skipped]
      rfl
    · exact already
  | running memory remembered =>
    intro held
    obtain ⟨follows, tracks⟩ := fact held
    refine ⟨follows, fun anchor remembers valid => ?_⟩
    have covered := (tracks anchor remembers valid).2.none_skipped
    rw [skipped] at covered
    cases covered
  | importing anchor =>
    cases anchor with
    | none => trivial
    | some anchor => exact fact
  | gone => trivial

section Commits

variable [Bech32] {indexer attempt : Indexer} {db stored : Db} {block : BlockData}
  {txs : List Transaction} {anchor : LedgerAnchor} {forkSlot : Nat}

omit [Bech32] in
/-- A block up to the anchor, or while no set is crawled. -/
theorem AppliedFact.skipped (fact : AppliedFact db.sync applied)
    (skipped : BlockSkipped indexer attempt db stored block)
    (slot : stored.sync.lastSlot = block.slotOrZero)
    (before : db.sync.lastSlot < block.slotOrZero) : AppliedFact stored.sync applied := by
  have sameSet := skipped.utxoSet
  refine ⟨fact.once, ?_, ?_, ?_⟩
  · rw [sameSet]
    exact fact.afterAnchor
  · rw [slot, sameSet]
    exact fun active b bMem => ((fact.below active b bMem).trans_lt before).le
  · rw [sameSet]
    exact fact.marked

omit [Bech32] in
theorem Tracks.skipped (tracks : Tracks indexer db.sync) (fact : AppliedFact db.sync applied)
    (skipped : BlockSkipped indexer attempt db stored block)
    (slot : stored.sync.lastSlot = block.slotOrZero) :
    Tracks attempt.blockCommitted stored.sync := by
  have sameSet := skipped.utxoSet
  intro anchor remembers valid
  obtain ⟨attempted, noInvalidation, sameMode⟩ := blockCommitted_anchor remembers
  rw [skipped.memory] at attempted noInvalidation sameMode
  obtain ⟨mode, covered⟩ := tracks anchor attempted noInvalidation
  have notAfter : block.slotOrZero ≤ anchor.slot := by
    have notDue := skipped.notDue
    rw [Indexer.ledgerDue, if_pos mode, attempted] at notDue
    simpa [Option.filter_eq_none_iff] using notDue
  rw [← slot] at notAfter
  refine ⟨skipped.memory ▸ sameMode.trans mode, .of_le ?_ ?_ ?_ notAfter⟩
  · rw [sameSet]
    exact covered.active
  · rw [sameSet]
    exact covered.anchored
  · rw [sameSet]
    exact fun applied mark => fact.marked covered.active applied mark _ covered.anchored

/-- The anchor that a block is on top of, as the memory and the row have it. -/
theorem BlockApplied.anchored (got : BlockApplied indexer attempt db stored block txs anchor)
    (tracks : Tracks indexer db.sync) :
    indexer.crawlUtxoSet = true ∧ indexer.utxoAnchor = some anchor ∧
      anchor.slot < block.slotOrZero ∧ Covered db.sync anchor.slot := by
  have due := got.due
  simp only [Indexer.ledgerDue, Option.ite_none_right_eq_some, Option.filter_eq_some_iff,
    decide_eq_true_eq] at due
  exact ⟨due.1, due.2.1, due.2.2, (tracks anchor due.2.1 got.noInvalidation).2⟩

/-- A block that the set got. -/
theorem AppliedFact.concat (fact : AppliedFact db.sync applied) (tracks : Tracks indexer db.sync)
    (got : BlockApplied indexer attempt db stored block txs anchor)
    (anchorKept : stored.sync.utxoSet.anchorSlot = db.sync.utxoSet.anchorSlot)
    (slot : stored.sync.lastSlot = block.slotOrZero)
    (before : db.sync.lastSlot < block.slotOrZero) :
    AppliedFact stored.sync (applied ++ [block.point]) := by
  obtain ⟨-, -, after, covered⟩ := got.anchored tracks
  have anchored : stored.sync.utxoSet.anchorSlot = some anchor.slot :=
    anchorKept.trans covered.anchored
  have mark : stored.sync.utxoSet.appliedSlot = some block.slotOrZero := by
    rw [got.utxoSet]
  refine ⟨?_, fun _ => ?_, fun _ => ?_, ?_⟩
  · refine List.pairwise_append.mpr ⟨fact.once, List.pairwise_singleton _ _, ?_⟩
    intro b bMem later laterMem
    rw [List.mem_singleton.mp laterMem]
    exact (fact.below covered.active b bMem).trans_lt before
  · refine List.forall_mem_append.mpr ⟨fun b bMem => ?_, fun b bMem => ?_⟩
    · obtain ⟨anchorSlot, isSlot, beyond⟩ := fact.afterAnchor covered.active b bMem
      exact ⟨anchorSlot, anchorKept.trans isSlot, beyond⟩
    · rw [List.mem_singleton.mp bMem]
      exact ⟨anchor.slot, anchored, after⟩
  · rw [slot]
    refine List.forall_mem_append.mpr ⟨fun b bMem => ?_, fun b bMem => ?_⟩
    · exact ((fact.below covered.active b bMem).trans_lt before).le
    · rw [List.mem_singleton.mp bMem]
      exact Nat.le_refl _
  · intro _ appliedSlot isMark anchorSlot isSlot
    cases mark.symm.trans isMark
    cases anchored.symm.trans isSlot
    exact after.le

theorem Tracks.concat (tracks : Tracks indexer db.sync)
    (got : BlockApplied indexer attempt db stored block txs anchor)
    (anchorKept : stored.sync.utxoSet.anchorSlot = db.sync.utxoSet.anchorSlot)
    (slot : stored.sync.lastSlot = block.slotOrZero) :
    Tracks attempt.blockCommitted stored.sync := by
  obtain ⟨pendingVerified, memory⟩ := got.memory
  obtain ⟨mode, remembered, -, covered⟩ := got.anchored tracks
  have active : stored.sync.utxoSet.status = .active := by
    rw [got.utxoSet]
    exact covered.active
  have mark : stored.sync.utxoSet.appliedSlot = some block.slotOrZero := by
    rw [got.utxoSet]
  intro a remembers valid
  obtain ⟨attempted, -, sameMode⟩ := blockCommitted_anchor remembers
  rw [memory] at attempted sameMode
  have isA : anchor = a := Option.some.inj (remembered.symm.trans attempted)
  subst isA
  exact ⟨memory ▸ sameMode.trans mode,
    .of_applied active (anchorKept.trans covered.anchored) mark slot.le⟩

/-- A block with which the set became invalid. -/
theorem tracks_refused {epochData : Option Nat} {tip : Option ChainPoint} {now : Time}
    (refused : BlockRefused indexer db stored block)
    (committed : persistBlockTx indexer db block txs epochData tip (some owner) now =
      (attempt, some stored)) : Tracks attempt.blockCommitted stored.sync := by
  intro anchor remembers _
  obtain ⟨-, noInvalidation, -⟩ := blockCommitted_anchor remembers
  have refusal := persistBlockTx_refused refused committed
  rw [noInvalidation] at refusal
  cases refusal

omit [Bech32] in
/-- A rollback that undoes blocks of the set. -/
theorem AppliedFact.undone (fact : AppliedFact db.sync applied)
    (undoes : db.undoesLedger forkSlot = true)
    (utxoSet : stored.sync.utxoSet = { db.sync.utxoSet with
      appliedSlot := db.sync.utxoSet.appliedSlot.map fun applied => min applied forkSlot })
    (slot : stored.sync.lastSlot = forkSlot) :
    AppliedFact stored.sync (applied.filter fun b => decide (b.slot ≤ forkSlot)) := by
  simp only [Db.undoesLedger, Bool.and_eq_true, decide_eq_true_eq] at undoes
  obtain ⟨active, notBelow⟩ := undoes
  have mark : stored.sync.utxoSet.appliedSlot =
      db.sync.utxoSet.appliedSlot.map fun applied => min applied forkSlot := by
    rw [utxoSet]
  have anchorKept : stored.sync.utxoSet.anchorSlot = db.sync.utxoSet.anchorSlot := by
    rw [utxoSet]
  refine ⟨fact.once.filter _, fun _ b bMem => ?_, fun _ b bMem => ?_, ?_⟩
  · obtain ⟨anchorSlot, anchored, beyond⟩ := fact.afterAnchor active b (List.mem_filter.mp bMem).1
    exact ⟨anchorSlot, anchorKept.trans anchored, beyond⟩
  · rw [slot]
    exact of_decide_eq_true (List.mem_filter.mp bMem).2
  · intro _ applied isMark anchorSlot isSlot
    have anchored := anchorKept.symm.trans isSlot
    rw [mark, Option.map_eq_some_iff] at isMark
    obtain ⟨slotBefore, wasMark, rfl⟩ := isMark
    rw [anchored, Option.any_some, decide_eq_true_eq] at notBelow
    exact le_min (fact.marked active slotBefore wasMark anchorSlot anchored) notBelow

omit [Bech32] in
theorem Tracks.undone (tracks : Tracks indexer db.sync)
    (utxoSet : stored.sync.utxoSet = { db.sync.utxoSet with
      appliedSlot := db.sync.utxoSet.appliedSlot.map fun applied => min applied forkSlot })
    (slot : stored.sync.lastSlot = forkSlot) (back : forkSlot ≤ db.sync.lastSlot) :
    Tracks indexer stored.sync := by
  have mark : stored.sync.utxoSet.appliedSlot =
      db.sync.utxoSet.appliedSlot.map fun applied => min applied forkSlot := by
    rw [utxoSet]
  have anchorKept : stored.sync.utxoSet.anchorSlot = db.sync.utxoSet.anchorSlot := by
    rw [utxoSet]
  intro anchor remembers valid
  obtain ⟨mode, covered⟩ := tracks anchor remembers valid
  have stillActive : stored.sync.utxoSet.status = .active := by
    rw [utxoSet]
    exact covered.active
  refine ⟨mode, stillActive, anchorKept.trans covered.anchored, ?_⟩
  refine (skippedSince_eq_none stillActive).mpr fun lastApplied last => ?_
  rw [slot]
  -- the cursor was not past the last applied slot before
  have reached := (skippedSince_eq_none covered.active).mp covered.none_skipped
  rw [UtxoSetState.lastApplied, mark] at last
  rw [UtxoSetState.lastApplied] at reached
  cases wasMark : db.sync.utxoSet.appliedSlot with
  | none =>
    rw [wasMark, Option.none_or] at reached
    rw [wasMark, Option.map_none, Option.none_or, anchorKept] at last
    exact back.trans (reached lastApplied last)
  | some slotBefore =>
    rw [wasMark, Option.some_or] at reached
    rw [wasMark, Option.map_some, Option.some_or] at last
    cases last
    exact le_min (back.trans (reached slotBefore rfl)) (Nat.le_refl _)

omit [Bech32] in
/-- A rollback while no set with an anchor is active. -/
theorem AppliedFact.untouched (fact : AppliedFact db.sync applied)
    (inactive : db.sync.utxoSet.status = .active → db.sync.utxoSet.anchorSlot = none)
    (utxoSet : stored.sync.utxoSet = db.sync.utxoSet) : AppliedFact stored.sync applied := by
  refine ⟨fact.once, ?_, ?_, ?_⟩
  · rw [utxoSet]
    exact fact.afterAnchor
  · intro active b bMem
    rw [utxoSet] at active
    obtain ⟨anchorSlot, anchored, -⟩ := fact.afterAnchor active b bMem
    exact absurd (anchored.symm.trans (inactive active)) (Option.some_ne_none _)
  · rw [utxoSet]
    intro active applied _ anchorSlot anchored
    exact absurd (anchored.symm.trans (inactive active)) (Option.some_ne_none _)

omit [Bech32] in
theorem Tracks.untouched (tracks : Tracks indexer db.sync)
    (inactive : db.sync.utxoSet.status = .active → db.sync.utxoSet.anchorSlot = none) :
    Tracks indexer row := by
  intro anchor remembers valid
  obtain ⟨-, covered⟩ := tracks anchor remembers valid
  exact absurd (covered.anchored.symm.trans (inactive covered.active)) (Option.some_ne_none _)

end Commits

end Facts

/-! ## Steps -/

namespace Takeover

section Steps

variable [Bech32] {config : CrawlStart} {s : Takeover} {owner : LeaseOwner}

omit [Bech32] in
/-- One instance goes on, and the others are as they were. -/
theorem peers_at {holds : LeaseOwner → Peer → Prop} {peer : Peer} (own : holds owner peer)
    (others : ∀ other, other ≠ owner → holds other (s.peers other)) :
    ∀ other, holds other (s.at owner peer other) := by
  intro other
  by_cases same : other = owner
  · subst same
    rw [Takeover.at, Function.update_self]
    exact own
  · rw [Takeover.at, Function.update_of_ne same]
    exact others other same

omit [Bech32] in
/-- The facts of the others after a commit of the lease holder. -/
theorem Sound.others_lost (sound : s.Sound) {row : SyncState} {applied : List ChainPoint}
    (holder : row.leaseOwner = some owner) :
    ∀ other, other ≠ owner → PeerFact (s.commits + 1) row applied other (s.peers other) := by
  intro other different
  refine (sound.peers other).lost fun held => ?_
  rw [holder] at held
  exact different (Option.some.inj held).symm

omit [Bech32] in
theorem Sound.readCursor (sound : s.Sound) {network : String} {start : Option ChainPoint}
    {cursor : SyncState}
    (read : ensureSyncStateSingleton (some s.db.sync) network start = some cursor) :
    ({ s with peers := s.at owner (.reading cursor s.commits) } : Takeover).Sound := by
  have isRow : cursor = s.db.sync := by
    simp only [ensureSyncStateSingleton, Option.ite_none_right_eq_some, Option.some.injEq] at read
    exact read.2.symm
  subst isRow
  exact { sound with
    continues := ⟨sound.continues.fresh, sound.continues.indexedOnce,
      sound.continues.appliedOnce, sound.continues.afterAnchor, sound.continues.noAccident⟩
    peers := peers_at ⟨Nat.le_refl _, fun _ => ⟨rfl, rfl⟩⟩ fun other _ => sound.peers other }

omit [Bech32] in
/-- A step that writes neither the cursor nor the set nor the ledger. -/
theorem Sound.leaseStep (sound : s.Sound) {row : SyncState} {clock : Time}
    {peers : LeaseOwner → Peer} {grants : List Grant} {crawl : CrawlStore} {ledger : LedgerDb}
    (position : row.position = s.db.sync.position) (utxoSet : row.utxoSet = s.db.sync.utxoSet)
    (fresh : ∀ g ∈ grants, g.used.position = g.stored.position ∧ g.used.utxoSet = g.stored.utxoSet)
    (facts : ∀ owner, PeerFact s.commits row s.applied owner (peers owner)) :
    ({ s with db := ⟨crawl, ledger, row⟩, clock, peers, grants } : Takeover).Sound := by
  have slot : row.lastSlot = s.db.sync.lastSlot := congrArg Prod.fst position
  refine
    { continues := ⟨fresh, sound.continues.indexedOnce, sound.continues.appliedOnce, ?_,
        sound.continues.noAccident⟩
      peers := facts
      indexedBelow := ?_
      appliedBelow := ?_
      marked := ?_ }
  · dsimp only
    rw [utxoSet]
    exact sound.continues.afterAnchor
  · dsimp only
    rw [slot]
    exact sound.indexedBelow
  · dsimp only
    rw [slot, utxoSet]
    exact sound.appliedBelow
  · dsimp only
    rw [utxoSet]
    exact sound.marked

omit [Bech32] in
theorem Sound.grant (sound : s.Sound) {cursor : SyncState} {seen : Nat} {now : Time}
    (reads : s.peers owner = .reading cursor seen) (undisturbed : s.Undisturbed owner)
    (granted : (s.db.sync.tryAcquireCrawlerLease owner now).2 = true) :
    ({ s with
      db := { s.db with sync := (s.db.sync.tryAcquireCrawlerLease owner now).1 }
      clock := now
      peers := s.at owner (.granted cursor seen)
      grants := s.grants ++ [⟨cursor, s.db.sync⟩] } : Takeover).Sound := by
  have moved := tryAcquireCrawlerLease_moved granted
  have current : seen = s.commits := undisturbed cursor seen (.inl reads)
  have read : ReadFact s.commits s.db.sync cursor seen := by
    have fact := sound.peers owner
    rw [reads] at fact
    exact fact
  have stored := read.stored current
  refine sound.leaseStep moved.position moved.utxoSet ?_ (peers_at ?_ ?_)
  · refine List.forall_mem_append.mpr ⟨sound.continues.fresh, fun g mem => ?_⟩
    rw [List.mem_singleton.mp mem]
    exact stored
  · refine ⟨⟨read.past, fun _ => ?_⟩, fun _ => ⟨?_, .inl ?_⟩⟩
    · rw [moved.position, moved.utxoSet]
      exact stored
    · rw [moved.position]
      exact stored.1
    · rw [moved.utxoSet]
      exact stored.2
  · intro other different
    refine (sound.peers other).kept moved.position moved.utxoSet fun held => ?_
    rw [moved.leaseOwner] at held
    exact absurd (Option.some.inj held).symm different

omit [Bech32] in
theorem tracks_none {memory : Indexer} {row : SyncState} (off : memory.utxoAnchor = none) :
    Tracks memory row := by
  intro anchor remembers
  rw [off] at remembers
  cases remembers

omit [Bech32] in
/-- A verdict is stored over the row that the start has read. -/
theorem Sound.verdict (sound : s.Sound) {cursor : SyncState} {seen : Nat} {memory : Indexer}
    {lastApplied : Nat} {error : String} (starts : s.peers owner = .granted cursor seen)
    (undisturbed : s.Undisturbed owner) (skipped : skippedSince cursor = some lastApplied)
    (off : memory.utxoAnchor = none) :
    ({ s with
      db := { s.db with sync := s.db.sync.markUtxoSetInvalid error }
      peers := s.at owner (.running memory none)
      commits := s.commits + 1 } : Takeover).Sound := by
  have current : seen = s.commits := undisturbed cursor seen (.inr starts)
  have fact := sound.peers owner
  rw [starts] at fact
  obtain ⟨position, utxoSet⟩ := fact.1.stored current
  have skippedRow : skippedSince s.db.sync = some lastApplied := by
    rw [← skippedSince_congr position utxoSet]
    exact skipped
  refine
    { continues := ⟨sound.continues.fresh, sound.continues.indexedOnce,
        sound.continues.appliedOnce, nofun, sound.continues.noAccident⟩
      peers := peers_at ?_ fun other _ => (sound.peers other).verdict skippedRow
      indexedBelow := sound.indexedBelow
      appliedBelow := nofun
      marked := nofun }
  exact fun _ => ⟨nofun, tracks_none off⟩

omit [Bech32] in
/-- What `start` decides about the set. -/
theorem Sound.configure (sound : s.Sound) {cursor : SyncState} {seen : Nat} {utxoSet : Bool}
    {indexer : Indexer} (starts : s.peers owner = .granted cursor seen)
    (undisturbed : utxoSet = true → (skippedSince cursor).isSome = true → s.Undisturbed owner) :
    ({ s with
      db := { s.db with sync := (startUtxoSet utxoSet cursor indexer s.db.sync).2 }
      peers := s.at owner (.running (startUtxoSet utxoSet cursor indexer s.db.sync).1 none)
      commits := if utxoSet && (skippedSince cursor).isSome then s.commits + 1
        else s.commits } : Takeover).Sound := by
  have fact := sound.peers owner
  rw [starts] at fact
  have others : ∀ other, other ≠ owner →
      PeerFact s.commits s.db.sync s.applied other (s.peers other) :=
    fun other _ => sound.peers other
  cases utxoSet with
  | false =>
    exact sound.leaseStep rfl rfl sound.continues.fresh
      (peers_at (fun _ => ⟨nofun, tracks_none rfl⟩) others)
  | true =>
    cases skipped : skippedSince cursor with
    | some lastApplied =>
      simp only [startUtxoSet, skipped, if_true, Option.isSome_some, Bool.and_self]
      exact sound.verdict starts (undisturbed rfl (by rw [skipped]; rfl)) skipped rfl
    | none =>
      simp only [startUtxoSet, skipped, if_true, Option.isSome_none, Bool.and_false,
        Bool.false_eq_true, if_false]
      refine sound.leaseStep rfl rfl sound.continues.fresh (peers_at (fun held => ⟨nofun, ?_⟩) others)
      obtain ⟨position, same⟩ := fact.2 held
      rw [skipped] at same
      have stored := same.resolve_right Bool.false_ne_true
      intro anchor remembers _
      have isAnchor : cursor.utxoSet.activeAnchor = some anchor := remembers
      rw [stored] at isAnchor
      obtain ⟨active, anchored, -⟩ := UtxoSetState.activeAnchor_eq_some.mp isAnchor
      exact ⟨rfl, active, anchored, skippedSince_congr position stored ▸ skipped⟩

omit [Bech32] in
theorem Sound.openSource (sound : s.Sound) {indexer : Indexer}
    {position : Option (Nat × Option BlockHash)} (runs : s.peers owner = .running indexer position) :
    ({ s with peers := s.at owner (.running indexer (some s.db.sync.position)) } :
      Takeover).Sound := by
  refine sound.leaseStep rfl rfl sound.continues.fresh
    (peers_at (fun held => ⟨fun p same => (Option.some.inj same).symm, ?_⟩)
      fun other _ => sound.peers other)
  have fact := sound.peers owner
  rw [runs] at fact
  exact (fact held).2

/-- An attempt that fails leaves the anchor in memory. -/
theorem indexBlockFull_anchor (indexer : Indexer) (db : Db) (message : RollForward) :
    (indexBlockFull indexer db message.block message.txs message.epochData).1.utxoAnchor =
        indexer.utxoAnchor ∧
      (indexBlockFull indexer db message.block message.txs message.epochData).1.crawlUtxoSet =
        indexer.crawlUtxoSet ∧
      ((indexBlockFull indexer db message.block message.txs message.epochData).1.ledgerInvalidation =
          none → indexer.ledgerInvalidation = none) := by
  simp only [indexBlockFull]
  split
  · exact ⟨rfl, rfl, id⟩
  · split
    · exact ⟨rfl, rfl, id⟩
    · rename_i valid
      cases indexer.utxoAnchorVerified with
      | true => exact ⟨rfl, rfl, id⟩
      | false =>
        simp only [Bool.false_eq_true, if_false, verifyUtxoAnchor]
        split
        · exact ⟨rfl, rfl, id⟩
        · exact ⟨rfl, rfl, fun _ => valid⟩

theorem Sound.attemptFails (sound : s.Sound) {indexer memory : Indexer}
    {position : Option (Nat × Option BlockHash)} {message : RollForward}
    (runs : s.peers owner = .running indexer position)
    (changed : memory = { indexer with pendingVerified := none } ∨
      memory = (indexBlockFull indexer s.db message.block message.txs message.epochData).1) :
    ({ s with peers := s.at owner (.running memory position) } : Takeover).Sound := by
  have fact := sound.peers owner
  rw [runs] at fact
  refine sound.leaseStep rfl rfl sound.continues.fresh
    (peers_at (fun held => ⟨(fact held).1, ?_⟩) fun other _ => sound.peers other)
  have tracks := (fact held).2
  rcases changed with rfl | rfl
  · exact tracks
  · obtain ⟨anchor, mode, valid⟩ := indexBlockFull_anchor indexer s.db message
    intro a remembers noInvalidation
    rw [mode]
    exact tracks a (anchor.symm.trans remembers) (valid noInvalidation)

omit [Bech32] in
/-- What a crawler commits under the lease. -/
theorem Sound.committed (sound : s.Sound) {db : Db} {memory : Indexer}
    {position : Nat × Option BlockHash} {indexed applied : List ChainPoint}
    (holder : db.sync.leaseOwner = some owner) (cursor : db.sync.position = position)
    (indexedOnce : indexed.Pairwise fun b later => b.slot < later.slot)
    (indexedBelow : ∀ b ∈ indexed, b.slot ≤ db.sync.lastSlot)
    (fact : AppliedFact db.sync applied) (tracks : Tracks memory db.sync) :
    ({ s with
      db
      peers := s.at owner (.running memory (some position))
      commits := s.commits + 1
      indexed
      applied } : Takeover).Sound where
  continues := ⟨sound.continues.fresh, indexedOnce, fact.once, fact.afterAnchor,
    sound.continues.noAccident⟩
  peers := peers_at (fun _ => ⟨fun _ same => (Option.some.inj same).symm.trans cursor.symm, tracks⟩)
    (sound.others_lost holder)
  indexedBelow := indexedBelow
  appliedBelow := fact.below
  marked := fact.marked

/-- A block after the cursor that the source remembers. -/
theorem Sound.commitBlock (sound : s.Sound) {indexer attempt : Indexer}
    {position : Nat × Option BlockHash} {message : RollForward} {now : Time} {db : Db}
    (runs : s.peers owner = .running indexer (some position))
    (next : position.1 < message.block.slotOrZero)
    (committed : persistBlockTx indexer s.db message.block message.txs message.epochData
      message.tip (some owner) now = (attempt, some db)) :
    ({ s with
      db
      peers := s.at owner (.running attempt.blockCommitted
        (some (message.block.slotOrZero, some message.block.hash)))
      commits := s.commits + 1
      indexed := s.indexed ++ [message.block.point]
      applied :=
        if (ledgerAnswering indexer s.db message.block).isSome then
          s.applied ++ [message.block.point]
        else s.applied } : Takeover).Sound := by
  obtain ⟨held, holder, cursor, anchorKept⟩ := persistBlockTx_row committed
  have own := sound.peers owner
  rw [runs] at own
  obtain ⟨follows, tracks⟩ := own held
  rw [follows position rfl] at next
  have before : s.db.sync.lastSlot < message.block.slotOrZero := next
  have slot : db.sync.lastSlot = message.block.slotOrZero := congrArg Prod.fst cursor
  have newIndexed : (s.indexed ++ [message.block.point]).Pairwise
      fun b later => b.slot < later.slot := by
    refine List.pairwise_append.mpr ⟨sound.continues.indexedOnce, List.pairwise_singleton _ _, ?_⟩
    intro b bMem later laterMem
    rw [List.mem_singleton.mp laterMem]
    exact (sound.indexedBelow b bMem).trans_lt before
  have newBelow : ∀ b ∈ s.indexed ++ [message.block.point], b.slot ≤ db.sync.lastSlot := by
    rw [slot]
    refine List.forall_mem_append.mpr ⟨fun b bMem => ?_, fun b bMem => ?_⟩
    · exact ((sound.indexedBelow b bMem).trans_lt before).le
    · rw [List.mem_singleton.mp bMem]
      exact Nat.le_refl _
  have fact := sound.appliedFact
  rcases persistBlockTx_set committed with skipped | ⟨anchor, applied⟩ | refused
  · simp only [skipped.unanswered, Option.isSome_none, Bool.false_eq_true, if_false]
    exact sound.committed holder cursor newIndexed newBelow (fact.skipped skipped slot before)
      (tracks.skipped fact skipped slot)
  · simp only [applied.answered, Option.isSome_some, if_true]
    exact sound.committed holder cursor newIndexed newBelow
      (fact.concat tracks applied anchorKept slot before) (tracks.concat applied anchorKept slot)
  · have inactive : db.sync.utxoSet.status ≠ .active := by
      rw [refused.status]
      decide
    simp only [refused.unanswered, Option.isSome_none, Bool.false_eq_true, if_false]
    exact sound.committed holder cursor newIndexed newBelow (.of_inactive fact.once inactive)
      (tracks_refused refused committed)

/-- A rollback at or below the cursor the source stands at. -/
theorem Sound.commitReorg (sound : s.Sound) {indexer : Indexer}
    {position : Nat × Option BlockHash} {point : Option ChainPoint} {now : Time} {db : Db}
    {ledgerInvalidated : Bool} (runs : s.peers owner = .running indexer (some position))
    (back : forkSlotOf config point ≤ position.1)
    (committed : handleReorgTx config s.db point (some owner) now =
      some (db, ledgerInvalidated)) :
    ({ s with
      db
      peers := s.at owner (.running (indexer.reorgCommitted ledgerInvalidated)
        (some db.sync.position))
      commits := s.commits + 1
      indexed := s.indexed.filter fun b => decide (b.slot ≤ forkSlotOf config point)
      applied :=
        if s.db.undoesLedger (forkSlotOf config point) then
          s.applied.filter fun b => decide (b.slot ≤ forkSlotOf config point)
        else s.applied } : Takeover).Sound := by
  obtain ⟨held, holder, slot, -, outcome⟩ := handleReorgTx_row committed
  have own := sound.peers owner
  rw [runs] at own
  obtain ⟨follows, tracks⟩ := own held
  rw [follows position rfl] at back
  have indexedOnce := sound.continues.indexedOnce.filter
    fun b => decide (b.slot ≤ forkSlotOf config point)
  have indexedBelow : ∀ b ∈ s.indexed.filter fun b => decide (b.slot ≤ forkSlotOf config point),
      b.slot ≤ db.sync.lastSlot := by
    intro b bMem
    rw [show db.sync.lastSlot = forkSlotOf config point from slot]
    exact of_decide_eq_true (List.mem_filter.mp bMem).2
  have fact := sound.appliedFact
  cases outcome with
  | undone undoes utxoSet kept =>
    simp only [undoes, if_true]
    rw [kept, Indexer.reorgCommitted, if_neg Bool.false_ne_true]
    exact sound.committed holder rfl indexedOnce indexedBelow (fact.undone undoes utxoSet slot)
      (tracks.undone utxoSet slot back)
  | invalidated invalid keeps dropped =>
    have inactive : db.sync.utxoSet.status ≠ .active := by
      rw [invalid]
      decide
    simp only [keeps, Bool.false_eq_true, if_false]
    rw [dropped, Indexer.reorgCommitted, if_pos rfl]
    exact sound.committed holder rfl indexedOnce indexedBelow (.of_inactive fact.once inactive)
      (tracks_none rfl)
  | untouched inactive keeps utxoSet kept =>
    simp only [keeps, Bool.false_eq_true, if_false]
    rw [kept, Indexer.reorgCommitted, if_neg Bool.false_ne_true]
    exact sound.committed holder rfl indexedOnce indexedBelow (fact.untouched inactive utxoSet)
      (tracks.untouched inactive)

/-- The handshake of a stream rolls nothing back. -/
theorem Sound.no_accident (sound : s.Sound) {indexer : Indexer} {position : ChainPoint}
    {now : Time} {db : Db} {ledgerInvalidated : Bool}
    (runs : s.peers owner = .running indexer (some (position.slot, some position.hash)))
    (differs : s.db.sync.lastBlockHash ≠ some position.hash)
    (committed : handleReorgTx config s.db (some position) (some owner) now =
      some (db, ledgerInvalidated)) : False := by
  have fact := sound.peers owner
  rw [runs] at fact
  have isCursor := (fact (handleReorgTx_row committed).1).1 _ rfl
  exact differs (congrArg Prod.snd isCursor).symm

omit [Bech32] in
theorem Sound.grantImport (sound : s.Sound) {now : Time}
    (granted : (s.db.sync.tryAcquireImportLease owner now).2 = true) :
    ({ s with
      db := { s.db with sync := (s.db.sync.tryAcquireImportLease owner now).1 }
      clock := now
      peers := s.at owner (.importing none) } : Takeover).Sound := by
  have moved := tryAcquireImportLease_moved granted
  refine sound.leaseStep moved.position moved.utxoSet sound.continues.fresh
    (peers_at trivial fun other different => ?_)
  refine (sound.peers other).kept moved.position moved.utxoSet fun held => ?_
  rw [moved.leaseOwner] at held
  exact absurd (Option.some.inj held).symm different

omit [Bech32] in
theorem Sound.beginImport (sound : s.Sound) {anchor : LedgerAnchor} {now : Time} {db : Db}
    (committed : beginImportTx s.db anchor owner now = some db) :
    ({ s with
      db
      peers := s.at owner (.importing (some anchor))
      commits := s.commits + 1
      applied := [] } : Takeover).Sound := by
  obtain ⟨-, holder, position, utxoSet⟩ := beginImportTx_row committed
  have slot : db.sync.lastSlot = s.db.sync.lastSlot := congrArg Prod.fst position
  have inactive : db.sync.utxoSet.status ≠ .active := by
    rw [utxoSet]
    exact nofun
  refine
    { continues := ⟨sound.continues.fresh, sound.continues.indexedOnce, List.Pairwise.nil,
        fun active => absurd active inactive, sound.continues.noAccident⟩
      peers := peers_at (fun _ => ⟨rfl, ?_⟩) (sound.others_lost holder)
      indexedBelow := ?_
      appliedBelow := fun active => absurd active inactive
      marked := fun active => absurd active inactive }
  · rw [utxoSet]
  · dsimp only
    rw [slot]
    exact sound.indexedBelow

omit [Bech32] in
/-- The activation of a set that was loaded since its import began. -/
theorem Sound.activate (sound : s.Sound) {anchor : LedgerAnchor} {importedAt now : Time} {db : Db}
    (imports : s.peers owner = .importing (some anchor))
    (committed : activateWithAggregates s.db anchor importedAt id id owner now = some db) :
    ({ s with db, peers := s.at owner .gone, commits := s.commits + 1 } : Takeover).Sound := by
  obtain ⟨held, holder, position, -, mark⟩ := activate_row committed
  have slot : db.sync.lastSlot = s.db.sync.lastSlot := congrArg Prod.fst position
  have fact := sound.peers owner
  rw [imports] at fact
  obtain ⟨noneApplied, noMark⟩ := fact held
  refine
    { continues := ⟨sound.continues.fresh, sound.continues.indexedOnce,
        sound.continues.appliedOnce, ?_, sound.continues.noAccident⟩
      peers := peers_at trivial (sound.others_lost holder)
      indexedBelow := ?_
      appliedBelow := ?_
      marked := ?_ }
  · intro _ b bMem
    rw [noneApplied] at bMem
    exact absurd bMem List.not_mem_nil
  · dsimp only
    rw [slot]
    exact sound.indexedBelow
  · intro _ b bMem
    rw [noneApplied] at bMem
    exact absurd bMem List.not_mem_nil
  · intro _ applied isMark
    dsimp only at isMark
    rw [mark, noMark] at isMark
    cases isMark

omit [Bech32] in
theorem Sound.importFails (sound : s.Sound) {error : String} {now : Time}
    (renewed : (s.db.sync.renewImportLease owner now).2 = true) :
    ({ s with
      db := markInvalidTx s.db error owner now
      peers := s.at owner .gone
      commits := s.commits + 1 } : Takeover).Sound := by
  obtain ⟨holder, position, invalid⟩ := @markInvalidTx_row owner now s.db error renewed
  have slot : (markInvalidTx s.db error owner now).sync.lastSlot = s.db.sync.lastSlot :=
    congrArg Prod.fst position
  have inactive : (markInvalidTx s.db error owner now).sync.utxoSet.status ≠ .active := by
    rw [invalid]
    exact nofun
  refine
    { continues := ⟨sound.continues.fresh, sound.continues.indexedOnce,
        sound.continues.appliedOnce, fun active => absurd active inactive,
        sound.continues.noAccident⟩
      peers := peers_at trivial (sound.others_lost holder)
      indexedBelow := ?_
      appliedBelow := fun active => absurd active inactive
      marked := fun active => absurd active inactive }
  dsimp only
  rw [slot]
  exact sound.indexedBelow

theorem Sound.step {s' : Takeover} (sound : s.Sound)
    (step : TakeoverStep config Takeover.Undisturbed s s') : s'.Sound := by
  cases step with
  | tick now later => exact sound.leaseStep rfl rfl sound.continues.fresh sound.peers
  | readCursor owner network start cursor absent read resumable => exact sound.readCursor read
  | grant owner cursor seen now later reads may granted => exact sound.grant reads may granted
  | configure owner cursor seen utxoSet indexer starts may => exact sound.configure starts may
  | openSource owner indexer position runs => exact sound.openSource runs
  | attemptFails owner indexer memory position message runs changed =>
    exact sound.attemptFails runs changed
  | commitBlock owner indexer attempt position message now db runs next committed =>
    exact sound.commitBlock runs next committed
  | commitReorg owner indexer position point now db ledgerInvalidated runs back committed =>
    exact sound.commitReorg runs back committed
  | handshake owner indexer position now db ledgerInvalidated runs differs committed =>
    exact (sound.no_accident runs differs committed).elim
  | bookkeeping sync now later position utxoSet holder =>
    refine sound.leaseStep position utxoSet sound.continues.fresh fun owner => ?_
    refine (sound.peers owner).kept position utxoSet fun held => ?_
    rcases holder with kept | released
    · exact kept ▸ held
    · rw [released] at held
      cases held
  | ends owner =>
    exact sound.leaseStep rfl rfl sound.continues.fresh
      (peers_at trivial fun other _ => sound.peers other)
  | grantImport owner now later absent granted => exact sound.grantImport granted
  | beginImport owner anchor now db imports committed => exact sound.beginImport committed
  | importPage owner anchor entries now db imports committed =>
    obtain ⟨held, moved⟩ := importPageTx_row committed
    refine sound.leaseStep moved.position moved.utxoSet sound.continues.fresh fun other => ?_
    refine (sound.peers other).kept moved.position moved.utxoSet fun now => ?_
    rw [moved.leaseOwner] at now
    exact held.trans now
  | activate owner anchor importedAt now db imports committed =>
    exact sound.activate imports committed
  | importFails owner anchor error now imports renewed => exact sound.importFails renewed

omit [Bech32] in
theorem sound_begin (network : String) (start : Option ChainPoint) :
    (Takeover.begin network start).Sound where
  continues :=
    { fresh := fun _ mem => absurd mem List.not_mem_nil
      indexedOnce := List.Pairwise.nil
      appliedOnce := List.Pairwise.nil
      afterAnchor := fun _ _ mem => absurd mem List.not_mem_nil
      noAccident := rfl }
  peers := fun _ => trivial
  indexedBelow := fun _ mem => absurd mem List.not_mem_nil
  appliedBelow := fun _ _ mem => absurd mem List.not_mem_nil
  marked := nofun

end Steps

end Takeover

/-- If nothing is committed between the cursor read of a start and its uses, every start
continues from the state its predecessor left. -/
theorem undisturbed_continues [Bech32] {config : CrawlStart} {network : String}
    {start : Option ChainPoint} {s : Takeover}
    (run : Relation.ReflTransGen (TakeoverStep config Takeover.Undisturbed)
      (Takeover.begin network start) s) : s.Continues := by
  have sound : s.Sound := by
    induction run with
    | refl => exact Takeover.sound_begin network start
    | tail _ step ih => exact ih.step step
  exact sound.continues

/-- A block was applied that the snapshot has. -/
theorem Takeover.not_continues {s : Takeover} {anchorSlot : Nat}
    (active : s.db.sync.utxoSet.status = .active)
    (anchored : s.db.sync.utxoSet.anchorSlot = some anchorSlot)
    (inSnapshot : ∃ b ∈ s.applied, b.slot ≤ anchorSlot) : ¬s.Continues := by
  rintro continues
  obtain ⟨b, bMem, notAfter⟩ := inSnapshot
  obtain ⟨slot, isAnchor, after⟩ := continues.afterAnchor active b bMem
  cases anchored.symm.trans isAnchor
  omega

section Samples

attribute [local instance] byronBech32

def takeoverConfig : CrawlStart := ⟨some 5, some (text "a"), some 1⟩

/-- An import ends. -/
theorem TakeoverStep.release {allowed : Takeover → LeaseOwner → Prop} (s : Takeover)
    (owner : LeaseOwner) :
    TakeoverStep takeoverConfig allowed s
      { s with db := { s.db with sync := s.db.sync.releaseImportLease owner } } := by
  refine .bookkeeping s _ s.clock (Nat.le_refl _) ?_ ?_ ?_ <;>
    by_cases holder : s.db.sync.leaseOwner = some owner <;>
    simp [SyncState.releaseImportLease, SyncState.position, holder]

/-- A block whose lease is held commits. -/
theorem TakeoverStep.commits {allowed : Takeover → LeaseOwner → Prop} {s : Takeover}
    {owner : LeaseOwner} {indexer : Indexer} {position : Nat × Option BlockHash}
    {message : RollForward} {now : Time}
    (runs : s.peers owner = .running indexer (some position))
    (next : position.1 < message.block.slotOrZero)
    (held : (persistBlockTx indexer s.db message.block message.txs message.epochData message.tip
      (some owner) now).2.isSome = true) :
    TakeoverStep takeoverConfig allowed s
      { s with
        db := Option.get _ held
        peers := s.at owner (.running (persistBlockTx indexer s.db message.block message.txs
          message.epochData message.tip (some owner) now).1.blockCommitted
          (some (message.block.slotOrZero, some message.block.hash)))
        commits := s.commits + 1
        indexed := s.indexed ++ [message.block.point]
        applied :=
          if (ledgerAnswering indexer s.db message.block).isSome then
            s.applied ++ [message.block.point]
          else s.applied } :=
  .commitBlock s owner indexer _ position message now _ runs next
    (Prod.ext rfl (Option.some_get held).symm)

/-- A block at slot 7. -/
def takeoverBlock : RollForward := ⟨sampleBlock (text "b") 7 0, [], none, none⟩

def takeoverIndexer : Indexer := ⟨⟨true, true⟩, false, none, false, none, none⟩

theorem undisturbed_continues_sample :
    ∃ s : Takeover, s.applied.map ChainPoint.slot = [7] ∧
      s.db.sync.utxoSet.appliedSlot = some 7 ∧ s.Continues := by
  have leased : Relation.ReflTransGen (TakeoverStep takeoverConfig Takeover.Undisturbed)
      (Takeover.begin "preview" takeoverConfig.point) _ :=
    .single (.grantImport _ "import:1:x" 0 (Nat.le_refl 0) rfl (by decide))
  have begun := leased.tail (.beginImport _ "import:1:x" ⟨5, text "a"⟩ 0 _ rfl rfl)
  have active := begun.tail (.activate _ "import:1:x" ⟨5, text "a"⟩ 0 0 _ rfl rfl)
  have released := active.tail (.release _ "import:1:x")
  have reads := released.tail (.readCursor _ "2:b" "preview" none _ rfl rfl (.inl rfl))
  have granted := reads.tail (.grant _ "2:b" _ _ 10 (Nat.zero_le 10) rfl (by
    rintro cursor seen (read | granted)
    · cases read
      rfl
    · cases granted) (by decide))
  have configured := granted.tail (.configure _ "2:b" _ _ true takeoverIndexer rfl (by
    intro _ skipped
    exact absurd skipped (by decide)))
  have opened := configured.tail (.openSource _ "2:b" _ _ rfl)
  have run := opened.tail (@TakeoverStep.commits _ _ "2:b" _ _ takeoverBlock 20 rfl (by decide)
    (by decide +kernel))
  exact ⟨_, by decide +kernel, by decide +kernel, undisturbed_continues run⟩

/-- A start reads the cursor, another import takes over with a later anchor, and the start
applies a block that the new snapshot already has. -/
theorem takeover_appliesAgain :
    ∃ s : Takeover,
      Relation.ReflTransGen (TakeoverStep takeoverConfig fun _ _ => True)
        (Takeover.begin "preview" takeoverConfig.point) s ∧
      s.applied.map ChainPoint.slot = [7] ∧ s.db.sync.utxoSet.anchorSlot = some 9 ∧
      ¬s.Continues := by
  have leased : Relation.ReflTransGen (TakeoverStep takeoverConfig fun _ _ => True)
      (Takeover.begin "preview" takeoverConfig.point) _ :=
    .single (.grantImport _ "import:1:x" 0 (Nat.le_refl 0) rfl (by decide))
  have begun := leased.tail (.beginImport _ "import:1:x" ⟨5, text "a"⟩ 0 _ rfl rfl)
  have active := begun.tail (.activate _ "import:1:x" ⟨5, text "a"⟩ 0 0 _ rfl rfl)
  have released := active.tail (.release _ "import:1:x")
  have reads := released.tail (.readCursor _ "2:b" "preview" none _ rfl rfl (.inl rfl))
  -- the second import
  have leasedAgain := reads.tail (.grantImport _ "import:3:y" 5 (Nat.zero_le 5) rfl (by decide))
  have begunAgain := leasedAgain.tail (.beginImport _ "import:3:y" ⟨9, text "c"⟩ 5 _ rfl rfl)
  have activeAgain := begunAgain.tail (.activate _ "import:3:y" ⟨9, text "c"⟩ 5 5 _ rfl rfl)
  have releasedAgain := activeAgain.tail (.release _ "import:3:y")
  have granted := releasedAgain.tail (.grant _ "2:b" _ _ 10 (by decide) rfl trivial (by decide))
  have configured := granted.tail
    (.configure _ "2:b" _ _ true takeoverIndexer rfl fun _ _ => trivial)
  have opened := configured.tail (.openSource _ "2:b" _ _ rfl)
  have run := opened.tail (@TakeoverStep.commits _ _ "2:b" _ _ takeoverBlock 20 rfl (by decide)
    (by decide +kernel))
  exact ⟨_, run, by decide +kernel, by decide +kernel,
    @Takeover.not_continues _ 9 (by decide +kernel) (by decide +kernel) (by decide +kernel)⟩

end Samples

end Odatano
