import Odatano.LocalCoverage
import Odatano.Pagination
import Odatano.TransactionPositions

/-!
# Confirmations from the crawled tables

`resolveTransactionConfirmations` of `srv/blockchain/cardano-indexer.ts` answers from
the crawled tables while a live crawler is at the tip.  The tables also hold what
readers stored from any fork.
-/

namespace Odatano

/-! ## The answer -/

/-- Height of a transaction in a crawled block and the crawler's tip; null when the
crawl does not hold it. -/
def crawledTransactionDepth (db : Db) (now : Time) (txHash : TxHash) : Option (Nat × Nat) :=
  match localCoverage db.sync now with
  | none => none
  | some coverage =>
      match coverage.tipHeight, (db.crawl .transactions).find? txHash with
      | some tipHeight, some stored =>
          match stored.blockHeight, stored.slot with
          | some blockHeight, some slot =>
              if slot < coverage.fromSlot ∨ coverage.lastSlot < slot then none
              else if ((db.crawl .blocks).find? stored.blockHash).isNone then none
              else some (blockHeight, max tipHeight blockHeight)
          | _, _ => none
      | _, _ => none

/-- Depth of a transaction in the chain. -/
structure TransactionConfirmations where
  txHash : TxHash
  /-- Null while the transaction is not on chain. -/
  blockHeight : Option Nat
  tipHeight : Option Nat
  /-- 0 while the transaction is not on chain. -/
  confirmations : Nat
deriving DecidableEq

inductive LookupError
  | notFoundOnAllBackends
  | failed
  /-- Chain tip height unknown. -/
  | tipUnknown
deriving DecidableEq

/-- What a lookup of confirmations asks the backends for.  A lookup the crawled chain
answers on its own is refused with not-found. -/
structure ConfirmationLookup where
  getTransaction : Except LookupError Transaction
  getLatestBlock : Except LookupError (Option Nat)

/-- The answer for a block height and a tip.  A tip that lags the block counts the
transaction's block only. -/
def confirmationsAt (txHash : TxHash) (blockHeight tip : Nat) : TransactionConfirmations :=
  let tipHeight := max tip blockHeight
  ⟨txHash, some blockHeight, some tipHeight, tipHeight - blockHeight + 1⟩

/-- Confirmations including the transaction's own block, 0 while it is not on chain. -/
def resolveTransactionConfirmations [Bech32] (db : Db) (now : Time) (txHash : TxHash)
    (lookup : ConfirmationLookup) : CrawlStore × Except LookupError TransactionConfirmations :=
  match crawledTransactionDepth db now txHash with
  | some (blockHeight, tipHeight) =>
      (db.crawl, .ok ⟨txHash, some blockHeight, some tipHeight, tipHeight - blockHeight + 1⟩)
  | none =>
      match lookup.getTransaction with
      | .error .notFoundOnAllBackends => (db.crawl, .ok ⟨txHash, none, none, 0⟩)
      | .error error => (db.crawl, .error error)
      | .ok providerTx =>
          let indexed := indexTransaction db.crawl providerTx
          match indexed.2.blockHeight with
          | none => (indexed.1, .ok ⟨txHash, none, none, 0⟩)
          | some blockHeight =>
              match lookup.getLatestBlock with
              | .error error => (indexed.1, .error error)
              | .ok none => (indexed.1, .error .tipUnknown)
              | .ok (some tip) => (indexed.1, .ok (confirmationsAt txHash blockHeight tip))

/-- What the tables hold when they answer. -/
theorem crawledTransactionDepth_spec {db : Db} {now : Time} {txHash : TxHash} {depth : Nat × Nat}
    (answers : crawledTransactionDepth db now txHash = some depth) :
    ∃ stored ∈ (db.crawl .transactions).rows, stored.hash = txHash ∧
      stored.blockHash ∈ (db.crawl .blocks).rows.map BlockRow.hash ∧
      stored.blockHeight = some depth.1 ∧
      (∃ slot, stored.slot = some slot ∧ db.sync.startSlot.any (· ≤ slot) ∧
        slot ≤ db.sync.lastSlot) ∧
      ∃ tip, db.sync.tipHeight = some tip ∧ depth.2 = max tip depth.1 := by
  simp only [crawledTransactionDepth] at answers
  split at answers
  · cases answers
  · rename_i coverage covers
    simp only [localCoverage, Option.ite_none_right_eq_some, Option.map_eq_some_iff] at covers
    obtain ⟨-, fromSlot, isStart, rfl⟩ := covers
    split at answers
    · rename_i tipHeight stored tipKnown found
      split at answers
      · rename_i blockHeight slot heightKnown slotKnown
        split at answers
        · cases answers
        · rename_i inRange
          split at answers
          · cases answers
          · rename_i blockStored
            cases answers
            obtain ⟨rowMem, sameHash⟩ := Table.find?_eq_some_iff.mp found
            rw [not_or, Nat.not_lt, Nat.not_lt] at inRange
            rw [Bool.not_eq_true, Option.isNone_eq_false_iff, Table.find?_isSome_iff] at blockStored
            refine ⟨stored, rowMem, sameHash, blockStored, heightKnown, ⟨slot, slotKnown, ?_, ?_⟩,
              tipHeight, tipKnown, rfl⟩
            · rw [isStart]
              exact decide_eq_true inRange.1
            · exact inRange.2
      · cases answers
    · cases answers

/-! ## What block transactions keep -/

theorem SyncState.advanceCursor_startSlot (row : SyncState) (block : ChainPoint)
    (tip : Option ChainPoint) (status : CrawlSyncStatus) (applied : Option Nat)
    (leaseOwner : Option LeaseOwner) (now : Time) :
    (row.advanceCursor block tip status applied leaseOwner now).1.startSlot = row.startSlot := by
  cases leaseOwner with
  | none => rfl
  | some owner =>
      simp only [SyncState.advanceCursor]
      split <;> rfl

theorem indexBlockFull_startSlot [Bech32] (indexer : Indexer) (db : Db) (block : BlockData)
    (txs : List Transaction) (epochData : Option Nat) :
    (indexBlockFull indexer db block txs epochData).2.sync.startSlot = db.sync.startSlot := by
  simp only [indexBlockFull]
  split
  · rfl
  · split
    · rfl
    · simp only [verifyUtxoAnchor]
      split <;> split <;> rfl

theorem persistBlockTx_startSlot [Bech32] {indexer : Indexer} {db stored : Db}
    {block : BlockData} {txs : List Transaction} {epochData : Option Nat}
    {tip : Option ChainPoint} {leaseOwner : Option LeaseOwner} {now : Time}
    (committed : (persistBlockTx indexer db block txs epochData tip leaseOwner now).2 =
      some stored) : stored.sync.startSlot = db.sync.startSlot := by
  simp only [persistBlockTx, Option.ite_none_right_eq_some] at committed
  obtain ⟨-, same⟩ := committed
  cases same
  exact (SyncState.advanceCursor_startSlot ..).trans (indexBlockFull_startSlot ..)

theorem rollBackLedger_startSlot [Bech32] (db : Db) (forkSlot : Nat) (txHashes : List TxHash) :
    (rollBackLedger db forkSlot txHashes).1.sync.startSlot = db.sync.startSlot := by
  unfold rollBackLedger
  split
  · split
    · rfl
    · split <;> rfl
  · rfl

theorem SyncState.renewCrawlerLease_startSlot (row : SyncState) (owner : LeaseOwner) (now : Time) :
    (row.renewCrawlerLease owner now).1.startSlot = row.startSlot := by
  unfold SyncState.renewCrawlerLease
  split <;> rfl

/-- A committed rollback, to a point or to the origin. -/
theorem handleReorgTx_rows [Bech32] {config : CrawlStart} {db stored : Db} {point : Option ChainPoint}
    {leaseOwner : Option LeaseOwner} {now : Time} {ledgerInvalidated : Bool}
    (committed : handleReorgTx config db point leaseOwner now =
      some (stored, ledgerInvalidated)) :
    stored.crawl =
        (rollBackBlocks db.crawl (staleBlocks db.crawl (forkSlotOf config point))).1 ∧
      stored.sync.lastSlot = forkSlotOf config point ∧
      stored.sync.startSlot = db.sync.startSlot := by
  simp only [handleReorgTx, Option.ite_none_right_eq_some] at committed
  obtain ⟨-, same⟩ := committed
  cases same
  have kept : ∀ (renewed : SyncState × Bool), renewed.1.startSlot = db.sync.startSlot →
      ∀ (crawl : CrawlStore) (txHashes : List TxHash),
        (rollBackLedger { db with crawl, sync := renewed.1 } (forkSlotOf config point)
          txHashes).1.sync.startSlot = db.sync.startSlot :=
    fun renewed same crawl txHashes => (rollBackLedger_startSlot ..).trans same
  refine ⟨rollBackLedger_crawl .., ?_, ?_⟩
  · cases point <;> rfl
  · cases leaseOwner with
    | none => cases point <;> exact kept (db.sync, true) rfl _ _
    | some owner =>
        have renewed := SyncState.renewCrawlerLease_startSlot db.sync owner now
        cases point <;> exact kept _ renewed _ _

/-! ## Crawling among readers -/

/-- The blocks of all forks with their transactions. -/
structure ForkContents where
  forks : BlockForks
  contents : BlockHash → List TxHash
  contents_nodup : ∀ hash, (contents hash).Nodup

/-- A transaction as some fork has it. -/
structure ForkContents.Describes (world : ForkContents) (t : Transaction) : Prop where
  contained : t.hash ∈ world.contents t.blockHash
  slot : t.slot = world.forks.tree.rank t.blockHash
  height : ∀ height, t.blockHeight = some height → height = world.forks.height t.blockHash

/-- A delivered block with all its transactions. -/
structure ForkContents.Delivers (world : ForkContents) (block : BlockData)
    (txs : List Transaction) : Prop where
  isData : block = world.forks.data block.hash
  hashes : txs.map Transaction.hash = world.contents block.hash
  named : ∀ t ∈ txs, t.blockHash = block.hash ∧ world.Describes t

/-- A crawler with its readers: the blocks it follows above the crawl start, the newest
first. -/
structure ReadCrawl where
  db : Db
  indexer : Indexer
  start : BlockHash
  chain : List BlockHash

namespace ReadCrawl

/-- The block the crawler stands at. -/
def tip (s : ReadCrawl) : BlockHash := s.chain.headD s.start

/-- The blocks of the followed chain, down to the crawl start. -/
def followed (s : ReadCrawl) : List BlockHash := s.chain ++ [s.start]

/-- The block row is stored. -/
def BlockStored (s : ReadCrawl) (hash : BlockHash) : Prop :=
  hash ∈ (s.db.crawl .blocks).rows.map BlockRow.hash

end ReadCrawl

/-- What the crawler or a reader is about to store. -/
inductive ChainWrite
  | crawled (block : BlockData) (txs : List Transaction)
  | transaction (t : Transaction)
  | block (hash : BlockHash)

/-- No stored transaction is left, by the write, under a stored block that the crawled
range covers and the crawler does not follow. -/
def ReadCrawl.Settled (world : ForkContents) (s : ReadCrawl) : ChainWrite → Prop
  | .crawled block txs => ∀ row ∈ (s.db.crawl .transactions).rows,
      s.db.sync.lastSlot < world.forks.tree.rank row.blockHash →
      world.forks.tree.rank row.blockHash ≤ world.forks.tree.rank block.hash →
      s.BlockStored row.blockHash →
        row.blockHash = block.hash ∨ row.hash ∈ txs.map Transaction.hash ∨
          row.txKey ∈ staleTxSeqs s.db.crawl txs
  | .transaction t => s.BlockStored t.blockHash →
      world.forks.tree.rank s.start ≤ t.slot → t.slot ≤ s.db.sync.lastSlot →
        t.blockHash ∈ s.followed
  | .block hash => hash ∈ s.followed ∨
      ∀ row ∈ (s.db.crawl .transactions).rows, row.blockHash = hash →
        ¬ (world.forks.tree.rank s.start ≤ world.forks.tree.rank hash ∧
          world.forks.tree.rank hash ≤ s.db.sync.lastSlot)

section Steps

variable [Bech32]

/-- The steps of the crawler and its readers, with the writes that are allowed. -/
inductive ReadStep (world : ForkContents) (config : CrawlStart)
    (allowed : ReadCrawl → ChainWrite → Prop) : ReadCrawl → ReadCrawl → Prop
  | persistBlock (s : ReadCrawl) (block : BlockData) (txs : List Transaction)
      (epochData : Option Nat) (tip : Option ChainPoint) (leaseOwner : Option LeaseOwner)
      (now : Time) (db : Db) (delivered : world.Delivers block txs)
      (next : world.forks.tree.ChildOf block.hash s.tip)
      (may : allowed s (.crawled block txs))
      (committed : (persistBlockTx s.indexer s.db block txs epochData tip leaseOwner now).2 =
        some db) :
      ReadStep world config allowed s
        { s with
          db
          indexer := (persistBlockTx s.indexer s.db block txs epochData tip leaseOwner
            now).1.blockCommitted
          chain := block.hash :: s.chain }
  -- to a block of the chain, or to the origin, which is the configured start
  | handleReorg (s : ReadCrawl) (point : Option ChainPoint) (node : BlockHash)
      (leaseOwner : Option LeaseOwner) (now : Time) (db : Db) (ledgerInvalidated : Bool)
      (onChain : node ∈ s.followed)
      (slot : forkSlotOf config point = world.forks.tree.rank node)
      (isNode : ∀ p, point = some p → p.hash = node)
      (committed : handleReorgTx config s.db point leaseOwner now = some (db, ledgerInvalidated)) :
      ReadStep world config allowed s
        { s with
          db
          indexer := s.indexer.reorgCommitted ledgerInvalidated
          chain := world.forks.tree.upTo (forkSlotOf config point) s.chain }
  -- a reader stores a transaction of any fork
  | readTransaction (s : ReadCrawl) (t : Transaction) (answered : world.Describes t)
      (may : allowed s (.transaction t)) :
      ReadStep world config allowed s
        { s with db := { s.db with crawl := (indexTransaction s.db.crawl t).1 } }
  -- a reader stores a block row of any fork
  | readBlock (s : ReadCrawl) (block : BlockData) (epochData : Option Nat)
      (may : allowed s (.block block.hash)) :
      ReadStep world config allowed s
        { s with
          db := { s.db with
            crawl := TableFamily.write s.db.crawl (blockBatch (mapBlock block epochData)) } }
  -- leases, the tip, the ledger: neither blocks, transactions nor the cursor
  | other (s : ReadCrawl) (db : Db) (indexer : Indexer)
      (blocks : db.crawl .blocks = s.db.crawl .blocks)
      (transactions : db.crawl .transactions = s.db.crawl .transactions)
      (startSlot : db.sync.startSlot = s.db.sync.startSlot)
      (lastSlot : db.sync.lastSlot = s.db.sync.lastSlot) :
      ReadStep world config allowed s { s with db, indexer }

/-- A fresh database with the cursor at the crawl start. -/
structure ReadCrawl.Begins (world : ForkContents) (s : ReadCrawl) : Prop where
  tables : s.db.crawl = CrawlStore.empty
  startSlot : s.db.sync.startSlot = some (world.forks.tree.rank s.start)
  lastSlot : s.db.sync.lastSlot = world.forks.tree.rank s.start
  chain : s.chain = []

/-- The stored transactions are as the forks have them, and those in the crawled range
whose block is stored are in a block of the followed chain. -/
structure ReadSound (world : ForkContents) (s : ReadCrawl) : Prop where
  startSlot : s.db.sync.startSlot = some (world.forks.tree.rank s.start)
  lastSlot : s.db.sync.lastSlot = world.forks.tree.rank s.tip
  linked : world.forks.tree.Path s.followed
  rows : ∀ row ∈ (s.db.crawl .transactions).rows,
    row.hash ∈ world.contents row.blockHash ∧
      row.slot = some (world.forks.tree.rank row.blockHash) ∧
      ∀ height, row.blockHeight = some height → height = world.forks.height row.blockHash
  followed : ∀ row ∈ (s.db.crawl .transactions).rows, s.BlockStored row.blockHash →
    world.forks.tree.rank s.start ≤ world.forks.tree.rank row.blockHash →
      world.forks.tree.rank row.blockHash ≤ s.db.sync.lastSlot → row.blockHash ∈ s.followed

variable {world : ForkContents} {config : CrawlStart} {s s' : ReadCrawl}

omit [Bech32] in
theorem ReadSound.rank_le (sound : ReadSound world s) {hash : BlockHash}
    (hashMem : hash ∈ s.followed) : world.forks.tree.rank hash ≤ s.db.sync.lastSlot := by
  rw [sound.lastSlot]
  exact sound.linked.rank_le_headD hashMem

omit [Bech32] in
theorem ReadCrawl.Begins.sound (begins : s.Begins world) : ReadSound world s where
  startSlot := begins.startSlot
  lastSlot := by
    rw [begins.lastSlot, ReadCrawl.tip, begins.chain]
    rfl
  linked := by
    rw [ReadCrawl.followed, begins.chain]
    exact List.isChain_singleton _
  rows _ rowMem := by
    rw [begins.tables] at rowMem
    cases rowMem
  followed _ rowMem := by
    rw [begins.tables] at rowMem
    cases rowMem

omit [Bech32] in
/-- A row of the delivered block, as prepared. -/
theorem ForkContents.Delivers.row {block : BlockData} {txs : List Transaction}
    (delivered : world.Delivers block txs) {store : CrawlStore} {ledger : Option LedgerDb}
    {t : Transaction} (tMem : t ∈ (prepareBlock store ledger block txs).txs) :
    t.blockHash = block.hash ∧ world.Describes t := by
  obtain ⟨prepare, same, changes⟩ := prepareBlock_txs store ledger block txs
  rw [same] at tMem
  obtain ⟨u, uMem, rfl⟩ := List.mem_map.mp tMem
  obtain ⟨inputs, fee, prepared⟩ := changes u
  obtain ⟨named, described⟩ := delivered.named u uMem
  rw [prepared]
  exact ⟨named, described.contained, described.slot, described.height⟩

omit [Bech32] in
theorem ForkContents.Describes.row {t : Transaction} (described : world.Describes t) :
    (mapTransaction t).hash ∈ world.contents (mapTransaction t).blockHash ∧
      (mapTransaction t).slot = some (world.forks.tree.rank (mapTransaction t).blockHash) ∧
      ∀ height, (mapTransaction t).blockHeight = some height →
        height = world.forks.height (mapTransaction t).blockHash :=
  ⟨described.contained, congrArg some described.slot, described.height⟩

/-- The crawler indexes the next block of its chain. -/
theorem ReadSound.persistBlock (sound : ReadSound world s) {block : BlockData}
    {txs : List Transaction} {epochData : Option Nat} {tip : Option ChainPoint}
    {leaseOwner : Option LeaseOwner} {now : Time} {db : Db} {indexer : Indexer}
    (delivered : world.Delivers block txs) (next : world.forks.tree.ChildOf block.hash s.tip)
    (settled : s.Settled world (.crawled block txs))
    (committed : (persistBlockTx s.indexer s.db block txs epochData tip leaseOwner now).2 =
      some db) :
    ReadSound world { s with db, indexer, chain := block.hash :: s.chain } := by
  obtain ⟨tables, cursor, -⟩ := persistBlockTx_committed committed
  generalize ledgerEq : ledgerAnswering s.indexer s.db block = ledger at tables
  have nodup : (txs.map Transaction.hash).Nodup :=
    delivered.hashes ▸ world.contents_nodup block.hash
  have slot : block.slotOrZero = world.forks.tree.rank block.hash := by
    have known := world.forks.data_slot block.hash
    rw [← delivered.isData] at known
    rw [BlockData.slotOrZero, known]
    rfl
  have transactions {row : TransactionRow} (rowMem : row ∈ (db.crawl .transactions).rows) :
      (row.blockHash = block.hash ∧ ∃ t, world.Describes t ∧ row = mapTransaction t) ∨
        row ∈ (s.db.crawl .transactions).rows ∧ row.hash ∉ txs.map Transaction.hash ∧
          row.txKey ∉ staleTxSeqs s.db.crawl txs := by
    rw [tables, mem_transactions_indexBlock nodup] at rowMem
    rcases rowMem with ⟨t, tMem, rfl⟩ | kept
    · obtain ⟨named, described⟩ := delivered.row tMem
      exact Or.inl ⟨named, t, described, rfl⟩
    · exact Or.inr kept
  have blocks {hash : BlockHash} (stored : hash ∈ (db.crawl .blocks).rows.map BlockRow.hash) :
      hash = block.hash ∨ s.BlockStored hash := by
    obtain ⟨row, rowMem, rfl⟩ := List.mem_map.mp stored
    rw [tables] at rowMem
    exact (mem_blocks_indexBlock rowMem).imp (fun identity => congrArg Prod.fst identity)
      fun before => List.mem_map_of_mem before.1
  refine ⟨(persistBlockTx_startSlot committed).trans sound.startSlot, cursor.trans slot, ?_, ?_, ?_⟩
  · exact sound.linked.child next
  · intro row rowMem
    rcases transactions rowMem with ⟨-, t, described, rfl⟩ | ⟨stored, -⟩
    · exact described.row
    · exact sound.rows row stored
  · intro row rowMem blockStored above below
    rcases transactions rowMem with ⟨named, -⟩ | ⟨stored, unlisted, spared⟩
    · exact named ▸ List.mem_cons_self
    · rcases blocks blockStored with isBlock | before
      · exact isBlock ▸ List.mem_cons_self
      · by_cases early : world.forks.tree.rank row.blockHash ≤ s.db.sync.lastSlot
        · exact List.mem_cons_of_mem _ (sound.followed row stored before above early)
        · rw [cursor, slot] at below
          rcases settled row stored (Nat.lt_of_not_le early) below before with
            isBlock | listed | isStale
          · exact isBlock ▸ List.mem_cons_self
          · exact (unlisted listed).elim
          · exact (spared isStale).elim

/-- A rollback takes the followed chain back to one of its blocks. -/
theorem ReadSound.handleReorg (sound : ReadSound world s) {point : Option ChainPoint}
    {node : BlockHash} {leaseOwner : Option LeaseOwner} {now : Time} {db : Db} {indexer : Indexer}
    {ledgerInvalidated : Bool} (onChain : node ∈ s.followed)
    (slot : forkSlotOf config point = world.forks.tree.rank node)
    (committed : handleReorgTx config s.db point leaseOwner now = some (db, ledgerInvalidated)) :
    ReadSound world
      { s with db, indexer, chain := world.forks.tree.upTo (forkSlotOf config point) s.chain } := by
  obtain ⟨tables, cursor, startSlot⟩ := handleReorgTx_rows committed
  rw [rollBackBlocks_fst] at tables
  obtain ⟨linked, head⟩ := sound.linked.cut onChain
  rw [← slot] at linked head
  have kept {table : CrawlTable} {row : table.Row} (rowMem : row ∈ (db.crawl table).rows) :
      row ∈ (s.db.crawl table).rows := by
    rw [tables] at rowMem
    exact (TableFamily.mem_delete.mp rowMem).1
  refine ⟨startSlot.trans sound.startSlot, ?_, ?_, fun row rowMem => sound.rows row (kept rowMem),
    ?_⟩
  · exact cursor.trans (slot.trans (congrArg world.forks.tree.rank head.symm))
  · exact linked
  · intro row rowMem blockStored above below
    obtain ⟨block, blockMem, sameHash⟩ := List.mem_map.mp blockStored
    rw [cursor] at below
    have before : row.blockHash ∈ s.followed :=
      sound.followed row (kept rowMem) (sameHash ▸ List.mem_map_of_mem (kept blockMem)) above
        (below.trans (slot ▸ sound.rank_le onChain))
    rcases List.mem_append.mp before with aboveStart | isStart
    · exact List.mem_append_left _ (List.mem_filter.mpr ⟨aboveStart, decide_eq_true below⟩)
    · exact List.mem_append_right _ isStart

theorem ReadSound.readTransaction (sound : ReadSound world s) {t : Transaction}
    (described : world.Describes t) (settled : s.Settled world (.transaction t)) :
    ReadSound world
      { s with db := { s.db with crawl := (indexTransaction s.db.crawl t).1 } } := by
  have transactions {row : TransactionRow}
      (rowMem : row ∈ ((indexTransaction s.db.crawl t).1 .transactions).rows) :
      row ∈ (s.db.crawl .transactions).rows ∨ row = mapTransaction t := by
    rw [indexTransaction_fst] at rowMem
    exact (TableFamily.mem_write rowMem).imp_right List.mem_singleton.mp
  refine ⟨sound.startSlot, sound.lastSlot, sound.linked, fun row rowMem => ?_,
    fun row rowMem blockStored above below => ?_⟩
  · rcases transactions rowMem with stored | rfl
    · exact sound.rows row stored
    · exact described.row
  · rcases transactions rowMem with stored | rfl
    · exact sound.followed row stored blockStored above below
    · exact settled blockStored (described.slot ▸ above) (described.slot ▸ below)

omit [Bech32] in
theorem ReadSound.readBlock (sound : ReadSound world s) {block : BlockData}
    {epochData : Option Nat} (settled : s.Settled world (.block block.hash)) :
    ReadSound world
      { s with
        db := { s.db with
          crawl := TableFamily.write s.db.crawl (blockBatch (mapBlock block epochData)) } } := by
  refine ⟨sound.startSlot, sound.lastSlot, sound.linked, sound.rows,
    fun row rowMem blockStored above below => ?_⟩
  obtain ⟨stored, storedMem, sameHash⟩ := List.mem_map.mp blockStored
  rcases Table.mem_upsert.mp storedMem with rfl | ⟨before, -⟩
  · have isBlock : block.hash = row.blockHash := sameHash
    rcases settled with followed | none
    · exact isBlock ▸ followed
    · rw [← isBlock] at above below
      exact (none row rowMem isBlock.symm ⟨above, below⟩).elim
  · exact sound.followed row rowMem (sameHash ▸ List.mem_map_of_mem before) above below

theorem ReadStep.sound (step : ReadStep world config (ReadCrawl.Settled world) s s')
    (sound : ReadSound world s) : ReadSound world s' := by
  cases step with
  | persistBlock block txs epochData tip leaseOwner now db delivered next may committed =>
      exact sound.persistBlock delivered next may committed
  | handleReorg point node leaseOwner now db ledgerInvalidated onChain slot isNode committed =>
      exact sound.handleReorg onChain slot committed
  | readTransaction t answered may => exact sound.readTransaction answered may
  | readBlock block epochData may => exact sound.readBlock may
  | other db indexer blocks transactions startSlot lastSlot =>
      refine ⟨startSlot.trans sound.startSlot, lastSlot.trans sound.lastSlot, sound.linked, ?_, ?_⟩
      · rw [transactions]
        exact sound.rows
      · intro row rowMem blockStored above below
        rw [transactions] at rowMem
        rw [ReadCrawl.BlockStored, blocks] at blockStored
        exact sound.followed row rowMem blockStored above (lastSlot ▸ below)

/-- Where no write leaves a transaction under a stored block that the crawled range covers
and the crawler does not follow, an answer from the crawled tables is about a block of the
followed chain at or below the cursor, and counts from it as an answer of the backends does. -/
theorem crawledConfirmations_followed {first : ReadCrawl} (begins : first.Begins world)
    (run : Relation.ReflTransGen (ReadStep world config (ReadCrawl.Settled world)) first s)
    {now : Time} {txHash : TxHash} {depth : Nat × Nat}
    (answers : crawledTransactionDepth s.db now txHash = some depth)
    (lookup : ConfirmationLookup) :
    ∃ block ∈ s.followed, txHash ∈ world.contents block ∧
      world.forks.tree.rank block ≤ s.db.sync.lastSlot ∧
      ∃ tip, s.db.sync.tipHeight = some tip ∧
        resolveTransactionConfirmations s.db now txHash lookup =
          (s.db.crawl, .ok (confirmationsAt txHash (world.forks.height block) tip)) := by
  have sound : ReadSound world s := by
    clear answers
    induction run with
    | refl => exact begins.sound
    | tail _ step ih => exact step.sound ih
  obtain ⟨stored, storedMem, sameHash, blockStored, height, ⟨slot, slotKnown, fromStart, upToCursor⟩,
    tip, tipKnown, depthTip⟩ := crawledTransactionDepth_spec answers
  obtain ⟨contained, slotEq, heightEq⟩ := sound.rows stored storedMem
  cases Option.some.inj (slotKnown.symm.trans slotEq)
  rw [sound.startSlot] at fromStart
  refine ⟨stored.blockHash,
    sound.followed stored storedMem blockStored (of_decide_eq_true fromStart) upToCursor,
    sameHash ▸ contained, upToCursor, tip, tipKnown, ?_⟩
  rw [resolveTransactionConfirmations, answers]
  simp only [depthTip, heightEq depth.1 height, confirmationsAt]

end Steps

/-! Two forks again: `t1` is in `d`, on top of `a`, and `t2` in `c`, on top of `b`. -/

def forkedContents : ForkContents where
  forks := forkedBlocks
  contents hash := if hash = text "d" then [text "t1"] else if hash = text "c" then [text "t2"] else []
  contents_nodup hash := by
    split
    · exact List.nodup_singleton _
    · split
      · exact List.nodup_singleton _
      · exact List.nodup_nil

def forkedTx (hash : TxHash) (block : BlockHash) : Transaction :=
  { sampleTx hash block (forkedBlocks.tree.rank block) [] [] with
    blockHeight := some (forkedBlocks.height block) }

theorem forkedTx_described {hash : TxHash} {block : BlockHash}
    (contained : hash ∈ forkedContents.contents block) :
    forkedContents.Describes (forkedTx hash block) :=
  ⟨contained, rfl, fun _ same => (Option.some.inj same).symm⟩

/-- A live crawler at `a`. -/
def readStart : ReadCrawl where
  db := ⟨CrawlStore.empty, LedgerDb.empty,
    { SyncState.initial "preview" (some ⟨20, text "a", some 2⟩) with
      leaseOwner := some "w", leaseUntil := some CRAWLER_LEASE_TTL_MS }⟩
  indexer := ⟨⟨true, true⟩, false, none, false, none, none⟩
  start := text "a"
  chain := []

theorem readStart_begins : readStart.Begins forkedContents :=
  ⟨rfl, rfl, rfl, rfl⟩

theorem forkedContents_delivers :
    forkedContents.Delivers (forkedBlocks.data (text "d")) [forkedTx (text "t1") (text "d")] := by
  refine ⟨rfl, rfl, fun t tMem => ?_⟩
  cases List.mem_singleton.mp tMem
  exact ⟨rfl, forkedTx_described (List.mem_singleton_self _)⟩

section Sample

attribute [local instance] byronBech32

/-- The crawler stores `d`, the tip of its source. -/
def readTip (s : ReadCrawl) : Indexer × Option Db :=
  persistBlockTx s.indexer s.db (forkedBlocks.data (text "d")) [forkedTx (text "t1") (text "d")] none
    (some ⟨31, text "d", some 3⟩) (some "w") 0

theorem crawledConfirmations_followed_sample :
    ∃ s : ReadCrawl, crawledTransactionDepth s.db 1 (text "t1") = some (3, 3) ∧
      ∀ lookup, ∃ block ∈ s.followed, text "t1" ∈ forkedContents.contents block ∧
        forkedContents.forks.tree.rank block ≤ s.db.sync.lastSlot ∧
        ∃ tip, s.db.sync.tipHeight = some tip ∧
          resolveTransactionConfirmations s.db 1 (text "t1") lookup =
            (s.db.crawl,
              .ok (confirmationsAt (text "t1") (forkedContents.forks.height block) tip)) := by
  have stored : ((readTip readStart).2.map fun db => crawledTransactionDepth db 1 (text "t1")) =
      some (some (3, 3)) := by decide +kernel
  obtain ⟨db, committed, answers⟩ := Option.map_eq_some_iff.mp stored
  have crawled : ReadStep forkedContents ⟨none, none, none⟩ (ReadCrawl.Settled forkedContents)
      readStart _ :=
    .persistBlock readStart _ _ none _ (some "w") 0 db forkedContents_delivers rfl
      (fun _ rowMem => absurd rowMem List.not_mem_nil) committed
  exact ⟨_, answers, crawledConfirmations_followed readStart_begins
    (Relation.ReflTransGen.refl.tail crawled) answers⟩

/-- Readers stored `c` and its transaction while the crawler was below them; the crawler
follows the other fork past their slot. -/
theorem crawledConfirmations_foreign :
    ∃ s, Relation.ReflTransGen (ReadStep forkedContents ⟨none, none, none⟩ fun _ _ => True)
        readStart s ∧
      crawledTransactionDepth s.db 1 (text "t2") = some (3, 3) ∧
        ∀ block ∈ s.followed, text "t2" ∉ forkedContents.contents block := by
  let blockRead : ReadCrawl := { readStart with
    db := { readStart.db with
      crawl := TableFamily.write readStart.db.crawl
        (blockBatch (mapBlock (forkedBlocks.data (text "c")) none)) } }
  let txRead : ReadCrawl := { blockRead with
    db := { blockRead.db with
      crawl := (indexTransaction blockRead.db.crawl (forkedTx (text "t2") (text "c"))).1 } }
  have stored : ((readTip txRead).2.map fun db => crawledTransactionDepth db 1 (text "t2")) =
      some (some (3, 3)) := by decide +kernel
  obtain ⟨db, committed, answers⟩ := Option.map_eq_some_iff.mp stored
  have first : ReadStep forkedContents ⟨none, none, none⟩ (fun _ _ => True) readStart blockRead :=
    .readBlock readStart (forkedBlocks.data (text "c")) none trivial
  have second : ReadStep forkedContents ⟨none, none, none⟩ (fun _ _ => True) blockRead txRead :=
    .readTransaction blockRead _ (forkedTx_described (List.mem_singleton_self _)) trivial
  have third : ReadStep forkedContents ⟨none, none, none⟩ (fun _ _ => True) txRead _ :=
    .persistBlock txRead _ _ none _ (some "w") 0 db forkedContents_delivers rfl trivial committed
  refine ⟨_, ((Relation.ReflTransGen.refl.tail first).tail second).tail third, answers, ?_⟩
  have apart : ∀ block ∈ [text "d", text "a"], text "t2" ∉ forkedContents.contents block := by
    decide
  exact apart

end Sample

end Odatano
