import Odatano.CrawledConfirmations
import Odatano.UtxoSetImport

/-!
# Setting the cursor back

`rebuildUtxoSetAggregates` of `srv/blockchain/crawler/utxo-set-import.ts` sets the
cursor back without deleting what was crawled above it.  The blocks crawled again
replace those rows height by height.
-/

namespace Odatano

/-! ## The rebuild -/

inductive RebuildError
  | crawlerRunning
  | notImported
  | importing
  /-- Blocks were already applied to the set. -/
  | pastAnchor
  | noRows
  /-- The cursor is past the anchor, and the anchor block is not stored. -/
  | anchorNotStored
deriving DecidableEq

/-- The anchor a rebuild derives the sums for, and where it sets the cursor back to. -/
structure RebuildPlan where
  anchor : LedgerAnchor
  rewindTo : Option ChainPoint
deriving DecidableEq

/-- The checks of `rebuildUtxoSetAggregates`. -/
def rebuildPlan (db : Db) (now : Time) : Except RebuildError RebuildPlan :=
  if db.sync.isCrawlerLeaseActive now then .error .crawlerRunning
  else
    match db.sync.utxoSet.anchorSlot, db.sync.utxoSet.anchorHash with
    | some anchorSlot, some anchorHash =>
        if db.sync.utxoSet.status = .importing then .error .importing
        else if db.sync.utxoSet.appliedSlot.isSome then .error .pastAnchor
        else if db.ledger.utxos.rows = [] then .error .noRows
        else if anchorSlot < db.sync.lastSlot then
          match (db.crawl .blocks).find? anchorHash with
          | none => .error .anchorNotStored
          | some block =>
              .ok ⟨⟨anchorSlot, anchorHash⟩,
                some ⟨anchorSlot, anchorHash, some (block.height.getD 0)⟩⟩
        else .ok ⟨⟨anchorSlot, anchorHash⟩, none⟩
    | _, _ => .error .notImported

/-- The last transaction of a rebuild: the sums, the status and the cursor. -/
def rebuildTx (db : Db) (plan : RebuildPlan) (importedAt : Time) (leaseOwner : LeaseOwner)
    (now : Time) : Option Db :=
  activateWithAggregates db plan.anchor importedAt LedgerDb.clearSums
    (fun sync =>
      match plan.rewindTo with
      | some point => sync.resetCursorTo point.slot (some point.hash) (point.height.getD 0)
      | none => sync)
    leaseOwner now

theorem SyncState.renewImportLease_cursor (row : SyncState) (owner : LeaseOwner) (now : Time) :
    (row.renewImportLease owner now).1.lastSlot = row.lastSlot ∧
      (row.renewImportLease owner now).1.lastBlockHash = row.lastBlockHash ∧
        (row.renewImportLease owner now).1.lastHeight = row.lastHeight := by
  unfold SyncState.renewImportLease
  split <;> exact ⟨rfl, rfl, rfl⟩

/-- A rebuild that sets the cursor back leaves the crawled tables alone. -/
theorem rebuildTx_rewinds {db stored : Db} {plan : RebuildPlan} {importedAt : Time}
    {leaseOwner : LeaseOwner} {now : Time} {point : ChainPoint}
    (rewinds : plan.rewindTo = some point)
    (committed : rebuildTx db plan importedAt leaseOwner now = some stored) :
    stored.crawl = db.crawl ∧ stored.sync.lastSlot = point.slot ∧
      stored.sync.lastBlockHash = some point.hash ∧
        stored.sync.lastHeight = point.height.getD 0 := by
  simp only [rebuildTx, activateWithAggregates, writeTxLeaseLast, Option.bind_eq_some_iff,
    Option.map_eq_some_iff, rewinds] at committed
  obtain ⟨written, ⟨ledger, -, rfl⟩, renewed⟩ := committed
  split at renewed
  · cases renewed
    obtain ⟨slot, hash, height⟩ := SyncState.renewImportLease_cursor
      ((db.sync.resetCursorTo point.slot (some point.hash) (point.height.getD 0)).activateUtxoSet
        plan.anchor importedAt) leaseOwner now
    exact ⟨rfl, slot, hash, height⟩
  · cases renewed

/-- The cursor goes back to the anchor, at the height its block is stored with. -/
theorem rebuildPlan_rewindTo {db : Db} {now : Time} {plan : RebuildPlan} {point : ChainPoint}
    (planned : rebuildPlan db now = .ok plan) (rewinds : plan.rewindTo = some point) :
    ∃ block ∈ (db.crawl .blocks).rows, block.hash = point.hash ∧
      point.height = some (block.height.getD 0) := by
  simp only [rebuildPlan] at planned
  split at planned
  · cases planned
  · split at planned
    · split at planned
      · cases planned
      · split at planned
        · cases planned
        · split at planned
          · cases planned
          · split at planned
            · split at planned
              · cases planned
              · rename_i block found
                cases planned
                cases rewinds
                obtain ⟨blockMem, sameHash⟩ := Table.find?_eq_some_iff.mp found
                exact ⟨block, blockMem, sameHash, rfl⟩
            · cases planned
              cases rewinds
    · cases planned

/-! ## Crawling again -/

/-- The blocks of all forks.  Heights grow along a chain. -/
structure CrawledForks where
  tree : ParentTree BlockHash
  height : BlockHash → Nat
  height_lt : ∀ {child node}, tree.ChildOf child node → height node < height child
  contents : BlockHash → List TxHash
  contents_nodup : ∀ hash, (contents hash).Nodup

namespace CrawledForks

/-- A delivered block with all its transactions, each at a position of its own. -/
structure Delivers (forks : CrawledForks) (block : BlockData) (txs : List Transaction) :
    Prop where
  slot : block.slot = some (forks.tree.rank block.hash)
  height : block.height = some (forks.height block.hash)
  hashes : txs.map Transaction.hash = forks.contents block.hash
  positions : (txs.map Transaction.txSeq).Nodup
  named : ∀ t ∈ txs, t.blockHash = block.hash
  labels : ∀ t ∈ txs, ∀ label ∈ t.metadata.getD [], label.txHash = t.hash

end CrawledForks

/-- A crawler with the greatest height its cursor was at and the transactions as they
were indexed. -/
structure RewoundCrawl where
  db : Db
  indexer : Indexer
  start : BlockHash
  /-- The blocks followed above the start, the newest first. -/
  chain : List BlockHash
  reached : Nat
  written : List Transaction

namespace RewoundCrawl

/-- The block of the cursor. -/
def tip (s : RewoundCrawl) : BlockHash := s.chain.headD s.start

/-- The blocks of the followed chain, down to the crawl start. -/
def followed (s : RewoundCrawl) : List BlockHash := s.chain ++ [s.start]

def BlockStored (s : RewoundCrawl) (hash : BlockHash) : Prop :=
  hash ∈ (s.db.crawl .blocks).rows.map BlockRow.hash

/-- Indexing a block replaces what is stored at the heights it covers: no stored height
is passed over, a transaction of a block of its height is one of its own or dropped as
stale and then without mint rows, and its own stored transactions keep their positions. -/
structure Replaces (forks : CrawledForks) (s : RewoundCrawl) (block : BlockData)
    (txs : List Transaction) : Prop where
  heights : ∀ row ∈ (s.db.crawl .blocks).rows, forks.height s.tip < forks.height row.hash →
    forks.height block.hash ≤ forks.height row.hash
  dropped : ∀ row ∈ (s.db.crawl .transactions).rows, s.BlockStored row.blockHash →
    forks.height s.tip < forks.height row.blockHash →
      forks.height row.blockHash ≤ forks.height block.hash →
        row.hash ∈ txs.map Transaction.hash ∨ row.txKey ∈ staleTxSeqs s.db.crawl txs
  mints : ∀ key ∈ staleTxSeqs s.db.crawl txs, ∀ mint ∈ (s.db.crawl .assetHistory).rows,
    mint.txHash ≠ key.hash
  stays : ∀ row ∈ (s.db.crawl .transactions).rows, ∀ t ∈ txs, t.hash = row.hash →
    ∀ table ∈ childTables, ∀ child ∈ (s.db.crawl table).rows,
      table.position (table.key child) = row.txSeq → row.txSeq = some t.txSeq

/-- Only the followed chain is stored: its blocks, their transactions with what is keyed
by them, and child rows that indexing the transaction at their position wrote. -/
structure NoneLeft [Bech32] (forks : CrawledForks) (s : RewoundCrawl) : Prop where
  blocks : ∀ row ∈ (s.db.crawl .blocks).rows, row.hash ∈ s.followed
  transactions : ∀ row ∈ (s.db.crawl .transactions).rows,
    row.blockHash ∈ s.followed ∧ row.hash ∈ forks.contents row.blockHash
  named : ∀ (table : CrawlTable), ∀ row ∈ (s.db.crawl table).rows, ∀ hash,
    table.owner (table.key row) = .transaction hash →
      ∃ stored ∈ (s.db.crawl .transactions).rows, stored.hash = hash
  children : ∀ table ∈ childTables, ∀ row ∈ (s.db.crawl table).rows,
    ∃ stored ∈ (s.db.crawl .transactions).rows, ∃ t ∈ s.written, t.hash = stored.hash ∧
      stored.txSeq = some t.txSeq ∧ row ∈ childRows t.txSeq t table

end RewoundCrawl

section Steps

variable [Bech32]

/-- The steps of a crawl whose cursor may be set back, with the blocks that may be
indexed. -/
inductive RewindStep (forks : CrawledForks) (config : CrawlStart)
    (allowed : RewoundCrawl → BlockData → List Transaction → Prop) :
    RewoundCrawl → RewoundCrawl → Prop
  | persistBlock (s : RewoundCrawl) (block : BlockData) (txs : List Transaction)
      (epochData : Option Nat) (tip : Option ChainPoint) (leaseOwner : Option LeaseOwner)
      (now : Time) (db : Db) (delivered : forks.Delivers block txs)
      (next : forks.tree.ChildOf block.hash s.tip) (may : allowed s block txs)
      (committed : (persistBlockTx s.indexer s.db block txs epochData tip leaseOwner now).2 =
        some db) :
      RewindStep forks config allowed s
        { s with
          db
          indexer := (persistBlockTx s.indexer s.db block txs epochData tip leaseOwner
            now).1.blockCommitted
          chain := block.hash :: s.chain
          reached := max s.reached (forks.height block.hash)
          written := s.written ++ (prepareBlock s.db.crawl
            (ledgerAnswering s.indexer s.db block) block txs).txs }
  -- to a block of the chain, or to the origin, which is the configured start
  | handleReorg (s : RewoundCrawl) (point : Option ChainPoint) (node : BlockHash)
      (leaseOwner : Option LeaseOwner) (now : Time) (db : Db) (ledgerInvalidated : Bool)
      (onChain : node ∈ s.followed) (slot : forkSlotOf config point = forks.tree.rank node)
      (isNode : ∀ p, point = some p → p.hash = node ∧
        ∀ height, p.height = some height → height = forks.height node)
      (committed : handleReorgTx config s.db point leaseOwner now = some (db, ledgerInvalidated)) :
      RewindStep forks config allowed s
        { s with
          db
          indexer := s.indexer.reorgCommitted ledgerInvalidated
          chain := forks.tree.upTo (forks.tree.rank node) s.chain }
  -- the cursor goes back to a block of the chain, and the crawled tables stay
  | rewind (s : RewoundCrawl) (node : BlockHash) (db : Db) (indexer : Indexer)
      (onChain : node ∈ s.followed) (tables : db.crawl = s.db.crawl)
      (slot : db.sync.lastSlot = forks.tree.rank node)
      (hash : db.sync.lastBlockHash = some node)
      (height : db.sync.lastHeight ≤ forks.height node) :
      RewindStep forks config allowed s
        { s with db, indexer, chain := forks.tree.upTo (forks.tree.rank node) s.chain }
  -- leases, the ledger: neither the crawled tables nor the cursor
  | other (s : RewoundCrawl) (db : Db) (indexer : Indexer) (tables : db.crawl = s.db.crawl)
      (slot : db.sync.lastSlot = s.db.sync.lastSlot)
      (hash : db.sync.lastBlockHash = s.db.sync.lastBlockHash)
      (height : db.sync.lastHeight = s.db.sync.lastHeight) :
      RewindStep forks config allowed s { s with db, indexer }

/-- A fresh database with the cursor at the crawl start. -/
structure RewoundCrawl.Begins (forks : CrawledForks) (s : RewoundCrawl) : Prop where
  tables : s.db.crawl = CrawlStore.empty
  height : s.db.sync.lastHeight ≤ forks.height s.start
  chain : s.chain = []
  reached : s.reached = forks.height s.start

/-- What is stored off the followed chain lies above the cursor. -/
structure RewindSound (forks : CrawledForks) (s : RewoundCrawl) : Prop where
  height : s.db.sync.lastHeight ≤ forks.height s.tip
  linked : forks.tree.Path s.followed
  blockRows : ∀ row ∈ (s.db.crawl .blocks).rows,
    row.slot = some (forks.tree.rank row.hash) ∧ row.height = some (forks.height row.hash) ∧
      forks.height row.hash ≤ s.reached
  blocks : ∀ row ∈ (s.db.crawl .blocks).rows,
    row.hash ∈ s.followed ∨ forks.height s.tip < forks.height row.hash
  stored : ∀ hash ∈ s.chain, s.BlockStored hash
  contained : ∀ row ∈ (s.db.crawl .transactions).rows, row.hash ∈ forks.contents row.blockHash
  transactions : ∀ row ∈ (s.db.crawl .transactions).rows,
    row.blockHash ∈ s.followed ∨
      s.BlockStored row.blockHash ∧ forks.height s.tip < forks.height row.blockHash
  positions : ∀ row ∈ (s.db.crawl .transactions).rows, row.txSeq.isSome
  unshared : ∀ first ∈ (s.db.crawl .transactions).rows,
    ∀ second ∈ (s.db.crawl .transactions).rows, first.txSeq = second.txSeq → first = second
  named : ∀ (table : CrawlTable), ∀ row ∈ (s.db.crawl table).rows, ∀ hash,
    table.owner (table.key row) = .transaction hash →
      ∃ stored ∈ (s.db.crawl .transactions).rows, stored.hash = hash
  children : ∀ table ∈ childTables, ∀ row ∈ (s.db.crawl table).rows,
    ∃ stored ∈ (s.db.crawl .transactions).rows, ∃ t ∈ s.written, t.hash = stored.hash ∧
      stored.txSeq = some t.txSeq ∧ row ∈ childRows t.txSeq t table

variable {forks : CrawledForks} {config : CrawlStart} {s s' : RewoundCrawl}

omit [Bech32] in
/-- On a path, heights grow with ranks. -/
theorem CrawledForks.height_lt_of_rank_lt {path : List BlockHash} (isPath : forks.tree.Path path)
    {first second : BlockHash} (firstMem : first ∈ path) (secondMem : second ∈ path)
    (lower : forks.tree.rank first < forks.tree.rank second) :
    forks.height first < forks.height second := by
  -- the same blocks, ranked by height
  let heights : ParentTree BlockHash := ⟨forks.tree.parent, forks.height, forks.height_lt⟩
  have byHeight : heights.Path path := isPath
  obtain ⟨before, rest, rfl⟩ := List.append_of_mem firstMem
  rcases List.mem_append.mp secondMem with above | below
  · have cross := (List.pairwise_append.mp byHeight.ranks_decrease).2.2
    exact cross second above first List.mem_cons_self
  · have fromFirst := (List.pairwise_append.mp isPath.ranks_decrease).2.1
    rcases List.mem_cons.mp below with rfl | later
    · exact (lower.ne rfl).elim
    · exact (lower.asymm (List.rel_of_pairwise_cons fromFirst later)).elim

omit [Bech32] in
theorem CrawledForks.height_le_headD {path : List BlockHash} {root node : BlockHash}
    (isPath : forks.tree.Path (path ++ [root])) (nodeMem : node ∈ path ++ [root]) :
    forks.height node ≤ forks.height (path.headD root) := by
  let heights : ParentTree BlockHash := ⟨forks.tree.parent, forks.height, forks.height_lt⟩
  have byHeight : heights.Path (path ++ [root]) := isPath
  exact byHeight.rank_le_headD nodeMem

omit [Bech32] in
theorem RewoundCrawl.Begins.sound [Bech32] (begins : s.Begins forks) : RewindSound forks s := by
  have none {table : CrawlTable} {row : table.Row} (rowMem : row ∈ (s.db.crawl table).rows) :
      False := by
    rw [begins.tables] at rowMem
    exact List.not_mem_nil rowMem
  refine ⟨?_, ?_, fun _ rowMem => (none rowMem).elim, fun _ rowMem => (none rowMem).elim, ?_,
    fun _ rowMem => (none rowMem).elim, fun _ rowMem => (none rowMem).elim,
    fun _ rowMem => (none rowMem).elim, fun _ rowMem => (none rowMem).elim,
    fun _ _ rowMem => (none rowMem).elim, fun _ _ _ rowMem => (none rowMem).elim⟩
  · rw [RewoundCrawl.tip, begins.chain]
    exact begins.height
  · rw [RewoundCrawl.followed, begins.chain]
    exact List.isChain_singleton _
  · rw [begins.chain]
    nofun

theorem persistBlockTx_lastHeight {indexer : Indexer} {db stored : Db} {block : BlockData}
    {txs : List Transaction} {epochData : Option Nat} {tip : Option ChainPoint}
    {leaseOwner : Option LeaseOwner} {now : Time}
    (committed : (persistBlockTx indexer db block txs epochData tip leaseOwner now).2 =
      some stored) : stored.sync.lastHeight = block.height.getD 0 := by
  simp only [persistBlockTx, Option.ite_none_right_eq_some] at committed
  obtain ⟨advanced, same⟩ := committed
  cases same
  cases leaseOwner with
  | none => rfl
  | some owner =>
      simp only [SyncState.advanceCursor] at advanced ⊢
      split
      · rfl
      · rename_i fenced
        rw [if_neg fenced] at advanced
        simp only [SyncState.leaseDeadlineReached, SyncState.importLeaseHeld, Bool.and_eq_true,
          decide_eq_true_eq] at advanced
        exact absurd ⟨advanced.2.1, advanced.1⟩ fenced

omit [Bech32] in
theorem handleReorgTx_lastHeight [Bech32] {db stored : Db} {point : Option ChainPoint}
    {leaseOwner : Option LeaseOwner} {now : Time} {ledgerInvalidated : Bool}
    (committed : handleReorgTx config db point leaseOwner now =
      some (stored, ledgerInvalidated)) :
    stored.sync.lastHeight = (forkHeightOf db.crawl point).getD 0 := by
  simp only [handleReorgTx, Option.ite_none_right_eq_some] at committed
  obtain ⟨-, same⟩ := committed
  cases same
  cases point <;> rfl

omit [Bech32] in
/-- The rows of a delivered block, as prepared: one for each of its transactions. -/
theorem CrawledForks.Delivers.prepared {block : BlockData} {txs : List Transaction}
    (delivered : forks.Delivers block txs) (store : CrawlStore) (ledger : Option LedgerDb) :
    (∀ t ∈ (prepareBlock store ledger block txs).txs,
      t.blockHash = block.hash ∧ t.hash ∈ forks.contents block.hash) ∧
    (∀ t ∈ (prepareBlock store ledger block txs).txs,
      ∀ u ∈ (prepareBlock store ledger block txs).txs, t.txSeq = u.txSeq → t = u) ∧
    ∀ u ∈ txs, ∃ t ∈ (prepareBlock store ledger block txs).txs,
      t.hash = u.hash ∧ t.txSeq = u.txSeq := by
  have seqs := map_prepareBlock_txs Transaction.txSeq (fun _ _ _ => rfl) store ledger block txs
  obtain ⟨prepare, same, changes⟩ := prepareBlock_txs store ledger block txs
  refine ⟨?_, ?_, ?_⟩
  · intro t tMem
    rw [same] at tMem
    obtain ⟨u, uMem, rfl⟩ := List.mem_map.mp tMem
    obtain ⟨inputs, fee, prepared⟩ := changes u
    have listed : u.hash ∈ forks.contents block.hash :=
      delivered.hashes ▸ List.mem_map_of_mem uMem
    rw [prepared]
    exact ⟨delivered.named u uMem, listed⟩
  · exact fun t tMem u uMem sameSeq =>
      List.inj_on_of_nodup_map (seqs ▸ delivered.positions) tMem uMem sameSeq
  · intro u uMem
    obtain ⟨inputs, fee, prepared⟩ := changes u
    refine ⟨prepare u, same ▸ List.mem_map_of_mem uMem, ?_⟩
    rw [prepared]
    exact ⟨rfl, rfl⟩

section Persist

variable {block : BlockData} {txs : List Transaction} {coverage : CrawlCoverage}
  {epochData : Option Nat} {ledger : Option LedgerDb}

/-- A transaction stored afterwards is of the block, or was stored and neither listed nor
stale. -/
theorem RewindSound.mem_transactions (delivered : forks.Delivers block txs)
    {store : CrawlStore} {row : TransactionRow} :
    row ∈ (indexBlock coverage store ⟨block, txs, epochData, ledger⟩ .transactions).rows ↔
      (∃ t ∈ (prepareBlock store ledger block txs).txs, row = mapTransaction t) ∨
        row ∈ (store .transactions).rows ∧ row.hash ∉ txs.map Transaction.hash ∧
          row.txKey ∉ staleTxSeqs store txs :=
  mem_transactions_indexBlock (delivered.hashes ▸ forks.contents_nodup block.hash)

/-- No block row stays at the height of the block or below it, off the followed chain. -/
theorem RewindSound.persist_blocks (sound : RewindSound forks s)
    (delivered : forks.Delivers block txs)
    (replaces : s.Replaces forks block txs) {row : BlockRow}
    (rowMem : row ∈ (indexBlock coverage s.db.crawl ⟨block, txs, epochData, ledger⟩ .blocks).rows)
    (other : row.hash ≠ block.hash) (stored : row ∈ (s.db.crawl .blocks).rows) :
    row.hash ∈ s.followed ∨ forks.height block.hash < forks.height row.hash := by
  refine (sound.blocks row stored).imp_right fun above => ?_
  refine Nat.lt_of_le_of_ne (replaces.heights row stored above) fun sameHeight => ?_
  obtain ⟨-, height, -⟩ := sound.blockRows row stored
  refine superseded_of_unnamed stored (b := ⟨block, txs, epochData, ledger⟩) delivered.height
    (height.trans (congrArg some sameHeight.symm)) other ?_ rowMem
  intro tx txMem named
  rcases (RewindSound.mem_transactions delivered).mp txMem with ⟨t, tMem, rfl⟩ |
    ⟨old, unlisted, spared⟩
  · exact other (named.symm.trans ((delivered.prepared _ _).1 t tMem).1)
  · rcases replaces.dropped tx old (named ▸ List.mem_map_of_mem stored) (named ▸ above)
      (named ▸ sameHeight.ge) with listed | isStale
    · exact unlisted listed
    · exact spared isStale

/-- Positions are still not shared. -/
theorem RewindSound.persist_unshared (sound : RewindSound forks s)
    (delivered : forks.Delivers block txs) {first second : TransactionRow}
    (firstMem : first ∈
      (indexBlock coverage s.db.crawl ⟨block, txs, epochData, ledger⟩ .transactions).rows)
    (secondMem : second ∈
      (indexBlock coverage s.db.crawl ⟨block, txs, epochData, ledger⟩ .transactions).rows)
    (sameSeq : first.txSeq = second.txSeq) : first = second := by
  obtain ⟨-, preparedSeqs, -⟩ := delivered.prepared s.db.crawl ledger
  -- what holds a position of the block is stale
  have apart {row : TransactionRow} (stored : row ∈ (s.db.crawl .transactions).rows)
      (unlisted : row.hash ∉ txs.map Transaction.hash)
      (spared : row.txKey ∉ staleTxSeqs s.db.crawl txs) {t : Transaction}
      (tMem : t ∈ (prepareBlock s.db.crawl ledger block txs).txs) :
      row.txSeq ≠ (mapTransaction t).txSeq := by
    intro holds
    rw [← staleTxSeqs_prepareBlock s.db.crawl ledger block txs] at spared
    rw [← map_prepareBlock_txs Transaction.hash (fun _ _ _ => rfl) s.db.crawl ledger block
      txs] at unlisted
    exact spared (mem_staleTxSeqs stored unlisted tMem holds)
  rcases (mem_transactions delivered).mp firstMem with
    ⟨t, tMem, rfl⟩ | ⟨firstStored, firstOther, firstSpared⟩
  · rcases (mem_transactions delivered).mp secondMem with
      ⟨u, uMem, rfl⟩ | ⟨stored, unlisted, spared⟩
    · rw [preparedSeqs t tMem u uMem (Option.some.inj sameSeq)]
    · exact (apart stored unlisted spared tMem sameSeq.symm).elim
  · rcases (mem_transactions delivered).mp secondMem with ⟨u, uMem, rfl⟩ | ⟨stored, -, -⟩
    · exact (apart firstStored firstOther firstSpared uMem sameSeq).elim
    · exact sound.unshared first firstStored second stored sameSeq

/-- What is keyed by a transaction still has its row. -/
theorem RewindSound.persist_named (sound : RewindSound forks s)
    (delivered : forks.Delivers block txs) (replaces : s.Replaces forks block txs)
    {table : CrawlTable} {row : table.Row} {hash : TxHash}
    (rowMem : row ∈ (indexBlock coverage s.db.crawl ⟨block, txs, epochData, ledger⟩ table).rows)
    (owner : table.owner (table.key row) = .transaction hash) :
    ∃ stored ∈ (indexBlock coverage s.db.crawl ⟨block, txs, epochData, ledger⟩
      .transactions).rows, stored.hash = hash := by
  obtain ⟨-, -, prepared⟩ := delivered.prepared s.db.crawl ledger
  have listed (inBlock : hash ∈ txs.map Transaction.hash) :
      ∃ stored ∈ (indexBlock coverage s.db.crawl ⟨block, txs, epochData, ledger⟩
        .transactions).rows, stored.hash = hash := by
    obtain ⟨u, uMem, rfl⟩ := List.mem_map.mp inBlock
    obtain ⟨t, tMem, sameHash, -⟩ := prepared u uMem
    exact ⟨mapTransaction t, (mem_transactions delivered).mpr (Or.inl ⟨t, tMem, rfl⟩), sameHash⟩
  rcases owner_of_mem_indexBlock delivered.labels rowMem owner with inBlock | ⟨stored, mint⟩
  · exact listed inBlock
  · obtain ⟨tx, txMem, rfl⟩ := sound.named table row stored hash owner
    by_cases inBlock : tx.hash ∈ txs.map Transaction.hash
    · exact listed inBlock
    · refine ⟨tx, (mem_transactions delivered).mpr (Or.inr ⟨txMem, inBlock, fun isStale => ?_⟩), rfl⟩
      obtain ⟨mintRow, mintMem, sameHash⟩ := mint (List.mem_map_of_mem isStale)
      exact replaces.mints tx.txKey isStale mintRow mintMem sameHash

/-- Every child row is of a write of the transaction at its position. -/
theorem RewindSound.persist_children (sound : RewindSound forks s)
    (delivered : forks.Delivers block txs) (replaces : s.Replaces forks block txs)
    {table : CrawlTable} (isChild : table ∈ childTables) {row : table.Row}
    (rowMem : row ∈ (indexBlock coverage s.db.crawl ⟨block, txs, epochData, ledger⟩ table).rows) :
    ∃ stored ∈ (indexBlock coverage s.db.crawl ⟨block, txs, epochData, ledger⟩
        .transactions).rows,
      ∃ t ∈ s.written ++ (prepareBlock s.db.crawl ledger block txs).txs, t.hash = stored.hash ∧
        stored.txSeq = some t.txSeq ∧ row ∈ childRows t.txSeq t table := by
  obtain ⟨-, -, prepared⟩ := delivered.prepared s.db.crawl ledger
  rcases mem_children_indexBlock isChild rowMem with ⟨t, tMem, isRow⟩ | ⟨stored, elsewhere⟩
  · exact ⟨mapTransaction t, (mem_transactions delivered).mpr (Or.inl ⟨t, tMem, rfl⟩), t,
      List.mem_append_right _ tMem, rfl, rfl, isRow⟩
  · obtain ⟨tx, txMem, t, tMem, sameHash, holds, isRow⟩ := sound.children table isChild row stored
    have here := position_of_mem_childRows isRow
    by_cases inBlock : tx.hash ∈ txs.map Transaction.hash
    · -- it is written again, at the same position
      obtain ⟨u, uMem, sameTx⟩ := List.mem_map.mp inBlock
      have stays := replaces.stays tx txMem u uMem sameTx table isChild row stored
        (here.trans holds.symm)
      obtain ⟨new, newMem, newHash, newSeq⟩ := prepared u uMem
      refine ⟨mapTransaction new, (mem_transactions delivered).mpr (Or.inl ⟨new, newMem, rfl⟩), t,
        List.mem_append_left _ tMem, ?_, ?_, isRow⟩
      · exact sameHash.trans (sameTx.symm.trans newHash.symm)
      · rw [← holds, stays, ← newSeq]
        rfl
    · refine ⟨tx, (mem_transactions delivered).mpr (Or.inr ⟨txMem, inBlock, fun isStale => ?_⟩), t,
        List.mem_append_left _ tMem, sameHash, holds, isRow⟩
      exact elsewhere tx.txKey isStale t.txSeq holds here

/-- The crawler indexes the next block of its chain. -/
theorem RewindSound.persistBlock (sound : RewindSound forks s) {tip : Option ChainPoint}
    {leaseOwner : Option LeaseOwner} {now : Time} {db : Db} {indexer : Indexer}
    (delivered : forks.Delivers block txs) (next : forks.tree.ChildOf block.hash s.tip)
    (replaces : s.Replaces forks block txs)
    (committed : (persistBlockTx s.indexer s.db block txs epochData tip leaseOwner now).2 =
      some db) :
    RewindSound forks
      { s with
        db, indexer
        chain := block.hash :: s.chain
        reached := max s.reached (forks.height block.hash)
        written := s.written ++ (prepareBlock s.db.crawl
          (ledgerAnswering s.indexer s.db block) block txs).txs } := by
  obtain ⟨tables, -, -⟩ := persistBlockTx_committed committed
  have cursor := persistBlockTx_lastHeight committed
  generalize ledgerAnswering s.indexer s.db block = ledger at tables ⊢
  obtain ⟨crawl, ledgerDb, sync⟩ := db
  cases tables
  obtain ⟨preparedRows, -, -⟩ := delivered.prepared s.db.crawl ledger
  have higher : forks.height s.tip < forks.height block.hash := forks.height_lt next
  have keepsBlock {row : BlockRow} (stored : row ∈ (s.db.crawl .blocks).rows)
      (otherHeight : forks.height row.hash ≠ forks.height block.hash) :
      row ∈ (indexBlock s.indexer.coverage s.db.crawl ⟨block, txs, epochData, ledger⟩
        .blocks).rows := by
    refine mem_blocks_indexBlock_of_apart stored (fun same => otherHeight (same ▸ rfl)) ?_
    intro height known rowKnown
    cases delivered.height.symm.trans known
    rw [(sound.blockRows row stored).2.1] at rowKnown
    exact otherHeight (Option.some.inj rowKnown)
  refine ⟨?_, sound.linked.child next, ?_, ?_, ?_, ?_, ?_, ?_,
    fun _ firstMem _ secondMem => sound.persist_unshared delivered firstMem secondMem,
    fun _ _ rowMem _ owner => sound.persist_named delivered replaces rowMem owner,
    fun _ isChild _ rowMem => sound.persist_children delivered replaces isChild rowMem⟩
  · change sync.lastHeight ≤ forks.height block.hash
    exact (cursor.trans (congrArg (·.getD 0) delivered.height)).le
  · intro row rowMem
    rcases mem_blocks_indexBlock rowMem with identity | ⟨stored, -⟩
    · obtain ⟨sameHash, slot, height⟩ :
          row.hash = block.hash ∧ row.slot = block.slot ∧ row.height = block.height := by
        simpa [BlockRow.identity, IndexedBlock.hash] using identity
      rw [slot, height, sameHash]
      exact ⟨delivered.slot, delivered.height, le_max_right _ _⟩
    · obtain ⟨slot, height, below⟩ := sound.blockRows row stored
      exact ⟨slot, height, below.trans (le_max_left _ _)⟩
  · intro row rowMem
    rcases mem_blocks_indexBlock rowMem with identity | ⟨stored, other⟩
    · have sameHash : row.hash = block.hash := congrArg Prod.fst identity
      exact Or.inl (sameHash ▸ List.mem_cons_self)
    · exact (sound.persist_blocks delivered replaces rowMem other stored).imp_left
        (List.mem_cons_of_mem _)
  · intro hash hashMem
    rcases List.mem_cons.mp hashMem with rfl | onChain
    · obtain ⟨row, rowMem, sameHash⟩ := exists_block_indexBlock s.indexer.coverage s.db.crawl
        ⟨block, txs, epochData, ledger⟩
      exact List.mem_map.mpr ⟨row, rowMem, sameHash⟩
    · obtain ⟨row, stored, rfl⟩ := List.mem_map.mp (sound.stored hash onChain)
      have below := CrawledForks.height_le_headD sound.linked
        (List.mem_append_left [s.start] onChain)
      exact List.mem_map_of_mem (keepsBlock stored (Nat.lt_of_le_of_lt below higher).ne)
  · intro row rowMem
    rcases (mem_transactions delivered).mp rowMem with ⟨t, tMem, rfl⟩ | ⟨stored, -⟩
    · obtain ⟨named, listed⟩ := preparedRows t tMem
      exact (congrArg (t.hash ∈ forks.contents ·) named).mpr listed
    · exact sound.contained row stored
  · intro row rowMem
    rcases (mem_transactions delivered).mp rowMem with
      ⟨t, tMem, rfl⟩ | ⟨stored, unlisted, spared⟩
    · exact Or.inl ((preparedRows t tMem).1 ▸ List.mem_cons_self)
    · rcases sound.transactions row stored with followed | ⟨blockStored, above⟩
      · exact Or.inl (List.mem_cons_of_mem _ followed)
      · have beyond : forks.height block.hash < forks.height row.blockHash := by
          refine Nat.lt_of_not_le fun below => ?_
          rcases replaces.dropped row stored blockStored above below with listed | isStale
          · exact unlisted listed
          · exact spared isStale
        obtain ⟨blockRow, blockMem, sameHash⟩ := List.mem_map.mp blockStored
        refine Or.inr ⟨List.mem_map.mpr ⟨blockRow, keepsBlock blockMem ?_, sameHash⟩, beyond⟩
        rw [sameHash]
        exact beyond.ne'
  · intro row rowMem
    rcases (mem_transactions delivered).mp rowMem with ⟨t, tMem, rfl⟩ | ⟨stored, -⟩
    · rfl
    · exact sound.positions row stored

end Persist

omit [Bech32] in
/-- A block of the chain above a rank is higher than the one the chain is cut at. -/
theorem RewindSound.cut_or_above [Bech32] (sound : RewindSound forks s) {node hash : BlockHash}
    (onChain : node ∈ s.followed) (hashMem : hash ∈ s.followed) :
    hash ∈ forks.tree.upTo (forks.tree.rank node) s.chain ++ [s.start] ∨
      forks.tree.rank node < forks.tree.rank hash ∧ hash ∈ s.chain ∧
        forks.height node < forks.height hash := by
  by_cases below : forks.tree.rank hash ≤ forks.tree.rank node
  · refine Or.inl ((List.mem_append.mp hashMem).elim (fun above => ?_) fun isStart => ?_)
    · exact List.mem_append_left _ (List.mem_filter.mpr ⟨above, decide_eq_true below⟩)
    · exact List.mem_append_right _ isStart
  · have higher := Nat.lt_of_not_le below
    refine Or.inr ⟨higher, (List.mem_append.mp hashMem).resolve_right fun isStart => ?_,
      CrawledForks.height_lt_of_rank_lt sound.linked onChain hashMem higher⟩
    have atStart := sound.linked.root_rank_le onChain
    rw [List.mem_singleton.mp isStart] at higher
    exact (Nat.not_lt_of_le atStart) higher

/-- Setting the cursor back leaves what was crawled above it. -/
theorem RewindSound.rewind (sound : RewindSound forks s) {node : BlockHash} {db : Db}
    {indexer : Indexer} (onChain : node ∈ s.followed) (tables : db.crawl = s.db.crawl)
    (height : db.sync.lastHeight ≤ forks.height node) :
    RewindSound forks
      { s with db, indexer, chain := forks.tree.upTo (forks.tree.rank node) s.chain } := by
  obtain ⟨crawl, ledger, sync⟩ := db
  cases tables
  obtain ⟨linked, head⟩ := sound.linked.cut onChain
  have tip : RewoundCrawl.tip { s with
      db := ⟨s.db.crawl, ledger, sync⟩, indexer
      chain := forks.tree.upTo (forks.tree.rank node) s.chain } = node := head
  have lower := CrawledForks.height_le_headD sound.linked onChain
  refine ⟨height.trans (congrArg forks.height tip.symm).le, linked, sound.blockRows, ?_, ?_,
    sound.contained, ?_, sound.positions, sound.unshared, sound.named, sound.children⟩
  · intro row rowMem
    rw [tip]
    rcases sound.blocks row rowMem with followed | above
    · exact (sound.cut_or_above onChain followed).imp_right fun above => above.2.2
    · exact Or.inr (Nat.lt_of_le_of_lt lower above)
  · exact fun hash hashMem => sound.stored hash (List.mem_filter.mp hashMem).1
  · intro row rowMem
    rw [tip]
    rcases sound.transactions row rowMem with followed | ⟨blockStored, above⟩
    · exact (sound.cut_or_above onChain followed).imp_right fun above =>
        ⟨sound.stored _ above.2.1, above.2.2⟩
    · exact Or.inr ⟨blockStored, Nat.lt_of_le_of_lt lower above⟩

/-- The blocks a rollback deletes are those stored above its point. -/
theorem RewindSound.mem_staleBlocks (sound : RewindSound forks s) {slot : Nat} {hash : BlockHash} :
    hash ∈ staleBlocks s.db.crawl slot ↔ s.BlockStored hash ∧ slot < forks.tree.rank hash := by
  constructor
  · intro isStale
    obtain ⟨row, rowMem, rfl⟩ := List.mem_map.mp isStale
    obtain ⟨rowMem, late⟩ := Table.mem_select.mp rowMem
    rw [(sound.blockRows row rowMem).1] at late
    exact ⟨List.mem_map_of_mem rowMem, of_decide_eq_true late⟩
  · rintro ⟨blockStored, late⟩
    obtain ⟨row, rowMem, rfl⟩ := List.mem_map.mp blockStored
    exact mem_staleBlocks_of_late rowMem (sound.blockRows row rowMem).1 late

section Rolled

variable {crawl : CrawlStore} {slot : Nat}

theorem RewindSound.mem_blocks_rolled (sound : RewindSound forks s)
    (rolled : crawl = (rollBackBlocks s.db.crawl (staleBlocks s.db.crawl slot)).1)
    {row : BlockRow} :
    row ∈ (crawl .blocks).rows ↔
      row ∈ (s.db.crawl .blocks).rows ∧ forks.tree.rank row.hash ≤ slot := by
  rw [rolled, rollBackBlocks_fst, TableFamily.mem_delete]
  refine and_congr_right fun stored => ?_
  simp only [deletesOwned, CrawlTable.owner, CrawlTable.key, decide_eq_false_iff_not,
    sound.mem_staleBlocks, not_and, Nat.not_lt]
  exact ⟨fun spared => spared (List.mem_map_of_mem stored), fun below _ => below⟩

omit [Bech32] in
/-- The hashes a rollback deletes by are those of transactions under stale blocks. -/
theorem mem_hashes_transactionsOf {store : CrawlStore} {blockHashes : List BlockHash}
    {row : TransactionRow} (stored : row ∈ (store .transactions).rows) :
    row.hash ∈ (transactionsOf store blockHashes).map TxKey.hash ↔
      row.blockHash ∈ blockHashes := by
  constructor
  · intro listed
    obtain ⟨key, keyMem, sameHash⟩ := List.mem_map.mp listed
    obtain ⟨other, otherMem, isStale, rfl⟩ := mem_transactionsOf.mp keyMem
    cases Table.mem_rows_inj otherMem stored sameHash
    exact isStale
  · exact fun isStale => List.mem_map_of_mem (mem_transactionsOf.mpr ⟨row, stored, isStale, rfl⟩)

omit [Bech32] in
theorem mem_transactions_rolled
    (rolled : crawl = (rollBackBlocks s.db.crawl (staleBlocks s.db.crawl slot)).1)
    {row : TransactionRow} :
    row ∈ (crawl .transactions).rows ↔ row ∈ (s.db.crawl .transactions).rows ∧
      row.blockHash ∉ staleBlocks s.db.crawl slot := by
  rw [rolled, rollBackBlocks_fst, TableFamily.mem_delete]
  refine and_congr_right fun stored => ?_
  simp only [deletesOwned, CrawlTable.owner, CrawlTable.key, decide_eq_false_iff_not]
  rw [mem_hashes_transactionsOf stored]

/-- What is keyed by a transaction is deleted with it. -/
theorem RewindSound.named_rolled (sound : RewindSound forks s)
    (rolled : crawl = (rollBackBlocks s.db.crawl (staleBlocks s.db.crawl slot)).1)
    {table : CrawlTable} {row : table.Row} {hash : TxHash} (rowMem : row ∈ (crawl table).rows)
    (owner : table.owner (table.key row) = .transaction hash) :
    ∃ stored ∈ (crawl .transactions).rows, stored.hash = hash := by
  have kept := rowMem
  rw [rolled, rollBackBlocks_fst, TableFamily.mem_delete] at kept
  obtain ⟨before, spared⟩ := kept
  obtain ⟨tx, txMem, rfl⟩ := sound.named table row before hash owner
  simp only [deletesOwned, owner, decide_eq_false_iff_not] at spared
  rw [mem_hashes_transactionsOf txMem] at spared
  exact ⟨tx, (mem_transactions_rolled rolled).mpr ⟨txMem, spared⟩, rfl⟩

/-- Child rows are deleted with the transaction at their position. -/
theorem RewindSound.children_rolled (sound : RewindSound forks s)
    (rolled : crawl = (rollBackBlocks s.db.crawl (staleBlocks s.db.crawl slot)).1)
    {table : CrawlTable} (isChild : table ∈ childTables) {row : table.Row}
    (rowMem : row ∈ (crawl table).rows) :
    ∃ stored ∈ (crawl .transactions).rows, ∃ t ∈ s.written, t.hash = stored.hash ∧
      stored.txSeq = some t.txSeq ∧ row ∈ childRows t.txSeq t table := by
  rw [rolled, rollBackBlocks_fst, TableFamily.mem_delete] at rowMem
  obtain ⟨before, spared⟩ := rowMem
  obtain ⟨tx, txMem, t, tMem, sameHash, holds, isRow⟩ := sound.children table isChild row before
  refine ⟨tx, (mem_transactions_rolled rolled).mpr ⟨txMem, fun isStale => ?_⟩, t, tMem, sameHash,
    holds, isRow⟩
  have owner : table.owner (table.key row) = .position t.txSeq := by
    have here := position_of_mem_childRows isRow
    unfold CrawlTable.position at here
    split at here
    · rename_i owner
      cases here
      exact owner
    · cases here
  simp only [deletesOwned, owner, decide_eq_false_iff_not] at spared
  exact spared (List.mem_map.mpr ⟨tx.txKey,
    mem_transactionsOf.mpr ⟨tx, txMem, isStale, rfl⟩, holds⟩)

end Rolled

/-- A rollback deletes the blocks above its point with their transactions. -/
theorem RewindSound.handleReorg (sound : RewindSound forks s) {point : Option ChainPoint}
    {node : BlockHash} {leaseOwner : Option LeaseOwner} {now : Time} {db : Db} {indexer : Indexer}
    {ledgerInvalidated : Bool} (onChain : node ∈ s.followed)
    (slot : forkSlotOf config point = forks.tree.rank node)
    (isNode : ∀ p, point = some p → p.hash = node ∧
      ∀ height, p.height = some height → height = forks.height node)
    (committed : handleReorgTx config s.db point leaseOwner now = some (db, ledgerInvalidated)) :
    RewindSound forks
      { s with db, indexer, chain := forks.tree.upTo (forks.tree.rank node) s.chain } := by
  obtain ⟨rolled, -, -⟩ := handleReorgTx_rows committed
  have height := handleReorgTx_lastHeight committed
  rw [slot] at rolled
  obtain ⟨linked, head⟩ := sound.linked.cut onChain
  have tip : RewoundCrawl.tip { s with
      db, indexer, chain := forks.tree.upTo (forks.tree.rank node) s.chain } = node := head
  have lower := CrawledForks.height_le_headD sound.linked onChain
  have stillStored {hash : BlockHash} (blockStored : s.BlockStored hash)
      (below : forks.tree.rank hash ≤ forks.tree.rank node) :
      hash ∈ (db.crawl .blocks).rows.map BlockRow.hash := by
    obtain ⟨row, rowMem, rfl⟩ := List.mem_map.mp blockStored
    exact List.mem_map_of_mem ((sound.mem_blocks_rolled rolled).mpr ⟨rowMem, below⟩)
  refine ⟨?_, linked, ?_, ?_, ?_, ?_, ?_, ?_, ?_,
    fun _ _ rowMem _ owner => sound.named_rolled rolled rowMem owner,
    fun _ isChild _ rowMem => sound.children_rolled rolled isChild rowMem⟩
  · rw [tip]
    change db.sync.lastHeight ≤ forks.height node
    rw [height]
    cases point with
    | none => exact Nat.zero_le _
    | some p =>
        obtain ⟨sameHash, known⟩ := isNode p rfl
        cases given : p.height with
        | some height =>
            simp only [forkHeightOf, given, Option.some_or, Option.getD_some]
            exact (known height given).le
        | none =>
            simp only [forkHeightOf, given, Option.none_or]
            cases found : (s.db.crawl .blocks).find? p.hash with
            | none => exact Nat.zero_le _
            | some row =>
                obtain ⟨rowMem, rowHash⟩ := Table.find?_eq_some_iff.mp found
                have rowHeight := (sound.blockRows row rowMem).2.1
                change row.hash = p.hash at rowHash
                rw [rowHash, sameHash] at rowHeight
                simp only [Option.map_some, rowHeight, Option.getD_some, le_refl]
  · exact fun row rowMem => sound.blockRows row ((sound.mem_blocks_rolled rolled).mp rowMem).1
  · intro row rowMem
    rw [tip]
    obtain ⟨stored, below⟩ := (sound.mem_blocks_rolled rolled).mp rowMem
    rcases sound.blocks row stored with followed | above
    · exact (sound.cut_or_above onChain followed).imp_right fun above => above.2.2
    · exact Or.inr (Nat.lt_of_le_of_lt lower above)
  · intro hash hashMem
    obtain ⟨onChain, below⟩ := List.mem_filter.mp hashMem
    exact stillStored (sound.stored hash onChain) (of_decide_eq_true below)
  · exact fun row rowMem => sound.contained row ((mem_transactions_rolled rolled).mp rowMem).1
  · intro row rowMem
    rw [tip]
    obtain ⟨stored, spared⟩ := (mem_transactions_rolled rolled).mp rowMem
    rw [sound.mem_staleBlocks, not_and, Nat.not_lt] at spared
    rcases sound.transactions row stored with followed | ⟨blockStored, above⟩
    · refine (sound.cut_or_above onChain followed).imp_right fun above => ?_
      exact absurd (spared (sound.stored _ above.2.1)) (Nat.not_le_of_lt above.1)
    · exact Or.inr ⟨stillStored blockStored (spared blockStored), Nat.lt_of_le_of_lt lower above⟩
  · exact fun row rowMem => sound.positions row ((mem_transactions_rolled rolled).mp rowMem).1
  · exact fun first firstMem second secondMem =>
      sound.unshared first ((mem_transactions_rolled rolled).mp firstMem).1 second
        ((mem_transactions_rolled rolled).mp secondMem).1

/-- A rebuild whose anchor is a block of the chain sets the cursor back to it. -/
theorem RewindSound.rebuild (sound : RewindSound forks s)
    {allowed : RewoundCrawl → BlockData → List Transaction → Prop} {plan : RebuildPlan}
    {point : ChainPoint} {leaseOwner : LeaseOwner} {now later importedAt : Time} {db : Db}
    {indexer : Indexer} (planned : rebuildPlan s.db now = .ok plan)
    (rewinds : plan.rewindTo = some point) (onChain : point.hash ∈ s.followed)
    (slot : point.slot = forks.tree.rank point.hash)
    (committed : rebuildTx s.db plan importedAt leaseOwner later = some db) :
    RewindStep forks config allowed s
      { s with db, indexer, chain := forks.tree.upTo (forks.tree.rank point.hash) s.chain } := by
  obtain ⟨tables, cursorSlot, cursorHash, cursorHeight⟩ := rebuildTx_rewinds rewinds committed
  obtain ⟨block, blockMem, sameHash, known⟩ := rebuildPlan_rewindTo planned rewinds
  refine .rewind s point.hash db indexer onChain tables (cursorSlot.trans slot) cursorHash ?_
  rw [cursorHeight, known, (sound.blockRows block blockMem).2.1, sameHash]
  exact le_rfl

theorem RewindStep.sound
    (step : RewindStep forks config (RewoundCrawl.Replaces forks) s s')
    (sound : RewindSound forks s) : RewindSound forks s' := by
  cases step with
  | persistBlock block txs epochData tip leaseOwner now db delivered next may committed =>
      exact sound.persistBlock delivered next may committed
  | handleReorg point node leaseOwner now db ledgerInvalidated onChain slot isNode committed =>
      exact sound.handleReorg onChain slot isNode committed
  | rewind node db indexer onChain tables slot hash height =>
      exact sound.rewind onChain tables height
  | other db indexer tables slot hash height =>
      obtain ⟨crawl, ledger, sync⟩ := db
      cases tables
      exact ⟨height.le.trans sound.height, sound.linked, sound.blockRows, sound.blocks,
        sound.stored, sound.contained, sound.transactions, sound.positions, sound.unshared,
        sound.named, sound.children⟩

/-- Where each block indexed replaces what is stored at the heights it covers, nothing off
the followed chain is left once the cursor is as high as it ever was. -/
theorem rewound_noneLeft {first : RewoundCrawl} (begins : first.Begins forks)
    (run : Relation.ReflTransGen (RewindStep forks config (RewoundCrawl.Replaces forks)) first s)
    (again : s.reached ≤ s.db.sync.lastHeight) : s.NoneLeft forks := by
  have sound : RewindSound forks s := by
    clear again
    induction run with
    | refl => exact begins.sound
    | tail _ step ih => exact step.sound ih
  have top := again.trans sound.height
  have notAbove {row : BlockRow} (rowMem : row ∈ (s.db.crawl .blocks).rows) :
      ¬ forks.height s.tip < forks.height row.hash :=
    Nat.not_lt_of_le ((sound.blockRows row rowMem).2.2.trans top)
  refine ⟨fun row rowMem => (sound.blocks row rowMem).resolve_right (notAbove rowMem),
    fun row rowMem => ⟨?_, sound.contained row rowMem⟩, sound.named, sound.children⟩
  refine (sound.transactions row rowMem).resolve_right fun left => ?_
  obtain ⟨blockRow, blockMem, sameHash⟩ := List.mem_map.mp left.1
  exact notAbove blockMem (sameHash ▸ left.2)

end Steps

/-! Three blocks on top of `a`: `t2` in `c` and `t1` in `d` at one slot, and `e` later. -/

def rewoundForks : CrawledForks where
  tree :=
    { parent := fun hash => if hash = text "a" then none else some (text "a")
      rank := fun hash => if hash = text "a" then 10 else if hash = text "e" then 21 else 20
      rank_lt := by
        intro child node isParent
        split at isParent
        · cases isParent
        · rename_i notStart
          cases isParent
          rw [if_pos rfl, if_neg notStart]
          split <;> decide }
  height hash := if hash = text "a" then 1 else 2
  height_lt := by
    intro child node isParent
    simp only [ParentTree.ChildOf] at isParent
    split at isParent
    · cases isParent
    · rename_i notStart
      cases isParent
      rw [if_pos rfl, if_neg notStart]
      decide
  contents hash :=
    if hash = text "c" then [text "t2"] else if hash = text "d" then [text "t1"] else []
  contents_nodup hash := by
    split
    · exact List.nodup_singleton _
    · split
      · exact List.nodup_singleton _
      · exact List.nodup_nil

theorem rewoundForks_contents (hash : BlockHash) :
    rewoundForks.contents hash = [text "t2"] ∨ rewoundForks.contents hash = [text "t1"] ∨
      rewoundForks.contents hash = [] := by
  simp only [rewoundForks]
  split
  · exact Or.inl rfl
  · split
    · exact Or.inr (Or.inl rfl)
    · exact Or.inr (Or.inr rfl)

def rewoundBlock (hash : BlockHash) : BlockData :=
  { sampleBlock hash (rewoundForks.tree.rank hash) 0 with height := some (rewoundForks.height hash) }

def rewoundTxs (hash : BlockHash) : List Transaction :=
  (rewoundForks.contents hash).map fun tx => sampleTx tx hash (rewoundForks.tree.rank hash) [] []

theorem rewoundForks_delivers (hash : BlockHash) :
    rewoundForks.Delivers (rewoundBlock hash) (rewoundTxs hash) where
  slot := rfl
  height := rfl
  hashes := by
    rw [rewoundTxs, List.map_map]
    exact List.map_id _
  positions := by
    rcases rewoundForks_contents hash with contents | contents | contents <;>
      rw [rewoundTxs, contents]
    · exact List.nodup_singleton _
    · exact List.nodup_singleton _
    · exact List.nodup_nil
  named t tMem := by
    obtain ⟨tx, -, rfl⟩ := List.mem_map.mp tMem
    rfl
  labels t tMem := by
    obtain ⟨tx, -, rfl⟩ := List.mem_map.mp tMem
    nofun

/-- A crawler at `a`. -/
def rewoundStart : RewoundCrawl where
  db := ⟨CrawlStore.empty, LedgerDb.empty, SyncState.initial "preview" (some ⟨10, text "a", some 1⟩)⟩
  indexer := ⟨⟨true, true⟩, false, none, false, none, none⟩
  start := text "a"
  chain := []
  reached := 1
  written := []

theorem rewoundStart_begins : rewoundStart.Begins rewoundForks :=
  ⟨rfl, le_rfl, rfl, rfl⟩

section Sample

attribute [local instance] byronBech32

/-- The database with a block stored. -/
def crawledDb (db : Db) (hash : BlockHash) : Option Db :=
  (persistBlockTx rewoundStart.indexer db (rewoundBlock hash) (rewoundTxs hash) none none none 0).2

/-- The database after `c` was stored and the cursor set back to `a`. -/
def rewoundDb : Db :=
  let db := (crawledDb rewoundStart.db (text "c")).getD rewoundStart.db
  { db with sync := db.sync.resetCursorTo 10 (some (text "a")) 1 }

/-- The database after another block was stored on top of `a` then. -/
def recrawledDb (hash : BlockHash) : Db := (crawledDb rewoundDb hash).getD rewoundDb

theorem rewound_run {allowed : RewoundCrawl → BlockData → List Transaction → Prop}
    (hash : BlockHash) (onTop : rewoundForks.tree.ChildOf hash (text "a"))
    (height : rewoundForks.height hash = 2)
    (mayFirst : allowed rewoundStart (rewoundBlock (text "c")) (rewoundTxs (text "c")))
    (maySecond : ∀ written, allowed { rewoundStart with db := rewoundDb, reached := 2, written }
      (rewoundBlock hash) (rewoundTxs hash))
    (committed : crawledDb rewoundDb hash = some (recrawledDb hash)) :
    ∃ indexer written, Relation.ReflTransGen
      (RewindStep rewoundForks ⟨none, none, none⟩ allowed) rewoundStart
      { rewoundStart with
        db := recrawledDb hash, indexer, chain := [hash], reached := 2, written } := by
  let written := (prepareBlock rewoundStart.db.crawl none (rewoundBlock (text "c"))
    (rewoundTxs (text "c"))).txs
  let crawled : RewoundCrawl := { rewoundStart with
    db := (crawledDb rewoundStart.db (text "c")).getD rewoundStart.db
    indexer := (persistBlockTx rewoundStart.indexer rewoundStart.db (rewoundBlock (text "c"))
      (rewoundTxs (text "c")) none none none 0).1.blockCommitted
    chain := [text "c"], reached := 2, written }
  let rewound : RewoundCrawl := { rewoundStart with db := rewoundDb, reached := 2, written }
  have first : RewindStep rewoundForks ⟨none, none, none⟩ allowed rewoundStart crawled :=
    .persistBlock rewoundStart (rewoundBlock (text "c")) (rewoundTxs (text "c")) none none none 0 _
      (rewoundForks_delivers _) rfl mayFirst rfl
  have second : RewindStep rewoundForks ⟨none, none, none⟩ allowed crawled rewound :=
    .rewind crawled (text "a") rewoundDb rewoundStart.indexer (List.mem_append_right _
      (List.mem_singleton_self _)) rfl rfl rfl le_rfl
  have third : RewindStep rewoundForks ⟨none, none, none⟩ allowed rewound
      { rewound with
        db := recrawledDb hash, indexer := _, chain := [hash]
        reached := max 2 (rewoundForks.height hash), written := _ } :=
    .persistBlock rewound (rewoundBlock hash) (rewoundTxs hash) none none none 0 (recrawledDb hash)
      (rewoundForks_delivers _) onTop (maySecond _) committed
  rw [height, Nat.max_self] at third
  exact ⟨_, _, ((Relation.ReflTransGen.refl.tail first).tail second).tail third⟩

theorem rewound_noneLeft_sample :
    ∃ s : RewoundCrawl, s.chain = [text "d"] ∧ s.reached = 2 ∧ s.NoneLeft rewoundForks := by
  have replaces : ∀ written, RewoundCrawl.Replaces rewoundForks
      { rewoundStart with db := rewoundDb, reached := 2, written } (rewoundBlock (text "d"))
      (rewoundTxs (text "d")) := by
    intro written
    have stale : ∀ row ∈ (rewoundDb.crawl .transactions).rows,
        row.txKey ∈ staleTxSeqs rewoundDb.crawl (rewoundTxs (text "d")) := by decide +kernel
    have noMints : (rewoundDb.crawl .assetHistory).rows = [] := by decide +kernel
    have others : ∀ row ∈ (rewoundDb.crawl .transactions).rows, ∀ t ∈ rewoundTxs (text "d"),
        t.hash ≠ row.hash := by decide +kernel
    have higher : rewoundForks.height (text "d") = rewoundForks.height (text "a") + 1 := by
      decide +kernel
    refine ⟨fun _ _ above => higher.le.trans above,
      fun row rowMem _ _ _ => Or.inr (stale row rowMem), ?_,
      fun row rowMem t tMem same => (others row rowMem t tMem same).elim⟩
    intro key _ mint mintMem
    rw [noMints] at mintMem
    cases mintMem
  have fresh : RewoundCrawl.Replaces rewoundForks rewoundStart (rewoundBlock (text "c"))
      (rewoundTxs (text "c")) :=
    ⟨fun _ rowMem => absurd rowMem List.not_mem_nil, fun _ rowMem => absurd rowMem List.not_mem_nil,
      fun _ _ _ mintMem => absurd mintMem List.not_mem_nil,
      fun _ rowMem => absurd rowMem List.not_mem_nil⟩
  obtain ⟨indexer, written, run⟩ := rewound_run (text "d") rfl rfl fresh replaces rfl
  have again : 2 ≤ (recrawledDb (text "d")).sync.lastHeight := by decide +kernel
  exact ⟨_, rfl, rfl, rewound_noneLeft rewoundStart_begins run again⟩

/-- `c` stays when `e` takes its height at a later slot: `t2` still names it. -/
theorem rewound_leaves :
    ∃ s : RewoundCrawl, Relation.ReflTransGen
        (RewindStep rewoundForks ⟨none, none, none⟩ fun _ _ _ => True) rewoundStart s ∧
      s.reached ≤ s.db.sync.lastHeight ∧ ¬ s.NoneLeft rewoundForks := by
  obtain ⟨indexer, written, run⟩ := @rewound_run (fun _ _ _ => True) (text "e") rfl rfl trivial
    (fun _ => trivial) rfl
  have again : 2 ≤ (recrawledDb (text "e")).sync.lastHeight := by decide +kernel
  have stays : ∃ row ∈ ((recrawledDb (text "e")).crawl .blocks).rows, row.hash = text "c" := by
    decide +kernel
  refine ⟨_, run, again, fun none => ?_⟩
  obtain ⟨row, rowMem, isC⟩ := stays
  have onChain : row.hash ∈ [text "e", text "a"] := none.blocks row rowMem
  rw [isC] at onChain
  exact absurd onChain (by decide)

end Sample

end Odatano
