import Mathlib.Logic.Relation
import Odatano.CrawlerTransactions

/-!
# The crawled tables follow the chain

Steps of one crawler: blocks that extend the stored chain, rollbacks to a point
of it, restarts at an intersection point, and anything else the application does
to the ledger tables, to the other columns of the cursor row and to the memory.
Each of them keeps the crawled tables what indexing the stored chain once gives.
-/

namespace Odatano

/-- The crawler with the chain it has stored, oldest block first. -/
structure Crawler where
  db : Db
  indexer : Indexer
  /-- The blocks above the crawl start that were committed, as they were delivered. -/
  chain : List IndexedBlock

/-- A block message of the chain-sync stream. -/
structure RollForward where
  block : BlockData
  txs : List Transaction
  epochData : Option Nat
  tip : Option ChainPoint

/-- A message as the block of a chain. -/
def RollForward.indexed (message : RollForward) (indexer : Indexer) (db : Db) : IndexedBlock :=
  ⟨message.block, message.txs, message.epochData, ledgerAnswering indexer db message.block⟩

section Handlers

variable [Bech32]

/-- The `rollForward` callback: one attempt of `persistBlock`. -/
def Crawler.rollForward (crawler : Crawler) (message : RollForward)
    (leaseOwner : Option LeaseOwner) (now : Time) : Crawler :=
  if message.txs.length ≠ message.block.txCount then crawler
  else
    let attempt := persistBlockTx crawler.indexer crawler.db message.block message.txs
      message.epochData message.tip leaseOwner now
    match attempt.2 with
    | none => { crawler with indexer := attempt.1 }
    | some db =>
        { db
          indexer := attempt.1.blockCommitted
          chain := crawler.chain ++ [message.indexed crawler.indexer crawler.db] }

/-- The `rollBackward` callback.  The point of the cursor is the handshake that
opens a stream, not a reorg. -/
def Crawler.rollBackward (config : CrawlStart) (crawler : Crawler) (point : ChainPoint)
    (leaseOwner : Option LeaseOwner) (now : Time) : Crawler :=
  let chain := crawler.chain.filter fun b => decide (b.slot ≤ point.slot)
  if crawler.db.sync.lastBlockHash = some point.hash then { crawler with chain }
  else
    match handleReorgTx config crawler.db (some point) leaseOwner now with
    | none => crawler
    | some (db, ledgerInvalidated) =>
        { db, indexer := crawler.indexer.reorgCommitted ledgerInvalidated, chain }

end Handlers

/-! ## Intersection points -/

/-- The distances below the cursor at which stored blocks are offered: dense
over the last ten, doubling after that. -/
def intersectionSteps : List Nat :=
  (List.range 10).map (· + 1) ++ (List.range 11).map fun i => 16 * 2 ^ i

/-- The stored blocks at some heights, highest first. -/
def storedPoints (crawl : CrawlStore) (heights : List Nat) : List ChainPoint :=
  let rows := (crawl .blocks).select fun row => row.height.any fun h => decide (h ∈ heights)
  (rows.mergeSort fun first second =>
    decide (second.height.getD 0 ≤ first.height.getD 0)).filterMap fun row =>
      row.slot.map fun slot => ⟨slot, row.hash, row.height⟩

/-- Offer a point unless its hash is listed already. -/
def addPoint (points : List ChainPoint) (point : ChainPoint) : List ChainPoint :=
  if point.hash ∈ points.map ChainPoint.hash then points else points ++ [point]

theorem mem_foldl_addPoint {candidates points : List ChainPoint} {point : ChainPoint}
    (pointMem : point ∈ candidates.foldl addPoint points) :
    point ∈ points ∨ point ∈ candidates := by
  induction candidates generalizing points with
  | nil => exact Or.inl pointMem
  | cons candidate candidates ih =>
      rcases ih pointMem with earlier | later
      · unfold addPoint at earlier
        split at earlier
        · exact Or.inl earlier
        · rcases List.mem_append.mp earlier with earlier | added
          · exact Or.inl earlier
          · exact Or.inr (List.mem_singleton.mp added ▸ List.mem_cons_self)
      · exact Or.inr (List.mem_cons_of_mem _ later)

/-- The cursor and the stored blocks below it. -/
def cursorPoints (db : Db) : List ChainPoint :=
  match db.sync.lastBlockHash with
  | none => []
  | some hash =>
      let heights := (intersectionSteps.map fun step => db.sync.lastHeight - step).filter
        fun height => decide (0 < height)
      ⟨db.sync.lastSlot, hash, some db.sync.lastHeight⟩ :: storedPoints db.crawl heights

/-- Intersection points, newest first: cursor, crawled ancestors, configured start. -/
def buildIntersectionPoints (config : CrawlStart) (db : Db) : List ChainPoint :=
  (cursorPoints db ++ config.point.toList).foldl addPoint []

/-- An intersection point is the cursor, a stored block or the configured start. -/
theorem mem_buildIntersectionPoints {config : CrawlStart} {db : Db} {point : ChainPoint}
    (offered : point ∈ buildIntersectionPoints config db) :
    (db.sync.lastSlot = point.slot ∧ db.sync.lastBlockHash = some point.hash) ∨
      (∃ row ∈ (db.crawl .blocks).rows, row.hash = point.hash ∧ row.slot = some point.slot) ∨
        config.point = some point := by
  have candidate := (mem_foldl_addPoint offered).resolve_left List.not_mem_nil
  rcases List.mem_append.mp candidate with stored | start
  · unfold cursorPoints at stored
    split at stored
    · cases stored
    · rename_i hash cursor
      rcases List.mem_cons.mp stored with rfl | stored
      · exact Or.inl ⟨rfl, cursor⟩
      · obtain ⟨row, rowMem, mapped⟩ := List.mem_filterMap.mp stored
        obtain ⟨slot, known, rfl⟩ := Option.map_eq_some_iff.mp mapped
        rw [List.mem_mergeSort] at rowMem
        exact Or.inr (Or.inl ⟨row, (Table.mem_select.mp rowMem).1, rfl, known⟩)
  · exact Or.inr (Or.inr (Option.mem_toList.mp start))

theorem foldl_addPoint_mem {candidates points : List ChainPoint} {point : ChainPoint}
    (pointMem : point ∈ points) : point ∈ candidates.foldl addPoint points := by
  induction candidates generalizing points with
  | nil => exact pointMem
  | cons candidate candidates ih =>
      refine ih ?_
      unfold addPoint
      split
      · exact pointMem
      · exact List.mem_append_left _ pointMem

/-- The cursor is offered first. -/
theorem cursor_mem_buildIntersectionPoints {config : CrawlStart} {db : Db} {hash : BlockHash}
    (cursor : db.sync.lastBlockHash = some hash) :
    ⟨db.sync.lastSlot, hash, some db.sync.lastHeight⟩ ∈ buildIntersectionPoints config db := by
  unfold buildIntersectionPoints cursorPoints
  rw [cursor]
  simp only [List.cons_append, List.foldl_cons]
  exact foldl_addPoint_mem (List.mem_singleton_self _)

/-! ## Runs -/

/-- What was stored before the crawl lies at or below its start. -/
def BelowStart (start : ChainPoint) (base : CrawlStore) : Prop :=
  ∀ row ∈ (base .blocks).rows, ∀ slot, row.slot = some slot → slot ≤ start.slot

/-- The chain above the crawl start: valid blocks, in order, after the start. -/
structure FollowedChain (start : ChainPoint) (base : CrawlStore) (chain : List IndexedBlock) :
    Prop where
  valid : ValidChain base chain
  afterStart : ∀ b ∈ chain, start.slot < b.slot
  hash_ne_start : ∀ b ∈ chain, b.hash ≠ start.hash

/-- A point of the followed chain: the crawl start or one of its blocks. -/
def OnChain (start : ChainPoint) (chain : List IndexedBlock) (point : ChainPoint) : Prop :=
  (point.slot = start.slot ∧ point.hash = start.hash) ∨
    ∃ b ∈ chain, b.slot = point.slot ∧ b.hash = point.hash

/-- Slot and hash of the last block of the followed chain. -/
def chainTip (start : ChainPoint) (chain : List IndexedBlock) : Nat × BlockHash :=
  match chain.getLast? with
  | none => (start.slot, start.hash)
  | some b => (b.slot, b.hash)

/-! ## Points of a chain -/

section Points

variable {start : ChainPoint} {base : CrawlStore} {chain : List IndexedBlock}

/-- The blocks up to a slot are a prefix of a chain. -/
theorem FollowedChain.split (followed : FollowedChain start base chain) (slot : Nat) :
    chain = (chain.filter fun b => decide (b.slot ≤ slot)) ++
      chain.filter fun b => decide (slot < b.slot) := by
  have ordered := followed.valid.ordered
  clear followed
  induction chain with
  | nil => rfl
  | cons b rest ih =>
      have restEq := ih ordered.of_cons
      by_cases early : b.slot ≤ slot
      · have notLate : ¬ slot < b.slot := by omega
        rw [List.filter_cons_of_pos (by simpa using early),
          List.filter_cons_of_neg (by simpa using notLate), List.cons_append, ← restEq]
      · have none : (rest.filter fun c => decide (c.slot ≤ slot)) = [] := by
          rw [List.filter_eq_nil_iff]
          intro c cMem
          have later := (List.rel_of_pairwise_cons ordered cMem).slot_lt
          simp only [decide_eq_true_eq]
          omega
        rw [none, List.nil_append] at restEq
        rw [List.filter_cons_of_neg (by simpa using early), none, List.nil_append,
          List.filter_cons_of_pos (by simpa using Nat.lt_of_not_le early), ← restEq]

/-- The blocks up to a slot are a chain. -/
theorem FollowedChain.upTo (followed : FollowedChain start base chain) (slot : Nat) :
    FollowedChain start base (chain.filter fun b => decide (b.slot ≤ slot)) where
  valid := by
    have valid := followed.valid
    rw [followed.split slot] at valid
    exact valid.left
  afterStart b bMem := followed.afterStart b (List.mem_filter.mp bMem).1
  hash_ne_start b bMem := followed.hash_ne_start b (List.mem_filter.mp bMem).1

/-- Every block of a chain is its last one or precedes it. -/
theorem FollowedChain.eq_or_precedes_last (followed : FollowedChain start base chain)
    {b last : IndexedBlock} (bMem : b ∈ chain) (lastEq : chain.getLast? = some last) :
    b = last ∨ b.Precedes last := by
  obtain ⟨earlier, rfl⟩ := List.getLast?_eq_some_iff.mp lastEq
  rcases List.mem_append.mp bMem with earlierMem | isLast
  · have cross := (List.pairwise_append.mp followed.valid.ordered).2.2
    exact Or.inr (cross b earlierMem last (List.mem_singleton_self last))
  · exact Or.inl (List.mem_singleton.mp isLast)

theorem chainTip_append (start : ChainPoint) (chain : List IndexedBlock) (b : IndexedBlock) :
    chainTip start (chain ++ [b]) = (b.slot, b.hash) := by
  simp [chainTip]

/-- The tip of a chain is a point of it. -/
theorem chainTip_onChain {point : ChainPoint}
    (slot : (chainTip start chain).1 = point.slot) (hash : (chainTip start chain).2 = point.hash) :
    OnChain start chain point := by
  unfold chainTip at slot hash
  cases last : chain.getLast? with
  | none =>
      rw [last] at slot hash
      exact Or.inl ⟨slot.symm, hash.symm⟩
  | some b =>
      rw [last] at slot hash
      exact Or.inr ⟨b, List.mem_of_getLast? last, slot, hash⟩

/-- No point of the chain lies below its start. -/
theorem OnChain.start_le (followed : FollowedChain start base chain) {point : ChainPoint}
    (onChain : OnChain start chain point) : start.slot ≤ point.slot := by
  rcases onChain with ⟨same, -⟩ | ⟨b, bMem, same, -⟩
  · exact same.ge
  · have after := followed.afterStart b bMem
    omega

/-- A chain rolled back to one of its points ends there. -/
theorem chainTip_upTo (followed : FollowedChain start base chain) {point : ChainPoint}
    (onChain : OnChain start chain point) :
    chainTip start (chain.filter fun b => decide (b.slot ≤ point.slot)) =
      (point.slot, point.hash) := by
  have upTo := followed.upTo point.slot
  rcases onChain with ⟨slot, hash⟩ | ⟨b, bMem, slot, hash⟩
  · have none : (chain.filter fun b => decide (b.slot ≤ point.slot)) = [] := by
      rw [List.filter_eq_nil_iff]
      intro b bMem
      have after := followed.afterStart b bMem
      simp only [decide_eq_true_eq]
      omega
    rw [none, slot, hash]
    rfl
  · have kept : b ∈ chain.filter fun b => decide (b.slot ≤ point.slot) :=
      List.mem_filter.mpr ⟨bMem, by simp [slot]⟩
    unfold chainTip
    cases lastEq : (chain.filter fun b => decide (b.slot ≤ point.slot)).getLast? with
    | none =>
        rw [List.getLast?_eq_none_iff] at lastEq
        rw [lastEq] at kept
        cases kept
    | some last =>
        have lastMem := (List.mem_filter.mp (List.mem_of_getLast? lastEq)).2
        simp only [decide_eq_true_eq] at lastMem
        rcases upTo.eq_or_precedes_last kept lastEq with rfl | precedes
        · exact Prod.ext slot hash
        · have later := precedes.slot_lt
          omega

/-- The point with the hash of the tip is the tip. -/
theorem FollowedChain.upTo_tip (followed : FollowedChain start base chain) {point : ChainPoint}
    (onChain : OnChain start chain point) (isTip : (chainTip start chain).2 = point.hash) :
    (chain.filter fun b => decide (b.slot ≤ point.slot)) = chain := by
  rw [List.filter_eq_self]
  intro b bMem
  simp only [decide_eq_true_eq]
  cases lastEq : chain.getLast? with
  | none =>
      rw [List.getLast?_eq_none_iff] at lastEq
      rw [lastEq] at bMem
      cases bMem
  | some last =>
      have lastMem := List.mem_of_getLast? lastEq
      have lastHash : last.hash = point.hash := by
        simpa only [chainTip, lastEq] using isTip
      have below : b.slot ≤ last.slot := by
        rcases followed.eq_or_precedes_last bMem lastEq with rfl | precedes
        · exact le_rfl
        · exact precedes.slot_lt.le
      rcases onChain with ⟨-, hash⟩ | ⟨c, cMem, slot, hash⟩
      · exact absurd (lastHash.trans hash) (followed.hash_ne_start last lastMem)
      · rcases followed.eq_or_precedes_last cMem lastEq with rfl | precedes
        · exact slot ▸ below
        · exact absurd (hash.trans lastHash.symm) precedes.hash_ne

end Points

section Runs

variable [Bech32]

/-- The steps of a crawl. -/
inductive CrawlStep (config : CrawlStart) (start : ChainPoint) (base : CrawlStore) :
    Crawler → Crawler → Prop
  | rollForward (crawler : Crawler) (message : RollForward) (leaseOwner : Option LeaseOwner)
      (now : Time)
      (next : FollowedChain start base
        (crawler.chain ++ [message.indexed crawler.indexer crawler.db])) :
      CrawlStep config start base crawler (crawler.rollForward message leaseOwner now)
  | rollBackward (crawler : Crawler) (point : ChainPoint) (leaseOwner : Option LeaseOwner)
      (now : Time) (onChain : OnChain start crawler.chain point) :
      CrawlStep config start base crawler (crawler.rollBackward config point leaseOwner now)
  -- a crash loses the memory; the new stream opens at an intersection point
  | restart (crawler : Crawler) (indexer : Indexer) (point : ChainPoint)
      (leaseOwner : Option LeaseOwner) (now : Time)
      (configured : indexer.coverage = crawler.indexer.coverage)
      (offered : point ∈ buildIntersectionPoints config crawler.db)
      (aboveStart : (point.slot = start.slot ∧ point.hash = start.hash) ∨
        start.slot < point.slot) :
      CrawlStep config start base crawler
        ({ crawler with indexer }.rollBackward config point leaseOwner now)
  -- leases, operator commands, imports: anything but the crawled tables and the cursor
  | other (crawler : Crawler) (db : Db) (indexer : Indexer)
      (configured : indexer.coverage = crawler.indexer.coverage)
      (tables : db.crawl = crawler.db.crawl)
      (cursorSlot : db.sync.lastSlot = crawler.db.sync.lastSlot)
      (cursorHash : db.sync.lastBlockHash = crawler.db.sync.lastBlockHash) :
      CrawlStep config start base crawler { crawler with db, indexer }

/-- The crawled tables and the cursor follow the chain. -/
structure Crawled (coverage : CrawlCoverage) (start : ChainPoint) (base : CrawlStore)
    (crawler : Crawler) : Prop where
  followed : FollowedChain start base crawler.chain
  tables : crawler.db.crawl = indexChain coverage base crawler.chain
  cursorSlot : crawler.db.sync.lastSlot = (chainTip start crawler.chain).1
  cursorHash : crawler.db.sync.lastBlockHash = some (chainTip start crawler.chain).2
  configured : crawler.indexer.coverage = coverage

/-- A crawl that has not begun: the cursor stands at the crawl start. -/
structure CrawlBegins (coverage : CrawlCoverage) (start : ChainPoint) (base : CrawlStore)
    (crawler : Crawler) : Prop where
  nothing : crawler.chain = []
  tables : crawler.db.crawl = base
  cursorSlot : crawler.db.sync.lastSlot = start.slot
  cursorHash : crawler.db.sync.lastBlockHash = some start.hash
  configured : crawler.indexer.coverage = coverage

variable {coverage : CrawlCoverage} {config : CrawlStart} {start : ChainPoint}
  {base : CrawlStore} {crawler : Crawler}

theorem CrawlBegins.crawled (begins : CrawlBegins coverage start base crawler) :
    Crawled coverage start base crawler where
  followed := by
    rw [begins.nothing]
    exact ⟨⟨by simp, List.Pairwise.nil, by simp⟩, by simp, by simp⟩
  tables := by rw [begins.tables, begins.nothing]; rfl
  cursorSlot := by rw [begins.cursorSlot, begins.nothing]; rfl
  cursorHash := by rw [begins.cursorHash, begins.nothing]; rfl
  configured := begins.configured

/-- A block message keeps tables and cursor on the chain. -/
theorem Crawled.rollForward (crawled : Crawled coverage start base crawler)
    {message : RollForward} {leaseOwner : Option LeaseOwner} {now : Time}
    (next : FollowedChain start base
      (crawler.chain ++ [message.indexed crawler.indexer crawler.db])) :
    Crawled coverage start base (crawler.rollForward message leaseOwner now) := by
  unfold Crawler.rollForward
  split
  · exact crawled
  · simp only
    have kept : (persistBlockTx crawler.indexer crawler.db message.block message.txs
        message.epochData message.tip leaseOwner now).1.coverage = coverage :=
      (indexBlockFull_coverage ..).trans crawled.configured
    split
    · exact { crawled with configured := kept }
    · rename_i db committed
      obtain ⟨tables, cursorSlot, cursorHash⟩ := persistBlockTx_committed committed
      refine ⟨next, ?_, ?_, ?_, ?_⟩
      · rw [tables, crawled.tables, crawled.configured]
        exact (indexChain_append_singleton ..).symm
      · rw [cursorSlot, chainTip_append]
        rfl
      · rw [cursorHash, chainTip_append]
        rfl
      · unfold Indexer.blockCommitted Indexer.takeLedgerInvalidation
        split <;> exact kept

/-- The blocks a rollback finds stale are those after its point. -/
theorem mem_staleBlocks (below : BelowStart start base)
    (crawled : Crawled coverage start base crawler) {slot : Nat} (startLe : start.slot ≤ slot)
    (hash : BlockHash) :
    hash ∈ staleBlocks crawler.db.crawl slot ↔
      ∃ b ∈ crawler.chain.filter (fun b => decide (slot < b.slot)), b.hash = hash := by
  have rows := blocks_indexChain coverage crawled.followed.valid
  rw [← crawled.tables] at rows
  simp only [staleBlocks, List.mem_map, Table.mem_select, List.mem_filter, decide_eq_true_eq]
  constructor
  · rintro ⟨row, ⟨rowMem, late⟩, rfl⟩
    have identityMem := List.mem_map_of_mem (f := BlockRow.identity) rowMem
    rw [rows, List.mem_append] at identityMem
    rcases identityMem with stored | indexed
    · obtain ⟨old, oldMem, same⟩ := List.mem_map.mp stored
      have sameSlot : old.slot = row.slot := congrArg (fun i => i.2.1) same
      cases known : row.slot with
      | none => simp [known] at late
      | some rowSlot =>
          have early := below old oldMem rowSlot (sameSlot.trans known)
          simp only [known, Option.any_some, decide_eq_true_eq] at late
          omega
    · obtain ⟨b, bMem, same⟩ := List.mem_map.mp indexed
      simp only [BlockRow.identity, Prod.mk.injEq] at same
      rw [← same.2.1, (crawled.followed.valid.wellFormed b bMem).slot_known, Option.any_some,
        decide_eq_true_eq] at late
      exact ⟨b, ⟨bMem, late⟩, same.1⟩
  · rintro ⟨b, ⟨bMem, late⟩, rfl⟩
    have identityMem : (b.hash, b.block.slot, b.block.height) ∈
        (crawler.db.crawl .blocks).rows.map BlockRow.identity := by
      rw [rows]
      exact List.mem_append_right _ (List.mem_map_of_mem bMem)
    obtain ⟨row, rowMem, same⟩ := List.mem_map.mp identityMem
    simp only [BlockRow.identity, Prod.mk.injEq] at same
    refine ⟨row, ⟨rowMem, ?_⟩, same.1⟩
    rw [same.2.1, (crawled.followed.valid.wellFormed b bMem).slot_known]
    simpa using late

/-- A rollback to a point of the chain keeps tables and cursor on the chain. -/
theorem Crawled.rollBackward (below : BelowStart start base)
    (crawled : Crawled coverage start base crawler) {point : ChainPoint}
    {leaseOwner : Option LeaseOwner} {now : Time} (onChain : OnChain start crawler.chain point) :
    Crawled coverage start base (crawler.rollBackward config point leaseOwner now) := by
  unfold Crawler.rollBackward
  simp only
  split
  · rename_i atCursor
    have isTip : (chainTip start crawler.chain).2 = point.hash :=
      Option.some.inj (crawled.cursorHash.symm.trans atCursor)
    rw [crawled.followed.upTo_tip onChain isTip]
    exact crawled
  · split
    · exact crawled
    · rename_i db ledgerInvalidated committed
      obtain ⟨tables, cursorSlot, cursorHash⟩ := handleReorgTx_committed committed
      have tip := chainTip_upTo crawled.followed onChain
      have valid := crawled.followed.valid
      rw [crawled.followed.split point.slot] at valid
      refine ⟨crawled.followed.upTo point.slot, ?_, ?_, ?_, ?_⟩
      · have stale := mem_staleBlocks below crawled (onChain.start_le crawled.followed)
        rw [tables]
        generalize staleBlocks crawler.db.crawl point.slot = hashes at stale
        rw [crawled.tables]
        conv_lhs => rw [crawled.followed.split point.slot]
        exact rollBackBlocks_indexChain valid stale
      · rw [cursorSlot, tip]
      · rw [cursorHash, tip]
      · unfold Indexer.reorgCommitted Indexer.setUtxoAnchor
        split <;> exact crawled.configured

/-- An intersection point that is not below the crawl start is on the chain. -/
theorem Crawled.onChain_of_offered (below : BelowStart start base)
    (configured : config.point = some start) (crawled : Crawled coverage start base crawler)
    {point : ChainPoint} (offered : point ∈ buildIntersectionPoints config crawler.db)
    (aboveStart : (point.slot = start.slot ∧ point.hash = start.hash) ∨
      start.slot < point.slot) : OnChain start crawler.chain point := by
  rcases mem_buildIntersectionPoints offered with ⟨slot, hash⟩ | ⟨row, rowMem, hash, slot⟩ | isStart
  · have tipHash := crawled.cursorHash.symm.trans hash
    exact chainTip_onChain (crawled.cursorSlot.symm.trans slot) (Option.some.inj tipHash)
  · rcases aboveStart with atStart | late
    · exact Or.inl atStart
    · have rows := blocks_indexChain coverage crawled.followed.valid
      rw [← crawled.tables] at rows
      have identityMem := List.mem_map_of_mem (f := BlockRow.identity) rowMem
      rw [rows, List.mem_append] at identityMem
      rcases identityMem with stored | indexed
      · obtain ⟨old, oldMem, same⟩ := List.mem_map.mp stored
        have sameSlot : old.slot = row.slot := congrArg (fun i => i.2.1) same
        have early := below old oldMem point.slot (sameSlot.trans slot)
        omega
      · obtain ⟨b, bMem, same⟩ := List.mem_map.mp indexed
        simp only [BlockRow.identity, Prod.mk.injEq] at same
        have bSlot := (crawled.followed.valid.wellFormed b bMem).slot_known
        exact Or.inr ⟨b, bMem, Option.some.inj (bSlot.symm.trans (same.2.1.trans slot)),
          same.1.trans hash⟩
  · rw [configured] at isStart
    cases Option.some.inj isStart
    exact Or.inl ⟨rfl, rfl⟩

/-- Every step keeps tables and cursor on the chain. -/
theorem Crawled.step (below : BelowStart start base) (configured : config.point = some start)
    {next : Crawler} (crawled : Crawled coverage start base crawler)
    (step : CrawlStep config start base crawler next) : Crawled coverage start base next := by
  cases step with
  | rollForward message leaseOwner now next => exact crawled.rollForward next
  | rollBackward point leaseOwner now onChain => exact crawled.rollBackward below onChain
  | restart indexer point leaseOwner now sameCoverage offered aboveStart =>
      have onChain := crawled.onChain_of_offered below configured offered aboveStart
      have restarted : Crawled coverage start base { crawler with indexer } :=
        { crawled with configured := sameCoverage.trans crawled.configured }
      exact restarted.rollBackward below onChain
  | other db indexer sameCoverage tables cursorSlot cursorHash =>
      exact
        { followed := crawled.followed
          tables := tables.trans crawled.tables
          cursorSlot := cursorSlot.trans crawled.cursorSlot
          cursorHash := cursorHash.trans crawled.cursorHash
          configured := sameCoverage.trans crawled.configured }

end Runs

/-! ### Sample messages -/

theorem untouched_empty (b : IndexedBlock) : Untouched CrawlStore.empty b where
  owners _ _ rowMem := absurd rowMem List.not_mem_nil
  blockHash _ rowMem := absurd rowMem List.not_mem_nil
  positions _ rowMem := absurd rowMem List.not_mem_nil
  heights _ rowMem := absurd rowMem List.not_mem_nil

/-- The transaction `t1` in a block of its own. -/
def sampleMessage (hash : BlockHash) (slot : Nat) : RollForward :=
  ⟨sampleBlock hash slot 1, [sampleTx (text "t1") hash slot [] [sampleOutput]], none, none⟩

/-- A single sample block after the start is a chain. -/
theorem sampleMessage_followed (hash : BlockHash) (slot : Nat) (ledger : Option LedgerDb)
    {start : ChainPoint} (after : start.slot < slot) (hash_ne : hash ≠ start.hash) :
    FollowedChain start CrawlStore.empty
      [⟨(sampleMessage hash slot).block, (sampleMessage hash slot).txs, none, ledger⟩] := by
  refine ⟨⟨?_, List.pairwise_singleton .., fun b _ => untouched_empty b⟩, ?_, ?_⟩
  · intro b bMem
    cases List.mem_singleton.mp bMem
    constructor <;> simp [sampleMessage, sampleBlock, sampleTx, IndexedBlock.slot,
      IndexedBlock.hash, BlockData.slotOrZero, TX_SEQ_SLOT_FACTOR]
  · intro b bMem
    cases List.mem_singleton.mp bMem
    exact after
  · intro b bMem
    cases List.mem_singleton.mp bMem
    exact hash_ne

def sampleStart : ChainPoint := ⟨10, text "b10", none⟩

def sampleConfig : CrawlStart := ⟨some 10, some (text "b10"), none⟩

/-- A crawler at the sample start, with the ledger off. -/
def sampleCrawler : Crawler where
  db := ⟨CrawlStore.empty, LedgerDb.empty, SyncState.initial "preview" (some sampleStart)⟩
  indexer := ⟨⟨true, true⟩, false, none, false, none, none⟩
  chain := []

end Odatano
