import Odatano.CrawledChain

/-!
# The chain that the messages tell

The followed chain is moved by the messages of the node alone: a delivered block extends it and a
rollback cuts it, whether or not the crawler stores what it is told.  A handler that cannot store it
stops the crawler, and a new stream opens at an intersection point.
-/

namespace Odatano

/-- The crawler with what the node has told it. -/
structure StreamingCrawler where
  db : Db
  indexer : Indexer
  /-- The blocks above the crawl start that were delivered and not taken back, oldest first. -/
  chain : List IndexedBlock
  /-- The blocks that were taken back since the last delivery. -/
  takenBack : List IndexedBlock
  /-- False once a handler has stopped the crawler, until a new stream opens. -/
  streaming : Bool

/-- What a block message tells. -/
def StreamingCrawler.deliver (s : StreamingCrawler) (message : RollForward) : StreamingCrawler :=
  { s with chain := s.chain ++ [message.indexed s.indexer s.db], takenBack := [] }

/-- What a rollback to a point tells. -/
def StreamingCrawler.takeBack (s : StreamingCrawler) (point : ChainPoint) : StreamingCrawler :=
  { s with
    chain := (s.chain ++ s.takenBack).filter fun b => decide (b.slot ≤ point.slot)
    takenBack := (s.chain ++ s.takenBack).filter fun b => decide (point.slot < b.slot) }

section Handlers

variable [Bech32]

/-- The `rollForward` callback: the last attempt of `persistBlock`. -/
def StreamingCrawler.rollForward (s : StreamingCrawler) (message : RollForward)
    (leaseOwner : Option LeaseOwner) (now : Time) : StreamingCrawler :=
  let told := s.deliver message
  if message.txs.length ≠ message.block.txCount then { told with streaming := false }
  else
    let attempt := persistBlockTx s.indexer s.db message.block message.txs message.epochData
      message.tip leaseOwner now
    match attempt.2 with
    | none => { told with indexer := attempt.1, streaming := false }
    | some db => { told with db, indexer := attempt.1.blockCommitted }

/-- The `rollBackward` callback, also of the message that opens a stream. -/
def StreamingCrawler.rollBackward (config : CrawlStart) (s : StreamingCrawler)
    (point : ChainPoint) (leaseOwner : Option LeaseOwner) (now : Time) : StreamingCrawler :=
  let told := s.takeBack point
  if s.db.sync.lastBlockHash = some point.hash then { told with streaming := true }
  else
    match handleReorgTx config s.db (some point) leaseOwner now with
    | none => { told with streaming := false }
    | some (db, ledgerInvalidated) =>
        { told with
          db, indexer := s.indexer.reorgCommitted ledgerInvalidated, streaming := true }

end Handlers

/-! ## The lease -/

/-- The crawler writes without a lease, or holds the stored one and is not paused. -/
def LeaseHeld (sync : SyncState) (leaseOwner : Option LeaseOwner) : Prop :=
  ∀ owner, leaseOwner = some owner →
    sync.leaseOwner = some owner ∧ sync.desiredRunning = true

theorem LeaseHeld.advanceCursor {sync : SyncState} {leaseOwner : Option LeaseOwner}
    (held : LeaseHeld sync leaseOwner) (block : ChainPoint) (tip : Option ChainPoint)
    (status : CrawlSyncStatus) (applied : Option Nat) (now : Time) :
    (sync.advanceCursor block tip status applied leaseOwner now).2 = true := by
  cases isOwner : leaseOwner with
  | none => rfl
  | some owner =>
      obtain ⟨owns, running⟩ := held owner isOwner
      simp [SyncState.advanceCursor, SyncState.leaseDeadlineReached, SyncState.importLeaseHeld,
        SyncState.cursorAt, owns, running]

theorem LeaseHeld.renewCrawlerLease {sync : SyncState} {owner : LeaseOwner}
    (held : LeaseHeld sync (some owner)) (now : Time) :
    (sync.renewCrawlerLease owner now).2 = true := by
  obtain ⟨owns, running⟩ := held owner rfl
  simp [SyncState.renewCrawlerLease, SyncState.leaseDeadlineReached, SyncState.importLeaseHeld,
    owns, running]

section Held

variable [Bech32]

/-- The ledger part of a block leaves the lease alone. -/
theorem LeaseHeld.indexBlockFull {indexer : Indexer} {db : Db} {leaseOwner : Option LeaseOwner}
    (held : LeaseHeld db.sync leaseOwner) (block : BlockData) (txs : List Transaction)
    (epochData : Option Nat) :
    LeaseHeld (indexBlockFull indexer db block txs epochData).2.sync leaseOwner := by
  simp only [Odatano.indexBlockFull]
  split
  · exact held
  · split
    · exact held
    · simp only [verifyUtxoAnchor]
      split
      · split <;> exact held
      · split <;> split <;> exact held

/-- A block that is delivered while the lease is held is committed. -/
theorem LeaseHeld.persistBlockTx {indexer : Indexer} {db : Db} {leaseOwner : Option LeaseOwner}
    (held : LeaseHeld db.sync leaseOwner) (message : RollForward) (now : Time) :
    ∃ stored, (persistBlockTx indexer db message.block message.txs message.epochData message.tip
      leaseOwner now).2 = some stored := by
  have indexed := @LeaseHeld.indexBlockFull _ indexer db leaseOwner held message.block message.txs
    message.epochData
  exact ⟨_, if_pos (indexed.advanceCursor ..)⟩

/-- A rollback while the lease is held is committed. -/
theorem LeaseHeld.handleReorgTx {db : Db} {leaseOwner : Option LeaseOwner}
    (held : LeaseHeld db.sync leaseOwner) (config : CrawlStart) (point : Option ChainPoint)
    (now : Time) :
    ∃ stored, handleReorgTx config db point leaseOwner now = some stored := by
  cases leaseOwner with
  | none => exact ⟨_, rfl⟩
  | some owner => exact ⟨_, if_pos (held.renewCrawlerLease now)⟩

end Held

/-! ## Runs -/

section Runs

variable [Bech32]

/-- The steps of a crawl, seen from the node. -/
inductive StreamStep (config : CrawlStart) (start : ChainPoint) (base : CrawlStore) :
    StreamingCrawler → StreamingCrawler → Prop
  | rollForward (s : StreamingCrawler) (message : RollForward) (leaseOwner : Option LeaseOwner)
      (now : Time) (isOpen : s.streaming = true)
      (next : FollowedChain start base (s.deliver message).chain) :
      StreamStep config start base s (s.rollForward message leaseOwner now)
  | rollBackward (s : StreamingCrawler) (point : ChainPoint) (leaseOwner : Option LeaseOwner)
      (now : Time) (isOpen : s.streaming = true) (onChain : OnChain start s.chain point) :
      StreamStep config start base s (s.rollBackward config point leaseOwner now)
  -- the process ends after a message has come and before its transaction commits
  | blockLost (s : StreamingCrawler) (message : RollForward) (isOpen : s.streaming = true)
      (next : FollowedChain start base (s.deliver message).chain) :
      StreamStep config start base s { s.deliver message with streaming := false }
  | rollbackLost (s : StreamingCrawler) (point : ChainPoint) (isOpen : s.streaming = true)
      (onChain : OnChain start s.chain point) :
      StreamStep config start base s { s.takeBack point with streaming := false }
  -- a start, or a new stream of the same process: it opens at an intersection point
  | restart (s : StreamingCrawler) (indexer : Indexer) (point : ChainPoint)
      (leaseOwner : Option LeaseOwner) (now : Time)
      (configured : indexer.coverage = s.indexer.coverage)
      (offered : point ∈ buildIntersectionPoints config s.db)
      (aboveStart : (point.slot = start.slot ∧ point.hash = start.hash) ∨
        start.slot < point.slot) :
      StreamStep config start base s
        ({ s with indexer }.rollBackward config point leaseOwner now)
  -- leases, operator commands, imports, failed attempts: not the crawled tables or the cursor
  | other (s : StreamingCrawler) (db : Db) (indexer : Indexer)
      (configured : indexer.coverage = s.indexer.coverage)
      (tables : db.crawl = s.db.crawl)
      (cursorSlot : db.sync.lastSlot = s.db.sync.lastSlot)
      (cursorHash : db.sync.lastBlockHash = s.db.sync.lastBlockHash) :
      StreamStep config start base s { s with db, indexer }

/-- What is stored is the followed chain, or the part of it up to the message that stopped the
crawler. -/
structure Streamed (coverage : CrawlCoverage) (start : ChainPoint) (base : CrawlStore)
    (stored : List IndexedBlock) (s : StreamingCrawler) : Prop where
  crawled : Crawled coverage start base ⟨s.db, s.indexer, stored⟩
  followed : FollowedChain start base (s.chain ++ s.takenBack)
  told : stored <+: s.chain ++ s.takenBack
  current : s.streaming = true → stored = s.chain

variable {coverage : CrawlCoverage} {config : CrawlStart} {start : ChainPoint}
  {base : CrawlStore} {s s' : StreamingCrawler} {stored : List IndexedBlock}

omit [Bech32] in
/-- Above a point of the stored chain there is nothing below what is stored. -/
theorem FollowedChain.upTo_stored {chain later : List IndexedBlock}
    (followed : FollowedChain start base (chain ++ later)) {point : ChainPoint}
    (onChain : OnChain start chain point) :
    ((chain ++ later).filter fun b => decide (b.slot ≤ point.slot)) =
      chain.filter fun b => decide (b.slot ≤ point.slot) := by
  have none : (later.filter fun b => decide (b.slot ≤ point.slot)) = [] := by
    refine List.filter_eq_nil_iff.mpr fun b bMem early => ?_
    have early := of_decide_eq_true early
    rcases onChain with ⟨slot, -⟩ | ⟨c, cMem, slot, -⟩
    · have after := followed.afterStart b (List.mem_append_right _ bMem)
      omega
    · have cross := (List.pairwise_append.mp followed.valid.ordered).2.2
      have after := (cross c cMem b bMem).slot_lt
      omega
  rw [List.filter_append, none, List.append_nil]

omit [Bech32] in
/-- Taking back keeps the line of the delivered blocks. -/
theorem FollowedChain.takeBack (followed : FollowedChain start base (s.chain ++ s.takenBack))
    (point : ChainPoint) :
    (s.takeBack point).chain ++ (s.takeBack point).takenBack = s.chain ++ s.takenBack :=
  (followed.split point.slot).symm

/-- A block message. -/
theorem Streamed.rollForward (streamed : Streamed coverage start base stored s)
    {message : RollForward} {leaseOwner : Option LeaseOwner} {now : Time}
    (isOpen : s.streaming = true)
    (next : FollowedChain start base (s.deliver message).chain) :
    ∃ stored', Streamed coverage start base stored' (s.rollForward message leaseOwner now) := by
  obtain rfl := streamed.current isOpen
  have line : FollowedChain start base
      ((s.deliver message).chain ++ (s.deliver message).takenBack) := by
    rw [StreamingCrawler.deliver, List.append_nil]
    exact next
  have told : s.chain <+: (s.deliver message).chain ++ (s.deliver message).takenBack :=
    (List.prefix_append _ _).trans (List.prefix_append _ _)
  have kept := (indexBlockFull_coverage s.indexer s.db message.block message.txs
    message.epochData).trans streamed.crawled.configured
  have indexed := @Crawled.rollForward _ coverage start base _ streamed.crawled message leaseOwner
    now next
  unfold Crawler.rollForward at indexed
  unfold StreamingCrawler.rollForward
  simp only at indexed ⊢
  split
  · exact ⟨s.chain, streamed.crawled, line, told, fun closed => by cases closed⟩
  · rename_i complete
    rw [if_neg complete] at indexed
    split
    · exact ⟨s.chain, { streamed.crawled with configured := kept }, line, told,
        fun closed => by cases closed⟩
    · rename_i db committed
      rw [committed] at indexed
      exact ⟨_, indexed, line, List.prefix_append _ _, fun _ => rfl⟩

/-- A rollback message, or the first message of a stream. -/
theorem Streamed.rollBackward (below : BelowStart start base)
    (streamed : Streamed coverage start base stored s) {point : ChainPoint}
    {leaseOwner : Option LeaseOwner} {now : Time} (onChain : OnChain start stored point) :
    ∃ stored', Streamed coverage start base stored'
      (s.rollBackward config point leaseOwner now) := by
  obtain ⟨later, isLine⟩ := streamed.told
  have line := streamed.followed.takeBack point
  have followed : FollowedChain start base
      ((s.takeBack point).chain ++ (s.takeBack point).takenBack) := line ▸ streamed.followed
  have cut : (s.takeBack point).chain = stored.filter fun b => decide (b.slot ≤ point.slot) := by
    rw [StreamingCrawler.takeBack, ← isLine]
    exact (isLine.symm ▸ streamed.followed : FollowedChain start base (stored ++ later)).upTo_stored
      onChain
  have rolled := @Crawled.rollBackward _ coverage config start base _ below streamed.crawled point
    leaseOwner now onChain
  unfold Crawler.rollBackward at rolled
  unfold StreamingCrawler.rollBackward
  simp only at rolled ⊢
  rw [← cut] at rolled
  split
  · rename_i atCursor
    rw [if_pos atCursor] at rolled
    exact ⟨_, rolled, followed, List.prefix_append _ _, fun _ => rfl⟩
  · rename_i differs
    rw [if_neg differs] at rolled
    split
    · exact ⟨stored, streamed.crawled, followed, line ▸ streamed.told,
        fun closed => by cases closed⟩
    · rename_i db ledgerInvalidated committed
      rw [committed] at rolled
      exact ⟨_, rolled, followed, List.prefix_append _ _, fun _ => rfl⟩

/-- Every step keeps what is stored on the chain that the node has told. -/
theorem Streamed.step (below : BelowStart start base) (configured : config.point = some start)
    (streamed : Streamed coverage start base stored s)
    (step : StreamStep config start base s s') :
    ∃ stored', Streamed coverage start base stored' s' := by
  cases step with
  | rollForward message leaseOwner now isOpen next => exact streamed.rollForward isOpen next
  | rollBackward point leaseOwner now isOpen onChain =>
      exact streamed.rollBackward below (streamed.current isOpen ▸ onChain)
  | blockLost message isOpen next =>
      obtain rfl := streamed.current isOpen
      refine ⟨s.chain, streamed.crawled, ?_, ?_, fun closed => by cases closed⟩
      · rw [StreamingCrawler.deliver, List.append_nil]
        exact next
      · exact (List.prefix_append _ _).trans (List.prefix_append _ _)
  | rollbackLost point isOpen onChain =>
      have line := streamed.followed.takeBack point
      exact ⟨stored, streamed.crawled, line ▸ streamed.followed, line ▸ streamed.told,
        fun closed => by cases closed⟩
  | restart indexer point leaseOwner now sameCoverage offered aboveStart =>
      have onChain := streamed.crawled.onChain_of_offered below configured offered aboveStart
      have restarted : Streamed coverage start base stored { s with indexer } :=
        { streamed with
          crawled :=
            { streamed.crawled with configured := sameCoverage.trans streamed.crawled.configured } }
      exact restarted.rollBackward below onChain
  | other db indexer sameCoverage tables cursorSlot cursorHash =>
      exact ⟨stored,
        { streamed with
          crawled :=
            { followed := streamed.crawled.followed
              tables := tables.trans streamed.crawled.tables
              cursorSlot := cursorSlot.trans streamed.crawled.cursorSlot
              cursorHash := cursorHash.trans streamed.crawled.cursorHash
              configured := sameCoverage.trans streamed.crawled.configured } }⟩

/-- A crawl that has not begun: nothing was delivered, and the cursor stands at the crawl start. -/
structure StreamBegins (coverage : CrawlCoverage) (start : ChainPoint) (base : CrawlStore)
    (s : StreamingCrawler) : Prop where
  crawl : CrawlBegins coverage start base ⟨s.db, s.indexer, s.chain⟩
  nothing : s.takenBack = []

/-- The crawled tables and the cursor are those of a chain. -/
structure TablesOf (coverage : CrawlCoverage) (start : ChainPoint) (base : CrawlStore)
    (chain : List IndexedBlock) (db : Db) : Prop where
  tables : db.crawl = indexChain coverage base chain
  cursorSlot : db.sync.lastSlot = (chainTip start chain).1
  cursorHash : db.sync.lastBlockHash = some (chainTip start chain).2

/-- What holds of a crawl at any time. -/
structure FollowsStream (coverage : CrawlCoverage) (config : CrawlStart) (start : ChainPoint)
    (base : CrawlStore) (s : StreamingCrawler) : Prop where
  /-- Between blocks the tables are those of the followed chain. -/
  between : s.streaming = true → TablesOf coverage start base s.chain s.db
  /-- A crawler that was stopped has stored the followed chain up to some block, and nothing of the
  message it was stopped at. -/
  stopped : ∃ stored, stored <+: s.chain ++ s.takenBack ∧
    TablesOf coverage start base stored s.db
  /-- A complete block that is delivered while the lease is held is stored. -/
  delivered : ∀ message leaseOwner now, s.streaming = true →
    message.txs.length = message.block.txCount → LeaseHeld s.db.sync leaseOwner →
      FollowedChain start base (s.chain ++ [message.indexed s.indexer s.db]) →
        (s.rollForward message leaseOwner now).streaming = true ∧
          TablesOf coverage start base (s.chain ++ [message.indexed s.indexer s.db])
            (s.rollForward message leaseOwner now).db
  /-- A rollback that comes while the lease is held is stored. -/
  takenBack : ∀ point leaseOwner now, s.streaming = true → OnChain start s.chain point →
    LeaseHeld s.db.sync leaseOwner →
      (s.rollBackward config point leaseOwner now).streaming = true ∧
        TablesOf coverage start base (s.chain.filter fun b => decide (b.slot ≤ point.slot))
          (s.rollBackward config point leaseOwner now).db
  /-- A crawler that was stopped goes on from every intersection point at or above its start. -/
  resumed : ∀ indexer point leaseOwner now, indexer.coverage = s.indexer.coverage →
    point ∈ buildIntersectionPoints config s.db →
      (point.slot = start.slot ∧ point.hash = start.hash) ∨ start.slot < point.slot →
        LeaseHeld s.db.sync leaseOwner →
          ({ s with indexer }.rollBackward config point leaseOwner now).streaming = true

theorem Streamed.tablesOf (streamed : Streamed coverage start base stored s) :
    TablesOf coverage start base stored s.db :=
  ⟨streamed.crawled.tables, streamed.crawled.cursorSlot, streamed.crawled.cursorHash⟩

theorem Streamed.tablesOf_chain (streamed : Streamed coverage start base stored s)
    (isOpen : s.streaming = true) : TablesOf coverage start base s.chain s.db :=
  streamed.current isOpen ▸ streamed.tablesOf

theorem streaming_rollForward {message : RollForward} {leaseOwner : Option LeaseOwner}
    (isOpen : s.streaming = true) (complete : message.txs.length = message.block.txCount)
    (held : LeaseHeld s.db.sync leaseOwner) (now : Time) :
    (s.rollForward message leaseOwner now).streaming = true ∧
      (s.rollForward message leaseOwner now).chain =
        s.chain ++ [message.indexed s.indexer s.db] := by
  obtain ⟨db, committed⟩ := @LeaseHeld.persistBlockTx _ s.indexer s.db leaseOwner held message now
  unfold StreamingCrawler.rollForward
  simp only [if_neg (not_not.mpr complete), committed]
  exact ⟨isOpen, rfl⟩

theorem streaming_rollBackward {leaseOwner : Option LeaseOwner}
    (held : LeaseHeld s.db.sync leaseOwner) (point : ChainPoint) (now : Time) :
    (s.rollBackward config point leaseOwner now).streaming = true ∧
      (s.rollBackward config point leaseOwner now).chain = (s.takeBack point).chain := by
  obtain ⟨⟨db, ledgerInvalidated⟩, committed⟩ := held.handleReorgTx config (some point) now
  unfold StreamingCrawler.rollBackward
  by_cases atCursor : s.db.sync.lastBlockHash = some point.hash
  · rw [if_pos atCursor]
    exact ⟨rfl, rfl⟩
  · rw [if_neg atCursor, committed]
    exact ⟨rfl, rfl⟩

theorem Streamed.followsStream (below : BelowStart start base)
    (streamed : Streamed coverage start base stored s) :
    FollowsStream coverage config start base s where
  between := streamed.tablesOf_chain
  stopped := ⟨stored, streamed.told, streamed.tablesOf⟩
  delivered message leaseOwner now isOpen complete held next := by
    obtain ⟨goesOn, chain⟩ := streaming_rollForward isOpen complete held now
    obtain ⟨stored', after⟩ := @Streamed.rollForward _ coverage start base s stored streamed message
      leaseOwner now isOpen next
    exact ⟨goesOn, chain ▸ after.tablesOf_chain goesOn⟩
  takenBack point leaseOwner now isOpen onChain held := by
    obtain ⟨goesOn, chain⟩ := @streaming_rollBackward _ config s leaseOwner held point now
    obtain ⟨stored', after⟩ := @Streamed.rollBackward _ coverage config start base s stored below
      streamed point leaseOwner now (streamed.current isOpen ▸ onChain)
    have cut : (s.takeBack point).chain = s.chain.filter fun b => decide (b.slot ≤ point.slot) :=
      streamed.followed.upTo_stored onChain
    exact ⟨goesOn, cut ▸ chain ▸ after.tablesOf_chain goesOn⟩
  resumed indexer point leaseOwner now _ _ _ held :=
    (@streaming_rollBackward _ config { s with indexer } leaseOwner held point now).1

/-- After every run the crawled tables hold, on top of what was stored below the crawl start,
exactly what indexing each block of the followed chain once writes. -/
theorem crawled_tables_equal_chain (below : BelowStart start base)
    (configured : config.point = some start) {first : StreamingCrawler}
    (begins : StreamBegins coverage start base first)
    (run : Relation.ReflTransGen (StreamStep config start base) first s) :
    FollowsStream coverage config start base s := by
  have streamed : ∃ stored, Streamed coverage start base stored s := by
    induction run with
    | refl =>
        have crawled := begins.crawl.crawled
        refine ⟨first.chain, crawled, ?_, List.prefix_append _ _, fun _ => rfl⟩
        rw [begins.nothing, List.append_nil]
        exact crawled.followed
    | tail _ step ih =>
        obtain ⟨stored, streamed⟩ := ih
        exact streamed.step below configured step
  obtain ⟨stored, streamed⟩ := streamed
  exact streamed.followsStream below

end Runs

/-! ### A sample run -/

section Sample

attribute [local instance] byronBech32

/-- A crawler at the sample start, with the ledger off. -/
def sampleStreaming : StreamingCrawler where
  db := sampleCrawler.db
  indexer := sampleCrawler.indexer
  chain := []
  takenBack := []
  streaming := true

/-- The process ended before the block with `t1` was stored. -/
def sampleLost : StreamingCrawler :=
  { sampleStreaming.deliver (sampleMessage (text "b11") 11) with streaming := false }

/-- A new stream opened at the stored cursor. -/
def sampleResumed : StreamingCrawler :=
  sampleLost.rollBackward sampleConfig ⟨10, text "b10", some 0⟩ none 0

/-- `t1` was indexed in a block of another fork. -/
def sampleRefollowed : StreamingCrawler :=
  sampleResumed.rollForward (sampleMessage (text "c12") 12) none 0

theorem crawled_tables_equal_chain_sample :
    sampleRefollowed.streaming = true ∧ sampleRefollowed.chain.map IndexedBlock.hash = [text "c12"] ∧
      TablesOf ⟨true, true⟩ sampleStart CrawlStore.empty sampleRefollowed.chain
        sampleRefollowed.db := by
  have begins : StreamBegins ⟨true, true⟩ sampleStart CrawlStore.empty sampleStreaming :=
    ⟨⟨rfl, rfl, rfl, rfl, rfl⟩, rfl⟩
  have first : StreamStep sampleConfig sampleStart CrawlStore.empty sampleStreaming sampleLost :=
    StreamStep.blockLost _ _ rfl (sampleMessage_followed _ _ _ (by decide) (by decide))
  have second : StreamStep sampleConfig sampleStart CrawlStore.empty sampleLost sampleResumed :=
    StreamStep.restart _ sampleLost.indexer _ _ _ rfl (cursor_mem_buildIntersectionPoints rfl)
      (Or.inl ⟨rfl, rfl⟩)
  have third : StreamStep sampleConfig sampleStart CrawlStore.empty sampleResumed
      sampleRefollowed :=
    StreamStep.rollForward _ _ _ _ rfl (sampleMessage_followed _ _ _ (by decide) (by decide))
  have run := ((Relation.ReflTransGen.refl.tail first).tail second).tail third
  have below : BelowStart sampleStart CrawlStore.empty :=
    fun _ rowMem => absurd rowMem List.not_mem_nil
  have follows := crawled_tables_equal_chain below rfl begins run
  exact ⟨rfl, rfl, follows.between rfl⟩

end Sample

end Odatano
