import Odatano.CrawledConfirmations
import Odatano.StoredChain

/-!
# The next blocks of a served chain

`GetNextBlocks` of `srv/cardano-backend-service.ts`: a replica asks for the blocks after its
own cursor.  The stored rows are chosen by height, readers store rows of any fork.
-/

namespace Odatano

/-- A stored block by hash; null when not indexed. -/
def readBlock (store : CrawlStore) (hash : BlockHash) : Option BlockData :=
  ((store .blocks).find? hash).map blockRowToData

/-- A stored block by height; null when not indexed. -/
def readBlockByHeight (store : CrawlStore) (height : Nat) : Option BlockData :=
  (((store .blocks).select fun row => decide (row.height = some height)).head?).map blockRowToData

inductive NextBlocksAnswer
  /-- Stored blocks. -/
  | stored (blocks : List BlockData)
  /-- What the paginating backend answers. -/
  | paged (answer : Except PagingError (List BlockData))
  /-- Nothing is indexed past the cursor yet. -/
  | atTip
  | chainPointMismatch
deriving DecidableEq

/-- The `GetNextBlocks` handler, with the answer of the paginating backend if there is one. -/
def getNextBlocks (store : CrawlStore) (paging : Option (Except PagingError (List BlockData)))
    (afterHash : BlockHash) (count : Option Int) (afterHeight : Option Nat) : NextBlocksAnswer :=
  let anchor := readBlock store afterHash
  let next := match anchor.bind BlockData.height with
    | some height => readNextBlocks store height (count.getD 1).toNat
    | none => []
  if next ≠ [] then .stored next
  -- unknown cursor block where this chain has another block at that height
  else if anchor.isNone && (afterHeight.bind (readBlockByHeight store)).isSome then
    .chainPointMismatch
  else
    match paging with
    | some answer => .paged answer
    | none => if anchor.isSome then .atTip else .chainPointMismatch

/-- The blocks of an answer; an error has none. -/
def NextBlocksAnswer.blocks : NextBlocksAnswer → Option (List BlockData)
  | stored blocks => some blocks
  | paged answer => answer.toOption
  | atTip => some []
  | chainPointMismatch => none

inductive BlockTransactionsAnswer
  /-- Stored transactions. -/
  | stored (txs : List Transaction)
  /-- What the paginating backend answers. -/
  | paged (answer : Except PagingError (List Transaction))
  | notIndexed

/-- The `GetBlockTransactions` handler, with the answer of the paginating backend if there is
one. -/
def getBlockTransactions (store : CrawlStore)
    (paging : Option (Except PagingError (List Transaction))) (blockHash : BlockHash) :
    BlockTransactionsAnswer :=
  match readBlockTransactions store blockHash with
  | some txs => .stored txs
  | none =>
      match paging with
      | some answer => .paged answer
      | none => .notIndexed

theorem getBlockTransactions_stored {store : CrawlStore} {blockHash : BlockHash}
    {txs : List Transaction} (stored : readBlockTransactions store blockHash = some txs)
    (paging : Option (Except PagingError (List Transaction))) :
    getBlockTransactions store paging blockHash = .stored txs := by
  unfold getBlockTransactions
  rw [stored]

/-- The transactions of an answer; an error has none. -/
def BlockTransactionsAnswer.txs : BlockTransactionsAnswer → Option (List Transaction)
  | stored txs => some txs
  | paged answer => answer.toOption
  | notIndexed => none

/-! ## Runs -/

/-- A row of a block as its fork has it, or without its slot or height. -/
structure BlockForks.HasRow (forks : BlockForks) (row : BlockRow) : Prop where
  slot : row.slot = none ∨ row.slot = some (forks.tree.rank row.hash)
  height : row.height = none ∨ row.height = some (forks.height row.hash)

/-- What a step does to the block rows. -/
inductive BlockWrite
  | crawled (hash : BlockHash)
  | read (row : BlockRow)
  | rollBack (forkSlot : Nat)

/-- No row is left one height from another without being linked to it on the crawler's chain,
and a rollback finds the slot of the rows above its fork. -/
def ReadCrawl.Apart (forks : BlockForks) (s : ReadCrawl) : BlockWrite → Prop
  | .crawled hash => ∀ row ∈ (s.db.crawl .blocks).rows,
      row.height ≠ some (forks.height hash + 1) ∧
        ∀ height, row.height = some height → height + 1 = forks.height hash → row.hash = s.tip
  | .read new => ∀ row ∈ (s.db.crawl .blocks).rows, ∀ height other,
      new.height = some height → row.height = some other →
        (other + 1 = height →
          forks.tree.ChildOf new.hash row.hash ∧ forks.tree.Ancestor new.hash s.tip) ∧
        (other = height + 1 →
          forks.tree.ChildOf row.hash new.hash ∧ forks.tree.Ancestor row.hash s.tip)
  | .rollBack forkSlot => ∀ row ∈ (s.db.crawl .blocks).rows,
      row.slot = none → row.height ≠ none → forks.tree.rank row.hash ≤ forkSlot

section Steps

variable [Bech32]

/-- The steps of a crawler and of readers of single blocks, as far as they are allowed. -/
inductive ServeStep (forks : BlockForks) (config : CrawlStart)
    (allowed : ReadCrawl → BlockWrite → Prop) : ReadCrawl → ReadCrawl → Prop
  | persistBlock (s : ReadCrawl) (block : BlockData) (txs : List Transaction)
      (epochData : Option Nat) (tip : Option ChainPoint) (leaseOwner : Option LeaseOwner)
      (now : Time) (db : Db) (delivered : block = forks.data block.hash)
      (next : forks.tree.ChildOf block.hash s.tip) (may : allowed s (.crawled block.hash))
      (committed : (persistBlockTx s.indexer s.db block txs epochData tip leaseOwner now).2 =
        some db) :
      ServeStep forks config allowed s
        { s with
          db
          indexer := (persistBlockTx s.indexer s.db block txs epochData tip leaseOwner
            now).1.blockCommitted
          chain := block.hash :: s.chain }
  -- to a block of the chain, or to the origin, which is the configured start
  | handleReorg (s : ReadCrawl) (point : Option ChainPoint) (node : BlockHash)
      (leaseOwner : Option LeaseOwner) (now : Time) (db : Db) (ledgerInvalidated : Bool)
      (onChain : node ∈ s.followed) (slot : forkSlotOf config point = forks.tree.rank node)
      (may : allowed s (.rollBack (forkSlotOf config point)))
      (committed : handleReorgTx config s.db point leaseOwner now = some (db, ledgerInvalidated)) :
      ServeStep forks config allowed s
        { s with
          db
          indexer := s.indexer.reorgCommitted ledgerInvalidated
          chain := forks.tree.upTo (forkSlotOf config point) s.chain }
  -- a reader stores a block row of any fork
  | readBlock (s : ReadCrawl) (row : BlockRow) (described : forks.HasRow row)
      (may : allowed s (.read row)) :
      ServeStep forks config allowed s
        { s with db := { s.db with crawl := TableFamily.write s.db.crawl (blockBatch row) } }
  -- transactions, leases, the tip, the ledger: neither the block rows nor the cursor
  | other (s : ReadCrawl) (db : Db) (indexer : Indexer)
      (blocks : db.crawl .blocks = s.db.crawl .blocks)
      (lastSlot : db.sync.lastSlot = s.db.sync.lastSlot) :
      ServeStep forks config allowed s { s with db, indexer }

end Steps

/-- A database without blocks and with the cursor at the crawl start. -/
structure ReadCrawl.Opens (forks : BlockForks) (s : ReadCrawl) : Prop where
  tables : (s.db.crawl .blocks).rows = []
  lastSlot : s.db.sync.lastSlot = forks.tree.rank s.start
  chain : s.chain = []

/-! ## What is claimed of the answers -/

/-- Stored blocks that are served extend the asked block one by one, and lie on the
crawler's chain at or below its cursor. -/
def ReadCrawl.ServesChain (forks : BlockForks) (s : ReadCrawl) : Prop :=
  ∀ paging afterHash count afterHeight blocks,
    getNextBlocks s.db.crawl paging afterHash count afterHeight = .stored blocks →
      (afterHash :: blocks.map BlockData.hash).IsChain
          (fun node child => forks.tree.ChildOf child node) ∧
        ∀ block ∈ blocks,
          forks.tree.Ancestor block.hash s.tip ∧
            forks.tree.rank block.hash ≤ s.db.sync.lastSlot ∧
              block.height = some (forks.height block.hash)

/-! ## What every run keeps -/

structure ServeSound (forks : BlockForks) (s : ReadCrawl) : Prop where
  linked : forks.tree.Path s.followed
  lastSlot : s.db.sync.lastSlot = forks.tree.rank s.tip
  rows : ∀ row ∈ (s.db.crawl .blocks).rows, forks.HasRow row
  /-- Rows at consecutive heights are linked on the crawler's chain. -/
  neighbours : ∀ row ∈ (s.db.crawl .blocks).rows, ∀ next ∈ (s.db.crawl .blocks).rows,
    ∀ height, row.height = some height → next.height = some (height + 1) →
      forks.tree.ChildOf next.hash row.hash ∧ forks.tree.Ancestor next.hash s.tip

section Answers

variable {forks : BlockForks} {s : ReadCrawl}

/-- The leading rows of consecutive heights are linked. -/
theorem contiguousFrom_chained (sound : ServeSound forks s) {rows : List BlockRow}
    (stored : ∀ row ∈ rows, row ∈ (s.db.crawl .blocks).rows) {row : BlockRow} {height : Nat}
    (rowMem : row ∈ (s.db.crawl .blocks).rows) (known : row.height = some height) :
    (row.hash :: (contiguousFrom (height + 1) rows).map BlockData.hash).IsChain
        (fun node child => forks.tree.ChildOf child node) ∧
      ∀ block ∈ contiguousFrom (height + 1) rows,
        forks.tree.Ancestor block.hash s.tip ∧
          block.height = some (forks.height block.hash) := by
  induction rows generalizing row height with
  | nil => exact ⟨List.isChain_singleton _, fun _ blockMem => absurd blockMem List.not_mem_nil⟩
  | cons next rest ih =>
      unfold contiguousFrom
      split
      · exact ⟨List.isChain_singleton _, fun _ blockMem => absurd blockMem List.not_mem_nil⟩
      · rename_i isNext
        have nextMem := stored next List.mem_cons_self
        have nextKnown : next.height = some (height + 1) := by
          rw [Decidable.not_not] at isNext
          cases known : next.height with
          | none => rw [known, Option.getD_none] at isNext; omega
          | some other => rw [known, Option.getD_some] at isNext; rw [isNext]
        obtain ⟨child, onChain⟩ := sound.neighbours row rowMem next nextMem height known nextKnown
        obtain ⟨chained, blocks⟩ := ih (fun other otherMem =>
          stored other (List.mem_cons_of_mem next otherMem)) nextMem nextKnown
        refine ⟨List.IsChain.cons_cons child chained, ?_⟩
        intro block blockMem
        rcases List.mem_cons.mp blockMem with rfl | later
        · refine ⟨onChain, nextKnown.trans ?_⟩
          have described := (sound.rows next nextMem).height
          rw [nextKnown] at described
          exact described.resolve_left (Option.some_ne_none _)
        · exact blocks block later

/-- Stored blocks are served for a stored block with a height. -/
theorem getNextBlocks_stored {store : CrawlStore}
    {paging : Option (Except PagingError (List BlockData))} {afterHash : BlockHash}
    {count : Option Int} {afterHeight : Option Nat} {blocks : List BlockData}
    (answered : getNextBlocks store paging afterHash count afterHeight = .stored blocks) :
    ∃ row height, (store .blocks).find? afterHash = some row ∧ row.height = some height ∧
      blocks = readNextBlocks store height (count.getD 1).toNat := by
  unfold getNextBlocks readBlock at answered
  cases found : (store .blocks).find? afterHash with
  | none =>
      simp only [found, Option.map_none, Option.bind_none, ne_eq, not_true_eq_false, if_false] at answered
      split at answered
      · cases answered
      · split at answered <;> cases answered
  | some row =>
      cases known : row.height with
      | none =>
          simp only [found, Option.map_some, Option.bind_some, blockRowToData, known, ne_eq,
            not_true_eq_false, if_false] at answered
          split at answered
          · cases answered
          · split at answered <;> cases answered
      | some height =>
          simp only [found, Option.map_some, Option.bind_some, blockRowToData, known] at answered
          split at answered
          · cases answered
            exact ⟨row, height, rfl, known, rfl⟩
          · split at answered
            · cases answered
            · split at answered <;> cases answered

theorem ServeSound.servesChain (sound : ServeSound forks s) : s.ServesChain forks := by
  intro paging afterHash count afterHeight blocks answered
  obtain ⟨row, height, found, known, rfl⟩ := getNextBlocks_stored answered
  have rowMem := Table.mem_of_find? found
  have isRow : row.hash = afterHash := Table.key_of_find? found
  obtain ⟨chained, onChain⟩ := contiguousFrom_chained sound
    (fun row rowMem => (Table.mem_select.mp (List.mem_mergeSort.mp rowMem)).1) rowMem known
  refine ⟨isRow ▸ chained, fun block blockMem => ?_⟩
  obtain ⟨ancestor, heightKnown⟩ := onChain block blockMem
  exact ⟨ancestor, sound.lastSlot ▸ ancestor.rank_le, heightKnown⟩

end Answers

section Runs

variable [Bech32] {forks : BlockForks} {config : CrawlStart} {s s' : ReadCrawl}

omit [Bech32] in
theorem ReadCrawl.Opens.sound (opens : s.Opens forks) : ServeSound forks s where
  linked := by
    rw [ReadCrawl.followed, opens.chain]
    exact List.isChain_singleton _
  lastSlot := by
    rw [opens.lastSlot, ReadCrawl.tip, opens.chain]
    rfl
  rows row rowMem := by
    rw [opens.tables] at rowMem
    cases rowMem
  neighbours row rowMem := by
    rw [opens.tables] at rowMem
    cases rowMem

/-- The crawler indexes the next block of its chain. -/
theorem ServeSound.persistBlock (sound : ServeSound forks s) {block : BlockData}
    {txs : List Transaction} {epochData : Option Nat} {tip : Option ChainPoint}
    {leaseOwner : Option LeaseOwner} {now : Time} {db : Db} {indexer : Indexer}
    (delivered : block = forks.data block.hash) (next : forks.tree.ChildOf block.hash s.tip)
    (apart : s.Apart forks (.crawled block.hash))
    (committed : (persistBlockTx s.indexer s.db block txs epochData tip leaseOwner now).2 =
      some db) :
    ServeSound forks { s with db, indexer, chain := block.hash :: s.chain } := by
  obtain ⟨tables, cursor, -⟩ := persistBlockTx_committed committed
  have slot : block.slot = some (forks.tree.rank block.hash) :=
    (congrArg BlockData.slot delivered).trans (forks.data_slot block.hash)
  have height : block.height = some (forks.height block.hash) :=
    (congrArg BlockData.height delivered).trans (forks.data_height block.hash)
  have rows {row : BlockRow} (rowMem : row ∈ (db.crawl .blocks).rows) :
      row.hash = block.hash ∧ row.slot = some (forks.tree.rank block.hash) ∧
          row.height = some (forks.height block.hash) ∨
        row ∈ (s.db.crawl .blocks).rows := by
    rw [tables] at rowMem
    refine (mem_blocks_indexBlock rowMem).imp (fun identity => ?_) And.left
    exact ⟨congrArg Prod.fst identity,
      (congrArg (fun i => i.2.1) identity).trans slot,
      (congrArg (fun i => i.2.2) identity).trans height⟩
  refine ⟨sound.linked.child next, ?_, ?_, ?_⟩
  · rw [cursor, BlockData.slotOrZero, slot]
    rfl
  · intro row rowMem
    rcases rows rowMem with ⟨isBlock, rowSlot, rowHeight⟩ | old
    · exact ⟨.inr (isBlock ▸ rowSlot), .inr (isBlock ▸ rowHeight)⟩
    · exact sound.rows row old
  · intro row rowMem after afterMem at_ known afterKnown
    change forks.tree.ChildOf after.hash row.hash ∧ forks.tree.Ancestor after.hash block.hash
    rcases rows rowMem with ⟨isBlock, -, rowHeight⟩ | old
    · rw [rowHeight] at known
      cases known
      rcases rows afterMem with ⟨-, -, afterHeight⟩ | afterOld
      · rw [afterHeight] at afterKnown
        exact absurd (Option.some.inj afterKnown) (Nat.succ_ne_self _).symm
      · exact absurd afterKnown (apart after afterOld).1
    · rcases rows afterMem with ⟨isBlock, -, afterHeight⟩ | afterOld
      · rw [afterHeight] at afterKnown
        have isTip := (apart row old).2 at_ known (Option.some.inj afterKnown).symm
        rw [isBlock, isTip]
        exact ⟨next, .refl⟩
      · obtain ⟨child, ancestor⟩ := sound.neighbours row old after afterOld at_ known afterKnown
        exact ⟨child, ancestor.tail next⟩

/-- A rollback takes the followed chain back to one of its blocks. -/
theorem ServeSound.handleReorg (sound : ServeSound forks s) {point : Option ChainPoint}
    {node : BlockHash} {leaseOwner : Option LeaseOwner} {now : Time} {db : Db} {indexer : Indexer}
    {ledgerInvalidated : Bool} (onChain : node ∈ s.followed)
    (slot : forkSlotOf config point = forks.tree.rank node)
    (apart : s.Apart forks (.rollBack (forkSlotOf config point)))
    (committed : handleReorgTx config s.db point leaseOwner now = some (db, ledgerInvalidated)) :
    ServeSound forks
      { s with db, indexer, chain := forks.tree.upTo (forkSlotOf config point) s.chain } := by
  obtain ⟨tables, cursor, -⟩ := handleReorgTx_rows committed
  obtain ⟨linked, head⟩ := sound.linked.cut onChain
  rw [← slot] at linked head
  have kept {row : BlockRow} (rowMem : row ∈ (db.crawl .blocks).rows) :
      row ∈ (s.db.crawl .blocks).rows ∧
        (row.slot.any fun known => decide (forkSlotOf config point < known)) = false := by
    rw [tables, blocks_rollBackBlocks] at rowMem
    obtain ⟨stored, spared⟩ := List.mem_filter.mp rowMem
    exact ⟨stored, by simpa using spared⟩
  refine ⟨linked, ?_, fun row rowMem => sound.rows row (kept rowMem).1, ?_⟩
  · exact cursor.trans (slot.trans (congrArg forks.tree.rank head.symm))
  · intro row rowMem next nextMem height known nextKnown
    obtain ⟨child, ancestor⟩ := sound.neighbours row (kept rowMem).1 next (kept nextMem).1 height
      known nextKnown
    refine ⟨child, ?_⟩
    have isNode : ReadCrawl.tip { s with
        db, indexer, chain := forks.tree.upTo (forkSlotOf config point) s.chain } = node := head
    rw [isNode]
    refine BlockForks.ancestor_of_rank_le (sound.linked.ancestor_headD onChain) ancestor ?_
    -- the row has survived the rollback
    obtain ⟨stored, spared⟩ := kept nextMem
    rw [← slot]
    rcases (sound.rows next stored).slot with unknown | known
    · exact apart next stored unknown (by rw [nextKnown]; exact Option.some_ne_none _)
    · rw [known, Option.any_some, decide_eq_false_iff_not, not_lt] at spared
      exact spared

omit [Bech32] in
theorem ServeSound.readBlock (sound : ServeSound forks s) {row : BlockRow}
    (described : forks.HasRow row) (apart : s.Apart forks (.read row)) :
    ServeSound forks
      { s with db := { s.db with crawl := TableFamily.write s.db.crawl (blockBatch row) } } := by
  have rows {old : BlockRow}
      (oldMem : old ∈ (TableFamily.write s.db.crawl (blockBatch row) .blocks).rows) :
      old = row ∨ old ∈ (s.db.crawl .blocks).rows :=
    (Table.mem_upsert.mp oldMem).imp_right And.left
  refine ⟨sound.linked, sound.lastSlot, ?_, ?_⟩
  · intro old oldMem
    rcases rows oldMem with rfl | stored
    · exact described
    · exact sound.rows old stored
  · intro first firstMem second secondMem height known secondKnown
    rcases rows firstMem with rfl | firstOld
    · rcases rows secondMem with rfl | secondOld
      · rw [known] at secondKnown
        exact absurd (Option.some.inj secondKnown) (Nat.succ_ne_self _).symm
      · exact (apart second secondOld height (height + 1) known secondKnown).2 rfl
    · rcases rows secondMem with rfl | secondOld
      · exact (apart first firstOld (height + 1) height secondKnown known).1 rfl
      · exact sound.neighbours first firstOld second secondOld height known secondKnown

theorem ServeStep.sound (step : ServeStep forks config (ReadCrawl.Apart forks) s s')
    (sound : ServeSound forks s) : ServeSound forks s' := by
  cases step with
  | persistBlock block txs epochData tip leaseOwner now db delivered next may committed =>
      exact sound.persistBlock delivered next may committed
  | handleReorg point node leaseOwner now db ledgerInvalidated onChain slot may committed =>
      exact sound.handleReorg onChain slot may committed
  | readBlock row described may => exact sound.readBlock described may
  | other db indexer blocks lastSlot =>
      refine ⟨sound.linked, lastSlot.trans sound.lastSlot, ?_, ?_⟩
      · rw [blocks]
        exact sound.rows
      · rw [blocks]
        exact sound.neighbours

/-- Where no write leaves rows at neighbouring heights that are not linked on the crawler's
chain, every state serves a chain. -/
theorem nextBlocks_chain {first : ReadCrawl} (opens : first.Opens forks)
    (run : Relation.ReflTransGen (ServeStep forks config (ReadCrawl.Apart forks)) first s) :
    s.ServesChain forks := by
  have sound : ServeSound forks s := by
    induction run with
    | refl => exact opens.sound
    | tail _ step ih => exact step.sound ih
  exact sound.servesChain

end Runs

/-! A reader stores the row of `a`, where the crawler stands.  `d` is on top of `a`, and `c` on
top of another block. -/

section Sample

attribute [local instance] byronBech32

/-- The row of a block as its fork has it. -/
def forkedRow (hash : BlockHash) : BlockRow := mapBlock (forkedBlocks.data hash) none

theorem forkedRow_hasRow (hash : BlockHash) : forkedBlocks.HasRow (forkedRow hash) :=
  ⟨.inr rfl, .inr rfl⟩

/-- A state after a reader has stored the row of a block. -/
def ReadCrawl.reads (s : ReadCrawl) (hash : BlockHash) : ReadCrawl :=
  { s with
    db := { s.db with crawl := TableFamily.write s.db.crawl (blockBatch (forkedRow hash)) } }

theorem readStart_opens : readStart.Opens forkedBlocks := ⟨rfl, rfl, rfl⟩

theorem nextBlocks_chain_sample :
    ∃ (s : ReadCrawl) (blocks : List BlockData),
      getNextBlocks s.db.crawl none (text "a") (some 5) (some 2) = .stored blocks ∧
        blocks.map BlockData.hash = [text "d"] ∧ s.ServesChain forkedBlocks := by
  let atTip := readStart.reads (text "a")
  let persisted := persistBlockTx atTip.indexer atTip.db (forkedBlocks.data (text "d")) [] none
    (some ⟨31, text "d", some 3⟩) (some "w") 0
  have stored : (persisted.2.map fun db =>
      getNextBlocks db.crawl none (text "a") (some 5) (some 2)) =
        some (.stored [blockRowToData (forkedRow (text "d"))]) := by decide +kernel
  obtain ⟨db, committed, answered⟩ := Option.map_eq_some_iff.mp stored
  have first : ServeStep forkedBlocks ⟨none, none, none⟩ (ReadCrawl.Apart forkedBlocks) readStart
      atTip :=
    .readBlock readStart (forkedRow (text "a")) (forkedRow_hasRow _)
      fun _ rowMem => absurd rowMem List.not_mem_nil
  have apart : atTip.Apart forkedBlocks (.crawled (text "d")) := by
    intro row rowMem
    cases List.mem_singleton.mp rowMem
    exact ⟨by decide, fun _ _ _ => rfl⟩
  have child : forkedBlocks.tree.ChildOf (text "d") (text "a") := rfl
  have second : ServeStep forkedBlocks ⟨none, none, none⟩ (ReadCrawl.Apart forkedBlocks) atTip _ :=
    .persistBlock atTip (forkedBlocks.data (text "d")) [] none _ (some "w") 0 db rfl child apart
      committed
  exact ⟨_, _, answered, rfl,
    nextBlocks_chain readStart_opens ((Relation.ReflTransGen.refl.tail first).tail second)⟩

/-- The reader stores `c` as well, and it is served after `a`. -/
theorem nextBlocks_foreign :
    ∃ s, Relation.ReflTransGen (ServeStep forkedBlocks ⟨none, none, none⟩ fun _ _ => True)
        readStart s ∧
      (∃ block, getNextBlocks s.db.crawl none (text "a") none none = .stored [block] ∧
        block.hash = text "c" ∧ ¬ forkedBlocks.tree.ChildOf block.hash (text "a")) ∧
        ¬ s.ServesChain forkedBlocks := by
  let s := (readStart.reads (text "a")).reads (text "c")
  have run : Relation.ReflTransGen (ServeStep forkedBlocks ⟨none, none, none⟩ fun _ _ => True)
      readStart s :=
    (Relation.ReflTransGen.refl.tail
      (.readBlock readStart (forkedRow (text "a")) (forkedRow_hasRow _) trivial)).tail
        (.readBlock _ (forkedRow (text "c")) (forkedRow_hasRow _) trivial)
  have answered : getNextBlocks s.db.crawl none (text "a") none none =
      .stored [blockRowToData (forkedRow (text "c"))] := by decide +kernel
  have notChild : ¬ forkedBlocks.tree.ChildOf (text "c") (text "a") := by
    unfold ParentTree.ChildOf
    decide
  exact ⟨s, run, ⟨_, answered, rfl, notChild⟩,
    fun chain => notChild (List.isChain_cons_cons.mp (chain _ _ _ _ _ answered).1).1⟩

end Sample

end Odatano
