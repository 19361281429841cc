import Mathlib.Logic.Relation
import Odatano.NextBlocks
import Odatano.ReplicaBlocks

/-!
# Replication

One instance crawls a chain and serves it; another one asks it for the blocks after its cursor and
indexes them (`GetNextBlocks` and `GetBlockTransactions` of `srv/cardano-backend-service.ts`, the
pagination loop of `srv/blockchain/crawler/crawler.ts`).
-/

namespace Odatano

/-! ## Two instances -/

/-- An instance that follows another one: its tables, the hash its cursor stands at, and the rest
of the page it is working through. -/
structure Replica where
  tables : CrawlStore
  cursor : BlockHash
  pending : List BlockData

/-- Both instances, with the blocks that the chain has still to bring. -/
structure Replication where
  source : CrawlStore
  upcoming : List IndexedBlock
  replica : Replica

/-- What the paginating backend of a source may answer when it is asked; null without one. -/
structure SourcePaging where
  NextBlocks : Option (Except PagingError (List BlockData)) → Prop
  BlockTransactions : Option (Except PagingError (List Transaction)) → Prop

/-- The source has no paginating backend, or one that has no blocks to add. -/
def SourcePaging.AddsNone (paging : SourcePaging) : Prop :=
  ∀ paged, paging.NextBlocks paged → paged = none ∨ paged = some (.ok [])

section Steps

variable [Bech32] (coverage : CrawlCoverage) (epochOf : BlockData → Option Nat)
  (paging : SourcePaging)

/-- What can happen next.  The instances do not wait for one another. -/
inductive ReplicationStep : Replication → Replication → Prop
  /-- The source indexes its next block. -/
  | index (source : CrawlStore) (b : IndexedBlock) (upcoming : List IndexedBlock)
      (replica : Replica) :
      ReplicationStep ⟨source, b :: upcoming, replica⟩
        ⟨indexBlock coverage source b, upcoming, replica⟩
  /-- The replica asks for the blocks after its cursor. -/
  | page (source : CrawlStore) (upcoming : List IndexedBlock) (tables : CrawlStore)
      (cursor : BlockHash) (count : Option Int) (afterHeight : Option Nat)
      (paged : Option (Except PagingError (List BlockData))) (may : paging.NextBlocks paged)
      (blocks : List BlockData)
      (answer : (getNextBlocks source paged cursor count afterHeight).blocks = some blocks) :
      ReplicationStep ⟨source, upcoming, ⟨tables, cursor, []⟩⟩
        ⟨source, upcoming, ⟨tables, cursor, blocks⟩⟩
  /-- The replica asks for the transactions of a block and indexes it. -/
  | persist (source : CrawlStore) (upcoming : List IndexedBlock) (tables : CrawlStore)
      (cursor : BlockHash) (block : BlockData) (pending : List BlockData)
      (paged : Option (Except PagingError (List Transaction)))
      (may : paging.BlockTransactions paged) (txs : List Transaction)
      (answer : (getBlockTransactions source paged block.hash).txs = some txs) :
      ReplicationStep ⟨source, upcoming, ⟨tables, cursor, block :: pending⟩⟩
        ⟨source, upcoming,
          ⟨indexBlock coverage tables ⟨block, txs, epochOf block, none⟩, block.hash, pending⟩⟩
  /-- The replica gives the rest of its page up: it was stopped, or the blocks are too young. -/
  | stop (source : CrawlStore) (upcoming : List IndexedBlock) (replica : Replica) :
      ReplicationStep ⟨source, upcoming, replica⟩
        ⟨source, upcoming, { replica with pending := [] }⟩

/-- A chain that a replica can follow. -/
structure Replicable (paid : ChainOutputs) (minted : TxHash → AssetUnit → Int)
    (chain : List IndexedBlock) : Prop where
  valid : ValidChain CrawlStore.empty chain
  keyed : KeyedChain coverage CrawlStore.empty chain
  heights : ∃ lowest, chain.map (fun b => b.block.height) =
    (List.range' lowest chain.length).map some
  delivered : ∀ b ∈ chain, DeliveredBlock paid minted b

variable {coverage} {paging} {paid : ChainOutputs} {minted : TxHash → AssetUnit → Int}

/-- The first blocks of a chain that can be followed can be. -/
theorem Replicable.left {chain rest : List IndexedBlock}
    (replicable : Replicable coverage paid minted (chain ++ rest)) :
    Replicable coverage paid minted chain where
  valid := replicable.valid.left
  keyed := replicable.keyed.left
  heights := by
    obtain ⟨lowest, heights⟩ := replicable.heights
    refine ⟨lowest, ?_⟩
    have first := congrArg (List.take chain.length) heights
    rw [List.map_append, List.take_left' (List.length_map _), ← List.map_take, List.length_append,
      List.take_range'_of_length_ge (Nat.le_add_right _ _)] at first
    exact first
  delivered b bMem := replicable.delivered b (List.mem_append_left _ bMem)

theorem Replicable.lined {chain : List IndexedBlock}
    (replicable : Replicable coverage paid minted chain) : LinedChain coverage chain where
  valid := replicable.valid
  keyed := replicable.keyed
  numbered b bMem := (replicable.delivered b bMem).numbered
  outputs b bMem t tMem := ((replicable.delivered b bMem).servable t tMem).outputs

/-! ## Answers -/

section Answers

variable {done ahead : List IndexedBlock} {b : IndexedBlock}

theorem indexChain_append (store : CrawlStore) (chain rest : List IndexedBlock) :
    indexChain coverage store (chain ++ rest) =
      indexChain coverage (indexChain coverage store chain) rest :=
  List.foldl_append

theorem length_preparedChain (store : CrawlStore) (chain : List IndexedBlock) :
    (preparedChain coverage store chain).length = chain.length := by
  induction chain generalizing store with
  | nil => rfl
  | cons b chain ih => rw [preparedChain, List.length_cons, List.length_cons, ih]

/-- The block rows of a chain in an empty database. -/
theorem rows_blocks_indexChain {chain : List IndexedBlock}
    (replicable : Replicable coverage paid minted chain) :
    (indexChain coverage CrawlStore.empty chain .blocks).rows =
      (preparedChain coverage CrawlStore.empty chain).map fun entry =>
        mapBlock entry.2.block entry.1.epochData := by
  rw [rows_indexChain replicable.valid replicable.keyed, ← chainRows_blocks]
  exact List.nil_append _

theorem heights_preparedChain (store : CrawlStore) (chain : List IndexedBlock) :
    ((preparedChain coverage store chain).map fun entry =>
      mapBlock entry.2.block entry.1.epochData).map BlockRow.height =
        chain.map fun b => b.block.height := by
  induction chain generalizing store with
  | nil => rfl
  | cons b chain ih =>
      rw [preparedChain, List.map_cons, List.map_cons, ih, List.map_cons]
      exact congrArg (· :: _) (servedBlock_height store b)

/-- The blocks after a block that the source has indexed. -/
theorem readNextBlocks_indexChain
    (replicable : Replicable coverage paid minted (done ++ b :: ahead)) :
    ∃ row height, (indexChain coverage CrawlStore.empty (done ++ b :: ahead) .blocks).find? b.hash =
      some row ∧ row.height = some height ∧ ∀ count,
        readNextBlocks (indexChain coverage CrawlStore.empty (done ++ b :: ahead)) height count =
          ((preparedChain coverage (indexChain coverage CrawlStore.empty (done ++ [b])) ahead).take
            count).map servedBlock := by
  obtain ⟨lowest, heights⟩ := replicable.heights
  have rows := rows_blocks_indexChain replicable
  have rowHeights : (indexChain coverage CrawlStore.empty (done ++ b :: ahead)
      .blocks).rows.map BlockRow.height = (List.range' lowest (indexChain coverage CrawlStore.empty
        (done ++ b :: ahead) .blocks).rows.length).map some := by
    rw [rows, heights_preparedChain, heights, List.length_map, length_preparedChain]
  have height : b.block.height = some (lowest + done.length) := by
    have entry := congrArg (fun list => list[done.length]?) heights
    simp only [List.map_append, List.map_cons, List.length_append, List.length_cons] at entry
    rw [List.getElem?_append_right (by rw [List.length_map]), List.length_map, Nat.sub_self,
      List.getElem?_cons_zero, List.getElem?_map, List.getElem?_range' (by omega)] at entry
    simpa using entry
  have anchor : (indexChain coverage CrawlStore.empty (done ++ b :: ahead) .blocks).find? b.hash =
      some (mapBlock (prepareBlock (indexChain coverage CrawlStore.empty done) b.ledger b.block
        b.txs).block b.epochData) := by
    rw [indexChain_append]
    exact find?_block replicable.valid.right replicable.keyed.right
  have anchorHeight : (mapBlock (prepareBlock (indexChain coverage CrawlStore.empty done) b.ledger
      b.block b.txs).block b.epochData).height = some (lowest + done.length) :=
    (servedBlock_height _ b).trans height
  have after : (preparedChain coverage CrawlStore.empty (done ++ b :: ahead)).drop
      (done.length + 1) =
        preparedChain coverage (indexChain coverage CrawlStore.empty (done ++ [b])) ahead := by
    rw [List.append_cons, preparedChain_append]
    refine List.drop_left' ?_
    rw [length_preparedChain, List.length_append, List.length_singleton]
  refine ⟨_, _, anchor, anchorHeight, fun count => ?_⟩
  rw [readNextBlocks_eq rowHeights (by omega), rows,
    show lowest + done.length + 1 - lowest = done.length + 1 by omega, ← List.map_drop, after,
    ← List.map_take, List.map_map]
  rfl

/-- The source answers for the cursor of a block that it has indexed. -/
theorem getNextBlocks_indexChain
    (replicable : Replicable coverage paid minted (done ++ b :: ahead))
    (paged : Option (Except PagingError (List BlockData))) (count : Option Int)
    (afterHeight : Option Nat) :
    getNextBlocks (indexChain coverage CrawlStore.empty (done ++ b :: ahead)) paged b.hash count
        afterHeight =
      if ((preparedChain coverage (indexChain coverage CrawlStore.empty (done ++ [b])) ahead).take
          (count.getD 1).toNat).map servedBlock = [] then
        paged.elim .atTip .paged
      else .stored (((preparedChain coverage (indexChain coverage CrawlStore.empty (done ++ [b]))
        ahead).take (count.getD 1).toNat).map servedBlock) := by
  obtain ⟨row, height, found, known, next⟩ := readNextBlocks_indexChain replicable
  simp only [getNextBlocks, readBlock, found, Option.map_some, Option.bind_some, blockRowToData,
    known, next, Option.isNone_some, Bool.false_and, Bool.false_eq_true, if_false,
    Option.isSome_some, if_true, ite_not]
  cases paged <;> rfl

/-- The source answers with the transactions of a block that it has indexed. -/
theorem readBlockTransactions_indexChain
    (replicable : Replicable coverage paid minted (done ++ b :: ahead)) :
    readBlockTransactions (indexChain coverage CrawlStore.empty (done ++ b :: ahead)) b.hash =
      some (servedTxs coverage (preparedAfter coverage done b)) := by
  have delivered := replicable.delivered b (List.mem_append_right _ List.mem_cons_self)
  rw [indexChain_append]
  exact readBlockTransactions_cons replicable.valid.right replicable.keyed.right
    delivered.numbered fun t tMem => (delivered.servable t tMem).outputs

end Answers

/-! ## Runs -/

variable (coverage) in
/-- How far a replica has come: it follows the blocks after `first`, the source is `ahead` of it,
and its page holds the next ones. -/
structure Following (chain first followed ahead : List IndexedBlock) (s : Replication) : Prop where
  chain_eq : (first ++ followed) ++ (ahead ++ s.upcoming) = chain
  source_eq : s.source = indexChain coverage CrawlStore.empty ((first ++ followed) ++ ahead)
  tables : ∀ table, (s.replica.tables table).rows.Perm
    (chainRows coverage (indexChain coverage CrawlStore.empty first) followed table)
  cursor : (first ++ followed).getLast?.map IndexedBlock.hash = some s.replica.cursor
  pending : ∃ count ≤ ahead.length, s.replica.pending = ((preparedChain coverage
    (indexChain coverage CrawlStore.empty (first ++ followed)) ahead).take count).map servedBlock

section Run

variable {chain first followed ahead : List IndexedBlock} {s s' : Replication}

/-- The rows that the source had when the replica stands where it does. -/
theorem Following.rows (following : Following coverage chain first followed ahead s)
    (replicable : Replicable coverage paid minted chain) (table : CrawlTable) :
    (indexChain coverage CrawlStore.empty (first ++ followed) table).rows.Perm
      ((indexChain coverage CrawlStore.empty first table).rows ++ (s.replica.tables table).rows) := by
  have whole : Replicable coverage paid minted ((first ++ followed) ++ (ahead ++ s.upcoming)) :=
    following.chain_eq.symm ▸ replicable
  rw [indexChain_append, rows_indexChain whole.left.valid.right whole.left.keyed.right]
  exact (following.tables table).symm.append_left _

theorem Following.index {source : CrawlStore} {b : IndexedBlock} {upcoming : List IndexedBlock}
    {replica : Replica}
    (following : Following coverage chain first followed ahead ⟨source, b :: upcoming, replica⟩) :
    Following coverage chain first followed (ahead ++ [b])
      ⟨indexBlock coverage source b, upcoming, replica⟩ where
  chain_eq := by
    rw [← following.chain_eq, List.append_assoc ahead, List.singleton_append]
  source_eq := by
    rw [← List.append_assoc, indexChain_append_singleton, ← following.source_eq]
  tables := following.tables
  cursor := following.cursor
  pending := by
    obtain ⟨count, within, pending⟩ := following.pending
    refine ⟨count, within.trans (List.length_append ▸ Nat.le_add_right _ _), ?_⟩
    rw [preparedChain_append,
      List.take_append_of_le_length (within.trans (length_preparedChain _ _).ge)]
    exact pending

/-- The block that the cursor of a replica stands at. -/
theorem Following.last (following : Following coverage chain first followed ahead s) :
    ∃ done b, first ++ followed = done ++ [b] ∧ b.hash = s.replica.cursor := by
  obtain ⟨b, isLast, hash⟩ := Option.map_eq_some_iff.mp following.cursor
  obtain ⟨done, split⟩ := List.getLast?_eq_some_iff.mp isLast
  exact ⟨done, b, split, hash⟩

/-- The blocks that the source has indexed can be followed. -/
theorem Following.indexed (following : Following coverage chain first followed ahead s)
    (replicable : Replicable coverage paid minted chain) :
    Replicable coverage paid minted ((first ++ followed) ++ ahead) := by
  have whole : Replicable coverage paid minted (((first ++ followed) ++ ahead) ++ s.upcoming) := by
    rw [List.append_assoc, following.chain_eq]
    exact replicable
  exact whole.left

/-- The source answers for the cursor of a replica. -/
theorem Following.answer (following : Following coverage chain first followed ahead s)
    (replicable : Replicable coverage paid minted chain)
    (paged : Option (Except PagingError (List BlockData))) (count : Option Int)
    (afterHeight : Option Nat) :
    getNextBlocks s.source paged s.replica.cursor count afterHeight =
      if ((preparedChain coverage (indexChain coverage CrawlStore.empty (first ++ followed))
          ahead).take (count.getD 1).toNat).map servedBlock = [] then
        paged.elim .atTip .paged
      else .stored (((preparedChain coverage (indexChain coverage CrawlStore.empty
        (first ++ followed)) ahead).take (count.getD 1).toNat).map servedBlock) := by
  obtain ⟨done, b, split, hash⟩ := following.last
  have indexed := following.indexed replicable
  rw [split, List.append_assoc, List.singleton_append] at indexed
  rw [following.source_eq, ← hash, split, List.append_assoc, List.singleton_append]
  exact getNextBlocks_indexChain indexed paged count afterHeight

/-- The blocks of that answer are those that the source has stored. -/
theorem Following.blocks (following : Following coverage chain first followed ahead s)
    (replicable : Replicable coverage paid minted chain) (addsNone : paging.AddsNone)
    {paged : Option (Except PagingError (List BlockData))} (may : paging.NextBlocks paged)
    (count : Option Int) (afterHeight : Option Nat) :
    (getNextBlocks s.source paged s.replica.cursor count afterHeight).blocks =
      some (((preparedChain coverage (indexChain coverage CrawlStore.empty
        (first ++ followed)) ahead).take (count.getD 1).toNat).map servedBlock) := by
  rw [following.answer replicable paged]
  split
  · rename_i nothing
    rw [nothing]
    rcases addsNone paged may with rfl | rfl <;> rfl
  · rfl

theorem Following.page {source : CrawlStore} {upcoming : List IndexedBlock} {tables : CrawlStore}
    {cursor : BlockHash} {blocks : List BlockData} {count : Option Int} {afterHeight : Option Nat}
    {paged : Option (Except PagingError (List BlockData))}
    (following : Following coverage chain first followed ahead
      ⟨source, upcoming, ⟨tables, cursor, []⟩⟩)
    (replicable : Replicable coverage paid minted chain) (addsNone : paging.AddsNone)
    (may : paging.NextBlocks paged)
    (answer : (getNextBlocks source paged cursor count afterHeight).blocks = some blocks) :
    Following coverage chain first followed ahead
      ⟨source, upcoming, ⟨tables, cursor, blocks⟩⟩ where
  chain_eq := following.chain_eq
  source_eq := following.source_eq
  tables := following.tables
  cursor := following.cursor
  pending := by
    have answered := following.blocks replicable addsNone may count afterHeight
    rw [answer] at answered
    cases answered
    by_cases enough : (count.getD 1).toNat ≤ ahead.length
    · exact ⟨_, enough, rfl⟩
    · refine ⟨ahead.length, le_rfl, ?_⟩
      rw [List.take_of_length_le, List.take_of_length_le]
      · exact (length_preparedChain _ _).le
      · rw [length_preparedChain]
        omega

/-- The source serves the transactions of the next block of a page. -/
theorem Following.next {block : BlockData} {rest : List BlockData}
    (following : Following coverage chain first followed ahead s)
    (replicable : Replicable coverage paid minted chain)
    (isPending : s.replica.pending = block :: rest) :
    ∃ b later, ahead = b :: later ∧
      block = servedBlock (preparedAfter coverage (first ++ followed) b) ∧
      readBlockTransactions s.source block.hash =
        some (servedTxs coverage (preparedAfter coverage (first ++ followed) b)) ∧
      ∃ count ≤ later.length, rest = ((preparedChain coverage
        (indexChain coverage CrawlStore.empty (first ++ followed ++ [b])) later).take
          count).map servedBlock := by
  obtain ⟨count, within, pending⟩ := following.pending
  have indexed := following.indexed replicable
  rw [isPending] at pending
  cases ahead with
  | nil =>
      rw [preparedChain, List.take_nil] at pending
      cases pending
  | cons b later =>
      cases count with
      | zero =>
          rw [List.take_zero] at pending
          cases pending
      | succ count =>
          rw [preparedChain, List.take_succ_cons, List.map_cons, List.cons.injEq] at pending
          obtain ⟨rfl, rfl⟩ := pending
          refine ⟨b, later, rfl, rfl, ?_, count, Nat.le_of_succ_le_succ within, ?_⟩
          · rw [servedBlock_hash, following.source_eq]
            exact readBlockTransactions_indexChain indexed
          · rw [indexChain_append_singleton]

theorem Following.persist {block : BlockData} {rest : List BlockData} {txs : List Transaction}
    {epochOf : BlockData → Option Nat}
    (epochs : ∀ block epoch, epochOf block = some epoch → block.epoch = some epoch)
    (following : Following coverage chain first followed ahead s)
    (replicable : Replicable coverage paid minted chain)
    (isPending : s.replica.pending = block :: rest)
    {paged : Option (Except PagingError (List Transaction))}
    (answer : (getBlockTransactions s.source paged block.hash).txs = some txs) :
    ∃ b later, Following coverage chain first (followed ++ [b]) later
      ⟨s.source, s.upcoming,
        ⟨indexBlock coverage s.replica.tables ⟨block, txs, epochOf block, none⟩, block.hash,
          rest⟩⟩ := by
  obtain ⟨b, later, rfl, rfl, served, isRest⟩ := following.next replicable isPending
  rw [getBlockTransactions_stored served] at answer
  cases answer
  have indexed := following.indexed replicable
  have before : Replicable coverage paid minted (first ++ followed) := indexed.left
  have valid : ValidChain (indexChain coverage CrawlStore.empty (first ++ followed)) (b :: later) :=
    indexed.valid.right
  have delivered := indexed.delivered b (List.mem_append_right _ List.mem_cons_self)
  have within : ∀ table, ∀ row ∈ (s.replica.tables table).rows,
      row ∈ (indexChain coverage CrawlStore.empty (first ++ followed) table).rows := by
    intro table row rowMem
    exact (following.rows replicable table).mem_iff.mpr (List.mem_append_right _ rowMem)
  refine ⟨b, later, ?_, ?_, fun table => ?_, ?_, ?_⟩
  · rw [← following.chain_eq]
    simp only [List.append_assoc, List.cons_append, List.nil_append]
  · rw [following.source_eq]
    simp only [List.append_assoc, List.cons_append, List.nil_append]
  · have rows := rows_indexBlock_replica before.lined before.delivered delivered epochs
      valid.head.1 valid.head.2 indexed.keyed.right.1 within table
    rw [chainRows_append, ← indexChain_append, chainRows, chainRows, List.append_nil]
    exact rows.trans ((following.tables table).append_right _)
  · rw [← List.append_assoc, List.getLast?_append, List.getLast?_singleton, Option.some_or,
      Option.map_some, servedBlock_hash]
  · rw [← List.append_assoc]
    exact isRest

theorem Following.step {epochOf : BlockData → Option Nat}
    (epochs : ∀ block epoch, epochOf block = some epoch → block.epoch = some epoch)
    (replicable : Replicable coverage paid minted chain) (addsNone : paging.AddsNone)
    (following : Following coverage chain first followed ahead s)
    (step : ReplicationStep coverage epochOf paging s s') :
    ∃ followed' ahead', Following coverage chain first followed' ahead' s' := by
  cases step with
  | index source b upcoming replica => exact ⟨followed, ahead ++ [b], following.index⟩
  | page source upcoming tables cursor count afterHeight paged may blocks answer =>
      exact ⟨followed, ahead, following.page replicable addsNone may answer⟩
  | persist source upcoming tables cursor block pending paged may txs answer =>
      obtain ⟨b, later, next⟩ := following.persist epochs replicable rfl answer
      exact ⟨followed ++ [b], later, next⟩
  | stop source upcoming replica =>
      exact ⟨followed, ahead, following.chain_eq, following.source_eq, following.tables,
        following.cursor, 0, Nat.zero_le _, rfl⟩

variable (coverage) in
/-- The source has indexed the first blocks of a chain, and a replica with an empty database is to
follow it from the last of them. -/
def Replication.begin (first later : List IndexedBlock) (cursor : BlockHash) : Replication where
  source := indexChain coverage CrawlStore.empty first
  upcoming := later
  replica := ⟨CrawlStore.empty, cursor, []⟩

theorem Following.begin {later : List IndexedBlock} {cursor : BlockHash}
    (start : first.getLast?.map IndexedBlock.hash = some cursor) :
    Following coverage (first ++ later) first [] []
      (Replication.begin coverage first later cursor) where
  chain_eq := by rw [List.append_nil, List.nil_append]; rfl
  source_eq := by rw [List.append_nil, List.append_nil]; rfl
  tables := fun _ => List.Perm.refl _
  cursor := by
    rw [List.append_nil]
    exact start
  pending := ⟨0, Nat.le_refl _, rfl⟩

variable (coverage paging) in
/-- What holds between a replica and its source at any time. -/
structure FollowsSource (chain first : List IndexedBlock) (s : Replication) : Prop where
  /-- The replica has the rows that the source wrote for the blocks up to some block. -/
  sameRows : ∃ followed ahead, first ++ followed ++ ahead ++ s.upcoming = chain ∧
    s.source = indexChain coverage CrawlStore.empty (first ++ followed ++ ahead) ∧
      ∀ table, (indexChain coverage CrawlStore.empty (first ++ followed) table).rows.Perm
        ((indexChain coverage CrawlStore.empty first table).rows ++ (s.replica.tables table).rows)
  /-- Once the source has no more blocks for it, it has all of them. -/
  atTip : ∀ paged count afterHeight, paging.NextBlocks paged → 0 < count.getD 1 →
    (getNextBlocks s.source paged s.replica.cursor count afterHeight).blocks = some [] →
      ∀ table, (s.source table).rows.Perm
        ((indexChain coverage CrawlStore.empty first table).rows ++ (s.replica.tables table).rows)
  /-- The source never takes the cursor of the replica for orphaned. -/
  onChain : ∀ paged count afterHeight, paging.NextBlocks paged →
    (getNextBlocks s.source paged s.replica.cursor count afterHeight).blocks ≠ none
  /-- The source serves the next block of a page whole. -/
  served : ∀ block rest, s.replica.pending = block :: rest →
    ∃ txs, ∀ paged, getBlockTransactions s.source paged block.hash = .stored txs

/-- An instance that follows another one from a stored block, page by page while the other goes on
indexing, holds at any time the rows of the blocks that it has followed, in all tables and whatever
the blocks contain; at the tip it holds all the other wrote since. -/
theorem replica_follows_source {later : List IndexedBlock} {cursor : BlockHash}
    {epochOf : BlockData → Option Nat}
    (epochs : ∀ block epoch, epochOf block = some epoch → block.epoch = some epoch)
    (addsNone : paging.AddsNone) (replicable : Replicable coverage paid minted (first ++ later))
    (start : first.getLast?.map IndexedBlock.hash = some cursor)
    (run : Relation.ReflTransGen (ReplicationStep coverage epochOf paging)
      (Replication.begin coverage first later cursor) s) :
    FollowsSource coverage paging (first ++ later) first s := by
  have follows : ∃ followed ahead, Following coverage (first ++ later) first followed ahead s := by
    induction run with
    | refl => exact ⟨[], [], Following.begin start⟩
    | tail _ step ih =>
        obtain ⟨followed, ahead, following⟩ := ih
        exact following.step epochs replicable addsNone step
  obtain ⟨followed, ahead, following⟩ := follows
  have rows := following.rows replicable
  refine ⟨⟨followed, ahead, ?_, following.source_eq, rows⟩, ?_, ?_, ?_⟩
  · rw [List.append_assoc]
    exact following.chain_eq
  · intro paged count afterHeight may positive answer table
    rw [following.blocks replicable addsNone may, Option.some_inj] at answer
    cases ahead with
    | nil =>
        rw [following.source_eq, List.append_nil]
        exact rows table
    | cons b ahead =>
        rw [List.map_eq_nil_iff, List.take_eq_nil_iff] at answer
        rcases answer with zero | none
        · omega
        · cases none
  · intro paged count afterHeight may answer
    rw [following.blocks replicable addsNone may] at answer
    cases answer
  · intro block rest isPending
    obtain ⟨b, later, -, -, served, -⟩ := following.next replicable isPending
    exact ⟨_, getBlockTransactions_stored served⟩

end Run

end Steps

/-! ### A sample run -/

section Sample

attribute [local instance] byronBech32

/-- The block in which the tokens are minted. -/
def mintBlock : IndexedBlock where
  block := { sampleBlock (text "b1") 1 1 with slotLeader := some "pool" }
  txs := [{ tokenMint with blockHash := text "b1", blockTime := some 0 }]
  epochData := none
  ledger := none

/-- The next block, in which they are burned.  Its input has to be resolved. -/
def burnBlock : IndexedBlock where
  block := { sampleBlock (text "b2") 2 1 with slotLeader := some "pool" }
  txs := [{ tokenBurn with
    blockHash := text "b2", slot := 2, blockHeight := some 2, blockTime := some 0 }]
  epochData := none
  ledger := none

/-- The ledger accepts a transaction whatever block it is placed in. -/
theorem LedgerAccepted.placed {paid : ChainOutputs} {minted : AssetUnit → Int} {t : Transaction}
    (accepted : LedgerAccepted paid minted t) (blockHash : BlockHash) (slot : Nat)
    (blockHeight blockTime : Option Nat) :
    LedgerAccepted paid minted { t with blockHash, slot, blockHeight, blockTime } :=
  ⟨accepted.balanced, accepted.reported, accepted.unminted, accepted.collateral, accepted.declared⟩

theorem mintBlock_delivered : DeliveredBlock tokenPaid tokenMinted mintBlock where
  numbered := ⟨List.pairwise_singleton _ _, rfl⟩
  servable := by
    intro t tMem
    obtain rfl := List.mem_singleton.mp tMem
    exact ⟨rfl, rfl, rfl, by decide, by decide, by decide, by decide⟩
  accepted := by
    intro t tMem
    obtain rfl := List.mem_singleton.mp tMem
    exact tokenMint_accepted.placed _ _ _ _
  produced := by
    intro t tMem o oMem
    obtain rfl := List.mem_singleton.mp tMem
    obtain rfl := List.mem_singleton.mp oMem
    exact ⟨by decide, spells_token⟩
  utxos := fun db isLedger => by cases isLedger
  bare := by
    intro t tMem input inputMem isBare
    obtain rfl := List.mem_singleton.mp tMem
    obtain rfl := List.mem_singleton.mp inputMem
    exact absurd isBare (by decide)
  filled := by
    intro t tMem input inputMem _
    obtain rfl := List.mem_singleton.mp tMem
    obtain rfl := List.mem_singleton.mp inputMem
    exact spells_seven (by decide)
  leader := rfl
  fees := by
    rintro ⟨t, tMem, failed⟩
    obtain rfl := List.mem_singleton.mp tMem
    cases failed

theorem burnBlock_delivered : DeliveredBlock tokenPaid tokenMinted burnBlock where
  numbered := ⟨List.pairwise_singleton _ _, rfl⟩
  servable := by
    intro t tMem
    obtain rfl := List.mem_singleton.mp tMem
    exact ⟨rfl, rfl, rfl, by decide, by decide, by decide, by decide⟩
  accepted := by
    intro t tMem
    obtain rfl := List.mem_singleton.mp tMem
    exact tokenBurn_accepted.placed _ _ _ _
  produced := by
    intro t tMem o oMem
    obtain rfl := List.mem_singleton.mp tMem
    obtain rfl := List.mem_singleton.mp oMem
    exact ⟨by decide, spells_seven (by decide)⟩
  utxos := fun db isLedger => by cases isLedger
  bare := by
    intro t tMem input inputMem _
    obtain rfl := List.mem_singleton.mp tMem
    obtain rfl := List.mem_singleton.mp inputMem
    rfl
  filled := by
    intro t tMem input inputMem isFilled
    obtain rfl := List.mem_singleton.mp tMem
    obtain rfl := List.mem_singleton.mp inputMem
    exact absurd rfl isFilled
  leader := rfl
  fees := by
    rintro ⟨t, tMem, failed⟩
    obtain rfl := List.mem_singleton.mp tMem
    cases failed

theorem mintBurn_valid : ValidChain CrawlStore.empty [mintBlock, burnBlock] where
  wellFormed := by
    intro b bMem
    rcases List.mem_pair.mp bMem with rfl | rfl <;> exact ⟨rfl, by decide, by decide, by decide,
      by decide, by decide⟩
  ordered := by
    refine List.pairwise_pair.mpr ⟨by decide, by decide, ?_, by decide⟩
    intro height known same
    exact absurd (same.trans known.symm) (by decide)
  untouched := fun b _ => untouched_empty b

theorem mintBurn_keyed :
    KeyedChain ⟨true, true⟩ CrawlStore.empty [mintBlock, burnBlock] := by
  refine ⟨fun table => ?_, fun table => ?_, trivial⟩
  · cases table <;> decide +kernel
  · cases table <;> decide +kernel

theorem mintBurn_replicable :
    Replicable ⟨true, true⟩ tokenPaid tokenMinted ([mintBlock] ++ [burnBlock]) where
  valid := mintBurn_valid
  keyed := mintBurn_keyed
  heights := ⟨1, rfl⟩
  delivered := by
    intro b bMem
    rcases List.mem_pair.mp bMem with rfl | rfl
    · exact mintBlock_delivered
    · exact burnBlock_delivered

/-- A source without a paginating backend. -/
def unpaged : SourcePaging := ⟨(· = none), (· = none)⟩

/-- A replica that starts at the first block follows the second one once it is indexed. -/
theorem replica_follows_source_sample : ∃ s,
    FollowsSource ⟨true, true⟩ unpaged ([mintBlock] ++ [burnBlock]) [mintBlock] s ∧
      s.replica.cursor = text "b2" := by
  have page : (getNextBlocks (indexChain ⟨true, true⟩ CrawlStore.empty [mintBlock, burnBlock])
      none (text "b1") none none).blocks = some [servedBlock (preparedAfter ⟨true, true⟩
        [mintBlock] burnBlock)] :=
    congrArg NextBlocksAnswer.blocks
      ((@getNextBlocks_indexChain _ ⟨true, true⟩ tokenPaid tokenMinted [] [burnBlock] mintBlock
        mintBurn_replicable none none none).trans (if_neg (List.cons_ne_nil _ _)))
  have stored := @readBlockTransactions_indexChain _ ⟨true, true⟩ tokenPaid tokenMinted
    [mintBlock] [] burnBlock mintBurn_replicable
  rw [← servedBlock_hash (indexChain ⟨true, true⟩ CrawlStore.empty [mintBlock])] at stored
  have txs : (getBlockTransactions (indexChain ⟨true, true⟩ CrawlStore.empty
      [mintBlock, burnBlock]) none (servedBlock (preparedAfter ⟨true, true⟩ [mintBlock]
        burnBlock)).hash).txs = some (servedTxs ⟨true, true⟩
          (preparedAfter ⟨true, true⟩ [mintBlock] burnBlock)) :=
    congrArg BlockTransactionsAnswer.txs (getBlockTransactions_stored stored none)
  have indexed : ReplicationStep ⟨true, true⟩ BlockData.epoch unpaged
      (Replication.begin ⟨true, true⟩ [mintBlock] [burnBlock] (text "b1")) _ :=
    ReplicationStep.index _ _ _ _
  have paged := @ReplicationStep.page _ ⟨true, true⟩ BlockData.epoch unpaged _ [] CrawlStore.empty
    (text "b1") none none _ rfl _ page
  have persisted := @ReplicationStep.persist _ ⟨true, true⟩ BlockData.epoch unpaged _ []
    CrawlStore.empty (text "b1") _ [] _ rfl _ txs
  refine ⟨_, replica_follows_source (fun _ _ same => same) (fun _ isNone => Or.inl isNone)
    mintBurn_replicable rfl
    (((Relation.ReflTransGen.single indexed).tail paged).tail persisted), ?_⟩
  exact servedBlock_hash (indexChain ⟨true, true⟩ CrawlStore.empty [mintBlock]) burnBlock

end Sample

end Odatano
