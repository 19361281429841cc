import Odatano.ServedRows

/-!
# What a store serves of a chain

`readNextBlocks` and `readBlockTransactions` of `srv/blockchain/stored-chain.ts` on the tables that
a chain was indexed into.  The blocks come without a gap, and every block comes whole.
-/

namespace Odatano

/-! ## Blocks by height -/

/-- Is the height of a row in a range? -/
def heightIn (low top : Nat) (row : BlockRow) : Bool :=
  row.height.any fun height => decide (low ≤ height ∧ height ≤ top)

theorem heightIn_eq {low top height : Nat} {row : BlockRow} (known : row.height = some height) :
    heightIn low top row = decide (low ≤ height ∧ height ≤ top) := by
  rw [heightIn, known, Option.any_some]

/-- The rows in a range of heights, when the heights count up. -/
theorem contiguousFrom_filter {low expected top : Nat} {rows : List BlockRow}
    (heights : rows.map BlockRow.height = (List.range' expected rows.length).map some)
    (begun : low ≤ expected) :
    contiguousFrom expected (rows.filter (heightIn low top)) =
      (rows.take (top + 1 - expected)).map blockRowToData := by
  induction rows generalizing expected with
  | nil => rw [List.filter_nil, List.take_nil]; rfl
  | cons row rest ih =>
      rw [List.map_cons, List.length_cons, List.range'_succ, List.map_cons, List.cons.injEq]
        at heights
      obtain ⟨height, heights⟩ := heights
      have later := ih heights (by omega)
      by_cases within : expected ≤ top
      · have kept : heightIn low top row = true :=
          (heightIn_eq height).trans (decide_eq_true ⟨begun, within⟩)
        rw [List.filter_cons_of_pos kept, contiguousFrom, height, Option.getD_some,
          if_neg (by simp), later, show top + 1 - expected = top + 1 - (expected + 1) + 1 by omega,
          List.take_succ_cons, List.map_cons]
      · have dropped : ¬heightIn low top row = true := by
          rw [heightIn_eq height, decide_eq_true_eq]
          omega
        have past : rest.filter (heightIn low top) = [] := by
          refine List.filter_eq_nil_iff.mpr fun other otherMem chosen => ?_
          have member : other.height ∈ (List.range' (expected + 1) rest.length).map some :=
            heights ▸ List.mem_map_of_mem otherMem
          obtain ⟨value, valueMem, isHeight⟩ := List.mem_map.mp member
          rw [heightIn_eq isHeight.symm, decide_eq_true_eq] at chosen
          have above := (List.mem_range'_1.mp valueMem).1
          omega
        rw [List.filter_cons_of_neg dropped, past, show top + 1 - expected = 0 by omega,
          List.take_zero]
        rfl

/-- The stored blocks after a height, when the heights count up. -/
theorem readNextBlocks_eq {store : CrawlStore} {first : Nat}
    (heights : (store .blocks).rows.map BlockRow.height =
      (List.range' first (store .blocks).rows.length).map some) {after : Nat}
    (begun : first ≤ after + 1) (count : Nat) :
    readNextBlocks store after count =
      (((store .blocks).rows.drop (after + 1 - first)).take count).map blockRowToData := by
  have sorted : ((store .blocks).rows.filter (heightIn (after + 1) (after + count))).Pairwise
        fun a b => decide (a.height.getD 0 ≤ b.height.getD 0) = true := by
    have ascending : ((store .blocks).rows.map BlockRow.height).Pairwise
        fun a b => a.getD 0 ≤ b.getD 0 := by
      rw [heights, List.pairwise_map]
      exact List.Pairwise.imp (fun below => below.le) List.pairwise_lt_range'
    exact ((List.pairwise_map.mp ascending).imp fun le => decide_eq_true le).filter _
  change contiguousFrom (after + 1) (((store .blocks).rows.filter
    (heightIn (after + 1) (after + count))).mergeSort _) = _
  rw [List.mergeSort_of_pairwise sorted]
  generalize (store .blocks).rows = rows at heights
  clear sorted
  induction rows generalizing first with
  | nil => simp [contiguousFrom]
  | cons row rest ih =>
      by_cases here : first = after + 1
      · subst here
        rw [contiguousFrom_filter heights le_rfl, Nat.sub_self, List.drop_zero]
        congr 2
        omega
      · rw [List.map_cons, List.length_cons, List.range'_succ, List.map_cons, List.cons.injEq]
          at heights
        obtain ⟨height, heights⟩ := heights
        have dropped : ¬heightIn (after + 1) (after + count) row = true := by
          rw [heightIn_eq height, decide_eq_true_eq]
          omega
        rw [List.filter_cons_of_neg dropped, ih (by omega) heights,
          show after + 1 - first = after + 1 - (first + 1) + 1 by omega, List.drop_succ_cons]

/-! ## The blocks of a chain -/

section Chain

variable [Bech32] (coverage : CrawlCoverage)

/-- The blocks of a chain with their prepared transactions. -/
def preparedChain : CrawlStore → List IndexedBlock → List (IndexedBlock × PreparedBlock)
  | _, [] => []
  | store, b :: rest =>
      (b, prepareBlock store b.ledger b.block b.txs) ::
        preparedChain (indexBlock coverage store b) rest

/-- A block as it is served. -/
def servedBlock (entry : IndexedBlock × PreparedBlock) : BlockData :=
  blockRowToData (mapBlock entry.2.block entry.1.epochData)

/-- The transactions of a block as they are served. -/
def servedTxs (entry : IndexedBlock × PreparedBlock) : List Transaction :=
  entry.2.txs.map (servedTransaction coverage entry.2.block)

variable {coverage} {store : CrawlStore} {b : IndexedBlock} {chain rest : List IndexedBlock}

omit [Bech32] in
/-- Serving keeps what does not depend on the leader, the epoch and the fees of a block. -/
theorem column_servedBlock {α : Type*} (column : BlockData → α)
    (kept : ∀ block slotLeader epoch fees,
      column { block with slotLeader, epoch, fees } = column block)
    (store : CrawlStore) (b : IndexedBlock) :
    column (servedBlock (b, prepareBlock store b.ledger b.block b.txs)) = column b.block := by
  obtain ⟨fees, isBlock⟩ := prepareBlock_block store b.ledger b.block b.txs
  rw [servedBlock, isBlock]
  exact kept b.block _ _ _

omit [Bech32] in
theorem servedBlock_hash (store : CrawlStore) (b : IndexedBlock) :
    (servedBlock (b, prepareBlock store b.ledger b.block b.txs)).hash = b.hash :=
  column_servedBlock BlockData.hash (fun _ _ _ _ => rfl) store b

omit [Bech32] in
theorem servedBlock_height (store : CrawlStore) (b : IndexedBlock) :
    (servedBlock (b, prepareBlock store b.ledger b.block b.txs)).height = b.block.height :=
  column_servedBlock BlockData.height (fun _ _ _ _ => rfl) store b

theorem preparedChain_append (store : CrawlStore) (chain rest : List IndexedBlock) :
    preparedChain coverage store (chain ++ rest) =
      preparedChain coverage store chain ++
        preparedChain coverage (indexChain coverage store chain) rest := by
  induction chain generalizing store with
  | nil => rfl
  | cons b chain ih => exact congrArg (_ :: ·) (ih (indexBlock coverage store b))

theorem chainRows_append (store : CrawlStore) (chain rest : List IndexedBlock)
    (table : CrawlTable) :
    chainRows coverage store (chain ++ rest) table =
      chainRows coverage store chain table ++
        chainRows coverage (indexChain coverage store chain) rest table := by
  induction chain generalizing store with
  | nil => rfl
  | cons b chain ih =>
      rw [List.cons_append, chainRows, ih, chainRows, List.append_assoc]
      rfl

theorem KeyedChain.right {chain rest : List IndexedBlock}
    (keyed : KeyedChain coverage store (chain ++ rest)) :
    KeyedChain coverage (indexChain coverage store chain) rest := by
  induction chain generalizing store with
  | nil => exact keyed
  | cons b chain ih => exact ih keyed.2

theorem KeyedChain.left {chain rest : List IndexedBlock}
    (keyed : KeyedChain coverage store (chain ++ rest)) : KeyedChain coverage store chain := by
  induction chain generalizing store with
  | nil => trivial
  | cons b chain ih => exact ⟨keyed.1, ih keyed.2⟩

/-- The block rows of a chain. -/
theorem chainRows_blocks (store : CrawlStore) (chain : List IndexedBlock) :
    chainRows coverage store chain .blocks =
      (preparedChain coverage store chain).map fun entry =>
        mapBlock entry.2.block entry.1.epochData := by
  induction chain generalizing store with
  | nil => rfl
  | cons b chain ih =>
      rw [chainRows, ih, preparedChain, List.map_cons]
      simp only [blockRows, blockBatch, transactionBatch, assetHistoryBatch, List.append_nil,
        List.singleton_append]

/-- The other rows of a chain are those of its transactions. -/
theorem chainRows_eq_flatMap (store : CrawlStore) (chain : List IndexedBlock)
    {table : CrawlTable} (isChild : table ≠ .blocks) :
    chainRows coverage store chain table =
      (preparedChain coverage store chain).flatMap fun entry =>
        entry.2.txs.flatMap fun t => rowsOfTransaction coverage entry.2.block t table := by
  induction chain generalizing store with
  | nil => rfl
  | cons b chain ih =>
      rw [chainRows, ih, preparedChain, List.flatMap_cons, blockRows_eq_flatMap _ _ _ isChild]

/-! ## Serving a block -/

/-- The transactions of a block come one after another, and the block counts them. -/
structure Numbered (b : IndexedBlock) : Prop where
  indexes : (b.txs.map Transaction.index).Pairwise (· < ·)
  txCount : b.block.txCount = b.txs.length

omit [Bech32] in
theorem Numbered.indexes_nodup (numbered : Numbered b) : (b.txs.map Transaction.index).Nodup :=
  numbered.indexes.imp fun below => below.ne

/-- The store reads every transaction of an indexed block from its rows. -/
theorem readFrom_indexChain (valid : ValidChain store (b :: rest))
    (keyed : KeyedChain coverage store (b :: rest)) (numbered : Numbered b) {t : Transaction}
    (tMem : t ∈ (prepareBlock store b.ledger b.block b.txs).txs) :
    ReadFrom coverage (prepareBlock store b.ledger b.block b.txs).block
      (indexChain coverage store (b :: rest))
      ((prepareBlock store b.ledger b.block b.txs).txs.map mapTransaction) t where
  own _ isChild := filter_ownerOf valid keyed numbered.indexes_nodup tMem isChild
  listed := List.mem_map_of_mem tMem
  hashes := by
    have hashes := map_prepareBlock_txs Transaction.hash (fun _ _ _ => rfl) store b.ledger
      b.block b.txs
    rw [List.map_map]
    exact hashes ▸ valid.head.1.hashes_nodup
  seqs := by
    have seqs := map_prepareBlock_txs Transaction.txSeq (fun _ _ _ => rfl) store b.ledger
      b.block b.txs
    rw [List.filterMap_map]
    have mapped : TransactionRow.txSeq ∘ mapTransaction = some ∘ Transaction.txSeq := rfl
    rw [mapped, List.filterMap_eq_map]
    exact seqs ▸ txSeqs_nodup valid.head.1 numbered.indexes_nodup

/-- A block of an indexed chain is served whole, put together from its rows. -/
theorem readBlockTransactions_cons (valid : ValidChain store (b :: rest))
    (keyed : KeyedChain coverage store (b :: rest)) (numbered : Numbered b)
    (outputs : ∀ t ∈ b.txs, (t.outputs.map TxOutputLine.outputIndex).Nodup) :
    readBlockTransactions (indexChain coverage store (b :: rest)) b.hash =
      some (servedTxs coverage (b, prepareBlock store b.ledger b.block b.txs)) := by
  obtain ⟨fees, isBlock⟩ := prepareBlock_block store b.ledger b.block b.txs
  have indexes := map_prepareBlock_txs Transaction.index (fun _ _ _ => rfl) store b.ledger
    b.block b.txs
  have lines := map_prepareBlock_txs (fun t => t.outputs.map TxOutputLine.outputIndex)
    (fun _ _ _ => rfl) store b.ledger b.block b.txs
  have sorted : ((prepareBlock store b.ledger b.block b.txs).txs.map mapTransaction).Pairwise
      fun a b => decide (a.txIndex.getD 0 ≤ b.txIndex.getD 0) = true := by
    rw [List.pairwise_map]
    have ascending := numbered.indexes
    rw [← indexes, List.pairwise_map] at ascending
    exact ascending.imp fun below => decide_eq_true below.le
  have length : ((prepareBlock store b.ledger b.block b.txs).txs.map mapTransaction).length =
      (mapBlock (prepareBlock store b.ledger b.block b.txs).block b.epochData).txCount := by
    have counted := congrArg List.length indexes
    rw [List.length_map, List.length_map] at counted
    rw [List.length_map, counted, isBlock]
    exact numbered.txCount.symm
  rw [readBlockTransactions, find?_block valid keyed, Option.bind_some, Table.select,
    transactions_of_block valid keyed, List.mergeSort_of_pairwise sorted, if_neg (not_not.mpr length),
    assembleTransactions, servedTxs, List.map_map]
  refine congrArg some (List.map_congr_left fun t tMem => ?_)
  refine (readFrom_indexChain valid keyed numbered tMem).assembleTransaction_row ?_
  have member : t.outputs.map TxOutputLine.outputIndex ∈
      b.txs.map fun t => t.outputs.map TxOutputLine.outputIndex :=
    lines ▸ List.mem_map_of_mem tMem
  obtain ⟨u, uMem, same⟩ := List.mem_map.mp member
  exact same ▸ outputs u uMem

end Chain

end Odatano
