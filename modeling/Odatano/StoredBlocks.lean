import Odatano.CrawledChain

/-!
# The block rows

What indexing a block and rolling back to a slot do to the `Blocks` table,
whatever is stored.
-/

namespace Odatano

section Indexing

variable [Bech32] {coverage : CrawlCoverage} {store : CrawlStore} {b : IndexedBlock}

/-- Indexing a block writes its row and then drops rows of its height only. -/
theorem blocks_indexBlock_mapBlock (coverage : CrawlCoverage) (store : CrawlStore)
    (b : IndexedBlock) :
    ∃ (fees : Option Int) (doomed : List BlockHash),
      (indexBlock coverage store b .blocks).rows =
        ((store .blocks).upsert (mapBlock { b.block with fees } b.epochData)).rows.filter
          (fun old => decide (old.hash ∉ doomed)) ∧
      ∀ old ∈ ((store .blocks).upsert (mapBlock { b.block with fees } b.epochData)).rows,
        old.hash ∈ doomed →
          old.hash ≠ b.hash ∧ ∃ height, b.block.height = some height ∧ old.height = some height := by
  obtain ⟨fees, block⟩ := prepareBlock_block store b.ledger b.block b.txs
  generalize preparedEq : prepareBlock store b.ledger b.block b.txs = prepared at block
  refine ⟨fees, supersededBlocks (TableFamily.write
    (removeStaleTxSeqs (TableFamily.write store
      (blockBatch (mapBlock prepared.block b.epochData))) prepared.txs)
    (transactionBatch coverage prepared.txs)) prepared.block, ?_, ?_⟩
  · rw [← block]
    simp only [indexBlock, indexBlockRows, preparedEq, removeSupersededBlocks, TableFamily.write,
      TableFamily.delete, removeStaleTxSeqs, deleteTransactionRows_eq, deletesBlocks,
      deletesTransaction, assetHistoryBatch, transactionBatch, blockBatch, Table.upsertAll_nil,
      Table.delete, CrawlTable.key, Bool.not_false, List.filter_true]
    exact List.filter_congr fun old _ => decide_not.symm
  · rw [← block]
    intro old oldMem isDoomed
    rw [supersededBlocks] at isDoomed
    cases known : prepared.block.height with
    | none => simp [known] at isDoomed
    | some height =>
        simp only [known, List.mem_filter, List.mem_map, Table.mem_select,
          decide_eq_true_eq] at isDoomed
        obtain ⟨⟨row, ⟨rowMem, sameHeight, otherHash⟩, sameHash⟩, -⟩ := isDoomed
        rw [block] at known otherHash
        have isOld : row = old := by
          refine Table.mem_rows_inj ?_ oldMem sameHash
          have rows := (TableFamily.mem_write rowMem).resolve_right List.not_mem_nil
          rw [removeStaleTxSeqs, deleteTransactionRows_eq] at rows
          exact (TableFamily.mem_delete.mp rows).1
        exact ⟨isOld ▸ otherHash, height, known, isOld ▸ sameHeight⟩

/-- What it does to the hash, slot and height columns. -/
theorem blocks_indexBlock (coverage : CrawlCoverage) (store : CrawlStore) (b : IndexedBlock) :
    ∃ (row : BlockRow) (doomed : List BlockHash),
      row.identity = (b.hash, b.block.slot, b.block.height) ∧
      (indexBlock coverage store b .blocks).rows =
        ((store .blocks).upsert row).rows.filter (fun old => decide (old.hash ∉ doomed)) ∧
      ∀ old ∈ ((store .blocks).upsert row).rows, old.hash ∈ doomed →
        old.hash ≠ b.hash ∧
          ∃ height, b.block.height = some height ∧ old.height = some height := by
  obtain ⟨fees, doomed, rows, spared⟩ := blocks_indexBlock_mapBlock coverage store b
  exact ⟨mapBlock { b.block with fees } b.epochData, doomed, rfl, rows, spared⟩

/-- A block row afterwards is what the block maps to, or an old one of another block. -/
theorem mem_blocks_indexBlock_mapBlock {row : BlockRow}
    (rowMem : row ∈ (indexBlock coverage store b .blocks).rows) :
    (∃ fees, row = mapBlock { b.block with fees } b.epochData) ∨
      row ∈ (store .blocks).rows ∧ row.hash ≠ b.hash := by
  obtain ⟨fees, doomed, rows, -⟩ := blocks_indexBlock_mapBlock coverage store b
  rw [rows] at rowMem
  rcases Table.mem_upsert.mp (List.mem_filter.mp rowMem).1 with rfl | ⟨stored, different⟩
  · exact Or.inl ⟨fees, rfl⟩
  · exact Or.inr ⟨stored, different⟩

/-- A block row afterwards is the new one or an old one of another block. -/
theorem mem_blocks_indexBlock {row : BlockRow}
    (rowMem : row ∈ (indexBlock coverage store b .blocks).rows) :
    row.identity = (b.hash, b.block.slot, b.block.height) ∨
      row ∈ (store .blocks).rows ∧ row.hash ≠ b.hash := by
  rcases mem_blocks_indexBlock_mapBlock rowMem with ⟨fees, rfl⟩ | old
  · exact Or.inl rfl
  · exact Or.inr old

/-- The new block row is stored. -/
theorem exists_block_indexBlock (coverage : CrawlCoverage) (store : CrawlStore)
    (b : IndexedBlock) :
    ∃ row ∈ (indexBlock coverage store b .blocks).rows, row.hash = b.hash := by
  obtain ⟨newRow, doomed, identity, rows, spared⟩ := blocks_indexBlock coverage store b
  have upserted : newRow ∈ ((store .blocks).upsert newRow).rows := Table.mem_upsert.mpr (Or.inl rfl)
  have sameHash : newRow.hash = b.hash := congrArg Prod.fst identity
  refine ⟨newRow, rows ▸ List.mem_filter.mpr ⟨upserted, decide_eq_true fun isDoomed => ?_⟩, sameHash⟩
  exact (spared newRow upserted isDoomed).1 sameHash

/-- Rows of other blocks and other heights stay. -/
theorem mem_blocks_indexBlock_of_apart {row : BlockRow} (stored : row ∈ (store .blocks).rows)
    (other : row.hash ≠ b.hash)
    (apart : ∀ height, b.block.height = some height → row.height ≠ some height) :
    row ∈ (indexBlock coverage store b .blocks).rows := by
  obtain ⟨newRow, doomed, identity, rows, spared⟩ := blocks_indexBlock coverage store b
  have sameHash : newRow.hash = b.hash := congrArg Prod.fst identity
  have upserted : row ∈ ((store .blocks).upsert newRow).rows :=
    Table.mem_upsert.mpr (Or.inr ⟨stored, fun same => other (same.trans sameHash)⟩)
  rw [rows]
  refine List.mem_filter.mpr ⟨upserted, decide_eq_true fun isDoomed => ?_⟩
  obtain ⟨-, height, known, rowKnown⟩ := spared row upserted isDoomed
  exact apart height known rowKnown

/-- The transaction rows are final when superseded blocks are looked for. -/
theorem transactions_indexBlock (coverage : CrawlCoverage) (store : CrawlStore)
    (b : IndexedBlock) :
    indexBlock coverage store b .transactions =
      TableFamily.write
        (removeStaleTxSeqs
          (TableFamily.write store (blockBatch
            (mapBlock (prepareBlock store b.ledger b.block b.txs).block b.epochData)))
          (prepareBlock store b.ledger b.block b.txs).txs)
        (transactionBatch coverage (prepareBlock store b.ledger b.block b.txs).txs)
        .transactions := by
  simp only [indexBlock, indexBlockRows, removeSupersededBlocks, TableFamily.write,
    TableFamily.delete, deletesBlocks, assetHistoryBatch, Table.upsertAll_nil]
  exact Table.delete_eq_self fun _ _ => rfl

/-- A stored block of the same height goes unless a transaction still names it. -/
theorem superseded_of_unnamed {row : BlockRow} (rowMem : row ∈ (store .blocks).rows)
    {height : Nat} (known : b.block.height = some height) (sameHeight : row.height = some height)
    (other : row.hash ≠ b.hash)
    (unnamed : ∀ stored ∈ (indexBlock coverage store b .transactions).rows,
      stored.blockHash ≠ row.hash) :
    row ∉ (indexBlock coverage store b .blocks).rows := by
  rw [transactions_indexBlock] at unnamed
  obtain ⟨fees, block⟩ := prepareBlock_block store b.ledger b.block b.txs
  generalize preparedEq : prepareBlock store b.ledger b.block b.txs = prepared at block unnamed
  have doomed : row.hash ∈ supersededBlocks (TableFamily.write
      (removeStaleTxSeqs (TableFamily.write store
        (blockBatch (mapBlock prepared.block b.epochData))) prepared.txs)
      (transactionBatch coverage prepared.txs)) prepared.block := by
    have kept : row ∈ (TableFamily.write
        (removeStaleTxSeqs (TableFamily.write store
          (blockBatch (mapBlock prepared.block b.epochData))) prepared.txs)
        (transactionBatch coverage prepared.txs) .blocks).rows := by
      simp only [removeStaleTxSeqs, deleteTransactionRows_eq]
      refine TableFamily.mem_delete.mpr ⟨Table.mem_upsert.mpr (Or.inr ⟨rowMem, ?_⟩), rfl⟩
      rw [block]
      exact other
    have isKnown : prepared.block.height = some height := by rw [block]; exact known
    have isOther : row.hash ≠ prepared.block.hash := by rw [block]; exact other
    simp only [supersededBlocks, isKnown]
    refine List.mem_filter.mpr ⟨List.mem_map_of_mem (Table.mem_select.mpr ⟨kept, ?_⟩), ?_⟩
    · exact decide_eq_true ⟨sameHeight, isOther⟩
    · rw [decide_eq_true_eq]
      intro named
      obtain ⟨stored, storedMem, sameHash⟩ := List.mem_map.mp named
      exact unnamed stored (Table.mem_select.mp storedMem).1 sameHash
  simp only [indexBlock, indexBlockRows, preparedEq, removeSupersededBlocks]
  intro stays
  have deleted := (TableFamily.mem_write stays).resolve_right List.not_mem_nil
  have spared := (TableFamily.mem_delete.mp deleted).2
  exact of_decide_eq_false spared doomed

end Indexing

/-- A rollback keeps the block rows up to its slot, and those without a slot. -/
theorem blocks_rollBackBlocks (store : CrawlStore) (slot : Nat) :
    ((rollBackBlocks store (staleBlocks store slot)).1 .blocks).rows =
      (store .blocks).rows.filter fun row => !row.slot.any fun known => decide (slot < known) := by
  rw [rollBackBlocks_fst]
  simp only [TableFamily.delete, Table.delete, deletesOwned, CrawlTable.owner, CrawlTable.key]
  refine List.filter_congr fun row rowMem => ?_
  rw [Bool.eq_iff_iff]
  simp only [Bool.not_eq_true', decide_eq_false_iff_not]
  constructor
  · intro kept
    by_contra late
    rw [Bool.not_eq_false] at late
    exact kept (List.mem_map_of_mem (Table.mem_select.mpr ⟨rowMem, late⟩))
  · intro early isStale
    obtain ⟨other, otherMem, sameHash⟩ := List.mem_map.mp isStale
    obtain ⟨otherMem, late⟩ := Table.mem_select.mp otherMem
    cases Table.mem_rows_inj otherMem rowMem sameHash
    rw [early] at late
    cases late

end Odatano
