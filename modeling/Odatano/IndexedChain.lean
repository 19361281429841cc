import Odatano.RollBackBlocks

/-!
# Indexing a chain of blocks

A block that nothing stored stands in the way of is indexed by adding its rows.
Rolling back the blocks after some point of a chain therefore leaves what
indexing the blocks up to that point wrote.
-/

namespace Odatano

/-- A delivered block with what else indexing it depends on: the prefetched
epoch and, when the ledger is due, the ledger tables that answer its inputs. -/
structure IndexedBlock where
  block : BlockData
  txs : List Transaction
  epochData : Option Nat
  ledger : Option LedgerDb

namespace IndexedBlock

def hash (b : IndexedBlock) : BlockHash := b.block.hash

def slot (b : IndexedBlock) : Nat := b.block.slotOrZero

/-- What the rows of a block belong to. -/
def Owns (b : IndexedBlock) : RowOwner → Prop
  | .block hash => hash = b.hash
  | .transaction hash => hash ∈ b.txs.map Transaction.hash
  | .position txSeq => txSeq ∈ b.txs.map Transaction.txSeq

/-- How a block of the chain is delivered: its transactions name it, their
positions fit below the next slot, and their metadata names them. -/
structure WellFormed (b : IndexedBlock) : Prop where
  slot_known : b.block.slot = some b.slot
  hashes_nodup : (b.txs.map Transaction.hash).Nodup
  blockHash : ∀ t ∈ b.txs, t.blockHash = b.hash
  txSlot : ∀ t ∈ b.txs, t.slot = b.slot
  index_lt : ∀ t ∈ b.txs, t.index < TX_SEQ_SLOT_FACTOR
  labels : ∀ t ∈ b.txs, ∀ label ∈ t.metadata.getD [], label.txHash = t.hash

/-- A position a block owns lies in its slot. -/
theorem WellFormed.slot_of_owns {b : IndexedBlock} (wellFormed : b.WellFormed) {txSeq : Nat}
    (owns : b.Owns (.position txSeq)) : txSeq / TX_SEQ_SLOT_FACTOR = b.slot := by
  obtain ⟨t, tMem, rfl⟩ := List.mem_map.mp owns
  rw [Transaction.txSeq, txSeqOf_div (wellFormed.index_lt t tMem), wellFormed.txSlot t tMem]

/-- A block can come before another one on a chain. -/
structure Precedes (b later : IndexedBlock) : Prop where
  slot_lt : b.slot < later.slot
  hash_ne : b.hash ≠ later.hash
  height_ne : ∀ height, later.block.height = some height → b.block.height ≠ some height
  txs_ne : ∀ t ∈ b.txs, ∀ other ∈ later.txs, t.hash ≠ other.hash

/-- Nothing belongs to two blocks of a chain. -/
theorem Precedes.not_owns {b later : IndexedBlock} (precedes : b.Precedes later)
    (wellFormed : b.WellFormed) (laterWellFormed : later.WellFormed) {owner : RowOwner}
    (owns : b.Owns owner) : ¬ later.Owns owner := by
  intro laterOwns
  cases owner with
  | block hash => exact precedes.hash_ne (owns.symm.trans laterOwns)
  | transaction hash =>
      obtain ⟨t, tMem, rfl⟩ := List.mem_map.mp owns
      obtain ⟨u, uMem, same⟩ := List.mem_map.mp laterOwns
      exact precedes.txs_ne t tMem u uMem same.symm
  | position txSeq =>
      have slot := wellFormed.slot_of_owns owns
      have laterSlot := laterWellFormed.slot_of_owns laterOwns
      have slot_lt := precedes.slot_lt
      omega

end IndexedBlock

/-- Nothing stored belongs to a block or takes its height or positions. -/
structure Untouched (store : CrawlStore) (b : IndexedBlock) : Prop where
  owners : ∀ (table : CrawlTable), ∀ row ∈ (store table).rows,
    ¬ b.Owns (table.owner (table.key row))
  blockHash : ∀ row ∈ (store .transactions).rows, row.blockHash ≠ b.hash
  positions : ∀ row ∈ (store .transactions).rows, ∀ txSeq, row.txSeq = some txSeq →
    txSeq / TX_SEQ_SLOT_FACTOR ≠ b.slot
  heights : ∀ row ∈ (store .blocks).rows, ∀ height, b.block.height = some height →
    row.height ≠ some height

/-! ## Chains -/

section Chain

variable {store : CrawlStore} {b : IndexedBlock}

/-- Blocks that follow one another and that nothing stored stands in the way of. -/
structure ValidChain (store : CrawlStore) (chain : List IndexedBlock) : Prop where
  wellFormed : ∀ b ∈ chain, b.WellFormed
  ordered : chain.Pairwise IndexedBlock.Precedes
  untouched : ∀ b ∈ chain, Untouched store b

theorem ValidChain.head {rest : List IndexedBlock} (valid : ValidChain store (b :: rest)) :
    b.WellFormed ∧ Untouched store b :=
  ⟨valid.wellFormed b List.mem_cons_self, valid.untouched b List.mem_cons_self⟩

/-- A prefix of a chain is a chain. -/
theorem ValidChain.left {first rest : List IndexedBlock}
    (valid : ValidChain store (first ++ rest)) : ValidChain store first where
  wellFormed b bMem := valid.wellFormed b (List.mem_append_left _ bMem)
  ordered := (List.pairwise_append.mp valid.ordered).1
  untouched b bMem := valid.untouched b (List.mem_append_left _ bMem)

end Chain

/-! ## What preparation keeps -/

/-- Preparing a block changes only inputs and fees. -/
theorem prepareBlock_txs (store : CrawlStore) (ledger : Option LedgerDb) (block : BlockData)
    (txs : List Transaction) :
    ∃ prepare : Transaction → Transaction,
      (prepareBlock store ledger block txs).txs = txs.map prepare ∧
        ∀ t, ∃ inputs fee, prepare t = { t with inputs, fee } := by
  simp only [prepareBlock, applyCollateralFees, resolveInputs, List.map_map]
  exact ⟨_, rfl, fun t => ⟨_, _, rfl⟩⟩

/-- Preparing a block changes only its fee total. -/
theorem prepareBlock_block (store : CrawlStore) (ledger : Option LedgerDb) (block : BlockData)
    (txs : List Transaction) :
    ∃ fees, (prepareBlock store ledger block txs).block = { block with fees } := by
  simp only [prepareBlock, applyCollateralFees]
  split
  · exact ⟨_, rfl⟩
  · exact ⟨block.fees, rfl⟩

/-- A column that preparation does not change. -/
theorem map_prepareBlock_txs {α : Type*} (column : Transaction → α)
    (kept : ∀ t inputs fee, column { t with inputs, fee } = column t) (store : CrawlStore)
    (ledger : Option LedgerDb) (block : BlockData) (txs : List Transaction) :
    (prepareBlock store ledger block txs).txs.map column = txs.map column := by
  obtain ⟨prepare, same, changes⟩ := prepareBlock_txs store ledger block txs
  rw [same, List.map_map]
  apply List.map_congr_left
  intro t _
  obtain ⟨inputs, fee, prepared⟩ := changes t
  simp [prepared, kept]

/-- A mint or burn row belongs to one of the transactions. -/
theorem owner_of_mem_assetHistoryBatch {block : BlockData} {txs : List Transaction}
    {kept : Bool} {table : CrawlTable} {row : table.Row}
    (rowMem : row ∈ assetHistoryBatch
      (if kept then buildAssetHistoryRows block txs else []) table) :
    ∃ t ∈ txs, table.owner (table.key row) = .transaction t.hash := by
  cases table with
  | assetHistory =>
      simp only [assetHistoryBatch] at rowMem
      split at rowMem
      · obtain ⟨t, tMem, same⟩ := txHash_of_mem_assetHistory rowMem
        exact ⟨t, tMem, congrArg RowOwner.transaction same⟩
      · cases rowMem
  | _ => cases rowMem

/-! ## What stands in nobody's way -/

@[simp] theorem deleteTransactionRows_nil (store : CrawlStore) :
    deleteTransactionRows store [] = store := rfl

@[simp] theorem delete_deletesBlocks_nil (store : CrawlStore) :
    TableFamily.delete store (deletesBlocks []) = store := by
  apply TableFamily.delete_eq_self
  intro table row _
  cases table <;> rfl

/-- What is stale at the positions of a block is stored in its slot. -/
theorem mem_staleTxSeqs_slot {store : CrawlStore} {txs : List Transaction} {slot : Nat}
    (here : ∀ t ∈ txs, t.txSeq / TX_SEQ_SLOT_FACTOR = slot) {key : TxKey}
    (stale : key ∈ staleTxSeqs store txs) :
    ∃ row ∈ (store .transactions).rows, row.txKey = key ∧
      ∃ txSeq, row.txSeq = some txSeq ∧ txSeq / TX_SEQ_SLOT_FACTOR = slot := by
  simp only [staleTxSeqs] at stale
  split at stale
  · rename_i low high least greatest
    obtain ⟨t, tMem, rfl⟩ := List.mem_map.mp (List.min?_mem least)
    obtain ⟨u, uMem, rfl⟩ := List.mem_map.mp (List.max?_mem greatest)
    obtain ⟨row, rowMem, sameKey⟩ := List.mem_map.mp stale
    obtain ⟨rowMem, between⟩ := Table.mem_select.mp (List.mem_filter.mp rowMem).1
    cases stored : row.txSeq with
    | none => simp [stored] at between
    | some txSeq =>
        rw [stored, Option.any_some, decide_eq_true_eq] at between
        refine ⟨row, rowMem, sameKey, txSeq, stored, Nat.le_antisymm ?_ ?_⟩
        · exact (Nat.div_le_div_right between.2).trans (here u uMem).le
        · exact (here t tMem).ge.trans (Nat.div_le_div_right between.1)
  · cases stale

/-- No transaction is stale when none is stored at the slot of the block. -/
theorem staleTxSeqs_eq_nil {store : CrawlStore} {txs : List Transaction} {slot : Nat}
    (positions : ∀ row ∈ (store .transactions).rows, ∀ txSeq, row.txSeq = some txSeq →
      txSeq / TX_SEQ_SLOT_FACTOR ≠ slot)
    (here : ∀ t ∈ txs, t.txSeq / TX_SEQ_SLOT_FACTOR = slot) : staleTxSeqs store txs = [] := by
  refine List.eq_nil_iff_forall_not_mem.mpr fun key stale => ?_
  obtain ⟨row, rowMem, -, txSeq, stored, inSlot⟩ := mem_staleTxSeqs_slot here stale
  exact positions row rowMem txSeq stored inSlot

/-- No block is superseded when no other one has the height. -/
theorem supersededBlocks_eq_nil {store : CrawlStore} {block : BlockData}
    (alone : ∀ row ∈ (store .blocks).rows, ∀ height, block.height = some height →
      row.height = some height → row.hash = block.hash) : supersededBlocks store block = [] := by
  simp only [supersededBlocks]
  cases known : block.height with
  | none => rfl
  | some height =>
      have none : (store .blocks).select (fun row =>
          decide (row.height = some height ∧ row.hash ≠ block.hash)) = [] := by
        simp only [Table.select, List.filter_eq_nil_iff, decide_eq_true_eq, not_and, not_not]
        exact fun row rowMem => alone row rowMem height known
      simp only [none, List.map_nil, List.filter_nil]

section Index

variable [Bech32] (coverage : CrawlCoverage)

/-- Index one block of a chain. -/
def indexBlock (store : CrawlStore) (b : IndexedBlock) : CrawlStore :=
  indexBlockRows coverage store b.epochData (prepareBlock store b.ledger b.block b.txs)

/-- Index the blocks of a chain, each once and in order. -/
def indexChain (store : CrawlStore) (chain : List IndexedBlock) : CrawlStore :=
  chain.foldl (indexBlock coverage) store

theorem indexChain_append_singleton (store : CrawlStore) (chain : List IndexedBlock)
    (b : IndexedBlock) :
    indexChain coverage store (chain ++ [b]) =
      indexBlock coverage (indexChain coverage store chain) b := by
  simp [indexChain]

/-- All rows of a block. -/
def blockRows (store : CrawlStore) (b : IndexedBlock) (table : CrawlTable) : List table.Row :=
  let prepared := prepareBlock store b.ledger b.block b.txs
  blockBatch (mapBlock prepared.block b.epochData) table ++
    transactionBatch coverage prepared.txs table ++
      assetHistoryBatch
        (if coverage.assetHistory then buildAssetHistoryRows prepared.block prepared.txs else [])
        table

variable {coverage} {store : CrawlStore} {b : IndexedBlock}

/-- A row of the transaction batch belongs to one of the transactions. -/
theorem owner_of_mem_transactionBatch {txs : List Transaction}
    (labels : ∀ t ∈ txs, ∀ label ∈ t.metadata.getD [], label.txHash = t.hash)
    {table : CrawlTable} {row : table.Row} (rowMem : row ∈ transactionBatch coverage txs table) :
    ∃ t ∈ txs, table.owner (table.key row) = .transaction t.hash ∨
      table.owner (table.key row) = .position t.txSeq := by
  cases table with
  | blocks => cases rowMem
  | transactions =>
      obtain ⟨t, tMem, rfl⟩ := List.mem_map.mp rowMem
      exact ⟨t, tMem, Or.inl rfl⟩
  | transactionInputs =>
      obtain ⟨t, tMem, rowMem⟩ := List.mem_flatMap.mp rowMem
      exact ⟨t, tMem, Or.inr (congrArg RowOwner.position (txSeq_of_mem_inputs rowMem))⟩
  | transactionInputAssets =>
      obtain ⟨t, tMem, rowMem⟩ := List.mem_flatMap.mp rowMem
      exact ⟨t, tMem, Or.inr (congrArg RowOwner.position (txSeq_of_mem_inputAssets rowMem))⟩
  | transactionOutputs =>
      obtain ⟨t, tMem, rowMem⟩ := List.mem_flatMap.mp rowMem
      exact ⟨t, tMem, Or.inr (congrArg RowOwner.position (txSeq_of_mem_outputs rowMem))⟩
  | transactionOutputAssets =>
      obtain ⟨t, tMem, rowMem⟩ := List.mem_flatMap.mp rowMem
      exact ⟨t, tMem, Or.inr (congrArg RowOwner.position (txSeq_of_mem_outputAssets rowMem))⟩
  | transactionMetadata =>
      obtain ⟨t, tMem, rowMem⟩ := List.mem_flatMap.mp rowMem
      obtain ⟨label, labelMem, same⟩ := tx_of_mem_metadata rowMem
      exact ⟨t, tMem,
        Or.inl (congrArg RowOwner.transaction (same.trans (labels t tMem label labelMem)))⟩
  | transactionCertificates =>
      simp only [transactionBatch] at rowMem
      split at rowMem
      · obtain ⟨t, tMem, rowMem⟩ := List.mem_flatMap.mp rowMem
        exact ⟨t, tMem, Or.inl (congrArg RowOwner.transaction (tx_of_mem_certificates rowMem))⟩
      · cases rowMem
  | transactionWithdrawals =>
      simp only [transactionBatch] at rowMem
      split at rowMem
      · obtain ⟨t, tMem, rowMem⟩ := List.mem_flatMap.mp rowMem
        exact ⟨t, tMem, Or.inl (congrArg RowOwner.transaction (tx_of_mem_withdrawals rowMem))⟩
      · cases rowMem
  | transactionRedeemers =>
      obtain ⟨t, tMem, rowMem⟩ := List.mem_flatMap.mp rowMem
      exact ⟨t, tMem, Or.inl (congrArg RowOwner.transaction (tx_of_mem_redeemers rowMem))⟩
  | transactionDatums =>
      obtain ⟨t, tMem, rowMem⟩ := List.mem_flatMap.mp rowMem
      exact ⟨t, tMem, Or.inl (congrArg RowOwner.transaction (tx_of_mem_datums rowMem))⟩
  | assetHistory => cases rowMem

/-- Every row of a block belongs to it. -/
theorem owns_blockRows (wellFormed : b.WellFormed) (table : CrawlTable) :
    ∀ row ∈ blockRows coverage store b table, b.Owns (table.owner (table.key row)) := by
  have hashes := map_prepareBlock_txs Transaction.hash (fun _ _ _ => rfl) store b.ledger
    b.block b.txs
  have seqs := map_prepareBlock_txs Transaction.txSeq (fun _ _ _ => rfl) store b.ledger
    b.block b.txs
  have labels : ∀ t ∈ (prepareBlock store b.ledger b.block b.txs).txs,
      ∀ label ∈ t.metadata.getD [], label.txHash = t.hash := by
    obtain ⟨prepare, same, changes⟩ := prepareBlock_txs store b.ledger b.block b.txs
    intro t tMem
    rw [same] at tMem
    obtain ⟨original, originalMem, rfl⟩ := List.mem_map.mp tMem
    obtain ⟨inputs, fee, prepared⟩ := changes original
    rw [prepared]
    exact wellFormed.labels original originalMem
  have byHash : ∀ t ∈ (prepareBlock store b.ledger b.block b.txs).txs,
      b.Owns (.transaction t.hash) := fun t tMem =>
    show t.hash ∈ b.txs.map Transaction.hash from hashes ▸ List.mem_map_of_mem tMem
  have bySeq : ∀ t ∈ (prepareBlock store b.ledger b.block b.txs).txs,
      b.Owns (.position t.txSeq) := fun t tMem =>
    show t.txSeq ∈ b.txs.map Transaction.txSeq from seqs ▸ List.mem_map_of_mem tMem
  obtain ⟨fees, block⟩ := prepareBlock_block store b.ledger b.block b.txs
  intro row rowMem
  simp only [blockRows, List.mem_append] at rowMem
  rcases rowMem with (rowMem | rowMem) | rowMem
  · cases table with
    | blocks =>
        rw [block] at rowMem
        cases List.mem_singleton.mp rowMem
        rfl
    | _ => cases rowMem
  · obtain ⟨t, tMem, owner | owner⟩ := owner_of_mem_transactionBatch labels rowMem
    · exact owner ▸ byHash t tMem
    · exact owner ▸ bySeq t tMem
  · obtain ⟨t, tMem, owner⟩ := owner_of_mem_assetHistoryBatch rowMem
    exact owner ▸ byHash t tMem

/-- What a rollback reads of a transaction row. -/
def TransactionRow.identity (row : TransactionRow) : TxHash × Option Nat × BlockHash :=
  (row.hash, row.txSeq, row.blockHash)

/-- What a rollback reads of a block row. -/
def BlockRow.identity (row : BlockRow) : BlockHash × Option Nat × Option Nat :=
  (row.hash, row.slot, row.height)

variable (coverage store b) in
theorem transactionRows_identity :
    (blockRows coverage store b .transactions).map TransactionRow.identity =
      b.txs.map fun t => (t.hash, some t.txSeq, t.blockHash) := by
  have kept := map_prepareBlock_txs
    (fun t => ((t.hash, some t.txSeq, t.blockHash) : TxHash × Option Nat × BlockHash))
    (fun _ _ _ => rfl) store b.ledger b.block b.txs
  simp only [blockRows, blockBatch, transactionBatch, assetHistoryBatch, List.nil_append,
    List.append_nil, List.map_map]
  exact kept

variable (coverage store b) in
theorem blockRow_identity :
    (blockRows coverage store b .blocks).map BlockRow.identity =
      [(b.hash, b.block.slot, b.block.height)] := by
  obtain ⟨fees, block⟩ := prepareBlock_block store b.ledger b.block b.txs
  simp only [blockRows, blockBatch, transactionBatch, assetHistoryBatch, List.append_nil, block]
  rfl

/-- A block that nothing stands in the way of is indexed by adding its rows. -/
theorem indexBlock_eq_write (wellFormed : b.WellFormed) (untouched : Untouched store b) :
    indexBlock coverage store b = TableFamily.write store (blockRows coverage store b) := by
  have seqs := map_prepareBlock_txs Transaction.txSeq (fun _ _ _ => rfl) store b.ledger
    b.block b.txs
  obtain ⟨fees, block⟩ := prepareBlock_block store b.ledger b.block b.txs
  have here : ∀ t ∈ (prepareBlock store b.ledger b.block b.txs).txs,
      t.txSeq / TX_SEQ_SLOT_FACTOR = b.slot := by
    intro t tMem
    have seqMem : t.txSeq ∈ b.txs.map Transaction.txSeq := seqs ▸ List.mem_map_of_mem tMem
    exact wellFormed.slot_of_owns seqMem
  generalize preparedEq : prepareBlock store b.ledger b.block b.txs = prepared at block here
  have noStale : staleTxSeqs (TableFamily.write store
      (blockBatch (mapBlock prepared.block b.epochData))) prepared.txs = [] :=
    staleTxSeqs_eq_nil untouched.positions here
  have noneSuperseded : supersededBlocks (TableFamily.write store fun table =>
      blockBatch (mapBlock prepared.block b.epochData) table ++
        transactionBatch coverage prepared.txs table) prepared.block = [] := by
    apply supersededBlocks_eq_nil
    intro row rowMem height known sameHeight
    rw [block] at known
    rcases TableFamily.mem_write rowMem with stored | written
    · exact absurd sameHeight (untouched.heights row stored height known)
    · cases List.mem_singleton.mp written
      rfl
  simp only [indexBlock, indexBlockRows, preparedEq]
  rw [removeStaleTxSeqs, noStale, deleteTransactionRows_nil, TableFamily.write_write,
    removeSupersededBlocks, noneSuperseded, delete_deletesBlocks_nil, TableFamily.write_write,
    ← preparedEq]
  rfl

/-- A later block finds nothing in its way after an earlier one is indexed. -/
theorem Untouched.indexBlock {later : IndexedBlock} (wellFormed : b.WellFormed)
    (untouched : Untouched store b) (laterUntouched : Untouched store later)
    (precedes : b.Precedes later) (laterWellFormed : later.WellFormed) :
    Untouched (Odatano.indexBlock coverage store b) later := by
  have slot_lt := precedes.slot_lt
  have identities : ∀ row ∈ blockRows coverage store b .transactions,
      ∃ t ∈ b.txs, row.txSeq = some t.txSeq ∧ row.blockHash = b.hash := by
    intro row rowMem
    have identityMem := List.mem_map_of_mem (f := TransactionRow.identity) rowMem
    rw [transactionRows_identity] at identityMem
    obtain ⟨t, tMem, same⟩ := List.mem_map.mp identityMem
    simp only [TransactionRow.identity, Prod.mk.injEq] at same
    exact ⟨t, tMem, same.2.1.symm, same.2.2.symm.trans (wellFormed.blockHash t tMem)⟩
  rw [indexBlock_eq_write wellFormed untouched]
  constructor
  · intro table row rowMem
    rcases TableFamily.mem_write rowMem with stored | written
    · exact laterUntouched.owners table row stored
    · exact precedes.not_owns wellFormed laterWellFormed (owns_blockRows wellFormed table row written)
  · intro row rowMem
    rcases TableFamily.mem_write rowMem with stored | written
    · exact laterUntouched.blockHash row stored
    · obtain ⟨-, -, -, blockHash⟩ := identities row written
      rw [blockHash]
      exact precedes.hash_ne
  · intro row rowMem txSeq known
    rcases TableFamily.mem_write rowMem with stored | written
    · exact laterUntouched.positions row stored txSeq known
    · obtain ⟨t, tMem, here, -⟩ := identities row written
      have same : txSeq = t.txSeq := Option.some.inj (known.symm.trans here)
      have owns : b.Owns (.position t.txSeq) := List.mem_map_of_mem tMem
      rw [same, wellFormed.slot_of_owns owns]
      exact slot_lt.ne
  · intro row rowMem height known
    rcases TableFamily.mem_write rowMem with stored | written
    · exact laterUntouched.heights row stored height known
    · have identityMem := List.mem_map_of_mem (f := BlockRow.identity) written
      rw [blockRow_identity, List.mem_singleton] at identityMem
      simp only [BlockRow.identity, Prod.mk.injEq] at identityMem
      rw [identityMem.2.2]
      exact precedes.height_ne height known

/-! ## Rows of a chain -/

/-- Once its first block is indexed, the rest of a chain is a chain. -/
theorem ValidChain.tail {rest : List IndexedBlock} (valid : ValidChain store (b :: rest)) :
    ValidChain (indexBlock coverage store b) rest where
  wellFormed c cMem := valid.wellFormed c (List.mem_cons_of_mem _ cMem)
  ordered := valid.ordered.of_cons
  untouched c cMem :=
    valid.head.2.indexBlock valid.head.1 (valid.untouched c (List.mem_cons_of_mem _ cMem))
      (List.rel_of_pairwise_cons valid.ordered cMem)
      (valid.wellFormed c (List.mem_cons_of_mem _ cMem))

/-- Once a prefix is indexed, the rest of a chain is a chain. -/
theorem ValidChain.right {first rest : List IndexedBlock}
    (valid : ValidChain store (first ++ rest)) :
    ValidChain (indexChain coverage store first) rest := by
  induction first generalizing store with
  | nil => exact valid
  | cons b first ih => exact ih valid.tail

variable (coverage) in
/-- The transaction rows after indexing a chain, as far as a rollback reads them. -/
theorem transactions_indexChain {chain : List IndexedBlock} (valid : ValidChain store chain) :
    (indexChain coverage store chain .transactions).rows.map TransactionRow.identity =
      (store .transactions).rows.map TransactionRow.identity ++
        chain.flatMap fun b => b.txs.map fun t => (t.hash, some t.txSeq, t.blockHash) := by
  induction chain generalizing store with
  | nil => simp [indexChain]
  | cons b rest ih =>
      obtain ⟨wellFormed, untouched⟩ := valid.head
      have hashes : (blockRows coverage store b .transactions).map TransactionRow.hash =
          b.txs.map Transaction.hash := by
        have identities := congrArg (List.map Prod.fst) (transactionRows_identity coverage store b)
        rwa [List.map_map, List.map_map] at identities
      have added : (indexBlock coverage store b .transactions).rows =
          (store .transactions).rows ++ blockRows coverage store b .transactions := by
        rw [indexBlock_eq_write wellFormed untouched]
        apply Table.rows_upsertAll_of_new
        · exact hashes.symm ▸ wellFormed.hashes_nodup
        · intro row rowMem stored
          obtain ⟨old, oldMem, same⟩ := List.mem_map.mp stored
          have owns := owns_blockRows wellFormed .transactions row rowMem
          rw [← same] at owns
          exact untouched.owners .transactions old oldMem owns
      change (indexChain coverage (indexBlock coverage store b) rest .transactions).rows.map _ = _
      rw [ih valid.tail, added, List.map_append, transactionRows_identity, List.flatMap_cons,
        List.append_assoc]

variable (coverage) in
/-- The block rows after indexing a chain, as far as a rollback reads them. -/
theorem blocks_indexChain {chain : List IndexedBlock} (valid : ValidChain store chain) :
    (indexChain coverage store chain .blocks).rows.map BlockRow.identity =
      (store .blocks).rows.map BlockRow.identity ++
        chain.map fun b => (b.hash, b.block.slot, b.block.height) := by
  induction chain generalizing store with
  | nil => simp [indexChain]
  | cons b rest ih =>
      obtain ⟨wellFormed, untouched⟩ := valid.head
      have hashes : (blockRows coverage store b .blocks).map BlockRow.hash = [b.hash] := by
        have identities := congrArg (List.map Prod.fst) (blockRow_identity coverage store b)
        rwa [List.map_map] at identities
      have added : (indexBlock coverage store b .blocks).rows =
          (store .blocks).rows ++ blockRows coverage store b .blocks := by
        rw [indexBlock_eq_write wellFormed untouched]
        apply Table.rows_upsertAll_of_new
        · exact hashes.symm ▸ List.nodup_singleton _
        · intro row rowMem stored
          obtain ⟨old, oldMem, same⟩ := List.mem_map.mp stored
          have owns := owns_blockRows wellFormed .blocks row rowMem
          rw [← same] at owns
          exact untouched.owners .blocks old oldMem owns
      change (indexChain coverage (indexBlock coverage store b) rest .blocks).rows.map _ = _
      rw [ih valid.tail, added, List.map_append, blockRow_identity, List.map_cons,
        List.append_assoc, List.singleton_append]

/-- A deletion that covers the blocks of a chain does not see whether it was indexed. -/
theorem delete_indexChain {chain : List IndexedBlock} (valid : ValidChain store chain)
    {doomed : ∀ table : CrawlTable, table.Key → Bool}
    (covered : ∀ b ∈ chain, ∀ (table : CrawlTable) (key : table.Key),
      b.Owns (table.owner key) → doomed table key = true) :
    TableFamily.delete (indexChain coverage store chain) doomed =
      TableFamily.delete store doomed := by
  induction chain generalizing store with
  | nil => rfl
  | cons b rest ih =>
      obtain ⟨wellFormed, untouched⟩ := valid.head
      change TableFamily.delete (indexChain coverage (indexBlock coverage store b) rest) doomed = _
      rw [ih valid.tail fun c cMem => covered c (List.mem_cons_of_mem _ cMem),
        indexBlock_eq_write wellFormed untouched, TableFamily.delete_write]
      intro table row rowMem
      exact covered b List.mem_cons_self table _ (owns_blockRows wellFormed table row rowMem)

/-- The transactions stored under the blocks after some point of a chain. -/
theorem mem_transactionsOf_indexChain {kept dropped : List IndexedBlock}
    (valid : ValidChain store (kept ++ dropped)) {hashes : List BlockHash}
    (stale : ∀ hash, hash ∈ hashes ↔ ∃ b ∈ dropped, b.hash = hash) {key : TxKey} :
    key ∈ transactionsOf (indexChain coverage store (kept ++ dropped)) hashes ↔
      ∃ b ∈ dropped, ∃ t ∈ b.txs, key = ⟨t.hash, some t.txSeq⟩ := by
  have rows := transactions_indexChain coverage valid
  have cross := (List.pairwise_append.mp valid.ordered).2.2
  rw [mem_transactionsOf]
  constructor
  · rintro ⟨row, rowMem, inHashes, rfl⟩
    obtain ⟨c, cMem, cHash⟩ := (stale _).mp inHashes
    have identityMem := List.mem_map_of_mem (f := TransactionRow.identity) rowMem
    rw [rows, List.mem_append] at identityMem
    rcases identityMem with stored | indexed
    · obtain ⟨old, oldMem, same⟩ := List.mem_map.mp stored
      have blockHash : old.blockHash = row.blockHash := congrArg (fun i => i.2.2) same
      have foreign := (valid.untouched c (List.mem_append_right _ cMem)).blockHash old oldMem
      exact absurd (blockHash.trans cHash.symm) foreign
    · obtain ⟨b, bMem, txMem⟩ := List.mem_flatMap.mp indexed
      obtain ⟨t, tMem, same⟩ := List.mem_map.mp txMem
      simp only [TransactionRow.identity, Prod.mk.injEq] at same
      have bHash : b.hash = c.hash := by
        rw [← (valid.wellFormed b bMem).blockHash t tMem, same.2.2, cHash]
      rcases List.mem_append.mp bMem with bKept | bDropped
      · exact absurd bHash (cross b bKept c cMem).hash_ne
      · exact ⟨b, bDropped, t, tMem, by rw [TransactionRow.txKey, same.1, same.2.1]⟩
  · rintro ⟨b, bMem, t, tMem, rfl⟩
    have chainMem : b ∈ kept ++ dropped := List.mem_append_right _ bMem
    have identityMem : (t.hash, some t.txSeq, t.blockHash) ∈
        (indexChain coverage store (kept ++ dropped) .transactions).rows.map
          TransactionRow.identity := by
      rw [rows]
      exact List.mem_append_right _
        (List.mem_flatMap.mpr ⟨b, chainMem, List.mem_map_of_mem tMem⟩)
    obtain ⟨row, rowMem, same⟩ := List.mem_map.mp identityMem
    simp only [TransactionRow.identity, Prod.mk.injEq] at same
    refine ⟨row, rowMem, (stale _).mpr ⟨b, bMem, ?_⟩, ?_⟩
    · rw [same.2.2, (valid.wellFormed b chainMem).blockHash t tMem]
    · rw [TransactionRow.txKey, same.1, same.2.1]

/-- Rolling back the blocks after some point of an indexed chain leaves what
indexing the blocks up to that point wrote. -/
theorem rollBackBlocks_indexChain {kept dropped : List IndexedBlock}
    (valid : ValidChain store (kept ++ dropped)) {hashes : List BlockHash}
    (stale : ∀ hash, hash ∈ hashes ↔ ∃ b ∈ dropped, b.hash = hash) :
    (rollBackBlocks (indexChain coverage store (kept ++ dropped)) hashes).1 =
      indexChain coverage store kept := by
  rw [rollBackBlocks_fst]
  generalize keysEq : transactionsOf (indexChain coverage store (kept ++ dropped)) hashes = keys
  have mem_keys : ∀ key, key ∈ keys ↔
      ∃ b ∈ dropped, ∃ t ∈ b.txs, key = ⟨t.hash, some t.txSeq⟩ := fun key =>
    keysEq ▸ mem_transactionsOf_indexChain valid stale
  have owned : ∀ (table : CrawlTable) (key : table.Key),
      deletesOwned hashes keys table key = true ↔ ∃ b ∈ dropped, b.Owns (table.owner key) := by
    intro table key
    unfold deletesOwned
    cases table.owner key with
    | block hash => simp [stale, IndexedBlock.Owns, eq_comm]
    | transaction hash =>
        simp only [decide_eq_true_eq, List.mem_map, mem_keys, IndexedBlock.Owns]
        constructor
        · rintro ⟨_, ⟨b, bMem, t, tMem, rfl⟩, rfl⟩
          exact ⟨b, bMem, t, tMem, rfl⟩
        · rintro ⟨b, bMem, t, tMem, rfl⟩
          exact ⟨_, ⟨b, bMem, t, tMem, rfl⟩, rfl⟩
    | position txSeq =>
        simp only [decide_eq_true_eq, List.mem_map, mem_keys, IndexedBlock.Owns]
        constructor
        · rintro ⟨_, ⟨b, bMem, t, tMem, rfl⟩, same⟩
          exact ⟨b, bMem, t, tMem, Option.some.inj same⟩
        · rintro ⟨b, bMem, t, tMem, rfl⟩
          exact ⟨_, ⟨b, bMem, t, tMem, rfl⟩, rfl⟩
  have split : indexChain coverage store (kept ++ dropped) =
      indexChain coverage (indexChain coverage store kept) dropped := List.foldl_append
  have rest : ValidChain (indexChain coverage store kept) dropped := valid.right
  rw [split, delete_indexChain rest fun b bMem table key owns =>
    (owned table key).mpr ⟨b, bMem, owns⟩]
  apply TableFamily.delete_eq_self
  intro table row rowMem
  rw [Bool.eq_false_iff, Ne, owned]
  rintro ⟨b, bMem, owns⟩
  exact (rest.untouched b bMem).owners table row rowMem owns

end Index

end Odatano
