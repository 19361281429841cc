import Mathlib.Data.List.Perm.Basic
import Odatano.StoredChain

/-!
# The rows of an indexed chain

When no two rows of a block share a key, indexing a chain appends the rows of
its blocks to every table.  The rows that belong to a transaction are then the
ones its block wrote for it.
-/

namespace Odatano

/-- Selecting one key from rows listed key by key. -/
theorem filter_flatMap_of_key {α β κ : Type*} [DecidableEq κ] {list : List α} {rows : α → List β}
    {key : α → κ} {keyOf : β → κ} (owned : ∀ a ∈ list, ∀ row ∈ rows a, keyOf row = key a)
    (nodup : (list.map key).Nodup) {a : α} (aMem : a ∈ list) :
    ((list.flatMap rows).filter fun row => decide (keyOf row = key a)) = rows a := by
  induction list with
  | nil => cases aMem
  | cons first rest ih =>
      rw [List.map_cons, List.nodup_cons] at nodup
      rw [List.flatMap_cons, List.filter_append]
      have restOwned : ∀ other ∈ rest, ∀ row ∈ rows other, keyOf row = key other :=
        fun other otherMem => owned other (List.mem_cons_of_mem _ otherMem)
      by_cases isFirst : key a = key first
      · have same : a = first := by
          rcases List.mem_cons.mp aMem with same | later
          · exact same
          · exact absurd (isFirst ▸ List.mem_map_of_mem later) nodup.1
        subst same
        have all : (rows a).filter (fun row => decide (keyOf row = key a)) = rows a :=
          List.filter_eq_self.mpr fun row rowMem =>
            decide_eq_true (owned a List.mem_cons_self row rowMem)
        have none : (rest.flatMap rows).filter (fun row => decide (keyOf row = key a)) = [] := by
          refine List.filter_eq_nil_iff.mpr fun row rowMem => ?_
          obtain ⟨other, otherMem, rowMem⟩ := List.mem_flatMap.mp rowMem
          rw [restOwned other otherMem row rowMem, decide_eq_true_eq]
          exact fun same => nodup.1 (same ▸ List.mem_map_of_mem otherMem)
        rw [all, none, List.append_nil]
      · have none : (rows first).filter (fun row => decide (keyOf row = key a)) = [] := by
          refine List.filter_eq_nil_iff.mpr fun row rowMem => ?_
          rw [owned first List.mem_cons_self row rowMem, decide_eq_true_eq]
          exact fun same => isFirst same.symm
        have later : a ∈ rest :=
          (List.mem_cons.mp aMem).resolve_left fun same => isFirst (congrArg key same)
        rw [none, List.nil_append]
        exact ih restOwned nodup.2 later

/-! ## Rows of one transaction -/

/-- What the rows of a transaction in a table belong to. -/
def CrawlTable.ownerOf (table : CrawlTable) (t : Transaction) : RowOwner :=
  match table with
  | .transactionInputs | .transactionInputAssets | .transactionOutputs
  | .transactionOutputAssets => .position t.txSeq
  | _ => .transaction t.hash

section Transactions

variable [Bech32] (coverage : CrawlCoverage)

/-- The rows of one transaction of a block. -/
def rowsOfTransaction (block : BlockData) (t : Transaction) (table : CrawlTable) :
    List table.Row :=
  transactionBatch coverage [t] table ++
    assetHistoryBatch (if coverage.assetHistory then buildAssetHistoryRows block [t] else []) table

/-- The rows of a block are those of its transactions, the block row apart. -/
theorem blockRows_eq_flatMap (store : CrawlStore) (b : IndexedBlock) {table : CrawlTable}
    (isChild : table ≠ .blocks) :
    blockRows coverage store b table =
      (prepareBlock store b.ledger b.block b.txs).txs.flatMap fun t =>
        rowsOfTransaction coverage (prepareBlock store b.ledger b.block b.txs).block t table := by
  simp only [blockRows]
  generalize prepareBlock store b.ledger b.block b.txs = prepared
  have batches : ∀ txs : List Transaction,
      transactionBatch coverage txs table ++ assetHistoryBatch
          (if coverage.assetHistory then buildAssetHistoryRows prepared.block txs else []) table =
        txs.flatMap fun t => rowsOfTransaction coverage prepared.block t table := by
    intro txs
    cases table with
    | blocks => exact absurd rfl isChild
    | transactions =>
        simp [transactionBatch, assetHistoryBatch, rowsOfTransaction, List.map_eq_flatMap]
    | transactionCertificates =>
        cases on : coverage.certificates <;>
          simp [transactionBatch, assetHistoryBatch, rowsOfTransaction, on]
    | transactionWithdrawals =>
        cases on : coverage.certificates <;>
          simp [transactionBatch, assetHistoryBatch, rowsOfTransaction, on]
    | assetHistory =>
        cases on : coverage.assetHistory <;>
          simp [transactionBatch, assetHistoryBatch, rowsOfTransaction, buildAssetHistoryRows, on]
    | _ => simp [transactionBatch, assetHistoryBatch, rowsOfTransaction]
  rw [← batches]
  cases table with
  | blocks => exact absurd rfl isChild
  | _ => rfl

variable {coverage}

/-- The rows of a transaction belong to it. -/
theorem owner_of_mem_rowsOfTransaction {block : BlockData} {t : Transaction}
    (labels : ∀ label ∈ t.metadata.getD [], label.txHash = t.hash) {table : CrawlTable}
    {row : table.Row} (rowMem : row ∈ rowsOfTransaction coverage block t table) :
    table.owner (table.key row) = table.ownerOf t := by
  have named : ∀ u ∈ [t], ∀ label ∈ u.metadata.getD [], label.txHash = u.hash := by
    intro u uMem
    cases List.mem_singleton.mp uMem
    exact labels
  rcases List.mem_append.mp rowMem with written | minted
  · cases table with
    | blocks => cases written
    | transactionInputs =>
        obtain ⟨u, uMem, rowMem⟩ := List.mem_flatMap.mp written
        cases List.mem_singleton.mp uMem
        exact congrArg RowOwner.position (txSeq_of_mem_inputs rowMem)
    | transactionInputAssets =>
        obtain ⟨u, uMem, rowMem⟩ := List.mem_flatMap.mp written
        cases List.mem_singleton.mp uMem
        exact congrArg RowOwner.position (txSeq_of_mem_inputAssets rowMem)
    | transactionOutputs =>
        obtain ⟨u, uMem, rowMem⟩ := List.mem_flatMap.mp written
        cases List.mem_singleton.mp uMem
        exact congrArg RowOwner.position (txSeq_of_mem_outputs rowMem)
    | transactionOutputAssets =>
        obtain ⟨u, uMem, rowMem⟩ := List.mem_flatMap.mp written
        cases List.mem_singleton.mp uMem
        exact congrArg RowOwner.position (txSeq_of_mem_outputAssets rowMem)
    | _ =>
        obtain ⟨u, uMem, owner | owner⟩ := owner_of_mem_transactionBatch named written
        · cases List.mem_singleton.mp uMem
          exact owner
        · cases owner
  · obtain ⟨u, uMem, owner⟩ := owner_of_mem_assetHistoryBatch minted
    cases List.mem_singleton.mp uMem
    cases table with
    | assetHistory => exact owner
    | _ => cases minted

end Transactions

/-! ## Distinct keys -/

/-- No two lines, labels or entries of a transaction take one key. -/
structure Transaction.DistinctKeys (t : Transaction) : Prop where
  inputUnits : ∀ i ∈ t.inputs, (i.amount.map Amount.unit).Nodup
  outputs : (t.outputs.map TxOutputLine.outputIndex).Nodup
  labels : ((mapTransactionMetadata (t.metadata.getD [])).map TransactionMetadataRow.id).Nodup
  certificates : ((t.certificates.getD []).map fun c => (c.certIndex, c.kind)).Nodup
  withdrawals : ((t.withdrawals.getD []).map TxWithdrawal.stakeAddress).Nodup
  redeemers : ((t.redeemers.getD []).map fun r => (r.purpose, r.index)).Nodup
  datums : ((t.datums.getD []).map TxDatum.hash).Nodup

theorem zipIdx_snd_nodup {α : Type*} (list : List α) : (list.zipIdx.map Prod.snd).Nodup := by
  rw [List.zipIdx_map_snd]
  exact List.nodup_range'

/-- The asset rows of numbered lines have distinct keys. -/
theorem nodup_lineAssets {α : Type*} {lines : List α} (txSeq : Nat) (lineIndex : α → Nat)
    (amount : α → List Amount) (indexes : (lines.map lineIndex).Nodup)
    (units : ∀ line ∈ lines, ((amount line).map Amount.unit).Nodup) :
    ((lines.flatMap fun line => lineAssets txSeq (lineIndex line) (amount line)).map
      fun row => ((row.txSeq, row.lineIndex), row.unit)).Nodup := by
  rw [List.map_flatMap, List.nodup_flatMap]
  constructor
  · intro line lineMem
    rw [lineAssets, List.map_map]
    exact List.Nodup.of_map Prod.snd (by
      rw [List.map_map]
      exact units line lineMem)
  · refine (List.pairwise_map.mp indexes).imp fun {a b} different => ?_
    rintro key first second
    simp only [lineAssets, List.map_map, List.mem_map, Function.comp_apply] at first second
    obtain ⟨_, -, rfl⟩ := first
    obtain ⟨_, -, same⟩ := second
    simp only [Prod.mk.injEq, true_and] at same
    exact different same.1.symm

section Keys

variable [Bech32] {coverage : CrawlCoverage} {t : Transaction}

/-- The rows of a transaction have distinct keys. -/
theorem nodup_rowsOfTransaction (distinct : t.DistinctKeys) (block : BlockData)
    (table : CrawlTable) :
    ((rowsOfTransaction coverage block t table).map table.key).Nodup := by
  cases table with
  | blocks => exact List.nodup_nil
  | transactions => exact List.nodup_singleton _
  | transactionInputs =>
      simp only [rowsOfTransaction, transactionBatch, assetHistoryBatch, List.flatMap_cons,
        List.flatMap_nil, List.append_nil, mapTransactionInputs, List.mapIdx_eq_zipIdx_map,
        List.map_map]
      refine List.Nodup.of_map Prod.snd ?_
      rw [List.map_map]
      exact zipIdx_snd_nodup t.inputs
  | transactionInputAssets =>
      simp only [rowsOfTransaction, transactionBatch, assetHistoryBatch, List.flatMap_cons,
        List.flatMap_nil, List.append_nil, mapTransactionInputAssets, List.mapIdx_eq_zipIdx_map,
        ← List.flatMap_def]
      refine nodup_lineAssets t.txSeq Prod.snd (fun entry => entry.1.amount)
        (zipIdx_snd_nodup t.inputs) fun entry entryMem => ?_
      exact distinct.inputUnits entry.1 (List.fst_mem_of_mem_zipIdx entryMem)
  | transactionOutputs =>
      simp only [rowsOfTransaction, transactionBatch, assetHistoryBatch, List.flatMap_cons,
        List.flatMap_nil, List.append_nil, mapTransactionOutputs, List.map_map]
      refine List.Nodup.of_map Prod.snd ?_
      rw [List.map_map]
      exact distinct.outputs
  | transactionOutputAssets =>
      simp only [rowsOfTransaction, transactionBatch, assetHistoryBatch, List.flatMap_cons,
        List.flatMap_nil, List.append_nil, mapTransactionOutputAssets]
      exact nodup_lineAssets t.txSeq TxOutputLine.outputIndex (fun o => o.amount.amounts)
        distinct.outputs fun o _ => o.amount.units_nodup
  | transactionMetadata =>
      simp only [rowsOfTransaction, transactionBatch, assetHistoryBatch, List.flatMap_cons,
        List.flatMap_nil, List.append_nil]
      refine List.Nodup.of_map Prod.fst ?_
      rw [List.map_map]
      exact distinct.labels
  | transactionCertificates =>
      simp only [rowsOfTransaction, transactionBatch, assetHistoryBatch, List.append_nil]
      split
      · simp only [List.flatMap_cons, List.flatMap_nil, List.append_nil,
          mapTransactionCertificates, List.map_map]
        refine List.Nodup.of_map Prod.snd ?_
        rw [List.map_map]
        exact distinct.certificates
      · exact List.nodup_nil
  | transactionWithdrawals =>
      simp only [rowsOfTransaction, transactionBatch, assetHistoryBatch, List.append_nil]
      split
      · simp only [List.flatMap_cons, List.flatMap_nil, List.append_nil,
          mapTransactionWithdrawals, List.map_map]
        refine List.Nodup.of_map Prod.snd ?_
        rw [List.map_map]
        exact distinct.withdrawals.sublist (List.filter_sublist.map _)
      · exact List.nodup_nil
  | transactionRedeemers =>
      simp only [rowsOfTransaction, transactionBatch, assetHistoryBatch, List.flatMap_cons,
        List.flatMap_nil, List.append_nil, mapTransactionRedeemers, List.map_map]
      refine List.Nodup.of_map Prod.snd ?_
      rw [List.map_map]
      exact distinct.redeemers
  | transactionDatums =>
      simp only [rowsOfTransaction, transactionBatch, assetHistoryBatch, List.flatMap_cons,
        List.flatMap_nil, List.append_nil, mapTransactionDatums, List.map_map]
      refine List.Nodup.of_map Prod.snd ?_
      rw [List.map_map]
      exact distinct.datums
  | assetHistory =>
      simp only [rowsOfTransaction, transactionBatch, assetHistoryBatch, List.nil_append]
      split
      · simp only [buildAssetHistoryRows, List.flatMap_cons, List.flatMap_nil, List.append_nil]
        cases mintDelta t with
        | none => exact List.nodup_nil
        | some net =>
            refine List.Nodup.of_map Prod.fst ?_
            rw [List.map_map, List.map_map]
            exact (OrderedMap.keys_nodup net).sublist (List.filter_sublist.map _)
      · exact List.nodup_nil

end Keys

/-- Transactions with their own hashes and positions own their rows alone. -/
theorem nodup_ownerOf {txs : List Transaction} (hashes : (txs.map Transaction.hash).Nodup)
    (seqs : (txs.map Transaction.txSeq).Nodup) (table : CrawlTable) :
    (txs.map table.ownerOf).Nodup := by
  have byHash : (txs.map fun t => RowOwner.transaction t.hash).Nodup :=
    List.pairwise_map.mpr ((List.pairwise_map.mp hashes).imp fun different same =>
      different (RowOwner.transaction.inj same))
  have bySeq : (txs.map fun t => RowOwner.position t.txSeq).Nodup :=
    List.pairwise_map.mpr ((List.pairwise_map.mp seqs).imp fun different same =>
      different (RowOwner.position.inj same))
  cases table with
  | transactionInputs | transactionInputAssets | transactionOutputs
  | transactionOutputAssets => exact bySeq
  | _ => exact byHash

section Prepared

variable {store : CrawlStore} {b : IndexedBlock}

/-- Distinct indexes in one slot are distinct positions. -/
theorem txSeqs_nodup (wellFormed : b.WellFormed) (indexes : (b.txs.map Transaction.index).Nodup) :
    (b.txs.map Transaction.txSeq).Nodup := by
  refine List.Nodup.of_map (fun txSeq => txSeq % TX_SEQ_SLOT_FACTOR) ?_
  rw [List.map_map]
  have same : b.txs.map ((fun txSeq => txSeq % TX_SEQ_SLOT_FACTOR) ∘ Transaction.txSeq) =
      b.txs.map Transaction.index :=
    List.map_congr_left fun t tMem => txSeqOf_mod (wellFormed.index_lt t tMem)
  rw [same]
  exact indexes

/-- The prepared transactions of a block own their rows alone. -/
theorem nodup_ownerOf_prepared (wellFormed : b.WellFormed)
    (indexes : (b.txs.map Transaction.index).Nodup) (table : CrawlTable) :
    ((prepareBlock store b.ledger b.block b.txs).txs.map table.ownerOf).Nodup := by
  have hashes := map_prepareBlock_txs Transaction.hash (fun _ _ _ => rfl) store b.ledger
    b.block b.txs
  have seqs := map_prepareBlock_txs Transaction.txSeq (fun _ _ _ => rfl) store b.ledger
    b.block b.txs
  exact nodup_ownerOf (hashes ▸ wellFormed.hashes_nodup) (seqs ▸ txSeqs_nodup wellFormed indexes)
    table

/-- Preparing a transaction keeps whom its metadata names. -/
theorem labels_prepared (wellFormed : b.WellFormed) {t : Transaction}
    (tMem : t ∈ (prepareBlock store b.ledger b.block b.txs).txs) :
    ∀ label ∈ t.metadata.getD [], label.txHash = t.hash := by
  obtain ⟨prepare, same, changes⟩ := prepareBlock_txs store b.ledger b.block b.txs
  rw [same] at tMem
  obtain ⟨original, originalMem, rfl⟩ := List.mem_map.mp tMem
  obtain ⟨inputs, fee, prepared⟩ := changes original
  rw [prepared]
  exact wellFormed.labels original originalMem

end Prepared

/-! ## Rows of a chain -/

section Chain

variable [Bech32] (coverage : CrawlCoverage)

/-- No two rows of a block share a key. -/
def Keyed (store : CrawlStore) (b : IndexedBlock) : Prop :=
  ∀ table : CrawlTable, ((blockRows coverage store b table).map table.key).Nodup

/-- No two rows of a block of the chain share a key, whenever it is indexed. -/
def KeyedChain : CrawlStore → List IndexedBlock → Prop
  | _, [] => True
  | store, b :: rest => Keyed coverage store b ∧ KeyedChain (indexBlock coverage store b) rest

/-- The rows of the blocks of a chain. -/
def chainRows : CrawlStore → List IndexedBlock → (table : CrawlTable) → List table.Row
  | _, [], _ => []
  | store, b :: rest, table =>
      blockRows coverage store b table ++ chainRows (indexBlock coverage store b) rest table

variable {coverage} {store : CrawlStore} {b : IndexedBlock} {rest : List IndexedBlock}

/-- Indexing a block appends its rows. -/
theorem rows_indexBlock (wellFormed : b.WellFormed) (untouched : Untouched store b)
    (keyed : Keyed coverage store b) (table : CrawlTable) :
    (indexBlock coverage store b table).rows =
      (store table).rows ++ blockRows coverage store b table := by
  rw [indexBlock_eq_write wellFormed untouched]
  refine Table.rows_upsertAll_of_new _ (keyed table) fun row rowMem stored => ?_
  obtain ⟨old, oldMem, same⟩ := List.mem_map.mp stored
  have owns := owns_blockRows wellFormed table row rowMem
  rw [← same] at owns
  exact untouched.owners table old oldMem owns

/-- Indexing a chain appends the rows of its blocks. -/
theorem rows_indexChain {chain : List IndexedBlock} (valid : ValidChain store chain)
    (keyed : KeyedChain coverage store chain) (table : CrawlTable) :
    (indexChain coverage store chain table).rows =
      (store table).rows ++ chainRows coverage store chain table := by
  induction chain generalizing store with
  | nil => exact (List.append_nil _).symm
  | cons b rest ih =>
      change (indexChain coverage (indexBlock coverage store b) rest table).rows = _
      rw [ih valid.tail keyed.2, rows_indexBlock valid.head.1 valid.head.2 keyed.1,
        List.append_assoc, chainRows]

/-- A row of a chain is one of a block of it. -/
theorem owner_of_mem_chainRows {chain : List IndexedBlock}
    (wellFormed : ∀ b ∈ chain, b.WellFormed) {table : CrawlTable} {row : table.Row}
    (rowMem : row ∈ chainRows coverage store chain table) :
    ∃ b ∈ chain, b.Owns (table.owner (table.key row)) := by
  induction chain generalizing store with
  | nil => cases rowMem
  | cons b rest ih =>
      rcases List.mem_append.mp rowMem with here | later
      · exact ⟨b, List.mem_cons_self,
          owns_blockRows (wellFormed b List.mem_cons_self) table row here⟩
      · obtain ⟨c, cMem, owns⟩ := ih (fun c cMem => wellFormed c (List.mem_cons_of_mem _ cMem)) later
        exact ⟨c, List.mem_cons_of_mem _ cMem, owns⟩

/-- What belongs to the first block of a chain is one of its rows. -/
theorem filter_indexChain (valid : ValidChain store (b :: rest))
    (keyed : KeyedChain coverage store (b :: rest)) {table : CrawlTable}
    {selected : table.Row → Bool}
    (owned : ∀ row, selected row = true → b.Owns (table.owner (table.key row))) :
    (indexChain coverage store (b :: rest) table).rows.filter selected =
      (blockRows coverage store b table).filter selected := by
  obtain ⟨wellFormed, untouched⟩ := valid.head
  have before : (store table).rows.filter selected = [] :=
    List.filter_eq_nil_iff.mpr fun row rowMem chosen =>
      untouched.owners table row rowMem (owned row chosen)
  have after : (chainRows coverage (indexBlock coverage store b) rest table).filter selected = [] := by
    refine List.filter_eq_nil_iff.mpr fun row rowMem chosen => ?_
    obtain ⟨c, cMem, owns⟩ := owner_of_mem_chainRows
      (fun c cMem => valid.wellFormed c (List.mem_cons_of_mem _ cMem)) rowMem
    exact (List.rel_of_pairwise_cons valid.ordered cMem).not_owns wellFormed
      (valid.wellFormed c (List.mem_cons_of_mem _ cMem)) (owned row chosen) owns
  rw [rows_indexChain valid keyed, chainRows, List.filter_append, List.filter_append, before, after,
    List.nil_append, List.append_nil]

/-- Transactions without a shared key make a block without one. -/
theorem keyed_of_distinctKeys (wellFormed : b.WellFormed)
    (indexes : (b.txs.map Transaction.index).Nodup)
    (distinct : ∀ t ∈ (prepareBlock store b.ledger b.block b.txs).txs, t.DistinctKeys) :
    Keyed coverage store b := by
  intro table
  by_cases isBlocks : table = .blocks
  · subst isBlocks
    simp only [blockRows, blockBatch, transactionBatch, assetHistoryBatch, List.append_nil]
    exact List.nodup_singleton _
  · rw [blockRows_eq_flatMap coverage store b isBlocks, List.map_flatMap, List.nodup_flatMap]
    refine ⟨fun t tMem => nodup_rowsOfTransaction (distinct t tMem) _ table, ?_⟩
    have owners : ((prepareBlock store b.ledger b.block b.txs).txs.map table.ownerOf).Nodup :=
      nodup_ownerOf_prepared wellFormed indexes table
    have owners := List.pairwise_map.mp owners
    refine owners.imp_of_mem fun {t u} tMem uMem different => ?_
    intro key first second
    obtain ⟨row, rowMem, rfl⟩ := List.mem_map.mp first
    obtain ⟨other, otherMem, same⟩ := List.mem_map.mp second
    have isFirst := owner_of_mem_rowsOfTransaction (labels_prepared wellFormed tMem) rowMem
    have isSecond := owner_of_mem_rowsOfTransaction (labels_prepared wellFormed uMem) otherMem
    rw [same] at isSecond
    exact different (isFirst.symm.trans isSecond)

/-- The rows that belong to a transaction of the first block of a chain. -/
theorem filter_ownerOf (valid : ValidChain store (b :: rest))
    (keyed : KeyedChain coverage store (b :: rest))
    (indexes : (b.txs.map Transaction.index).Nodup) {t : Transaction}
    (tMem : t ∈ (prepareBlock store b.ledger b.block b.txs).txs) {table : CrawlTable}
    (isChild : table ≠ .blocks) :
    ((indexChain coverage store (b :: rest) table).rows.filter fun row =>
        decide (table.owner (table.key row) = table.ownerOf t)) =
      rowsOfTransaction coverage (prepareBlock store b.ledger b.block b.txs).block t table := by
  have hashes := map_prepareBlock_txs Transaction.hash (fun _ _ _ => rfl) store b.ledger
    b.block b.txs
  have seqs := map_prepareBlock_txs Transaction.txSeq (fun _ _ _ => rfl) store b.ledger
    b.block b.txs
  have owns : b.Owns (table.ownerOf t) := by
    have byHash : b.Owns (.transaction t.hash) :=
      show t.hash ∈ b.txs.map Transaction.hash from hashes ▸ List.mem_map_of_mem tMem
    have bySeq : b.Owns (.position t.txSeq) :=
      show t.txSeq ∈ b.txs.map Transaction.txSeq from seqs ▸ List.mem_map_of_mem tMem
    cases table with
    | transactionInputs | transactionInputAssets | transactionOutputs
    | transactionOutputAssets => exact bySeq
    | _ => exact byHash
  rw [filter_indexChain valid keyed fun row chosen => by
    rw [of_decide_eq_true chosen]
    exact owns, blockRows_eq_flatMap coverage store b isChild]
  refine filter_flatMap_of_key (fun u uMem row rowMem => ?_)
    (nodup_ownerOf_prepared valid.head.1 indexes table) tMem
  exact owner_of_mem_rowsOfTransaction (labels_prepared valid.head.1 uMem) rowMem

/-- The transactions stored under the first block of a chain. -/
theorem transactions_of_block (valid : ValidChain store (b :: rest))
    (keyed : KeyedChain coverage store (b :: rest)) :
    ((indexChain coverage store (b :: rest) .transactions).rows.filter fun row =>
        decide (row.blockHash = b.hash)) =
      (prepareBlock store b.ledger b.block b.txs).txs.map mapTransaction := by
  obtain ⟨wellFormed, untouched⟩ := valid.head
  have blockHashes := map_prepareBlock_txs Transaction.blockHash (fun _ _ _ => rfl) store b.ledger
    b.block b.txs
  have foreign : ∀ {rest : List IndexedBlock} {store : CrawlStore},
      (∀ c ∈ rest, c.WellFormed ∧ c.hash ≠ b.hash) →
        (chainRows coverage store rest .transactions).filter
          (fun row => decide (row.blockHash = b.hash)) = [] := by
    intro rest
    induction rest with
    | nil => exact fun _ => rfl
    | cons c rest ih =>
        intro store others
        obtain ⟨cWellFormed, different⟩ := others c List.mem_cons_self
        rw [chainRows, List.filter_append, ih fun d dMem => others d (List.mem_cons_of_mem _ dMem),
          List.append_nil]
        refine List.filter_eq_nil_iff.mpr fun row rowMem => ?_
        have identityMem := List.mem_map_of_mem (f := TransactionRow.identity) rowMem
        rw [transactionRows_identity] at identityMem
        obtain ⟨t, tMem, same⟩ := List.mem_map.mp identityMem
        have blockHash : t.blockHash = row.blockHash := congrArg (fun i => i.2.2) same
        rw [← blockHash, cWellFormed.blockHash t tMem]
        simpa using different
  have before : (store .transactions).rows.filter (fun row => decide (row.blockHash = b.hash)) = [] :=
    List.filter_eq_nil_iff.mpr fun row rowMem chosen =>
      untouched.blockHash row rowMem (of_decide_eq_true chosen)
  have after := @foreign rest (indexBlock coverage store b) fun c cMem =>
    ⟨valid.wellFormed c (List.mem_cons_of_mem _ cMem),
      (List.rel_of_pairwise_cons valid.ordered cMem).hash_ne.symm⟩
  have here : blockRows coverage store b .transactions =
      (prepareBlock store b.ledger b.block b.txs).txs.map mapTransaction := by
    simp only [blockRows, blockBatch, transactionBatch, assetHistoryBatch, List.nil_append,
      List.append_nil]
  rw [rows_indexChain valid keyed, chainRows, List.filter_append, List.filter_append, before, after,
    List.nil_append, List.append_nil, here]
  refine List.filter_eq_self.mpr fun row rowMem => ?_
  obtain ⟨t, tMem, rfl⟩ := List.mem_map.mp rowMem
  have named : t.blockHash ∈ b.txs.map Transaction.blockHash :=
    blockHashes ▸ List.mem_map_of_mem tMem
  obtain ⟨u, uMem, same⟩ := List.mem_map.mp named
  exact decide_eq_true (same.symm.trans (wellFormed.blockHash u uMem))

/-- The row of the first block of a chain. -/
theorem find?_block (valid : ValidChain store (b :: rest))
    (keyed : KeyedChain coverage store (b :: rest)) :
    (indexChain coverage store (b :: rest) .blocks).find? b.hash =
      some (mapBlock (prepareBlock store b.ledger b.block b.txs).block b.epochData) := by
  obtain ⟨fees, block⟩ := prepareBlock_block store b.ledger b.block b.txs
  have rowMem : mapBlock (prepareBlock store b.ledger b.block b.txs).block b.epochData ∈
      (indexChain coverage store (b :: rest) .blocks).rows := by
    rw [rows_indexChain valid keyed]
    refine List.mem_append_right _ (List.mem_append_left _ ?_)
    simp only [blockRows, blockBatch, transactionBatch, assetHistoryBatch, List.append_nil]
    exact List.mem_singleton_self _
  have found := Table.find?_of_mem rowMem
  rw [block] at found ⊢
  exact found

end Chain

end Odatano
