import Odatano.Binary64Numbers
import Odatano.RollBackBlocks

/-!
# Transaction sequence numbers

`txSeqOf` orders the chain, and `removeStaleTxSeqs` of `srv/blockchain/cardano-indexer.ts` drops
the transactions of another fork that hold a block's numbers.
-/

namespace Odatano

/-! ## The number -/

/-- `txSeqOf` on JavaScript numbers: the product is rounded, and then the sum. -/
def txSeqNumber (slot txIndex : Nat) : Option Binary64 :=
  (Binary64.nearest (slot * TX_SEQ_SLOT_FACTOR) 1).integer?.map fun product =>
    Binary64.nearest (product.toNat + txIndex) 1

/-- A slot and an index whose number is exact. -/
structure ChainPosition where
  slot : Nat
  index : Nat
  index_lt : index < TX_SEQ_SLOT_FACTOR
  exact : txSeqOf slot index < 2 ^ 53

namespace ChainPosition

def txSeq (p : ChainPosition) : Nat := txSeqOf p.slot p.index

theorem txSeqNumber_eq (p : ChainPosition) :
    txSeqNumber p.slot p.index = some (Binary64.ofInt p.txSeq) := by
  have sum := p.exact
  have product : p.slot * TX_SEQ_SLOT_FACTOR < 2 ^ 53 :=
    (Nat.le_add_right _ p.index).trans_lt sum
  rw [txSeqNumber, Binary64.nearest_natCast product, Binary64.integer?_ofInt, Option.map_some,
    Int.toNat_natCast]
  exact congrArg some (Binary64.nearest_natCast sum)

/-- Numbers are ordered by slot, and within a slot by index. -/
theorem txSeq_lt_iff (p q : ChainPosition) :
    p.txSeq < q.txSeq ↔ p.slot < q.slot ∨ p.slot = q.slot ∧ p.index < q.index := by
  have isIndex := p.index_lt
  have isOther := q.index_lt
  simp only [txSeq, txSeqOf, TX_SEQ_SLOT_FACTOR] at *
  omega

theorem txSeq_injective : Function.Injective txSeq := by
  intro p q same
  have slot : p.slot = q.slot := by
    calc
      p.slot = p.txSeq / TX_SEQ_SLOT_FACTOR := (txSeqOf_div p.index_lt).symm
      _ = q.txSeq / TX_SEQ_SLOT_FACTOR := by rw [same]
      _ = q.slot := txSeqOf_div q.index_lt
  have index : p.index = q.index := by
    calc
      p.index = p.txSeq % TX_SEQ_SLOT_FACTOR := (txSeqOf_mod p.index_lt).symm
      _ = q.txSeq % TX_SEQ_SLOT_FACTOR := by rw [same]
      _ = q.index := txSeqOf_mod q.index_lt
  cases p
  cases q
  simp_all only

end ChainPosition

/-! ## Rows of a transaction -/

/-- A row is keyed by the hash or by the number of a transaction. -/
def TransactionRow.Owns (row : TransactionRow) (owner : RowOwner) : Prop :=
  owner = .transaction row.hash ∨ ∃ txSeq, row.txSeq = some txSeq ∧ owner = .position txSeq

/-- What a deletion of transactions covers, read off the owner of a row. -/
theorem deletesTransaction_iff {hashes : List TxHash} {seqs : List Nat} {table : CrawlTable}
    (cascades : table ≠ .assetHistory) (key : table.Key) :
    deletesTransaction hashes seqs table key = true ↔
      (∃ hash ∈ hashes, table.owner key = .transaction hash) ∨
        ∃ txSeq ∈ seqs, table.owner key = .position txSeq := by
  cases table <;> simp [deletesTransaction, CrawlTable.owner] at cascades ⊢

/-! ## The block -/

/-- The transactions of one block, all of one slot. -/
structure SlotBlock where
  slot : Nat
  txs : List Transaction
  nonempty : txs ≠ []
  sameSlot : ∀ t ∈ txs, t.slot = slot
  index_lt : ∀ t ∈ txs, t.index < TX_SEQ_SLOT_FACTOR

namespace SlotBlock

variable (b : SlotBlock) (store : CrawlStore)

def hashes : List TxHash := b.txs.map Transaction.hash

def removeStale : CrawlStore := removeStaleTxSeqs store b.txs

/-- The bounds of the range that is read. -/
theorem exists_bounds : ∃ low high,
    (b.txs.map Transaction.txSeq).min? = some low ∧ (b.txs.map Transaction.txSeq).max? = some high ∧
      (∀ t ∈ b.txs, low ≤ t.txSeq ∧ t.txSeq ≤ high) ∧
      low / TX_SEQ_SLOT_FACTOR = b.slot ∧ high / TX_SEQ_SLOT_FACTOR = b.slot := by
  have some_seq : b.txs.map Transaction.txSeq ≠ [] := mt List.map_eq_nil_iff.mp b.nonempty
  have ofSlot : ∀ seq ∈ b.txs.map Transaction.txSeq, seq / TX_SEQ_SLOT_FACTOR = b.slot := by
    intro seq member
    obtain ⟨t, tMem, rfl⟩ := List.mem_map.mp member
    rw [Transaction.txSeq, txSeqOf_div (b.index_lt t tMem), b.sameSlot t tMem]
  obtain ⟨low, isLow⟩ := Option.isSome_iff_exists.mp (List.isSome_min?_of_ne_nil some_seq)
  obtain ⟨high, isHigh⟩ := Option.isSome_iff_exists.mp (List.isSome_max?_of_ne_nil some_seq)
  obtain ⟨lowMem, least⟩ := List.min?_eq_some_iff.mp isLow
  obtain ⟨highMem, most⟩ := List.max?_eq_some_iff.mp isHigh
  exact ⟨low, high, isLow, isHigh,
    fun t tMem => ⟨least _ (List.mem_map_of_mem tMem), most _ (List.mem_map_of_mem tMem)⟩,
    ofSlot low lowMem, ofSlot high highMem⟩

/-- The dropped transactions are stored, are not of the block, and hold a number between two of
the block's. -/
theorem exists_range : ∃ low high,
    (∀ t ∈ b.txs, low ≤ t.txSeq ∧ t.txSeq ≤ high) ∧
    low / TX_SEQ_SLOT_FACTOR = b.slot ∧ high / TX_SEQ_SLOT_FACTOR = b.slot ∧
    ∀ key, key ∈ staleTxSeqs store b.txs ↔ ∃ row ∈ (store .transactions).rows, row.txKey = key ∧
      row.hash ∉ b.hashes ∧ ∃ txSeq, row.txSeq = some txSeq ∧ low ≤ txSeq ∧ txSeq ≤ high := by
  obtain ⟨low, high, isLow, isHigh, bounds, lowSlot, highSlot⟩ := b.exists_bounds
  refine ⟨low, high, bounds, lowSlot, highSlot, fun key => ?_⟩
  simp only [staleTxSeqs, isLow, isHigh, List.mem_map, List.mem_filter, Table.mem_select,
    Option.any_eq_true, decide_eq_true_eq, hashes]
  constructor
  · rintro ⟨row, ⟨⟨rowMem, txSeq, isSeq, inRange⟩, foreign⟩, isKey⟩
    exact ⟨row, rowMem, isKey, by simpa using foreign, txSeq, isSeq, inRange⟩
  · rintro ⟨row, rowMem, isKey, foreign, txSeq, isSeq, inRange⟩
    exact ⟨row, ⟨⟨rowMem, txSeq, isSeq, inRange⟩, by simpa using foreign⟩, isKey⟩

/-- A stored transaction that does not survive. -/
def Drops (row : TransactionRow) : Prop :=
  row ∈ (store .transactions).rows ∧ row ∉ (b.removeStale store .transactions).rows

variable {b store}

theorem mem_removeStale {table : CrawlTable} {row : table.Row} :
    row ∈ (b.removeStale store table).rows ↔ row ∈ (store table).rows ∧
      deletesTransaction ((staleTxSeqs store b.txs).map TxKey.hash)
        ((staleTxSeqs store b.txs).filterMap TxKey.txSeq) table (table.key row) = false := by
  rw [removeStale, removeStaleTxSeqs, deleteTransactionRows_eq, TableFamily.mem_delete]

/-- A stored transaction is dropped if its key is among the dropped ones. -/
theorem drops_iff {row : TransactionRow} (stored : row ∈ (store .transactions).rows) :
    b.Drops store row ↔ row.txKey ∈ staleTxSeqs store b.txs := by
  have isKey {key : TxKey} (member : key ∈ staleTxSeqs store b.txs) (same : key.hash = row.hash) :
      row.txKey = key := by
    obtain ⟨low, high, -, -, -, dropped⟩ := b.exists_range store
    obtain ⟨other, otherMem, rfl, -⟩ := (dropped key).mp member
    rw [Table.mem_rows_inj stored otherMem same.symm]
  rw [Drops, mem_removeStale, and_iff_right stored, not_and, Bool.not_eq_false]
  simp only [deletesTransaction, CrawlTable.key, decide_eq_true_eq, List.mem_map]
  constructor
  · intro covered
    obtain ⟨key, member, same⟩ := covered stored
    rw [isKey member same]
    exact member
  · intro member _
    exact ⟨row.txKey, member, rfl⟩

/-- A dropped transaction is of the block's slot and not of the block. -/
theorem Drops.ofSlot {row : TransactionRow} (drops : b.Drops store row) :
    row.hash ∉ b.hashes ∧
      ∃ index < TX_SEQ_SLOT_FACTOR, row.txSeq = some (txSeqOf b.slot index) := by
  obtain ⟨low, high, -, lowSlot, highSlot, dropped⟩ := b.exists_range store
  obtain ⟨other, otherMem, isKey, foreign, txSeq, isSeq, above, below⟩ :=
    (dropped row.txKey).mp ((drops_iff drops.1).mp drops)
  have same : other = row :=
    Table.mem_rows_inj otherMem drops.1 (congrArg TxKey.hash isKey)
  subst same
  have slot : txSeq / TX_SEQ_SLOT_FACTOR = b.slot := by
    refine Nat.le_antisymm ?_ ?_
    · exact (Nat.div_le_div_right below).trans highSlot.le
    · exact lowSlot.ge.trans (Nat.div_le_div_right above)
  refine ⟨foreign, txSeq % TX_SEQ_SLOT_FACTOR, Nat.mod_lt _ (by decide), ?_⟩
  rw [isSeq, ← slot, txSeqOf, Nat.div_add_mod']

theorem mem_stale_iff {key : TxKey} :
    key ∈ staleTxSeqs store b.txs ↔ ∃ row, b.Drops store row ∧ row.txKey = key := by
  constructor
  · intro member
    obtain ⟨low, high, -, -, -, dropped⟩ := b.exists_range store
    obtain ⟨row, stored, rfl, -⟩ := (dropped key).mp member
    exact ⟨row, (drops_iff stored).mpr member, rfl⟩
  · rintro ⟨row, drops, rfl⟩
    exact (drops_iff drops.1).mp drops

/-- A row is deleted exactly with a transaction that owns it. -/
theorem notMem_removeStale_iff {table : CrawlTable} (cascades : table ≠ .assetHistory)
    {child : table.Row} (stored : child ∈ (store table).rows) :
    child ∉ (b.removeStale store table).rows ↔
      ∃ row, b.Drops store row ∧ row.Owns (table.owner (table.key child)) := by
  rw [mem_removeStale, and_iff_right stored, Bool.not_eq_false, deletesTransaction_iff cascades]
  simp only [List.mem_map, List.mem_filterMap, mem_stale_iff, TransactionRow.Owns]
  constructor
  · rintro (⟨hash, ⟨key, ⟨row, drops, rfl⟩, rfl⟩, isOwner⟩ |
      ⟨txSeq, ⟨key, ⟨row, drops, rfl⟩, isSeq⟩, isOwner⟩)
    · exact ⟨row, drops, Or.inl isOwner⟩
    · exact ⟨row, drops, Or.inr ⟨txSeq, isSeq, isOwner⟩⟩
  · rintro ⟨row, drops, isOwner | ⟨txSeq, isSeq, isOwner⟩⟩
    · exact Or.inl ⟨row.hash, ⟨row.txKey, ⟨row, drops, rfl⟩, rfl⟩, isOwner⟩
    · exact Or.inr ⟨txSeq, ⟨row.txKey, ⟨row, drops, rfl⟩, isSeq⟩, isOwner⟩

theorem mem_removeStale_assetHistory {child : AssetHistoryRow}
    (stored : child ∈ (store .assetHistory).rows) :
    child ∈ (b.removeStale store .assetHistory).rows :=
  mem_removeStale.mpr ⟨stored, rfl⟩

/-- A number in the block's range is held by a dropped transaction or by one of the block's. -/
theorem drops_of_txSeq {row : TransactionRow} (stored : row ∈ (store .transactions).rows)
    (foreign : row.hash ∉ b.hashes) {txSeq : Nat} (isSeq : row.txSeq = some txSeq)
    (shared : (∃ t ∈ b.txs, t.txSeq = txSeq) ∨
      ∃ other, b.Drops store other ∧ other.txSeq = some txSeq) : b.Drops store row := by
  obtain ⟨low, high, bounds, -, -, dropped⟩ := b.exists_range store
  refine (drops_iff stored).mpr ((dropped row.txKey).mpr ⟨row, stored, rfl, foreign, txSeq, isSeq, ?_⟩)
  rcases shared with ⟨t, tMem, rfl⟩ | ⟨other, drops, isOther⟩
  · exact bounds t tMem
  · obtain ⟨copy, copyMem, isKey, -, number, isNumber, inRange⟩ :=
      (dropped other.txKey).mp ((drops_iff drops.1).mp drops)
    have same : copy = other := Table.mem_rows_inj copyMem drops.1 (congrArg TxKey.hash isKey)
    subst same
    rw [isOther, Option.some.injEq] at isNumber
    subst isNumber
    exact inRange

/-- What the removal does to the tables. -/
structure StaleRemoved (b : SlotBlock) (store : CrawlStore) : Prop where
  /-- Only transactions of the slot go, and none of the block's. -/
  ofSlot : ∀ row, b.Drops store row → row.hash ∉ b.hashes ∧
    ∃ index < TX_SEQ_SLOT_FACTOR, row.txSeq = some (txSeqOf b.slot index)
  /-- With a transaction go its rows in the tables that cascade. -/
  withRows : ∀ row, b.Drops store row → ∀ table, table ≠ .assetHistory →
    ∀ child ∈ (b.removeStale store table).rows, ¬row.Owns (table.owner (table.key child))
  /-- A transaction outside the block that stays keeps its rows. -/
  spares : ∀ row ∈ (b.removeStale store .transactions).rows, row.hash ∉ b.hashes →
    ∀ table, ∀ child ∈ (store table).rows, row.Owns (table.owner (table.key child)) →
      child ∈ (b.removeStale store table).rows
  /-- A transaction of the block loses at most rows under the number of a dropped one. -/
  own : ∀ row ∈ (b.removeStale store .transactions).rows, row.hash ∈ b.hashes →
    ∀ table, ∀ child ∈ (store table).rows, row.Owns (table.owner (table.key child)) →
      child ∈ (b.removeStale store table).rows ∨
        ∃ other, b.Drops store other ∧ other.txSeq = row.txSeq
  /-- The block's numbers are free. -/
  free : ∀ row ∈ (b.removeStale store .transactions).rows, row.hash ∉ b.hashes →
    ∀ t ∈ b.txs, row.txSeq ≠ some t.txSeq

/-- A row of a staying transaction that goes is shared with a dropped one. -/
theorem shared_of_lost {row : TransactionRow}
    (stays : row ∈ (b.removeStale store .transactions).rows) {table : CrawlTable}
    {child : table.Row} (stored : child ∈ (store table).rows)
    (owns : row.Owns (table.owner (table.key child)))
    (lost : child ∉ (b.removeStale store table).rows) :
    ∃ txSeq, row.txSeq = some txSeq ∧ ∃ other, b.Drops store other ∧ other.txSeq = some txSeq := by
  have cascades : table ≠ .assetHistory := by
    rintro rfl
    exact lost (mem_removeStale_assetHistory stored)
  obtain ⟨other, drops, isOther⟩ := (notMem_removeStale_iff cascades stored).mp lost
  rcases owns with isRow | ⟨txSeq, isSeq, isRow⟩
  · rcases isOther with isOther | ⟨number, -, isOther⟩
    · -- the hash is the key of its table, so the row itself would be dropped
      rw [isRow, RowOwner.transaction.injEq] at isOther
      have same : row = other :=
        Table.mem_rows_inj (mem_removeStale.mp stays).1 drops.1 isOther
      exact absurd stays (same ▸ drops.2)
    · rw [isRow] at isOther
      cases isOther
  · rcases isOther with isOther | ⟨number, isNumber, isOther⟩
    · rw [isRow] at isOther
      cases isOther
    · rw [isRow, RowOwner.position.injEq] at isOther
      exact ⟨txSeq, isSeq, other, drops, isOther ▸ isNumber⟩

theorem staleRemoved (b : SlotBlock) (store : CrawlStore) : b.StaleRemoved store where
  ofSlot _ drops := drops.ofSlot
  withRows row drops table cascades child remains owns :=
    (notMem_removeStale_iff cascades (mem_removeStale.mp remains).1).mpr ⟨row, drops, owns⟩ remains
  spares row stays foreign table child stored owns := by
    by_contra lost
    obtain ⟨txSeq, isSeq, shared⟩ := shared_of_lost stays stored owns lost
    have drops := drops_of_txSeq (mem_removeStale.mp stays).1 foreign isSeq (Or.inr shared)
    exact drops.2 stays
  own row stays _ table child stored owns := by
    by_cases remains : child ∈ (b.removeStale store table).rows
    · exact Or.inl remains
    · obtain ⟨txSeq, isSeq, other, drops, isOther⟩ := shared_of_lost stays stored owns remains
      exact Or.inr ⟨other, drops, isOther.trans isSeq.symm⟩
  free row stays foreign t tMem isSeq := by
    have drops := drops_of_txSeq (mem_removeStale.mp stays).1 foreign isSeq (Or.inl ⟨t, tMem, rfl⟩)
    exact drops.2 stays

end SlotBlock

/-- Sequence numbers order the chain, and a block's numbers are freed by dropping exactly the
transactions of its slot that hold one in its range. -/
theorem txSeq_orders_chain :
    (∀ p : ChainPosition, txSeqNumber p.slot p.index = some (Binary64.ofInt p.txSeq)) ∧
    (∀ p q : ChainPosition,
      p.txSeq < q.txSeq ↔ p.slot < q.slot ∨ p.slot = q.slot ∧ p.index < q.index) ∧
    Function.Injective ChainPosition.txSeq ∧
    ∀ (b : SlotBlock) (store : CrawlStore), b.StaleRemoved store :=
  ⟨ChainPosition.txSeqNumber_eq, ChainPosition.txSeq_lt_iff, ChainPosition.txSeq_injective,
    SlotBlock.staleRemoved⟩

/-- A transaction with one input, in slot 20 with index 0. -/
def oneInput (hash : TxHash) : Transaction :=
  sampleTx hash (text "b") 20 [⟨text "t0", 0⟩] []

/-- Transactions of two forks under one number, with the input row both of them own. -/
def sharedNumber : CrawlStore
  | .transactions =>
      ⟨[mapTransaction (oneInput (text "t1")), mapTransaction (oneInput (text "t2"))], by decide⟩
  | .transactionInputs =>
      ⟨[⟨txSeqOf 20 0, 0, none, ⟨none, none, none, none, none⟩, none, text "t0", 0, false, false,
        false, false⟩], by decide⟩
  | _ => Table.empty

/-- The block of one of the forks. -/
def blockOfFork : SlotBlock where
  slot := 20
  txs := [oneInput (text "t1")]
  nonempty := List.cons_ne_nil _ _
  sameSlot := by decide
  index_lt := by decide

/-- The input row of a stored transaction of the block goes with the other fork's transaction. -/
theorem removeStale_takes_shared :
    ¬∀ (b : SlotBlock) (store : CrawlStore), ∀ row ∈ (b.removeStale store .transactions).rows,
      ∀ table, ∀ child ∈ (store table).rows, row.Owns (table.owner (table.key child)) →
        child ∈ (b.removeStale store table).rows := by
  intro claimed
  have stale : staleTxSeqs sharedNumber blockOfFork.txs = [⟨text "t2", some (txSeqOf 20 0)⟩] := by
    decide
  have stays : mapTransaction (oneInput (text "t1")) ∈
      (blockOfFork.removeStale sharedNumber .transactions).rows := by
    rw [SlotBlock.mem_removeStale, stale]
    exact ⟨List.mem_cons_self, by decide⟩
  have kept := claimed blockOfFork sharedNumber _ stays .transactionInputs _ List.mem_cons_self
    (Or.inr ⟨txSeqOf 20 0, rfl, rfl⟩)
  rw [SlotBlock.mem_removeStale, stale] at kept
  exact absurd kept.2 (by decide)

end Odatano
