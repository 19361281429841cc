import Odatano.StoredBlocks

/-!
# Child rows under positions

The input, output and asset rows of a transaction are keyed by its chain
position.  `indexTransaction`, `ensureTransactionsIndexed` and `indexBlockFull` of
`srv/blockchain/cardano-indexer.ts` write them with the `Transactions` row, which
is keyed by hash.
-/

namespace Odatano

/-! ## The child tables -/

/-- The tables keyed by `txSeq`. -/
def childTables : List CrawlTable :=
  [.transactionInputs, .transactionInputAssets, .transactionOutputs, .transactionOutputAssets]

/-- The position in a key, null for the tables without one. -/
def CrawlTable.position (table : CrawlTable) (key : table.Key) : Option Nat :=
  match table.owner key with
  | .position txSeq => some txSeq
  | _ => none

section ChildRows

variable [Bech32]

/-- The child rows of a transaction. -/
def childRows (txSeq : Nat) (t : Transaction) : (table : CrawlTable) → List table.Row
  | .transactionInputs => mapTransactionInputs txSeq t.inputs
  | .transactionInputAssets => mapTransactionInputAssets txSeq t.inputs
  | .transactionOutputs => mapTransactionOutputs txSeq t.outputs
  | .transactionOutputAssets => mapTransactionOutputAssets txSeq t.outputs
  | _ => []

/-- The child rows as stored: of two rows with one key the later stays. -/
def childTable (t : Transaction) (table : CrawlTable) : Table table.key :=
  Table.empty.upsertAll (childRows t.txSeq t table)

theorem position_of_mem_childRows {txSeq : Nat} {t : Transaction} {table : CrawlTable}
    {row : table.Row} (rowMem : row ∈ childRows txSeq t table) :
    table.position (table.key row) = some txSeq := by
  cases table with
  | transactionInputs => exact congrArg some (txSeq_of_mem_inputs rowMem)
  | transactionInputAssets => exact congrArg some (txSeq_of_mem_inputAssets rowMem)
  | transactionOutputs => exact congrArg some (txSeq_of_mem_outputs rowMem)
  | transactionOutputAssets => exact congrArg some (txSeq_of_mem_outputAssets rowMem)
  | _ => cases rowMem

/-! ## The lazy path -/

/-- A row of `Transactions`, as a batch. -/
def transactionRowBatch (row : TransactionRow) : (table : CrawlTable) → List table.Row
  | .transactions => [row]
  | _ => []

/-- The child rows and metadata of one transaction, as a batch. -/
def childBatch (t : Transaction) (txSeq : Nat) : (table : CrawlTable) → List table.Row
  | .transactionMetadata => mapTransactionMetadata (t.metadata.getD [])
  | table => childRows txSeq t table

/-- Lazy path: inputs, outputs, their assets and metadata of one transaction. -/
def writeTransactionChildren (store : CrawlStore) (providerTx : Transaction) (txSeq : Nat) :
    CrawlStore :=
  TableFamily.write store (childBatch providerTx txSeq)

/-- Store one transaction with its children, and return its row. -/
def indexTransaction (store : CrawlStore) (providerTx : Transaction) :
    CrawlStore × TransactionRow :=
  let txRow := mapTransaction providerTx
  let store := TableFamily.write store (transactionRowBatch txRow)
  (writeTransactionChildren store providerTx providerTx.txSeq, txRow)

/-- The answer for the transactions that are not stored, empty when all of them are. -/
def fetchMissing (getTransactionsBatch : List TxHash → List Transaction) (store : CrawlStore)
    (txHashes : List TxHash) : List Transaction :=
  let unique := distinct txHashes
  let existing := ((store .transactions).select fun row => decide (row.hash ∈ unique)).map
    TransactionRow.hash
  let missing := unique.filter fun hash => decide (hash ∉ existing)
  if missing = [] then [] else getTransactionsBatch missing

/-- Fetch the transactions that are missing, store them and return only those. -/
def ensureTransactionsIndexed (getTransactionsBatch : List TxHash → List Transaction)
    (store : CrawlStore) (txHashes : List TxHash) : CrawlStore × List Transaction :=
  let fetched := fetchMissing getTransactionsBatch store txHashes
  (fetched.foldl (fun store providerTx => (indexTransaction store providerTx).1) store, fetched)

/-- What the lazy path writes for one transaction, as one batch. -/
def lazyBatch (t : Transaction) (table : CrawlTable) : List table.Row :=
  transactionRowBatch (mapTransaction t) table ++ childBatch t t.txSeq table

theorem indexTransaction_fst (store : CrawlStore) (t : Transaction) :
    (indexTransaction store t).1 = TableFamily.write store (lazyBatch t) :=
  TableFamily.write_write store _ _

/-- Storing several transactions is one write as well. -/
theorem foldl_indexTransaction (store : CrawlStore) (ts : List Transaction) :
    ts.foldl (fun store t => (indexTransaction store t).1) store =
      TableFamily.write store fun table => ts.flatMap fun t => lazyBatch t table := by
  induction ts generalizing store with
  | nil => rfl
  | cons t ts ih =>
      rw [List.foldl_cons, ih, indexTransaction_fst, TableFamily.write_write]
      rfl

end ChildRows

/-! ## What a block write does to these tables -/

theorem foreign_of_mem_staleTxSeqs {store : CrawlStore} {ts : List Transaction} {key : TxKey}
    (stale : key ∈ staleTxSeqs store ts) :
    ∃ row ∈ (store .transactions).rows, row.txKey = key ∧ row.hash ∉ ts.map Transaction.hash := by
  simp only [staleTxSeqs] at stale
  split at stale
  · obtain ⟨row, rowMem, same⟩ := List.mem_map.mp stale
    obtain ⟨rowMem, foreign⟩ := List.mem_filter.mp rowMem
    exact ⟨row, (Table.mem_select.mp rowMem).1, same, of_decide_eq_true foreign⟩
  · cases stale

theorem mem_staleTxSeqs {store : CrawlStore} {ts : List Transaction} {row : TransactionRow}
    {t : Transaction} (rowMem : row ∈ (store .transactions).rows)
    (foreign : row.hash ∉ ts.map Transaction.hash) (tMem : t ∈ ts)
    (holds : row.txSeq = some t.txSeq) : row.txKey ∈ staleTxSeqs store ts := by
  have seqMem : t.txSeq ∈ ts.map Transaction.txSeq := List.mem_map_of_mem tMem
  simp only [staleTxSeqs]
  split
  · rename_i low high least greatest
    have low_le : low ≤ t.txSeq := (List.min?_eq_some_iff.mp least).2 _ seqMem
    have le_high : t.txSeq ≤ high := (List.max?_eq_some_iff.mp greatest).2 _ seqMem
    refine List.mem_map_of_mem (List.mem_filter.mpr ⟨Table.mem_select.mpr ⟨rowMem, ?_⟩,
      decide_eq_true foreign⟩)
    rw [holds]
    exact decide_eq_true ⟨low_le, le_high⟩
  · rename_i neither
    cases least : (ts.map Transaction.txSeq).min? with
    | none => simp [List.min?_eq_none_iff.mp least] at seqMem
    | some low =>
        cases greatest : (ts.map Transaction.txSeq).max? with
        | none => simp [List.max?_eq_none_iff.mp greatest] at seqMem
        | some high => exact (neither low high least greatest).elim

/-- A deletion of transactions reaches the child tables through positions. -/
theorem deletesTransaction_child {hashes : List TxHash} {seqs : List Nat} {table : CrawlTable}
    (isChild : table ∈ childTables) (key : table.Key) :
    deletesTransaction hashes seqs table key =
      (table.position key).any fun txSeq => decide (txSeq ∈ seqs) := by
  simp only [childTables, List.mem_cons, List.not_mem_nil, or_false] at isChild
  rcases isChild with rfl | rfl | rfl | rfl <;> rfl

section Batches

variable [Bech32]

/-- A batch that writes some transactions with their children. -/
structure TransactionWrite (ts : List Transaction)
    (batch : (table : CrawlTable) → List table.Row) : Prop where
  transactions : batch .transactions = ts.map mapTransaction
  children : ∀ table ∈ childTables, batch table = ts.flatMap fun t => childRows t.txSeq t table

theorem transactionWrite_lazyBatch (ts : List Transaction) :
    TransactionWrite ts fun table => ts.flatMap fun t => lazyBatch t table where
  transactions := by
    have one (t : Transaction) : lazyBatch t .transactions = [mapTransaction t] := rfl
    simp only [one]
    rw [← List.map_eq_flatMap]
  children table isChild := by
    simp only [childTables, List.mem_cons, List.not_mem_nil, or_false] at isChild
    rcases isChild with rfl | rfl | rfl | rfl <;> rfl

theorem transactionWrite_transactionBatch (coverage : CrawlCoverage) (ts : List Transaction) :
    TransactionWrite ts (transactionBatch coverage ts) where
  transactions := rfl
  children table isChild := by
    simp only [childTables, List.mem_cons, List.not_mem_nil, or_false] at isChild
    rcases isChild with rfl | rfl | rfl | rfl <;> rfl

/-- Outside the block and mint tables, indexing a block drops what is stale at its
positions and writes its transactions. -/
theorem indexBlock_table (coverage : CrawlCoverage) (store : CrawlStore) (b : IndexedBlock)
    {table : CrawlTable} (notBlocks : table ≠ .blocks) (notHistory : table ≠ .assetHistory) :
    indexBlock coverage store b table =
      TableFamily.write
        (removeStaleTxSeqs store (prepareBlock store b.ledger b.block b.txs).txs)
        (transactionBatch coverage (prepareBlock store b.ledger b.block b.txs).txs) table := by
  generalize preparedEq : prepareBlock store b.ledger b.block b.txs = prepared
  cases table with
  | blocks => exact (notBlocks rfl).elim
  | assetHistory => exact (notHistory rfl).elim
  | _ =>
      simp only [indexBlock, indexBlockRows, preparedEq, removeSupersededBlocks,
        TableFamily.write, TableFamily.delete, removeStaleTxSeqs, deleteTransactionRows_eq,
        deletesBlocks, assetHistoryBatch, blockBatch, Table.upsertAll_nil]
      exact Table.delete_eq_self fun _ _ => rfl

/-! ## Matching children -/

/-- The transaction each hash was last written as. -/
abbrev LatestWrites := TxHash → Option Transaction

def recordWrites (latest : LatestWrites) (ts : List Transaction) : LatestWrites :=
  ts.foldl (fun latest t => Function.update latest t.hash (some t)) latest

/-- Every child row has a parent at its position, every `Transactions` row has the
children of its latest write, and no two of them share a position. -/
structure ChildrenMatch (store : CrawlStore) (latest : LatestWrites) : Prop where
  parent : ∀ table ∈ childTables, ∀ row ∈ (store table).rows,
    ∃ parent ∈ (store .transactions).rows, parent.txSeq = table.position (table.key row)
  children : ∀ parent ∈ (store .transactions).rows, ∃ t, latest parent.hash = some t ∧
    parent.txSeq = some t.txSeq ∧ ∀ table ∈ childTables, ∀ key : table.Key,
      table.position key = some t.txSeq → (store table).find? key = (childTable t table).find? key
  unshared : ∀ first ∈ (store .transactions).rows, ∀ second ∈ (store .transactions).rows,
    first.txSeq = second.txSeq → first = second

/-- Some transactions are written over what is stored of them: each of them has one hash
and one position, and no child row of theirs is left out. -/
structure WritesOver (store : CrawlStore) (ts : List Transaction) : Prop where
  once : ∀ t ∈ ts, ∀ u ∈ ts, t.hash = u.hash ∨ t.txSeq = u.txSeq → t = u
  covered : ∀ parent ∈ (store .transactions).rows, parent.hash ∈ ts.map Transaction.hash →
    ∀ table ∈ childTables, ∀ row ∈ (store table).rows,
      table.position (table.key row) = parent.txSeq →
        ∃ t ∈ ts, table.key row ∈ (childRows t.txSeq t table).map table.key

theorem WritesOver.sameHash {store : CrawlStore} {ts : List Transaction}
    (settled : WritesOver store ts) : ∀ t ∈ ts, ∀ u ∈ ts, t.hash = u.hash → t = u :=
  fun t tMem u uMem same => settled.once t tMem u uMem (Or.inl same)

section Match

variable {store : CrawlStore} {latest : LatestWrites} {ts : List Transaction}

omit [Bech32] in
theorem recordWrites_of_notMem {hash : TxHash} (unlisted : hash ∉ ts.map Transaction.hash) :
    recordWrites latest ts hash = latest hash := by
  induction ts generalizing latest with
  | nil => rfl
  | cons t ts ih =>
      simp only [List.map_cons, List.mem_cons, not_or] at unlisted
      rw [recordWrites, List.foldl_cons]
      exact (ih unlisted.2).trans (Function.update_of_ne unlisted.1 _ _)

omit [Bech32] in
theorem recordWrites_of_mem {t : Transaction} (tMem : t ∈ ts)
    (once : ∀ u ∈ ts, t.hash = u.hash → t = u) :
    recordWrites latest ts t.hash = some t := by
  induction ts generalizing latest with
  | nil => cases tMem
  | cons u ts ih =>
      rw [recordWrites, List.foldl_cons]
      by_cases later : t ∈ ts
      · exact ih later fun v vMem => once v (List.mem_cons_of_mem _ vMem)
      · rcases List.mem_cons.mp tMem with rfl | tMem
        · refine (recordWrites_of_notMem fun listed => ?_).trans (Function.update_self _ _ _)
          obtain ⟨v, vMem, sameHash⟩ := List.mem_map.mp listed
          exact later (once v (List.mem_cons_of_mem _ vMem) sameHash.symm ▸ vMem)
        · exact (later tMem).elim

omit [Bech32] in
private theorem getLast?_flatMap {α β : Type*} {f : α → List β} {a : α} {list : List α}
    (present : a ∈ list) (others : ∀ b ∈ list, b ≠ a → f b = []) :
    (list.flatMap f).getLast? = (f a).getLast? := by
  induction list using List.reverseRecOn with
  | nil => cases present
  | append_singleton list b ih =>
      have before := fun c cMem => others c (List.mem_append_left [b] cMem)
      rw [List.flatMap_append, List.flatMap_singleton, List.getLast?_append]
      by_cases same : b = a
      · subst same
        by_cases earlier : b ∈ list
        · rw [ih earlier before, Option.or_self]
        · have nothing : list.flatMap f = [] :=
            List.flatMap_eq_nil_iff.mpr fun c cMem =>
              before c cMem fun same => earlier (same ▸ cMem)
          rw [nothing, List.getLast?_nil, Option.or_none]
      · have earlier : a ∈ list :=
          (List.mem_append.mp present).resolve_right fun isLast =>
            same (List.mem_singleton.mp isLast).symm
        rw [others b (List.mem_append_right _ (List.mem_singleton_self b)) same,
          List.getLast?_nil, Option.none_or, ih earlier before]

/-- Of the child rows of several transactions, those at one position are one
transaction's. -/
theorem find?_childRows (once : ∀ t ∈ ts, ∀ u ∈ ts, t.hash = u.hash ∨ t.txSeq = u.txSeq → t = u)
    {t : Transaction} (tMem : t ∈ ts) {table : CrawlTable} {key : table.Key}
    (here : table.position key = some t.txSeq) (stored : Table table.key) :
    (stored.upsertAll (ts.flatMap fun u => childRows u.txSeq u table)).find? key =
      ((childTable t table).find? key).or (stored.find? key) := by
  have others : ∀ u ∈ ts, u ≠ t →
      (childRows u.txSeq u table).filter (fun row => decide (table.key row = key)) = [] := by
    intro u uMem different
    rw [List.filter_eq_nil_iff]
    intro row rowMem sameKey
    have there := position_of_mem_childRows rowMem
    rw [of_decide_eq_true sameKey, here] at there
    exact different (once u uMem t tMem (Or.inr (Option.some.inj there).symm))
  rw [Table.find?_upsertAll_last, List.filter_flatMap, getLast?_flatMap tMem others, childTable,
    Table.find?_upsertAll_last, Table.find?_empty, Option.or_none]

/-- A key none of the transactions holds the position of is not written. -/
theorem find?_childRows_of_elsewhere {table : CrawlTable} {key : table.Key}
    (elsewhere : ∀ t ∈ ts, table.position key ≠ some t.txSeq) (stored : Table table.key) :
    (stored.upsertAll (ts.flatMap fun t => childRows t.txSeq t table)).find? key =
      stored.find? key := by
  refine Table.find?_upsertAll_of_notMem _ fun listed => ?_
  obtain ⟨row, rowMem, rfl⟩ := List.mem_map.mp listed
  obtain ⟨t, tMem, rowMem⟩ := List.mem_flatMap.mp rowMem
  exact elsewhere t tMem (position_of_mem_childRows rowMem)

/-- The tables after some transactions were written, once whatever else holds one of their
positions was dropped. -/
structure WrittenOver (store : CrawlStore) (ts : List Transaction) (after : CrawlStore) where
  stale : List TxKey
  batch : (table : CrawlTable) → List table.Row
  isWrite : TransactionWrite ts batch
  foreign : ∀ key ∈ stale, ∃ row ∈ (store .transactions).rows, row.txKey = key ∧
    row.hash ∉ ts.map Transaction.hash
  cleared : ∀ row ∈ (store .transactions).rows, row.hash ∉ ts.map Transaction.hash →
    ∀ t ∈ ts, row.txSeq = some t.txSeq → row.txKey ∈ stale
  written : ∀ table, table = .transactions ∨ table ∈ childTables →
    after table = TableFamily.write (deleteTransactionRows store stale) batch table

namespace WrittenOver

variable {after : CrawlStore}

/-- The transactions afterwards: those written, and those neither written nor stale. -/
theorem mem_transactions (w : WrittenOver store ts after)
    (once : ∀ t ∈ ts, ∀ u ∈ ts, t.hash = u.hash → t = u) {row : TransactionRow} :
    row ∈ (after .transactions).rows ↔ (∃ t ∈ ts, row = mapTransaction t) ∨
      row ∈ (store .transactions).rows ∧ row.hash ∉ ts.map Transaction.hash ∧
        row.txKey ∉ w.stale := by
  have agree : ∀ first ∈ ts.map mapTransaction, ∀ second ∈ ts.map mapTransaction,
      CrawlTable.transactions.key first = CrawlTable.transactions.key second → first = second := by
    intro first firstMem second secondMem sameHash
    obtain ⟨t, tMem, rfl⟩ := List.mem_map.mp firstMem
    obtain ⟨u, uMem, rfl⟩ := List.mem_map.mp secondMem
    rw [once t tMem u uMem sameHash]
  have hashes : (ts.map mapTransaction).map CrawlTable.transactions.key =
      ts.map Transaction.hash := by
    rw [List.map_map]
    rfl
  have notStale (stored : row ∈ (store .transactions).rows) :
      decide (row.hash ∈ w.stale.map TxKey.hash) = false ↔ row.txKey ∉ w.stale := by
    rw [decide_eq_false_iff_not]
    refine not_congr ⟨fun listed => ?_, fun listed => List.mem_map_of_mem listed⟩
    obtain ⟨key, keyMem, sameHash⟩ := List.mem_map.mp listed
    obtain ⟨other, otherMem, isKey, -⟩ := w.foreign key keyMem
    have same : other = row :=
      Table.mem_rows_inj otherMem stored ((congrArg TxKey.hash isKey).trans sameHash)
    rw [← same, isKey]
    exact keyMem
  rw [w.written .transactions (Or.inl rfl), TableFamily.write, w.isWrite.transactions,
    Table.mem_upsertAll_iff agree, hashes, deleteTransactionRows_eq, TableFamily.mem_delete]
  simp only [deletesTransaction, CrawlTable.key, List.mem_map (f := mapTransaction)]
  constructor
  · rintro (⟨t, tMem, rfl⟩ | ⟨⟨stored, spared⟩, unlisted⟩)
    · exact Or.inl ⟨t, tMem, rfl⟩
    · exact Or.inr ⟨stored, unlisted, (notStale stored).mp spared⟩
  · rintro (⟨t, tMem, rfl⟩ | ⟨stored, unlisted, spared⟩)
    · exact Or.inl ⟨t, tMem, rfl⟩
    · exact Or.inr ⟨⟨stored, (notStale stored).mpr spared⟩, unlisted⟩

/-- Looking up a child row afterwards. -/
theorem child_eq (w : WrittenOver store ts after) {table : CrawlTable}
    (isChild : table ∈ childTables) :
    after table = ((store table).delete fun row =>
      (table.position (table.key row)).any fun txSeq =>
        decide (txSeq ∈ w.stale.filterMap TxKey.txSeq)).upsertAll
          (ts.flatMap fun t => childRows t.txSeq t table) := by
  rw [w.written table (Or.inr isChild), TableFamily.write, w.isWrite.children table isChild,
    deleteTransactionRows_eq, TableFamily.delete]
  simp only [deletesTransaction_child isChild]

/-- Under the position of a written transaction are its child rows. -/
theorem find?_written (w : WrittenOver store ts after) (settled : WritesOver store ts)
    (found : ChildrenMatch store latest) {t : Transaction} (tMem : t ∈ ts) {table : CrawlTable}
    (isChild : table ∈ childTables) {key : table.Key} (here : table.position key = some t.txSeq) :
    (after table).find? key = (childTable t table).find? key := by
  rw [w.child_eq isChild, find?_childRows settled.once tMem here]
  cases old : Table.find? ((store table).delete fun row =>
      (table.position (table.key row)).any fun txSeq =>
        decide (txSeq ∈ w.stale.filterMap TxKey.txSeq)) key with
  | none => exact Option.or_none
  | some row =>
      obtain ⟨rowMem, rfl⟩ := Table.find?_eq_some_iff.mp old
      obtain ⟨stored, spared⟩ := Table.mem_delete.mp rowMem
      obtain ⟨parent, parentMem, holds⟩ := found.parent table isChild row stored
      by_cases own : parent.hash ∈ ts.map Transaction.hash
      · -- the row is one of a transaction written now, so it is written again
        obtain ⟨u, uMem, again⟩ := settled.covered parent parentMem own table isChild row stored
          holds.symm
        obtain ⟨new, newMem, sameKey⟩ := List.mem_map.mp again
        have there := position_of_mem_childRows newMem
        rw [sameKey, here] at there
        cases settled.once t tMem u uMem (Or.inr (Option.some.inj there))
        have present : ((childTable t table).find? (table.key row)).isSome := by
          rw [childTable, Table.find?_upsertAll_last, Table.find?_empty, Option.or_none,
            Option.isSome_iff_ne_none, ne_eq, List.getLast?_eq_none_iff]
          exact List.ne_nil_of_mem (List.mem_filter.mpr ⟨newMem, decide_eq_true sameKey⟩)
        exact Option.or_of_isSome present
      · have isStale := w.cleared parent parentMem own t tMem (holds.trans here)
        rw [here, Option.any_some, decide_eq_false_iff_not] at spared
        exact (spared (List.mem_filterMap.mpr ⟨_, isStale, holds.trans here⟩)).elim

/-- Under the position of a transaction that is neither written nor stale, nothing changes. -/
theorem find?_kept (w : WrittenOver store ts after) (found : ChildrenMatch store latest)
    {parent : TransactionRow} (parentMem : parent ∈ (store .transactions).rows)
    (unlisted : parent.hash ∉ ts.map Transaction.hash) (spared : parent.txKey ∉ w.stale)
    {table : CrawlTable} (isChild : table ∈ childTables) {key : table.Key}
    (here : table.position key = parent.txSeq) :
    (after table).find? key = (store table).find? key := by
  rw [w.child_eq isChild, find?_childRows_of_elsewhere fun t tMem there =>
    spared (w.cleared parent parentMem unlisted t tMem (here.symm.trans there)),
    Table.find?_delete]
  cases old : (store table).find? key with
  | none => rfl
  | some row =>
      refine Option.filter_some_pos ?_
      rw [Table.key_of_find? old, here, Bool.not_eq_true', Option.any_eq_false]
      intro txSeq holds
      rw [decide_eq_false_iff_not]
      intro isStale
      obtain ⟨staleKey, staleMem, isSeq⟩ := List.mem_filterMap.mp isStale
      obtain ⟨other, otherMem, isKey, -⟩ := w.foreign staleKey staleMem
      have sameSeq : other.txSeq = parent.txSeq := by
        rw [holds, ← isSeq, ← isKey]
        rfl
      cases found.unshared other otherMem parent parentMem sameSeq
      exact spared (isKey ▸ staleMem)

/-- Writing transactions over what is stored of them keeps the children matching. -/
theorem childrenMatch (w : WrittenOver store ts after) (settled : WritesOver store ts)
    (found : ChildrenMatch store latest) : ChildrenMatch after (recordWrites latest ts) where
  parent := by
    intro table isChild row rowMem
    have writtenAt {t : Transaction} (tMem : t ∈ ts) :
        mapTransaction t ∈ (after .transactions).rows :=
      (w.mem_transactions settled.sameHash).mpr (Or.inl ⟨t, tMem, rfl⟩)
    rw [w.child_eq isChild] at rowMem
    rcases Table.mem_upsertAll rowMem with old | new
    · obtain ⟨stored, spared⟩ := Table.mem_delete.mp old
      obtain ⟨parent, parentMem, holds⟩ := found.parent table isChild row stored
      by_cases own : parent.hash ∈ ts.map Transaction.hash
      · obtain ⟨t, tMem, again⟩ := settled.covered parent parentMem own table isChild row stored
          holds.symm
        obtain ⟨new, newMem, sameKey⟩ := List.mem_map.mp again
        exact ⟨_, writtenAt tMem, sameKey ▸ (position_of_mem_childRows newMem).symm⟩
      · refine ⟨parent, (w.mem_transactions settled.sameHash).mpr (Or.inr ⟨parentMem, own, ?_⟩), holds⟩
        intro isStale
        obtain ⟨t, -, atSeq, -⟩ := found.children parent parentMem
        rw [← holds, atSeq, Option.any_some, decide_eq_false_iff_not] at spared
        exact spared (List.mem_filterMap.mpr ⟨_, isStale, atSeq⟩)
    · obtain ⟨t, tMem, newMem⟩ := List.mem_flatMap.mp new
      exact ⟨_, writtenAt tMem, (position_of_mem_childRows newMem).symm⟩
  children := by
    intro parent parentMem
    rcases (w.mem_transactions settled.sameHash).mp parentMem with
      ⟨t, tMem, rfl⟩ | ⟨stored, unlisted, spared⟩
    · exact ⟨t, recordWrites_of_mem tMem fun u uMem same => settled.once t tMem u uMem (Or.inl same),
        rfl, fun table isChild key here => w.find?_written settled found tMem isChild here⟩
    · obtain ⟨t, isLatest, holds, rows⟩ := found.children parent stored
      refine ⟨t, (recordWrites_of_notMem unlisted).trans isLatest, holds, ?_⟩
      intro table isChild key here
      rw [w.find?_kept found stored unlisted spared isChild (here.trans holds.symm)]
      exact rows table isChild key here
  unshared := by
    -- a transaction that was kept holds none of the positions written
    have apart {row : TransactionRow} (stored : row ∈ (store .transactions).rows)
        (unlisted : row.hash ∉ ts.map Transaction.hash) (spared : row.txKey ∉ w.stale)
        {t : Transaction} (tMem : t ∈ ts) : row.txSeq ≠ (mapTransaction t).txSeq :=
      fun sameSeq => spared (w.cleared row stored unlisted t tMem sameSeq)
    intro first firstMem second secondMem sameSeq
    rcases (w.mem_transactions settled.sameHash).mp firstMem with
      ⟨t, tMem, rfl⟩ | ⟨firstStored, firstUnlisted, firstSpared⟩
    · rcases (w.mem_transactions settled.sameHash).mp secondMem with
        ⟨u, uMem, rfl⟩ | ⟨secondStored, secondUnlisted, secondSpared⟩
      · rw [settled.once t tMem u uMem (Or.inr (Option.some.inj sameSeq))]
      · exact (apart secondStored secondUnlisted secondSpared tMem sameSeq.symm).elim
    · rcases (w.mem_transactions settled.sameHash).mp secondMem with
        ⟨u, uMem, rfl⟩ | ⟨secondStored, -, -⟩
      · exact (apart firstStored firstUnlisted firstSpared uMem sameSeq).elim
      · exact found.unshared first firstStored second secondStored sameSeq

end WrittenOver

/-- Nothing else that is stored holds one of the positions. -/
def Unclaimed (store : CrawlStore) (ts : List Transaction) : Prop :=
  ∀ row ∈ (store .transactions).rows, row.hash ∉ ts.map Transaction.hash →
    ∀ t ∈ ts, row.txSeq ≠ some t.txSeq

/-- The lazy path drops nothing. -/
def WrittenOver.lazily (unclaimed : Unclaimed store ts) :
    WrittenOver store ts (ts.foldl (fun store t => (indexTransaction store t).1) store) where
  stale := []
  batch := fun table => ts.flatMap fun t => lazyBatch t table
  isWrite := transactionWrite_lazyBatch ts
  foreign := nofun
  cleared row rowMem unlisted t tMem holds := (unclaimed row rowMem unlisted t tMem holds).elim
  written table _ := by rw [foldl_indexTransaction, deleteTransactionRows_nil]

/-- Indexing a block drops the transactions of another fork. -/
def WrittenOver.block (coverage : CrawlCoverage) (store : CrawlStore) (b : IndexedBlock) :
    WrittenOver store (prepareBlock store b.ledger b.block b.txs).txs
      (indexBlock coverage store b) where
  stale := staleTxSeqs store (prepareBlock store b.ledger b.block b.txs).txs
  batch := transactionBatch coverage (prepareBlock store b.ledger b.block b.txs).txs
  isWrite := transactionWrite_transactionBatch coverage _
  foreign _ := foreign_of_mem_staleTxSeqs
  cleared _ rowMem unlisted _ tMem holds := mem_staleTxSeqs rowMem unlisted tMem holds
  written table isWritten := by
    rcases isWritten with rfl | isChild
    · exact indexBlock_table coverage store b nofun nofun
    · refine indexBlock_table coverage store b ?_ ?_ <;> rintro rfl <;>
        exact absurd isChild (by decide)

omit [Bech32] in
/-- What is stale depends on hashes and positions only. -/
theorem staleTxSeqs_prepareBlock (store : CrawlStore) (ledger : Option LedgerDb)
    (block : BlockData) (txs : List Transaction) :
    staleTxSeqs store (prepareBlock store ledger block txs).txs = staleTxSeqs store txs := by
  have seqs := map_prepareBlock_txs Transaction.txSeq (fun _ _ _ => rfl) store ledger block txs
  have hashes := map_prepareBlock_txs Transaction.hash (fun _ _ _ => rfl) store ledger block txs
  simp only [staleTxSeqs, seqs, hashes]

/-- The transactions after indexing a block whose transactions have hashes of their own. -/
theorem mem_transactions_indexBlock {coverage : CrawlCoverage} {b : IndexedBlock}
    (nodup : (b.txs.map Transaction.hash).Nodup) {row : TransactionRow} :
    row ∈ (indexBlock coverage store b .transactions).rows ↔
      (∃ t ∈ (prepareBlock store b.ledger b.block b.txs).txs, row = mapTransaction t) ∨
        row ∈ (store .transactions).rows ∧ row.hash ∉ b.txs.map Transaction.hash ∧
          row.txKey ∉ staleTxSeqs store b.txs := by
  have hashes := map_prepareBlock_txs Transaction.hash (fun _ _ _ => rfl) store b.ledger
    b.block b.txs
  have once : ∀ t ∈ (prepareBlock store b.ledger b.block b.txs).txs,
      ∀ u ∈ (prepareBlock store b.ledger b.block b.txs).txs, t.hash = u.hash → t = u :=
    fun _ tMem _ uMem same => List.inj_on_of_nodup_map (hashes ▸ nodup) tMem uMem same
  rw [(WrittenOver.block coverage store b).mem_transactions once, hashes]
  simp only [WrittenOver.block, staleTxSeqs_prepareBlock]

/-- A child row is of the block or was stored before, at no position dropped as stale. -/
theorem mem_children_indexBlock {coverage : CrawlCoverage} {b : IndexedBlock}
    {table : CrawlTable} (isChild : table ∈ childTables) {row : table.Row}
    (rowMem : row ∈ (indexBlock coverage store b table).rows) :
    (∃ t ∈ (prepareBlock store b.ledger b.block b.txs).txs, row ∈ childRows t.txSeq t table) ∨
      row ∈ (store table).rows ∧ ∀ key ∈ staleTxSeqs store b.txs, ∀ txSeq,
        key.txSeq = some txSeq → table.position (table.key row) ≠ some txSeq := by
  rw [(WrittenOver.block coverage store b).child_eq isChild] at rowMem
  rcases Table.mem_upsertAll rowMem with old | new
  · obtain ⟨stored, spared⟩ := Table.mem_delete.mp old
    refine Or.inr ⟨stored, fun key keyMem txSeq isSeq here => ?_⟩
    rw [here, Option.any_some, decide_eq_false_iff_not] at spared
    simp only [WrittenOver.block, staleTxSeqs_prepareBlock] at spared
    exact spared (List.mem_filterMap.mpr ⟨key, keyMem, isSeq⟩)
  · exact Or.inl (List.mem_flatMap.mp new)

/-- A mint row is of the block or was stored before. -/
theorem mem_assetHistory_indexBlock {coverage : CrawlCoverage} {b : IndexedBlock}
    {row : AssetHistoryRow} (rowMem : row ∈ (indexBlock coverage store b .assetHistory).rows) :
    row ∈ (store .assetHistory).rows ∨ row.txHash ∈ b.txs.map Transaction.hash := by
  have hashes := map_prepareBlock_txs Transaction.hash (fun _ _ _ => rfl) store b.ledger
    b.block b.txs
  simp only [indexBlock, indexBlockRows, removeSupersededBlocks, removeStaleTxSeqs,
    deleteTransactionRows_eq] at rowMem
  rcases TableFamily.mem_write rowMem with stored | written
  · exact Or.inl (TableFamily.mem_delete.mp (TableFamily.mem_delete.mp stored).1).1
  · have named : ∃ t ∈ (prepareBlock store b.ledger b.block b.txs).txs,
        CrawlTable.assetHistory.owner (CrawlTable.assetHistory.key row) = .transaction t.hash :=
      owner_of_mem_assetHistoryBatch written
    obtain ⟨t, tMem, owner⟩ := named
    have sameHash : row.txHash = t.hash := RowOwner.transaction.inj owner
    rw [sameHash, ← hashes]
    exact Or.inr (List.mem_map_of_mem tMem)

/-- A row keyed by a transaction is of the block or was stored before, and a stale
transaction keeps none but its mint rows. -/
theorem owner_of_mem_indexBlock {coverage : CrawlCoverage} {b : IndexedBlock}
    (labels : ∀ t ∈ b.txs, ∀ label ∈ t.metadata.getD [], label.txHash = t.hash)
    {table : CrawlTable} {row : table.Row} {hash : TxHash}
    (rowMem : row ∈ (indexBlock coverage store b table).rows)
    (owner : table.owner (table.key row) = .transaction hash) :
    hash ∈ b.txs.map Transaction.hash ∨ row ∈ (store table).rows ∧
      (hash ∈ (staleTxSeqs store b.txs).map TxKey.hash →
        ∃ mint ∈ (store .assetHistory).rows, mint.txHash = hash) := by
  by_cases isHistory : table = .assetHistory
  · subst isHistory
    rcases mem_assetHistory_indexBlock rowMem with stored | listed
    · exact Or.inr ⟨stored, fun _ => ⟨row, stored, RowOwner.transaction.inj owner⟩⟩
    · exact Or.inl (RowOwner.transaction.inj owner ▸ listed)
  · have notBlocks : table ≠ .blocks := by
      rintro rfl
      cases owner
    rw [indexBlock_table coverage store b notBlocks isHistory, removeStaleTxSeqs,
      deleteTransactionRows_eq, staleTxSeqs_prepareBlock] at rowMem
    obtain ⟨prepare, same, changes⟩ := prepareBlock_txs store b.ledger b.block b.txs
    rw [same] at rowMem
    have preparedLabels : ∀ t ∈ b.txs.map prepare, ∀ label ∈ t.metadata.getD [],
        label.txHash = t.hash := by
      intro t tMem
      obtain ⟨original, originalMem, rfl⟩ := List.mem_map.mp tMem
      obtain ⟨inputs, fee, prepared⟩ := changes original
      rw [prepared]
      exact labels original originalMem
    rcases TableFamily.mem_write rowMem with stored | written
    · obtain ⟨stored, spared⟩ := TableFamily.mem_delete.mp stored
      refine Or.inr ⟨stored, fun isStale => ?_⟩
      have deleted : deletesTransaction ((staleTxSeqs store b.txs).map TxKey.hash)
          ((staleTxSeqs store b.txs).filterMap TxKey.txSeq) table (table.key row) = true := by
        cases table with
        | blocks => cases owner
        | assetHistory => exact (isHistory rfl).elim
        | transactionInputs => cases owner
        | transactionInputAssets => cases owner
        | transactionOutputs => cases owner
        | transactionOutputAssets => cases owner
        | _ => exact decide_eq_true (RowOwner.transaction.inj owner ▸ isStale)
      rw [deleted] at spared
      cases spared
    · obtain ⟨t, tMem, isOwner | isOwner⟩ := owner_of_mem_transactionBatch preparedLabels written
      · obtain ⟨original, originalMem, rfl⟩ := List.mem_map.mp tMem
        obtain ⟨inputs, fee, prepared⟩ := changes original
        have sameHash : (prepare original).hash = original.hash := by rw [prepared]
        rw [isOwner, sameHash] at owner
        exact Or.inl (RowOwner.transaction.inj owner ▸ List.mem_map_of_mem originalMem)
      · rw [isOwner] at owner
        cases owner

end Match

/-! ## Calls in any order -/

/-- A call that stores transactions, with what the provider answers. -/
inductive PositionCall
  | indexTransaction (providerTx : Transaction)
  | ensureTransactionsIndexed (getTransactionsBatch : List TxHash → List Transaction)
      (txHashes : List TxHash)
  | indexBlockFull (b : IndexedBlock)

namespace PositionCall

/-- The store after a call, and the transactions it wrote. -/
def apply (coverage : CrawlCoverage) (store : CrawlStore) :
    PositionCall → CrawlStore × List Transaction
  | indexTransaction providerTx => ((Odatano.indexTransaction store providerTx).1, [providerTx])
  | ensureTransactionsIndexed getTransactionsBatch txHashes =>
      Odatano.ensureTransactionsIndexed getTransactionsBatch store txHashes
  | indexBlockFull b =>
      (indexBlock coverage store b, (prepareBlock store b.ledger b.block b.txs).txs)

/-- The transactions of a call are written over what is stored of them; a lazy one finds
their positions free of others. -/
def Settled (store : CrawlStore) : PositionCall → Prop
  | indexTransaction providerTx => WritesOver store [providerTx] ∧ Unclaimed store [providerTx]
  | ensureTransactionsIndexed getTransactionsBatch txHashes =>
      let fetched := fetchMissing getTransactionsBatch store txHashes
      WritesOver store fetched ∧ Unclaimed store fetched
  | indexBlockFull b => WritesOver store (prepareBlock store b.ledger b.block b.txs).txs

end PositionCall

/-- The crawled tables, and the latest write of each transaction. -/
structure Positions where
  store : CrawlStore
  latest : LatestWrites

def Positions.call (coverage : CrawlCoverage) (s : Positions) (call : PositionCall) :
    Positions :=
  let applied := call.apply coverage s.store
  ⟨applied.1, recordWrites s.latest applied.2⟩

/-- Calls one after another, on a fresh database. -/
def runCalls (coverage : CrawlCoverage) (calls : List PositionCall) : Positions :=
  calls.foldl (Positions.call coverage) ⟨CrawlStore.empty, fun _ => none⟩

theorem ChildrenMatch.call {coverage : CrawlCoverage} {s : Positions}
    (found : ChildrenMatch s.store s.latest) {call : PositionCall} (settled : call.Settled s.store) :
    ChildrenMatch (s.call coverage call).store (s.call coverage call).latest := by
  cases call with
  | indexTransaction providerTx => exact (WrittenOver.lazily settled.2).childrenMatch settled.1 found
  | ensureTransactionsIndexed getTransactionsBatch txHashes =>
      exact (WrittenOver.lazily settled.2).childrenMatch settled.1 found
  | indexBlockFull b => exact (WrittenOver.block coverage s.store b).childrenMatch settled found

theorem childrenMatch_empty : ChildrenMatch CrawlStore.empty fun _ => none :=
  ⟨fun _ _ _ rowMem => absurd rowMem List.not_mem_nil,
    fun _ rowMem => absurd rowMem List.not_mem_nil,
    fun _ rowMem => absurd rowMem List.not_mem_nil⟩

/-- Where every call writes its transactions over what is stored of them, the child rows
are those of the latest write of the transaction at their position. -/
theorem runCalls_childrenMatch (coverage : CrawlCoverage) (calls : List PositionCall)
    (settled : ∀ before call, before ++ [call] <+: calls →
      call.Settled (runCalls coverage before).store) :
    ChildrenMatch (runCalls coverage calls).store (runCalls coverage calls).latest := by
  induction calls using List.reverseRecOn with
  | nil => exact childrenMatch_empty
  | append_singleton before call ih =>
      have found := ih fun first next isPrefix =>
        settled first next (isPrefix.trans (List.prefix_append before [call]))
      rw [runCalls, List.foldl_append]
      exact found.call (settled before call List.prefix_rfl)

end Batches

section Sample

attribute [local instance] byronBech32

/-- The transaction `t1` with one output, in a block at a slot. -/
def movedTx (slot : Nat) : Transaction :=
  sampleTx (text "t1") (text "b") slot [] [sampleOutput]

/-- A lazy read of `t1`, then the block it is in. -/
theorem runCalls_childrenMatch_sample :
    ChildrenMatch
      (runCalls ⟨true, true⟩ [.indexTransaction (movedTx 20),
        .indexBlockFull ⟨sampleBlock (text "b") 20 1, [movedTx 20], none, none⟩]).store
      (runCalls ⟨true, true⟩ [.indexTransaction (movedTx 20),
        .indexBlockFull ⟨sampleBlock (text "b") 20 1, [movedTx 20], none, none⟩]).latest := by
  refine runCalls_childrenMatch _ _ fun before call isPrefix => ?_
  have alone {t : Transaction} : ∀ u ∈ [t], ∀ v ∈ [t], u.hash = v.hash ∨ u.txSeq = v.txSeq →
      u = v := fun u uMem v vMem _ =>
    (List.mem_singleton.mp uMem).trans (List.mem_singleton.mp vMem).symm
  rcases before with _ | ⟨first, _ | ⟨second, rest⟩⟩
  · obtain ⟨rfl, -⟩ := List.cons_prefix_cons.mp isPrefix
    exact ⟨⟨alone, fun _ parentMem => absurd parentMem List.not_mem_nil⟩,
      fun _ parentMem => absurd parentMem List.not_mem_nil⟩
  · obtain ⟨sameFirst, isPrefix⟩ := List.cons_prefix_cons.mp isPrefix
    obtain ⟨rfl, -⟩ := List.cons_prefix_cons.mp isPrefix
    rw [sameFirst]
    exact ⟨alone, by decide +kernel⟩
  · have short := isPrefix.length_le
    simp at short

/-- Read again after it moved to another block, `t1` leaves its output row without a parent. -/
theorem indexTransaction_leavesChildren :
    ¬ ChildrenMatch
      (runCalls ⟨true, true⟩ [.indexTransaction (movedTx 20), .indexTransaction (movedTx 21)]).store
      (runCalls ⟨true, true⟩
        [.indexTransaction (movedTx 20), .indexTransaction (movedTx 21)]).latest := by
  intro found
  have parents : ∀ row ∈ ((runCalls ⟨true, true⟩ [.indexTransaction (movedTx 20),
      .indexTransaction (movedTx 21)]).store .transactionOutputs).rows,
      ∃ parent ∈ ((runCalls ⟨true, true⟩ [.indexTransaction (movedTx 20),
        .indexTransaction (movedTx 21)]).store .transactions).rows, parent.txSeq = some row.txSeq :=
    found.parent .transactionOutputs (by decide)
  exact absurd parents (by decide +kernel)

end Sample

end Odatano
