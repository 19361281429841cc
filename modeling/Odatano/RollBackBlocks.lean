import Odatano.IndexBlock

/-!
# Rolling blocks back

The deletions of `handleReorg` in `srv/blockchain/crawler/crawler.ts`.  They run
in chunks of blocks and transactions; all together they delete exactly what
belongs to the stale blocks and to the transactions stored under them.
-/

namespace Odatano

/-! ## Owners -/

/-- What a row belongs to: a block, a transaction by hash, or a transaction by
chain position. -/
inductive RowOwner
  | block (hash : BlockHash)
  | transaction (hash : TxHash)
  | position (txSeq : Nat)
deriving DecidableEq

/-- The owner of a row, read off its key. -/
def CrawlTable.owner : (table : CrawlTable) → table.Key → RowOwner
  | .blocks, hash => .block hash
  | .transactions, hash => .transaction hash
  | .transactionInputs, key => .position key.1
  | .transactionInputAssets, key => .position key.1.1
  | .transactionOutputs, key => .position key.1
  | .transactionOutputAssets, key => .position key.1.1
  | .transactionMetadata, key => .transaction key.2
  | .transactionCertificates, key => .transaction key.1
  | .transactionWithdrawals, key => .transaction key.1
  | .transactionRedeemers, key => .transaction key.1
  | .transactionDatums, key => .transaction key.1
  | .assetHistory, key => .transaction key.2

/-! ## The deletions -/

/-- A deletion from `AssetHistory` only. -/
def deletesAssetHistory (hashes : List TxHash) : (table : CrawlTable) → table.Key → Bool
  | .assetHistory, key => decide (key.2 ∈ hashes)
  | _, _ => false

/-- The transactions stored under some blocks. -/
def transactionsOf (store : CrawlStore) (blockHashes : List BlockHash) : List TxKey :=
  ((store .transactions).select fun row => decide (row.blockHash ∈ blockHashes)).map
    TransactionRow.txKey

/-- Delete one chunk of stale blocks with their transactions, whose hashes are
collected. -/
def rollBackChunk (state : CrawlStore × List TxHash) (blockChunk : List BlockHash) :
    CrawlStore × List TxHash :=
  let store := state.1
  -- by block hash, so lazily indexed transactions of other blocks stay
  let staleTxs := transactionsOf store blockChunk
  let txHashes := staleTxs.map TxKey.hash
  let store := (chunk txHashes IN_CHUNK).foldl
    (fun store txChunk => TableFamily.delete store (deletesAssetHistory txChunk)) store
  let store := deleteTransactionRows store staleTxs
  (TableFamily.delete store (deletesBlocks blockChunk), state.2 ++ txHashes)

/-- Delete stale blocks chunk by chunk. -/
def rollBackBlocks (store : CrawlStore) (blockHashes : List BlockHash) :
    CrawlStore × List TxHash :=
  (chunk blockHashes IN_CHUNK).foldl rollBackChunk (store, [])

/-- Blocks strictly after the fork, cut on the absolute-slot axis. -/
def staleBlocks (store : CrawlStore) (forkSlot : Nat) : List BlockHash :=
  ((store .blocks).select fun row => row.slot.any fun slot => decide (forkSlot < slot)).map
    BlockRow.hash

theorem mem_staleBlocks_of_late {store : CrawlStore} {forkSlot slot : Nat} {row : BlockRow}
    (rowMem : row ∈ (store .blocks).rows) (known : row.slot = some slot) (late : forkSlot < slot) :
    row.hash ∈ staleBlocks store forkSlot := by
  refine List.mem_map_of_mem (Table.mem_select.mpr ⟨rowMem, ?_⟩)
  simpa [known] using late

/-! ## What they delete -/

/-- A key belonging to listed blocks or transactions. -/
def deletesOwned (blockHashes : List BlockHash) (txKeys : List TxKey) (table : CrawlTable)
    (key : table.Key) : Bool :=
  match table.owner key with
  | .block hash => decide (hash ∈ blockHashes)
  | .transaction hash => decide (hash ∈ txKeys.map TxKey.hash)
  | .position txSeq => decide (some txSeq ∈ txKeys.map TxKey.txSeq)

private theorem any_chunk_mem {α β : Type*} [DecidableEq β] (part : List α → List β)
    (additive : ∀ pieces : List (List α), part pieces.flatten = (pieces.map part).flatten)
    (values : List α) (x : β) :
    ((chunk values IN_CHUNK).any fun piece => decide (x ∈ part piece)) =
      decide (x ∈ part values) := by
  have whole := additive (chunk values IN_CHUNK)
  rw [flatten_chunk_IN_CHUNK] at whole
  rw [whole, Bool.eq_iff_iff]
  simp

/-- Deleting transactions chunk by chunk is one deletion. -/
theorem deleteTransactionRows_eq (store : CrawlStore) (keys : List TxKey) :
    deleteTransactionRows store keys =
      TableFamily.delete store
        (deletesTransaction (keys.map TxKey.hash) (keys.filterMap TxKey.txSeq)) := by
  have byHash (hash : TxHash) := any_chunk_mem (List.map TxKey.hash)
    (fun pieces => List.map_flatten) keys hash
  have bySeq (txSeq : Nat) := any_chunk_mem (List.filterMap TxKey.txSeq)
    (fun pieces => List.filterMap_flatten) keys txSeq
  unfold deleteTransactionRows deleteTransactionChunk
  rw [TableFamily.foldl_delete]
  congr 1
  funext table key
  cases table <;> simp only [deletesTransaction, byHash, bySeq]
  case blocks => simp
  case assetHistory => simp

/-- One chunk deletes what belongs to its blocks and to their transactions. -/
theorem rollBackChunk_fst (state : CrawlStore × List TxHash) (blockChunk : List BlockHash) :
    (rollBackChunk state blockChunk).1 =
      TableFamily.delete state.1 (deletesOwned blockChunk (transactionsOf state.1 blockChunk)) := by
  have byHash (hash : TxHash) := any_chunk_mem (fun hashes : List TxHash => hashes)
    (fun pieces => by rw [List.map_id']) ((transactionsOf state.1 blockChunk).map TxKey.hash) hash
  simp only [rollBackChunk]
  rw [TableFamily.foldl_delete, deleteTransactionRows_eq, TableFamily.delete_delete,
    TableFamily.delete_delete]
  congr 1
  funext table key
  cases table <;>
    simp [deletesOwned, CrawlTable.owner, deletesTransaction, deletesBlocks,
      deletesAssetHistory, byHash]

theorem mem_transactionsOf {store : CrawlStore} {blockHashes : List BlockHash} {key : TxKey} :
    key ∈ transactionsOf store blockHashes ↔
      ∃ row ∈ (store .transactions).rows, row.blockHash ∈ blockHashes ∧ row.txKey = key := by
  simp [transactionsOf, and_assoc]

/-- After one chunk, the transactions of the other stale blocks are still
stored: a transaction row names one block. -/
theorem mem_transactionsOf_append {store : CrawlStore} {first rest : List BlockHash}
    {key : TxKey} :
    key ∈ transactionsOf store (first ++ rest) ↔
      key ∈ transactionsOf store first ∨
        key ∈ transactionsOf
          (TableFamily.delete store (deletesOwned first (transactionsOf store first))) rest := by
  simp only [mem_transactionsOf, List.mem_append, TableFamily.mem_delete]
  constructor
  · rintro ⟨row, rowMem, inBlocks, rfl⟩
    by_cases inFirst : row.blockHash ∈ first
    · exact Or.inl ⟨row, rowMem, inFirst, rfl⟩
    · refine Or.inr ⟨row, ⟨rowMem, ?_⟩, inBlocks.resolve_left inFirst, rfl⟩
      simp only [deletesOwned, CrawlTable.owner, decide_eq_false_iff_not, List.mem_map,
        mem_transactionsOf]
      rintro ⟨_, ⟨other, otherMem, otherFirst, rfl⟩, sameHash⟩
      have same : other = row := Table.mem_rows_inj otherMem rowMem sameHash
      exact inFirst (same ▸ otherFirst)
  · rintro (⟨row, rowMem, inFirst, rfl⟩ | ⟨row, ⟨rowMem, -⟩, inRest, rfl⟩)
    · exact ⟨row, rowMem, Or.inl inFirst, rfl⟩
    · exact ⟨row, rowMem, Or.inr inRest, rfl⟩

/-- Deleting the rows of two lists of blocks and transactions in turn. -/
theorem deletesOwned_or (firstBlocks restBlocks : List BlockHash)
    {firstKeys restKeys allKeys : List TxKey}
    (all : ∀ key, key ∈ allKeys ↔ key ∈ firstKeys ∨ key ∈ restKeys) (table : CrawlTable)
    (key : table.Key) :
    (deletesOwned firstBlocks firstKeys table key || deletesOwned restBlocks restKeys table key) =
      deletesOwned (firstBlocks ++ restBlocks) allKeys table key := by
  unfold deletesOwned
  cases table.owner key with
  | block hash => simp
  | transaction hash =>
      rw [Bool.eq_iff_iff]
      simp [all, or_and_right, exists_or]
  | position txSeq =>
      rw [Bool.eq_iff_iff]
      simp [all, or_and_right, exists_or]

/-- Rolling blocks back deletes what belongs to them and to the transactions
stored under them, whatever else the tables hold. -/
theorem rollBackBlocks_fst (store : CrawlStore) (blockHashes : List BlockHash) :
    (rollBackBlocks store blockHashes).1 =
      TableFamily.delete store (deletesOwned blockHashes (transactionsOf store blockHashes)) := by
  have run : ∀ (chunks : List (List BlockHash)) (state : CrawlStore × List TxHash),
      (chunks.foldl rollBackChunk state).1 = TableFamily.delete state.1
        (deletesOwned chunks.flatten (transactionsOf state.1 chunks.flatten)) := by
    intro chunks
    induction chunks with
    | nil =>
        intro state
        refine (TableFamily.delete_eq_self fun table row _ => ?_).symm
        unfold deletesOwned
        cases table.owner (table.key row) <;> simp [transactionsOf, Table.select]
    | cons blockChunk chunks ih =>
        intro state
        rw [List.foldl_cons, ih, rollBackChunk_fst, TableFamily.delete_delete,
          List.flatten_cons]
        congr 1
        funext table key
        exact deletesOwned_or blockChunk chunks.flatten
          (fun key => mem_transactionsOf_append) table key
  have whole := run (chunk blockHashes IN_CHUNK) (store, [])
  rwa [flatten_chunk_IN_CHUNK] at whole

end Odatano
