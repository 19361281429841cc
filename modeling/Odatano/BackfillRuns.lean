import Odatano.BackfillSlices

/-!
# Runs of the transaction backfill

A run hands its transactions over in batches.  Each batch reads and writes in bulk, but the rows of
a transaction end as if the transaction had been backfilled alone: the batches do not matter.
-/

namespace Odatano

variable {kind : DbKind} {tables : BackfillTables} {versions : List (List Transaction)}

/-- Batches one after another. -/
def backfillVersions (kind : DbKind) (versions : List (List Transaction))
    (tables : BackfillTables) : BackfillTables :=
  versions.foldl (backfillBatch kind) tables

/-- Transactions that are not in a run keep their inputs and outputs. -/
theorem own_backfillVersions_of_notMem
    (once : (versions.flatten.map Transaction.txSeq).Nodup) {seq : Nat}
    (unlisted : seq ∉ versions.flatten.map Transaction.txSeq) :
    (backfillVersions kind versions tables).lines.own seq = tables.lines.own seq := by
  induction versions generalizing tables with
  | nil => rfl
  | cons txs rest ih =>
      rw [List.flatten_cons, List.map_append] at once unlisted
      rw [List.mem_append, not_or] at unlisted
      exact (ih (List.nodup_append.mp once).2.1 unlisted.2).trans
        (own_backfillLines_of_notMem (List.nodup_append.mp once).1 unlisted.1)

/-- A transaction of a run is backfilled as it would be alone. -/
theorem own_backfillVersions (once : (versions.flatten.map Transaction.txSeq).Nodup)
    {t : Transaction} (listed : t ∈ versions.flatten) :
    (backfillVersions kind versions tables).lines.own t.txSeq =
      backfillOwn kind (tables.lines.own t.txSeq) t := by
  induction versions generalizing tables with
  | nil => cases listed
  | cons txs rest ih =>
      rw [List.flatten_cons] at once listed
      rw [List.map_append, List.nodup_append] at once
      obtain ⟨first, later, apart⟩ := once
      rcases List.mem_append.mp listed with isFirst | isLater
      · have unlisted : t.txSeq ∉ rest.flatten.map Transaction.txSeq := fun again =>
          apart _ (List.mem_map_of_mem isFirst) _ again rfl
        exact (own_backfillVersions_of_notMem later unlisted).trans
          (own_backfillLines first isFirst)
      · have unlisted : t.txSeq ∉ txs.map Transaction.txSeq := fun earlier =>
          apart _ earlier _ (List.mem_map_of_mem isLater) rfl
        have kept := @own_backfillLines_of_notMem kind tables.lines txs t.txSeq first unlisted
        exact (ih later isLater).trans (congrArg (fun own => backfillOwn kind own t) kept)

/-- What has been written is what was handed over, batch by batch. -/
def BlockStream.Written (kind : DbKind) (tables : BackfillTables)
    (s : BlockStream (List Transaction) TransactionBackfill) : Prop :=
  s.store.tables = backfillVersions kind s.store.versions tables

theorem BlockStream.Written.handOver {resolveInputs : InputResolver}
    {s : BlockStream (List Transaction) TransactionBackfill} (written : s.Written kind tables)
    (batch : List (StreamedBlock (List Transaction))) :
    (s.handOver (transactionWriter kind resolveInputs) batch).Written kind tables := by
  unfold BlockStream.Written BlockStream.handOver transactionWriter
  dsimp only
  split
  · exact written
  · dsimp only
    rw [backfillVersions, List.foldl_append, List.foldl_cons, List.foldl_nil]
    exact congrArg (fun tables => backfillBatch kind tables _) written

theorem BlockStream.Written.handOverAll {resolveInputs : InputResolver}
    {s : BlockStream (List Transaction) TransactionBackfill} (written : s.Written kind tables)
    (batchBlocks : Nat) (blocks : List (StreamedBlock (List Transaction))) :
    (BlockStream.handOverAll (transactionWriter kind resolveInputs) batchBlocks s blocks).Written
      kind tables := by
  unfold BlockStream.handOverAll
  induction chunk blocks batchBlocks generalizing s with
  | nil => exact written
  | cons batch rest ih =>
      rw [List.foldl_cons]
      exact ih (written.handOver batch)

section Returned

variable {resolveInputs : InputResolver} {hasBackend : Bool} {fromSlot toSlot : Int}
  {batchBlocks : Option Int} {db : Db} {messages : List NodeMessage}
  {result : TransactionBackfillResult}
  {stream : BlockStream (List Transaction) TransactionBackfill}

/-- A run that returns has written the batches it was given. -/
theorem written_of_backfillTransactions
    (returned : backfillTransactions kind resolveInputs hasBackend fromSlot toSlot batchBlocks db
      tables messages = some (.ok (result, stream))) : stream.Written kind tables := by
  obtain ⟨answer, streamed, mapped⟩ := Option.map_eq_some_iff.mp returned
  cases answer with
  | error error => cases mapped
  | ok answer =>
      obtain ⟨intersection, s⟩ := answer
      cases mapped
      obtain ⟨-, rfl⟩ := streamCrawledBlocks_eq_ok streamed
      have start : (⟨[], ⟨db, tables, [], ⟨0, 0, 0, 0, 0, 0, 0, 0⟩, false⟩, [], none⟩ :
        BlockStream (List Transaction) TransactionBackfill).Written kind tables := rfl
      exact start.handOverAll _ _

/-- After a run, whatever its batches were, the inputs and outputs of each of its transactions are
those of a backfill of that transaction alone, and all others are as they were. -/
theorem backfillTransactions_own
    (returned : backfillTransactions kind resolveInputs hasBackend fromSlot toSlot batchBlocks db
      tables messages = some (.ok (result, stream)))
    (once : (stream.store.versions.flatten.map Transaction.txSeq).Nodup) :
    (∀ t ∈ stream.store.versions.flatten, stream.store.tables.lines.own t.txSeq =
        backfillOwn kind (tables.lines.own t.txSeq) t) ∧
      ∀ seq, seq ∉ stream.store.versions.flatten.map Transaction.txSeq →
        stream.store.tables.lines.own seq = tables.lines.own seq := by
  rw [written_of_backfillTransactions returned]
  exact ⟨fun t listed => own_backfillVersions once listed,
    fun seq unlisted => own_backfillVersions_of_notMem once unlisted⟩

end Returned

/-! `c` and `d` are stored.  The inputs of the transaction in `c` are stored in the other order,
the input of the one in `d` without its output. -/

def spentLine (txHash : TxHash) (outputIndex : Nat) (address : Address) : TxInputLine :=
  ⟨address, [⟨lovelace, 5⟩], txHash, outputIndex, ⟨none, none, none, none, none⟩, false, false⟩

def swappedTx : Transaction :=
  { sampleTx (text "t1") (text "c") 30 [] [] with
    inputs := [spentLine (text "o") 0 "first", spentLine (text "o") 1 "second"] }

def outpointlessTx : Transaction :=
  { sampleTx (text "t2") (text "d") 31 [] [] with inputs := [spentLine (text "o") 2 "third"] }

def indexedInput (txSeq inputIndex : Nat) (spent : Option (TxHash × Nat)) : StoredInputRow where
  txSeq
  inputIndex
  address := none
  utxoData := ⟨none, none, none, none, none⟩
  paymentCredential := none
  spentTxHash := spent.map Prod.fst
  spentOutputIndex := spent.map Prod.snd
  isCollateral := none
  isReference := some false
  hasAddresses := some false
  hasAssets := some false

def indexedTables : BackfillTables where
  lines :=
    { inputs := Table.empty.upsertAll
        [indexedInput swappedTx.txSeq 0 (some (text "o", 1)),
          indexedInput swappedTx.txSeq 1 (some (text "o", 0)),
          indexedInput outpointlessTx.txSeq 0 none]
      inputAssets := Table.empty.upsertAll [⟨swappedTx.txSeq, 0, lovelace, 5, none, ""⟩]
      outputs := Table.empty
      outputAssets := Table.empty }
  redeemers := Table.empty
  datums := Table.empty

def storedBlocksDb : Db where
  crawl := TableFamily.write
    (TableFamily.write CrawlStore.empty (blockBatch (mapBlock (sampleBlock (text "c") 30 1) none)))
    (blockBatch (mapBlock (sampleBlock (text "d") 31 1) none))
  ledger := LedgerDb.empty
  sync := SyncState.initial "preview" (some ⟨20, text "a", some 2⟩)

def streamedMessages : List NodeMessage :=
  [.rollBackward (some ⟨20, text "a", none⟩), .rollForward (sampleBlock (text "c") 30 1) [swappedTx],
    .rollForward (sampleBlock (text "d") 31 1) [outpointlessTx],
    .rollForward (sampleBlock (text "e") 40 0) []]

/-- The inputs come with the stream. -/
def streamedInputs : InputResolver := fun _ _ txs => txs

theorem streamed_runs (kind : DbKind) (tables : BackfillTables) :
    ∃ result stream, backfillTransactions kind streamedInputs true 25 35 (some 1) storedBlocksDb
        tables streamedMessages = some (.ok (result, stream)) ∧
      stream.store.versions = [[swappedTx], [outpointlessTx]] :=
  ⟨_, _, rfl, rfl⟩

theorem streamed_runs_at_once (kind : DbKind) (tables : BackfillTables) :
    ∃ result stream, backfillTransactions kind streamedInputs true 25 35 none storedBlocksDb
        tables streamedMessages = some (.ok (result, stream)) ∧
      stream.store.versions = [[swappedTx, outpointlessTx]] :=
  ⟨_, _, rfl, rfl⟩

theorem streamed_once : ([swappedTx, outpointlessTx].map Transaction.txSeq).Nodup := by decide

theorem backfillTransactions_own_sample :
    ∃ result stream, backfillTransactions .sqlite streamedInputs true 25 35 (some 1) storedBlocksDb
        indexedTables streamedMessages = some (.ok (result, stream)) ∧
      stream.store.tables.lines.own swappedTx.txSeq =
        backfillOwn .sqlite (indexedTables.lines.own swappedTx.txSeq) swappedTx := by
  obtain ⟨result, stream, returned, versions⟩ := streamed_runs .sqlite indexedTables
  have once : (stream.store.versions.flatten.map Transaction.txSeq).Nodup := by
    rw [versions]
    exact streamed_once
  have listed : swappedTx ∈ stream.store.versions.flatten := by
    rw [versions]
    exact List.mem_cons_self
  exact ⟨result, stream, returned, (backfillTransactions_own returned once).1 swappedTx listed⟩

end Odatano
