import Odatano.CrawledBlockStream

/-!
# The certificate backfill

`backfillCertificates` of `srv/blockchain/crawler/certificate-backfill.ts`: certificates and
withdrawals of already crawled blocks, written from a second chain-sync stream.
-/

namespace Odatano

structure CertificateRows where
  certs : List TransactionCertificateRow
  withdrawals : List TransactionWithdrawalRow

structure CertificateBackfillProgress where
  /-- Slot of the last block handled. -/
  atSlot : Nat
  blocks : Nat
  transactions : Nat
  certificates : Nat
  withdrawals : Nat

/-- The database and the counts while the stream runs. -/
structure CertificateBackfill where
  db : Db
  progress : CertificateBackfillProgress
  started : Bool

structure CertificateBackfillResult where
  progress : CertificateBackfillProgress
  fromSlot : Int
  toSlot : Int
  intersection : Option ChainPoint

/-- The rows of some transactions. -/
def certificateRows (txs : List Transaction) : CertificateRows where
  certs := txs.flatMap fun t => mapTransactionCertificates t.hash (t.certificates.getD [])
  withdrawals := txs.flatMap fun t => mapTransactionWithdrawals t.hash (t.withdrawals.getD [])

/-- The rows of some blocks. -/
def mergedRows (blocks : List (StreamedBlock CertificateRows)) : CertificateRows where
  certs := blocks.flatMap fun block => block.payload.certs
  withdrawals := blocks.flatMap fun block => block.payload.withdrawals

/-- Upserts into the two tables. -/
def certificateBatch (rows : CertificateRows) : (table : CrawlTable) → List table.Row
  | .transactionCertificates => rows.certs
  | .transactionWithdrawals => rows.withdrawals
  | _ => []

/-- The callbacks `backfillCertificates` passes. -/
def certificateWriter : BatchWriter CertificateRows CertificateBackfill where
  db := CertificateBackfill.db
  collect _ txs := certificateRows txs
  writeBatch s blocks :=
    let rows := mergedRows blocks
    { s with
      db := { s.db with crawl := TableFamily.write s.db.crawl (certificateBatch rows) }
      progress :=
        { s.progress with
          blocks := s.progress.blocks + blocks.length
          transactions := s.progress.transactions + (blocks.map StreamedBlock.transactions).sum
          certificates := s.progress.certificates + rows.certs.length
          withdrawals := s.progress.withdrawals + rows.withdrawals.length } }
  afterBatch s toSlot := { s with started := true, progress := { s.progress with atSlot := toSlot } }

/-- `backfillCertificates` over the messages of the node; none while the stream has not passed
the range. -/
def backfillCertificates (hasBackend : Bool) (fromSlot toSlot : Int) (batchBlocks : Option Int)
    (db : Db) (messages : List NodeMessage) :
    Option (Except StreamError
      (CertificateBackfillResult × BlockStream CertificateRows CertificateBackfill)) :=
  (streamCrawledBlocks certificateWriter hasBackend fromSlot toSlot batchBlocks
    ⟨db, ⟨0, 0, 0, 0, 0⟩, false⟩ messages).map <| Except.map fun (intersection, stream) =>
      let progress := stream.store.progress
      let progress := if stream.store.started then progress
        else { progress with atSlot := (intersection.map ChainPoint.slot).getD 0 }
      (⟨progress, fromSlot, toSlot, intersection⟩, stream)

/-- The block the stream starts after. -/
def streamStart (db : Db) (fromSlot : Int) : Option BlockHash :=
  (intersectionBefore db fromSlot.toNat).map ChainPoint.hash

/-- The batches that the blocks of the range are streamed in. -/
def certificateBatches (fromSlot toSlot : Int) (batchBlocks : Option Int)
    (messages : List NodeMessage) : List (List (StreamedBlock CertificateRows)) :=
  chunk (streamedBlocks certificateWriter.collect fromSlot.toNat toSlot.toNat messages)
    (max 1 (batchBlocks.getD 200)).toNat

/-! ## What is claimed of a backfill -/

/-- A stored block of the range that the node's chain contains when the stream passes it. -/
structure BlockForks.Awaits (forks : BlockForks) (db : Db) (fromSlot toSlot : Int)
    (messages : List NodeMessage) (row : BlockRow) : Prop where
  stored : row ∈ (db.crawl .blocks).rows
  low : fromSlot.toNat ≤ forks.tree.rank row.hash
  high : forks.tree.rank row.hash ≤ toSlot.toNat
  onChain : forks.OnChain row.hash (settledTip toSlot.toNat (streamStart db fromSlot) messages)

/-- Every awaited block is handed over with its own rows, no other block than a stored one is,
and what is stored for an awaited block is what one write of it alone gives. -/
structure BackfillsAll (contents : BlockHash → List Transaction) (db : Db)
    (awaited : BlockRow → Prop) (stream : BlockStream CertificateRows CertificateBackfill) :
    Prop where
  handedOver : ∀ row, awaited row → ∃ batch ∈ stream.handed, ∃ block ∈ batch,
    block.hash = row.hash ∧ block.payload = certificateRows (contents row.hash)
  known : ∀ batch ∈ stream.handed, ∀ block ∈ batch,
    ∃ row ∈ (db.crawl .blocks).rows, row.hash = block.hash
  rows : ∀ row, awaited row → ∀ t ∈ contents row.hash, ∀ (table : CrawlTable) (kept : table.Row),
    table.owner (table.key kept) = .transaction t.hash →
      (kept ∈ (stream.store.db.crawl table).rows ↔
        kept ∈ (TableFamily.write db.crawl
          (certificateBatch (certificateRows (contents row.hash))) table).rows)

/-- A transaction has the same certificates and withdrawals in every block, and one row for
each of their keys. -/
structure OwnCertificates (contents : BlockHash → List Transaction) : Prop where
  same : ∀ first second, ∀ t ∈ contents first, ∀ u ∈ contents second, t.hash = u.hash →
    t.certificates = u.certificates ∧ t.withdrawals = u.withdrawals
  certificates : ∀ hash, ∀ t ∈ contents hash,
    ((t.certificates.getD []).map fun c => (c.certIndex, c.kind)).Nodup
  withdrawals : ∀ hash, ∀ t ∈ contents hash,
    ((t.withdrawals.getD []).map TxWithdrawal.stakeAddress).Nodup

/-! ## The rows of transactions -/

section Rows

variable {contents : BlockHash → List Transaction} {table : CrawlTable}

theorem mem_certificateBatch {txs : List Transaction} {row : table.Row} :
    row ∈ certificateBatch (certificateRows txs) table ↔
      ∃ t ∈ txs, row ∈ certificateBatch (certificateRows [t]) table := by
  cases table <;> simp [certificateBatch, certificateRows]

theorem owner_of_mem_certificateBatch {t : Transaction} {row : table.Row}
    (rowMem : row ∈ certificateBatch (certificateRows [t]) table) :
    table.owner (table.key row) = .transaction t.hash := by
  cases table with
  | transactionCertificates =>
      simp only [certificateBatch, certificateRows, List.flatMap_singleton] at rowMem
      exact congrArg RowOwner.transaction (tx_of_mem_certificates rowMem)
  | transactionWithdrawals =>
      simp only [certificateBatch, certificateRows, List.flatMap_singleton] at rowMem
      exact congrArg RowOwner.transaction (tx_of_mem_withdrawals rowMem)
  | _ => exact absurd rowMem List.not_mem_nil

theorem mergedRows_append (first second : List (StreamedBlock CertificateRows)) :
    certificateBatch (mergedRows (first ++ second)) = fun table =>
      certificateBatch (mergedRows first) table ++ certificateBatch (mergedRows second) table := by
  funext table
  cases table <;> simp [certificateBatch, mergedRows]

theorem mem_mergedRows {blocks : List (StreamedBlock CertificateRows)} {row : table.Row} :
    row ∈ certificateBatch (mergedRows blocks) table ↔
      ∃ block ∈ blocks, row ∈ certificateBatch block.payload table := by
  cases table <;> simp [certificateBatch, mergedRows]

namespace OwnCertificates

/-- Rows of one transaction, in whichever blocks, are the same. -/
theorem batch_eq (own : OwnCertificates contents) {first second : BlockHash} {t u : Transaction}
    (tMem : t ∈ contents first) (uMem : u ∈ contents second) (sameHash : t.hash = u.hash) :
    certificateBatch (certificateRows [t]) = certificateBatch (certificateRows [u]) := by
  obtain ⟨certificates, withdrawals⟩ := own.same first second t tMem u uMem sameHash
  simp only [certificateRows, List.flatMap_singleton, sameHash, certificates, withdrawals]

theorem keys_nodup (own : OwnCertificates contents) {hash : BlockHash} {t : Transaction}
    (tMem : t ∈ contents hash) :
    ((certificateBatch (certificateRows [t]) table).map table.key).Nodup := by
  cases table with
  | transactionCertificates =>
      simp only [certificateBatch, certificateRows, List.flatMap_singleton,
        mapTransactionCertificates, List.map_map]
      refine List.Nodup.of_map Prod.snd ?_
      rw [List.map_map]
      exact own.certificates hash t tMem
  | transactionWithdrawals =>
      simp only [certificateBatch, certificateRows, List.flatMap_singleton,
        mapTransactionWithdrawals, List.map_map]
      refine List.Nodup.of_map Prod.snd ?_
      rw [List.map_map]
      exact (own.withdrawals hash t tMem).sublist (List.filter_sublist.map _)
  | _ => exact List.nodup_nil

end OwnCertificates

/-- A row of the written blocks. -/
def WrittenRow (contents : BlockHash → List Transaction) (table : CrawlTable) (row : table.Row) :
    Prop :=
  ∃ hash, ∃ t ∈ contents hash, row ∈ certificateBatch (certificateRows [t]) table

theorem OwnCertificates.agree (own : OwnCertificates contents) {first second : table.Row}
    (firstWritten : WrittenRow contents table first)
    (secondWritten : WrittenRow contents table second)
    (sameKey : table.key first = table.key second) : first = second := by
  obtain ⟨hash, t, tMem, firstMem⟩ := firstWritten
  obtain ⟨other, u, uMem, secondMem⟩ := secondWritten
  have owners := congrArg table.owner sameKey
  rw [owner_of_mem_certificateBatch firstMem, owner_of_mem_certificateBatch secondMem] at owners
  rw [own.batch_eq uMem tMem (RowOwner.transaction.inj owners).symm] at secondMem
  exact List.inj_on_of_nodup_map (own.keys_nodup tMem) firstMem secondMem sameKey

end Rows

/-! ## When nothing is missed -/

section Backfill

variable {forks : BlockForks} {contents : BlockHash → List Transaction} {db : Db}
  {messages : List NodeMessage}

theorem certificateWriter_keepsBlocks : certificateWriter.KeepsBlocks := fun _ _ _ => rfl

/-- The backfill writes the rows of what is handed over. -/
theorem crawl_handOverAll (s : BlockStream CertificateRows CertificateBackfill) (batchBlocks : Nat)
    (blocks : List (StreamedBlock CertificateRows)) :
    (BlockStream.handOverAll certificateWriter batchBlocks s blocks).store.db.crawl =
      TableFamily.write s.store.db.crawl (certificateBatch (mergedRows
        ((chunk blocks batchBlocks).map (heldBlocks s.store.db)).flatten)) := by
  unfold BlockStream.handOverAll
  induction chunk blocks batchBlocks generalizing s with
  | nil =>
      funext table
      cases table <;> rfl
  | cons batch rest ih =>
      have kept : (s.handOver certificateWriter batch).store.db.crawl .blocks =
          s.store.db.crawl .blocks := rfl
      have later : heldBlocks (s.handOver certificateWriter batch).store.db =
          @heldBlocks CertificateRows s.store.db := funext (heldBlocks_congr kept)
      rw [List.foldl_cons, ih, later, List.map_cons, List.flatten_cons, mergedRows_append]
      exact TableFamily.write_write ..

/-- Two writes that agree on the rows of an owner leave the same of them. -/
theorem mem_write_congr {table : CrawlTable} {tables : CrawlStore}
    {first second : (table : CrawlTable) → List table.Row} {owned : RowOwner}
    (firstAgree : ∀ row ∈ first table, ∀ other ∈ first table,
      table.key row = table.key other → row = other)
    (secondAgree : ∀ row ∈ second table, ∀ other ∈ second table,
      table.key row = table.key other → row = other)
    (same : ∀ row, table.owner (table.key row) = owned → (row ∈ first table ↔ row ∈ second table))
    {row : table.Row} (isOwned : table.owner (table.key row) = owned) :
    row ∈ (TableFamily.write tables first table).rows ↔
      row ∈ (TableFamily.write tables second table).rows := by
  have keys : table.key row ∈ (first table).map table.key ↔
      table.key row ∈ (second table).map table.key := by
    constructor
    · intro written
      obtain ⟨other, otherMem, sameKey⟩ := List.mem_map.mp written
      exact sameKey ▸ List.mem_map_of_mem ((same other (sameKey ▸ isOwned)).mp otherMem)
    · intro written
      obtain ⟨other, otherMem, sameKey⟩ := List.mem_map.mp written
      exact sameKey ▸ List.mem_map_of_mem ((same other (sameKey ▸ isOwned)).mpr otherMem)
  unfold TableFamily.write
  rw [Table.mem_upsertAll_iff firstAgree, Table.mem_upsertAll_iff secondAgree, same row isOwned,
    keys]

section Handed

variable {batches : List (List (StreamedBlock CertificateRows))}

/-- Handed-over blocks are as their forks have them. -/
def AsOnForks (contents : BlockHash → List Transaction)
    (batches : List (List (StreamedBlock CertificateRows))) : Prop :=
  ∀ batch ∈ batches, ∀ block ∈ batch, block.payload = certificateRows (contents block.hash)

theorem writtenRow_of_mem (described : AsOnForks contents batches) {table : CrawlTable}
    {row : table.Row} (written : row ∈ certificateBatch (mergedRows batches.flatten) table) :
    ∃ batch ∈ batches, ∃ block ∈ batch, ∃ t ∈ contents block.hash,
      row ∈ certificateBatch (certificateRows [t]) table := by
  obtain ⟨block, blockMem, rowMem⟩ := mem_mergedRows.mp written
  obtain ⟨batch, batchMem, blockMem⟩ := List.mem_flatten.mp blockMem
  rw [described batch batchMem block blockMem] at rowMem
  obtain ⟨t, tMem, rowMem⟩ := mem_certificateBatch.mp rowMem
  exact ⟨batch, batchMem, block, blockMem, t, tMem, rowMem⟩

/-- What is stored of a block that was handed over is what one write of it alone gives. -/
theorem OwnCertificates.rows_of_handed (own : OwnCertificates contents)
    (described : AsOnForks contents batches) {batch : List (StreamedBlock CertificateRows)}
    {block : StreamedBlock CertificateRows} (batchMem : batch ∈ batches) (blockMem : block ∈ batch)
    {t : Transaction} (tMem : t ∈ contents block.hash) {table : CrawlTable} {kept : table.Row}
    (owned : table.owner (table.key kept) = .transaction t.hash) :
    kept ∈ (TableFamily.write db.crawl (certificateBatch (mergedRows batches.flatten)) table).rows ↔
      kept ∈ (TableFamily.write db.crawl
        (certificateBatch (certificateRows (contents block.hash))) table).rows := by
  refine mem_write_congr ?_ ?_ ?_ owned
  · intro first firstMem second secondMem sameKey
    obtain ⟨-, -, other, -, u, uMem, firstMem⟩ := writtenRow_of_mem described firstMem
    obtain ⟨-, -, another, -, v, vMem, secondMem⟩ := writtenRow_of_mem described secondMem
    exact own.agree ⟨_, u, uMem, firstMem⟩ ⟨_, v, vMem, secondMem⟩ sameKey
  · intro first firstMem second secondMem sameKey
    obtain ⟨u, uMem, firstMem⟩ := mem_certificateBatch.mp firstMem
    obtain ⟨v, vMem, secondMem⟩ := mem_certificateBatch.mp secondMem
    exact own.agree ⟨_, u, uMem, firstMem⟩ ⟨_, v, vMem, secondMem⟩ sameKey
  · intro row rowOwned
    constructor
    · intro written
      obtain ⟨-, -, other, -, u, uMem, rowMem⟩ := writtenRow_of_mem described written
      have sameHash := (owner_of_mem_certificateBatch rowMem).symm.trans rowOwned
      rw [own.batch_eq uMem tMem (RowOwner.transaction.inj sameHash)] at rowMem
      exact mem_certificateBatch.mpr ⟨t, tMem, rowMem⟩
    · intro alone
      refine mem_mergedRows.mpr ⟨block, List.mem_flatten.mpr ⟨batch, batchMem, blockMem⟩, ?_⟩
      rw [described batch batchMem block blockMem]
      exact alone

end Handed

/-- A row of an awaited block is held in a batch exactly when it has its slot and the batch
encloses it. -/
theorem exists_heldBlocks_iff
    (slots : ∀ row ∈ (db.crawl .blocks).rows,
      row.slot = none ∨ row.slot = some (forks.tree.rank row.hash))
    {row : BlockRow} (stored : row ∈ (db.crawl .blocks).rows)
    (batches : List (List (StreamedBlock CertificateRows))) :
    (∃ batch ∈ batches, ∃ block ∈ heldBlocks db batch, block.hash = row.hash) ↔
      row.slot ≠ none ∧ SpannedBy batches row.hash (forks.tree.rank row.hash) := by
  constructor
  · rintro ⟨batch, batchMem, block, held, sameHash⟩
    obtain ⟨first, last, isFirst, isLast, blockMem, other, otherMem, otherHash, slot, known, low,
      high⟩ := mem_heldBlocks.mp held
    have isRow : other = row := Table.mem_rows_inj otherMem stored (otherHash.trans sameHash)
    subst isRow
    have isRank : slot = forks.tree.rank other.hash := by
      rcases slots other stored with unknown | isRank
      · exact absurd (known.symm.trans unknown) (Option.some_ne_none slot)
      · exact Option.some.inj (known.symm.trans isRank)
    subst isRank
    exact ⟨by rw [known]; exact Option.some_ne_none _, batch, batchMem, first, last, isFirst, isLast,
      List.mem_map.mpr ⟨block, blockMem, sameHash⟩, low, high⟩
  · rintro ⟨hasSlot, batch, batchMem, first, last, isFirst, isLast, hashMem, low, high⟩
    obtain ⟨block, blockMem, sameHash⟩ := List.mem_map.mp hashMem
    have known := (slots row stored).resolve_left hasSlot
    exact ⟨batch, batchMem, block, mem_heldBlocks.mpr ⟨first, last, isFirst, isLast, blockMem, row,
      stored, sameHash.symm, _, known, low, high⟩, sameHash⟩

/-- A backfill hands over what its batches hold, and writes that. -/
theorem backfillCertificates_eq_ok {hasBackend : Bool} {fromSlot toSlot : Int}
    {batchSize : Option Int} {result : CertificateBackfillResult}
    {stream : BlockStream CertificateRows CertificateBackfill}
    (returned : backfillCertificates hasBackend fromSlot toSlot batchSize db messages =
      some (.ok (result, stream))) :
    stream.handed =
        (certificateBatches fromSlot toSlot batchSize messages).map (heldBlocks db) ∧
      stream.store.db.crawl = TableFamily.write db.crawl
        (certificateBatch (mergedRows stream.handed.flatten)) := by
  obtain ⟨answer, streamed, mapped⟩ := Option.map_eq_some_iff.mp returned
  cases answer with
  | error error => cases mapped
  | ok answer =>
      obtain ⟨intersection, s⟩ := answer
      cases mapped
      obtain ⟨-, rfl⟩ := streamCrawledBlocks_eq_ok streamed
      have handed := @handed_handOverAll _ _ certificateWriter (max 1 (batchSize.getD 200)).toNat
        ⟨[], ⟨db, ⟨0, 0, 0, 0, 0⟩, false⟩, [], none⟩ certificateWriter_keepsBlocks
        (streamedBlocks certificateWriter.collect fromSlot.toNat toSlot.toNat messages)
      exact ⟨handed, (crawl_handOverAll _ _ _).trans (by rw [handed]; rfl)⟩

/-- A backfill misses nothing exactly when each awaited block is stored with its slot and streamed
in a batch whose first and last block enclose that slot. -/
theorem backfillCertificates_complete_iff {hasBackend : Bool} {fromSlot toSlot : Int}
    {batchBlocks : Option Int} {result : CertificateBackfillResult}
    {stream : BlockStream CertificateRows CertificateBackfill}
    (slots : ∀ row ∈ (db.crawl .blocks).rows,
      row.slot = none ∨ row.slot = some (forks.tree.rank row.hash))
    (own : OwnCertificates contents)
    (sends : forks.Sends contents (streamStart db fromSlot) messages)
    (returned : backfillCertificates hasBackend fromSlot toSlot batchBlocks db messages =
      some (.ok (result, stream))) :
    BackfillsAll contents db (forks.Awaits db fromSlot toSlot messages) stream ↔
      ∀ row, forks.Awaits db fromSlot toSlot messages row →
        row.slot ≠ none ∧ SpannedBy (certificateBatches fromSlot toSlot batchBlocks messages)
          row.hash (forks.tree.rank row.hash) := by
  obtain ⟨handed, crawl⟩ := backfillCertificates_eq_ok returned
  have positive : 0 < (max 1 (batchBlocks.getD 200)).toNat := by omega
  have described : AsOnForks contents stream.handed := by
    intro batch batchMem block blockMem
    rw [handed] at batchMem
    obtain ⟨whole, wholeMem, rfl⟩ := List.mem_map.mp batchMem
    obtain ⟨-, -, -, -, inWhole, -⟩ := mem_heldBlocks.mp blockMem
    have streamed := List.mem_flatten.mpr ⟨whole, wholeMem, inWhole⟩
    rw [certificateBatches, flatten_chunk _ positive] at streamed
    exact (sends.streamed streamed).2
  have isHeld (row : BlockRow) : (∃ batch ∈ stream.handed, ∃ block ∈ batch, block.hash = row.hash) ↔
      ∃ batch ∈ certificateBatches fromSlot toSlot batchBlocks messages,
        ∃ block ∈ heldBlocks db batch, block.hash = row.hash := by
    simp only [handed, List.mem_map, exists_exists_and_eq_and]
  constructor
  · intro all row awaited
    obtain ⟨batch, batchMem, block, blockMem, sameHash, -⟩ := all.handedOver row awaited
    exact (exists_heldBlocks_iff slots awaited.stored _).mp
      ((isHeld row).mp ⟨batch, batchMem, block, blockMem, sameHash⟩)
  · intro spanned
    have handedOver (row : BlockRow) (awaited : forks.Awaits db fromSlot toSlot messages row) :
        ∃ batch ∈ stream.handed, ∃ block ∈ batch, block.hash = row.hash :=
      (isHeld row).mpr ((exists_heldBlocks_iff slots awaited.stored _).mpr (spanned row awaited))
    constructor
    · intro row awaited
      obtain ⟨batch, batchMem, block, blockMem, sameHash⟩ := handedOver row awaited
      exact ⟨batch, batchMem, block, blockMem, sameHash,
        sameHash ▸ described batch batchMem block blockMem⟩
    · intro batch batchMem block blockMem
      rw [handed] at batchMem
      obtain ⟨whole, -, rfl⟩ := List.mem_map.mp batchMem
      obtain ⟨-, -, -, -, -, row, rowMem, sameHash, -⟩ := mem_heldBlocks.mp blockMem
      exact ⟨row, rowMem, sameHash⟩
    · intro row awaited t tMem table kept owned
      obtain ⟨batch, batchMem, block, blockMem, sameHash⟩ := handedOver row awaited
      rw [crawl, ← sameHash]
      exact own.rows_of_handed described batchMem blockMem (sameHash.symm ▸ tMem) owned

/-- Where no batch goes back below the slot of its first block, an awaited block is streamed in a
batch that encloses it, if the stream starts before the range. -/
theorem BlockForks.Awaits.spannedBy {fromSlot toSlot : Int} {batchBlocks : Option Int}
    {row : BlockRow} (awaited : forks.Awaits db fromSlot toSlot messages row)
    (sends : forks.Sends contents (streamStart db fromSlot) messages)
    (startsBefore : ∀ node, streamStart db fromSlot = some node →
      forks.tree.rank node < fromSlot.toNat)
    (fromFirst : ∀ batch ∈ certificateBatches fromSlot toSlot batchBlocks messages,
      ∀ first, batch.head? = some first → ∀ block ∈ batch, first.slot ≤ block.slot) :
    SpannedBy (certificateBatches fromSlot toSlot batchBlocks messages) row.hash
      (forks.tree.rank row.hash) := by
  have positive : 0 < (max 1 (batchBlocks.getD 200)).toNat := by omega
  refine sends.spannedBy positive fromFirst awaited.low awaited.high awaited.onChain ?_
  rintro ⟨node, isStart, ancestor⟩
  have below := startsBefore node isStart
  have above := ParentTree.Ancestor.rank_le ancestor
  have low := awaited.low
  omega

end Backfill

/-! `c` and `d` are on top of `a`, and `e` is on top of `c`.  The node first delivers `d`, then
goes back to `a` and delivers `c`, whose slot is the lower one, and `e`. -/

def replacedBlocks : BlockForks where
  tree :=
    { parent := fun hash =>
        if hash = text "c" ∨ hash = text "d" then some (text "a")
        else if hash = text "e" then some (text "c") else none
      rank := fun hash =>
        if hash = text "c" then 30 else if hash = text "d" then 31
        else if hash = text "e" then 40 else 20
      rank_lt := by
        intro child node isParent
        split at isParent
        · rename_i above
          cases isParent
          rcases above with rfl | rfl <;> decide
        · split at isParent
          · rename_i isE
            cases isParent
            subst isE
            decide
          · cases isParent }
  height := fun hash =>
    if hash = text "c" ∨ hash = text "d" then 3 else if hash = text "e" then 4 else 2
  height_child := by
    intro child node isParent
    simp only [ParentTree.ChildOf] at isParent
    split at isParent
    · rename_i above
      cases isParent
      rcases above with rfl | rfl <;> decide
    · split at isParent
      · rename_i isE
        cases isParent
        subst isE
        decide
      · cases isParent
  data := fun hash =>
    { sampleBlock hash (if hash = text "c" then 30 else if hash = text "d" then 31
        else if hash = text "e" then 40 else 20) 0 with
      height := some (if hash = text "c" ∨ hash = text "d" then 3
        else if hash = text "e" then 4 else 2) }
  data_hash _ := rfl
  data_slot _ := rfl
  data_height _ := rfl

/-- A stake registration in `c`. -/
def replacedContents (hash : BlockHash) : List Transaction :=
  if hash = text "c" then
    [{ sampleTx (text "t1") (text "c") 30 [] [] with
        certificates := some [⟨0, "stake_registration", some "stake1", none, none, none, none⟩] }]
  else []

def replacedRow (hash : BlockHash) : BlockRow := mapBlock (replacedBlocks.data hash) none

/-- A crawler from `a` on, at `c`. -/
def replacedDb : Db where
  crawl := TableFamily.write CrawlStore.empty (blockBatch (replacedRow (text "c")))
  ledger := LedgerDb.empty
  sync := SyncState.initial "preview" (some ⟨20, text "a", some 2⟩)

def replacedMessages : List NodeMessage :=
  [.rollBackward (some ⟨20, text "a", none⟩),
    .rollForward (replacedBlocks.data (text "d")) (replacedContents (text "d")),
    .rollBackward (some ⟨20, text "a", none⟩),
    .rollForward (replacedBlocks.data (text "c")) (replacedContents (text "c")),
    .rollForward (replacedBlocks.data (text "e")) (replacedContents (text "e"))]

theorem replacedMessages_sends :
    replacedBlocks.Sends replacedContents (streamStart replacedDb 25) replacedMessages := by
  have start : streamStart replacedDb 25 = some (text "a") := by decide +kernel
  have back {node : BlockHash} (isAncestor : replacedBlocks.tree.Ancestor (text "a") node) :
      ∀ hash, some (text "a") = some hash →
        ∃ other, some node = some other ∧ replacedBlocks.tree.Ancestor hash other := by
    rintro hash ⟨⟩
    exact ⟨node, rfl, isAncestor⟩
  rw [start]
  refine @BlockForks.Sends.rollBackward _ _ _ (some (text "a")) none _ (back .refl) ?_
  refine .rollForward rfl ?_
  refine @BlockForks.Sends.rollBackward _ _ _ (some (text "a")) none _ (back (.single rfl)) ?_
  exact .rollForward rfl (.rollForward rfl (.nil _))

theorem replacedContents_own : OwnCertificates replacedContents where
  same := by
    intro first second t tMem u uMem _
    simp only [replacedContents, List.mem_ite_nil_right, List.mem_singleton] at tMem uMem
    rw [tMem.2, uMem.2]
    exact ⟨rfl, rfl⟩
  certificates := by
    intro hash t tMem
    simp only [replacedContents, List.mem_ite_nil_right, List.mem_singleton] at tMem
    rw [tMem.2]
    exact List.nodup_singleton _
  withdrawals := by
    intro hash t tMem
    simp only [replacedContents, List.mem_ite_nil_right, List.mem_singleton] at tMem
    rw [tMem.2]
    exact List.nodup_nil

theorem replacedDb_rows {row : BlockRow} (rowMem : row ∈ (replacedDb.crawl .blocks).rows) :
    row = replacedRow (text "c") :=
  List.mem_singleton.mp rowMem

theorem replacedDb_slots : ∀ row ∈ (replacedDb.crawl .blocks).rows,
    row.slot = none ∨ row.slot = some (replacedBlocks.tree.rank row.hash) := by
  intro row rowMem
  rw [replacedDb_rows rowMem]
  exact .inr rfl

/-- In batches of one block, `c` is a batch of its own. -/
theorem backfillCertificates_complete_sample :
    ∃ result stream, backfillCertificates true 25 35 (some 1) replacedDb replacedMessages =
        some (.ok (result, stream)) ∧
      BackfillsAll replacedContents replacedDb
        (replacedBlocks.Awaits replacedDb 25 35 replacedMessages) stream := by
  have runs : ∃ result stream, backfillCertificates true 25 35 (some 1) replacedDb
      replacedMessages = some (.ok (result, stream)) := ⟨_, _, rfl⟩
  obtain ⟨result, stream, returned⟩ := runs
  refine ⟨result, stream, returned, (backfillCertificates_complete_iff replacedDb_slots
    replacedContents_own replacedMessages_sends returned).mpr fun row awaited => ?_⟩
  obtain rfl := replacedDb_rows awaited.stored
  refine ⟨Option.some_ne_none _, _, List.mem_cons_of_mem _ List.mem_cons_self, _, _, rfl, rfl, ?_, ?_, ?_⟩
  · exact List.mem_cons_self
  · decide
  · decide

/-- In one batch with `d`, the slot range of the batch ends before it starts. -/
theorem backfillCertificates_misses :
    ∃ result stream, backfillCertificates true 25 35 none replacedDb replacedMessages =
        some (.ok (result, stream)) ∧
      ¬ BackfillsAll replacedContents replacedDb
        (replacedBlocks.Awaits replacedDb 25 35 replacedMessages) stream := by
  have runs : ∃ result stream, backfillCertificates true 25 35 none replacedDb
      replacedMessages = some (.ok (result, stream)) := ⟨_, _, rfl⟩
  obtain ⟨result, stream, returned⟩ := runs
  refine ⟨result, stream, returned, fun all => ?_⟩
  have child : replacedBlocks.tree.ChildOf (text "e") (text "c") := rfl
  have awaited : replacedBlocks.Awaits replacedDb 25 35 replacedMessages
      (replacedRow (text "c")) :=
    ⟨List.mem_singleton_self _, by decide, by decide, text "e", rfl, .single child⟩
  obtain ⟨batch, batchMem, block, blockMem, -⟩ := all.handedOver _ awaited
  have nothing : ((certificateBatches 25 35 none replacedMessages).map
      (heldBlocks replacedDb)).map List.length = [0] := by decide +kernel
  rw [← (backfillCertificates_eq_ok returned).1] at nothing
  have empty : batch.length = 0 :=
    List.mem_singleton.mp (nothing ▸ List.mem_map_of_mem batchMem)
  rw [List.length_eq_zero_iff.mp empty] at blockMem
  cases blockMem

end Odatano
