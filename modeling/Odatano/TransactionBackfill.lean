import Odatano.CrawledBlockStream

/-!
# The transaction backfill

`backfillTransactions` of `srv/blockchain/crawler/transaction-backfill.ts`: spent outputs, input
fields, redeemers and witness datums of crawled transactions, completed from a second chain-sync
stream.
-/

namespace Odatano

/-! ## The tables -/

/-- A `TransactionInputs` row as any version of the indexer may have left it. -/
structure StoredInputRow where
  txSeq : Nat
  inputIndex : Nat
  address : Option Address
  utxoData : UtxoData
  paymentCredential : Option String
  spentTxHash : Option TxHash
  spentOutputIndex : Option Nat
  isCollateral : Option Bool
  isReference : Option Bool
  hasAddresses : Option Bool
  hasAssets : Option Bool
deriving DecidableEq

def StoredInputRow.key (row : StoredInputRow) : Nat × Nat := (row.txSeq, row.inputIndex)

def LineAssetRow.key (row : LineAssetRow) : (Nat × Nat) × AssetUnit :=
  ((row.txSeq, row.lineIndex), row.unit)

def TransactionOutputRow.key (row : TransactionOutputRow) : Nat × Nat :=
  (row.txSeq, row.outputIndex)

def TransactionRedeemerRow.key (row : TransactionRedeemerRow) : TxHash × String × Nat :=
  (row.tx, row.purpose, row.redeemerIndex)

def TransactionDatumRow.key (row : TransactionDatumRow) : TxHash × String :=
  (row.tx, row.dataHash)

/-- Inputs and outputs, keyed by the position of their transaction. -/
structure LineTables where
  inputs : Table StoredInputRow.key
  inputAssets : Table LineAssetRow.key
  outputs : Table TransactionOutputRow.key
  outputAssets : Table LineAssetRow.key

/-- The tables of the backfill; redeemers and datums are keyed by transaction hash. -/
structure BackfillTables where
  lines : LineTables
  redeemers : Table TransactionRedeemerRow.key
  datums : Table TransactionDatumRow.key

/-! ## Stored and streamed inputs -/

/-- `lovelaceOf`: null when the input lists no lovelace. -/
def TxInputLine.lovelace? (input : TxInputLine) : Option Int :=
  (input.amount.find? fun a => decide (a.unit = lovelace)).map Amount.quantity

/-- The truthiness of a flag column. -/
def StoredInputRow.collateral (row : StoredInputRow) : Bool := row.isCollateral.getD false

def StoredInputRow.reference (row : StoredInputRow) : Bool := row.isReference.getD false

/-- The address, if the column is neither null nor empty. -/
def StoredInputRow.address? (row : StoredInputRow) : Option Address :=
  row.address.filter fun address => decide (address ≠ "")

/-- Whether a stored and a streamed input are the same: same flags, output, address and lovelace
where known.  A stored address the stream cannot resolve does not match. -/
def sameInput (row : StoredInputRow) (fresh : TxInputLine) (storedLovelace : Option Int) : Bool :=
  if row.collateral ≠ fresh.isCollateral ∨ row.reference ≠ fresh.isReference then false
  else
    match row.spentTxHash with
    | some hash =>
        -- `Number(null)` is zero
        decide (hash = fresh.txHash ∧ row.spentOutputIndex.getD 0 = fresh.outputIndex)
    | none =>
        match row.address? with
        | none => true
        | some address =>
            if fresh.address = "" then false
            else if address ≠ fresh.address then false
            else
              match storedLovelace, fresh.lovelace? with
              | some stored, some streamed => decide (stored = streamed)
              | _, _ => true

/-- The stored row has the outpoint and the flags of the streamed input. -/
def StoredInputRow.hasOutpointOf (row : StoredInputRow) (fresh : TxInputLine) : Bool :=
  decide (row.spentTxHash = some fresh.txHash ∧
    row.spentOutputIndex.getD 0 = fresh.outputIndex ∧
    row.collateral = fresh.isCollateral ∧ row.reference = fresh.isReference)

/-- Take the first row of each outpoint in turn. -/
def takeByOutpoint : List StoredInputRow → List TxInputLine → Option (List StoredInputRow)
  | _, [] => some []
  | rows, f :: fresh =>
      match rows.find? (·.hasOutpointOf f) with
      | none => none
      | some r => (takeByOutpoint (rows.erase r) fresh).map (r :: ·)

/-- Stored rows in stream order if they hold the same outputs once each. -/
def reorderByOutpoint (rows : List StoredInputRow) (fresh : List TxInputLine) :
    Option (List StoredInputRow) :=
  if rows.length ≠ fresh.length ∨ rows.any (·.spentTxHash.isNone) then none
  else takeByOutpoint rows fresh

/-- Columns that an update sets. -/
structure InputFields where
  spentTxHash : Option TxHash
  spentOutputIndex : Option Nat
  utxoData : UtxoData
  address : Option Address
  hasAddresses : Option Bool
  hasAssets : Option Bool
deriving DecidableEq

def InputFields.empty : InputFields :=
  ⟨none, none, ⟨none, none, none, none, none⟩, none, none, none⟩

/-- A column that is null and has a value to fill it. -/
def fillNull {α : Type*} (column fresh : Option α) : Option α :=
  if column.isNone then fresh else none

/-- Columns of `row` that are empty and `fresh` can fill. -/
def missingFields (row : StoredInputRow) (fresh : TxInputLine) : InputFields :=
  let unspent := row.spentTxHash.isNone
  let unresolved := row.address?.isNone && decide (fresh.address ≠ "")
  { spentTxHash := if unspent then some fresh.txHash else none
    spentOutputIndex := if unspent then some fresh.outputIndex else none
    utxoData :=
      { dataHash := fillNull row.utxoData.dataHash (orNull fresh.data.dataHash)
        inlineDatum := fillNull row.utxoData.inlineDatum (orNull fresh.data.inlineDatum)
        referenceScriptHash :=
          fillNull row.utxoData.referenceScriptHash (orNull fresh.data.referenceScriptHash)
        referenceScriptSize :=
          fillNull row.utxoData.referenceScriptSize fresh.data.referenceScriptSize
        referenceScriptType :=
          fillNull row.utxoData.referenceScriptType fresh.data.referenceScriptType }
    address := if unresolved then some fresh.address else none
    hasAddresses := if unresolved then some true else none
    hasAssets := if unresolved then some !fresh.amount.isEmpty else none }

/-! ## Writing fills -/

/-- `UPDATE … SET`: the columns that are set replace the stored ones. -/
def InputFields.set (fields : InputFields) (row : StoredInputRow) : StoredInputRow :=
  { row with
    spentTxHash := fields.spentTxHash.or row.spentTxHash
    spentOutputIndex := fields.spentOutputIndex.or row.spentOutputIndex
    utxoData :=
      { dataHash := fields.utxoData.dataHash.or row.utxoData.dataHash
        inlineDatum := fields.utxoData.inlineDatum.or row.utxoData.inlineDatum
        referenceScriptHash :=
          fields.utxoData.referenceScriptHash.or row.utxoData.referenceScriptHash
        referenceScriptSize :=
          fields.utxoData.referenceScriptSize.or row.utxoData.referenceScriptSize
        referenceScriptType :=
          fields.utxoData.referenceScriptType.or row.utxoData.referenceScriptType }
    address := fields.address.or row.address
    hasAddresses := fields.hasAddresses.or row.hasAddresses
    hasAssets := fields.hasAssets.or row.hasAssets }

/-- The `SET` list of `inputFillStatement`: `COALESCE` keeps existing values, and the flags follow
an address that is filled. -/
def InputFields.coalesce (fields : InputFields) (row : StoredInputRow) : StoredInputRow :=
  let resolves := fields.address.isSome && row.address.isNone
  { row with
    spentTxHash := row.spentTxHash.or fields.spentTxHash
    spentOutputIndex := row.spentOutputIndex.or fields.spentOutputIndex
    utxoData :=
      { dataHash := row.utxoData.dataHash.or fields.utxoData.dataHash
        inlineDatum := row.utxoData.inlineDatum.or fields.utxoData.inlineDatum
        referenceScriptHash :=
          row.utxoData.referenceScriptHash.or fields.utxoData.referenceScriptHash
        referenceScriptSize :=
          row.utxoData.referenceScriptSize.or fields.utxoData.referenceScriptSize
        referenceScriptType :=
          row.utxoData.referenceScriptType.or fields.utxoData.referenceScriptType }
    address := row.address.or fields.address
    hasAddresses := if resolves then fields.hasAddresses else row.hasAddresses
    hasAssets := if resolves then fields.hasAssets else row.hasAssets }

@[simp] theorem InputFields.key_set (fields : InputFields) (row : StoredInputRow) :
    (fields.set row).key = row.key := rfl

@[simp] theorem InputFields.key_coalesce (fields : InputFields) (row : StoredInputRow) :
    (fields.coalesce row).key = row.key := rfl

/-- Empty columns of one stored input and the values that fill them. -/
structure InputFill where
  txSeq : Nat
  inputIndex : Nat
  set : InputFields
deriving DecidableEq

def InputFill.key (fill : InputFill) : Nat × Nat := (fill.txSeq, fill.inputIndex)

inductive DbKind
  | postgres
  | sqlite
  | betterSqlite
  /-- Any other database. -/
  | other
deriving DecidableEq

/-- Whether `inputFillStatement` has a statement for the database. -/
def DbKind.fillsInBulk : DbKind → Bool
  | .other => false
  | _ => true

/-- Rows per statement. -/
def FILL_CHUNK : Nat := 5000

/-- The fill that the join finds for a row. -/
def bulkFill (fills : List InputFill) (row : StoredInputRow) : StoredInputRow :=
  match fills.find? fun fill => decide (fill.key = row.key) with
  | some fill => fill.set.coalesce row
  | none => row

theorem key_bulkFill (fills : List InputFill) (row : StoredInputRow) :
    (bulkFill fills row).key = row.key := by
  unfold bulkFill
  split <;> rfl

/-- One `UPDATE` that joins the fills on the input key. -/
def updateInBulk (inputs : Table StoredInputRow.key) (fills : List InputFill) :
    Table StoredInputRow.key :=
  inputs.update (fun _ => true) (bulkFill fills) (key_bulkFill fills)

/-- One `UPDATE` of one row. -/
def updateInput (inputs : Table StoredInputRow.key) (fill : InputFill) :
    Table StoredInputRow.key :=
  inputs.update (fun row => decide (row.key = fill.key)) fill.set.set fill.set.key_set

/-- Writes the fills of a batch: bulk statement where the database has one, else row by row. -/
def writeInputFills (kind : DbKind) (inputs : Table StoredInputRow.key)
    (fills : List InputFill) : Table StoredInputRow.key :=
  if kind.fillsInBulk then (chunk fills FILL_CHUNK).foldl updateInBulk inputs
  else fills.foldl updateInput inputs

/-! ## Rewriting a transaction -/

/-- Where a stored input goes, none if it is left out. -/
def newIndex (ordered : List StoredInputRow) (inputIndex : Nat) : Option Nat :=
  ordered.findIdx? fun r => decide (r.inputIndex = inputIndex)

/-- The rows of a transaction in the order of the stream, with their empty fields filled. -/
def orderedRows (seq : Nat) (ordered : List StoredInputRow) (fresh : List TxInputLine) :
    List StoredInputRow :=
  (ordered.zip fresh).mapIdx fun i pair =>
    { (missingFields pair.1 pair.2).set pair.1 with txSeq := seq, inputIndex := i }

/-- An asset row at another input. -/
def LineAssetRow.moveTo (row : LineAssetRow) (lineIndex : Nat) : LineAssetRow :=
  { row with lineIndex }

/-- Rewrite one transaction's inputs in ledger order.  Rows left out are dropped. -/
def rewriteInOrder (tables : LineTables) (seq : Nat) (ordered : List StoredInputRow)
    (fresh : List TxInputLine) : LineTables :=
  let assets := tables.inputAssets.select fun a => decide (a.txSeq = seq)
  let movedAssets := assets.filterMap fun a => (newIndex ordered a.lineIndex).map a.moveTo
  { tables with
    inputs :=
      (tables.inputs.delete fun row => decide (row.txSeq = seq)).upsertAll
        (orderedRows seq ordered fresh)
    inputAssets :=
      (tables.inputAssets.delete fun a => decide (a.txSeq = seq)).upsertAll movedAssets }

/-- Delete the outputs of one transaction that the stream does not have, if every streamed output
is stored. -/
def dropExtraOutputs (wanted : OrderedMap Nat (List Nat)) (state : LineTables × List Nat)
    (stored : Nat × List TransactionOutputRow) : LineTables × List Nat :=
  let keep := (OrderedMap.get? wanted stored.1).getD []
  let indices := stored.2.map TransactionOutputRow.outputIndex
  let extra := indices.filter fun i => decide (i ∉ keep)
  if extra = [] ∨ ∃ i ∈ keep, i ∉ indices then state
  else
    ({ state.1 with
        outputAssets := state.1.outputAssets.delete fun a =>
          decide (a.txSeq = stored.1 ∧ a.lineIndex ∈ extra)
        outputs := state.1.outputs.delete fun o =>
          decide (o.txSeq = stored.1 ∧ o.outputIndex ∈ extra) },
      state.2 ++ [stored.1])

/-- Delete outputs the ledger never produced.  Returns the transactions touched. -/
def dropUnappliedOutputs (tables : LineTables) (txs : List Transaction) :
    LineTables × List Nat :=
  let wanted : OrderedMap Nat (List Nat) := txs.foldl
    (fun wanted t => OrderedMap.set wanted t.txSeq (t.outputs.map TxOutputLine.outputIndex))
    Table.empty
  let rows := (chunk (OrderedMap.keys wanted) IN_CHUNK).flatMap fun seqChunk =>
    tables.outputs.select fun row => decide (row.txSeq ∈ seqChunk)
  let stored := OrderedMap.collect TransactionOutputRow.txSeq Table.empty rows
  stored.rows.foldl (dropExtraOutputs wanted) (tables, [])

/-! ## One batch -/

/-- Stored inputs of a batch.  `storedCount` is the length of the list of a transaction. -/
structure StoredInputs where
  stored : OrderedMap (Nat × Nat) StoredInputRow
  storedLovelace : OrderedMap (Nat × Nat) Int
  storedBySeq : OrderedMap Nat (List StoredInputRow)

/-- Read the stored inputs of one chunk of transactions. -/
def readStoredChunk (tables : LineTables) (read : StoredInputs) (seqChunk : List Nat) :
    StoredInputs :=
  let rows := tables.inputs.select fun row => decide (row.txSeq ∈ seqChunk)
  let lovelaces := tables.inputAssets.select fun a =>
    decide (a.txSeq ∈ seqChunk ∧ a.unit = lovelace)
  { stored := rows.foldl (fun map r => OrderedMap.set map r.key r) read.stored
    storedLovelace := lovelaces.foldl
      (fun map a => OrderedMap.set map (a.txSeq, a.lineIndex) a.quantity) read.storedLovelace
    storedBySeq := OrderedMap.collect StoredInputRow.txSeq read.storedBySeq rows }

def readStoredInputs (tables : LineTables) (seqs : List Nat) : StoredInputs :=
  (chunk seqs IN_CHUNK).foldl (readStoredChunk tables) ⟨Table.empty, Table.empty, Table.empty⟩

def StoredInputs.rowsOf (read : StoredInputs) (seq : Nat) : List StoredInputRow :=
  (OrderedMap.get? read.storedBySeq seq).getD []

/-- What is done with the stored inputs of a streamed transaction. -/
inductive InputPlan
  | fill
  | rewrite (ordered : List StoredInputRow)
  | skip
deriving DecidableEq

/-- The stored rows are the streamed inputs, each at its position. -/
def StoredInputs.lines (read : StoredInputs) (t : Transaction) : Bool :=
  decide ((read.rowsOf t.txSeq).length = t.inputs.length) &&
    t.inputs.zipIdx.all fun entry =>
      (OrderedMap.get? read.stored (t.txSeq, entry.2)).any fun row =>
        sameInput row entry.1 (OrderedMap.get? read.storedLovelace (t.txSeq, entry.2))

/-- The stored rows that the ledger view has: after a phase-2 failure the ledger applied no
regular input. -/
def keptInputs (t : Transaction) (rows : List StoredInputRow) : List StoredInputRow :=
  let all := rows.mergeSort fun a b => decide (a.inputIndex ≤ b.inputIndex)
  if t.phase2Failed then all.filter fun r => r.collateral || r.reference else all

def StoredInputs.plan (read : StoredInputs) (t : Transaction) : InputPlan :=
  if read.lines t then .fill
  else
    let kept := keptInputs t (read.rowsOf t.txSeq)
    let inPlace := decide (kept.length = t.inputs.length) &&
      (kept.zip t.inputs).all fun pair =>
        sameInput pair.1 pair.2
          (OrderedMap.get? read.storedLovelace (t.txSeq, pair.1.inputIndex))
    if inPlace then .rewrite kept
    else
      match reorderByOutpoint kept t.inputs with
      | some ordered => .rewrite ordered
      | none => .skip

/-- What fills the input at a position. -/
def StoredInputs.missingAt (read : StoredInputs) (seq : Nat) (entry : TxInputLine × Nat) :
    InputFields :=
  match OrderedMap.get? read.stored (seq, entry.2) with
  | some row => missingFields row entry.1
  | none => InputFields.empty

/-- The fills of a transaction whose rows are in line. -/
def StoredInputs.fills (read : StoredInputs) (t : Transaction) : List InputFill :=
  (t.inputs.zipIdx.map fun entry =>
      (⟨t.txSeq, entry.2, read.missingAt t.txSeq entry⟩ : InputFill)).filter
    fun fill => decide (fill.set ≠ InputFields.empty)

/-- The amounts of the inputs whose address is filled. -/
def StoredInputs.filledAssets (read : StoredInputs) (t : Transaction) : List LineAssetRow :=
  t.inputs.zipIdx.flatMap fun entry =>
    if (read.missingAt t.txSeq entry).address.isSome then
      (mapTransactionInputAssets t.txSeq t.inputs).filter fun a => decide (a.lineIndex = entry.2)
    else []

/-- What a batch is counted as. -/
structure BatchCounts where
  inputs : Nat
  rewritten : Nat
  skipped : Nat

/-- The transactions whose rows are in line. -/
def StoredInputs.inLine (read : StoredInputs) (txs : List Transaction) : List Transaction :=
  txs.filter fun t => decide (read.plan t = .fill)

/-- Fill the inputs of the transactions whose rows are in line. -/
def fillInLine (kind : DbKind) (tables : LineTables) (read : StoredInputs)
    (txs : List Transaction) : LineTables :=
  { tables with
    inputs := writeInputFills kind tables.inputs ((read.inLine txs).flatMap read.fills)
    inputAssets := tables.inputAssets.upsertAll ((read.inLine txs).flatMap read.filledAssets) }

/-- The transactions to rewrite. -/
def StoredInputs.reorders (read : StoredInputs) (txs : List Transaction) :
    List (Transaction × List StoredInputRow) :=
  txs.filterMap fun t =>
    match read.plan t with
    | .rewrite ordered => some (t, ordered)
    | _ => none

/-- Rewrite the transactions one after another. -/
def rewriteAll (tables : LineTables) (reorders : List (Transaction × List StoredInputRow)) :
    LineTables :=
  reorders.foldl
    (fun tables entry => rewriteInOrder tables entry.1.txSeq entry.2 entry.1.inputs) tables

/-- The inputs and outputs after a batch. -/
def backfillLines (kind : DbKind) (tables : LineTables) (txs : List Transaction) :
    LineTables × BatchCounts :=
  let read := readStoredInputs tables (txs.map Transaction.txSeq)
  let dropped := dropUnappliedOutputs
    (rewriteAll (fillInLine kind tables read txs) (read.reorders txs)) txs
  (dropped.1,
    { inputs := ((read.inLine txs).flatMap read.fills).length
      rewritten := (distinct ((read.reorders txs).map (·.1.txSeq) ++ dropped.2)).length
      skipped := (txs.filter fun t => decide (read.plan t = .skip)).length })

/-- The redeemers of a batch. -/
def redeemerRows (txs : List Transaction) : List TransactionRedeemerRow :=
  txs.flatMap fun t => mapTransactionRedeemers t.hash (t.redeemers.getD [])

/-- The witness datums of a batch. -/
def datumRows (txs : List Transaction) : List TransactionDatumRow :=
  txs.flatMap fun t => mapTransactionDatums t.hash (t.datums.getD [])

/-- The tables after a batch. -/
def backfillBatch (kind : DbKind) (tables : BackfillTables) (txs : List Transaction) :
    BackfillTables where
  lines := (backfillLines kind tables.lines txs).1
  redeemers := tables.redeemers.upsertAll (redeemerRows txs)
  datums := tables.datums.upsertAll (datumRows txs)

/-! ## The run -/

structure TransactionBackfillProgress where
  /-- Slot of the last block handled. -/
  atSlot : Nat
  blocks : Nat
  transactions : Nat
  inputs : Nat
  redeemers : Nat
  datums : Nat
  rewritten : Nat
  skipped : Nat

/-- The database, what was streamed with its inputs resolved, and the counts. -/
structure TransactionBackfill where
  db : Db
  tables : BackfillTables
  versions : List (List Transaction)
  progress : TransactionBackfillProgress
  started : Bool

structure TransactionBackfillResult where
  progress : TransactionBackfillProgress
  fromSlot : Int
  toSlot : Int
  intersection : Option ChainPoint

/-- `CardanoIndexer.resolveInputs`. -/
abbrev InputResolver := Db → BackfillTables → List Transaction → List Transaction

/-- The callbacks `backfillTransactions` passes. -/
def transactionWriter (kind : DbKind) (resolveInputs : InputResolver) :
    BatchWriter (List Transaction) TransactionBackfill where
  db := TransactionBackfill.db
  collect _ txs := txs
  writeBatch s blocks :=
    let streamed := blocks.flatMap StreamedBlock.payload
    let counted := { s.progress with
      blocks := s.progress.blocks + blocks.length
      transactions := s.progress.transactions + streamed.length }
    if streamed = [] then { s with progress := counted }
    else
      let txs := resolveInputs s.db s.tables streamed
      let counts := (backfillLines kind s.tables.lines txs).2
      { s with
        tables := backfillBatch kind s.tables txs
        versions := s.versions ++ [txs]
        progress :=
          { counted with
            inputs := s.progress.inputs + counts.inputs
            rewritten := s.progress.rewritten + counts.rewritten
            skipped := s.progress.skipped + counts.skipped
            redeemers := s.progress.redeemers + (redeemerRows txs).length
            datums := s.progress.datums + (datumRows txs).length } }
  afterBatch s toSlot := { s with started := true, progress := { s.progress with atSlot := toSlot } }

/-- `backfillTransactions` over the messages of the node; none while the stream has not passed
the range. -/
def backfillTransactions (kind : DbKind) (resolveInputs : InputResolver) (hasBackend : Bool)
    (fromSlot toSlot : Int) (batchBlocks : Option Int) (db : Db) (tables : BackfillTables)
    (messages : List NodeMessage) :
    Option (Except StreamError
      (TransactionBackfillResult × BlockStream (List Transaction) TransactionBackfill)) :=
  (streamCrawledBlocks (transactionWriter kind resolveInputs) hasBackend fromSlot toSlot batchBlocks
    ⟨db, tables, [], ⟨0, 0, 0, 0, 0, 0, 0, 0⟩, false⟩ messages).map <|
      Except.map fun (intersection, stream) =>
        let progress := stream.store.progress
        let progress := if stream.store.started then progress
          else { progress with atSlot := (intersection.map ChainPoint.slot).getD 0 }
        (⟨progress, fromSlot, toSlot, intersection⟩, stream)

end Odatano
