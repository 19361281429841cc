import Odatano.CrawlRows
import Odatano.LedgerApply

/-!
# Indexing a block

`indexBlockFull` of `srv/blockchain/cardano-indexer.ts` on the crawled tables:
the inputs it resolves, the fees it corrects, the rows it builds and the rows of
other forks it drops.  Deletion of transactions follows
`srv/blockchain/transaction-rows.ts`.
-/

namespace Odatano

/-! ## Deleting transactions -/

/-- Hash and position of an indexed transaction. -/
structure TxKey where
  hash : TxHash
  txSeq : Option Nat
deriving DecidableEq

def TransactionRow.txKey (row : TransactionRow) : TxKey := ⟨row.hash, row.txSeq⟩

/-- The keys `deleteTransactionRows` deletes for some hashes and positions. -/
def deletesTransaction (hashes : List TxHash) (seqs : List Nat) :
    (table : CrawlTable) → table.Key → Bool
  | .blocks, _ => false
  | .transactions, hash => decide (hash ∈ hashes)
  | .transactionInputs, key => decide (key.1 ∈ seqs)
  | .transactionInputAssets, key => decide (key.1.1 ∈ seqs)
  | .transactionOutputs, key => decide (key.1 ∈ seqs)
  | .transactionOutputAssets, key => decide (key.1.1 ∈ seqs)
  | .transactionMetadata, key => decide (key.2 ∈ hashes)
  | .transactionCertificates, key => decide (key.1 ∈ hashes)
  | .transactionWithdrawals, key => decide (key.1 ∈ hashes)
  | .transactionRedeemers, key => decide (key.1 ∈ hashes)
  | .transactionDatums, key => decide (key.1 ∈ hashes)
  | .assetHistory, _ => false

/-- Delete one chunk of transactions with their child rows. -/
def deleteTransactionChunk (store : CrawlStore) (keyChunk : List TxKey) : CrawlStore :=
  TableFamily.delete store
    (deletesTransaction (keyChunk.map TxKey.hash) (keyChunk.filterMap TxKey.txSeq))

/-- Delete transactions with their input, output, asset, metadata, certificate,
withdrawal, redeemer and datum rows. -/
def deleteTransactionRows (store : CrawlStore) (keys : List TxKey) : CrawlStore :=
  (chunk keys IN_CHUNK).foldl deleteTransactionChunk store

/-- Hash and position of the given transactions that are indexed. -/
def readTxKeys (store : CrawlStore) (hashes : List TxHash) : List TxKey :=
  (chunk hashes IN_CHUNK).flatMap fun hashChunk =>
    ((store .transactions).select fun row => decide (row.hash ∈ hashChunk)).map
      TransactionRow.txKey

/-! ## Resolving inputs -/

/-- `copyUtxoData`: columns the input lacks are taken from the spent output. -/
def UtxoData.copyFrom (data out : UtxoData) : UtxoData where
  dataHash := data.dataHash.or out.dataHash
  inlineDatum := data.inlineDatum.or out.inlineDatum
  referenceScriptHash := data.referenceScriptHash.or out.referenceScriptHash
  referenceScriptSize := data.referenceScriptSize.or out.referenceScriptSize
  referenceScriptType := data.referenceScriptType.or out.referenceScriptType

/-- The outputs of a block by output reference. -/
def blockOutputs (txs : List Transaction) : OrderedMap Outpoint TxOutputLine :=
  (txs.flatMap fun t => t.outputs.map fun o => ((⟨t.hash, o.outputIndex⟩ : Outpoint), o)).foldl
    (fun outputs entry => OrderedMap.set outputs entry.1 entry.2) Table.empty

/-- Amount list of a ledger row, the shape a resolved input carries. -/
def ledgerRowAmount (row : LedgerUtxoRow) (assets : List LedgerUtxoAssetRow) : List Amount :=
  ⟨lovelace, row.lovelace⟩ :: assets.map fun a => ⟨a.unit, a.asset.quantity⟩

/-- Outputs of earlier blocks, read from the tables. -/
structure StoredOutputs where
  outByKey : OrderedMap Outpoint TransactionOutputRow
  amtByKey : OrderedMap Outpoint (List LineAssetRow)

/-- Read the outputs of some transactions.  Input and output rows are keyed by
position, so a position stands for the transaction read last under it. -/
def readStoredOutputs (store : CrawlStore) (sourceHashes : List TxHash) : StoredOutputs :=
  let hashBySeq : OrderedMap Nat TxHash := (readTxKeys store sourceHashes).foldl
    (fun hashes key =>
      match key.txSeq with
      | some txSeq => OrderedMap.set hashes txSeq key.hash
      | none => hashes) Table.empty
  let outpointOf (txSeq index : Nat) : Option Outpoint :=
    (OrderedMap.get? hashBySeq txSeq).map fun hash => ⟨hash, index⟩
  (chunk (OrderedMap.keys hashBySeq) IN_CHUNK).foldl
    (fun read seqChunk =>
      let outRows := (store .transactionOutputs).select fun r => decide (r.txSeq ∈ seqChunk)
      let assetRows :=
        (store .transactionOutputAssets).select fun r => decide (r.txSeq ∈ seqChunk)
      { outByKey := outRows.foldl
          (fun outputs r =>
            match outpointOf r.txSeq r.outputIndex with
            | some key => OrderedMap.set outputs key r
            | none => outputs) read.outByKey
        amtByKey := assetRows.foldl
          (fun amounts r =>
            match outpointOf r.txSeq r.lineIndex with
            | some key => OrderedMap.modify amounts key [] fun list => list ++ [r]
            | none => amounts) read.amtByKey })
    ⟨Table.empty, Table.empty⟩

/-- What the reads say about one bare input. -/
def StoredOutputs.fill (read : StoredOutputs) (input : TxInputLine) : TxInputLine :=
  let out := OrderedMap.get? read.outByKey input.outpoint
  { input with
    address := (out.map TransactionOutputRow.address).getD input.address
    data := (out.map fun row => input.data.copyFrom row.utxo).getD input.data
    amount := ((OrderedMap.get? read.amtByKey input.outpoint).map fun rows =>
      rows.map fun r => (⟨r.unit, r.quantity⟩ : Amount)).getD input.amount }

/-- The ledger row and amounts a lookup holds for an output. -/
def LedgerLookup.output (lookup : LedgerLookup) (key : Outpoint) :
    Option (LedgerUtxoRow × List Amount) :=
  (OrderedMap.get? lookup.rows key).map fun row =>
    (row, ledgerRowAmount row ((OrderedMap.get? lookup.assets key).getD []))

/-- Fill bare chain-sync inputs from this block's outputs, then the UTxO set if
the ledger is due, then the tables.  Inputs with an address are skipped. -/
def resolveInputs (store : CrawlStore) (txs : List Transaction) (ledger : Option LedgerDb) :
    List Transaction × Option LedgerLookup :=
  let outputs := blockOutputs txs
  let unresolved := (txs.flatMap Transaction.inputs).filter fun input =>
    decide (input.address = "") && (OrderedMap.get? outputs input.outpoint).isNone
  let lookup := ledger.map fun db =>
    readLedgerOutputs db (unresolved.map TxInputLine.txHash) LedgerLookup.empty
  let ledgerOutput (key : Outpoint) := lookup.bind fun l => l.output key
  let remaining := unresolved.filter fun input => (ledgerOutput input.outpoint).isNone
  let stored := readStoredOutputs store (distinct (remaining.map TxInputLine.txHash))
  let resolve (input : TxInputLine) : TxInputLine :=
    if input.address ≠ "" then input
    else
      match OrderedMap.get? outputs input.outpoint with
      | some own =>
          { input with
            address := own.address
            amount := own.amount.amounts
            data := input.data.copyFrom own.data }
      | none =>
          match ledgerOutput input.outpoint with
          | some (row, amount) =>
              { input with
                address := row.address
                amount
                data := input.data.copyFrom row.utxo }
          | none => stored.fill input
  (txs.map fun t => { t with inputs := t.inputs.map resolve }, lookup)

/-! ## Fees and mints -/

/-- The fee of a phase-2 failure is collateral inputs minus collateral return.
The declared fee stays when `totalCollateral` set it or a collateral input is
not indexed. -/
def chargedFee (t : Transaction) : Option Int :=
  let collateral := t.inputs.filter TxInputLine.isCollateral
  let consumed := (collateral.map fun i => lovelaceOf i.amount).sum
  let returned := ((t.outputs.filter TxOutputLine.isCollateral).map fun o =>
    lovelaceOf o.amount.amounts).sum
  if !t.phase2Failed || t.totalCollateral.isSome then none
  else if collateral = [] then none
  else if collateral.any fun i => decide (i.address = "") then none
  else if consumed - returned < 0 then none
  else some (consumed - returned)

/-- Settle the fees of phase-2 failures and the fee total of the block. -/
def applyCollateralFees (block : BlockData) (txs : List Transaction) :
    BlockData × List Transaction :=
  let settled := txs.map fun t => { t with fee := (chargedFee t).getD t.fee }
  let corrected := txs.any fun t => (chargedFee t).isSome
  (if corrected then { block with fees := some (settled.map Transaction.fee).sum } else block,
    settled)

/-- Add signed amounts other than ada up by unit. -/
def netAmounts (signed : List (Int × Amount)) : OrderedMap AssetUnit Int :=
  OrderedMap.accumulate (fun entry => entry.2.unit) (fun _ => 0)
    (fun entry quantity => quantity + entry.1 * entry.2.quantity) Table.empty
    (signed.filter fun entry => decide (entry.2.unit ≠ lovelace))

/-- The ledger's mint field when the source reports it, else outputs minus spent
inputs; none for a failed script or an input that is not indexed. -/
def mintDelta (t : Transaction) : Option (OrderedMap AssetUnit Int) :=
  match t.mint with
  | some mint => some (netAmounts (mint.map fun m => (1, m)))
  | none =>
      let consumed := t.inputs.filter fun i => !i.isReference && !i.isCollateral
      if t.phase2Failed then none
      else if consumed.any fun i => decide (i.address = "") then none
      else
        let produced := t.outputs.filter fun o => !o.isCollateral
        some (netAmounts
          ((produced.flatMap fun o => o.amount.amounts.map fun a => (1, a)) ++
            consumed.flatMap fun i => i.amount.map fun a => (-1, a)))

/-- The row of one minted or burned quantity. -/
def mintRow (block : BlockData) (txHash : TxHash) (entry : AssetUnit × Int) :
    AssetHistoryRow where
  unit := entry.1
  txHash
  action := if 0 < entry.2 then .mint else .burn
  quantity := if entry.2 < 0 then -entry.2 else entry.2
  blockTime := some block.time
  blockHeight := block.height

/-- Mint and burn rows of a block. -/
def buildAssetHistoryRows (block : BlockData) (txs : List Transaction) :
    List AssetHistoryRow :=
  txs.flatMap fun t =>
    match mintDelta t with
    | none => []
    | some net =>
        (net.rows.filter fun entry => decide (entry.2 ≠ 0)).map (mintRow block t.hash)

theorem txHash_of_mem_assetHistory {block : BlockData} {txs : List Transaction}
    {row : AssetHistoryRow} (rowMem : row ∈ buildAssetHistoryRows block txs) :
    ∃ t ∈ txs, row.txHash = t.hash := by
  obtain ⟨t, tMem, rowMem⟩ := List.mem_flatMap.mp rowMem
  refine ⟨t, tMem, ?_⟩
  cases delta : mintDelta t with
  | none => simp [delta] at rowMem
  | some net =>
      rw [delta] at rowMem
      obtain ⟨entry, -, rfl⟩ := List.mem_map.mp rowMem
      rfl

/-! ## Rows of other forks -/

/-- The transactions `removeStaleTxSeqs` drops: stored under a position in the
range of this block's positions, but not of this block. -/
def staleTxSeqs (store : CrawlStore) (txs : List Transaction) : List TxKey :=
  let seqs := txs.map Transaction.txSeq
  match seqs.min?, seqs.max? with
  | some low, some high =>
      let rows := (store .transactions).select fun row =>
        row.txSeq.any fun txSeq => decide (low ≤ txSeq ∧ txSeq ≤ high)
      (rows.filter fun row => decide (row.hash ∉ txs.map Transaction.hash)).map
        TransactionRow.txKey
  | _, _ => []

/-- Drop transactions of another fork that hold one of this block's positions. -/
def removeStaleTxSeqs (store : CrawlStore) (txs : List Transaction) : CrawlStore :=
  deleteTransactionRows store (staleTxSeqs store txs)

/-- A deletion from `Blocks` only. -/
def deletesBlocks (hashes : List BlockHash) : (table : CrawlTable) → table.Key → Bool
  | .blocks, hash => decide (hash ∈ hashes)
  | _, _ => false

/-- The unreferenced blocks of the same height. -/
def supersededBlocks (store : CrawlStore) (block : BlockData) : List BlockHash :=
  match block.height with
  | none => []
  | some height =>
      let hashes := ((store .blocks).select fun row =>
        decide (row.height = some height ∧ row.hash ≠ block.hash)).map BlockRow.hash
      let keep := ((store .transactions).select fun row =>
        decide (row.blockHash ∈ hashes)).map TransactionRow.blockHash
      hashes.filter fun hash => decide (hash ∉ keep)

/-- Drop unreferenced block rows at the same height. -/
def removeSupersededBlocks (store : CrawlStore) (block : BlockData) : CrawlStore :=
  TableFamily.delete store (deletesBlocks (supersededBlocks store block))

/-! ## Writing a block -/

/-- What the crawl is configured to keep. -/
structure CrawlCoverage where
  assetHistory : Bool
  certificates : Bool
deriving DecidableEq

/-- The block row, as a batch. -/
def blockBatch (row : BlockRow) : (table : CrawlTable) → List table.Row
  | .blocks => [row]
  | _ => []

/-- The transaction rows and their child rows, one bulk statement per table. -/
def transactionBatch [Bech32] (coverage : CrawlCoverage) (txs : List Transaction) :
    (table : CrawlTable) → List table.Row
  | .blocks => []
  | .transactions => txs.map mapTransaction
  | .transactionInputs => txs.flatMap fun t => mapTransactionInputs t.txSeq t.inputs
  | .transactionInputAssets => txs.flatMap fun t => mapTransactionInputAssets t.txSeq t.inputs
  | .transactionOutputs => txs.flatMap fun t => mapTransactionOutputs t.txSeq t.outputs
  | .transactionOutputAssets => txs.flatMap fun t => mapTransactionOutputAssets t.txSeq t.outputs
  | .transactionMetadata => txs.flatMap fun t => mapTransactionMetadata (t.metadata.getD [])
  | .transactionCertificates =>
      if coverage.certificates then
        txs.flatMap fun t => mapTransactionCertificates t.hash (t.certificates.getD [])
      else []
  | .transactionWithdrawals =>
      if coverage.certificates then
        txs.flatMap fun t => mapTransactionWithdrawals t.hash (t.withdrawals.getD [])
      else []
  | .transactionRedeemers => txs.flatMap fun t =>
      mapTransactionRedeemers t.hash (t.redeemers.getD [])
  | .transactionDatums => txs.flatMap fun t => mapTransactionDatums t.hash (t.datums.getD [])
  | .assetHistory => []

/-- The mint and burn rows, as a batch. -/
def assetHistoryBatch (rows : List AssetHistoryRow) : (table : CrawlTable) → List table.Row
  | .assetHistory => rows
  | _ => []

/-- A block whose inputs are resolved and whose fees are settled, with the
ledger rows read on the way. -/
structure PreparedBlock where
  block : BlockData
  txs : List Transaction
  lookup : Option LedgerLookup

/-- What `indexBlockFull` does to a delivered block before it writes. -/
def prepareBlock (store : CrawlStore) (ledger : Option LedgerDb) (block : BlockData)
    (txs : List Transaction) : PreparedBlock :=
  let resolved := resolveInputs store txs ledger
  let settled := applyCollateralFees block resolved.1
  ⟨settled.1, settled.2, resolved.2⟩

/-- The writes of `indexBlockFull` to the crawled tables. -/
def indexBlockRows [Bech32] (coverage : CrawlCoverage) (store : CrawlStore)
    (epochData : Option Nat) (prepared : PreparedBlock) : CrawlStore :=
  let block := prepared.block
  let txs := prepared.txs
  let store := TableFamily.write store (blockBatch (mapBlock block epochData))
  let store := removeStaleTxSeqs store txs
  let assetHistoryRows :=
    if coverage.assetHistory then buildAssetHistoryRows block txs else []
  let store := TableFamily.write store (transactionBatch coverage txs)
  -- after the transactions moved here, so a rolled-back block they pointed at is not kept
  let store := removeSupersededBlocks store block
  TableFamily.write store (assetHistoryBatch assetHistoryRows)

end Odatano
