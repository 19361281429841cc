import Odatano.ChainRows

/-!
# What a store serves of a transaction

`assembleTransaction` of `srv/blockchain/stored-chain.ts` puts a transaction together from its
rows.  From the rows of one transaction it makes that transaction again, up to the order of some
lists and to what no row holds.
-/

namespace Odatano

/-! ## Served lines -/

def servedInput (input : TxInputLine) : TxInputLine :=
  { input with amount := lovelaceFirst input.amount, data := input.data.stored }

def servedOutput (failed : Bool) (output : TxOutputLine) : TxOutputLine :=
  { output with
    amount := Value.ofAmounts (lovelaceFirst output.amount.amounts)
    data := output.data.stored
    isCollateral := failed }

/-- A group of rows, absent when there are none. -/
def grouped {ρ : Type*} (rows : List ρ) : Option (List ρ) := if rows.isEmpty then none else some rows

theorem getD_grouped {ρ : Type*} (rows : List ρ) : (grouped rows).getD [] = rows := by
  cases rows <;> rfl

theorem getD_map_grouped {ρ α : Type*} (rows : List ρ) (f : List ρ → List α) (nil : f [] = []) :
    ((grouped rows).map f).getD [] = f rows := by
  cases rows with
  | nil => exact nil.symm
  | cons row rows => rfl

section Read

variable {κ γ ρ α : Type*} [DecidableEq κ] [DecidableEq γ] {key : ρ → α}

/-- A group of fetched rows is the group of the table. -/
theorem get?_groupBy_fetchIn (table : Table key) {column : ρ → κ} {keys : List κ}
    (nodup : keys.Nodup) {k : κ} (listed : k ∈ keys) :
    OrderedMap.get? (groupBy column (fetchIn table column keys)) k =
      grouped (table.rows.filter fun row => decide (column row = k)) := by
  rw [get?_groupBy, filter_fetchIn nodup listed fun row chosen => of_decide_eq_true chosen]
  cases table.rows.filter fun row => decide (column row = k) <;> rfl

end Read

/-- The asset rows of one of several numbered lines. -/
theorem filter_flatMap_lineAssets {α : Type*} {lines : List α} (txSeq : Nat)
    (lineIndex : α → Nat) (amount : α → List Amount) (indexes : (lines.map lineIndex).Nodup)
    {line : α} (lineMem : line ∈ lines) :
    ((lines.flatMap fun line => lineAssets txSeq (lineIndex line) (amount line)).filter
      fun row => decide (row.lineIndex = lineIndex line)) =
        lineAssets txSeq (lineIndex line) (amount line) := by
  refine @filter_flatMap_of_key _ _ _ _ lines _ lineIndex LineAssetRow.lineIndex ?_ indexes line
    lineMem
  intro line _ row rowMem
  obtain ⟨a, -, rfl⟩ := List.mem_map.mp rowMem
  rfl

/-- The amounts of a line are its asset rows, ada first. -/
theorem amounts_lineAssets (txSeq lineIndex : Nat) (amount : List Amount) :
    amounts (lineAssets txSeq lineIndex amount) = lovelaceFirst amount := by
  rw [amounts, lineAssets, List.map_map]
  exact congrArg lovelaceFirst (List.map_id amount)

/-! ## The rows of a transaction, table by table -/

section Tables

variable [Bech32] (coverage : CrawlCoverage) (block : BlockData) (t : Transaction)

@[simp] theorem rowsOfTransaction_transactions :
    rowsOfTransaction coverage block t .transactions = [mapTransaction t] := rfl

@[simp] theorem rowsOfTransaction_inputs :
    rowsOfTransaction coverage block t .transactionInputs =
      mapTransactionInputs t.txSeq t.inputs := by
  simp [rowsOfTransaction, transactionBatch, assetHistoryBatch]

@[simp] theorem rowsOfTransaction_inputAssets :
    rowsOfTransaction coverage block t .transactionInputAssets =
      mapTransactionInputAssets t.txSeq t.inputs := by
  simp [rowsOfTransaction, transactionBatch, assetHistoryBatch]

@[simp] theorem rowsOfTransaction_outputs :
    rowsOfTransaction coverage block t .transactionOutputs =
      mapTransactionOutputs t.txSeq t.outputs := by
  simp [rowsOfTransaction, transactionBatch, assetHistoryBatch]

@[simp] theorem rowsOfTransaction_outputAssets :
    rowsOfTransaction coverage block t .transactionOutputAssets =
      mapTransactionOutputAssets t.txSeq t.outputs := by
  simp [rowsOfTransaction, transactionBatch, assetHistoryBatch]

@[simp] theorem rowsOfTransaction_metadata :
    rowsOfTransaction coverage block t .transactionMetadata =
      mapTransactionMetadata (t.metadata.getD []) := by
  simp [rowsOfTransaction, transactionBatch, assetHistoryBatch]

@[simp] theorem rowsOfTransaction_certificates :
    rowsOfTransaction coverage block t .transactionCertificates =
      if coverage.certificates then mapTransactionCertificates t.hash (t.certificates.getD [])
      else [] := by
  simp [rowsOfTransaction, transactionBatch, assetHistoryBatch]

@[simp] theorem rowsOfTransaction_withdrawals :
    rowsOfTransaction coverage block t .transactionWithdrawals =
      if coverage.certificates then mapTransactionWithdrawals t.hash (t.withdrawals.getD [])
      else [] := by
  simp [rowsOfTransaction, transactionBatch, assetHistoryBatch]

@[simp] theorem rowsOfTransaction_redeemers :
    rowsOfTransaction coverage block t .transactionRedeemers =
      mapTransactionRedeemers t.hash (t.redeemers.getD []) := by
  simp [rowsOfTransaction, transactionBatch, assetHistoryBatch]

@[simp] theorem rowsOfTransaction_datums :
    rowsOfTransaction coverage block t .transactionDatums =
      mapTransactionDatums t.hash (t.datums.getD []) := by
  simp [rowsOfTransaction, transactionBatch, assetHistoryBatch]

@[simp] theorem rowsOfTransaction_assetHistory :
    rowsOfTransaction coverage block t .assetHistory =
      if coverage.assetHistory then buildAssetHistoryRows block [t] else [] := by
  simp [rowsOfTransaction, transactionBatch, assetHistoryBatch]

end Tables

section Served

variable [Bech32] (coverage : CrawlCoverage) (block : BlockData)

/-- A transaction as it is read back from its rows. -/
def servedTransaction (t : Transaction) : Transaction :=
  let rows := rowsOfTransaction coverage block t
  let failed := failsPhase2 (t.inputs.map servedInput)
  { hash := t.hash
    blockHash := t.blockHash
    blockHeight := some (t.blockHeight.getD 0)
    slot := t.slot
    index := t.index
    fee := t.fee
    deposit := t.deposit
    spendsCollaterals := some failed
    totalCollateral := none
    mint := (grouped (rows .assetHistory)).map fun rows => rows.map assembleMint
    size := t.size
    blockTime := some (t.blockTime.getD 0)
    inputs := t.inputs.map servedInput
    outputs := (t.outputs.mergeSort fun a b => decide (a.outputIndex ≤ b.outputIndex)).map
      (servedOutput failed)
    metadata := some ((rows .transactionMetadata).map metadataRow)
    certificates := (grouped (rows .transactionCertificates)).map fun rows =>
      rows.map assembleCertificate
    withdrawals := (grouped (rows .transactionWithdrawals)).map fun rows =>
      rows.map assembleWithdrawal
    redeemers := (grouped (rows .transactionRedeemers)).map fun rows =>
      (rows.mergeSort fun a b =>
        decide (a.purpose < b.purpose ∨
          a.purpose = b.purpose ∧ a.redeemerIndex ≤ b.redeemerIndex)).map assembleRedeemer
    datums := (grouped (rows .transactionDatums)).map fun rows => rows.map assembleDatum }

variable {coverage block}

/-! ## Reading the rows of a transaction -/

/-- A store holds the rows of a transaction, which is among the ones that are read. -/
structure ReadFrom (coverage : CrawlCoverage) (block : BlockData) (store : CrawlStore)
    (rows : List TransactionRow) (t : Transaction) : Prop where
  own : ∀ table : CrawlTable, table ≠ .blocks →
    ((store table).rows.filter fun row =>
      decide (table.owner (table.key row) = table.ownerOf t)) =
        rowsOfTransaction coverage block t table
  listed : mapTransaction t ∈ rows
  hashes : (rows.map TransactionRow.hash).Nodup
  seqs : (rows.filterMap TransactionRow.txSeq).Nodup

namespace ReadFrom

variable {store : CrawlStore} {rows : List TransactionRow} {t : Transaction}

theorem hash_listed (read : ReadFrom coverage block store rows t) :
    t.hash ∈ rows.map TransactionRow.hash :=
  List.mem_map.mpr ⟨_, read.listed, rfl⟩

theorem seq_listed (read : ReadFrom coverage block store rows t) :
    t.txSeq ∈ rows.filterMap TransactionRow.txSeq :=
  List.mem_filterMap.mpr ⟨_, read.listed, rfl⟩

/-- Rows that are keyed by hash. -/
theorem by_hash (read : ReadFrom coverage block store rows t) {table : CrawlTable}
    (isChild : table ≠ .blocks) {column : table.Row → TxHash}
    (isOwner : ∀ row, table.owner (table.key row) = .transaction (column row))
    (isOwn : table.ownerOf t = .transaction t.hash) :
    OrderedMap.get? (groupBy column (fetchIn (store table) column (rows.map TransactionRow.hash)))
      t.hash = grouped (rowsOfTransaction coverage block t table) := by
  rw [get?_groupBy_fetchIn (store table) read.hashes read.hash_listed, ← read.own table isChild]
  refine congrArg grouped (List.filter_congr fun row _ => decide_eq_decide.mpr ?_)
  rw [isOwner, isOwn, RowOwner.transaction.injEq]

/-- Rows that are keyed by position. -/
theorem by_seq (read : ReadFrom coverage block store rows t) {table : CrawlTable}
    (isChild : table ≠ .blocks) {column : table.Row → Nat}
    (isOwner : ∀ row, table.owner (table.key row) = .position (column row))
    (isOwn : table.ownerOf t = .position t.txSeq) :
    OrderedMap.get? (groupBy column
      (fetchIn (store table) column (rows.filterMap TransactionRow.txSeq))) t.txSeq =
        grouped (rowsOfTransaction coverage block t table) := by
  rw [get?_groupBy_fetchIn (store table) read.seqs read.seq_listed, ← read.own table isChild]
  refine congrArg grouped (List.filter_congr fun row _ => decide_eq_decide.mpr ?_)
  rw [isOwner, isOwn, RowOwner.position.injEq]

/-- The assets of one line. -/
theorem by_line (read : ReadFrom coverage block store rows t) {α : Type*} {key : LineAssetRow → α}
    {table : Table key} {assets : List LineAssetRow}
    (own : (table.rows.filter fun row => decide (row.txSeq = t.txSeq)) = assets) (i : Nat) :
    (OrderedMap.get? (groupBy LineAssetRow.line
      (fetchIn table LineAssetRow.txSeq (rows.filterMap TransactionRow.txSeq)))
        (t.txSeq, i)).getD [] = assets.filter fun row => decide (row.lineIndex = i) := by
  have here : ∀ row, LineAssetRow.line row = (t.txSeq, i) → LineAssetRow.txSeq row = t.txSeq :=
    fun row same => congrArg Prod.fst same
  rw [getD_get?_groupBy_fetchIn table read.seqs read.seq_listed LineAssetRow.line (t.txSeq, i) here,
    ← own, List.filter_filter]
  refine List.filter_congr fun row _ => ?_
  rw [← Bool.decide_and, decide_eq_decide, LineAssetRow.line, Prod.mk.injEq, and_comm]

theorem assembleInput_row (read : ReadFrom coverage block store rows t) {input : TxInputLine}
    {inputIndex : Nat} (inputMem : (input, inputIndex) ∈ t.inputs.zipIdx) :
    assembleInput (readChildren store rows)
      { txSeq := t.txSeq
        inputIndex
        address := if input.address = "" then none else some input.address
        utxoData := input.data.stored
        paymentCredential := paymentCredentialOf input.address
        spentTxHash := input.txHash
        spentOutputIndex := input.outputIndex
        isCollateral := input.isCollateral
        isReference := input.isReference
        hasAddresses := decide (input.address ≠ "")
        hasAssets := !input.amount.isEmpty } = servedInput input := by
  have assets : (((store .transactionInputAssets).rows.filter
      fun row => decide (row.txSeq = t.txSeq))) = mapTransactionInputAssets t.txSeq t.inputs := by
    have own := read.own .transactionInputAssets (by decide)
    simp only [CrawlTable.owner, CrawlTable.key, CrawlTable.ownerOf, RowOwner.position.injEq,
      rowsOfTransaction_inputAssets] at own
    exact own
  have line := read.by_line assets inputIndex
  rw [mapTransactionInputAssets, List.mapIdx_eq_zipIdx_map, ← List.flatMap_def] at line
  have own := filter_flatMap_lineAssets t.txSeq Prod.snd (fun entry => entry.1.amount)
    (zipIdx_snd_nodup t.inputs) inputMem
  rw [own] at line
  have amount : amounts ((OrderedMap.get? (readChildren store rows).inputAssetsByKey
      (t.txSeq, inputIndex)).getD []) = lovelaceFirst input.amount :=
    (congrArg amounts line).trans (amounts_lineAssets _ _ _)
  have address : (if input.address = "" then none else some input.address).getD "" =
      input.address := by
    split
    · rename_i isBare
      exact isBare.symm
    · rfl
  simp only [assembleInput, servedInput, amount, address]

theorem assembleOutput_row (read : ReadFrom coverage block store rows t)
    (indexes : (t.outputs.map TxOutputLine.outputIndex).Nodup) (failed : Bool)
    {output : TxOutputLine} (outputMem : output ∈ t.outputs) :
    assembleOutput (readChildren store rows) failed
      { txSeq := t.txSeq
        outputIndex := output.outputIndex
        address := output.address
        utxo := output.data.stored
        paymentCredential := paymentCredentialOf output.address
        hasAddresses := decide (output.address ≠ "")
        hasAssets := !output.amount.amounts.isEmpty } = servedOutput failed output := by
  have assets : (((store .transactionOutputAssets).rows.filter
      fun row => decide (row.txSeq = t.txSeq))) = mapTransactionOutputAssets t.txSeq t.outputs := by
    have own := read.own .transactionOutputAssets (by decide)
    simp only [CrawlTable.owner, CrawlTable.key, CrawlTable.ownerOf, RowOwner.position.injEq,
      rowsOfTransaction_outputAssets] at own
    exact own
  have line := read.by_line assets output.outputIndex
  have own := filter_flatMap_lineAssets t.txSeq TxOutputLine.outputIndex
    (fun output => output.amount.amounts) indexes outputMem
  rw [mapTransactionOutputAssets, own] at line
  have amount : amounts ((OrderedMap.get? (readChildren store rows).outputAssetsByKey
      (t.txSeq, output.outputIndex)).getD []) = lovelaceFirst output.amount.amounts :=
    (congrArg amounts line).trans (amounts_lineAssets _ _ _)
  simp only [assembleOutput, servedOutput, amount]

theorem assembled_inputs (read : ReadFrom coverage block store rows t) :
    (((OrderedMap.get? (readChildren store rows).inputsBySeq t.txSeq).getD []).mergeSort
      fun a b => decide (a.inputIndex ≤ b.inputIndex)).map
        (assembleInput (readChildren store rows)) = t.inputs.map servedInput := by
  have group : (OrderedMap.get? (readChildren store rows).inputsBySeq t.txSeq).getD [] =
      mapTransactionInputs t.txSeq t.inputs := by
    have own := @by_seq _ _ _ _ _ _ read .transactionInputs (by decide) TransactionInputRow.txSeq
      (fun _ => rfl) rfl
    rw [rowsOfTransaction_inputs] at own
    exact (congrArg (Option.getD · []) own).trans (getD_grouped _)
  have sorted : (mapTransactionInputs t.txSeq t.inputs).Pairwise
      fun a b => decide (a.inputIndex ≤ b.inputIndex) = true := by
    rw [mapTransactionInputs, List.mapIdx_eq_zipIdx_map, List.pairwise_map]
    have indexes : (t.inputs.zipIdx.map Prod.snd).Pairwise (· < ·) := by
      rw [List.zipIdx_map_snd]
      exact List.pairwise_lt_range'
    exact (List.pairwise_map.mp indexes).imp fun below => decide_eq_true below.le
  rw [group, List.mergeSort_of_pairwise sorted, mapTransactionInputs, List.mapIdx_eq_zipIdx_map,
    List.map_map]
  calc
    _ = t.inputs.zipIdx.map (servedInput ∘ Prod.fst) :=
        List.map_congr_left fun entry entryMem => read.assembleInput_row entryMem
    _ = t.inputs.map servedInput := by rw [← List.map_map, List.zipIdx_map_fst]

theorem assembled_outputs (read : ReadFrom coverage block store rows t)
    (indexes : (t.outputs.map TxOutputLine.outputIndex).Nodup) (failed : Bool) :
    (((OrderedMap.get? (readChildren store rows).outputsBySeq t.txSeq).getD []).mergeSort
      fun a b => decide (a.outputIndex ≤ b.outputIndex)).map
        (assembleOutput (readChildren store rows) failed) =
      (t.outputs.mergeSort fun a b => decide (a.outputIndex ≤ b.outputIndex)).map
        (servedOutput failed) := by
  have group : (OrderedMap.get? (readChildren store rows).outputsBySeq t.txSeq).getD [] =
      mapTransactionOutputs t.txSeq t.outputs := by
    have own := @by_seq _ _ _ _ _ _ read .transactionOutputs (by decide)
      TransactionOutputRow.txSeq (fun _ => rfl) rfl
    rw [rowsOfTransaction_outputs] at own
    exact (congrArg (Option.getD · []) own).trans (getD_grouped _)
  rw [group, mapTransactionOutputs,
    ← @List.map_mergeSort _ _ fun a b => decide (a.outputIndex ≤ b.outputIndex),
    List.map_map]
  · refine List.map_congr_left fun output outputMem => ?_
    exact read.assembleOutput_row indexes failed (List.mem_mergeSort.mp outputMem)
  · exact fun a _ b _ => rfl

/-- Reading the rows of a transaction puts it together again. -/
theorem assembleTransaction_row (read : ReadFrom coverage block store rows t)
    (indexes : (t.outputs.map TxOutputLine.outputIndex).Nodup) :
    assembleTransaction (readChildren store rows) (mapTransaction t) =
      servedTransaction coverage block t := by
  have metadata := @by_hash _ _ _ _ _ _ read .transactionMetadata (by decide)
    TransactionMetadataRow.tx (fun _ => rfl) rfl
  have certificates := @by_hash _ _ _ _ _ _ read .transactionCertificates (by decide)
    TransactionCertificateRow.tx (fun _ => rfl) rfl
  have withdrawals := @by_hash _ _ _ _ _ _ read .transactionWithdrawals (by decide)
    TransactionWithdrawalRow.tx (fun _ => rfl) rfl
  have mints := @by_hash _ _ _ _ _ _ read .assetHistory (by decide)
    AssetHistoryRow.txHash (fun _ => rfl) rfl
  have redeemers := @by_hash _ _ _ _ _ _ read .transactionRedeemers (by decide)
    TransactionRedeemerRow.tx (fun _ => rfl) rfl
  have datums := @by_hash _ _ _ _ _ _ read .transactionDatums (by decide)
    TransactionDatumRow.tx (fun _ => rfl) rfl
  have inputs := read.assembled_inputs
  have outputs := read.assembled_outputs indexes (failsPhase2 (t.inputs.map servedInput))
  simp only [readChildren] at inputs outputs
  simp only [assembleTransaction, mapTransaction, servedTransaction, readChildren,
    Option.bind_some, Option.getD_some, inputs, outputs, metadata, certificates, withdrawals, mints,
    redeemers, datums, getD_grouped]

end ReadFrom

end Served

end Odatano
