import Mathlib.Data.List.Pairwise
import Odatano.IndexedChain

/-!
# The stored chain in provider shape

`srv/blockchain/stored-chain.ts`: stored blocks and transactions as another
instance is served them.
-/

namespace Odatano

/-! ## Blocks -/

/-- `Blocks` row to block data. -/
def blockRowToData (row : BlockRow) : BlockData where
  time := row.time
  height := row.height
  hash := row.hash
  slot := row.slot
  slotLeader := some (row.slotLeader.getD "")
  epoch := row.epochNumber
  epochSlot := row.epochSlot
  size := row.size
  txCount := row.txCount
  fees := some row.fees

/-- The leading rows whose heights count up from `expected`. -/
def contiguousFrom (expected : Nat) : List BlockRow → List BlockData
  | [] => []
  | row :: rest =>
      if row.height.getD 0 ≠ expected then []
      else blockRowToData row :: contiguousFrom (expected + 1) rest

/-- Up to `count` stored blocks after `afterHeight`.  Stops at the first gap. -/
def readNextBlocks (store : CrawlStore) (afterHeight count : Nat) : List BlockData :=
  let rows := (store .blocks).select fun row =>
    row.height.any fun height => decide (afterHeight + 1 ≤ height ∧ height ≤ afterHeight + count)
  contiguousFrom (afterHeight + 1)
    (rows.mergeSort fun a b => decide (a.height.getD 0 ≤ b.height.getD 0))

/-! ## Child rows -/

/-- The rows with listed values in a column, one statement for each chunk of values. -/
def fetchIn {κ ρ α : Type*} [DecidableEq κ] {key : ρ → α} (table : Table key) (column : ρ → κ)
    (keys : List κ) : List ρ :=
  (chunk keys IN_CHUNK).flatMap fun c => table.select fun row => decide (column row ∈ c)

/-- Rows by key, in their order. -/
def groupBy {κ ρ : Type*} [DecidableEq κ] (key : ρ → κ) (rows : List ρ) :
    OrderedMap κ (List ρ) :=
  OrderedMap.collect key Table.empty rows

/-- The child rows of some transactions, grouped by transaction or by line. -/
structure StoredChildren where
  inputsBySeq : OrderedMap Nat (List TransactionInputRow)
  inputAssetsByKey : OrderedMap (Nat × Nat) (List LineAssetRow)
  outputsBySeq : OrderedMap Nat (List TransactionOutputRow)
  outputAssetsByKey : OrderedMap (Nat × Nat) (List LineAssetRow)
  metadataByHash : OrderedMap TxHash (List TransactionMetadataRow)
  certsByHash : OrderedMap TxHash (List TransactionCertificateRow)
  withdrawalsByHash : OrderedMap TxHash (List TransactionWithdrawalRow)
  mintsByHash : OrderedMap TxHash (List AssetHistoryRow)
  redeemersByHash : OrderedMap TxHash (List TransactionRedeemerRow)
  datumsByHash : OrderedMap TxHash (List TransactionDatumRow)

/-- The line an asset row belongs to. -/
def LineAssetRow.line (row : LineAssetRow) : Nat × Nat := (row.txSeq, row.lineIndex)

/-- Read the child rows of some transactions. -/
def readChildren (store : CrawlStore) (rows : List TransactionRow) : StoredChildren :=
  let seqs := rows.filterMap TransactionRow.txSeq
  let hashes := rows.map TransactionRow.hash
  { inputsBySeq := groupBy TransactionInputRow.txSeq
      (fetchIn (store .transactionInputs) TransactionInputRow.txSeq seqs)
    inputAssetsByKey := groupBy LineAssetRow.line
      (fetchIn (store .transactionInputAssets) LineAssetRow.txSeq seqs)
    outputsBySeq := groupBy TransactionOutputRow.txSeq
      (fetchIn (store .transactionOutputs) TransactionOutputRow.txSeq seqs)
    outputAssetsByKey := groupBy LineAssetRow.line
      (fetchIn (store .transactionOutputAssets) LineAssetRow.txSeq seqs)
    metadataByHash := groupBy TransactionMetadataRow.tx
      (fetchIn (store .transactionMetadata) TransactionMetadataRow.tx hashes)
    certsByHash := groupBy TransactionCertificateRow.tx
      (fetchIn (store .transactionCertificates) TransactionCertificateRow.tx hashes)
    withdrawalsByHash := groupBy TransactionWithdrawalRow.tx
      (fetchIn (store .transactionWithdrawals) TransactionWithdrawalRow.tx hashes)
    mintsByHash := groupBy AssetHistoryRow.txHash
      (fetchIn (store .assetHistory) AssetHistoryRow.txHash hashes)
    redeemersByHash := groupBy TransactionRedeemerRow.tx
      (fetchIn (store .transactionRedeemers) TransactionRedeemerRow.tx hashes)
    datumsByHash := groupBy TransactionDatumRow.tx
      (fetchIn (store .transactionDatums) TransactionDatumRow.tx hashes) }

/-! ## Transactions -/

/-- Ada first, as the providers deliver amount lists. -/
def lovelaceFirst (list : List Amount) : List Amount :=
  (list.filter fun a => decide (a.unit = lovelace)) ++
    list.filter fun a => decide (a.unit ≠ lovelace)

/-- Amount list with lovelace first. -/
def amounts (assets : List LineAssetRow) : List Amount :=
  lovelaceFirst (assets.map fun a => ⟨a.unit, a.quantity⟩)

/-- An amount list as a value.  The asset rows of a line are keyed by unit, so
nothing is dropped. -/
def Value.ofAmounts (list : List Amount) : Value where
  amounts := list.pwFilter fun a b => a.unit ≠ b.unit
  units_nodup := List.pairwise_map.mpr (List.pairwise_pwFilter list)

def assembleInput (children : StoredChildren) (i : TransactionInputRow) : TxInputLine where
  address := i.address.getD ""
  amount := amounts ((OrderedMap.get? children.inputAssetsByKey (i.txSeq, i.inputIndex)).getD [])
  txHash := i.spentTxHash
  outputIndex := i.spentOutputIndex
  data := i.utxoData
  isCollateral := i.isCollateral
  isReference := i.isReference

def assembleOutput (children : StoredChildren) (spendsCollaterals : Bool)
    (o : TransactionOutputRow) : TxOutputLine where
  address := o.address
  amount := Value.ofAmounts
    (amounts ((OrderedMap.get? children.outputAssetsByKey (o.txSeq, o.outputIndex)).getD []))
  outputIndex := o.outputIndex
  data := o.utxo
  isCollateral := spendsCollaterals

def metadataRow (r : TransactionMetadataRow) : MetadataLabelTx where
  txHash := r.tx
  label := .text r.label
  json := r.payload

def assembleMint (m : AssetHistoryRow) : Amount where
  unit := m.unit
  quantity := if m.action = .burn then -m.quantity else m.quantity

def assembleCertificate (c : TransactionCertificateRow) : TxCertificate where
  certIndex := c.certIndex
  kind := c.kind
  stakeAddress := c.stakeAddress
  poolId := c.poolId
  drepId := c.drepId
  deposit := c.deposit
  epoch := c.epoch

def assembleWithdrawal (w : TransactionWithdrawalRow) : TxWithdrawal where
  stakeAddress := w.stakeAddress
  amount := w.lovelace

def assembleRedeemer (r : TransactionRedeemerRow) : TxRedeemer where
  purpose := r.purpose
  index := r.redeemerIndex
  data := r.data
  mem := r.mem
  steps := r.steps
  txHash := r.spentTxHash
  outputIndex := r.spentOutputIndex
  policyId := r.policyId

def assembleDatum (d : TransactionDatumRow) : TxDatum where
  hash := d.dataHash
  cbor := d.datum

/-- A phase-2 failure keeps only collateral and reference inputs. -/
def failsPhase2 (inputs : List TxInputLine) : Bool :=
  (inputs.any fun i => i.isCollateral) &&
    !inputs.any fun i => !i.isCollateral && !i.isReference

/-- A `Transactions` row with its child rows as a provider transaction. -/
def assembleTransaction (children : StoredChildren) (t : TransactionRow) : Transaction :=
  let inputRows := (t.txSeq.bind fun seq => OrderedMap.get? children.inputsBySeq seq).getD []
  let inputs := (inputRows.mergeSort fun a b => decide (a.inputIndex ≤ b.inputIndex)).map
    (assembleInput children)
  let spendsCollaterals := failsPhase2 inputs
  let outputRows := (t.txSeq.bind fun seq => OrderedMap.get? children.outputsBySeq seq).getD []
  { hash := t.hash
    blockHash := t.blockHash
    blockHeight := some (t.blockHeight.getD 0)
    slot := t.slot.getD 0
    index := t.txIndex.getD 0
    fee := t.fee
    deposit := t.deposit
    spendsCollaterals := some spendsCollaterals
    totalCollateral := none
    mint := (OrderedMap.get? children.mintsByHash t.hash).map fun rows => rows.map assembleMint
    size := t.size
    blockTime := some (t.blockTime.getD 0)
    inputs
    outputs := (outputRows.mergeSort fun a b => decide (a.outputIndex ≤ b.outputIndex)).map
      (assembleOutput children spendsCollaterals)
    metadata := some (((OrderedMap.get? children.metadataByHash t.hash).getD []).map metadataRow)
    certificates := (OrderedMap.get? children.certsByHash t.hash).map fun rows =>
      rows.map assembleCertificate
    withdrawals := (OrderedMap.get? children.withdrawalsByHash t.hash).map fun rows =>
      rows.map assembleWithdrawal
    redeemers := (OrderedMap.get? children.redeemersByHash t.hash).map fun rows =>
      (rows.mergeSort fun a b =>
        -- `localeCompare` on the lower-case purposes
        decide (a.purpose < b.purpose ∨
          a.purpose = b.purpose ∧ a.redeemerIndex ≤ b.redeemerIndex)).map assembleRedeemer
    datums := (OrderedMap.get? children.datumsByHash t.hash).map fun rows =>
      rows.map assembleDatum }

/-- `Transactions` rows with their child rows as provider transactions, in the
order of the rows. -/
def assembleTransactions (store : CrawlStore) (rows : List TransactionRow) : List Transaction :=
  rows.map (assembleTransaction (readChildren store rows))

/-- Stored transactions of a block in order; null unless all of them are stored. -/
def readBlockTransactions (store : CrawlStore) (blockHash : BlockHash) :
    Option (List Transaction) :=
  ((store .blocks).find? blockHash).bind fun block =>
    let rows := ((store .transactions).select fun row =>
      decide (row.blockHash = blockHash)).mergeSort fun a b =>
        decide (a.txIndex.getD 0 ≤ b.txIndex.getD 0)
    if rows.length ≠ block.txCount then none else some (assembleTransactions store rows)

/-! ## Reading by chunks and groups -/

theorem flatMap_ite_mem {κ ρ : Type*} [DecidableEq κ] {chunks : List (List κ)} {k : κ}
    (nodup : chunks.flatten.Nodup) (listed : k ∈ chunks.flatten) (rows : List ρ) :
    (chunks.flatMap fun c => if k ∈ c then rows else []) = rows := by
  induction chunks with
  | nil => simp at listed
  | cons c chunks ih =>
      rw [List.flatten_cons] at nodup listed
      obtain ⟨-, restNodup, disjoint⟩ := List.nodup_append.mp nodup
      rw [List.flatMap_cons]
      by_cases here : k ∈ c
      · have absent : ∀ later ∈ chunks, k ∉ later := fun later laterMem again =>
          disjoint k here k (List.mem_flatten_of_mem laterMem again) rfl
        have none : (chunks.flatMap fun c => if k ∈ c then rows else []) = [] :=
          List.flatMap_eq_nil_iff.mpr fun later laterMem => if_neg (absent later laterMem)
        rw [if_pos here, none, List.append_nil]
      · rw [if_neg here, List.nil_append]
        exact ih restNodup ((List.mem_append.mp listed).resolve_left here)

/-- What is fetched for one key is what the table holds for it. -/
theorem filter_fetchIn {κ ρ α : Type*} [DecidableEq κ] {key : ρ → α} {table : Table key}
    {column : ρ → κ} {keys : List κ} (nodup : keys.Nodup) {k : κ} (listed : k ∈ keys)
    {selected : ρ → Bool} (here : ∀ row, selected row = true → column row = k) :
    (fetchIn table column keys).filter selected = table.rows.filter selected := by
  have chunked := flatten_chunk_IN_CHUNK keys
  rw [fetchIn, List.filter_flatMap]
  calc
    _ = (chunk keys IN_CHUNK).flatMap fun c =>
          if k ∈ c then table.rows.filter selected else [] := by
        refine List.flatMap_congr fun c _ => ?_
        simp only [Table.select, List.filter_filter]
        split
        · rename_i inChunk
          refine List.filter_congr fun row _ => ?_
          cases chosen : selected row with
          | false => rfl
          | true => simp [here row chosen, inChunk]
        · rename_i outside
          refine List.filter_eq_nil_iff.mpr fun row _ => ?_
          cases chosen : selected row with
          | false => simp
          | true => simp [here row chosen, outside]
    _ = table.rows.filter selected :=
        flatMap_ite_mem (chunked.symm ▸ nodup) (chunked.symm ▸ listed) _

/-- A group holds the rows of its key and is absent when there are none. -/
theorem get?_groupBy {κ ρ : Type*} [DecidableEq κ] (key : ρ → κ) (rows : List ρ) (k : κ) :
    OrderedMap.get? (groupBy key rows) k =
      if (rows.filter fun row => decide (key row = k)) = [] then none
      else some (rows.filter fun row => decide (key row = k)) := by
  have group : (OrderedMap.get? (OrderedMap.collect key Table.empty rows) k).getD [] = _ :=
    OrderedMap.getD_get?_collect Table.empty rows k
  rw [OrderedMap.get?_empty, Option.getD_none, List.nil_append] at group
  have present : (OrderedMap.get? (OrderedMap.collect key Table.empty rows) k).isSome ↔ _ :=
    OrderedMap.get?_accumulate_isSome Table.empty rows k
  rw [OrderedMap.get?_empty] at present
  cases found : OrderedMap.get? (groupBy key rows) k with
  | none =>
      unfold groupBy at found
      rw [found, Option.getD_none] at group
      rw [← group, if_pos rfl]
  | some list =>
      have isSome : (OrderedMap.get? (groupBy key rows) k).isSome := found ▸ rfl
      obtain ⟨row, rowMem, same⟩ := (present.mp isSome).resolve_left (by simp)
      unfold groupBy at found
      rw [found, Option.getD_some] at group
      have nonempty : (rows.filter fun row => decide (key row = k)) ≠ [] :=
        List.ne_nil_of_mem (List.mem_filter.mpr ⟨rowMem, decide_eq_true same⟩)
      rw [if_neg nonempty, group]

/-- Reading a group of fetched rows reads the table. -/
theorem getD_get?_groupBy_fetchIn {κ γ ρ α : Type*} [DecidableEq κ] [DecidableEq γ] {key : ρ → α}
    (table : Table key) {column : ρ → κ} {keys : List κ} (nodup : keys.Nodup) {k : κ}
    (listed : k ∈ keys) (group : ρ → γ) (g : γ) (here : ∀ row, group row = g → column row = k) :
    (OrderedMap.get? (groupBy group (fetchIn table column keys)) g).getD [] =
      table.rows.filter fun row => decide (group row = g) := by
  rw [get?_groupBy, filter_fetchIn nodup listed fun row chosen => here row (of_decide_eq_true chosen)]
  split
  · rename_i none
    rw [none, Option.getD_none]
  · rfl

end Odatano
