import Odatano.LedgerRows
import Odatano.TableFamily

/-!
# The crawled tables

Rows and primary keys of `Blocks`, `Transactions` and their child tables
(`db/schema.cds`), and the mappers that build them from what a backend delivers
(`srv/utils/mappers.ts`).
-/

namespace Odatano

/-! ## Rows -/

/-- A `Blocks` row. -/
structure BlockRow where
  hash : BlockHash
  time : Nat
  height : Option Nat
  slotLeader : Option String
  epochNumber : Option Nat
  /-- Absolute slot: the crawler's reorg cut axis. -/
  slot : Option Nat
  epochSlot : Option Nat
  size : Nat
  txCount : Nat
  fees : Int
deriving DecidableEq

/-- A `Transactions` row. -/
structure TransactionRow where
  hash : TxHash
  /-- Chain position, the key of the input and output rows. -/
  txSeq : Option Nat
  blockHash : BlockHash
  blockHeight : Option Nat
  blockTime : Option Nat
  slot : Option Nat
  txIndex : Option Nat
  fee : Int
  deposit : Int
  size : Option Nat
  hasInputs : Bool
  hasOutputs : Bool
  hasMetadata : Bool
deriving DecidableEq

/-- A `TransactionInputs` row. -/
structure TransactionInputRow where
  txSeq : Nat
  inputIndex : Nat
  address : Option Address
  utxoData : UtxoData
  paymentCredential : Option String
  spentTxHash : TxHash
  spentOutputIndex : Nat
  isCollateral : Bool
  isReference : Bool
  hasAddresses : Bool
  hasAssets : Bool
deriving DecidableEq

/-- A `TransactionInputAssets` or `TransactionOutputAssets` row: its key is the
position of the owning line and the unit. -/
structure LineAssetRow where
  txSeq : Nat
  lineIndex : Nat
  unit : AssetUnit
  quantity : Int
  policyId : Option String
  assetName : String
deriving DecidableEq

/-- A `TransactionOutputs` row. -/
structure TransactionOutputRow where
  txSeq : Nat
  outputIndex : Nat
  address : Address
  utxo : UtxoData
  paymentCredential : Option String
  hasAddresses : Bool
  hasAssets : Bool
deriving DecidableEq

/-- A `TransactionMetadata` row. -/
structure TransactionMetadataRow where
  id : Int
  tx : TxHash
  label : String
  payload : Option String
deriving DecidableEq

/-- A `TransactionCertificates` row. -/
structure TransactionCertificateRow where
  tx : TxHash
  certIndex : Nat
  kind : String
  stakeAddress : Option String
  poolId : Option String
  drepId : Option String
  deposit : Option Int
  epoch : Option Nat
deriving DecidableEq

/-- A `TransactionWithdrawals` row. -/
structure TransactionWithdrawalRow where
  tx : TxHash
  stakeAddress : String
  lovelace : Int
deriving DecidableEq

/-- A `TransactionRedeemers` row. -/
structure TransactionRedeemerRow where
  tx : TxHash
  purpose : String
  redeemerIndex : Nat
  data : String
  mem : Nat
  steps : Nat
  spentTxHash : Option TxHash
  spentOutputIndex : Option Nat
  policyId : Option String
deriving DecidableEq

/-- A `TransactionDatums` row. -/
structure TransactionDatumRow where
  tx : TxHash
  dataHash : String
  datum : String
deriving DecidableEq

inductive MintAction
  | mint
  | burn
deriving DecidableEq

/-- An `AssetHistory` row. -/
structure AssetHistoryRow where
  unit : AssetUnit
  txHash : TxHash
  action : MintAction
  quantity : Int
  blockTime : Option Nat
  blockHeight : Option Nat
deriving DecidableEq

/-! ## Tables -/

/-- The tables a block is indexed into. -/
inductive CrawlTable
  | blocks
  | transactions
  | transactionInputs
  | transactionInputAssets
  | transactionOutputs
  | transactionOutputAssets
  | transactionMetadata
  | transactionCertificates
  | transactionWithdrawals
  | transactionRedeemers
  | transactionDatums
  | assetHistory
deriving DecidableEq

namespace CrawlTable

/-- The rows of a table. -/
@[reducible] def Row : CrawlTable → Type
  | blocks => BlockRow
  | transactions => TransactionRow
  | transactionInputs => TransactionInputRow
  | transactionInputAssets => LineAssetRow
  | transactionOutputs => TransactionOutputRow
  | transactionOutputAssets => LineAssetRow
  | transactionMetadata => TransactionMetadataRow
  | transactionCertificates => TransactionCertificateRow
  | transactionWithdrawals => TransactionWithdrawalRow
  | transactionRedeemers => TransactionRedeemerRow
  | transactionDatums => TransactionDatumRow
  | assetHistory => AssetHistoryRow

/-- The primary key of a table. -/
@[reducible] def Key : CrawlTable → Type
  | blocks => BlockHash
  | transactions => TxHash
  | transactionInputs => Nat × Nat
  | transactionInputAssets => (Nat × Nat) × AssetUnit
  | transactionOutputs => Nat × Nat
  | transactionOutputAssets => (Nat × Nat) × AssetUnit
  | transactionMetadata => Int × TxHash
  | transactionCertificates => TxHash × Nat × String
  | transactionWithdrawals => TxHash × String
  | transactionRedeemers => TxHash × String × Nat
  | transactionDatums => TxHash × String
  | assetHistory => AssetUnit × TxHash

instance decidableEqKey : (table : CrawlTable) → DecidableEq table.Key
  | blocks => inferInstanceAs (DecidableEq BlockHash)
  | transactions => inferInstanceAs (DecidableEq TxHash)
  | transactionInputs => inferInstanceAs (DecidableEq (Nat × Nat))
  | transactionInputAssets => inferInstanceAs (DecidableEq ((Nat × Nat) × AssetUnit))
  | transactionOutputs => inferInstanceAs (DecidableEq (Nat × Nat))
  | transactionOutputAssets => inferInstanceAs (DecidableEq ((Nat × Nat) × AssetUnit))
  | transactionMetadata => inferInstanceAs (DecidableEq (Int × TxHash))
  | transactionCertificates => inferInstanceAs (DecidableEq (TxHash × Nat × String))
  | transactionWithdrawals => inferInstanceAs (DecidableEq (TxHash × String))
  | transactionRedeemers => inferInstanceAs (DecidableEq (TxHash × String × Nat))
  | transactionDatums => inferInstanceAs (DecidableEq (TxHash × String))
  | assetHistory => inferInstanceAs (DecidableEq (AssetUnit × TxHash))

/-- The key columns of a row. -/
def key : (table : CrawlTable) → table.Row → table.Key
  | blocks => BlockRow.hash
  | transactions => TransactionRow.hash
  | transactionInputs => fun row => (row.txSeq, row.inputIndex)
  | transactionInputAssets => fun row => ((row.txSeq, row.lineIndex), row.unit)
  | transactionOutputs => fun row => (row.txSeq, row.outputIndex)
  | transactionOutputAssets => fun row => ((row.txSeq, row.lineIndex), row.unit)
  | transactionMetadata => fun row => (row.id, row.tx)
  | transactionCertificates => fun row => (row.tx, row.certIndex, row.kind)
  | transactionWithdrawals => fun row => (row.tx, row.stakeAddress)
  | transactionRedeemers => fun row => (row.tx, row.purpose, row.redeemerIndex)
  | transactionDatums => fun row => (row.tx, row.dataHash)
  | assetHistory => fun row => (row.unit, row.txHash)

end CrawlTable

/-- The crawled tables. -/
abbrev CrawlStore := TableFamily CrawlTable.key

/-- The crawled tables of a fresh database. -/
def CrawlStore.empty : CrawlStore := fun _ => Table.empty

/-! ## Mappers -/

/-- Slots leave room for this many transactions each. -/
def TX_SEQ_SLOT_FACTOR : Nat := 65536

/-- Key of a transaction's input and output rows: chain position, ascending. -/
def txSeqOf (slot txIndex : Nat) : Nat :=
  slot * TX_SEQ_SLOT_FACTOR + txIndex

theorem txSeqOf_div {slot txIndex : Nat} (small : txIndex < TX_SEQ_SLOT_FACTOR) :
    txSeqOf slot txIndex / TX_SEQ_SLOT_FACTOR = slot := by
  unfold txSeqOf TX_SEQ_SLOT_FACTOR at *
  omega

theorem txSeqOf_mod {slot txIndex : Nat} (small : txIndex < TX_SEQ_SLOT_FACTOR) :
    txSeqOf slot txIndex % TX_SEQ_SLOT_FACTOR = txIndex := by
  unfold txSeqOf TX_SEQ_SLOT_FACTOR at *
  omega

/-- The key of a transaction's input and output rows. -/
def Transaction.txSeq (t : Transaction) : Nat := txSeqOf t.slot t.index

/-- Provider block to row.  `epochData` is the number of the prefetched epoch. -/
def mapBlock (block : BlockData) (epochData : Option Nat) : BlockRow where
  hash := block.hash
  time := block.time
  height := block.height
  slotLeader := block.slotLeader
  epochNumber := epochData.or block.epoch
  slot := block.slot
  epochSlot := block.epochSlot
  size := block.size
  txCount := block.txCount
  fees := block.fees.getD 0

/-- Provider transaction to row. -/
def mapTransaction (t : Transaction) : TransactionRow where
  hash := t.hash
  txSeq := some t.txSeq
  blockHash := t.blockHash
  blockHeight := t.blockHeight
  blockTime := t.blockTime
  slot := some t.slot
  txIndex := some t.index
  fee := t.fee
  deposit := t.deposit
  size := t.size
  hasInputs := !t.inputs.isEmpty
  hasOutputs := !t.outputs.isEmpty
  hasMetadata := !(t.metadata.getD []).isEmpty

/-- Empty datum and script texts are stored as null. -/
def UtxoData.stored (data : UtxoData) : UtxoData where
  dataHash := orNull data.dataHash
  inlineDatum := orNull data.inlineDatum
  referenceScriptHash := orNull data.referenceScriptHash
  referenceScriptSize := data.referenceScriptSize
  referenceScriptType := data.referenceScriptType

section Credentials

variable [Bech32]

/-- Payment credential of a bech32 address; null for an unresolved one. -/
def paymentCredentialOf (address : Address) : Option String :=
  if address = "" then none else (decodeShelleyAddress address).paymentCredential

/-- Provider inputs to rows, keyed by position in the transaction. -/
def mapTransactionInputs (txSeq : Nat) (inputs : List TxInputLine) : List TransactionInputRow :=
  inputs.mapIdx fun inputIndex input =>
    { txSeq
      inputIndex
      -- an unresolved input has the empty address: stored as a null key
      address := if input.address = "" then none else some input.address
      utxoData := input.data.stored
      paymentCredential := paymentCredentialOf input.address
      spentTxHash := input.txHash
      spentOutputIndex := input.outputIndex
      isCollateral := input.isCollateral
      isReference := input.isReference
      hasAddresses := decide (input.address ≠ "")
      hasAssets := !input.amount.isEmpty }

/-- Provider outputs to rows. -/
def mapTransactionOutputs (txSeq : Nat) (outputs : List TxOutputLine) :
    List TransactionOutputRow :=
  outputs.map fun output =>
    { txSeq
      outputIndex := output.outputIndex
      address := output.address
      utxo := output.data.stored
      paymentCredential := paymentCredentialOf output.address
      hasAddresses := decide (output.address ≠ "")
      hasAssets := !output.amount.amounts.isEmpty }

end Credentials

/-- Display string of a hexadecimal asset name.  Invalid UTF-8 and names with a
NUL keep the hexadecimal. -/
def decodeAssetName (hex : String) : String :=
  match String.fromUTF8? ⟨((LedgerState.hexBytes hex.toList).map UInt8.ofNat).toArray⟩ with
  | some name => if name.toList.contains (Char.ofNat 0) then hex else name
  | none => hex

/-- Policy and decoded name of an asset unit; ada and malformed units have no policy. -/
def parseAssetUnit (unit : AssetUnit) : Option String × String :=
  let digits := unit.chars.toList
  if unit = lovelace then (none, "lovelace")
  else if digits.length < 56 ∨ digits.any fun digit => (LedgerState.hexDigitValue digit).isNone then
    (none, unit.chars)
  else
    let assetNameHex := digits.drop 56
    (some (String.ofList (digits.take 56)),
      if assetNameHex = [] then "" else decodeAssetName (String.ofList assetNameHex))

/-- The asset rows of one input or output line. -/
def lineAssets (txSeq lineIndex : Nat) (amount : List Amount) : List LineAssetRow :=
  amount.map fun a =>
    let parsed := parseAssetUnit a.unit
    { txSeq, lineIndex, unit := a.unit, quantity := a.quantity
      policyId := parsed.1, assetName := parsed.2 }

/-- Provider input assets to rows. -/
def mapTransactionInputAssets (txSeq : Nat) (inputs : List TxInputLine) : List LineAssetRow :=
  (inputs.mapIdx fun inputIndex input => lineAssets txSeq inputIndex input.amount).flatten

/-- Provider output assets to rows. -/
def mapTransactionOutputAssets (txSeq : Nat) (outputs : List TxOutputLine) :
    List LineAssetRow :=
  outputs.flatMap fun output => lineAssets txSeq output.outputIndex output.amount.amounts

/-- Certificates to rows, one per certificate index and kind. -/
def mapTransactionCertificates (txHash : TxHash) (certificates : List TxCertificate) :
    List TransactionCertificateRow :=
  certificates.map fun c =>
    { tx := txHash
      certIndex := c.certIndex
      kind := c.kind
      stakeAddress := orNull c.stakeAddress
      poolId := orNull c.poolId
      drepId := orNull c.drepId
      deposit := c.deposit
      epoch := c.epoch }

/-- Withdrawals to rows, one per reward account. -/
def mapTransactionWithdrawals (txHash : TxHash) (withdrawals : List TxWithdrawal) :
    List TransactionWithdrawalRow :=
  (withdrawals.filter fun w => decide (w.stakeAddress ≠ "")).map fun w =>
    { tx := txHash, stakeAddress := w.stakeAddress, lovelace := w.amount }

/-- Redeemers to rows, keyed by transaction, purpose and index. -/
def mapTransactionRedeemers (txHash : TxHash) (redeemers : List TxRedeemer) :
    List TransactionRedeemerRow :=
  redeemers.map fun r =>
    { tx := txHash
      purpose := r.purpose
      redeemerIndex := r.index
      data := r.data
      mem := r.mem
      steps := r.steps
      spentTxHash := r.txHash
      spentOutputIndex := r.outputIndex
      policyId := r.policyId }

/-- Witness-set datums to rows, keyed by transaction and datum hash. -/
def mapTransactionDatums (txHash : TxHash) (datums : List TxDatum) :
    List TransactionDatumRow :=
  datums.map fun d => { tx := txHash, dataHash := d.hash, datum := d.cbor }

/-- The white space `String.prototype.trim` removes. -/
def isJsSpace (char : Char) : Bool :=
  let code := char.toNat
  decide ((9 ≤ code ∧ code ≤ 13) ∨ code = 32 ∨ code = 160 ∨ code = 0x1680 ∨
    (0x2000 ≤ code ∧ code ≤ 0x200a) ∨ code = 0x2028 ∨ code = 0x2029 ∨ code = 0x202f ∨
    code = 0x205f ∨ code = 0x3000 ∨ code = 0xfeff)

/-- Does a double read as the decimal `candidate`?  `ulp` is the distance from
`value` to the next double; below a power of two the distance is half of it. -/
def readsAs (value ulp candidate : Nat) : Bool :=
  let even := value / ulp % 2 = 0
  if value ≤ candidate then
    decide (2 * (candidate - value) < ulp ∨ 2 * (candidate - value) = ulp ∧ even)
  else
    let below := if value = 2 ^ Nat.log2 value then 4 else 2
    decide (below * (value - candidate) < ulp ∨ below * (value - candidate) = ulp ∧ even)

/-- The decimal with the fewest significant digits that reads as an integral double. -/
def shortestDecimal (value : Nat) : Nat :=
  let ulp := 2 ^ (Nat.log2 value - 52)
  let length := (toString value).length
  let rounded (digits : Nat) : Nat :=
    let unit := 10 ^ (length - digits)
    (value + unit / 2) / unit * unit
  (((List.range length).map fun i => rounded (i + 1)).find? (readsAs value ulp)).getD value

/-- `Number.prototype.toString` on an integral double. -/
def numberToString (value : Nat) : String :=
  if value < 2 ^ 53 then toString value
  else
    let digits := (toString (shortestDecimal value)).toList
    if digits.length ≤ 21 then String.ofList digits
    else
      let significant := (digits.reverse.dropWhile fun digit => decide (digit = '0')).reverse
      let mantissa := significant.take 1 ++
        if significant.length = 1 then [] else '.' :: significant.drop 1
      String.ofList mantissa ++ "e+" ++ toString (digits.length - 1)

/-- `label.toString()`. -/
def MetadataLabel.toText : MetadataLabel → String
  | .number value => numberToString value
  | .text chars => chars

/-- Map a metadata label to its int64 key.  Labels from `2 ^ 63` on wrap by
two's complement; null when the label is no non-negative integer. -/
def metadataIdFor : MetadataLabel → Option Int
  | .number value => some (Int.bmod value (2 ^ 64))
  | .text label =>
      let digits := ((label.toList.dropWhile isJsSpace).reverse.dropWhile isJsSpace).reverse
      if digits = [] ∨ digits.any fun digit => !decide ('0' ≤ digit ∧ digit ≤ '9') then none
      else
        let big := digits.foldl (fun value digit => 10 * value + (digit.toNat - '0'.toNat)) 0
        some (Int.bmod big (2 ^ 64))

/-- Metadata labels to rows; labels that are no uint64 are skipped. -/
def mapTransactionMetadata (labels : List MetadataLabelTx) : List TransactionMetadataRow :=
  labels.filterMap fun label =>
    (metadataIdFor label.label).map fun id =>
      { id, tx := label.txHash, label := label.label.toText, payload := label.json }

/-! ## Whom the rows name -/

section Owners

variable {txSeq : Nat} {txHash : TxHash}

theorem txSeq_of_mem_lineAssets {lineIndex : Nat} {amount : List Amount} {row : LineAssetRow}
    (rowMem : row ∈ lineAssets txSeq lineIndex amount) : row.txSeq = txSeq := by
  obtain ⟨a, -, rfl⟩ := List.mem_map.mp rowMem
  rfl

theorem txSeq_of_mem_inputs [Bech32] {inputs : List TxInputLine} {row : TransactionInputRow}
    (rowMem : row ∈ mapTransactionInputs txSeq inputs) : row.txSeq = txSeq := by
  obtain ⟨i, bound, rfl⟩ := List.mem_mapIdx.mp rowMem
  rfl

theorem txSeq_of_mem_outputs [Bech32] {outputs : List TxOutputLine}
    {row : TransactionOutputRow} (rowMem : row ∈ mapTransactionOutputs txSeq outputs) :
    row.txSeq = txSeq := by
  obtain ⟨o, -, rfl⟩ := List.mem_map.mp rowMem
  rfl

theorem txSeq_of_mem_inputAssets {inputs : List TxInputLine} {row : LineAssetRow}
    (rowMem : row ∈ mapTransactionInputAssets txSeq inputs) : row.txSeq = txSeq := by
  obtain ⟨line, lineMem, rowMem⟩ := List.mem_flatten.mp rowMem
  obtain ⟨i, bound, rfl⟩ := List.mem_mapIdx.mp lineMem
  exact txSeq_of_mem_lineAssets rowMem

theorem txSeq_of_mem_outputAssets {outputs : List TxOutputLine} {row : LineAssetRow}
    (rowMem : row ∈ mapTransactionOutputAssets txSeq outputs) : row.txSeq = txSeq := by
  obtain ⟨o, -, rowMem⟩ := List.mem_flatMap.mp rowMem
  exact txSeq_of_mem_lineAssets rowMem

theorem tx_of_mem_certificates {certificates : List TxCertificate}
    {row : TransactionCertificateRow}
    (rowMem : row ∈ mapTransactionCertificates txHash certificates) : row.tx = txHash := by
  obtain ⟨c, -, rfl⟩ := List.mem_map.mp rowMem
  rfl

theorem tx_of_mem_withdrawals {withdrawals : List TxWithdrawal}
    {row : TransactionWithdrawalRow}
    (rowMem : row ∈ mapTransactionWithdrawals txHash withdrawals) : row.tx = txHash := by
  obtain ⟨w, -, rfl⟩ := List.mem_map.mp rowMem
  rfl

theorem tx_of_mem_redeemers {redeemers : List TxRedeemer} {row : TransactionRedeemerRow}
    (rowMem : row ∈ mapTransactionRedeemers txHash redeemers) : row.tx = txHash := by
  obtain ⟨r, -, rfl⟩ := List.mem_map.mp rowMem
  rfl

theorem tx_of_mem_datums {datums : List TxDatum} {row : TransactionDatumRow}
    (rowMem : row ∈ mapTransactionDatums txHash datums) : row.tx = txHash := by
  obtain ⟨d, -, rfl⟩ := List.mem_map.mp rowMem
  rfl

theorem tx_of_mem_metadata {labels : List MetadataLabelTx} {row : TransactionMetadataRow}
    (rowMem : row ∈ mapTransactionMetadata labels) :
    ∃ label ∈ labels, row.tx = label.txHash := by
  obtain ⟨label, labelMem, mapped⟩ := List.mem_filterMap.mp rowMem
  obtain ⟨id, -, rfl⟩ := Option.map_eq_some_iff.mp mapped
  exact ⟨label, labelMem, rfl⟩

end Owners

end Odatano
