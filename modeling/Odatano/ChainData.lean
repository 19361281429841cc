import Mathlib.Data.List.Nodup

/-!
# Blocks and transactions as the backends deliver them

The provider-independent shapes of `srv/utils/types.ts`.  Amounts are integers
where the source keeps decimal strings, since every reader converts them with
`BigInt`.  A block time is a number of seconds.
-/

namespace Odatano

/-- A string the source never leaves empty: a hash, an asset unit or a bech32
string.  Its truthiness tests on such a column are therefore null tests. -/
structure Text where
  chars : String
  chars_ne : chars ≠ ""
deriving DecidableEq

/-- A literal as a nonempty text. -/
def text (chars : String) (nonempty : true = decide (chars ≠ "") := by exact rfl) : Text :=
  ⟨chars, of_decide_eq_true nonempty.symm⟩

abbrev TxHash := Text
abbrev BlockHash := Text
abbrev AssetUnit := Text
abbrev StakeAddress := Text
abbrev Address := String

/-- `x || null` on a nullable string: the empty string becomes null. -/
def orNull (value : Option String) : Option String :=
  value.filter fun chars => chars ≠ ""

/-- The output `outputIndex` of a transaction, the source's `txHash#outputIndex`. -/
structure Outpoint where
  txHash : TxHash
  outputIndex : Nat
deriving DecidableEq

/-- Multi-asset amount line. -/
structure Amount where
  unit : AssetUnit
  quantity : Int
deriving DecidableEq

/-- The unit of ada amounts. -/
def lovelace : AssetUnit := text "lovelace"

/-- The amount list of an output.  It spells out a ledger value, which is a map
from units to quantities, so no unit is listed twice. -/
structure Value where
  amounts : List Amount
  units_nodup : (amounts.map Amount.unit).Nodup
deriving DecidableEq

inductive ReferenceScriptType
  | native
  | plutusV1
  | plutusV2
  | plutusV3
deriving DecidableEq

/-- Datum and reference-script columns that accompany an output. -/
structure UtxoData where
  dataHash : Option String
  inlineDatum : Option String
  referenceScriptHash : Option String
  referenceScriptSize : Option Nat
  referenceScriptType : Option ReferenceScriptType
deriving DecidableEq

/-- Transaction input.  `address` is empty until the input is resolved. -/
structure TxInputLine where
  address : Address
  amount : List Amount
  txHash : TxHash
  outputIndex : Nat
  data : UtxoData
  isCollateral : Bool
  isReference : Bool
deriving DecidableEq

/-- The output an input refers to. -/
def TxInputLine.outpoint (input : TxInputLine) : Outpoint :=
  ⟨input.txHash, input.outputIndex⟩

/-- Transaction output. -/
structure TxOutputLine where
  address : Address
  amount : Value
  outputIndex : Nat
  data : UtxoData
  isCollateral : Bool
deriving DecidableEq

/-- One certificate of a transaction. -/
structure TxCertificate where
  certIndex : Nat
  kind : String
  stakeAddress : Option String
  poolId : Option String
  drepId : Option String
  deposit : Option Int
  epoch : Option Nat
deriving DecidableEq

/-- One reward-account withdrawal of a transaction. -/
structure TxWithdrawal where
  stakeAddress : String
  amount : Int
deriving DecidableEq

/-- One redeemer of a transaction. -/
structure TxRedeemer where
  purpose : String
  index : Nat
  data : String
  mem : Nat
  steps : Nat
  txHash : Option TxHash
  outputIndex : Option Nat
  policyId : Option String
deriving DecidableEq

/-- One datum of a transaction witness set. -/
structure TxDatum where
  hash : String
  cbor : String
deriving DecidableEq

/-- A metadata label.  Koios labels are converted to numbers, `+label`; the other
backends keep the text. -/
inductive MetadataLabel
  | number (value : Nat)
  | text (chars : String)
deriving DecidableEq

/-- Transaction metadata under one label; `json` is the serialized payload. -/
structure MetadataLabelTx where
  txHash : TxHash
  label : MetadataLabel
  json : Option String
deriving DecidableEq

/-- Normalized transaction.  An absent list is `none` where the source tells
"not reported" from "none". -/
structure Transaction where
  hash : TxHash
  blockHash : BlockHash
  blockHeight : Option Nat
  slot : Nat
  index : Nat
  fee : Int
  deposit : Int
  spendsCollaterals : Option Bool
  totalCollateral : Option Int
  mint : Option (List Amount)
  size : Option Nat
  blockTime : Option Nat
  inputs : List TxInputLine
  outputs : List TxOutputLine
  metadata : Option (List MetadataLabelTx)
  certificates : Option (List TxCertificate)
  withdrawals : Option (List TxWithdrawal)
  redeemers : Option (List TxRedeemer)
  datums : Option (List TxDatum)
deriving DecidableEq

/-- Basic block information. -/
structure BlockData where
  time : Nat
  height : Option Nat
  hash : BlockHash
  slot : Option Nat
  slotLeader : Option String
  epoch : Option Nat
  epochSlot : Option Nat
  size : Nat
  txCount : Nat
  fees : Option Int
deriving DecidableEq

/-- The truthiness of an optional flag. -/
def Transaction.phase2Failed (t : Transaction) : Bool :=
  t.spendsCollaterals.getD false

/-- `block.slot ?? 0`. -/
def BlockData.slotOrZero (block : BlockData) : Nat :=
  block.slot.getD 0

/-- The lovelace of an amount list, zero when it lists none. -/
def lovelaceOf (amount : List Amount) : Int :=
  ((amount.find? fun a => decide (a.unit = lovelace)).map Amount.quantity).getD 0

/-- Maximal number of keys in one IN-list. -/
def IN_CHUNK : Nat := 500

/-- Split a list into pieces of `size` elements, the last one possibly shorter. -/
def chunk {α : Type*} (values : List α) (size : Nat) : List (List α) :=
  (List.range ((values.length + size - 1) / size)).map fun i =>
    (values.drop (i * size)).take size

private theorem flatten_chunks_take {α : Type*} (values : List α) (size count : Nat) :
    ((List.range count).map fun i => (values.drop (i * size)).take size).flatten =
      values.take (count * size) := by
  induction count with
  | zero => simp
  | succ count ih =>
      rw [List.range_succ, List.map_append, List.flatten_append, ih, Nat.succ_mul,
        List.take_add]
      simp

/-- Chunking loses nothing and keeps the order. -/
theorem flatten_chunk {α : Type*} (values : List α) {size : Nat} (positive : 0 < size) :
    (chunk values size).flatten = values := by
  rw [chunk, flatten_chunks_take]
  apply List.take_of_length_le
  have enough := Nat.div_add_mod (values.length + size - 1) size
  have small := Nat.mod_lt (values.length + size - 1) positive
  rw [Nat.mul_comm] at enough
  omega

theorem chunk_nil {α : Type*} {size : Nat} (positive : 0 < size) :
    chunk ([] : List α) size = [] := by
  have none : ([] : List α).length + size - 1 < size := by
    simp only [List.length_nil]
    omega
  rw [chunk, Nat.div_eq_of_lt none]
  rfl

/-- The first `size` elements are the first piece. -/
theorem chunk_append {α : Type*} (first rest : List α) {size : Nat} (positive : 0 < size)
    (whole : first.length = size) : chunk (first ++ rest) size = first :: chunk rest size := by
  have pieces : ((first ++ rest).length + size - 1) / size = (rest.length + size - 1) / size + 1 := by
    have length : (first ++ rest).length + size - 1 = rest.length + size - 1 + size := by
      rw [List.length_append]
      omega
    rw [length, Nat.add_div_right _ positive]
  subst whole
  simp only [chunk, pieces, List.range_succ_eq_map, List.map_cons, List.map_map, Nat.zero_mul,
    List.drop_zero, List.take_left]
  refine congrArg _ (List.map_congr_left fun i _ => ?_)
  simp only [Function.comp_apply, Nat.succ_mul, Nat.add_comm _ first.length]
  rw [← List.drop_drop, List.drop_left]

/-- Up to `size` elements are one piece. -/
theorem chunk_of_length_le {α : Type*} {values : List α} {size : Nat} (some : values ≠ [])
    (small : values.length ≤ size) : chunk values size = [values] := by
  have positive := List.length_pos_iff.mpr some
  have one : (values.length + size - 1) / size = 1 := by
    rw [Nat.div_eq_iff (by omega)]
    omega
  rw [chunk, one]
  simp [List.take_of_length_le small]

@[simp] theorem flatten_chunk_IN_CHUNK {α : Type*} (values : List α) :
    (chunk values IN_CHUNK).flatten = values :=
  flatten_chunk values (by decide)

/-! ## Sample data -/

/-- A transaction of block `block` with the given inputs and outputs. -/
def sampleTx (hash block : Text) (slot : Nat) (inputs : List Outpoint)
    (outputs : List TxOutputLine) : Transaction where
  hash
  blockHash := block
  blockHeight := some slot
  slot
  index := 0
  fee := 0
  deposit := 0
  spendsCollaterals := none
  totalCollateral := none
  mint := none
  size := none
  blockTime := none
  inputs := inputs.map fun key =>
    ⟨"", [], key.txHash, key.outputIndex, ⟨none, none, none, none, none⟩, false, false⟩
  outputs
  metadata := none
  certificates := none
  withdrawals := none
  redeemers := none
  datums := none

/-- A block of `txCount` transactions. -/
def sampleBlock (hash : BlockHash) (slot txCount : Nat) : BlockData where
  time := 0
  height := some slot
  hash
  slot := some slot
  slotLeader := none
  epoch := none
  epochSlot := none
  size := 0
  txCount
  fees := none

/-- An output of 7 lovelace and 3 tokens to a Byron address. -/
def sampleOutput : TxOutputLine :=
  ⟨"Ae2", ⟨[⟨lovelace, 7⟩, ⟨text "token", 3⟩], by decide⟩, 0, ⟨none, none, none, none, none⟩,
    false⟩

end Odatano
