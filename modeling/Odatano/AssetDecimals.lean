import Mathlib.Data.List.MinMax
import Mathlib.Data.Prod.Lex
import Mathlib.Data.String.Basic
import Mathlib.Order.WithBot
import Odatano.CrawlRows
import Odatano.PlutusDataJson

/-!
# Decimals of CIP-68 tokens

`srv/cbor/cip68.ts` and `srv/blockchain/asset-decimals.ts`: the decimals of a user token are read
from the datum of the output that holds its reference token.
-/

namespace Odatano

/-! ## Labels -/

/-- A CIP-67 label, the first 4 bytes of an asset name. -/
structure Cip68Label where
  digits : List Char
  length_eq : digits.length = 8

namespace CIP68_LABEL

def reference : Cip68Label := ⟨['0', '0', '0', '6', '4', '3', 'b', '0'], rfl⟩

def ft : Cip68Label := ⟨['0', '0', '1', '4', 'd', 'f', '1', '0'], rfl⟩

def rft : Cip68Label := ⟨['0', '0', '1', 'b', 'c', '2', '8', '0'], rfl⟩

end CIP68_LABEL

/-- Labels whose reference datum may carry `decimals`. -/
def USER_LABELS_WITH_DECIMALS : List Cip68Label := [CIP68_LABEL.ft, CIP68_LABEL.rft]

def labelOf (unit : AssetUnit) : List Char := (unit.chars.toList.drop 56).take 8

/-- The unit with another label. -/
def relabelled (unit : AssetUnit) (label : Cip68Label) : AssetUnit where
  chars := String.ofList (unit.chars.toList.take 56 ++ label.digits ++ unit.chars.toList.drop 64)
  chars_ne := by
    intro blank
    have length := congrArg (fun chars => chars.toList.length) blank
    simp [label.length_eq] at length

/-- Reference-NFT unit of a CIP-68 user token with label 333 or 444; null for any other unit. -/
def cip68ReferenceUnit (unit : AssetUnit) : Option AssetUnit :=
  if unit.chars.toList.length < 64 ∨
      labelOf unit ∉ USER_LABELS_WITH_DECIMALS.map Cip68Label.digits then none
  else some (relabelled unit CIP68_LABEL.reference)

/-- The label-333 and label-444 units a CIP-68 reference NFT describes; null for any other unit. -/
def cip68UserUnits (referenceUnit : AssetUnit) : Option (List AssetUnit) :=
  if referenceUnit.chars.toList.length < 64 ∨
      labelOf referenceUnit ≠ CIP68_LABEL.reference.digits then none
  else some (USER_LABELS_WITH_DECIMALS.map (relabelled referenceUnit))

section Labels

variable {unit : AssetUnit}

theorem toList_relabelled (unit : AssetUnit) (label : Cip68Label) :
    (relabelled unit label).chars.toList =
      unit.chars.toList.take 56 ++ label.digits ++ unit.chars.toList.drop 64 :=
  String.toList_ofList

theorem length_relabelled (long : ¬ unit.chars.toList.length < 64) (label : Cip68Label) :
    (relabelled unit label).chars.toList.length = unit.chars.toList.length := by
  rw [toList_relabelled, List.length_append, List.length_append, List.length_take,
    List.length_drop, label.length_eq]
  omega

theorem labelOf_relabelled (long : ¬ unit.chars.toList.length < 64) (label : Cip68Label) :
    labelOf (relabelled unit label) = label.digits := by
  have first : (unit.chars.toList.take 56).length = 56 := by
    rw [List.length_take]
    omega
  rw [labelOf, toList_relabelled, List.append_assoc, List.drop_left' first,
    List.take_left' label.length_eq]

/-- Giving a unit its own label back changes nothing. -/
theorem relabelled_back (long : ¬ unit.chars.toList.length < 64) {label other : Cip68Label}
    (own : labelOf unit = label.digits) : relabelled (relabelled unit other) label = unit := by
  have first : (unit.chars.toList.take 56).length = 56 := by
    rw [List.length_take]
    omega
  have labelled : (unit.chars.toList.take 56 ++ other.digits).length = 64 := by
    rw [List.length_append, first, other.length_eq]
  have head : (relabelled unit other).chars.toList.take 56 = unit.chars.toList.take 56 := by
    rw [toList_relabelled, List.append_assoc, List.take_left' first]
  have tail : (relabelled unit other).chars.toList.drop 64 = unit.chars.toList.drop 64 := by
    rw [toList_relabelled, List.drop_left' labelled]
  have whole : unit.chars.toList.take 56 ++ label.digits ++ unit.chars.toList.drop 64 =
      unit.chars.toList := by
    rw [← own, labelOf, List.append_assoc]
    have later : (unit.chars.toList.drop 56).drop 8 = unit.chars.toList.drop 64 := by
      rw [List.drop_drop]
    rw [← later, List.take_append_drop, List.take_append_drop]
  have same : (relabelled (relabelled unit other) label).chars = unit.chars := by
    refine String.toList_injective ?_
    rw [toList_relabelled, head, tail, whole]
  cases unit
  cases same' : relabelled (relabelled _ other) label
  rw [same'] at same
  cases same
  rfl

/-- A token is described by a reference token exactly where that is its reference token. -/
theorem mem_cip68UserUnits {referenceUnit : AssetUnit} :
    (∃ users, cip68UserUnits referenceUnit = some users ∧ unit ∈ users) ↔
      cip68ReferenceUnit unit = some referenceUnit := by
  constructor
  · rintro ⟨users, described, member⟩
    unfold cip68UserUnits at described
    split at described
    · cases described
    · rename_i isReference
      push Not at isReference
      obtain ⟨long, isLabel⟩ := isReference
      have long : ¬ referenceUnit.chars.toList.length < 64 := by omega
      cases described
      obtain ⟨label, labelMem, rfl⟩ := List.mem_map.mp member
      have allowed : labelOf (relabelled referenceUnit label) ∈
          USER_LABELS_WITH_DECIMALS.map Cip68Label.digits := by
        rw [labelOf_relabelled long]
        exact List.mem_map_of_mem labelMem
      unfold cip68ReferenceUnit
      rw [length_relabelled long, if_neg (by simp [long, allowed])]
      rw [relabelled_back long isLabel]
  · intro described
    unfold cip68ReferenceUnit at described
    split at described
    · cases described
    · rename_i isUser
      push Not at isUser
      obtain ⟨long, allowed⟩ := isUser
      have long : ¬ unit.chars.toList.length < 64 := by omega
      cases described
      obtain ⟨label, labelMem, own⟩ := List.mem_map.mp allowed
      refine ⟨USER_LABELS_WITH_DECIMALS.map
        (relabelled (relabelled unit CIP68_LABEL.reference)), ?_, ?_⟩
      · unfold cip68UserUnits
        rw [length_relabelled long, labelOf_relabelled long]
        simp [long]
      · exact List.mem_map.mpr ⟨label, labelMem, relabelled_back long own.symm⟩

end Labels

/-! ## The datum -/

/-- The package that reads Plutus data. -/
class DatumReader where
  dataFromCbor : String → Option PlutusData

open DatumReader

def DECIMALS_KEY : List UInt8 := [100, 101, 99, 105, 109, 97, 108, 115]

/-- An integer in 0..255. -/
def integerDecimals : PlutusData → Option Nat
  | .int n => if 0 ≤ n ∧ n ≤ 255 then some n.toNat else none
  | _ => none

/-- The `decimals` entry of a metadata map: the first one under the key. -/
def metadataDecimals : List (PlutusData × PlutusData) → Option Nat
  | [] => none
  | (.bytes key, value) :: rest =>
      if key = DECIMALS_KEY then integerDecimals value else metadataDecimals rest
  | _ :: rest => metadataDecimals rest

/-- The datum is Constr 0 with the metadata map, keyed by UTF-8 bytes, as first field. -/
def cip68DecimalsFromDatum [DatumReader] (cborHex : String) : Option Nat :=
  match dataFromCbor cborHex with
  | some (.constr 0 (.map metadata :: _)) => metadataDecimals metadata
  | _ => none

/-! ## The tables -/

/-- An `Assets` row: one slice of a unit. -/
structure AssetRow where
  unit : AssetUnit
  validFrom : String
  decimals : Option Nat
deriving DecidableEq

def AssetRow.key (row : AssetRow) : AssetUnit × String := (row.unit, row.validFrom)

abbrev AssetTable := Table AssetRow.key

/-- The datum stored under a hash. -/
def storedDatum (store : CrawlStore) (dataHash : String) : Option String :=
  ((store .transactionDatums).rows.find? fun row => decide (row.dataHash = dataHash)).map
    TransactionDatumRow.datum

/-- The transaction that consumed an output.  Collateral consumes only in a phase-2 failure, which
is stored with collateral and reference inputs alone. -/
def consumingTx (store : CrawlStore) (spent : Outpoint) : Option Nat :=
  let inputs := (store .transactionInputs).select fun row =>
    decide (row.spentTxHash = spent.txHash ∧ row.spentOutputIndex = spent.outputIndex) &&
      !row.isReference
  match inputs.find? fun i => !i.isCollateral with
  | some regular => some regular.txSeq
  | none =>
      (inputs.find? fun candidate =>
        ((store .transactionInputs).rows.find? fun row =>
          decide (row.txSeq = candidate.txSeq) && (!row.isCollateral && !row.isReference)).isNone).map
        TransactionInputRow.txSeq

/-- `blockHeight desc, blockTime desc, txHash desc`. -/
def AssetHistoryRow.recency (row : AssetHistoryRow) : WithBot Nat ×ₗ WithBot Nat ×ₗ String :=
  toLex (row.blockHeight, toLex (row.blockTime, row.txHash.chars))

/-- The mints of a unit. -/
def mintRows (store : CrawlStore) (unit : AssetUnit) : List AssetHistoryRow :=
  (store .assetHistory).select fun row => decide (row.unit = unit ∧ row.action = .mint)

/-- Spending transactions a reference NFT is followed through before the trail is given up. -/
def MAX_HOPS : Nat := 10000

/-- The loop of `currentReferenceDatum`. -/
def followReference (store : CrawlStore) (referenceUnit : AssetUnit) :
    Nat → Option TxHash → Option String → Option String
  | 0, _, datum => datum
  | _, none, datum => datum
  | hops + 1, some txHash, datum =>
      match ((store .transactions).find? txHash).bind TransactionRow.txSeq with
      | none => datum
      | some txSeq =>
          match (store .transactionOutputAssets).rows.find? fun row =>
              decide (row.txSeq = txSeq) && decide (row.unit = referenceUnit) with
          | none => datum
          | some holder =>
              let output := (store .transactionOutputs).rows.find? fun row =>
                decide (row.txSeq = txSeq) && decide (row.outputIndex = holder.lineIndex)
              let held := (output.bind fun row => row.utxo.inlineDatum).or
                ((output.bind fun row => orNull row.utxo.dataHash).bind (storedDatum store))
              let datum := held.or datum
              match consumingTx store ⟨txHash, holder.lineIndex⟩ with
              | none => datum
              | some spender =>
                  let next := (store .transactions).rows.find? fun row =>
                    decide (row.txSeq = some spender)
                  followReference store referenceUnit hops (next.map TransactionRow.hash) datum

/-- Datum of the output holding a reference NFT now, followed from its latest mint through each
spend.  Null when the crawled chain has no trail. -/
def currentReferenceDatum (store : CrawlStore) (referenceUnit : AssetUnit)
    (mintTxHash : Option TxHash) : Option String :=
  let mint := (mintRows store referenceUnit).argmax AssetHistoryRow.recency
  followReference store referenceUnit MAX_HOPS ((mint.map AssetHistoryRow.txHash).or mintTxHash)
    none

/-- Write `decimals` on every slice of the unit; with the rows changed. -/
def setAssetDecimals (assets : AssetTable) (unit : AssetUnit) (decimals : Nat) :
    AssetTable × Nat :=
  (assets.update (fun row => decide (row.unit = unit))
      (fun row => { row with decimals := some decimals }) fun _ => rfl,
    (assets.select fun row => decide (row.unit = unit)).length)

section Datums

variable [DatumReader]

/-- CIP-68 decimals of a label 333 or 444 token.  `mintTxHash` is the token's own mint, tried when
`AssetHistory` has no mint of the reference NFT. -/
def cip68Decimals (store : CrawlStore) (unit : AssetUnit) (mintTxHash : Option TxHash) :
    Option Nat :=
  (cip68ReferenceUnit unit).bind fun referenceUnit =>
    (orNull (currentReferenceDatum store referenceUnit mintTxHash)).bind cip68DecimalsFromDatum

/-- The datum of an output, as far as its transaction and the tables tell. -/
def outputDatum (store : CrawlStore) (t : Transaction) (o : TxOutputLine) : Option String :=
  o.data.inlineDatum.or <| (orNull o.data.dataHash).bind fun dataHash =>
    -- the last of equal keys stays in a map
    (((t.datums.getD []).reverse.find? fun d => decide (d.hash = dataHash)).map TxDatum.cbor).or
      (storedDatum store dataHash)

/-- The decimals the datum of an output gives. -/
def datumDecimals (store : CrawlStore) (t : Transaction) (o : TxOutputLine) : Option Nat :=
  (orNull (outputDatum store t o)).bind cip68DecimalsFromDatum

/-- Write the decimals on each described token. -/
def setUsers (written : AssetTable × Nat) (users : List AssetUnit) (decimals : Nat) :
    AssetTable × Nat :=
  users.foldl (fun written unit =>
    let set := setAssetDecimals written.1 unit decimals
    (set.1, written.2 + set.2)) written

/-- One amount of an output. -/
def applyAmount (store : CrawlStore) (t : Transaction) (o : TxOutputLine)
    (written : AssetTable × Nat) (a : Amount) : AssetTable × Nat :=
  match cip68UserUnits a.unit with
  | none => written
  | some users =>
      match datumDecimals store t o with
      | none => written
      | some decimals => setUsers written users decimals

/-- Copy decimals from each reference-NFT datum in a block to the matching user tokens; with the
rows changed. -/
def applyReferenceDatums (store : CrawlStore) (txs : List Transaction) (assets : AssetTable) :
    AssetTable × Nat :=
  txs.foldl (fun written t =>
    t.outputs.foldl (fun written o =>
      o.amount.amounts.foldl (applyAmount store t o) written) written) (assets, 0)

end Datums

end Odatano
