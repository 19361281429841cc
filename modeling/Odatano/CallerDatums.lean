import Odatano.CborItems
import Odatano.FirstOccurrence
import Odatano.OrderedMap
import Odatano.PlutusDataJson

/-!
# Caller datums

`srv/blockchain/transaction-building/caller-datums.ts`: Buildooor encodes every datum again, and
the bytes the caller gave are put back into the transaction.
-/

/-! ## Offsets -/

namespace CborItem

def uint (n : Nat) : CborItem := leaf 0 (.ofNat n) []

def bytes (content : Bytes) : CborItem := leaf 2 (.ofNat content.length) content

def tag (n : Nat) (item : CborItem) : CborItem := node ⟨6, some (.ofNat n)⟩ [item]

/-- An unsigned integer, however its head is written. -/
def isUInt (item : CborItem) (n : Nat) : Bool :=
  match item with
  | leaf major argument _ => decide (major = 0 ∧ argument.value = n)
  | node _ _ => false

def isArray : CborItem → Bool
  | leaf _ _ _ => false
  | node head _ => decide (head.major = 4)

/-- Keys and values, listed in turn. -/
def pairs {α : Type} : List α → List (α × α)
  | k :: v :: items => (k, v) :: pairs items
  | _ => []

/-- An item with the offset of its first byte. -/
structure Located where
  item : CborItem
  start : Nat

namespace Located

def stop (located : Located) : Nat := located.start + located.item.encode.length

/-- Items that stand one after another. -/
def listFrom (start : Nat) : List CborItem → List Located
  | [] => []
  | item :: items => ⟨item, start⟩ :: listFrom (start + item.encode.length) items

def children (located : Located) : List Located :=
  match located.item with
  | leaf _ _ _ => []
  | node head items => listFrom (located.start + head.encode.length) items

/-- The item under tags; a tag carries no offset of its own, its content does. -/
def untag (start : Nat) : CborItem → Located
  | node head [item] =>
      if head.major = 6 then untag (start + head.encode.length) item else ⟨node head [item], start⟩
  | item => ⟨item, start⟩

/-- End offset of a parsed item. -/
def endOf (located : Located) : Nat := (untag located.start located.item).stop

/-- The entry of a map with an integer key. -/
def entryOf (map : Located) (key : Nat) : Option (Located × Located) :=
  (pairs map.children).find? fun entry => entry.1.item.isUInt key

end Located

end CborItem

namespace Odatano

open CborItem

/-- Bytes from one offset up to another. -/
def subarray (bytes : Bytes) (start stop : Nat) : Bytes := (bytes.take stop).drop start

/-- Where a pattern first occurs. -/
def indexOf (pattern bytes : Bytes) : Option Nat := pattern.firstOccurrence bytes

/-- The packages that read and write Plutus data, which is CBOR, and hash bytes. -/
class DatumPackages where
  dataFromCbor : Bytes → Option PlutusData
  dataToCbor : PlutusData → Bytes
  blake2b_256 : Bytes → Bytes
  isCbor_of_data : ∀ bytes data, dataFromCbor bytes = some data → (parse bytes).isSome
  length_blake2b_256 : ∀ bytes, (blake2b_256 bytes).length = 32

open DatumPackages

/-- A transaction as read from CBOR, which keeps its bytes. -/
structure LedgerBytes where
  root : CborItem
  wellFormed : root.WellFormed

namespace LedgerBytes

def toCbor (tx : LedgerBytes) : Bytes := tx.root.encode

def fromCbor (bytes : Bytes) : Except String LedgerBytes :=
  match parsed : parse bytes with
  | some root => .ok ⟨root, (wellFormed_of_parse parsed).1⟩
  | none => .error "the bytes are no transaction"

/-- The body and the witness set of a transaction. -/
def part? (root : CborItem) (index : Nat) : Option Located := (Located.mk root 0).children[index]?

/-- The hash that signatures are made over: the hash of the body as it stands. -/
def hash [DatumPackages] (tx : LedgerBytes) : Option Bytes :=
  (part? tx.root 0).map fun body => blake2b_256 body.item.encode

/-- The body's outputs, at the offsets of their bytes. -/
def outputs (tx : LedgerBytes) : List Located :=
  (((part? tx.root 0).bind fun body => body.entryOf 1).map fun entry => entry.2.children).getD []

end LedgerBytes

/-! ## Inline datums -/

/-- Output map entry `2 => [1, #6.24(datum)]` that holds an inline datum. -/
def inlineDatumEntry (datum : Bytes) : Bytes := [0x02, 0x82, 0x01] ++ (tag 24 (.bytes datum)).encode

/-- The bytes of an output's inline datum, null for none or for a datum hash. -/
def inlineDatum? (output : Located) : Option Bytes :=
  match (output.entryOf 2).map fun entry => entry.2.item with
  | some (node _ [kind, node _ [leaf major _ content]]) =>
      if kind.isUInt 1 = true ∧ major = 2 then some content else none
  | _ => none

section Datums

variable [DatumPackages]

/-- Bytes one output gains when its datum is written as given; negative when it shrinks. -/
def callerDatumGrowth (datum : Bytes) : Option Int :=
  (dataFromCbor datum).map fun data =>
    (inlineDatumEntry datum).length - (inlineDatumEntry (dataToCbor data)).length

/-- Bytes the whole transaction gains from the caller's datums, never below zero. -/
def callerDatumsGrowth (datums : OrderedMap Nat Bytes) : Option Int :=
  (datums.rows.mapM fun row => callerDatumGrowth row.2).map fun growths => max 0 growths.sum

/-- Put the caller's bytes in the place of the datum of one output. -/
def writeCallerDatum (outputs : List Located) (bytes : Bytes) (index : Nat) (datum : Bytes) :
    Except String Bytes :=
  match outputs[index]?.bind fun out =>
      ((inlineDatum? out).bind dataFromCbor).map fun data => (out, data) with
  | none =>
      .error ("output " ++ toString index ++ " of the built transaction carries no inline datum")
  | some (out, data) =>
      let built := inlineDatumEntry (dataToCbor data)
      match indexOf built (subarray bytes out.start out.stop) with
      | none =>
          .error ("inline datum of output " ++ toString index ++
            " not found in the built transaction")
      | some offset =>
          let start := out.start + offset
          .ok (bytes.take start ++ inlineDatumEntry datum ++ bytes.drop (start + built.length))

/-- Only the datum bytes change.  CBOR containers count items, not bytes, so the rest stays
valid. -/
def writeCallerDatums (tx : LedgerBytes) (datums : OrderedMap Nat Bytes) :
    Except String LedgerBytes :=
  if datums.rows = [] then .ok tx
  else do
    let outputs := tx.outputs
    -- last output first, so the offsets of earlier outputs stay valid
    let rows := datums.rows.mergeSort fun first second => decide (second.1 ≤ first.1)
    let bytes ← rows.foldlM (fun bytes row => writeCallerDatum outputs bytes row.1 row.2) tx.toCbor
    LedgerBytes.fromCbor bytes

/-! ## Witness datums -/

/-- Datum hash as the ledger computes it: blake2b-256 of the datum bytes. -/
def datumHashOf (datum : Bytes) : String := toHex (blake2b_256 datum)

/-- Bytes the witness set gains from the caller's datums, never below zero. -/
def witnessDatumsGrowth (datums : List Bytes) : Option Int :=
  (datums.mapM fun datum => (dataFromCbor datum).map fun data =>
    (datum.length : Int) - (dataToCbor data).length).map fun growths => max 0 growths.sum

/-- Length of a CBOR item head, from its first byte. -/
def headLength (first : UInt8) : Nat :=
  let info := first.toNat % 32
  if info < 24 ∨ info = 31 then 1 else if info = 24 then 2 else if info = 25 then 3
  else if info = 26 then 5 else 9

/-- Bytes of a map entry's value as they stand in `bytes`. -/
def valueBytes (bytes : Bytes) (entry : Located × Located) : Bytes :=
  subarray bytes entry.1.stop entry.2.endOf

/-- The caller's bytes by the bytes that Buildooor writes for the same value, where they differ. -/
def wantedDatums (datums : List Bytes) : Option (OrderedMap Bytes Bytes) :=
  datums.foldlM (fun wanted datum => (dataFromCbor datum).map fun data =>
    if dataToCbor data ≠ datum then OrderedMap.set wanted (dataToCbor data) datum else wanted)
    Table.empty

/-- scriptDataHash of a transaction over its redeemer and datum bytes as they stand, laid out like
Buildooor's `getScriptDataHash`. -/
def scriptDataHashOf (bytes languageViews : Bytes) : Except String Bytes :=
  match (parse bytes).bind fun root => LedgerBytes.part? root 1 with
  | none => .error "the bytes are no transaction"
  | some witnesses =>
      let datumBytes := ((witnesses.entryOf 4).map (valueBytes bytes)).getD []
      match witnesses.entryOf 5 with
      | some redeemers => .ok (blake2b_256 (valueBytes bytes redeemers ++ datumBytes ++ languageViews))
      | none =>
          if (witnesses.entryOf 4).isNone then
            .error "the transaction carries no redeemers and no datums"
          else .ok (blake2b_256 ([0xa0] ++ datumBytes ++ [0xa0]))

/-- The datum list with the caller's bytes: head, items, and the break byte of an indefinite
list. -/
def rebuildDatums (bytes : Bytes) (list : Located) (wanted : OrderedMap Bytes Bytes) : Bytes :=
  let start := list.start + headLength (bytes.getD list.start 0)
  let rebuilt := list.children.foldl
    (fun (parts, start) item =>
      let own := subarray bytes start item.endOf
      (parts ++ (OrderedMap.get? wanted own).getD own, item.endOf))
    (subarray bytes list.start start, start)
  rebuilt.1 ++ subarray bytes rebuilt.2 list.stop

/-- The ledger finds a witness datum by the hash of its bytes, so the caller's bytes go back in.
Then scriptDataHash is computed again over redeemers, datums and language views. -/
def writeWitnessDatums (tx : LedgerBytes) (datums : List Bytes) (languageViews : Bytes) :
    Except String LedgerBytes :=
  match wantedDatums datums with
  | none => .error "a datum is no Plutus data"
  | some wanted =>
      if wanted.rows = [] then .ok tx
      else
        let bytes := tx.toCbor
        match (((LedgerBytes.part? tx.root 1).bind fun witnesses => witnesses.entryOf 4).map
            fun entry => Located.untag entry.2.start entry.2.item).filter
            fun list => list.item.isArray with
        | none => .error "the built transaction carries no witness datums"
        | some list =>
            let bytes := bytes.take list.start ++ rebuildDatums bytes list wanted ++
              bytes.drop list.stop
            match ((parse bytes).bind fun root => LedgerBytes.part? root 0).bind
                fun body => body.entryOf 11 with
            | none => .error "the built transaction carries no scriptDataHash"
            | some entry => do
                let hash ← scriptDataHashOf bytes languageViews
                let start := entry.2.endOf - 32
                if entry.2.endOf < 32 then .error "offset is out of bounds"
                else
                  LedgerBytes.fromCbor (bytes.take start ++ hash ++ bytes.drop (start + hash.length))

end Datums

end Odatano
