import Odatano.ChainData
import Odatano.NumberTexts
import Odatano.OrderedMap

/-!
# Transaction metadata

`chunkUtf8`, `_jsonToTxMetadatum` and `_mapOdatanoMetadataToLedgerMetadata` of
`srv/blockchain/transaction-building/buildooor-tx.ts`, and what the mapping has to keep.
-/

namespace Odatano

/-! ## Metadata -/

/-- The metadata classes of the ledger library. -/
inductive TxMetadatum
  | int (n : Int)
  | text (text : JsString)
  | bytes (bytes : List UInt8)
  | list (list : List TxMetadatum)
  | map (map : List (TxMetadatum × TxMetadatum))

/-- What the constructors of the ledger library take. -/
class TxMetadataLibrary where
  /-- `new TxMetadatumInt`. -/
  takesInt : Int → Bool
  /-- A key of the labels of `new TxMetadata`, which are read with `BigInt`. -/
  takesLabel : JsString → Bool

inductive MetadataError
  | label (label : JsString)
  | fraction (value : Binary64) (path : JsString)
  | unsupported (isBoolean : Bool) (path : JsString)
  | longKey (key path : JsString)
  /-- A constructor of the library threw. -/
  | library
deriving DecidableEq

/-! ## Strings -/

/-- Ledger limit for one text or bytes metadatum, counted in bytes. -/
def METADATA_BYTE_LIMIT : Nat := 64

/-- The loop variables of `chunkUtf8`. -/
structure Utf8Chunks where
  chunks : List JsString
  current : JsString
  currentBytes : Nat

def Utf8Chunks.add (maxBytes : Nat) (s : Utf8Chunks) (ch : JsString) : Utf8Chunks :=
  let chBytes := JsString.pointBytes ch
  if s.currentBytes + chBytes > maxBytes then
    { chunks := s.chunks ++ [s.current], current := ch, currentBytes := chBytes }
  else { s with current := s.current ++ ch, currentBytes := s.currentBytes + chBytes }

/-- Split a string into pieces of at most `maxBytes` UTF-8 bytes without splitting a code point. -/
def chunkUtf8 (str : JsString) (maxBytes : Nat) : List JsString :=
  let s := (JsString.codePoints str).foldl (Utf8Chunks.add maxBytes) ⟨[], [], 0⟩
  if s.current.length > 0 ∨ s.chunks.length = 0 then s.chunks ++ [s.current] else s.chunks

/-- The value of a hexadecimal digit. -/
def hexDigit? (unit : CodeUnit) : Option Nat :=
  let code := unit.val
  if 48 ≤ code ∧ code ≤ 57 then some (code - 48)
  else if 97 ≤ code ∧ code ≤ 102 then some (code - 87)
  else if 65 ≤ code ∧ code ≤ 70 then some (code - 55)
  else none

/-- The bytes of pairs of hexadecimal digits. -/
def hexPairs? : JsString → Option (List UInt8)
  | [] => some []
  | [_] => none
  | high :: low :: rest =>
      match hexDigit? high, hexDigit? low, hexPairs? rest with
      | some h, some l, some bytes => some (UInt8.ofNat (16 * h + l) :: bytes)
      | _, _, _ => none

/-- The bytes of a string that matches `/^0x([0-9a-fA-F]{2})+$/`. -/
def hexBytes? (str : JsString) : Option (List UInt8) :=
  if str.take 2 = JsString.ofText "0x" ∧ 2 < str.length then hexPairs? (str.drop 2) else none

/-! ## The mapping -/

/-- Text over 64 bytes is chunked into a list, `0x` strings become bytes. -/
def stringToTxMetadatum (value : JsString) : TxMetadatum :=
  match hexBytes? value with
  | some bytes =>
      if bytes.length ≤ METADATA_BYTE_LIMIT then .bytes bytes
      else .list ((chunk bytes METADATA_BYTE_LIMIT).map .bytes)
  | none =>
      let chunks := chunkUtf8 value METADATA_BYTE_LIMIT
      if chunks.length = 1 then .text value else .list (chunks.map .text)

/-- `${path}[${i}]`. -/
def itemPath (path : JsString) (i : Nat) : JsString :=
  path ++ JsString.ofText "[" ++ JsString.ofText (toString i) ++ JsString.ofText "]"

/-- `${path}.${k}`. -/
def fieldPath (path k : JsString) : JsString := path ++ JsString.ofText "." ++ k

section Mapping

variable [TxMetadataLibrary]

mutual

/-- `path` is the position of `value`. -/
def jsonToTxMetadatum : Json JsString → JsString → Except MetadataError TxMetadatum
  | .number value, path =>
      match value.integer? with
      | none => .error (.fraction value path)
      | some n => if TxMetadataLibrary.takesInt n then .ok (.int n) else .error .library
  | .string value, _ => .ok (stringToTxMetadatum value)
  | .array items, path => (itemsToTxMetadata items path 0).map .list
  | .object fields, path => (fieldsToTxMetadata fields path).map .map
  | .null, path => .error (.unsupported false path)
  | .bool _, path => .error (.unsupported true path)

def itemsToTxMetadata :
    List (Json JsString) → JsString → Nat → Except MetadataError (List TxMetadatum)
  | [], _, _ => .ok []
  | v :: items, path, i => do
      let datum ← jsonToTxMetadatum v (itemPath path i)
      let rest ← itemsToTxMetadata items path (i + 1)
      return datum :: rest

def fieldsToTxMetadata : List (JsString × Json JsString) → JsString →
    Except MetadataError (List (TxMetadatum × TxMetadatum))
  | [], _ => .ok []
  | (k, v) :: fields, path =>
      if JsString.utf8Bytes k > METADATA_BYTE_LIMIT then .error (.longKey k path)
      else do
        let datum ← jsonToTxMetadatum v (fieldPath path k)
        let rest ← fieldsToTxMetadata fields path
        return (.text k, datum) :: rest

end

/-- `Number(label)` for digits. -/
def labelNumber (label : JsString) : Binary64 := Binary64.nearest (JsString.digitsValue label) 1

/-- The key of `metadata[Number(label)]`: a property name is the text of the number. -/
def labelKey (label : JsString) : JsString := Binary64.naturalText (labelNumber label)

/-- `Object.entries`. -/
def entriesOf : Json JsString → List (JsString × Json JsString)
  | .object fields => fields
  | .array items => items.mapIdx fun i item => (JsString.ofText (toString i), item)
  | .string str => str.mapIdx fun i unit => (JsString.ofText (toString i), .string [unit])
  | _ => []

/-- Assign one label. -/
def setLabel (metadata : OrderedMap JsString TxMetadatum) (entry : JsString × Json JsString) :
    Except MetadataError (OrderedMap JsString TxMetadatum) :=
  if JsString.isDigits entry.1 then do
    let datum ← jsonToTxMetadatum entry.2 entry.1
    return OrderedMap.set metadata (labelKey entry.1) datum
  else .error (.label entry.1)

/-- Whether `!metadataJson` holds. -/
def Json.isFalsy : Json JsString → Bool
  | .null => true
  | .bool value => !value
  | .number value => decide (value = .finite 0)
  | .string str => decide (str = [])
  | _ => false

/-- Map metadata JSON (label to value) to ledger metadata. -/
def mapOdatanoMetadataToLedgerMetadata (metadataJson : Json JsString) :
    Except MetadataError (OrderedMap JsString TxMetadatum) :=
  if Json.isFalsy metadataJson then .ok Table.empty
  else do
    let metadata ← (entriesOf metadataJson).foldlM setLabel Table.empty
    if (OrderedMap.keys metadata).all TxMetadataLibrary.takesLabel then .ok metadata
    else .error .library

end Mapping

/-! ## Pieces of a string -/

/-- The bytes of some code points. -/
def pointsBytes (points : List JsString) : Nat := (points.map JsString.pointBytes).sum

/-- What the loop of `chunkUtf8` has made of the code points it has seen. -/
structure Utf8Chunks.Holds (maxBytes : Nat) (s : Utf8Chunks) (seen : List JsString)
    (groups : List (List JsString)) (last : List JsString) : Prop where
  whole : groups.flatten ++ last = seen
  chunks : s.chunks = groups.map List.flatten
  current : s.current = last.flatten
  currentBytes : s.currentBytes = pointsBytes last
  fits : ∀ group ∈ groups, pointsBytes group ≤ maxBytes
  lastFits : pointsBytes last ≤ maxBytes

theorem Utf8Chunks.Holds.add {maxBytes : Nat} {s : Utf8Chunks} {seen : List JsString}
    {groups : List (List JsString)} {last : List JsString}
    (holds : s.Holds maxBytes seen groups last) {ch : JsString}
    (small : JsString.pointBytes ch ≤ maxBytes) :
    ∃ groups last, (s.add maxBytes ch).Holds maxBytes (seen ++ [ch]) groups last := by
  simp only [Utf8Chunks.add]
  split
  · refine ⟨groups ++ [last], [ch], ?_, ?_, ?_, ?_, ?_, ?_⟩
    · rw [List.flatten_append, List.flatten_singleton, holds.whole]
    · rw [List.map_append, holds.chunks, holds.current]
      rfl
    · exact (List.append_nil ch).symm
    · exact (Nat.add_zero _).symm
    · intro group groupMem
      rcases List.mem_append.mp groupMem with older | isLast
      · exact holds.fits group older
      · rw [List.mem_singleton.mp isLast]
        exact holds.lastFits
    · exact small
  · rename_i room
    refine ⟨groups, last ++ [ch], ?_, holds.chunks, ?_, ?_, holds.fits, ?_⟩
    · rw [← List.append_assoc, holds.whole]
    · simp [holds.current]
    · simp [holds.currentBytes, pointsBytes]
    · rw [holds.currentBytes] at room
      simp only [pointsBytes, List.map_append, List.sum_append, List.map_singleton,
        List.sum_singleton] at room ⊢
      omega

theorem Utf8Chunks.foldl_add {maxBytes : Nat} (enough : 4 ≤ maxBytes) (points : List JsString) :
    ∃ groups last, (points.foldl (Utf8Chunks.add maxBytes) ⟨[], [], 0⟩).Holds maxBytes points
      groups last := by
  induction points using List.reverseRecOn with
  | nil => exact ⟨[], [], rfl, rfl, rfl, rfl, fun _ => nofun, Nat.zero_le _⟩
  | append_singleton points ch ih =>
      obtain ⟨groups, last, holds⟩ := ih
      rw [List.foldl_append, List.foldl_cons, List.foldl_nil]
      exact holds.add ((JsString.pointBytes_le ch).trans enough)

/-- The pieces are groups of the code points in turn, none over the limit. -/
theorem chunkUtf8_groups {maxBytes : Nat} (enough : 4 ≤ maxBytes) (str : JsString) :
    ∃ groups : List (List JsString), groups.flatten = JsString.codePoints str ∧
      chunkUtf8 str maxBytes = groups.map List.flatten ∧
        ∀ group ∈ groups, pointsBytes group ≤ maxBytes := by
  obtain ⟨groups, last, holds⟩ := Utf8Chunks.foldl_add enough (JsString.codePoints str)
  unfold chunkUtf8
  generalize (JsString.codePoints str).foldl (Utf8Chunks.add maxBytes) ⟨[], [], 0⟩ = s at holds
  simp only
  split
  · refine ⟨groups ++ [last], ?_, ?_, ?_⟩
    · rw [List.flatten_append, List.flatten_singleton, holds.whole]
    · rw [List.map_append, holds.chunks, holds.current]
      rfl
    · intro group groupMem
      rcases List.mem_append.mp groupMem with older | isLast
      · exact holds.fits group older
      · rw [List.mem_singleton.mp isLast]
        exact holds.lastFits
  · rename_i done
    refine ⟨groups, ?_, holds.chunks, holds.fits⟩
    -- nothing is left over, and no code point is empty
    have noCurrent : last.flatten = [] := by
      rw [← holds.current, ← List.length_eq_zero_iff]
      omega
    have noLast : last = [] := by
      rw [List.eq_nil_iff_forall_not_mem]
      intro point pointMem
      have listed : point ∈ JsString.codePoints str := by
        rw [← holds.whole]
        exact List.mem_append_right _ pointMem
      refine JsString.ne_nil_of_mem_codePoints listed ?_
      exact List.flatten_eq_nil_iff.mp noCurrent point pointMem
    rw [← holds.whole, noLast, List.append_nil]

/-- Groups of code points in turn have no other code points. -/
theorem codePoints_groups {str : JsString} {groups : List (List JsString)}
    (whole : groups.flatten = JsString.codePoints str) :
    ∀ group ∈ groups, JsString.codePoints group.flatten = group := by
  induction groups generalizing str with
  | nil => exact fun _ => nofun
  | cons first rest ih =>
      rw [List.flatten_cons] at whole
      obtain ⟨isFirst, isRest⟩ := JsString.codePoints_flatten_of_append whole.symm
      intro group groupMem
      rcases List.mem_cons.mp groupMem with rfl | later
      · exact isFirst
      · exact ih isRest.symm group later

/-- The pieces make up the string, are short and split no code point. -/
structure PiecesOf (pieces : List JsString) (str : JsString) : Prop where
  whole : pieces.flatten = str
  short : ∀ piece ∈ pieces, JsString.utf8Bytes piece ≤ METADATA_BYTE_LIMIT
  points : pieces.flatMap JsString.codePoints = JsString.codePoints str

theorem piecesOf_chunkUtf8 (str : JsString) : PiecesOf (chunkUtf8 str METADATA_BYTE_LIMIT) str := by
  have enough : 4 ≤ METADATA_BYTE_LIMIT := by decide
  obtain ⟨groups, whole, pieces, fits⟩ := chunkUtf8_groups enough str
  have points := codePoints_groups whole
  rw [pieces]
  refine ⟨?_, ?_, ?_⟩
  · rw [← List.flatten_flatten, whole, JsString.flatten_codePoints]
  · intro piece pieceMem
    obtain ⟨group, groupMem, rfl⟩ := List.mem_map.mp pieceMem
    rw [JsString.utf8Bytes, points group groupMem]
    exact fits group groupMem
  · rw [List.flatMap_map, ← whole, List.flatten_eq_flatMap]
    exact List.flatMap_congr fun group groupMem => points group groupMem

/-! ## Nothing lost -/

/-- The text, bytes or list of pieces that a string became. -/
inductive StringMirrors (str : JsString) : TxMetadatum → Prop
  | text (short : JsString.utf8Bytes str ≤ METADATA_BYTE_LIMIT) : StringMirrors str (.text str)
  | texts {pieces : List JsString} (cut : PiecesOf pieces str) :
      StringMirrors str (.list (pieces.map .text))
  | bytes {bytes : List UInt8} (isHex : hexBytes? str = some bytes)
      (short : bytes.length ≤ METADATA_BYTE_LIMIT) : StringMirrors str (.bytes bytes)
  | byteStrings {pieces : List (List UInt8)} (isHex : hexBytes? str = some pieces.flatten)
      (short : ∀ piece ∈ pieces, piece.length ≤ METADATA_BYTE_LIMIT) :
      StringMirrors str (.list (pieces.map .bytes))

theorem stringMirrors (str : JsString) : StringMirrors str (stringToTxMetadatum str) := by
  unfold stringToTxMetadatum
  cases isHex : hexBytes? str with
  | some bytes =>
      simp only
      split
      · rename_i short
        exact .bytes isHex short
      · have positive : 0 < METADATA_BYTE_LIMIT := by decide
        refine .byteStrings (isHex.trans (by rw [flatten_chunk bytes positive])) ?_
        intro piece pieceMem
        obtain ⟨i, -, rfl⟩ := List.mem_map.mp pieceMem
        exact List.length_take_le _ _
  | none =>
      have cut := piecesOf_chunkUtf8 str
      simp only
      generalize chunkUtf8 str METADATA_BYTE_LIMIT = pieces at cut
      split
      · rename_i single
        obtain ⟨piece, rfl⟩ := List.length_eq_one_iff.mp single
        have isWhole : piece = str := by
          rw [← cut.whole, List.flatten_singleton]
        refine .text ?_
        rw [← isWhole]
        exact cut.short piece (List.mem_singleton_self piece)
      · exact .texts cut

/-- The integers of the ledger's metadata. -/
def InLedgerRange (n : Int) : Prop := -2 ^ 64 ≤ n ∧ n < 2 ^ 64

mutual

/-- Position by position the same value. -/
def Mirrors : Json JsString → TxMetadatum → Prop
  | .number value, .int n => value.integer? = some n ∧ InLedgerRange n
  | .string str, datum => StringMirrors str datum
  | .array items, .list list => ItemsMirror items list
  | .object fields, .map map => FieldsMirror fields map
  | _, _ => False

def ItemsMirror : List (Json JsString) → List TxMetadatum → Prop
  | [], [] => True
  | item :: items, datum :: list => Mirrors item datum ∧ ItemsMirror items list
  | _, _ => False

def FieldsMirror : List (JsString × Json JsString) → List (TxMetadatum × TxMetadatum) → Prop
  | [], [] => True
  | (k, item) :: fields, (key, datum) :: map =>
      (key = .text k ∧ JsString.utf8Bytes k ≤ METADATA_BYTE_LIMIT) ∧ Mirrors item datum ∧
        FieldsMirror fields map
  | _, _ => False

end

/-! ## What is refused -/

section Mapping

variable [TxMetadataLibrary]

mutual

/-- A value without booleans, nulls, fractions, integers that the library does not take and keys
over the limit. -/
def Acceptable : Json JsString → Prop
  | .number value => ∃ n, value.integer? = some n ∧ TxMetadataLibrary.takesInt n = true
  | .string _ => True
  | .array items => ItemsAcceptable items
  | .object fields => FieldsAcceptable fields
  | .null => False
  | .bool _ => False

def ItemsAcceptable : List (Json JsString) → Prop
  | [] => True
  | item :: items => Acceptable item ∧ ItemsAcceptable items

def FieldsAcceptable : List (JsString × Json JsString) → Prop
  | [] => True
  | (k, item) :: fields =>
      JsString.utf8Bytes k ≤ METADATA_BYTE_LIMIT ∧ Acceptable item ∧ FieldsAcceptable fields

end

mutual

theorem acceptable_iff :
    ∀ (value : Json JsString) (path : JsString),
      Acceptable value ↔ ∃ datum, jsonToTxMetadatum value path = .ok datum
  | .number value, path => by
      simp only [Acceptable, jsonToTxMetadatum]
      cases isInteger : value.integer? with
      | none => simp
      | some n => cases taken : TxMetadataLibrary.takesInt n <;> simp [taken]
  | .string value, path => by simp [Acceptable, jsonToTxMetadatum]
  | .array items, path => by
      rw [Acceptable, itemsAcceptable_iff items path 0]
      cases mapped : itemsToTxMetadata items path 0 <;> simp [jsonToTxMetadatum, mapped, Except.map]
  | .object fields, path => by
      rw [Acceptable, fieldsAcceptable_iff fields path]
      cases mapped : fieldsToTxMetadata fields path <;> simp [jsonToTxMetadatum, mapped, Except.map]
  | .null, path => by simp [Acceptable, jsonToTxMetadatum]
  | .bool value, path => by simp [Acceptable, jsonToTxMetadatum]

theorem itemsAcceptable_iff :
    ∀ (items : List (Json JsString)) (path : JsString) (i : Nat),
      ItemsAcceptable items ↔ ∃ list, itemsToTxMetadata items path i = .ok list
  | [], path, i => by simp [ItemsAcceptable, itemsToTxMetadata]
  | item :: items, path, i => by
      rw [ItemsAcceptable, acceptable_iff item (itemPath path i),
        itemsAcceptable_iff items path (i + 1), itemsToTxMetadata]
      cases jsonToTxMetadatum item (itemPath path i) with
      | error e => simp [bind, Except.bind]
      | ok datum =>
          cases itemsToTxMetadata items path (i + 1) <;>
            simp [bind, Except.bind, pure, Except.pure]

theorem fieldsAcceptable_iff :
    ∀ (fields : List (JsString × Json JsString)) (path : JsString),
      FieldsAcceptable fields ↔ ∃ map, fieldsToTxMetadata fields path = .ok map
  | [], path => by simp [FieldsAcceptable, fieldsToTxMetadata]
  | (k, item) :: fields, path => by
      rw [FieldsAcceptable, acceptable_iff item (fieldPath path k),
        fieldsAcceptable_iff fields path, fieldsToTxMetadata]
      by_cases short : JsString.utf8Bytes k ≤ METADATA_BYTE_LIMIT
      · rw [if_neg (Nat.not_lt.mpr short)]
        cases jsonToTxMetadatum item (fieldPath path k) with
        | error e => simp [bind, Except.bind]
        | ok datum =>
            cases fieldsToTxMetadata fields path <;>
              simp [short, bind, Except.bind, pure, Except.pure]
      · rw [if_pos (Nat.lt_of_not_le short)]
        simp [short]

end

/-! ## Integers -/

mutual

/-- The integers of a value. -/
def integersOf : Json JsString → List Int
  | .number value => value.integer?.toList
  | .array items => integersOfItems items
  | .object fields => integersOfFields fields
  | _ => []

def integersOfItems : List (Json JsString) → List Int
  | [] => []
  | item :: items => integersOf item ++ integersOfItems items

def integersOfFields : List (JsString × Json JsString) → List Int
  | [] => []
  | (_, item) :: fields => integersOf item ++ integersOfFields fields

end

mutual

/-- What is mapped mirrors the value exactly if its integers are in range. -/
theorem mirrors_iff : ∀ {value : Json JsString} {path : JsString} {datum : TxMetadatum},
    jsonToTxMetadatum value path = .ok datum →
      (Mirrors value datum ↔ ∀ n ∈ integersOf value, InLedgerRange n)
  | .number value, path, datum, mapped => by
      rw [jsonToTxMetadatum] at mapped
      cases isInteger : value.integer? with
      | none =>
          rw [isInteger] at mapped
          cases mapped
      | some n =>
          rw [isInteger] at mapped
          simp only at mapped
          split at mapped
          · cases mapped
            simp [Mirrors, integersOf, isInteger]
          · cases mapped
  | .string value, path, datum, mapped => by
      cases mapped
      simp [Mirrors, integersOf, stringMirrors]
  | .array items, path, datum, mapped => by
      rw [jsonToTxMetadatum] at mapped
      cases each : itemsToTxMetadata items path 0 with
      | error e =>
          rw [each] at mapped
          cases mapped
      | ok list =>
          rw [each] at mapped
          cases mapped
          exact itemsMirror_iff each
  | .object fields, path, datum, mapped => by
      rw [jsonToTxMetadatum] at mapped
      cases each : fieldsToTxMetadata fields path with
      | error e =>
          rw [each] at mapped
          cases mapped
      | ok map =>
          rw [each] at mapped
          cases mapped
          exact fieldsMirror_iff each
  | .null, path, datum, mapped => by cases mapped
  | .bool value, path, datum, mapped => by cases mapped

theorem itemsMirror_iff : ∀ {items : List (Json JsString)} {path : JsString} {i : Nat}
    {list : List TxMetadatum}, itemsToTxMetadata items path i = .ok list →
      (ItemsMirror items list ↔ ∀ n ∈ integersOfItems items, InLedgerRange n)
  | [], path, i, list, mapped => by
      cases mapped
      simp [ItemsMirror, integersOfItems]
  | item :: items, path, i, list, mapped => by
      rw [itemsToTxMetadata] at mapped
      cases first : jsonToTxMetadatum item (itemPath path i) with
      | error e =>
          rw [first] at mapped
          cases mapped
      | ok datum =>
          cases rest : itemsToTxMetadata items path (i + 1) with
          | error e =>
              rw [first, rest] at mapped
              cases mapped
          | ok list =>
              rw [first, rest] at mapped
              cases mapped
              rw [ItemsMirror, mirrors_iff first, itemsMirror_iff rest, integersOfItems,
                List.forall_mem_append]

theorem fieldsMirror_iff : ∀ {fields : List (JsString × Json JsString)} {path : JsString}
    {map : List (TxMetadatum × TxMetadatum)}, fieldsToTxMetadata fields path = .ok map →
      (FieldsMirror fields map ↔ ∀ n ∈ integersOfFields fields, InLedgerRange n)
  | [], path, map, mapped => by
      cases mapped
      simp [FieldsMirror, integersOfFields]
  | (k, item) :: fields, path, map, mapped => by
      rw [fieldsToTxMetadata] at mapped
      split at mapped
      · cases mapped
      · rename_i short
        cases first : jsonToTxMetadatum item (fieldPath path k) with
        | error e =>
            rw [first] at mapped
            cases mapped
        | ok datum =>
            cases rest : fieldsToTxMetadata fields path with
            | error e =>
                rw [first, rest] at mapped
                cases mapped
            | ok list =>
                rw [first, rest] at mapped
                cases mapped
                rw [FieldsMirror, mirrors_iff first, fieldsMirror_iff rest, integersOfFields,
                  List.forall_mem_append, and_iff_right ⟨rfl, Nat.not_lt.mp short⟩]

end

end Mapping

end Odatano
