import Odatano.JsonValues
import Mathlib.Data.List.Basic

/-!
# Plutus data as JSON

`plutusDataToJson` of `srv/cbor/plutus-data-json.ts` and `normalizeConstructorKey` and
`jsonToPlutusData` of `srv/utils/tx-build-helper.ts`: the detailed schema, written and read.
-/

namespace Odatano

inductive PlutusData
  | constr (constr : Nat) (fields : List PlutusData)
  | int (int : Int)
  | bytes (bytes : List UInt8)
  | list (list : List PlutusData)
  | map (map : List (PlutusData × PlutusData))

/-! ## Writing -/

def hexDigit (value : Nat) : Char := (Nat.toDigits 16 value).headD '0'

/-- `Buffer.toString('hex')`. -/
def toHex (bytes : List UInt8) : String :=
  String.ofList (bytes.flatMap fun byte => [hexDigit (byte.toNat / 16), hexDigit (byte.toNat % 16)])

/-- `Number.MAX_SAFE_INTEGER`. -/
def MAX_SAFE_INTEGER : Int := 2 ^ 53 - 1

mutual

/-- Integers beyond the safe range are decimal strings. -/
def plutusDataToJson : PlutusData → Json String
  | .constr constr fields =>
      .object [("constructor", .number (Binary64.nearest constr 1)),
        ("fields", .array (itemsToJson fields))]
  | .int i =>
      .object [("int",
        if -MAX_SAFE_INTEGER ≤ i ∧ i ≤ MAX_SAFE_INTEGER then .number (.ofInt i)
        else .string (toString i))]
  | .bytes bytes => .object [("bytes", .string (toHex bytes))]
  | .list list => .object [("list", .array (itemsToJson list))]
  | .map map => .object [("map", .array (entriesToJson map))]

def itemsToJson : List PlutusData → List (Json String)
  | [] => []
  | data :: list => plutusDataToJson data :: itemsToJson list

def entriesToJson : List (PlutusData × PlutusData) → List (Json String)
  | [] => []
  | (fst, snd) :: map =>
      .object [("k", plutusDataToJson fst), ("v", plutusDataToJson snd)] :: entriesToJson map

end

/-! ## Normalizing -/

/-- The value of a key. -/
def fieldOf {α : Type} (fields : List (String × α)) (key : String) : Option α :=
  (fields.find? fun field => decide (field.1 = key)).map Prod.snd

def PLUTUS_DATA_ALLOWED_KEYS : List String :=
  ["constructor", "constr", "fields", "int", "bytes", "list", "map", "k", "v"]

/-- Strip keys that are not in the whitelist. -/
def sanitizePlutusKeys (fields : List (String × Json String)) : List (String × Json String) :=
  fields.filter fun field => decide (field.1 ∈ PLUTUS_DATA_ALLOWED_KEYS)

def isArray : Json String → Bool
  | .array _ => true
  | _ => false

/-- The form of an object.  `normalized` are its fields with their contents normalized, none where
that throws. -/
def normalizedObject (safe : List (String × Json String))
    (normalized : List (String × Option (Json String))) : Option (Json String) :=
  let has (key : String) : Bool := (fieldOf safe key).isSome
  let hasArray (key : String) : Bool := (fieldOf safe key).any isArray
  let contents (key : String) : Option (Json String) := (fieldOf normalized key).join
  let constr (key : String) : List (String × Json String) :=
    ((fieldOf safe key).map fun value => ("constr", value)).toList
  if has "constructor" && !has "constr" then
    if hasArray "fields" then
      (contents "fields").map fun fields => .object (constr "constructor" ++ [("fields", fields)])
    else some (.object (constr "constructor"))
  else if hasArray "list" then (contents "list").map fun list => .object [("list", list)]
  else if hasArray "map" then (contents "map").map fun map => .object [("map", map)]
  else if has "constr" && hasArray "fields" then
    (contents "fields").map fun fields => .object (constr "constr" ++ [("fields", fields)])
  else some (.object safe)

/-- `{ k, v }` of an entry with normalized fields. -/
def normalizedEntry (normalized : List (String × Option (Json String))) : Option (Json String) :=
  match fieldOf normalized "k", fieldOf normalized "v" with
  | some (some k), some (some v) => some (.object [("k", k), ("v", v)])
  | some (some k), none => some (.object [("k", k)])
  | none, some (some v) => some (.object [("v", v)])
  | none, none => some (.object [])
  | _, _ => none

mutual

/-- `normalizeConstructorKey` of an object, other values as they are; none where the source reads
a key of null. -/
def normalizeValue : Json String → Option (Json String)
  | .object fields => normalizedObject (sanitizePlutusKeys fields) (normalizeContents fields)
  | value => some value

/-- The fields with the items of lists and the entries of maps normalized. -/
def normalizeContents : List (String × Json String) → List (String × Option (Json String))
  | [] => []
  | (key, .array items) :: fields =>
      (key, (if key = "map" then normalizeEntries items else normalizeItems items).map .array) ::
        normalizeContents fields
  | (key, value) :: fields => (key, some value) :: normalizeContents fields

def normalizeItems : List (Json String) → Option (List (Json String))
  | [] => some []
  | item :: items =>
      match normalizeValue item, normalizeItems items with
      | some item, some items => some (item :: items)
      | _, _ => none

def normalizeEntries : List (Json String) → Option (List (Json String))
  | [] => some []
  | .null :: _ => none
  | .object fields :: entries =>
      match normalizedEntry (normalizeFields fields), normalizeEntries entries with
      | some entry, some entries => some (entry :: entries)
      | _, _ => none
  | _ :: entries => (normalizeEntries entries).map (.object [] :: ·)

def normalizeFields : List (String × Json String) → List (String × Option (Json String))
  | [] => []
  | (key, value) :: fields => (key, normalizeValue value) :: normalizeFields fields

end

example : normalizeValue (.object [("fields", .array []), ("constructor", .number (.ofInt 0))]) =
    some (.object [("constr", .number (.ofInt 0)), ("fields", .array [])]) := by rfl

/-! ## Reading -/

inductive PlutusJsonError
  | null
  | unsupported
  /-- The library cannot read the normalized object. -/
  | invalid
  /-- A key of null was read. -/
  | typeError
deriving DecidableEq

/-- The integer of decimal digits, with a minus sign or without one. -/
def decimalText? (chars : String) : Option Int :=
  let natural (digits : List Char) : Option Nat :=
    if digits ≠ [] ∧ digits.all Char.isDigit then some (Nat.ofDigitChars 10 digits 0) else none
  match chars.toList with
  | '-' :: digits => (natural digits).map fun n => -(n : Int)
  | digits => (natural digits).map fun n => (n : Int)

/-- The library's `dataFromJson`, which follows the detailed schema with the key `constr`. -/
class DetailedSchema where
  dataFromJson : Json String → Option PlutusData
  int_number : ∀ n, dataFromJson (.object [("int", .number n)]) = n.integer?.map .int
  int_text : ∀ {text i}, decimalText? text = some i →
    dataFromJson (.object [("int", .string text)]) = some (.int i)
  bytes_toHex : ∀ bytes, dataFromJson (.object [("bytes", .string (toHex bytes))]) =
    some (.bytes bytes)
  bytes_only : ∀ {text data}, dataFromJson (.object [("bytes", .string text)]) = some data →
    ∃ bytes, data = .bytes bytes
  list : ∀ items, dataFromJson (.object [("list", .array items)]) =
    (items.mapM dataFromJson).map .list
  map : ∀ entries : List (Json String × Json String),
    dataFromJson (.object [("map", .array (entries.map fun entry =>
        .object [("k", entry.1), ("v", entry.2)]))]) =
      (entries.mapM fun entry =>
        (dataFromJson entry.1).bind fun k => (dataFromJson entry.2).map fun v => (k, v)).map .map
  constr : ∀ n items, dataFromJson (.object [("constr", .number n), ("fields", .array items)]) =
    n.integer?.bind fun i =>
      if 0 ≤ i then (items.mapM dataFromJson).map (.constr i.toNat) else none

/-- JSON to the library's Plutus data. -/
def jsonToPlutusData [DetailedSchema] (json : Json String) : Except PlutusJsonError PlutusData :=
  match json with
  | .null => .error .null
  | .object _ =>
      match normalizeValue json with
      | none => .error .typeError
      | some normalized =>
          match DetailedSchema.dataFromJson normalized with
          | some data => .ok data
          | none => .error .invalid
  | _ => .error .unsupported

/-! ## The detailed schema -/

/-- JSON in the detailed schema, with numbers `ν`.  `byCli` is the key `constructor` for `constr`;
the keys of an object come in either order. -/
inductive DetailedJson (ν : Type) where
  | constr (byCli fieldsFirst : Bool) (index : ν) (fields : List (DetailedJson ν))
  | number (value : ν)
  | decimal (chars : String) (value : Int) (reads : decimalText? chars = some value)
  | bytes (chars : String)
  | list (items : List (DetailedJson ν))
  | map (entries : List (Bool × DetailedJson ν × DetailedJson ν))

mutual

/-- The JSON value. -/
def DetailedJson.toJson : DetailedJson Binary64 → Json String
  | .constr byCli fieldsFirst index fields =>
      let constr := (if byCli then "constructor" else "constr", Json.number index)
      let fields := ("fields", Json.array (itemsJson fields))
      .object (if fieldsFirst then [fields, constr] else [constr, fields])
  | .number value => .object [("int", .number value)]
  | .decimal chars _ _ => .object [("int", .string chars)]
  | .bytes chars => .object [("bytes", .string chars)]
  | .list items => .object [("list", .array (itemsJson items))]
  | .map entries => .object [("map", .array (entriesJson entries))]

def itemsJson : List (DetailedJson Binary64) → List (Json String)
  | [] => []
  | item :: items => item.toJson :: itemsJson items

def entriesJson : List (Bool × DetailedJson Binary64 × DetailedJson Binary64) → List (Json String)
  | [] => []
  | (valueFirst, k, v) :: entries =>
      .object (if valueFirst then [("v", v.toJson), ("k", k.toJson)]
        else [("k", k.toJson), ("v", v.toJson)]) :: entriesJson entries

end

mutual

/-- The normalized object. -/
def DetailedJson.normalized : DetailedJson Binary64 → Json String
  | .constr _ _ index fields =>
      .object [("constr", .number index), ("fields", .array (itemsNormalized fields))]
  | .number value => .object [("int", .number value)]
  | .decimal chars _ _ => .object [("int", .string chars)]
  | .bytes chars => .object [("bytes", .string chars)]
  | .list items => .object [("list", .array (itemsNormalized items))]
  | .map entries =>
      .object [("map", .array ((entriesNormalized entries).map fun entry =>
        .object [("k", entry.1), ("v", entry.2)]))]

def itemsNormalized : List (DetailedJson Binary64) → List (Json String)
  | [] => []
  | item :: items => item.normalized :: itemsNormalized items

def entriesNormalized :
    List (Bool × DetailedJson Binary64 × DetailedJson Binary64) → List (Json String × Json String)
  | [] => []
  | (_, k, v) :: entries => (k.normalized, v.normalized) :: entriesNormalized entries

end

mutual

theorem normalizeValue_toJson :
    ∀ json : DetailedJson Binary64, normalizeValue json.toJson = some json.normalized
  | .constr byCli fieldsFirst index fields => by
      have inner := normalizeItems_itemsJson fields
      cases byCli <;> cases fieldsFirst <;>
        simp [DetailedJson.toJson, DetailedJson.normalized, normalizeValue, normalizeContents,
          normalizedObject, sanitizePlutusKeys, PLUTUS_DATA_ALLOWED_KEYS, fieldOf, isArray, inner]
  | .number value => rfl
  | .decimal chars value reads => rfl
  | .bytes chars => rfl
  | .list items => by
      simp [DetailedJson.toJson, DetailedJson.normalized, normalizeValue, normalizeContents,
        normalizedObject, sanitizePlutusKeys, PLUTUS_DATA_ALLOWED_KEYS, fieldOf, isArray,
        normalizeItems_itemsJson items]
  | .map entries => by
      simp [DetailedJson.toJson, DetailedJson.normalized, normalizeValue, normalizeContents,
        normalizedObject, sanitizePlutusKeys, PLUTUS_DATA_ALLOWED_KEYS, fieldOf, isArray,
        normalizeEntries_entriesJson entries]

theorem normalizeItems_itemsJson :
    ∀ items : List (DetailedJson Binary64),
      normalizeItems (itemsJson items) = some (itemsNormalized items)
  | [] => rfl
  | item :: items => by
      rw [itemsJson, normalizeItems, normalizeValue_toJson item, normalizeItems_itemsJson items]
      rfl

theorem normalizeEntries_entriesJson :
    ∀ entries : List (Bool × DetailedJson Binary64 × DetailedJson Binary64),
      normalizeEntries (entriesJson entries) =
        some ((entriesNormalized entries).map fun entry => .object [("k", entry.1), ("v", entry.2)])
  | [] => rfl
  | (valueFirst, k, v) :: entries => by
      have key := normalizeValue_toJson k
      have value := normalizeValue_toJson v
      have rest := normalizeEntries_entriesJson entries
      cases valueFirst <;>
        simp [entriesJson, normalizeEntries, normalizeFields, normalizedEntry, fieldOf, key, value,
          rest, entriesNormalized]

end

/-! ## What the library builds -/

section Build

variable [DetailedSchema]

mutual

/-- The data of JSON in the detailed schema, none where it is refused. -/
def DetailedJson.build : DetailedJson Binary64 → Option PlutusData
  | .constr _ _ index fields =>
      index.integer?.bind fun i =>
        if 0 ≤ i then (buildItems fields).map (.constr i.toNat) else none
  | .number value => value.integer?.map .int
  | .decimal _ value _ => some (.int value)
  | .bytes chars => DetailedSchema.dataFromJson (.object [("bytes", .string chars)])
  | .list items => (buildItems items).map .list
  | .map entries => (buildEntries entries).map .map

def buildItems : List (DetailedJson Binary64) → Option (List PlutusData)
  | [] => some []
  | item :: items => item.build.bind fun data => (buildItems items).map (data :: ·)

def buildEntries : List (Bool × DetailedJson Binary64 × DetailedJson Binary64) →
    Option (List (PlutusData × PlutusData))
  | [] => some []
  | (_, k, v) :: entries =>
      (k.build.bind fun fst => v.build.map fun snd => (fst, snd)).bind fun entry =>
        (buildEntries entries).map (entry :: ·)

end

mutual

theorem dataFromJson_normalized :
    ∀ json : DetailedJson Binary64, DetailedSchema.dataFromJson json.normalized = json.build
  | .constr byCli fieldsFirst index fields => by
      rw [DetailedJson.normalized, DetailedSchema.constr, mapM_itemsNormalized fields,
        DetailedJson.build]
  | .number value => DetailedSchema.int_number value
  | .decimal chars value reads => DetailedSchema.int_text reads
  | .bytes chars => rfl
  | .list items => by
      rw [DetailedJson.normalized, DetailedSchema.list, mapM_itemsNormalized items,
        DetailedJson.build]
  | .map entries => by
      rw [DetailedJson.normalized, DetailedSchema.map, mapM_entriesNormalized entries,
        DetailedJson.build]

theorem mapM_itemsNormalized :
    ∀ items : List (DetailedJson Binary64),
      (itemsNormalized items).mapM DetailedSchema.dataFromJson = buildItems items
  | [] => rfl
  | item :: items => by
      rw [itemsNormalized, List.mapM_cons, dataFromJson_normalized item,
        mapM_itemsNormalized items, buildItems]
      cases item.build with
      | none => rfl
      | some data => cases buildItems items <;> rfl

theorem mapM_entriesNormalized :
    ∀ entries : List (Bool × DetailedJson Binary64 × DetailedJson Binary64),
      ((entriesNormalized entries).mapM fun entry =>
        (DetailedSchema.dataFromJson entry.1).bind fun k =>
          (DetailedSchema.dataFromJson entry.2).map fun v => (k, v)) = buildEntries entries
  | [] => rfl
  | (valueFirst, k, v) :: entries => by
      rw [entriesNormalized, List.mapM_cons, mapM_entriesNormalized entries, buildEntries]
      simp only [dataFromJson_normalized k, dataFromJson_normalized v]
      cases k.build with
      | none => rfl
      | some fst =>
          cases v.build with
          | none => rfl
          | some snd => cases buildEntries entries <;> rfl

end

/-- JSON in the detailed schema is read as it is built. -/
theorem jsonToPlutusData_toJson (json : DetailedJson Binary64) :
    jsonToPlutusData json.toJson =
      match json.build with
      | some data => .ok data
      | none => .error .invalid := by
  have isObject : ∃ fields, json.toJson = .object fields := by
    cases json with
    | constr byCli fieldsFirst index fields => exact ⟨_, rfl⟩
    | number value => exact ⟨_, rfl⟩
    | decimal chars value reads => exact ⟨_, rfl⟩
    | bytes chars => exact ⟨_, rfl⟩
    | list items => exact ⟨_, rfl⟩
    | map entries => exact ⟨_, rfl⟩
  have normalizes := normalizeValue_toJson json
  obtain ⟨fields, isFields⟩ := isObject
  rw [isFields] at normalizes ⊢
  simp only [jsonToPlutusData, normalizes, dataFromJson_normalized]

end Build

end Odatano
