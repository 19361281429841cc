import Odatano.HexStrings
import Odatano.ShelleyAddress
import Mathlib.Data.List.DropRight

/-!
# Request parsers

`parsePlutusCbor`, `parseUtxoRefArray`, `parseAssetsArray` and `parseOutputList` of
`srv/utils/tx-request-parsers.ts` with the checks of `srv/utils/validators.ts`.
-/

namespace Odatano

inductive RequestError
  /-- An exception that no parser catches. -/
  | thrown
  | invalid (message : String)

/-- What the parsers call: `JSON.parse`, the `bech32` and `plutus-data` packages and the active
network.  `none` stands for a thrown error, except for the network. -/
class RequestPackages where
  parseJson : JsString → Option (Json JsString)
  /-- `bech32.decode(value, BECH32_MAX_LENGTH)`: the prefix and the words. -/
  bech32Decode : JsString → Option (JsString × List Nat)
  bech32FromWords : List Nat → Option (List Nat)
  dataFromCbor : JsString → Except String Unit
  activeNetwork : Option Network
  /-- Bech32 strings have visible ASCII characters only. -/
  decode_visible : ∀ {str : JsString} {decoded : JsString × List Nat},
    bech32Decode str = some decoded → ∀ unit ∈ str, 33 ≤ unit.val ∧ unit.val ≤ 126

/-! ## Texts -/

/-- White space and line ends of `String.trim`. -/
def isBlank (unit : CodeUnit) : Bool :=
  decide (9 ≤ unit.val ∧ unit.val ≤ 13) || decide (8192 ≤ unit.val ∧ unit.val ≤ 8202) ||
    decide (unit.val ∈ [32, 160, 5760, 8232, 8233, 8239, 8287, 12288, 65279])

def trim (str : JsString) : JsString := (str.dropWhile isBlank).rdropWhile isBlank

def safeTrimString (str : JsString) : Option JsString :=
  let t := trim str
  if t = [] then none else some t

/-- `[a-f0-9]`. -/
def isLowerHex (unit : CodeUnit) : Bool :=
  decide (48 ≤ unit.val ∧ unit.val ≤ 57) || decide (97 ≤ unit.val ∧ unit.val ≤ 102)

/-- `[a-fA-F0-9]`. -/
def isHexUnit (unit : CodeUnit) : Bool := isLowerHex unit || decide (65 ≤ unit.val ∧ unit.val ≤ 70)

/-- `/^[a-f0-9]{64}$/`. -/
def isTxHash (str : JsString) : Bool := decide (str.length = 64) && str.all isLowerHex

/-- `/^[a-f0-9]{56}([a-f0-9]{2}){0,32}$/`. -/
def ASSET_UNIT_REGEX (str : JsString) : Bool :=
  decide (56 ≤ str.length ∧ str.length ≤ 120 ∧ str.length % 2 = 0) && str.all isLowerHex

def isAssetUnit (str : JsString) : Bool := ASSET_UNIT_REGEX (trim str)

/-- `/^[a-f0-9]+$/i`, of even length. -/
def isValidCbor (cborRaw : JsString) : Bool :=
  match safeTrimString cborRaw with
  | none => false
  | some cbor => cbor.all isHexUnit && decide (cbor.length % 2 = 0)

/-- `/^[0-9a-fA-F]{64}$/`. -/
def isDatumHash (str : JsString) : Bool := decide (str.length = 64) && str.all isHexUnit

/-- `HRP[network].addr`: the prefix and 50 to 100 of `[0-9a-z]`. -/
def isNetworkAddress (network : Network) (addr : JsString) : Bool :=
  let opening := if network = .mainnet then "addr1" else "addr_test1"
  match (JsString.ofText opening).isPrefixOf? addr with
  | none => false
  | some rest => decide (50 ≤ rest.length ∧ rest.length ≤ 100) && rest.all fun unit =>
      decide (48 ≤ unit.val ∧ unit.val ≤ 57) || decide (97 ≤ unit.val ∧ unit.val ≤ 122)

/-- A quantity or an amount of lovelace. -/
def isAmount (str : JsString) : Bool :=
  JsString.isDigits str && decide (str ≠ JsString.ofText "0")

/-! ## JSON -/

def MAX_JSON_SIZE : Nat := 1048576
def MAX_DEPTH : Nat := 10
def PLUTUS_DATA_MAX_DEPTH : Nat := 64
def MAX_KEYS : Nat := 100
def MAX_ARRAY_LENGTH : Nat := 1000
def MAX_STRING_LENGTH : Nat := 65536
def MAX_EXTRA_OUTPUTS : Nat := 32

mutual

/-- Depth, keys, array length and string length; an error message or none. -/
def checkJsonComplexity (value : Json JsString) (depth maxDepth : Nat) : Option String :=
  if depth > maxDepth then
    some ("Maximum nesting depth of " ++ toString maxDepth ++ " exceeded")
  else
    match value with
    | .string str =>
        if str.length > MAX_STRING_LENGTH then
          some ("String value exceeds maximum length of " ++ toString MAX_STRING_LENGTH)
        else none
    | .array items =>
        if items.length > MAX_ARRAY_LENGTH then
          some ("Array exceeds maximum length of " ++ toString MAX_ARRAY_LENGTH)
        else checkItems items (depth + 1) maxDepth
    | .object fields =>
        if fields.length > MAX_KEYS then
          some ("Object exceeds maximum key count of " ++ toString MAX_KEYS)
        else checkFields fields (depth + 1) maxDepth
    | _ => none

def checkItems (items : List (Json JsString)) (depth maxDepth : Nat) : Option String :=
  match items with
  | [] => none
  | item :: items =>
      (checkJsonComplexity item depth maxDepth).or (checkItems items depth maxDepth)

def checkFields (fields : List (JsString × Json JsString)) (depth maxDepth : Nat) :
    Option String :=
  match fields with
  | [] => none
  | (_, value) :: fields =>
      (checkJsonComplexity value depth maxDepth).or (checkFields fields depth maxDepth)

end

variable [RequestPackages]

open RequestPackages

def validateJsonWithLimits (jsonString : JsString) (fieldName : String) (maxDepth : Nat) :
    Except RequestError (Json JsString) :=
  if jsonString.length > MAX_JSON_SIZE then
    .error (.invalid (fieldName ++ " exceeds maximum size of " ++ toString MAX_JSON_SIZE ++
      " bytes"))
  else
    match parseJson jsonString with
    | none => .error (.invalid ("Invalid JSON in " ++ fieldName))
    | some parsed =>
        match checkJsonComplexity parsed 0 maxDepth with
        | some complexityError => .error (.invalid (fieldName ++ ": " ++ complexityError))
        | none => .ok parsed

def validatePlutusJson (jsonString : JsString) (fieldName : String) :
    Except RequestError (Json JsString) :=
  validateJsonWithLimits jsonString fieldName PLUTUS_DATA_MAX_DEPTH

/-! ## Addresses -/

/-- `wordsToBytesLen` is outside of the `try` around `bech32.decode`. -/
def isValidBech32Address (addrRaw : JsString) : Except RequestError Bool :=
  match safeTrimString addrRaw, activeNetwork with
  | some addr, some network =>
      if isNetworkAddress network addr then
        match bech32Decode addr with
        | none => .ok false
        | some (hrp, words) =>
            if hrp = JsString.ofText "addr" ∨ hrp = JsString.ofText "addr_test" then
              match bech32FromWords words with
              | none => .error .thrown
              | some bytes => .ok (decide (29 ≤ bytes.length ∧ bytes.length ≤ 57))
            else .ok false
      else .ok false
  | _, _ => .ok false

/-! ## Parsers -/

/-- PlutusData as CBOR hex; the value may be missing. -/
def parsePlutusCbor (value : Option (Json JsString)) (field : String) :
    Except RequestError JsString :=
  match value.bind Json.text? with
  | none => .error (.invalid (field ++ " must be even-length CBOR hex"))
  | some text =>
      if !isValidCbor text then .error (.invalid (field ++ " must be even-length CBOR hex"))
      else
        match dataFromCbor text with
        | .error message =>
            .error (.invalid (field ++ " is not PlutusData CBOR: " ++ message))
        | .ok _ => .ok text.toLowerCase

/-- The entries of a list, one after the other. -/
def parseEach {α : Type} (parse : Nat → Json JsString → Except RequestError α) :
    Nat → List (Json JsString) → Except RequestError (List α)
  | _, [] => .ok []
  | i, entry :: entries => do
      let out ← parse i entry
      let rest ← parseEach parse (i + 1) entries
      return out :: rest

def entryPath (name : String) (i : Nat) : String := name ++ "[" ++ toString i ++ "]"

/-- `validateJsonWithLimits` of a list that must be an array. -/
def parseJsonArray (json : JsString) (fieldName : String) :
    Except RequestError (List (Json JsString)) := do
  match ← validateJsonWithLimits json fieldName MAX_DEPTH with
  | .array items => return items
  | _ => .error (.invalid (fieldName ++ " must be a JSON array"))

/-- `if (!json) return { parsed: undefined }`. -/
def givenJson (json : Option JsString) : Option JsString :=
  json.filter fun str => decide (str ≠ [])

inductive RefListField
  | forceInputsJson
  | referenceInputsJson
  | protectInputsJson

def RefListField.entryName : RefListField → String
  | .forceInputsJson => "forceInputs"
  | .referenceInputsJson => "referenceInputs"
  | .protectInputsJson => "protectInputs"

structure ParsedUtxoRef where
  txHash : JsString
  outputIndex : Binary64

def parseUtxoRef (entryName : String) (rawEntry : Json JsString) :
    Except RequestError ParsedUtxoRef :=
  if !rawEntry.isObject then
    .error (.invalid ("Each " ++ entryName ++
      " entry must be an object with txHash and outputIndex"))
  else
    match ((rawEntry.field? "txHash").bind Json.text?).filter isTxHash with
    | none =>
        .error (.invalid ("Each " ++ entryName ++ " entry must have a valid 64-hex txHash"))
    | some txHash =>
        let refused : Except RequestError ParsedUtxoRef :=
          .error (.invalid ("Each " ++ entryName ++
            " entry must have a non-negative integer outputIndex"))
        match rawEntry.field? "outputIndex" with
        | some (.number idx) =>
            match idx.integer? with
            | some index => if index < 0 then refused else .ok ⟨txHash, idx⟩
            | none => refused
        | _ => refused

def parseUtxoRefArray (json : Option JsString) (fieldName : RefListField) :
    Except RequestError (Option (List ParsedUtxoRef)) :=
  match givenJson json with
  | none => .ok none
  | some json => do
      let items ← parseJsonArray json (fieldName.entryName ++ "Json")
      if items = [] then return none
      let refs ← parseEach (fun _ => parseUtxoRef fieldName.entryName) 0 items
      return some refs

structure ParsedAsset where
  unit : JsString
  quantity : JsString

/-- One `{unit, quantity}` entry, in a list of assets or in the assets of an output. -/
def parseAsset (path : String) (a : Json JsString) : Except RequestError ParsedAsset :=
  if !a.isObject then .error (.invalid (path ++ " must be an object"))
  else
    match ((a.field? "unit").bind Json.text?).filter fun unit =>
      decide (unit.toLowerCase ≠ JsString.ofText "lovelace") && isAssetUnit unit with
    | none =>
        .error (.invalid (path ++ ".unit must be a valid asset unit (policyId + assetName hex)"))
    | some unit =>
        match ((a.field? "quantity").bind Json.text?).filter isAmount with
        | none => .error (.invalid (path ++ ".quantity must be a positive integer string"))
        | some quantity => .ok ⟨unit, quantity⟩

def parseAssetsArray (assetsJson : Option JsString) (fieldName : String) :
    Except RequestError (Option (List ParsedAsset)) :=
  match givenJson assetsJson with
  | none => .ok none
  | some json => do
      let items ← parseJsonArray json fieldName
      let out ← parseEach (fun i => parseAsset (entryPath fieldName i)) 0 items
      return some out

inductive OutputListField
  | extraOutputsJson
  | outputsJson
deriving DecidableEq

def OutputListField.listName : OutputListField → String
  | .extraOutputsJson => "extraOutputs"
  | .outputsJson => "outputs"

structure ParsedExtraOutput where
  address : JsString
  lovelaceAmount : JsString
  assets : Option (List ParsedAsset)
  inlineDatum : Option (Json JsString)
  datumHash : Option JsString
  inlineDatumCbor : Option JsString
  referenceScript : Option JsString

/-- The `assets` of an output. -/
def parseOutputAssets (path : String) (entry : Json JsString) :
    Except RequestError (Option (List ParsedAsset)) :=
  match entry.present? "assets" with
  | none => .ok none
  | some (.array items) => do
      let assets ← parseEach (fun j => parseAsset (entryPath (path ++ ".assets") j)) 0 items
      return some assets
  | some _ => .error (.invalid (path ++ ".assets must be an array"))

def parseInlineDatum (path : String) (entry : Json JsString) :
    Except RequestError (Option (Json JsString)) :=
  match entry.present? "inlineDatumJson" with
  | none => .ok none
  | some (.string text) => do
      let inlineDatum ← validatePlutusJson text (path ++ ".inlineDatumJson")
      return some inlineDatum
  | some _ => .error (.invalid (path ++ ".inlineDatumJson must be a JSON string"))

def parseInlineDatumCbor (fieldName : OutputListField) (path : String) (entry : Json JsString)
    (inlineDatum : Option (Json JsString)) : Except RequestError (Option JsString) :=
  match entry.present? "inlineDatumCbor" with
  | none => .ok none
  | some value =>
      if fieldName ≠ .outputsJson then
        .error (.invalid (path ++ ".inlineDatumCbor is only supported in outputsJson"))
      else if inlineDatum.isSome then
        .error (.invalid (path ++ " takes inlineDatumJson or inlineDatumCbor, not both"))
      else do
        let hex ← parsePlutusCbor (some value) (path ++ ".inlineDatumCbor")
        return some hex

def parseDatumHash (fieldName : OutputListField) (path : String) (entry : Json JsString)
    (inlineDatum : Option (Json JsString)) (inlineDatumCbor : Option JsString) :
    Except RequestError (Option JsString) :=
  match entry.present? "datumHash" with
  | none => .ok none
  | some value =>
      if fieldName ≠ .outputsJson then
        .error (.invalid (path ++ ".datumHash is only supported in outputsJson"))
      else
        match value.text?.filter isDatumHash with
        | none => .error (.invalid (path ++ ".datumHash must be 64 hex chars"))
        | some datumHash =>
            if inlineDatum.isSome || inlineDatumCbor.isSome then
              .error (.invalid (path ++ " takes an inline datum or datumHash, not both"))
            else .ok (some datumHash.toLowerCase)

def parseReferenceScript (path : String) (entry : Json JsString) :
    Except RequestError (Option JsString) :=
  match entry.present? "referenceScriptHex" with
  | none => .ok none
  | some value =>
      match value.text?.filter isValidCbor with
      | none => .error (.invalid (path ++ ".referenceScriptHex must be even-length hex"))
      | some referenceScript => .ok (some referenceScript)

def parseOutput (fieldName : OutputListField) (path : String) (entry : Json JsString) :
    Except RequestError ParsedExtraOutput :=
  let noAddress : RequestError := .invalid (path ++ ".address is not a valid Bech32 address")
  if !entry.isObject then .error (.invalid (path ++ " must be an object"))
  else
    match (entry.field? "address").bind Json.text? with
    | none => .error noAddress
    | some address => do
        let valid ← isValidBech32Address address
        if !valid then .error noAddress
        else
          match ((entry.field? "lovelaceAmount").bind Json.text?).filter isAmount with
          | none =>
              .error (.invalid (path ++ ".lovelaceAmount must be a positive integer string"))
          | some lovelaceAmount => do
              let assets ← parseOutputAssets path entry
              let inlineDatum ← parseInlineDatum path entry
              let inlineDatumCbor ← parseInlineDatumCbor fieldName path entry inlineDatum
              let datumHash ← parseDatumHash fieldName path entry inlineDatum inlineDatumCbor
              let referenceScript ← parseReferenceScript path entry
              return ⟨address, lovelaceAmount, assets, inlineDatum, datumHash, inlineDatumCbor,
                referenceScript⟩

def parseOutputList (json : Option JsString) (fieldName : OutputListField) :
    Except RequestError (Option (List ParsedExtraOutput)) :=
  match givenJson json with
  | none => .ok none
  | some json => do
      let listField := fieldName.listName ++ "Json"
      let items ← parseJsonArray json listField
      if items = [] then return none
      if items.length > MAX_EXTRA_OUTPUTS then
        .error (.invalid (listField ++ " exceeds maximum of " ++ toString MAX_EXTRA_OUTPUTS ++
          " entries"))
      else
        let out ← parseEach (fun i => parseOutput fieldName (entryPath fieldName.listName i)) 0
          items
        return some out

end Odatano
