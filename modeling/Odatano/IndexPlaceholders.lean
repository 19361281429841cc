import Odatano.HexStrings
import Odatano.SortedRanks
import Mathlib.Data.Prod.Lex

/-!
# Index placeholders

`srv/utils/plutus-placeholders.ts`, `compareOutRef` of `srv/utils/mappers.ts`, and
`_ledgerWithdrawalOrder` and `_computeSortedInputs` of
`srv/blockchain/transaction-building/buildooor-tx.ts`.
-/

namespace Odatano

/-- A UTxO reference. -/
structure InputRef where
  txHash : JsString
  outputIndex : Nat
deriving DecidableEq

/-- A withdrawal of the transaction: the credential of its reward account, and whether a script
runs for it. -/
structure WithdrawalEntry where
  credentials : JsString
  isScript : Bool
  scripted : Bool
deriving DecidableEq

/-- `e.rewardAccount.credentials.toString().toLowerCase()`. -/
def WithdrawalEntry.credentialHash (e : WithdrawalEntry) : JsString := e.credentials.toLowerCase

inductive PlaceholderError
  | maxDepth
  | unknownInput (value txHash outputIndex : JsString)
  | unknownReferenceInput (value txHash outputIndex : JsString)
  | unknownCredential (value credentialHash : JsString)
  | unsupported (value : JsString)
  | misplaced (credentialHash : JsString)
deriving DecidableEq

/-! ## Orders -/

def bufferCompare (a b : List Nat) : Ordering :=
  if a < b then .lt else if b < a then .gt else .eq

/-- The comparison that sorts inputs: transaction hash bytes, then output index. -/
def compareInputs (a b : InputRef) : Ordering :=
  match bufferCompare a.txHash.hexBytes b.txHash.hexBytes with
  | .eq => compare a.outputIndex b.outputIndex
  | cmp => cmp

def sortInputsLikeBuildooor (refs : List InputRef) : List InputRef :=
  refs.mergeSort fun a b => (compareInputs a b).isLE

/-- The comparison that sorts withdrawals: scripts before keys, then hash bytes. -/
def compareWithdrawals (a b : WithdrawalEntry) : Ordering :=
  if a.isScript ≠ b.isScript then (if a.isScript then .lt else .gt)
  else bufferCompare a.credentialHash.hexBytes b.credentialHash.hexBytes

def sortWithdrawalsLikeLedger (entries : List WithdrawalEntry) : List WithdrawalEntry :=
  entries.mergeSort fun a b => (compareWithdrawals a b).isLE

/-- The order of stored inputs. -/
def compareOutRef (a b : InputRef) : Ordering :=
  if a.txHash.toLowerCase < b.txHash.toLowerCase then .lt
  else if b.txHash.toLowerCase < a.txHash.toLowerCase then .gt
  else compare a.outputIndex b.outputIndex

/-- The credential hashes in ledger order, where the library numbers each scripted withdrawal in
the same way. -/
def ledgerWithdrawalOrder (entries : List WithdrawalEntry) :
    Except PlaceholderError (List JsString) :=
  let ledger := (sortWithdrawalsLikeLedger entries).map WithdrawalEntry.credentialHash
  let buildooor := (entries.map WithdrawalEntry.credentialHash).mergeSort fun a b =>
    (bufferCompare a.hexBytes b.hexBytes).isLE
  let misplaced := entries.find? fun e =>
    e.scripted && decide (ledger.idxOf e.credentialHash ≠ buildooor.idxOf e.credentialHash)
  match misplaced with
  | some e => .error (.misplaced e.credentialHash)
  | none => .ok ledger

def computeSortedInputs (scriptUtxoRefs forcedUtxos fundingRefs : List InputRef) : List InputRef :=
  sortInputsLikeBuildooor (scriptUtxoRefs ++ forcedUtxos ++ fundingRefs)

/-! ## Placeholders -/

/-- The lists are absent where a build does not support their placeholders. -/
structure ResolveContext where
  sortedInputs : List InputRef
  sortedReferenceInputs : Option (List InputRef)
  sortedWithdrawals : Option (List JsString)

/-- What a placeholder names; the digits and hashes are as they are written. -/
inductive Placeholder
  | input (txHash outputIndex : JsString)
  | referenceInput (txHash outputIndex : JsString)
  | withdrawal (credentialHash : JsString)
deriving DecidableEq

/-- `([0-9a-fA-F]{64})#(\d+)__$`. -/
def refPattern? (str : JsString) : Option (JsString × JsString) :=
  match str.splitAt 64 with
  | (txHash, separator :: rest) =>
      let (outputIndex, closing) := rest.span fun unit => JsString.isDigits [unit]
      if JsString.IsHex txHash ∧ [separator] = JsString.ofText "#" ∧ outputIndex ≠ [] ∧
          closing = JsString.ofText "__" then some (txHash, outputIndex)
      else none
  | (_, []) => none

/-- `([0-9a-fA-F]{56})__$`. -/
def credentialPattern? (str : JsString) : Option JsString :=
  let (credentialHash, closing) := str.splitAt 56
  if JsString.IsHex credentialHash ∧ closing = JsString.ofText "__" then some credentialHash
  else none

/-- The three patterns, one after the other. -/
def placeholder? (value : JsString) : Option Placeholder :=
  let after (opening : String) : Option JsString := (JsString.ofText opening).isPrefixOf? value
  (((after "__INPUT_IDX:").bind refPattern?).map fun (txHash, outputIndex) =>
      Placeholder.input txHash outputIndex) <|>
    (((after "__REF_IDX:").bind refPattern?).map fun (txHash, outputIndex) =>
      Placeholder.referenceInput txHash outputIndex) <|>
    ((after "__WDRL_IDX:").bind credentialPattern?).map Placeholder.withdrawal

/-- `findIndex` of a reference, whose index is compared as a number. -/
def refIndex? (refs : List InputRef) (txHash outputIndex : JsString) : Option Nat :=
  refs.findIdx? fun ref => decide (ref.txHash = txHash.toLowerCase) &&
    decide (Binary64.ofInt ref.outputIndex = Binary64.nearest outputIndex.digitsValue 1)

def Placeholder.index? (ctx : ResolveContext) : Placeholder → Option Nat
  | .input txHash outputIndex => refIndex? ctx.sortedInputs txHash outputIndex
  | .referenceInput txHash outputIndex =>
      ctx.sortedReferenceInputs.bind fun refs => refIndex? refs txHash outputIndex
  | .withdrawal credentialHash =>
      ctx.sortedWithdrawals.bind fun hashes => hashes.idxOf? credentialHash.toLowerCase

/-- What is thrown where an item is not found. -/
def Placeholder.refusal (ctx : ResolveContext) (value : JsString) : Placeholder → PlaceholderError
  | .input txHash outputIndex => .unknownInput value txHash.toLowerCase outputIndex
  | .referenceInput txHash outputIndex =>
      if ctx.sortedReferenceInputs.isSome then
        .unknownReferenceInput value txHash.toLowerCase outputIndex
      else .unsupported value
  | .withdrawal credentialHash =>
      if ctx.sortedWithdrawals.isSome then .unknownCredential value credentialHash.toLowerCase
      else .unsupported value

/-- The position of what a text names, none where it is no placeholder. -/
def positionOf (value : JsString) (ctx : ResolveContext) : Except PlaceholderError (Option Nat) :=
  match placeholder? value with
  | none => .ok none
  | some placeholder =>
      match placeholder.index? ctx with
      | some position => .ok (some position)
      | none => .error (placeholder.refusal ctx value)

/-! ## The walk -/

def MAX_WALK_DEPTH : Nat := 64

/-- Only `int` fields with a text are looked at. -/
def fieldPosition (ctx : ResolveContext) (key : JsString) (value : Json JsString) :
    Except PlaceholderError (Option Nat) :=
  match value with
  | .string text => if key = JsString.ofText "int" then positionOf text ctx else .ok none
  | _ => .ok none

/-- `out[key] = value` for the distinct keys of an object.  Assigning `__proto__` sets the
prototype and makes no key. -/
def withField (key : JsString) (value : Json JsString) (out : List (JsString × Json JsString)) :
    List (JsString × Json JsString) :=
  if key = JsString.ofText "__proto__" then out else (key, value) :: out

mutual

def walk (ctx : ResolveContext) (depth : Nat) (node : Json JsString) :
    Except PlaceholderError (Json JsString) :=
  if MAX_WALK_DEPTH < depth then .error .maxDepth
  else
    match node with
    | .array items => do return .array (← walkItems ctx (depth + 1) items)
    | .object fields => do return .object (← walkFields ctx (depth + 1) fields)
    | leaf => .ok leaf

def walkItems (ctx : ResolveContext) (depth : Nat) :
    List (Json JsString) → Except PlaceholderError (List (Json JsString))
  | [] => .ok []
  | item :: items => do
      let item ← walk ctx depth item
      let items ← walkItems ctx depth items
      return item :: items

def walkFields (ctx : ResolveContext) (depth : Nat) :
    List (JsString × Json JsString) → Except PlaceholderError (List (JsString × Json JsString))
  | [] => .ok []
  | (key, value) :: fields => do
      let out ← match ← fieldPosition ctx key value with
        | some pos => .ok (.number (.ofInt pos))
        | none => walk ctx depth value
      let rest ← walkFields ctx depth fields
      return withField key out rest

end

def resolveIndexPlaceholders (node : Json JsString) (ctx : ResolveContext) :
    Except PlaceholderError (Json JsString) :=
  walk ctx 0 node

end Odatano
