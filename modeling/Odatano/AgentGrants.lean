import Odatano.JsonValues
import Odatano.KeyedTable
import Odatano.SyncState
import Mathlib.Algebra.GroupWithZero.Nat

/-!
# Agent grants

Scoped, budgeted bearer tokens: `srv/utils/agent-grants.ts`.  A column that
holds a JSON list is the list; a UTC day is its number.  What a client sends is
kept as far as the checks tell values apart: whether a field is there at all,
whether it is a list, whether it is an integer, whether it is a timestamp.
-/

namespace Odatano

abbrev GrantId := String
abbrev TokenHash := String
abbrev UtcDay := Nat

/-! ## The rows -/

/-- A `CardanoAgentGrants` row. -/
structure AgentGrant where
  ID : GrantId
  userId : String
  agentLabel : Option String
  tokenHash : TokenHash
  allowedActions : List String
  walletId : Option String
  allowedJobKinds : Option (List String)
  maxJobsPerDay : Option Int
  jobsUsedToday : Int
  budgetWindow : Option UtcDay
  validUntil : Option Time
  isActive : Bool
  revokedAt : Option Time
  createdAt : Time
  lastUsedAt : Option Time
deriving DecidableEq

/-- Actions an operator may allow on a grant; each call costs one budget unit. -/
def AGENT_ALLOWLISTABLE_ACTIONS : List String :=
  ["BuildSimpleAdaTransaction", "BuildTransactionWithMetadata", "BuildMultiAssetTransaction",
    "BuildMintTransaction", "BuildPlutusSpendTransaction", "BuildPlutusTransaction",
    "SetCollateral", "CreateSigningRequest", "VerifySignature", "SubmitTransaction",
    "SubmitSignedTransaction", "SubmitVerifiedTransaction", "CheckSubmissionStatus",
    "SubmitWalletJob", "CancelJob"]

/-- Allow-listable actions that spend from a worker wallet. -/
def AGENT_WALLET_ACTIONS : List String := ["SubmitWalletJob", "CancelJob"]

/-- Events every valid token may use without allow-list entry or budget. -/
def AGENT_ALWAYS_ALLOWED_EVENTS : List String :=
  ["READ",
    "GetNetworkInformation", "GetBlockByHash", "GetEpochByNumber", "GetPoolById", "GetDrepById",
    "GetAssetInfo", "GetAssetHistory", "GetAccountByStakeAddress", "GetTransactionByHash",
    "GetTransactionConfirmations", "GetMetadataByTxHash", "GetAddressByBech32",
    "GetUTxOsByAddress", "GetUTxOsByCredential", "GetAssetsByAddress",
    "GetLatestTransactionsByAddress", "GetLatestBlock", "GetLatestEpoch",
    "GetLedgerProtocolParameters", "ParseTransactionCbor", "DecodePlutusData",
    "GetBuildDetails", "GetTransactionBuildsByAddress", "DeriveScriptAddress",
    "ExtractPaymentKeyHash",
    "GetSigningRequest", "GetSigningRequestsByAddress", "VerifyDataSignature", "GetHsmStatus",
    "GetJobStatus", "GetWorkerStatus", "getStatus", "getLiveness",
    "GetGrantStatus", "GetGrantUsage",
    "GetTransaction", "GetTransactionsBatch", "GetTransactionMetadata", "GetBlock",
    "GetBlockByHeight", "GetNextBlocks", "GetBlockTransactions", "GetCurrentSlot", "GetEpoch",
    "GetAddress", "GetAddressUtxos", "GetAddressTransactions", "GetAddressTransactionHashes",
    "GetCredentialUtxos", "IsUtxoUnspent", "GetUnspentOutputs", "GetAccount", "GetPool",
    "GetPoolIds", "GetPools", "GetDrep", "GetDrepIds", "GetDreps", "GetProtocolParameters",
    "EvaluateTransaction"]

/-- The kinds of `WalletJobKind`. -/
def AGENT_JOB_KINDS : List String :=
  ["simpleAda", "metadata", "multiAsset", "mint", "plutusSpend", "submitSigned"]

def isWalletAction (action : String) : Bool := AGENT_WALLET_ACTIONS.contains action

def AgentGrant.isExpired (grant : AgentGrant) (now : Time) : Bool :=
  grant.validUntil.any fun validUntil => decide (validUntil < now)

/-! ## Checking what a client sends -/

/-- `String.prototype.trim`. -/
def trimmed (text : String) : String :=
  String.ofList ((text.toList.dropWhile isJsWhitespace).reverse.dropWhile isJsWhitespace).reverse

/-- `String.prototype.length`: UTF-16 code units. -/
def jsLength (text : String) : Nat :=
  (text.toList.map fun c => if c.toNat < 0x10000 then 1 else 2).sum

/-- A list field: undefined or null, something that is no array, or an array. -/
inductive ListInput
  | missing
  | notArray
  | list (values : List String)
deriving DecidableEq

/-- A number field after `Number(…)`: undefined or null, no integer, or an integer. -/
inductive NumberInput
  | missing
  | notInteger
  | integer (value : Int)
deriving DecidableEq

/-- A timestamp field: empty, one that does not parse, or a time. -/
inductive TimeInput
  | missing
  | invalid
  | time (value : Time)
deriving DecidableEq

structure IssueAgentGrantInput where
  allowedActions : ListInput
  walletId : Option String
  allowedJobKinds : ListInput
  maxJobsPerDay : NumberInput
  validUntil : TimeInput
  agentLabel : Option String
deriving DecidableEq

structure AgentGrantInputError where
  message : String
  target : Option String
deriving DecidableEq

structure NormalizedGrantInput where
  allowedActions : List String
  walletId : Option String
  allowedJobKinds : List String
  maxJobsPerDay : Option Int
  validUntil : Option Time
  agentLabel : Option String
deriving DecidableEq

def joinNames (names : List String) : String := String.intercalate ", " names

/-- A text that is not blank, trimmed. -/
def nonBlank (text : Option String) : Option String :=
  text.bind fun text => if trimmed text = "" then none else some (trimmed text)

def checkAllowedActions (fail : String → String → AgentGrantInputError) (input : ListInput) :
    Except AgentGrantInputError (List String) :=
  match input with
  | .list (first :: rest) =>
      let unknown := (first :: rest).filter fun a => !AGENT_ALLOWLISTABLE_ACTIONS.contains a
      if unknown ≠ [] then
        .error (fail s!"allowedActions contains non-grantable entries: {joinNames unknown}. Grantable: {joinNames AGENT_ALLOWLISTABLE_ACTIONS}"
          "allowedActions")
      else .ok (distinct (first :: rest))
  | _ => .error (fail "allowedActions must be a non-empty array" "allowedActions")

def checkWalletId (fail : String → String → AgentGrantInputError) (wantsWallet : Bool)
    (input : Option String) : Except AgentGrantInputError (Option String) :=
  match nonBlank input with
  | none =>
      if wantsWallet then
        .error (fail "walletId is required when SubmitWalletJob or CancelJob is allowed"
          "walletId")
      else .ok none
  | some walletId =>
      if 50 < jsLength walletId then
        .error (fail "walletId must be at most 50 characters" "walletId")
      else .ok (some walletId)

def checkAllowedJobKinds (fail : String → String → AgentGrantInputError) (wantsWallet : Bool)
    (input : ListInput) : Except AgentGrantInputError (List String) :=
  match input with
  | .missing => .ok []
  | .notArray => .error (fail "allowedJobKinds must be an array" "allowedJobKinds")
  | .list kinds =>
      let badKinds := kinds.filter fun k => !AGENT_JOB_KINDS.contains k
      if badKinds ≠ [] then
        .error (fail s!"allowedJobKinds contains unknown kinds: {joinNames badKinds}. Known: {joinNames AGENT_JOB_KINDS}"
          "allowedJobKinds")
      else if distinct kinds ≠ [] ∧ wantsWallet = false then
        .error (fail "allowedJobKinds needs SubmitWalletJob in allowedActions" "allowedJobKinds")
      else .ok (distinct kinds)

def checkMaxJobsPerDay (fail : String → String → AgentGrantInputError) (input : NumberInput) :
    Except AgentGrantInputError (Option Int) :=
  match input with
  | .missing => .ok none
  | .notInteger => .error (fail "maxJobsPerDay must be a positive integer" "maxJobsPerDay")
  | .integer n =>
      if n < 1 then .error (fail "maxJobsPerDay must be a positive integer" "maxJobsPerDay")
      else .ok (some n)

def checkValidUntil (fail : String → String → AgentGrantInputError) (now : Time)
    (input : TimeInput) : Except AgentGrantInputError (Option Time) :=
  match input with
  | .missing => .ok none
  | .invalid => .error (fail "validUntil must be a valid ISO-8601 timestamp" "validUntil")
  | .time t =>
      if t ≤ now then .error (fail "validUntil must be in the future" "validUntil")
      else .ok (some t)

def checkAgentLabel (fail : String → String → AgentGrantInputError) (input : Option String) :
    Except AgentGrantInputError (Option String) :=
  match nonBlank input with
  | none => .ok none
  | some label =>
      if 100 < jsLength label then
        .error (fail "agentLabel must be at most 100 characters" "agentLabel")
      else .ok (some label)

def validateGrantInput (input : IssueAgentGrantInput) (now : Time) (context : String) :
    Except AgentGrantInputError NormalizedGrantInput := do
  let fail : String → String → AgentGrantInputError :=
    fun message target => ⟨s!"{context}: {message}", some target⟩
  let allowedActions ← checkAllowedActions fail input.allowedActions
  let wantsWallet := allowedActions.any isWalletAction
  let walletId ← checkWalletId fail wantsWallet input.walletId
  let allowedJobKinds ← checkAllowedJobKinds fail wantsWallet input.allowedJobKinds
  let maxJobsPerDay ← checkMaxJobsPerDay fail input.maxJobsPerDay
  let validUntil ← checkValidUntil fail now input.validUntil
  let agentLabel ← checkAgentLabel fail input.agentLabel
  return ⟨allowedActions, walletId, allowedJobKinds, maxJobsPerDay, validUntil, agentLabel⟩

/-! ## Issue, revoke, rotate, update -/

/-- An empty list of job kinds is stored as null. -/
def jobKindsColumn (kinds : List String) : Option (List String) :=
  if kinds = [] then none else some kinds

/-- The row `issueAgentGrant` inserts, for a fresh id and token. -/
def issueAgentGrant (input : IssueAgentGrantInput) (operatorId : String) (ID : GrantId)
    (tokenHash : TokenHash) (now : Time) : Except AgentGrantInputError AgentGrant :=
  if operatorId = "" then .error ⟨"CreateAgentGrant: an operator id is required", none⟩
  else do
    let n ← validateGrantInput input now "CreateAgentGrant"
    return {
      ID, userId := operatorId, agentLabel := n.agentLabel, tokenHash
      allowedActions := n.allowedActions, walletId := n.walletId
      allowedJobKinds := jobKindsColumn n.allowedJobKinds
      maxJobsPerDay := n.maxJobsPerDay, jobsUsedToday := 0, budgetWindow := none
      validUntil := n.validUntil, isActive := true, revokedAt := none
      createdAt := now, lastUsedAt := none }

def AgentGrant.revoked (grant : AgentGrant) (now : Time) : AgentGrant :=
  { grant with isActive := false, revokedAt := some now }

def AgentGrant.rotated (grant : AgentGrant) (tokenHash : TokenHash) : AgentGrant :=
  { grant with tokenHash }

/-- The editable fields as a client sends them; `none` when the field is absent. -/
structure UpdateAgentGrantInput where
  agentLabel : Option (Option String)
  allowedActions : Option ListInput
  allowedJobKinds : Option ListInput
  maxJobsPerDay : Option NumberInput
  validUntil : Option TimeInput
deriving DecidableEq

/-- The columns an update writes. -/
structure GrantPatch where
  agentLabel : Option (Option String)
  allowedActions : Option (List String)
  allowedJobKinds : Option (Option (List String))
  maxJobsPerDay : Option (Option Int)
  validUntil : Option (Option Time)
deriving DecidableEq

def GrantPatch.apply (patch : GrantPatch) (grant : AgentGrant) : AgentGrant :=
  { grant with
    agentLabel := patch.agentLabel.getD grant.agentLabel
    allowedActions := patch.allowedActions.getD grant.allowedActions
    allowedJobKinds := patch.allowedJobKinds.getD grant.allowedJobKinds
    maxJobsPerDay := patch.maxJobsPerDay.getD grant.maxJobsPerDay
    validUntil := patch.validUntil.getD grant.validUntil }

/-- What an update checks: the fields it gives, and the others as they were read. -/
def mergedInput (existing : AgentGrant) (input : UpdateAgentGrantInput) : IssueAgentGrantInput where
  allowedActions := input.allowedActions.getD (.list existing.allowedActions)
  walletId := existing.walletId
  allowedJobKinds := input.allowedJobKinds.getD (.list (existing.allowedJobKinds.getD []))
  maxJobsPerDay :=
    input.maxJobsPerDay.getD ((existing.maxJobsPerDay.map NumberInput.integer).getD .missing)
  validUntil := input.validUntil.getD .missing
  agentLabel := input.agentLabel.getD existing.agentLabel

/-- How an update that is not carried out answers. -/
inductive UpdateRefusal
  | notFound
  | grantRevoked
  | invalid (error : AgentGrantInputError)
deriving DecidableEq

/-- The part of `updateAgentGrant` between its SELECT, which found `existing`,
and its UPDATE: the patch of an update, `none` when it changes nothing. -/
def prepareUpdate (existing : Option AgentGrant) (input : UpdateAgentGrantInput) (now : Time) :
    Except UpdateRefusal (Option GrantPatch) :=
  match existing with
  | none => .error .notFound
  | some existing =>
      if existing.isActive = false then .error .grantRevoked
      else
        match validateGrantInput (mergedInput existing input) now "UpdateAgentGrant" with
        | .error error => .error (.invalid error)
        | .ok n =>
            let patch : GrantPatch := {
              agentLabel := input.agentLabel.map fun _ => n.agentLabel
              allowedActions := input.allowedActions.map fun _ => n.allowedActions
              allowedJobKinds := input.allowedJobKinds.map fun _ => jobKindsColumn n.allowedJobKinds
              maxJobsPerDay := input.maxJobsPerDay.map fun _ => n.maxJobsPerDay
              validUntil := input.validUntil.map fun _ => n.validUntil }
            .ok (if patch = ⟨none, none, none, none, none⟩ then none else some patch)

/-! ## Enforcement -/

/-- The fields of `req.data` the hook reads; `none` is undefined or null. -/
structure RequestData where
  walletId : Option String
  kind : Option String
  grantId : Option String
deriving DecidableEq

/-- A request that runs under a grant. -/
structure AgentRequest where
  event : String
  data : Option RequestData
deriving DecidableEq

structure Rejection where
  status : Nat
  message : String
  target : Option String
deriving DecidableEq

/-- The wallet binding of a wallet event, and the kind of a wallet job. -/
def bindWallet (grant : AgentGrant) (req : AgentRequest) : Except Rejection AgentRequest :=
  if isWalletAction req.event = false then .ok req
  else
    match grant.walletId.filter (· ≠ "") with
    | none =>
        .error ⟨403, "this agent grant has no wallet binding; issue it with walletId to queue wallet jobs",
          none⟩
    | some walletId =>
        match req.data with
        | none => .ok req
        | some data =>
            if req.event = "SubmitWalletJob" then
              if data.walletId.any fun sent => decide (sent ≠ "" ∧ sent ≠ walletId) then
                .error ⟨403, "walletId does not match this agent grant", none⟩
              else
                let kinds := grant.allowedJobKinds.getD []
                let kind := data.kind.getD ""
                if kinds ≠ [] ∧ kind ∉ kinds then
                  .error ⟨403, s!"job kind '{kind}' is not allowed for this agent grant (allowed: {joinNames kinds})",
                    none⟩
                else .ok { req with data := some { data with walletId := some walletId } }
            else .ok req

/-- The `before('*')` hook: the request as the handler sees it, or the rejection.
`consumed` answers the budget statement, which only a budgeted grant runs. -/
def enforceAgentGrant (grant : AgentGrant) (now : Time) (consumed : Bool) (req : AgentRequest) :
    Except Rejection AgentRequest :=
  if grant.isActive = false then .error ⟨401, "invalid agent token", none⟩
  else if grant.isExpired now then .error ⟨410, "agent grant expired", none⟩
  else if req.event ∈ AGENT_ALWAYS_ALLOWED_EVENTS then
    if req.event = "GetGrantUsage" ∧ ((req.data.bind RequestData.grantId).getD "") ≠ grant.ID then
      .error ⟨404, "Grant not found", some "grantId"⟩
    else .ok req
  else if req.event ∉ grant.allowedActions then
    .error ⟨403, s!"action '{req.event}' is not allowed for this agent grant", none⟩
  else do
    let req ← bindWallet grant req
    match grant.maxJobsPerDay with
    | none => return req
    | some max =>
        if consumed then return req
        else .error ⟨429, s!"agent grant daily budget exhausted ({max}/day)", none⟩

end Odatano
