import Mathlib.Data.List.Infix
import Odatano.NumberTexts

/-!
# Backend errors

`srv/utils/errors.ts`: the typed errors of a backend and `normalizeBackendError`, which
turns whatever a backend raises into one of them.
-/

namespace Odatano

inductive ErrorCode
  | invalidInput
  | notFound
  | txValidationFailed
  | txParseFailed
  | scriptValidationFailure
  | chainPointMismatch
  | txAlreadySubmitted
  | providerRateLimited
  | providerUnavailable
  | internalError
deriving DecidableEq

/-- A `BackendError` by its class, with the arguments of the class's constructor. -/
inductive BackendError
  | backendError (message : String) (statusCode : Int) (code : ErrorCode)
      (backendName : Option String)
  | notFoundError (resource : String) (backendName : Option String)
  | transactionValidationError (message : String) (code : ErrorCode)
  | scriptValidationError (message : String)
  | chainPointMismatchError (message : String) (backendName : Option String)
  | transactionAlreadySubmittedError (txHash : String)
  | providerUnavailableError (message : String) (backendName : Option String)
      (timeoutMs : Option Nat)
  | rateLimitError (message : String) (backendName : Option String)
      (retryAfter : Option Binary64)
  | backendInitError (backendName : String) (originalMessage : Option String)
deriving DecidableEq

namespace BackendError

def message : BackendError → String
  | backendError message _ _ _ => message
  | notFoundError resource _ => resource ++ " not found"
  | transactionValidationError message _ => message
  | scriptValidationError message => message
  | chainPointMismatchError message _ => message
  | transactionAlreadySubmittedError txHash =>
      "Transaction " ++ txHash ++ " already exists in mempool or on chain"
  | providerUnavailableError message _ timeoutMs =>
      match timeoutMs.filter (· ≠ 0) with
      | some ms => message ++ " (timeout after " ++ toString ms ++ "ms)"
      | none => message
  | rateLimitError message _ retryAfter =>
      match retryAfter.filter (· ≠ .ofInt 0) with
      | some seconds => message ++ " (retry after " ++ seconds.integerText ++ "s)"
      | none => message
  | backendInitError backendName originalMessage =>
      match originalMessage with
      | some original =>
          "Failed to initialize backend: " ++ backendName ++ " (" ++ original ++ ")"
      | none => "Failed to initialize backend: " ++ backendName

def statusCode : BackendError → Int
  | backendError _ statusCode _ _ => statusCode
  | notFoundError .. => 404
  | transactionValidationError .. => 400
  | scriptValidationError .. => 400
  | chainPointMismatchError .. => 409
  | transactionAlreadySubmittedError .. => 409
  | providerUnavailableError .. => 503
  | rateLimitError .. => 429
  | backendInitError .. => 500

def code : BackendError → ErrorCode
  | backendError _ _ code _ => code
  | notFoundError .. => .notFound
  | transactionValidationError _ code => code
  | scriptValidationError .. => .scriptValidationFailure
  | chainPointMismatchError .. => .chainPointMismatch
  | transactionAlreadySubmittedError .. => .txAlreadySubmitted
  | providerUnavailableError .. => .providerUnavailable
  | rateLimitError .. => .providerRateLimited
  | backendInitError .. => .internalError

/-- `instanceof NotFoundError`. -/
def isNotFoundError : BackendError → Bool
  | notFoundError .. => true
  | _ => false

/-- `instanceof TransactionAlreadySubmittedError`. -/
def isTransactionAlreadySubmittedError : BackendError → Bool
  | transactionAlreadySubmittedError _ => true
  | _ => false

/-- A definitive verdict, by the class of the status. -/
def isClientError (e : BackendError) : Bool :=
  decide (400 ≤ e.statusCode ∧ e.statusCode < 500)

end BackendError

/-- Every backend failed, or was not called at all for the reasons in `skipped`. -/
structure AllBackendsFailedError where
  errors : List BackendError
  skipped : List String
deriving DecidableEq

namespace AllBackendsFailedError

def message (e : AllBackendsFailedError) : String :=
  let noneCalled :=
    if e.skipped = [] then "unknown error"
    else "no backend available (" ++ String.intercalate "; " e.skipped ++ ")"
  "All backends failed: " ++ (e.errors.getLast?.map BackendError.message).getD noneCalled

def statusCode (e : AllBackendsFailedError) : Int :=
  (e.errors.getLast?.map BackendError.statusCode).getD 503

def code (e : AllBackendsFailedError) : ErrorCode :=
  (e.errors.getLast?.map BackendError.code).getD .providerUnavailable

end AllBackendsFailedError

/-- What a call through the client throws. -/
inductive ClientError
  | backendError (e : BackendError)
  | allBackendsFailedError (e : AllBackendsFailedError)
  | allBackendsInitFailedError
  /-- Any other exception. -/
  | error
deriving DecidableEq

/-- True when every consulted backend answered 404. -/
def isNotFoundOnAllBackends : ClientError → Bool
  | .backendError e => e.isNotFoundError
  | .allBackendsFailedError e =>
      decide (e.errors ≠ []) &&
        e.errors.all fun e => e.isNotFoundError || decide (e.statusCode = 404)
  | _ => false

/-! ## What backends raise -/

/-- A field that holds a string in most errors. -/
inductive ErrorField
  /-- Undefined or null. -/
  | undefined
  | string (text : String)
  /-- Another value, by whether it counts as true and by its `String`. -/
  | other (truthy : Bool) (text : String)
deriving DecidableEq

namespace ErrorField

def truthy : ErrorField → Bool
  | undefined => false
  | string text => decide (text ≠ "")
  | other truthy _ => truthy

/-- `String(field ?? '')`. -/
def toText : ErrorField → String
  | undefined => ""
  | string text => text
  | other _ text => text

end ErrorField

/-- The body of an answer. -/
structure ErrorBody where
  error : ErrorField
  message : ErrorField
  /-- The PostgREST code, when it is a string. -/
  code : Option String
deriving DecidableEq

structure ErrorResponse where
  status : Option Int
  /-- The headers `retry-after` and `x-ratelimit-reset`. -/
  retryAfter : Option String
  rateLimitReset : Option String
  data : Option ErrorBody
deriving DecidableEq

/-- The fields that are read of an error of a client library.  A thrown string has
none of them. -/
structure HttpErrorLike where
  isTypeError : Bool
  message : ErrorField
  /-- The JSON-RPC code, when it is a number. -/
  code : Option Int
  /-- The JSON of the JSON-RPC data. -/
  data : Option String
  status : Option Int
  response : Option ErrorResponse
deriving DecidableEq

inductive Raised
  | backendError (e : BackendError)
  | other (e : HttpErrorLike)
deriving DecidableEq

/-! ## Texts -/

/-- `toLowerCase`, as far as it gives letters of the ASCII alphabet. -/
def toLowerCase (c : Char) : List Char :=
  if c = '\u212A' then ['k']
  else if c = '\u0130' then ['i', '\u0307']
  else [c.toLower]

def includes (text : List Char) (hint : String) : Bool := decide (hint.toList <:+: text)

/-- The hints in the lower case of a message. -/
def hintedAt (hints : List String) (message : String) : Bool :=
  hints.any (includes (message.toList.flatMap toLowerCase))

def isHexDigit (c : Char) : Bool :=
  c.isDigit || decide ('a' ≤ c ∧ c ≤ 'f') || decide ('A' ≤ c ∧ c ≤ 'F')

/-- The first match of `/([a-f0-9]{64})/i`. -/
def txHashMatch : List Char → Option (List Char)
  | [] => none
  | c :: rest =>
      let front := (c :: rest).take 64
      if front.length = 64 ∧ front.all isHexDigit then some front else txHashMatch rest

/-- The double next to the number that a text starts with, in base 10. -/
def parseInt (text : String) : Option Binary64 :=
  let digits (chars : List Char) : Option Binary64 :=
    let front := chars.takeWhile Char.isDigit
    if front = [] then none
    else some (.nearest (front.foldl (fun n c => 10 * n + (c.toNat - '0'.toNat)) 0) 1)
  match text.toList.dropWhile isJsWhitespace with
  | '-' :: rest => (digits rest).map Binary64.negated
  | '+' :: rest => digits rest
  | chars => digits chars

/-! ## Normalization -/

def pgServerErrorCodeClasses : List String := ["08", "42", "53", "57", "58", "XX"]

/-- True when a PostgREST error body's code denotes a provider-side SQL fault. -/
def isPostgrestServerErrorCode (code : Option String) : Bool :=
  code.any fun code => pgServerErrorCodeClasses.any fun c => c.toList.isPrefixOf code.toList

def HttpErrorLike.body (e : HttpErrorLike) : Option ErrorBody := e.response.bind ErrorResponse.data

def getErrorStatus (e : HttpErrorLike) : Int :=
  (e.status.or (e.response.bind ErrorResponse.status)).getD 500

def getErrorMessage (e : HttpErrorLike) : ErrorField :=
  let error := (e.body.map ErrorBody.error).getD .undefined
  if error.truthy then error
  else if e.message.truthy then e.message
  else .string "Unknown error"

def ogmiosScriptExecutionFailure : Int := 3010

/-- Characters of Ogmios error data kept in a message. -/
def ogmiosDetailMax : Nat := 2000

def nullClientHints : List String :=
  ["Cannot read properties of null", "Cannot read properties of undefined",
    "null is not an object", "undefined is not an object"]

def alreadySubmittedHints : List String :=
  ["already exists", "already submitted", "already known", "known transaction", "duplicate",
    "in mempool"]

def scriptValidationHints : List String :=
  ["plutusfailure", "plutus failure", "cekerror", "cek error", "overspending the budget",
    "overspent", "script failure", "script failed", "script evaluation", "ppviewhashesdontmatch",
    "scriptsnotpaidforall"]

def addressNotFoundHints : List String := ["invalid address", "malformed address"]

def validationErrorHints : List String :=
  ["signature", "witness", "verification failed", "deserialize", "malformed", "invalid cbor",
    "invalid transaction"]

def notFoundHints : List String :=
  ["not found", "has not been found", "does not exist", "no data found", "no records",
    "empty result", "no metadata"]

def rateLimitHints : List String := ["rate limit", "too many requests", "quota exceeded"]

/-- A call of a method of a client that was never initialized. -/
def HttpErrorLike.isNullClient (e : HttpErrorLike) : Bool :=
  e.isTypeError && nullClientHints.any (includes e.message.toText.toList)

/-- The hints are checked in a fixed order before the status. -/
def normalizeMessage (e : HttpErrorLike) (message : String) (backendName : Option String) :
    BackendError :=
  let status := getErrorStatus e
  if hintedAt alreadySubmittedHints message then
    .transactionAlreadySubmittedError
      (((txHashMatch message.toList).map String.ofList).getD "unknown")
  else if hintedAt scriptValidationHints message then
    .scriptValidationError ("Script validation failed: " ++ message)
  else if hintedAt addressNotFoundHints message then .notFoundError "Resource" backendName
  else if hintedAt validationErrorHints message then
    .transactionValidationError ("Transaction validation failed: " ++ message) .txValidationFailed
  else if (status = 400 ∨ status = 422) ∧ isPostgrestServerErrorCode (e.body.bind ErrorBody.code) then
    let detail := match e.body.map ErrorBody.message with
      | none | some .undefined => message
      | some field => field.toText
    .providerUnavailableError
      ("Provider database error (" ++ ((e.body.bind ErrorBody.code).getD "") ++ "): " ++ detail)
      backendName none
  else if hintedAt notFoundHints message then .notFoundError "Resource" backendName
  else if status = 429 ∨ hintedAt rateLimitHints message then
    let header := e.response.bind fun response =>
      (response.retryAfter.filter (· ≠ "")).or response.rateLimitReset
    .rateLimitError message backendName ((header.filter (· ≠ "")).bind parseInt)
  else if status = 404 then .notFoundError "Resource" backendName
  else if 500 ≤ status then .providerUnavailableError message backendName none
  else if status = 400 ∨ status = 422 then .transactionValidationError message .txValidationFailed
  else if status = 401 ∨ status = 403 then
    .backendError ("Provider authentication failed (" ++ toString status ++ "): " ++ message) status
      .providerUnavailable backendName
  else .providerUnavailableError message backendName none

/-- Turns any backend error into a typed one.  `none` where the message has no
`toLowerCase`, so that the normalization itself throws. -/
def normalizeBackendError (raised : Raised) (backendName : Option String) : Option BackendError :=
  match raised with
  | .backendError e => some e
  | .other e =>
      if e.isNullClient then
        some (.backendInitError ((backendName.filter (· ≠ "")).getD "unknown")
          (some "Backend client not initialized - call init() first"))
      else if e.code = some ogmiosScriptExecutionFailure then
        let detail := match e.data with
          | none => ""
          | some data => " " ++ String.ofList (data.toList.take ogmiosDetailMax)
        some (.scriptValidationError
          ("Script validation failed (3010): " ++ e.message.toText ++ detail))
      else
        match getErrorMessage e with
        | .string message => some (normalizeMessage e message backendName)
        | _ => none

/-! ### Where the normalization leads -/

/-- The provider's database failed, whatever the message says about it. -/
def HttpErrorLike.isDatabaseFault (e : HttpErrorLike) : Bool :=
  decide (getErrorStatus e = 400 ∨ getErrorStatus e = 422) &&
    isPostgrestServerErrorCode (e.body.bind ErrorBody.code)

/-- A message is read as one about a transaction that is already submitted. -/
def Raised.readsAsDuplicate : Raised → Bool
  | .backendError e => e.isTransactionAlreadySubmittedError
  | .other e =>
      !e.isNullClient && decide (e.code ≠ some ogmiosScriptExecutionFailure) &&
        match getErrorMessage e with
        | .string message => hintedAt alreadySubmittedHints message
        | _ => false

/-- The texts and statuses of client errors. -/
def HttpErrorLike.clientErrorText (e : HttpErrorLike) (message : String) : Bool :=
  hintedAt alreadySubmittedHints message || hintedAt scriptValidationHints message ||
    hintedAt addressNotFoundHints message || hintedAt validationErrorHints message ||
    (!e.isDatabaseFault &&
      (hintedAt notFoundHints message || hintedAt rateLimitHints message ||
        decide (getErrorStatus e ∈ [400, 401, 403, 404, 422, 429])))

/-- A raised error is read as a definitive verdict. -/
def Raised.readsAsClientError : Raised → Bool
  | .backendError e => e.isClientError
  | .other e =>
      !e.isNullClient &&
        (decide (e.code = some ogmiosScriptExecutionFailure) ||
          match getErrorMessage e with
          | .string message => e.clientErrorText message
          | _ => false)

/-- The normalization throws: there is no text to read. -/
def Raised.isUnreadable : Raised → Bool
  | .backendError _ => false
  | .other e =>
      !e.isNullClient && decide (e.code ≠ some ogmiosScriptExecutionFailure) &&
        match getErrorMessage e with
        | .string _ => false
        | _ => true

section Normalization

variable {e : HttpErrorLike} {message : String} {backendName : Option String}

theorem isTransactionAlreadySubmittedError_normalizeMessage :
    (normalizeMessage e message backendName).isTransactionAlreadySubmittedError =
      hintedAt alreadySubmittedHints message := by
  simp only [normalizeMessage, apply_ite BackendError.isTransactionAlreadySubmittedError]
  simp only [BackendError.isTransactionAlreadySubmittedError, ite_self]
  cases hintedAt alreadySubmittedHints message <;> rfl

theorem statusCode_normalizeMessage :
    (normalizeMessage e message backendName).statusCode =
      if hintedAt alreadySubmittedHints message then 409
      else if hintedAt scriptValidationHints message then 400
      else if hintedAt addressNotFoundHints message then 404
      else if hintedAt validationErrorHints message then 400
      else if e.isDatabaseFault then 503
      else if hintedAt notFoundHints message then 404
      else if getErrorStatus e = 429 ∨ hintedAt rateLimitHints message then 429
      else if getErrorStatus e = 404 then 404
      else if 500 ≤ getErrorStatus e then 503
      else if getErrorStatus e = 400 ∨ getErrorStatus e = 422 then 400
      else if getErrorStatus e = 401 ∨ getErrorStatus e = 403 then getErrorStatus e
      else 503 := by
  simp only [normalizeMessage, apply_ite BackendError.statusCode]
  simp only [BackendError.statusCode, HttpErrorLike.isDatabaseFault, Bool.and_eq_true,
    decide_eq_true_eq]

theorem isClientError_normalizeMessage :
    (normalizeMessage e message backendName).isClientError = e.clientErrorText message := by
  rw [BackendError.isClientError, statusCode_normalizeMessage, HttpErrorLike.clientErrorText]
  generalize hintedAt alreadySubmittedHints message = already
  generalize hintedAt scriptValidationHints message = script
  generalize hintedAt addressNotFoundHints message = address
  generalize hintedAt validationErrorHints message = validation
  generalize e.isDatabaseFault = fault
  generalize hintedAt notFoundHints message = missing
  generalize hintedAt rateLimitHints message = limited
  generalize getErrorStatus e = status
  cases already
  · cases script
    · cases address
      · cases validation
        · cases fault
          · cases missing
            · cases limited
              · simp only [Bool.false_eq_true, if_false, Bool.false_or, Bool.not_false,
                  Bool.true_and, or_false, List.mem_cons, List.not_mem_nil]
                rw [decide_eq_decide]
                split_ifs <;> omega
              · simp
            · simp
          · simp
        · simp
      · simp
    · simp
  · simp

/-- What a raised error is normalized to can be told from its texts and statuses. -/
theorem normalizeBackendError_reads (raised : Raised) (backendName : Option String) :
    (normalizeBackendError raised backendName).any
        BackendError.isTransactionAlreadySubmittedError = raised.readsAsDuplicate ∧
      (normalizeBackendError raised backendName).any BackendError.isClientError =
        raised.readsAsClientError ∧
      (normalizeBackendError raised backendName).isNone = raised.isUnreadable := by
  cases raised with
  | backendError e => exact ⟨rfl, rfl, rfl⟩
  | other e =>
      simp only [normalizeBackendError, Raised.readsAsDuplicate, Raised.readsAsClientError,
        Raised.isUnreadable]
      by_cases nullClient : e.isNullClient
      · simp only [nullClient, if_true, Bool.not_true, Bool.false_and]
        exact ⟨rfl, rfl, rfl⟩
      simp only [nullClient, Bool.not_false, Bool.true_and]
      by_cases script : e.code = some ogmiosScriptExecutionFailure
      · simp only [script, if_true, ne_eq, not_true_eq_false, decide_false, decide_true,
          Bool.false_and, Bool.true_or]
        exact ⟨rfl, rfl, rfl⟩
      simp only [script, if_false, ne_eq, not_false_eq_true, decide_false, decide_true,
        Bool.true_and, Bool.false_or]
      cases getErrorMessage e with
      | string message =>
          exact ⟨isTransactionAlreadySubmittedError_normalizeMessage,
            isClientError_normalizeMessage, rfl⟩
      | undefined => exact ⟨rfl, rfl, rfl⟩
      | other truthy text => exact ⟨rfl, rfl, rfl⟩

end Normalization

end Odatano
