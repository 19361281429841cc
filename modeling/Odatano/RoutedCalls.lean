import Odatano.BackendErrors
import Odatano.ChainData
import Odatano.CircuitBreaker
import Odatano.ConfirmationTracker

/-!
# Routed calls

`executeWithPriority` of `srv/blockchain/cardano-client.ts`: a call goes to the
configured backends in the order of its method until one answers.  What other calls do to
the circuits meanwhile is left open, each backend is met with any circuits.
-/

namespace Odatano

structure CardanoBackend where
  name : BackendId
  unsupportedMethods : List String
deriving DecidableEq

structure Routing where
  preferLive : Bool
  finalOnClientError : Bool

/-- Which backend type to prefer per method. -/
def methodRouting : String → Routing
  | "getAddress" | "getAddressUtxos" | "getLatestEpoch" | "getLatestBlock" | "getCurrentSlot"
  | "isUtxoUnspent" | "getPool" | "getDrep" | "getAccount" | "getProtocolParameters" =>
      ⟨true, false⟩
  -- a node's rejection is final: another backend submits to the same ledger
  | "submitTransaction" => ⟨true, true⟩
  | _ => ⟨false, false⟩

structure CardanoClient where
  liveBackend : Option CardanoBackend
  historicalBackends : List CardanoBackend
  distinct : ((liveBackend.toList ++ historicalBackends).map CardanoBackend.name).Nodup
  breaker : CircuitBreakerConfig
  primaryTimeoutMs : Nat
  fallbackTimeoutMs : Nat

/-- How the promise of a backend settles against its timeout. -/
inductive Settlement (α : Type*)
  | value (a : α)
  | raises (e : Raised)
  | timesOut

def withTimeout {α : Type*} (settlement : Settlement α) (ms : Nat) (backendName : BackendId) :
    Except Raised α :=
  match settlement with
  | .value a => .ok a
  | .raises e => .error e
  | .timesOut =>
      .error (.backendError (.providerUnavailableError "Backend timeout" (some backendName) (some ms)))

/-- What a call meets when it comes to a backend. -/
structure Turn (α : Type*) where
  circuits : Circuits
  now : Time
  /-- The backend's startup has failed; `init` is how the retry ends. -/
  uninitialized : Bool
  init : Except Raised Unit
  settlement : Settlement α

/-- How a backend's turn ends. -/
inductive Attempt (α : Type*)
  | skipped (reason : String)
  | initFailed (e : BackendError)
  | value (a : α)
  | failed (e : BackendError)
  /-- The normalization of the error throws. -/
  | throws

/-- How a call ends, with the backends that were called. -/
structure RoutedCall (α : Type*) where
  result : Except ClientError α
  called : List BackendId

/-- `getErrorMessage` in a text. -/
def Raised.text : Raised → String
  | .backendError e => e.message
  | .other e => (getErrorMessage e).toText

namespace CardanoClient

variable (client : CardanoClient) {α : Type*}

def getTimeoutForBackend (backend : CardanoBackend) : Nat :=
  if backend.name = "koios" ∨ backend.name = "odatano" then client.fallbackTimeoutMs
  else client.primaryTimeoutMs

/-- A backend's answer within its timeout, with a raised error normalized. -/
def callBackend (backend : CardanoBackend) (turn : Turn α) : Attempt α :=
  match withTimeout turn.settlement (client.getTimeoutForBackend backend) backend.name with
  | .ok a => .value a
  | .error raised =>
      match normalizeBackendError raised (some backend.name) with
      | some e => .failed e
      | none => .throws

/-- The body of the loop over the backends, up to what it does with the outcome. -/
def attempt (methodName : String) (backend : CardanoBackend) (turn : Turn α) : Attempt α :=
  -- capability routing: declared non-support is a skip, not a failure
  if methodName ∈ backend.unsupportedMethods then
    .skipped (backend.name ++ ": does not support " ++ methodName)
  else if !(shouldAttempt client.breaker turn.circuits backend.name turn.now).2 then
    .skipped (backend.name ++ ": circuit open")
  else if turn.uninitialized then
    match turn.init with
    | .error raised => .initFailed (.backendInitError backend.name (some raised.text))
    | .ok () => client.callBackend backend turn
  else client.callBackend backend turn

/-- Try each backend in order. -/
def tryBackends (methodName : String) (finalOnClientError : Bool) (turn : BackendId → Turn α) :
    List CardanoBackend → List BackendError → List String → List BackendId → RoutedCall α
  | [], errors, skipped, called =>
      ⟨.error (.allBackendsFailedError ⟨errors, skipped⟩), called⟩
  | backend :: rest, errors, skipped, called =>
      match client.attempt methodName backend (turn backend.name) with
      | .skipped reason =>
          tryBackends methodName finalOnClientError turn rest errors (skipped ++ [reason]) called
      | .initFailed e =>
          tryBackends methodName finalOnClientError turn rest (errors ++ [e]) skipped called
      | .value a => ⟨.ok a, called ++ [backend.name]⟩
      | .throws => ⟨.error .error, called ++ [backend.name]⟩
      | .failed e =>
          if finalOnClientError && e.isClientError then
            ⟨.error (.backendError e), called ++ [backend.name]⟩
          else
            tryBackends methodName finalOnClientError turn rest (errors ++ [e]) skipped
              (called ++ [backend.name])

def allBackends (preferLive : Bool) : List CardanoBackend :=
  if preferLive then client.liveBackend.toList ++ client.historicalBackends
  else client.historicalBackends ++ client.liveBackend.toList

/-- Route a call by `methodRouting`.  `initialized` says whether the startup of the
client succeeds with at least one backend. -/
def route (methodName : String) (initialized : Bool) (turn : BackendId → Turn α) : RoutedCall α :=
  if !initialized then ⟨.error .allBackendsInitFailedError, []⟩
  else
    let routing := methodRouting methodName
    client.tryBackends methodName routing.finalOnClientError turn
      (client.allBackends routing.preferLive) [] [] []

def getTransaction (initialized : Bool) (turn : BackendId → Turn Transaction) :
    RoutedCall Transaction :=
  client.route "getTransaction" initialized turn

end CardanoClient

/-! ## What the callers make of a lookup -/

/-- `pollOnce` of the confirmation tracker. -/
def RoutedCall.txAnswer (call : RoutedCall Transaction) : TxAnswer :=
  match call.result with
  | .ok tx => .found (some tx.slot) tx.blockHeight
  | .error e => if isNotFoundOnAllBackends e then .notFound else .transient

/-- `onChain` of `reconcileSubmitting`, none where the lookup is inconclusive.  The local
index comes first. -/
def RoutedCall.onChain (indexed : Bool) (call : RoutedCall Transaction) : Option Bool :=
  if indexed then some true
  else
    match call.result with
    | .ok _ => some true
    | .error e => if isNotFoundOnAllBackends e then some false else none

/-! ## What is claimed of a lookup -/

namespace CardanoClient

variable (client : CardanoClient) {α : Type*}

/-- The configured backends that support a method. -/
def supporting (methodName : String) : List CardanoBackend :=
  (client.liveBackend.toList ++ client.historicalBackends).filter fun backend =>
    decide (methodName ∉ backend.unsupportedMethods)

/-- The circuit breaker refuses the call. -/
def refused (backend : CardanoBackend) (turn : Turn α) : Bool :=
  !(shouldAttempt client.breaker turn.circuits backend.name turn.now).2

def answersNotFound (backend : CardanoBackend) (turn : Turn α) : Bool :=
  match withTimeout turn.settlement (client.getTimeoutForBackend backend) backend.name with
  | .ok _ => false
  | .error raised =>
      (normalizeBackendError raised (some backend.name)).any fun e => decide (e.statusCode = 404)

/-- Every backend that supports the method was called and answered not found. -/
def Evidence (methodName : String) (turn : BackendId → Turn α) (call : RoutedCall α) : Prop :=
  ∀ backend ∈ client.supporting methodName,
    backend.name ∈ call.called ∧ client.answersNotFound backend (turn backend.name) = true

/-- Some backends are refused by their circuits, and all others, at least one, are
initialized and answer not found. -/
def RefusedBehindNotFound (methodName : String) (turn : BackendId → Turn α) : Prop :=
  let backends := client.supporting methodName
  (∃ backend ∈ backends, client.refused backend (turn backend.name) = true) ∧
    (∃ backend ∈ backends, client.refused backend (turn backend.name) = false) ∧
      ∀ backend ∈ backends, client.refused backend (turn backend.name) = false →
        ((turn backend.name).uninitialized = true → (turn backend.name).init = .ok ()) ∧
          client.answersNotFound backend (turn backend.name) = true

end CardanoClient

/-! ## The loop over the backends -/

/-- The attempt at a backend in its turn. -/
def CardanoClient.attemptOf (client : CardanoClient) {α : Type*} (methodName : String)
    (turn : BackendId → Turn α) (backend : CardanoBackend) : Attempt α :=
  client.attempt methodName backend (turn backend.name)

section Loop

variable {client : CardanoClient} {α : Type*} {methodName : String} {final : Bool}
  {turn : BackendId → Turn α}

namespace Attempt

def error? : Attempt α → Option BackendError
  | .initFailed e | .failed e => some e
  | _ => none

def skipped? : Attempt α → Option String
  | .skipped reason => some reason
  | _ => none

def isCall : Attempt α → Bool
  | .value _ | .failed _ | .throws => true
  | _ => false

def isNotFound : Attempt α → Bool
  | .failed e => decide (e.statusCode = 404)
  | _ => false

/-- How the call ends at this backend, if it does. -/
def final? (finalOnClientError : Bool) : Attempt α → Option (Except ClientError α)
  | .value a => some (.ok a)
  | .throws => some (.error .error)
  | .failed e =>
      if finalOnClientError && e.isClientError then some (.error (.backendError e)) else none
  | _ => none

end Attempt

namespace CardanoClient

/-- The entry of a backend in the log of calls. -/
def logged (methodName : String) (turn : BackendId → Turn α) (backend : CardanoBackend) :
    List BackendId :=
  if (client.attemptOf methodName turn backend).isCall then [backend.name] else []

theorem tryBackends_cons (backend : CardanoBackend) (rest : List CardanoBackend)
    (errors : List BackendError) (skipped : List String) (called : List BackendId) :
    client.tryBackends methodName final turn (backend :: rest) errors skipped called =
      match (client.attemptOf methodName turn backend).final? final with
      | some result => ⟨result, called ++ [backend.name]⟩
      | none =>
          client.tryBackends methodName final turn rest
            (errors ++ (client.attemptOf methodName turn backend).error?.toList)
            (skipped ++ (client.attemptOf methodName turn backend).skipped?.toList)
            (called ++ client.logged methodName turn backend) := by
  rw [tryBackends, logged, attemptOf]
  cases client.attempt methodName backend (turn backend.name) with
  | skipped reason =>
      simp only [Attempt.final?, Attempt.error?, Attempt.skipped?, Attempt.isCall,
        Option.toList_none, Option.toList_some, List.append_nil, Bool.false_eq_true, if_false]
  | initFailed e =>
      simp only [Attempt.final?, Attempt.error?, Attempt.skipped?, Attempt.isCall,
        Option.toList_none, Option.toList_some, List.append_nil, Bool.false_eq_true, if_false]
  | value a => simp only [Attempt.final?]
  | throws => simp only [Attempt.final?]
  | failed e =>
      simp only [Attempt.final?, Attempt.error?, Attempt.skipped?, Attempt.isCall,
        Option.toList_none, Option.toList_some, List.append_nil, if_true]
      split <;> rfl

/-- Either one backend ends the call or all of them are passed. -/
theorem tryBackends_cases (backends : List CardanoBackend) (errors : List BackendError)
    (skipped : List String) (called : List BackendId) :
    (∃ before backend after result,
        backends = before ++ backend :: after ∧
          (∀ other ∈ before, (client.attemptOf methodName turn other).final? final = none) ∧
            (client.attemptOf methodName turn backend).final? final = some result ∧
              client.tryBackends methodName final turn backends errors skipped called =
                ⟨result, called ++ before.flatMap (client.logged methodName turn) ++
                  [backend.name]⟩) ∨
      (∀ backend ∈ backends, (client.attemptOf methodName turn backend).final? final = none) ∧
        client.tryBackends methodName final turn backends errors skipped called =
          ⟨.error (.allBackendsFailedError
            ⟨errors ++ backends.flatMap fun backend =>
                (client.attemptOf methodName turn backend).error?.toList,
              skipped ++ backends.flatMap fun backend =>
                (client.attemptOf methodName turn backend).skipped?.toList⟩),
            called ++ backends.flatMap (client.logged methodName turn)⟩ := by
  induction backends generalizing errors skipped called with
  | nil =>
      refine .inr ⟨fun _ backendMem => absurd backendMem List.not_mem_nil, ?_⟩
      simp only [tryBackends, List.flatMap_nil, List.append_nil]
  | cons backend rest ih =>
      rw [tryBackends_cons]
      cases ended : (client.attemptOf methodName turn backend).final? final with
      | some result =>
          refine .inl ⟨[], backend, rest, result, rfl,
            fun _ otherMem => absurd otherMem List.not_mem_nil, ended, ?_⟩
          simp only [List.flatMap_nil, List.append_nil]
      | none =>
          rcases ih (errors ++ (client.attemptOf methodName turn backend).error?.toList)
            (skipped ++ (client.attemptOf methodName turn backend).skipped?.toList)
            (called ++ client.logged methodName turn backend) with
            ⟨before, last, after, result, rfl, others, isLast, same⟩ | ⟨others, same⟩
          · refine .inl ⟨backend :: before, last, after, result, rfl,
              List.forall_mem_cons.mpr ⟨ended, others⟩, isLast, ?_⟩
            simp only [same, List.flatMap_cons, List.append_assoc]
          · refine .inr ⟨List.forall_mem_cons.mpr ⟨ended, others⟩, ?_⟩
            simp only [same, List.flatMap_cons, List.append_assoc]

/-! ### Lookups -/

variable {backend : CardanoBackend} {t : Turn α}

theorem callBackend_spec :
    (client.callBackend backend t).isNotFound = client.answersNotFound backend t ∧
      (client.callBackend backend t).skipped? = none ∧
        (client.callBackend backend t).isCall = true := by
  unfold callBackend answersNotFound
  cases withTimeout t.settlement (client.getTimeoutForBackend backend) backend.name with
  | ok a => exact ⟨rfl, rfl, rfl⟩
  | error raised =>
      dsimp only
      cases normalizeBackendError raised (some backend.name) with
      | none => exact ⟨rfl, rfl, rfl⟩
      | some e => exact ⟨rfl, rfl, rfl⟩

theorem attempt_unsupported (unsupported : methodName ∈ backend.unsupportedMethods) :
    client.attempt methodName backend t =
      .skipped (backend.name ++ ": does not support " ++ methodName) :=
  if_pos unsupported

theorem attempt_refused (supported : methodName ∉ backend.unsupportedMethods)
    (isRefused : client.refused backend t = true) :
    client.attempt methodName backend t = .skipped (backend.name ++ ": circuit open") := by
  rw [attempt, if_neg supported]
  exact if_pos isRefused

theorem attempt_admitted (supported : methodName ∉ backend.unsupportedMethods)
    (admitted : client.refused backend t = false) :
    client.attempt methodName backend t =
      if t.uninitialized then
        match t.init with
        | .error raised => .initFailed (.backendInitError backend.name (some raised.text))
        | .ok () => client.callBackend backend t
      else client.callBackend backend t := by
  rw [attempt, if_neg supported]
  exact if_neg (ne_true_of_eq_false admitted)

/-- A turn is passed over when the method is not supported or the circuit refuses. -/
theorem isSome_skipped? :
    ((client.attempt methodName backend t).skipped?).isSome = true ↔
      methodName ∈ backend.unsupportedMethods ∨ client.refused backend t = true := by
  by_cases unsupported : methodName ∈ backend.unsupportedMethods
  · simp [attempt_unsupported unsupported, unsupported, Attempt.skipped?]
  cases admitted : client.refused backend t with
  | true => simp [attempt_refused unsupported admitted, Attempt.skipped?]
  | false =>
      rw [attempt_admitted unsupported admitted]
      have call : ¬ ((client.callBackend backend t).skipped?).isSome = true := by
        simp [callBackend_spec.2.1]
      cases t.uninitialized with
      | false => simpa [unsupported] using call
      | true =>
          cases t.init with
          | error raised => simp [Attempt.skipped?, unsupported]
          | ok _ => simpa [unsupported] using call

/-- A turn ends with not found when the backend is asked and answers so. -/
theorem isNotFound_attempt :
    (client.attempt methodName backend t).isNotFound = true ↔
      methodName ∉ backend.unsupportedMethods ∧ client.refused backend t = false ∧
        (t.uninitialized = true → t.init = .ok ()) ∧ client.answersNotFound backend t = true := by
  by_cases unsupported : methodName ∈ backend.unsupportedMethods
  · simp [attempt_unsupported unsupported, unsupported, Attempt.isNotFound]
  cases admitted : client.refused backend t with
  | true => simp [attempt_refused unsupported admitted, Attempt.isNotFound]
  | false =>
      rw [attempt_admitted unsupported admitted]
      cases t.uninitialized with
      | false => simp [unsupported, callBackend_spec.1]
      | true =>
          cases t.init with
          | error raised => simp [Attempt.isNotFound]
          | ok _ => simp [unsupported, callBackend_spec.1]

/-- A turn that is neither passed over nor a call ends with an error of status 500. -/
theorem isNotFound_of_error? {e : BackendError}
    (raised : (client.attempt methodName backend t).error? = some e) :
    (client.attempt methodName backend t).isNotFound = decide (e.statusCode = 404) := by
  cases ended : client.attempt methodName backend t with
  | skipped reason => rw [ended] at raised; cases raised
  | value a => rw [ended] at raised; cases raised
  | throws => rw [ended] at raised; cases raised
  | failed other =>
      rw [ended] at raised
      cases raised
      rfl
  | initFailed other =>
      rw [ended] at raised
      cases raised
      have isInit : ∃ name text, e = .backendInitError name text := by
        unfold attempt callBackend at ended
        split_ifs at ended
        · split at ended
          · cases ended
            exact ⟨_, _, rfl⟩
          · split at ended
            · cases ended
            · split at ended <;> cases ended
        · split at ended
          · cases ended
          · split at ended <;> cases ended
      obtain ⟨name, text, rfl⟩ := isInit
      rfl

theorem statusCode_of_isNotFoundError {e : BackendError} (isNotFound : e.isNotFoundError = true) :
    e.statusCode = 404 := by
  cases e with
  | notFoundError resource backendName => rfl
  | _ => cases isNotFound

/-- A turn of a lookup ends the call without absence, is passed over, or fails. -/
theorem lookup_cases (a : Attempt α) :
    (∃ result, a.final? false = some result ∧
        (∀ e, result = .error e → isNotFoundOnAllBackends e = false) ∧
          a.skipped? = none ∧ a.isNotFound = false) ∨
      a.final? false = none ∧
        (a.skipped?.isSome = true ∧ a.error? = none ∧ a.isNotFound = false ∨
          a.skipped? = none ∧ ∃ e, a.error? = some e) := by
  cases a with
  | skipped reason => exact .inr ⟨rfl, .inl ⟨rfl, rfl, rfl⟩⟩
  | initFailed e => exact .inr ⟨rfl, .inr ⟨rfl, e, rfl⟩⟩
  | failed e => exact .inr ⟨rfl, .inr ⟨rfl, e, rfl⟩⟩
  | value a => exact .inl ⟨_, rfl, nofun, rfl, rfl⟩
  | throws =>
      refine .inl ⟨_, rfl, ?_, rfl, rfl⟩
      rintro e ⟨⟩
      rfl

/-- A lookup counts as absent when every turn is passed over or answered with not
found, and one of them is answered. -/
theorem verdict_iff (backends : List CardanoBackend) :
    (∃ e, (client.tryBackends methodName false turn backends [] [] []).result = .error e ∧
        isNotFoundOnAllBackends e = true) ↔
      (∀ backend ∈ backends,
          (client.attemptOf methodName turn backend).skipped?.isSome = true ∨
            (client.attemptOf methodName turn backend).isNotFound = true) ∧
        ∃ backend ∈ backends, (client.attemptOf methodName turn backend).isNotFound = true := by
  let attempts := client.attemptOf methodName turn
  have read {backend : CardanoBackend} {e : BackendError}
      (raised : (attempts backend).error? = some e) :
      (e.isNotFoundError || decide (e.statusCode = 404)) = (attempts backend).isNotFound := by
    refine Eq.trans ?_ (isNotFound_of_error? raised).symm
    cases isNotFound : e.isNotFoundError with
    | false => rfl
    | true => exact (decide_eq_true (statusCode_of_isNotFoundError isNotFound)).symm
  rcases @tryBackends_cases client α methodName false turn backends [] [] [] with
    ⟨before, last, after, result, rfl, -, isLast, same⟩ | ⟨passed, same⟩
  · -- the call ended with a value or an exception
    rcases lookup_cases (client.attemptOf methodName turn last) with
      ⟨result', isResult, notAbsent, notSkipped, notMissing⟩ | ⟨notLast, -⟩
    · rw [isLast] at isResult
      cases isResult
      rw [same]
      constructor
      · rintro ⟨e, isError, absent⟩
        cases (notAbsent e isError).symm.trans absent
      · intro turns
        have lastTurn := turns.1 last (List.mem_append_right before List.mem_cons_self)
        simp [notSkipped, notMissing] at lastTurn
    · cases notLast.symm.trans isLast
  · have turnOf {backend : CardanoBackend} (backendMem : backend ∈ backends) :
        (attempts backend).skipped?.isSome = true ∧ (attempts backend).error? = none ∧
            (attempts backend).isNotFound = false ∨
          (attempts backend).skipped? = none ∧ ∃ e, (attempts backend).error? = some e := by
      rcases lookup_cases (attempts backend) with ⟨_, isLast, -⟩ | ⟨-, turns⟩
      · cases (passed backend backendMem).symm.trans isLast
      · exact turns
    have mem_errors {e : BackendError} :
        e ∈ (backends.flatMap fun backend => (attempts backend).error?.toList) ↔
          ∃ backend ∈ backends, (attempts backend).error? = some e := by
      simp only [List.mem_flatMap, Option.mem_toList]
    rw [same, List.nil_append]
    constructor
    · rintro ⟨_, ⟨⟩, absent⟩
      simp only [isNotFoundOnAllBackends, Bool.and_eq_true, decide_eq_true_eq,
        List.all_eq_true] at absent
      obtain ⟨nonempty, missing⟩ := absent
      refine ⟨fun backend backendMem => ?_, ?_⟩
      · rcases turnOf backendMem with ⟨isSkip, -⟩ | ⟨-, e, raised⟩
        · exact .inl isSkip
        · exact .inr ((read raised).symm.trans
            (missing e (mem_errors.mpr ⟨backend, backendMem, raised⟩)))
      · obtain ⟨e, eMem⟩ := List.exists_mem_of_ne_nil _ nonempty
        obtain ⟨backend, backendMem, raised⟩ := mem_errors.mp eMem
        exact ⟨backend, backendMem, (read raised).symm.trans (missing e eMem)⟩
    · rintro ⟨turns, backend, backendMem, isMissing⟩
      refine ⟨_, rfl, ?_⟩
      simp only [isNotFoundOnAllBackends, Bool.and_eq_true, decide_eq_true_eq, List.all_eq_true]
      constructor
      · rcases turnOf backendMem with ⟨-, -, notMissing⟩ | ⟨-, e, raised⟩
        · cases notMissing.symm.trans isMissing
        · exact List.ne_nil_of_mem (mem_errors.mpr ⟨backend, backendMem, raised⟩)
      · intro e eMem
        obtain ⟨backend, backendMem, raised⟩ := mem_errors.mp eMem
        rcases turnOf backendMem with ⟨-, noError, -⟩ | ⟨notSkipped, -⟩
        · cases noError.symm.trans raised
        · rcases turns backend backendMem with isSkip | isMissing
          · change (attempts backend).skipped?.isSome = true at isSkip
            rw [notSkipped] at isSkip
            cases isSkip
          · exact (read raised).trans isMissing

/-- A backend whose circuit refuses is not in the log. -/
theorem called_admitted {backends : List CardanoBackend} {backend : CardanoBackend}
    (wasCalled : backend.name ∈ backends.flatMap (client.logged methodName turn)) :
    client.refused backend (turn backend.name) = false := by
  obtain ⟨other, otherMem, inLog⟩ := List.mem_flatMap.mp wasCalled
  unfold logged at inLog
  split at inLog
  · rename_i isCall
    have sameName : backend.name = other.name := List.mem_singleton.mp inLog
    by_contra isRefused
    have otherRefused : client.refused other (turn other.name) = true := by
      have isRefused := eq_true_of_ne_false isRefused
      unfold refused at isRefused ⊢
      rwa [sameName] at isRefused
    have skipped : (client.attempt methodName other (turn other.name)).skipped?.isSome = true :=
      isSome_skipped?.mpr (.inr otherRefused)
    unfold attemptOf at isCall
    cases ended : client.attempt methodName other (turn other.name) with
    | skipped reason => rw [ended] at isCall; cases isCall
    | _ => rw [ended] at skipped; cases skipped
  · cases inLog

theorem mem_allBackends (preferLive : Bool) (backend : CardanoBackend) :
    backend ∈ client.allBackends preferLive ↔
      backend ∈ client.liveBackend.toList ++ client.historicalBackends := by
  unfold allBackends
  split
  · rfl
  · simp only [List.mem_append, or_comm]

end CardanoClient

end Loop

/-! ## The verdict on a lookup -/

namespace CardanoClient

variable {client : CardanoClient} {α : Type*} {methodName : String} {initialized : Bool}
  {turn : BackendId → Turn α}

/-- A lookup counts as absent exactly when a backend is asked and none that is admitted
answers otherwise. -/
theorem route_absent_iff (lookup : (methodRouting methodName).finalOnClientError = false) :
    (∃ e, (client.route methodName initialized turn).result = .error e ∧
        isNotFoundOnAllBackends e = true) ↔
      initialized = true ∧
        (∀ backend ∈ client.supporting methodName,
          client.refused backend (turn backend.name) = false →
            ((turn backend.name).uninitialized = true → (turn backend.name).init = .ok ()) ∧
              client.answersNotFound backend (turn backend.name) = true) ∧
          ∃ backend ∈ client.supporting methodName,
            client.refused backend (turn backend.name) = false := by
  unfold route
  cases initialized with
  | false =>
      refine ⟨?_, fun absent => nomatch absent.1⟩
      rintro ⟨_, ⟨⟩, absent⟩
      cases absent
  | true =>
      simp only [Bool.not_true, Bool.false_eq_true, if_false, lookup, true_and]
      rw [verdict_iff]
      simp only [mem_allBackends, attemptOf, isSome_skipped?, isNotFound_attempt, supporting,
        List.mem_filter, decide_eq_true_eq]
      constructor
      · rintro ⟨turns, backend, backendMem, supported, admitted, -⟩
        refine ⟨?_, backend, ⟨backendMem, supported⟩, admitted⟩
        rintro other ⟨otherMem, otherSupported⟩ otherAdmitted
        rcases turns other otherMem with (unsupported | isRefused) | ⟨-, -, answered⟩
        · exact absurd unsupported otherSupported
        · cases isRefused.symm.trans otherAdmitted
        · exact answered
      · rintro ⟨turns, backend, ⟨backendMem, supported⟩, admitted⟩
        refine ⟨fun other otherMem => ?_, backend, backendMem, supported, admitted,
          turns backend ⟨backendMem, supported⟩ admitted⟩
        by_cases unsupported : methodName ∈ other.unsupportedMethods
        · exact .inl (.inl unsupported)
        cases otherAdmitted : client.refused other (turn other.name) with
        | true => exact .inl (.inr rfl)
        | false =>
            exact .inr ⟨unsupported, rfl, turns other ⟨otherMem, unsupported⟩ otherAdmitted⟩

/-- In an absent lookup exactly the admitted backends were called. -/
theorem route_called (lookup : (methodRouting methodName).finalOnClientError = false)
    {e : ClientError} (failed : (client.route methodName initialized turn).result = .error e)
    (absent : isNotFoundOnAllBackends e = true) {backend : CardanoBackend}
    (backendMem : backend ∈ client.supporting methodName) :
    backend.name ∈ (client.route methodName initialized turn).called ↔
      client.refused backend (turn backend.name) = false := by
  obtain ⟨rfl, turns, -⟩ := (route_absent_iff lookup).mp ⟨e, failed, absent⟩
  unfold route at failed ⊢
  simp only [Bool.not_true, Bool.false_eq_true, if_false, lookup] at failed ⊢
  let backends := client.allBackends (methodRouting methodName).preferLive
  rcases @tryBackends_cases client α methodName false turn backends [] [] [] with
    ⟨before, last, after, result, -, -, isLast, same⟩ | ⟨-, same⟩
  · rw [same] at failed
    cases failed
    rcases lookup_cases (client.attemptOf methodName turn last) with
      ⟨result', isResult, notAbsent, -⟩ | ⟨notLast, -⟩
    · rw [isLast] at isResult
      cases isResult
      cases (notAbsent e rfl).symm.trans absent
    · cases notLast.symm.trans isLast
  · rw [same, List.nil_append]
    refine ⟨called_admitted, fun admitted => ?_⟩
    obtain ⟨initOk, answered⟩ := turns backend backendMem admitted
    obtain ⟨configured, supported⟩ := List.mem_filter.mp backendMem
    have isNotFound := isNotFound_attempt.mpr
      ⟨of_decide_eq_true supported, admitted, initOk, answered⟩
    refine List.mem_flatMap.mpr ⟨backend, (mem_allBackends _ backend).mpr configured, ?_⟩
    unfold logged attemptOf
    cases ended : client.attempt methodName backend (turn backend.name) with
    | failed e => exact List.mem_singleton.mpr rfl
    | _ => rw [ended] at isNotFound; cases isNotFound

/-- The evidence of an absent lookup is complete exactly when no circuit refused. -/
theorem evidence_iff (lookup : (methodRouting methodName).finalOnClientError = false) :
    (∀ e, (client.route methodName initialized turn).result = .error e →
        isNotFoundOnAllBackends e = true →
          client.Evidence methodName turn (client.route methodName initialized turn)) ↔
      ¬ (initialized = true ∧ client.RefusedBehindNotFound methodName turn) := by
  constructor
  · rintro complete ⟨isInitialized, ⟨backend, backendMem, isRefused⟩, admitted, turns⟩
    obtain ⟨e, failed, absent⟩ := (route_absent_iff lookup).mpr ⟨isInitialized, turns, admitted⟩
    have wasCalled := (complete e failed absent backend backendMem).1
    cases isRefused.symm.trans ((route_called lookup failed absent backendMem).mp wasCalled)
  · intro noneRefused e failed absent backend backendMem
    obtain ⟨isInitialized, turns, admitted⟩ := (route_absent_iff lookup).mp ⟨e, failed, absent⟩
    have isAdmitted : client.refused backend (turn backend.name) = false := by
      by_contra isRefused
      exact noneRefused ⟨isInitialized,
        ⟨backend, backendMem, eq_true_of_ne_false isRefused⟩, admitted, turns⟩
    exact ⟨(route_called lookup failed absent backendMem).mpr isAdmitted,
      (turns backend backendMem isAdmitted).2⟩

end CardanoClient

theorem RoutedCall.txAnswer_eq_notFound {call : RoutedCall Transaction} :
    call.txAnswer = .notFound ↔
      ∃ e, call.result = .error e ∧ isNotFoundOnAllBackends e = true := by
  unfold RoutedCall.txAnswer
  cases call.result with
  | ok tx => simp
  | error e => cases absent : isNotFoundOnAllBackends e <;> simp [absent]

theorem RoutedCall.onChain_eq_false {call : RoutedCall Transaction} {indexed : Bool} :
    call.onChain indexed = some false ↔
      indexed = false ∧ ∃ e, call.result = .error e ∧ isNotFoundOnAllBackends e = true := by
  unfold RoutedCall.onChain
  cases indexed with
  | true => simp
  | false =>
      cases call.result with
      | ok tx => simp
      | error e => cases absent : isNotFoundOnAllBackends e <;> simp [absent]

/-- Whether an error is read as absence, and what the callers then count as a miss, rests
on complete evidence exactly when no circuit refused beside backends that all answer
not found. -/
theorem absent_lookup_complete_iff (client : CardanoClient) {α : Type*} (methodName : String)
    (lookup : (methodRouting methodName).finalOnClientError = false) (initialized : Bool)
    (turn : BackendId → Turn α) (txTurn : BackendId → Turn Transaction) (indexed : Bool) :
    ((∀ e, (client.route methodName initialized turn).result = .error e →
        isNotFoundOnAllBackends e = true →
          client.Evidence methodName turn (client.route methodName initialized turn)) ↔
      ¬ (initialized = true ∧ client.RefusedBehindNotFound methodName turn)) ∧
      (((client.getTransaction initialized txTurn).txAnswer = .notFound →
          client.Evidence "getTransaction" txTurn (client.getTransaction initialized txTurn)) ↔
        ¬ (initialized = true ∧ client.RefusedBehindNotFound "getTransaction" txTurn)) ∧
      (((client.getTransaction initialized txTurn).onChain indexed = some false →
          client.Evidence "getTransaction" txTurn (client.getTransaction initialized txTurn)) ↔
        indexed = true ∨
          ¬ (initialized = true ∧ client.RefusedBehindNotFound "getTransaction" txTurn)) := by
  have isLookup : (methodRouting "getTransaction").finalOnClientError = false := by decide
  have routed := @CardanoClient.evidence_iff client Transaction "getTransaction" initialized txTurn
    isLookup
  refine ⟨CardanoClient.evidence_iff lookup, ?_, ?_⟩
  · rw [← routed, RoutedCall.txAnswer_eq_notFound]
    exact ⟨fun complete e failed absent => complete ⟨e, failed, absent⟩,
      fun complete missed => missed.elim fun e absent => complete e absent.1 absent.2⟩
  · rw [← routed, RoutedCall.onChain_eq_false]
    cases indexed with
    | true => simp
    | false =>
        simp only [true_and, Bool.false_eq_true, false_or]
        exact ⟨fun complete e failed absent => complete ⟨e, failed, absent⟩,
          fun complete missed => missed.elim fun e absent => complete e absent.1 absent.2⟩

/-! Koios is down and its circuit open, the remote instance does not have the transaction. -/

def koiosAndRemote : CardanoClient :=
  { liveBackend := none
    historicalBackends := [⟨"koios", []⟩, ⟨"odatano", []⟩]
    distinct := by decide
    breaker := .default
    primaryTimeoutMs := 30000
    fallbackTimeoutMs := 60000 }

/-- The circuits after a backend has failed some times. -/
def failures (backend : BackendId) : Nat → Circuits
  | 0 => fun _ => none
  | n + 1 => recordFailure .default (failures backend n) backend 0

/-- The turn of a backend that answers with a status 404, beside some circuits. -/
def notFoundTurn (circuits : Circuits) : Turn Transaction :=
  { circuits
    now := 0
    uninitialized := false
    init := .ok ()
    settlement := .raises (.other
      { isTypeError := false, message := .string "Request failed with status code 404", code := none
        data := none, status := some 404, response := none }) }

theorem absent_lookup_complete_sample :
    (koiosAndRemote.getTransaction true fun _ => notFoundTurn fun _ => none).txAnswer =
        .notFound ∧
      koiosAndRemote.Evidence "getTransaction" (fun _ => notFoundTurn fun _ => none)
        (koiosAndRemote.getTransaction true fun _ => notFoundTurn fun _ => none) := by
  have missed : (koiosAndRemote.getTransaction true fun _ =>
      notFoundTurn fun _ => none).txAnswer = .notFound := by decide +kernel
  refine ⟨missed, (absent_lookup_complete_iff koiosAndRemote "getTransaction" (by decide) true
    (fun _ => notFoundTurn fun _ => none) (fun _ => notFoundTurn fun _ => none) false).2.1.mpr ?_
      missed⟩
  rintro ⟨-, ⟨backend, -, isRefused⟩, -⟩
  cases isRefused

/-- Koios is not asked, and the lookup counts as a miss. -/
theorem absent_lookup_refused :
    ((koiosAndRemote.getTransaction true fun _ => notFoundTurn (failures "koios" 5)).txAnswer =
        .notFound ∧
      (koiosAndRemote.getTransaction true fun _ =>
          notFoundTurn (failures "koios" 5)).onChain false = some false ∧
      (koiosAndRemote.getTransaction true fun _ => notFoundTurn (failures "koios" 5)).called =
        ["odatano"]) ∧
    ¬ koiosAndRemote.Evidence "getTransaction" (fun _ => notFoundTurn (failures "koios" 5))
      (koiosAndRemote.getTransaction true fun _ => notFoundTurn (failures "koios" 5)) := by
  refine ⟨by decide +kernel, fun complete => ?_⟩
  have wasCalled := (complete ⟨"koios", []⟩ (by decide +kernel)).1
  revert wasCalled
  decide +kernel

end Odatano
