import Odatano.Submissions

/-!
# Duplicate submissions

`TransactionAlreadySubmittedError` as `submitAndFinalize` of
`srv/blockchain/signing/submission-finalizer.ts` and the wallet worker take it: the
transaction counts as submitted.
-/

namespace Odatano

/-- What `submitAndFinalize` commits. -/
inductive FinalizedStatus
  | submitted
  | failed
deriving DecidableEq

def submitAndFinalize (call : RoutedCall String) : FinalizedStatus :=
  match call.result with
  | .ok _ => .submitted
  | .error (.backendError e) =>
      -- the transaction reached the mempool, its answer was lost
      if e.isTransactionAlreadySubmittedError then .submitted else .failed
  | .error _ => .failed

/-- The hash under which the wallet worker records a submitted transaction.
`txHash` is the hash of the signed transaction. -/
def submitWithAlreadyKnownTolerance (txHash : String) (call : RoutedCall String) :
    Except ClientError String :=
  match call.result with
  | .ok hash => .ok hash
  | .error (.backendError e) =>
      if e.isTransactionAlreadySubmittedError then .ok txHash else .error (.backendError e)
  | .error e => .error e

/-! ## What is claimed of a duplicate -/

/-- The normalization gives a duplicate only for an error that says so. -/
def OnlyDuplicate (raised : Raised) (backendName : Option String) (report : Report) : Prop :=
  ∀ e, normalizeBackendError raised backendName = some e →
    e.isTransactionAlreadySubmittedError = true → report = .alreadyKnown

/-- What is read as a duplicate is one. -/
def ReadsTrue (raised : Raised) (report : Report) : Prop :=
  raised.readsAsDuplicate = true → report = .alreadyKnown

/-- A transaction that is recorded as submitted is held by a backend that was called. -/
def RecordsHeld (turn : BackendId → SubmitTurn) (txHash : String) (call : RoutedCall String) :
    Prop :=
  (submitAndFinalize call = .submitted → ∃ name ∈ call.called, (turn name).holds = true) ∧
    ((submitWithAlreadyKnownTolerance txHash call).isOk = true →
      ∃ name ∈ call.called, (turn name).holds = true)

/-! ## Proofs -/

variable {raised : Raised} {backendName : Option String} {report : Report}

theorem onlyDuplicate_iff : OnlyDuplicate raised backendName report ↔ ReadsTrue raised report := by
  have reads := (normalizeBackendError_reads raised backendName).1
  unfold OnlyDuplicate ReadsTrue
  rw [← reads]
  cases normalizeBackendError raised backendName with
  | none => simp
  | some e => simp

/-- The records follow the success of a call, or a duplicate. -/
theorem recordsHeld_of_ends {turn : BackendId → SubmitTurn} {txHash : String}
    {call : RoutedCall String}
    (value : ∀ hash, call.result = .ok hash → ∃ name ∈ call.called, (turn name).holds = true)
    (duplicate : ∀ e, call.result = .error (.backendError e) →
      e.isTransactionAlreadySubmittedError = true →
        ∃ name ∈ call.called, (turn name).holds = true) :
    RecordsHeld turn txHash call := by
  unfold RecordsHeld submitAndFinalize submitWithAlreadyKnownTolerance
  cases ended : call.result with
  | ok hash => exact ⟨fun _ => value hash ended, fun _ => value hash ended⟩
  | error e =>
      cases e with
      | backendError e =>
          cases isDuplicate : e.isTransactionAlreadySubmittedError with
          | true => exact ⟨fun _ => duplicate e ended isDuplicate, fun _ => duplicate e ended isDuplicate⟩
          | false => simp [isDuplicate, Except.isOk, Except.toBool]
      | allBackendsFailedError e => simp [Except.isOk, Except.toBool]
      | allBackendsInitFailedError => simp [Except.isOk, Except.toBool]
      | error => simp [Except.isOk, Except.toBool]

/-- Where every usable backend's error reads truly, the records are true. -/
theorem recordsHeld {client : CardanoClient} {initialized : Bool} {turn : BackendId → SubmitTurn}
    {txHash : String}
    (reads : ∀ backend ∈ client.usable initialized turn, ∀ e,
      client.raised backend (turn backend.name).toTurn = some e →
        ReadsTrue e (turn backend.name).report) :
    RecordsHeld turn txHash (client.submitTransaction initialized turn) := by
  rcases @CardanoClient.submit_cases client initialized turn with
    ⟨before, last, after, result, split, -, isLast, same⟩ | ⟨-, -, notFinal, notValue⟩
  · have lastCalled : last.name ∈ (before ++ [last]).map CardanoBackend.name :=
      List.mem_map_of_mem (List.mem_append_right before List.mem_cons_self)
    have lastMem : last ∈ client.usable initialized turn :=
      split ▸ List.mem_append_right before List.mem_cons_self
    rw [same]
    cases isRaised : client.raised last (turn last.name).toTurn with
    | none =>
        obtain ⟨hash, isValue, -⟩ := CardanoClient.final?_of_not_raised isRaised
        have held := (turn last.name).accepted hash isValue
        exact recordsHeld_of_ends (fun _ _ => ⟨last.name, lastCalled, held⟩)
          fun _ _ _ => ⟨last.name, lastCalled, held⟩
    | some e =>
        rw [CardanoClient.callBackend_of_raised isRaised] at isLast
        refine recordsHeld_of_ends ?_ ?_
        · rintro hash rfl
          cases normalized : normalizeBackendError e (some last.name) with
          | none => rw [normalized] at isLast; cases isLast
          | some verdict =>
              rw [normalized] at isLast
              simp only [Attempt.final?] at isLast
              split at isLast <;> cases isLast
        · rintro verdict rfl isDuplicate
          cases normalized : normalizeBackendError e (some last.name) with
          | none => rw [normalized] at isLast; cases isLast
          | some other =>
              rw [normalized] at isLast
              simp only [Attempt.final?] at isLast
              split at isLast
              · cases isLast
                have known := onlyDuplicate_iff.mpr (reads last lastMem e isRaised) verdict
                  normalized isDuplicate
                exact ⟨last.name, lastCalled, (turn last.name).truthful known⟩
              · cases isLast
  · exact recordsHeld_of_ends (fun hash isValue => absurd isValue (notValue hash))
      fun e isError => absurd isError (notFinal e)

/-- Only a duplicate is normalized to one, exactly when what reads as a duplicate is one; and
then what is recorded as submitted is held. -/
theorem duplicate_iff (client : CardanoClient) (initialized : Bool)
    (turn : BackendId → SubmitTurn) (txHash : String) :
    (∀ raised backendName report,
        OnlyDuplicate raised backendName report ↔ ReadsTrue raised report) ∧
      ((∀ backend ∈ client.usable initialized turn, ∀ e,
          client.raised backend (turn backend.name).toTurn = some e →
            OnlyDuplicate e (some backend.name) (turn backend.name).report) ∧
          RecordsHeld turn txHash (client.submitTransaction initialized turn) ↔
        ∀ backend ∈ client.usable initialized turn, ∀ e,
          client.raised backend (turn backend.name).toTurn = some e →
            ReadsTrue e (turn backend.name).report) := by
  refine ⟨fun _ _ _ => onlyDuplicate_iff, ?_⟩
  constructor
  · rintro ⟨only, -⟩ backend backendMem e isRaised
    exact onlyDuplicate_iff.mp (only backend backendMem e isRaised)
  · intro reads
    exact ⟨fun backend backendMem e isRaised =>
      onlyDuplicate_iff.mpr (reads backend backendMem e isRaised), recordsHeld reads⟩

/-! A provider does not know an input of the transaction. -/

def unknownInput : Raised :=
  .other
    { isTypeError := false, message := .string "Unknown transaction input: missing from the UTxO set"
      code := none, data := none, status := some 400, response := none }

theorem ledgerVerdict_truthful : Report.ledgerVerdict = .alreadyKnown → false = true :=
  fun known => Report.noConfusion known

def unknownInputTurn (_ : BackendId) : SubmitTurn :=
  { circuits := fun _ => none, now := 0, uninitialized := false, init := .ok ()
    settlement := .raises unknownInput, report := .ledgerVerdict, holds := false
    accepted := nofun, truthful := ledgerVerdict_truthful }

theorem duplicate_unknownInput :
    normalizeBackendError unknownInput (some "koios") =
        some (.transactionAlreadySubmittedError "unknown") ∧
      ¬ OnlyDuplicate unknownInput (some "koios") .ledgerVerdict ∧
      submitAndFinalize (koiosAndRemote.submitTransaction true unknownInputTurn) = .submitted ∧
      ¬ RecordsHeld unknownInputTurn "ab"
        (koiosAndRemote.submitTransaction true unknownInputTurn) := by
  have normalized : normalizeBackendError unknownInput (some "koios") =
      some (.transactionAlreadySubmittedError "unknown") := by decide +kernel
  have recorded : submitAndFinalize (koiosAndRemote.submitTransaction true unknownInputTurn) =
      .submitted := by decide +kernel
  refine ⟨normalized, fun only => ?_, recorded, fun held => ?_⟩
  · cases only _ normalized rfl
  · obtain ⟨name, -, holds⟩ := held.1 recorded
    cases holds

end Odatano
