import Odatano.RoutedCalls

/-!
# Submissions

`submitTransaction` of `srv/blockchain/cardano-client.ts`: the first verdict on the
transaction is final, any other error goes on to the next backend.
-/

namespace Odatano

/-- What an error says, and of a backend whether it has the transaction. -/
inductive Report
  /-- This same transaction is in the mempool or on the chain. -/
  | alreadyKnown
  /-- The ledger refuses the transaction. -/
  | ledgerVerdict
  | rateLimited
  | authenticationFailed
  | transport
deriving DecidableEq

/-- The turn of a backend that is asked to submit a transaction, with what its error says
and whether the backend holds the transaction afterwards. -/
structure SubmitTurn extends Turn String where
  report : Report
  holds : Bool
  accepted : ∀ hash, settlement = .value hash → holds = true
  truthful : report = .alreadyKnown → holds = true

namespace CardanoClient

variable (client : CardanoClient)

def submitTransaction (initialized : Bool) (turn : BackendId → SubmitTurn) : RoutedCall String :=
  client.route "submitTransaction" initialized fun name => (turn name).toTurn

def isUsable (turn : BackendId → SubmitTurn) (backend : CardanoBackend) : Bool :=
  decide ("submitTransaction" ∉ backend.unsupportedMethods) &&
    !client.refused backend (turn backend.name).toTurn &&
      (!(turn backend.name).uninitialized ||
        match (turn backend.name).init with
        | .ok () => true
        | .error _ => false)

/-- The backends a submit can be made through, in their order.  There is none when all of
them failed to start. -/
def usable (initialized : Bool) (turn : BackendId → SubmitTurn) : List CardanoBackend :=
  if initialized then (client.allBackends true).filter (client.isUsable turn) else []

/-- The error that a backend's turn raises, timeouts included. -/
def raised (backend : CardanoBackend) (turn : Turn String) : Option Raised :=
  match withTimeout turn.settlement (client.getTimeoutForBackend backend) backend.name with
  | .ok _ => none
  | .error e => some e

/-! ## What is claimed of a submit -/

/-- The submit stops before a usable backend only on success, or on a verdict or a
duplicate of the transaction itself. -/
def StopsOnVerdict (initialized : Bool) (turn : BackendId → SubmitTurn)
    (call : RoutedCall String) : Prop :=
  (∃ backend ∈ client.usable initialized turn, backend.name ∉ call.called) →
    ∃ name, call.called.getLast? = some name ∧
      ((∃ hash, (turn name).settlement = .value hash) ∨
        (turn name).report = .alreadyKnown ∨ (turn name).report = .ledgerVerdict)

/-- A client error other than a duplicate is not reported of a transaction that a
called backend holds. -/
def RejectsUnheld (turn : BackendId → SubmitTurn) (call : RoutedCall String) : Prop :=
  ∀ e, call.result = .error (.backendError e) → e.isTransactionAlreadySubmittedError = false →
    ∀ name ∈ call.called, (turn name).holds = false

/-- A turn that leads on to the next backend. -/
def passes (turn : BackendId → SubmitTurn) (backend : CardanoBackend) : Bool :=
  (client.raised backend (turn backend.name).toTurn).any fun e =>
    !e.readsAsClientError && !e.isUnreadable

/-- The first error that is read as a client error, or cannot be read, is a verdict or a
duplicate unless no usable backend is left; and when it is read as another client error than
a duplicate, no backend asked so far holds the transaction. -/
def FirstVerdictTrue (initialized : Bool) (turn : BackendId → SubmitTurn) : Prop :=
  ∀ before last after, client.usable initialized turn = before ++ last :: after →
    (∀ backend ∈ before, client.passes turn backend = true) →
      ∀ e, client.raised last (turn last.name).toTurn = some e →
        (e.readsAsClientError = true ∨ e.isUnreadable = true →
          after = [] ∨ (turn last.name).report = .alreadyKnown ∨
            (turn last.name).report = .ledgerVerdict) ∧
          (e.readsAsClientError = true → e.readsAsDuplicate = false →
            ∀ backend ∈ before ++ [last], (turn backend.name).holds = false)

/-! ## Where a submit stops -/

variable {client : CardanoClient} {turn : BackendId → SubmitTurn} {backend : CardanoBackend}
  {t : Turn String} {e : Raised}

theorem final?_of_not_raised (none : client.raised backend t = none) :
    ∃ hash, t.settlement = .value hash ∧
      (client.callBackend backend t).final? true = some (.ok hash) := by
  unfold raised at none
  unfold callBackend
  cases settled : t.settlement with
  | value hash => exact ⟨hash, rfl, rfl⟩
  | raises e => rw [settled] at none; cases none
  | timesOut => rw [settled] at none; cases none

theorem callBackend_of_raised (isRaised : client.raised backend t = some e) :
    client.callBackend backend t =
      match normalizeBackendError e (some backend.name) with
      | some e => .failed e
      | none => .throws := by
  unfold raised at isRaised
  unfold callBackend
  cases answered : withTimeout t.settlement (client.getTimeoutForBackend backend) backend.name with
  | ok hash => rw [answered] at isRaised; cases isRaised
  | error raised =>
      rw [answered] at isRaised
      cases isRaised
      rfl

/-- A client error ends the submit, as the class it reads as. -/
theorem final?_of_readsAsClientError (isRaised : client.raised backend t = some e)
    (isClientError : e.readsAsClientError = true) :
    ∃ verdict, (client.callBackend backend t).final? true = some (.error (.backendError verdict)) ∧
      verdict.isTransactionAlreadySubmittedError = e.readsAsDuplicate := by
  obtain ⟨duplicate, client, -⟩ := normalizeBackendError_reads e (some backend.name)
  rw [callBackend_of_raised isRaised]
  cases normalized : normalizeBackendError e (some backend.name) with
  | none =>
      rw [normalized, isClientError] at client
      cases client
  | some verdict =>
      rw [normalized] at client duplicate
      have ends : verdict.isClientError = true := client.trans isClientError
      exact ⟨verdict, by simp only [Attempt.final?, ends, Bool.true_and, if_true], duplicate⟩

theorem final?_of_isUnreadable (isRaised : client.raised backend t = some e)
    (unreadable : e.isUnreadable = true) :
    (client.callBackend backend t).final? true = some (.error .error) := by
  obtain ⟨-, -, isNone⟩ := normalizeBackendError_reads e (some backend.name)
  rw [callBackend_of_raised isRaised]
  cases normalized : normalizeBackendError e (some backend.name) with
  | none => rfl
  | some verdict =>
      rw [normalized, unreadable] at isNone
      cases isNone

/-- Any other error leads on. -/
theorem final?_of_passes (isRaised : client.raised backend t = some e)
    (notClientError : e.readsAsClientError = false) (readable : e.isUnreadable = false) :
    (client.callBackend backend t).final? true = none := by
  obtain ⟨-, client, isNone⟩ := normalizeBackendError_reads e (some backend.name)
  rw [callBackend_of_raised isRaised]
  cases normalized : normalizeBackendError e (some backend.name) with
  | none =>
      rw [normalized, readable] at isNone
      cases isNone
  | some verdict =>
      rw [normalized] at client
      have passes : verdict.isClientError = false := client.trans notClientError
      simp only [Attempt.final?, passes, Bool.and_false, Bool.false_eq_true, if_false]

theorem attempt_of_isUsable (usable : client.isUsable turn backend = true) :
    client.attempt "submitTransaction" backend (turn backend.name).toTurn =
      client.callBackend backend (turn backend.name).toTurn := by
  simp only [isUsable, Bool.and_eq_true, Bool.or_eq_true, Bool.not_eq_true', decide_eq_true_eq]
    at usable
  obtain ⟨⟨supported, admitted⟩, initialized⟩ := usable
  rw [attempt_admitted supported admitted]
  rcases initialized with initialized | initOk
  · rw [initialized]
    rfl
  · cases init : (turn backend.name).init with
    | ok _ => simp only [ite_self]
    | error e => rw [init] at initOk; cases initOk

theorem attempt_of_not_isUsable (unusable : client.isUsable turn backend = false) :
    (client.attempt "submitTransaction" backend (turn backend.name).toTurn).final? true = none ∧
      (client.attempt "submitTransaction" backend (turn backend.name).toTurn).isCall = false := by
  by_cases supported : "submitTransaction" ∈ backend.unsupportedMethods
  · rw [attempt_unsupported supported]
    exact ⟨rfl, rfl⟩
  cases admitted : client.refused backend (turn backend.name).toTurn with
  | true =>
      rw [attempt_refused supported admitted]
      exact ⟨rfl, rfl⟩
  | false =>
      rw [attempt_admitted supported admitted]
      simp only [isUsable, supported, not_false_eq_true, decide_true, admitted, Bool.not_false,
        Bool.and_self, Bool.true_and, Bool.or_eq_false_iff, Bool.not_eq_false'] at unusable
      obtain ⟨uninitialized, initFails⟩ := unusable
      rw [uninitialized]
      cases init : (turn backend.name).init with
      | ok _ => rw [init] at initFails; cases initFails
      | error e => exact ⟨rfl, rfl⟩

/-- The log of a submit has the usable backends. -/
theorem flatMap_logged (backends : List CardanoBackend) :
    (backends.flatMap (client.logged "submitTransaction" fun name => (turn name).toTurn)) =
      (backends.filter (client.isUsable turn)).map CardanoBackend.name := by
  induction backends with
  | nil => rfl
  | cons backend rest ih =>
      rw [List.flatMap_cons, ih, List.filter_cons]
      unfold logged attemptOf
      cases usable : client.isUsable turn backend with
      | true => simp [attempt_of_isUsable usable, callBackend_spec.2.2]
      | false => simp [(attempt_of_not_isUsable usable).2]

/-- A usable backend that does not end the submit has raised an error that leads on. -/
theorem passes_of_final? (usable : client.isUsable turn backend = true)
    (leadsOn : (client.attempt "submitTransaction" backend
      (turn backend.name).toTurn).final? true = none) :
    client.passes turn backend = true := by
  rw [attempt_of_isUsable usable] at leadsOn
  unfold passes
  cases isRaised : client.raised backend (turn backend.name).toTurn with
  | none =>
      obtain ⟨hash, -, ends⟩ := final?_of_not_raised isRaised
      cases ends.symm.trans leadsOn
  | some e =>
      cases isClientError : e.readsAsClientError with
      | true =>
          obtain ⟨verdict, ends, -⟩ := final?_of_readsAsClientError isRaised isClientError
          cases ends.symm.trans leadsOn
      | false =>
          cases unreadable : e.isUnreadable with
          | true => cases (final?_of_isUnreadable isRaised unreadable).symm.trans leadsOn
          | false => simp [isClientError, unreadable]

/-- A turn that ends the submit does not lead on. -/
theorem not_passes_of_final? {result : Except ClientError String}
    (ends : (client.callBackend backend (turn backend.name).toTurn).final? true = some result) :
    client.passes turn backend = false := by
  unfold passes
  cases isRaised : client.raised backend (turn backend.name).toTurn with
  | none => rfl
  | some e =>
      cases isClientError : e.readsAsClientError with
      | true => simp [isClientError]
      | false =>
          cases unreadable : e.isUnreadable with
          | true => simp [unreadable]
          | false =>
              cases (final?_of_passes isRaised isClientError unreadable).symm.trans ends

/-- A submit asks the usable backends up to the first that does not lead on. -/
theorem submit_cases (initialized : Bool) (turn : BackendId → SubmitTurn) :
    (∃ before last after result,
        client.usable initialized turn = before ++ last :: after ∧
          (∀ backend ∈ before, client.passes turn backend = true) ∧
            (client.callBackend last (turn last.name).toTurn).final? true = some result ∧
              client.submitTransaction initialized turn =
                ⟨result, (before ++ [last]).map CardanoBackend.name⟩) ∨
      (∀ backend ∈ client.usable initialized turn, client.passes turn backend = true) ∧
        (client.submitTransaction initialized turn).called =
            (client.usable initialized turn).map CardanoBackend.name ∧
          (∀ e, (client.submitTransaction initialized turn).result ≠ .error (.backendError e)) ∧
            ∀ hash, (client.submitTransaction initialized turn).result ≠ .ok hash := by
  cases initialized with
  | false =>
      exact .inr ⟨fun _ backendMem => absurd backendMem List.not_mem_nil, rfl, nofun, nofun⟩
  | true =>
      have routed : client.submitTransaction true turn =
          client.tryBackends "submitTransaction" true (fun name => (turn name).toTurn)
            (client.allBackends true) [] [] [] := rfl
      rw [routed, usable, if_pos rfl]
      rcases @tryBackends_cases client String "submitTransaction" true
        (fun name => (turn name).toTurn) (client.allBackends true) [] [] [] with
        ⟨before, last, after, result, split, others, isLast, same⟩ | ⟨others, same⟩
      · have lastUsable : client.isUsable turn last = true := by
          by_contra unusable
          cases (attempt_of_not_isUsable (eq_false_of_ne_true unusable)).1.symm.trans isLast
        unfold attemptOf at isLast
        rw [attempt_of_isUsable lastUsable] at isLast
        refine .inl ⟨before.filter (client.isUsable turn), last,
          after.filter (client.isUsable turn), result, ?_, ?_, isLast, ?_⟩
        · rw [split, List.filter_append, List.filter_cons_of_pos lastUsable]
        · intro backend backendMem
          obtain ⟨inBefore, backendUsable⟩ := List.mem_filter.mp backendMem
          exact passes_of_final? backendUsable (others backend inBefore)
        · rw [same, flatMap_logged, List.map_append, List.nil_append]
          rfl
      · refine .inr ⟨?_, ?_, ?_, ?_⟩
        · intro backend backendMem
          obtain ⟨configured, backendUsable⟩ := List.mem_filter.mp backendMem
          exact passes_of_final? backendUsable (others backend configured)
        · rw [same, flatMap_logged]
          exact List.nil_append _
        · rw [same]
          exact nofun
        · rw [same]
          exact nofun

/-- The first element that does not pass splits a list in one way. -/
theorem first_split_unique {ρ : Type*} {p : ρ → Bool} {x y : ρ} {b d : List ρ}
    (isX : p x = false) (isY : p y = false) :
    ∀ {a c : List ρ}, a ++ x :: b = c ++ y :: d → (∀ z ∈ a, p z = true) → (∀ z ∈ c, p z = true) →
      a = c ∧ x = y ∧ b = d
  | [], [], same, _, _ => by
      rw [List.nil_append, List.nil_append, List.cons.injEq] at same
      exact ⟨rfl, same⟩
  | [], z :: c, same, _, others => by
      rw [List.nil_append, List.cons_append, List.cons.injEq] at same
      cases (others z List.mem_cons_self).symm.trans (same.1 ▸ isX)
  | z :: a, [], same, others, _ => by
      rw [List.nil_append, List.cons_append, List.cons.injEq] at same
      cases (others z List.mem_cons_self).symm.trans (same.1 ▸ isY)
  | z :: a, w :: c, same, first, second => by
      rw [List.cons_append, List.cons_append, List.cons.injEq] at same
      obtain ⟨rfl, same⟩ := same
      obtain ⟨rfl, rest⟩ := first_split_unique isX isY same
        (fun u uMem => first u (List.mem_cons_of_mem z uMem))
        fun u uMem => second u (List.mem_cons_of_mem z uMem)
      exact ⟨rfl, rest⟩

theorem nodup_usable (initialized : Bool) (turn : BackendId → SubmitTurn) :
    ((client.usable initialized turn).map CardanoBackend.name).Nodup := by
  unfold usable
  split
  · have all : ((client.allBackends true).map CardanoBackend.name).Nodup := client.distinct
    exact all.sublist (List.filter_sublist.map CardanoBackend.name)
  · exact List.nodup_nil

end CardanoClient

section Final

variable {client : CardanoClient} {initialized : Bool} {turn : BackendId → SubmitTurn}
  {before after : List CardanoBackend} {last : CardanoBackend} {e : Raised}

namespace CardanoClient

theorem not_passes_of_ends (isRaised : client.raised last (turn last.name).toTurn = some e)
    (ends : e.readsAsClientError = true ∨ e.isUnreadable = true) :
    client.passes turn last = false := by
  rw [passes, isRaised]
  rcases ends with isClientError | unreadable
  · simp [isClientError]
  · simp [unreadable]

theorem ends_of_final? {result : Except ClientError String}
    (isLast : (client.callBackend last (turn last.name).toTurn).final? true = some result)
    (isRaised : client.raised last (turn last.name).toTurn = some e) :
    e.readsAsClientError = true ∨ e.isUnreadable = true := by
  have notPasses := not_passes_of_final? isLast
  rw [passes, isRaised] at notPasses
  cases isClientError : e.readsAsClientError with
  | true => exact .inl rfl
  | false => simpa [isClientError] using notPasses

/-- A submit stops at the first backend whose error does not lead on to the next. -/
theorem submitTransaction_of_ends
    (split : client.usable initialized turn = before ++ last :: after)
    (passed : ∀ backend ∈ before, client.passes turn backend = true)
    (isRaised : client.raised last (turn last.name).toTurn = some e)
    (ends : e.readsAsClientError = true ∨ e.isUnreadable = true) :
    ∃ result, (client.callBackend last (turn last.name).toTurn).final? true = some result ∧
      client.submitTransaction initialized turn =
        ⟨result, (before ++ [last]).map CardanoBackend.name⟩ := by
  have notPasses := not_passes_of_ends isRaised ends
  rcases @submit_cases client initialized turn with
    ⟨before', last', after', result, split', passed', isLast, same⟩ | ⟨all, -⟩
  · obtain ⟨rfl, rfl, rfl⟩ := first_split_unique (not_passes_of_final? isLast) notPasses
      (split'.symm.trans split) passed' passed
    exact ⟨result, isLast, same⟩
  · have lastMem : last ∈ client.usable initialized turn :=
      split ▸ List.mem_append_right before List.mem_cons_self
    cases (all last lastMem).symm.trans notPasses

/-- A submit that stops only on success, a duplicate or a verdict, and rejects nothing that is
held, had a true verdict for its first client error. -/
theorem firstVerdictTrue_of_final
    (stops : client.StopsOnVerdict initialized turn (client.submitTransaction initialized turn))
    (rejects : RejectsUnheld turn (client.submitTransaction initialized turn)) :
    client.FirstVerdictTrue initialized turn := by
  intro before last after split passed e isRaised
  refine ⟨fun ends => ?_, fun isClientError notDuplicate => ?_⟩
  · obtain ⟨result, isLast, same⟩ := submitTransaction_of_ends split passed isRaised ends
    rw [same] at stops
    cases after with
    | nil => exact .inl rfl
    | cons next rest =>
        right
        have notCalled : next.name ∉ (before ++ [last]).map CardanoBackend.name := by
          have nodup := @nodup_usable client initialized turn
          rw [split, List.append_cons, List.map_append] at nodup
          exact fun mem => List.disjoint_of_nodup_append nodup mem List.mem_cons_self
        have nextMem : next ∈ client.usable initialized turn := by
          rw [split, List.append_cons]
          exact List.mem_append_right _ List.mem_cons_self
        obtain ⟨name, isName, verdict⟩ := stops ⟨next, nextMem, notCalled⟩
        rw [List.map_append, List.map_singleton, List.getLast?_concat] at isName
        cases isName
        refine verdict.resolve_left ?_
        rintro ⟨hash, isValue⟩
        unfold raised at isRaised
        rw [isValue] at isRaised
        cases isRaised
  · obtain ⟨result, isLast, same⟩ :=
      submitTransaction_of_ends split passed isRaised (.inl isClientError)
    obtain ⟨verdict, isVerdict, reads⟩ := final?_of_readsAsClientError isRaised isClientError
    rw [isLast] at isVerdict
    cases isVerdict
    intro backend backendMem
    rw [same] at rejects
    exact rejects verdict rfl (reads.trans notDuplicate) backend.name
      (List.mem_map_of_mem backendMem)

/-- The error with which a submit stops is reported of no transaction that a called backend
holds, if the verdict is true. -/
theorem rejectsUnheld_of_stop {result : Except ClientError String}
    (isLast : (client.callBackend last (turn last.name).toTurn).final? true = some result)
    (isRaised : client.raised last (turn last.name).toTurn = some e)
    (unheld : e.readsAsClientError = true → e.readsAsDuplicate = false →
      ∀ backend ∈ before ++ [last], (turn backend.name).holds = false) :
    RejectsUnheld turn ⟨result, (before ++ [last]).map CardanoBackend.name⟩ := by
  intro error isError notDuplicate name nameMem
  cases isClientError : e.readsAsClientError with
  | true =>
      obtain ⟨_, isVerdict, reads⟩ := final?_of_readsAsClientError isRaised isClientError
      rw [isLast] at isVerdict
      cases isVerdict
      cases isError
      obtain ⟨backend, backendMem, rfl⟩ := List.mem_map.mp nameMem
      exact unheld isClientError (reads.symm.trans notDuplicate) backend backendMem
  | false =>
      cases unreadable : e.isUnreadable with
      | true =>
          rw [final?_of_isUnreadable isRaised unreadable] at isLast
          cases isLast
          cases isError
      | false =>
          cases (final?_of_passes isRaised isClientError unreadable).symm.trans isLast

theorem final_of_firstVerdictTrue (verdicts : client.FirstVerdictTrue initialized turn) :
    client.StopsOnVerdict initialized turn (client.submitTransaction initialized turn) ∧
      RejectsUnheld turn (client.submitTransaction initialized turn) := by
  rcases @submit_cases client initialized turn with
    ⟨before, last, after, result, split, passed, isLast, same⟩ | ⟨-, called, notFinal, -⟩
  · rw [same]
    cases isRaised : client.raised last (turn last.name).toTurn with
    | none =>
        obtain ⟨hash, isValue, isHash⟩ := final?_of_not_raised isRaised
        rw [isLast] at isHash
        cases isHash
        exact ⟨fun _ => ⟨last.name, by simp, .inl ⟨hash, isValue⟩⟩, nofun⟩
    | some e =>
        obtain ⟨verdict, unheld⟩ := verdicts before last after split passed e isRaised
        refine ⟨?_, rejectsUnheld_of_stop isLast isRaised unheld⟩
        rintro ⟨backend, backendMem, notCalled⟩
        refine ⟨last.name, by simp,
          .inr ((verdict (ends_of_final? isLast isRaised)).resolve_left ?_)⟩
        rintro rfl
        rw [split] at backendMem
        exact notCalled (List.mem_map_of_mem backendMem)
  · refine ⟨?_, fun e isError => absurd isError (notFinal e)⟩
    rintro ⟨backend, backendMem, notCalled⟩
    rw [called] at notCalled
    exact absurd (List.mem_map_of_mem backendMem) notCalled

end CardanoClient

end Final

/-- A submit stops before the last usable backend only on success, a duplicate or a verdict on
the transaction, and rejects none that a called backend holds, exactly when its first
client error is a true verdict. -/
theorem submission_final_iff (client : CardanoClient) (initialized : Bool)
    (turn : BackendId → SubmitTurn) :
    (client.StopsOnVerdict initialized turn (client.submitTransaction initialized turn) ∧
        CardanoClient.RejectsUnheld turn (client.submitTransaction initialized turn)) ↔
      client.FirstVerdictTrue initialized turn :=
  ⟨fun ⟨stops, rejects⟩ => CardanoClient.firstVerdictTrue_of_final stops rejects,
    CardanoClient.final_of_firstVerdictTrue⟩

/-! Koios limits the rate, or takes the transaction and its answer is lost. -/

/-- A backend that is up and raises an error with some status. -/
def raisingTurn (message : String) (status : Option Int) (report : Report) (holds : Bool)
    (truthful : report = .alreadyKnown → holds = true) : SubmitTurn :=
  { circuits := fun _ => none
    now := 0
    uninitialized := false
    init := .ok ()
    settlement := .raises (.other
      { isTypeError := false, message := .string message, code := none, data := none, status
        response := none })
    report, holds, truthful, accepted := nofun }

/-- The remote instance would take the transaction. -/
def limitedTurns (name : BackendId) : SubmitTurn :=
  if name = "koios" then
    raisingTurn "Request failed with status code 429" (some 429) .rateLimited false nofun
  else
    { circuits := fun _ => none, now := 0, uninitialized := false, init := .ok ()
      settlement := .value "ab", report := .transport, holds := true
      accepted := fun _ _ => rfl, truthful := nofun }

/-- Koios has taken the transaction, and the remote finds its inputs spent. -/
def lostTurns (name : BackendId) : SubmitTurn :=
  if name = "koios" then
    { circuits := fun _ => none, now := 0, uninitialized := false, init := .ok ()
      settlement := .timesOut, report := .transport, holds := true
      accepted := nofun, truthful := nofun }
  else raisingTurn "BadInputsUTxO" (some 400) .ledgerVerdict false nofun

theorem submission_final_wrong :
    ((koiosAndRemote.submitTransaction true limitedTurns).called = ["koios"] ∧
        ¬ koiosAndRemote.StopsOnVerdict true limitedTurns
          (koiosAndRemote.submitTransaction true limitedTurns)) ∧
      (koiosAndRemote.submitTransaction true lostTurns).result =
          .error (.backendError
            (.transactionValidationError "BadInputsUTxO" .txValidationFailed)) ∧
        ¬ CardanoClient.RejectsUnheld lostTurns
          (koiosAndRemote.submitTransaction true lostTurns) := by
  have limited : (koiosAndRemote.submitTransaction true limitedTurns).called = ["koios"] := by
    decide +kernel
  have lost : (koiosAndRemote.submitTransaction true lostTurns).result =
      .error (.backendError (.transactionValidationError "BadInputsUTxO" .txValidationFailed)) := by
    decide +kernel
  refine ⟨⟨limited, fun stops => ?_⟩, lost, fun rejects => ?_⟩
  · obtain ⟨name, isName, verdict⟩ :=
      stops ⟨⟨"odatano", []⟩, by decide +kernel, by rw [limited]; decide⟩
    rw [limited] at isName
    cases isName
    rcases verdict with ⟨hash, isValue⟩ | isKnown | isVerdict
    · cases isValue
    · cases isKnown
    · cases isVerdict
  · have held := rejects _ lost rfl "koios" (by decide +kernel)
    cases held

end Odatano
