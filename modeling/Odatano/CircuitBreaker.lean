import Mathlib.Algebra.Order.Group.Nat
import Mathlib.Data.List.Count
import Odatano.SyncState

/-!
# The circuit breaker

`srv/blockchain/circuit-breaker.ts` under the calls of
`srv/blockchain/cardano-client.ts`.  A call through `callWithResilience` is a request
with one backend to try.  Calls interleave at their awaits, the clock of
`Date.now` shows any times.
-/

namespace Odatano

abbrev BackendId := String

inductive CircuitState
  | closed
  | open_
  | halfOpen
deriving DecidableEq

structure CircuitBreakerConfig where
  failureThreshold : Nat
  successThreshold : Nat
  resetTimeoutMs : Time
deriving DecidableEq

def CircuitBreakerConfig.default : CircuitBreakerConfig := ⟨5, 2, 30000⟩

structure CircuitEntry where
  state : CircuitState
  failures : Nat
  successes : Nat
  lastFailureTime : Time
  /-- Probe slots handed out while half-open. -/
  halfOpenProbes : Nat
deriving DecidableEq

/-- The circuits by backend; one without an entry is closed. -/
abbrev Circuits := BackendId → Option CircuitEntry

section Breaker

variable (config : CircuitBreakerConfig)

/-- Moves an open circuit to half-open once the reset timeout has elapsed, and caps
the probes of a half-open one. -/
def CircuitEntry.shouldAttempt (entry : CircuitEntry) (now : Time) : CircuitEntry × Bool :=
  match entry.state with
  | .closed => (entry, true)
  | .open_ =>
      if entry.lastFailureTime + config.resetTimeoutMs ≤ now then
        ({ entry with state := .halfOpen, successes := 0, halfOpenProbes := 1 }, true)
      else (entry, false)
  | .halfOpen =>
      if config.successThreshold ≤ entry.halfOpenProbes then (entry, false)
      else ({ entry with halfOpenProbes := entry.halfOpenProbes + 1 }, true)

/-- Record a successful call to a backend. -/
def CircuitEntry.recordSuccess (entry : CircuitEntry) : CircuitEntry :=
  match entry.state with
  | .halfOpen =>
      if config.successThreshold ≤ entry.successes + 1 then
        { entry with state := .closed, failures := 0, successes := 0, halfOpenProbes := 0 }
      else
        { entry with
          halfOpenProbes := entry.halfOpenProbes - 1
          successes := entry.successes + 1 }
  | .closed => { entry with failures := 0 }
  | .open_ => entry

/-- Record a failed call to a backend. -/
def CircuitEntry.recordFailure (entry : CircuitEntry) (now : Time) : CircuitEntry :=
  let failed := { entry with failures := entry.failures + 1, lastFailureTime := now }
  match entry.state with
  | .halfOpen => { failed with state := .open_, successes := 0, halfOpenProbes := 0 }
  | .closed =>
      if config.failureThreshold ≤ entry.failures + 1 then { failed with state := .open_ }
      else failed
  | .open_ => failed

def shouldAttempt (circuits : Circuits) (backend : BackendId) (now : Time) : Circuits × Bool :=
  match circuits backend with
  | none => (circuits, true)
  | some entry =>
      (Function.update circuits backend (entry.shouldAttempt config now).1,
        (entry.shouldAttempt config now).2)

def recordSuccess (circuits : Circuits) (backend : BackendId) : Circuits :=
  match circuits backend with
  | none => circuits
  | some entry => Function.update circuits backend (entry.recordSuccess config)

def recordFailure (circuits : Circuits) (backend : BackendId) (now : Time) : Circuits :=
  Function.update circuits backend
    (((circuits backend).getD ⟨.closed, 0, 0, 0, 0⟩).recordFailure config now)

end Breaker

/-- Whether the circuit of a backend is half-open. -/
def isHalfOpen (circuits : Circuits) (backend : BackendId) : Bool :=
  (circuits backend).any fun entry => decide (entry.state = .halfOpen)

/-! ## Calls -/

/-- How a call of a backend settles. -/
inductive CallOutcome
  | success
  /-- The status of the normalized error; a timeout has 503. -/
  | error (statusCode : Nat)
  | normalizationThrows
deriving DecidableEq

/-- A definitive verdict of a healthy backend. -/
def CallOutcome.isClientError : CallOutcome → Bool
  | .error statusCode => decide (400 ≤ statusCode) && decide (statusCode < 500)
  | _ => false

/-- What both call functions record of an outcome, and how often. -/
def CallOutcome.record (config : CircuitBreakerConfig) (outcome : CallOutcome)
    (circuits : Circuits) (backend : BackendId) (now : Time) : Circuits × Nat :=
  match outcome with
  | .success => (recordSuccess config circuits backend, 1)
  | .error statusCode =>
      if CallOutcome.isClientError (.error statusCode) then (circuits, 0)
      else (recordFailure config circuits backend now, 1)
  | .normalizationThrows => (circuits, 0)

/-- Where a request is: at the head of its loop, or in an await of an admitted call. -/
inductive RequestStage
  | choosing
  | initializing (backend : BackendId) (probe : Bool)
  | calling (backend : BackendId) (probe : Bool)
deriving DecidableEq

/-- A run of `executeWithPriority` or `callWithResilience`. -/
structure ClientRequest where
  methodName : Option String
  finalOnClientError : Bool
  /-- The backends that are still to be tried. -/
  rest : List BackendId
  stage : RequestStage
deriving DecidableEq

def executeWithPriority (methodName : Option String) (finalOnClientError : Bool)
    (allBackends : List BackendId) : ClientRequest :=
  ⟨methodName, finalOnClientError, allBackends, .choosing⟩

def callWithResilience (backend : BackendId) : ClientRequest := ⟨none, true, [backend], .choosing⟩

/-- The request after a call has settled: it ends, or tries the next backend. -/
def ClientRequest.settled (request : ClientRequest) (outcome : CallOutcome) : List ClientRequest :=
  match outcome with
  | .success | .normalizationThrows => []
  | .error _ =>
      if request.finalOnClientError && outcome.isClientError then []
      else [{ request with stage := .choosing }]

/-- A settled call: whether it was admitted half-open, and what it recorded. -/
structure SettledCall where
  backend : BackendId
  probe : Bool
  records : Nat
deriving DecidableEq

structure ClientState where
  circuits : Circuits
  uninitialized : List BackendId
  requests : List ClientRequest
  settled : List SettledCall

section Steps

variable (config : CircuitBreakerConfig) (unsupported : BackendId → String → Bool)
  (allowed : Bool → CallOutcome → Prop)

/-- Each call that settles must be `allowed` to, by whether it is a probe. -/
inductive ClientStep : ClientState → ClientState → Prop
  | priority (s : ClientState) (methodName : Option String) (finalOnClientError : Bool)
      (allBackends : List BackendId) :
      ClientStep s
        { s with
          requests := executeWithPriority methodName finalOnClientError allBackends :: s.requests }
  | resilient (s : ClientState) (backend : BackendId) :
      ClientStep s { s with requests := callWithResilience backend :: s.requests }
  -- the first `ensureInitialized`
  | initBackends (s : ClientState) (uninitialized : List BackendId) :
      ClientStep s { s with uninitialized }
  | skip (s : ClientState) (before after : List ClientRequest) (methodName : String)
      (final : Bool) (backend : BackendId) (rest : List BackendId)
      (inFlight : s.requests =
        before ++ ⟨some methodName, final, backend :: rest, .choosing⟩ :: after)
      (unable : unsupported backend methodName = true) :
      ClientStep s
        { s with requests := before ++ ⟨some methodName, final, rest, .choosing⟩ :: after }
  | refuse (s : ClientState) (before after : List ClientRequest) (methodName : Option String)
      (final : Bool) (backend : BackendId) (rest : List BackendId) (now : Time)
      (inFlight : s.requests = before ++ ⟨methodName, final, backend :: rest, .choosing⟩ :: after)
      (refused : (shouldAttempt config s.circuits backend now).2 = false) :
      ClientStep s
        { s with
          circuits := (shouldAttempt config s.circuits backend now).1
          requests := before ++ ⟨methodName, final, rest, .choosing⟩ :: after }
  | attempt (s : ClientState) (before after : List ClientRequest) (methodName : Option String)
      (final : Bool) (backend : BackendId) (rest : List BackendId) (now : Time) (probe : Bool)
      (inFlight : s.requests = before ++ ⟨methodName, final, backend :: rest, .choosing⟩ :: after)
      (able : ∀ name, methodName = some name → unsupported backend name = false)
      (admitted : (shouldAttempt config s.circuits backend now).2 = true)
      (isProbe : isHalfOpen (shouldAttempt config s.circuits backend now).1 backend = probe) :
      ClientStep s
        { s with
          circuits := (shouldAttempt config s.circuits backend now).1
          requests :=
            before ++
              ⟨methodName, final, rest,
                if backend ∈ s.uninitialized then .initializing backend probe
                else .calling backend probe⟩ :: after }
  | initSucceeds (s : ClientState) (before after : List ClientRequest)
      (methodName : Option String) (final : Bool) (backend : BackendId) (rest : List BackendId)
      (probe : Bool)
      (inFlight : s.requests =
        before ++ ⟨methodName, final, rest, .initializing backend probe⟩ :: after) :
      ClientStep s
        { s with
          uninitialized := s.uninitialized.filter fun other => decide (other ≠ backend)
          requests := before ++ ⟨methodName, final, rest, .calling backend probe⟩ :: after }
  | initFails (s : ClientState) (before after : List ClientRequest)
      (methodName : Option String) (final : Bool) (backend : BackendId) (rest : List BackendId)
      (probe : Bool) (now : Time)
      (inFlight : s.requests =
        before ++ ⟨methodName, final, rest, .initializing backend probe⟩ :: after) :
      ClientStep s
        { s with
          circuits := recordFailure config s.circuits backend now
          requests := before ++ ⟨methodName, final, rest, .choosing⟩ :: after
          settled := ⟨backend, probe, 1⟩ :: s.settled }
  | settle (s : ClientState) (before after : List ClientRequest) (request : ClientRequest)
      (backend : BackendId) (probe : Bool) (outcome : CallOutcome) (now : Time)
      (inFlight : s.requests = before ++ request :: after)
      (calling : request.stage = .calling backend probe) (may : allowed probe outcome) :
      ClientStep s
        { s with
          circuits := (outcome.record config s.circuits backend now).1
          requests := before ++ request.settled outcome ++ after
          settled := ⟨backend, probe, (outcome.record config s.circuits backend now).2⟩ :: s.settled }
  -- `AllBackendsFailedError`
  | exhausted (s : ClientState) (before after : List ClientRequest) (methodName : Option String)
      (final : Bool) (inFlight : s.requests = before ++ ⟨methodName, final, [], .choosing⟩ :: after) :
      ClientStep s { s with requests := before ++ after }

def ClientState.start : ClientState := ⟨fun _ => none, [], [], []⟩

inductive ClientRun : ClientState → Prop
  | start : ClientRun .start
  | step {s s' : ClientState} (before : ClientRun s)
      (step : ClientStep config unsupported allowed s s') : ClientRun s'

end Steps

/-! ## What is claimed of the probes -/

def RequestStage.isProbeOf (backend : BackendId) : RequestStage → Bool
  | .choosing => false
  | .initializing other probe | .calling other probe => decide (other = backend) && probe

/-- The calls of a backend in flight that were admitted half-open. -/
def ClientState.probes (s : ClientState) (backend : BackendId) : Nat :=
  s.requests.countP fun request => request.stage.isProbeOf backend

/-- Each settled probe recorded one success or failure. -/
def ClientState.Matched (s : ClientState) : Prop :=
  ∀ call ∈ s.settled, call.probe = true → call.records = 1

/-- A backend without a probe in flight is asked again once the reset timeout is over. -/
def ClientState.Recovers (config : CircuitBreakerConfig) (s : ClientState) : Prop :=
  ∀ backend entry, s.circuits backend = some entry → s.probes backend = 0 →
    ∀ now, entry.lastFailureTime + config.resetTimeoutMs ≤ now →
      (shouldAttempt config s.circuits backend now).2 = true

/-- A probe settles with an outcome that is recorded. -/
def ProbesRecorded (probe : Bool) (outcome : CallOutcome) : Prop :=
  probe = true → outcome.isClientError = false ∧ outcome ≠ .normalizationThrows

/-! ## What every run keeps -/

/-- The slots of a half-open circuit, against the probes in flight. -/
def CircuitEntry.SlotsHeld (config : CircuitBreakerConfig) (entry : CircuitEntry) (probes : Nat) :
    Prop :=
  entry.state = .halfOpen →
    entry.halfOpenProbes ≤ probes ∧ (config.successThreshold = 0 → probes ≠ 0)

structure ProbesSound (config : CircuitBreakerConfig) (s : ClientState) : Prop where
  matched : s.Matched
  slots : ∀ backend entry, s.circuits backend = some entry →
    entry.SlotsHeld config (s.probes backend)

section Proofs

variable {config : CircuitBreakerConfig} {unsupported : BackendId → String → Bool}

namespace CircuitEntry

variable {entry : CircuitEntry} {probes : Nat}

theorem SlotsHeld.shouldAttempt (held : entry.SlotsHeld config probes) (now : Time) :
    (entry.shouldAttempt config now).1.SlotsHeld config
      (if (entry.shouldAttempt config now).2 ∧ (entry.shouldAttempt config now).1.state = .halfOpen
        then probes + 1 else probes) := by
  intro isHalfOpen
  rw [CircuitEntry.shouldAttempt] at isHalfOpen ⊢
  split at isHalfOpen
  · rename_i closed
    cases closed.symm.trans isHalfOpen
  · split at isHalfOpen
    · rename_i elapsed
      simp only [if_pos elapsed, and_self, if_true]
      exact ⟨Nat.le_add_left 1 probes, fun _ => Nat.succ_ne_zero probes⟩
    · rename_i isOpen _
      cases isOpen.symm.trans isHalfOpen
  · rename_i wasHalfOpen
    obtain ⟨bound, positive⟩ := held wasHalfOpen
    split
    · simp only [Bool.false_eq_true, false_and, if_false]
      exact ⟨bound, positive⟩
    · simp only [wasHalfOpen, and_self, if_true]
      exact ⟨Nat.succ_le_succ bound, fun _ => Nat.succ_ne_zero probes⟩

/-- A success gives back one slot and leaves half-open when it is enough. -/
theorem SlotsHeld.recordSuccess (held : entry.SlotsHeld config probes) {left : Nat}
    (settled : probes ≤ left + 1) : (entry.recordSuccess config).SlotsHeld config left := by
  intro isHalfOpen
  rw [CircuitEntry.recordSuccess] at isHalfOpen ⊢
  split
  · rename_i wasHalfOpen
    have bound := (held wasHalfOpen).1
    split
    · rename_i enough
      simp only [wasHalfOpen, if_pos enough] at isHalfOpen
      cases isHalfOpen
    · rename_i notEnough
      exact ⟨by dsimp only; omega, fun zero => absurd (zero ▸ Nat.zero_le _) notEnough⟩
  · rename_i closed
    simp only [closed] at isHalfOpen
    cases isHalfOpen
  · rename_i isOpen
    simp only [isOpen] at isHalfOpen
    cases isHalfOpen

theorem state_recordFailure_ne (entry : CircuitEntry) (now : Time) :
    (entry.recordFailure config now).state ≠ .halfOpen := by
  rw [CircuitEntry.recordFailure]
  split
  · exact nofun
  · rename_i closed
    split
    · exact nofun
    · exact closed ▸ nofun
  · rename_i isOpen
    exact isOpen ▸ nofun

/-- With no slot handed out the next call after the timeout is admitted. -/
theorem SlotsHeld.admits (held : entry.SlotsHeld config 0) {now : Time}
    (elapsed : entry.lastFailureTime + config.resetTimeoutMs ≤ now) :
    (entry.shouldAttempt config now).2 = true := by
  rw [CircuitEntry.shouldAttempt]
  split
  · rfl
  · rw [if_pos elapsed]
  · rename_i isHalfOpen
    obtain ⟨bound, positive⟩ := held isHalfOpen
    have notZero : config.successThreshold ≠ 0 := fun zero => positive zero rfl
    rw [if_neg (by omega)]

end CircuitEntry

/-! ### The circuits of all backends -/

section AllBackends

variable {circuits : Circuits} {count count' : BackendId → Nat} {backend : BackendId}

theorem slotsHeld_shouldAttempt
    (slots : ∀ b entry, circuits b = some entry → entry.SlotsHeld config (count b)) (now : Time)
    (others : ∀ b, b ≠ backend → count' b = count b)
    (taken : count' backend =
      if (shouldAttempt config circuits backend now).2 ∧
        isHalfOpen (shouldAttempt config circuits backend now).1 backend then count backend + 1
      else count backend) :
    ∀ b entry, (shouldAttempt config circuits backend now).1 b = some entry →
      entry.SlotsHeld config (count' b) := by
  intro b entry stored
  rw [shouldAttempt] at stored taken
  split at stored
  · rename_i absent
    have different : b ≠ backend := by
      rintro rfl
      cases absent.symm.trans stored
    exact others b different ▸ slots b entry stored
  · rename_i old found
    by_cases same : b = backend
    · subst same
      simp only [Function.update_self, Option.some.injEq] at stored
      subst stored
      have held := (slots b old found).shouldAttempt now
      simp only [found, isHalfOpen, Function.update_self, Option.any_some,
        decide_eq_true_eq] at taken
      rwa [taken]
    · simp only [Function.update_of_ne same] at stored
      exact others b same ▸ slots b entry stored

theorem slotsHeld_recordSuccess
    (slots : ∀ b entry, circuits b = some entry → entry.SlotsHeld config (count b))
    (others : ∀ b, b ≠ backend → count' b = count b)
    (released : count backend ≤ count' backend + 1) :
    ∀ b entry, recordSuccess config circuits backend b = some entry →
      entry.SlotsHeld config (count' b) := by
  intro b entry stored
  cases found : circuits backend with
  | none =>
      simp only [recordSuccess, found] at stored
      have different : b ≠ backend := by
        rintro rfl
        cases found.symm.trans stored
      exact others b different ▸ slots b entry stored
  | some old =>
      simp only [recordSuccess, found] at stored
      by_cases same : b = backend
      · subst same
        rw [Function.update_self, Option.some.injEq] at stored
        exact stored ▸ (slots b old found).recordSuccess released
      · rw [Function.update_of_ne same] at stored
        exact others b same ▸ slots b entry stored

theorem slotsHeld_recordFailure
    (slots : ∀ b entry, circuits b = some entry → entry.SlotsHeld config (count b)) (now : Time)
    (others : ∀ b, b ≠ backend → count' b = count b) :
    ∀ b entry, recordFailure config circuits backend now b = some entry →
      entry.SlotsHeld config (count' b) := by
  intro b entry stored
  rw [recordFailure] at stored
  by_cases same : b = backend
  · subst same
    rw [Function.update_self, Option.some.injEq] at stored
    intro isHalfOpen
    exact absurd isHalfOpen (stored ▸ CircuitEntry.state_recordFailure_ne _ now)
  · rw [Function.update_of_ne same] at stored
    exact others b same ▸ slots b entry stored

end AllBackends

/-- Replacing a request in flight changes the count by what it and its successors probe. -/
theorem probes_replace {s : ClientState} {before after : List ClientRequest}
    {request : ClientRequest} (inFlight : s.requests = before ++ request :: after)
    (next : List ClientRequest) (backend : BackendId) :
    (before ++ (next ++ after)).countP (fun r => r.stage.isProbeOf backend) +
        (if request.stage.isProbeOf backend then 1 else 0) =
      s.probes backend + next.countP fun r => r.stage.isProbeOf backend := by
  rw [ClientState.probes, inFlight]
  simp only [List.countP_append, List.countP_cons]
  omega

theorem countP_settled (request : ClientRequest) (outcome : CallOutcome) (backend : BackendId) :
    (request.settled outcome).countP (fun r => r.stage.isProbeOf backend) = 0 := by
  cases outcome with
  | success => rfl
  | normalizationThrows => rfl
  | error statusCode =>
      simp only [ClientRequest.settled]
      split <;> rfl

/-- What is recorded of an outcome keeps the slots of the probes that are left. -/
theorem slotsHeld_record {circuits : Circuits} {count count' : BackendId → Nat}
    {backend : BackendId} {probe : Bool} {outcome : CallOutcome}
    (recorded : ProbesRecorded probe outcome)
    (slots : ∀ b entry, circuits b = some entry → entry.SlotsHeld config (count b)) (now : Time)
    (others : ∀ b, b ≠ backend → count' b = count b)
    (released : count backend = count' backend + if probe then 1 else 0) :
    (∀ b entry, (outcome.record config circuits backend now).1 b = some entry →
      entry.SlotsHeld config (count' b)) ∧
        (probe = true → (outcome.record config circuits backend now).2 = 1) := by
  have unrecorded (notProbe : probe = false) : ∀ b entry, circuits b = some entry →
      entry.SlotsHeld config (count' b) := by
    intro b entry stored
    have same : count' b = count b := by
      by_cases isBackend : b = backend
      · subst isBackend
        simpa [notProbe] using released.symm
      · exact others b isBackend
    exact same ▸ slots b entry stored
  cases outcome with
  | success =>
      refine ⟨slotsHeld_recordSuccess slots others ?_, fun _ => rfl⟩
      split at released <;> omega
  | error statusCode =>
      rw [CallOutcome.record]
      split
      · rename_i clientError
        have notProbe : probe = false := by
          by_contra isProbe
          cases (recorded (eq_true_of_ne_false isProbe)).1.symm.trans clientError
        exact ⟨unrecorded notProbe, fun isProbe => by cases notProbe.symm.trans isProbe⟩
      · exact ⟨slotsHeld_recordFailure slots now others, fun _ => rfl⟩
  | normalizationThrows =>
      have notProbe : probe = false := by
        by_contra isProbe
        exact (recorded (eq_true_of_ne_false isProbe)).2 rfl
      exact ⟨unrecorded notProbe, fun isProbe => by cases notProbe.symm.trans isProbe⟩

/-! ### Runs -/

variable {s s' : ClientState}

theorem ClientStep.probesSound (step : ClientStep config unsupported ProbesRecorded s s')
    (sound : ProbesSound config s) : ProbesSound config s' := by
  -- the circuits stay and so do the probes in flight
  have unchanged {before after : List ClientRequest} {request : ClientRequest}
      (inFlight : s.requests = before ++ request :: after) (next : List ClientRequest)
      (sameProbes : ∀ backend, (next.countP fun r => r.stage.isProbeOf backend) =
        if request.stage.isProbeOf backend then 1 else 0) :
      ProbesSound config { s with requests := before ++ (next ++ after) } := by
    refine ⟨sound.matched, fun b entry stored => ?_⟩
    have counts := probes_replace inFlight next b
    have same : ClientState.probes { s with requests := before ++ (next ++ after) } b =
        s.probes b :=
      Nat.add_right_cancel (counts.trans (congrArg (s.probes b + ·) (sameProbes b)))
    rw [same]
    exact sound.slots b entry stored
  cases step with
  | priority methodName final allBackends => exact ⟨sound.matched, sound.slots⟩
  | resilient backend => exact ⟨sound.matched, sound.slots⟩
  | initBackends uninitialized => exact ⟨sound.matched, sound.slots⟩
  | skip before after methodName final backend rest inFlight unable =>
      exact unchanged inFlight [⟨some methodName, final, rest, .choosing⟩] fun _ => rfl
  | refuse before after methodName final backend rest now inFlight refused =>
      have kept := unchanged inFlight [⟨methodName, final, rest, .choosing⟩] fun _ => rfl
      refine ⟨sound.matched, slotsHeld_shouldAttempt kept.slots now (fun _ _ => rfl) ?_⟩
      simp only [refused, Bool.false_eq_true, false_and, if_false]
      rfl
  | attempt before after methodName final backend rest now probe inFlight able admitted isProbe =>
      let next : ClientRequest :=
        ⟨methodName, final, rest,
          if backend ∈ s.uninitialized then .initializing backend probe
          else .calling backend probe⟩
      have nextProbes (b : BackendId) :
          next.stage.isProbeOf b = (decide (backend = b) && probe) := by
        simp only [next]
        split <;> rfl
      have counts (b : BackendId) :
          (before ++ next :: after).countP (fun r => r.stage.isProbeOf b) =
            s.probes b + if decide (backend = b) && probe then 1 else 0 := by
        have replaced := probes_replace inFlight [next] b
        simp only [List.countP_singleton, nextProbes] at replaced
        exact replaced
      refine ⟨sound.matched, slotsHeld_shouldAttempt sound.slots now ?_ ?_⟩
      · intro b different
        refine (counts b).trans ?_
        simp only [different.symm, decide_false, Bool.false_and, Bool.false_eq_true, if_false,
          Nat.add_zero]
      · refine (counts backend).trans ?_
        simp only [admitted, isProbe, decide_true, Bool.true_and, true_and]
        split <;> rfl
  | initSucceeds before after methodName final backend rest probe inFlight =>
      refine ⟨sound.matched,
        (unchanged inFlight [⟨methodName, final, rest, .calling backend probe⟩] fun b => ?_).slots⟩
      rw [List.countP_singleton]
      rfl
  | initFails before after methodName final backend rest probe now inFlight =>
      refine ⟨?_, slotsHeld_recordFailure sound.slots now fun b different => ?_⟩
      · intro call callMem isProbe
        rcases List.mem_cons.mp callMem with rfl | old
        · rfl
        · exact sound.matched call old isProbe
      · have counts := probes_replace inFlight [⟨methodName, final, rest, .choosing⟩] b
        have notProbe : RequestStage.isProbeOf b (.initializing backend probe) = false := by
          simp only [RequestStage.isProbeOf, different.symm, decide_false, Bool.false_and]
        rw [notProbe] at counts
        exact counts
  | settle before after request backend probe outcome now inFlight calling may =>
      have counts (b : BackendId) :
          s.probes b =
            (before ++ request.settled outcome ++ after).countP (fun r => r.stage.isProbeOf b) +
              if decide (backend = b) && probe then 1 else 0 := by
        have replaced := probes_replace inFlight (request.settled outcome) b
        rw [countP_settled, calling, ← List.append_assoc] at replaced
        exact replaced.symm
      let left : BackendId → Nat := fun b =>
        (before ++ request.settled outcome ++ after).countP fun r => r.stage.isProbeOf b
      have others : ∀ b, b ≠ backend → left b = s.probes b := by
        intro b different
        have kept := counts b
        simp only [different.symm, decide_false, Bool.false_and, Bool.false_eq_true, if_false,
          Nat.add_zero] at kept
        exact kept.symm
      have released : s.probes backend = left backend + if probe then 1 else 0 := by
        simpa only [decide_true, Bool.true_and] using counts backend
      obtain ⟨slots, matched⟩ := slotsHeld_record may sound.slots now others released
      refine ⟨?_, slots⟩
      intro call callMem isProbe
      rcases List.mem_cons.mp callMem with rfl | old
      · exact matched isProbe
      · exact sound.matched call old isProbe
  | exhausted before after methodName final inFlight => exact unchanged inFlight [] fun _ => rfl

theorem ClientRun.probesSound (run : ClientRun config unsupported ProbesRecorded s) :
    ProbesSound config s := by
  induction run with
  | start =>
      exact ⟨fun _ callMem => absurd callMem List.not_mem_nil, fun _ _ stored => nomatch stored⟩
  | step before step ih => exact step.probesSound ih

/-- Where every probe settles with an outcome that is recorded, each settled probe
recorded once, and a backend with no probe in flight is asked again. -/
theorem circuitBreaker_probesReturned (run : ClientRun config unsupported ProbesRecorded s) :
    s.Matched ∧ s.Recovers config := by
  have sound := run.probesSound
  refine ⟨sound.matched, fun backend entry stored noProbes now elapsed => ?_⟩
  rw [shouldAttempt, stored]
  have held := sound.slots backend entry stored
  rw [noProbes] at held
  exact held.admits elapsed

end Proofs

/-! A backend fails five times and is probed after the reset timeout. -/

section Probing

variable {allowed : Bool → CallOutcome → Prop}

/-- A call of a closed circuit fails with a timeout. -/
theorem ClientRun.timesOut {config : CircuitBreakerConfig} {circuits : Circuits}
    {settled : List SettledCall} (mayFail : allowed false (.error 503))
    (run : ClientRun config (fun _ _ => false) allowed ⟨circuits, [], [], settled⟩)
    (noProbes : ∀ call ∈ settled, call.probe = false) {entry : CircuitEntry}
    (isEntry : (circuits "koios").getD ⟨.closed, 0, 0, 0, 0⟩ = entry)
    (closed : entry.state = .closed) :
    ∃ circuits' settled', ClientRun config (fun _ _ => false) allowed ⟨circuits', [], [], settled'⟩ ∧
      (∀ call ∈ settled', call.probe = false) ∧
        circuits' "koios" = some (entry.recordFailure config 0) := by
  have admits : (shouldAttempt config circuits "koios" 0).2 = true ∧
      (shouldAttempt config circuits "koios" 0).1 "koios" = circuits "koios" := by
    cases stored : circuits "koios" with
    | none => simp only [shouldAttempt, stored, and_self]
    | some old =>
        rw [stored, Option.getD_some] at isEntry
        simp only [shouldAttempt, stored, CircuitEntry.shouldAttempt, isEntry, closed,
          Function.update_self, and_self]
  obtain ⟨admitted, same⟩ := admits
  have notHalfOpen : isHalfOpen (shouldAttempt config circuits "koios" 0).1 "koios" = false := by
    rw [isHalfOpen, same]
    cases stored : circuits "koios" with
    | none => rfl
    | some old =>
        rw [stored, Option.getD_some] at isEntry
        simp [isEntry, closed]
  refine ⟨_, _, (((run.step (.resilient _ "koios")).step
    (.attempt _ [] [] none true "koios" [] 0 false rfl nofun admitted notHalfOpen)).step
    (.settle _ [] [] ⟨none, true, [], .calling "koios" false⟩ "koios" false (.error 503) 0 rfl rfl
      mayFail)).step (.exhausted _ [] [] none true rfl), ?_, ?_⟩
  · intro call callMem
    rcases List.mem_cons.mp callMem with rfl | old
    · rfl
    · exact noProbes call old
  · change recordFailure config (shouldAttempt config circuits "koios" 0).1 "koios" 0 "koios" = _
    rw [recordFailure, Function.update_self, same, isEntry]

def probingCall : ClientRequest := ⟨none, true, [], .calling "koios" true⟩

/-- Five failures open the circuit, and two calls are admitted half-open. -/
theorem client_probing (mayFail : allowed false (.error 503)) :
    ∃ circuits settled, ClientRun .default (fun _ _ => false) allowed
        ⟨circuits, [], [probingCall, probingCall], settled⟩ ∧
      (∀ call ∈ settled, call.probe = false) ∧
        circuits "koios" = some ⟨.halfOpen, 5, 0, 0, 2⟩ := by
  obtain ⟨c, l, run, noProbes, one⟩ :=
    @ClientRun.timesOut allowed .default _ _ mayFail .start
      (fun _ callMem => absurd callMem List.not_mem_nil) _ rfl rfl
  obtain ⟨c, l, run, noProbes, two⟩ := run.timesOut mayFail noProbes (by rw [one]) rfl
  obtain ⟨c, l, run, noProbes, three⟩ := run.timesOut mayFail noProbes (by rw [two]) rfl
  obtain ⟨c, l, run, noProbes, four⟩ := run.timesOut mayFail noProbes (by rw [three]) rfl
  obtain ⟨c, l, run, noProbes, five⟩ := run.timesOut mayFail noProbes (by rw [four]) rfl
  have opened : c "koios" = some ⟨.open_, 5, 0, 0, 0⟩ := five
  have first : shouldAttempt .default c "koios" 40000 =
      (Function.update c "koios" (some ⟨.halfOpen, 5, 0, 0, 1⟩), true) := by
    rw [shouldAttempt, opened]
    rfl
  have second : shouldAttempt .default
      (Function.update c "koios" (some ⟨.halfOpen, 5, 0, 0, 1⟩)) "koios" 40000 =
      (Function.update c "koios" (some ⟨.halfOpen, 5, 0, 0, 2⟩), true) := by
    rw [shouldAttempt, Function.update_self]
    simp only [CircuitEntry.shouldAttempt, Function.update_idem]
    rfl
  have one := (run.step (.resilient _ "koios")).step
    (.attempt _ [] [] none true "koios" [] 40000 true rfl nofun (by rw [first])
      (by rw [first]; simp [isHalfOpen]))
  rw [first] at one
  have two := (one.step (.resilient _ "koios")).step
    (.attempt _ [] [probingCall] none true "koios" [] 40000 true rfl nofun (by rw [second])
      (by rw [second]; simp [isHalfOpen]))
  rw [second] at two
  refine ⟨_, l, two, noProbes, ?_⟩
  dsimp only
  exact Function.update_self ..

theorem circuitBreaker_probesReturned_sample :
    ∃ s : ClientState, s.circuits "koios" = some ⟨.halfOpen, 5, 1, 0, 1⟩ ∧
      s.settled.head? = some ⟨"koios", true, 1⟩ ∧ s.requests = [probingCall] ∧
        s.Matched ∧ s.Recovers .default := by
  obtain ⟨circuits, settled, run, noProbes, halfOpen⟩ := @client_probing ProbesRecorded nofun
  have answered := run.step (.settle _ [] [probingCall] probingCall "koios" true .success 0 rfl rfl
    fun _ => ⟨rfl, nofun⟩)
  refine ⟨_, ?_, ?_, ?_, circuitBreaker_probesReturned answered⟩
  · change recordSuccess .default circuits "koios" "koios" = _
    rw [recordSuccess, halfOpen]
    exact Function.update_self ..
  · rfl
  · rfl

/-- Both probes are answered with 404 and keep their slots for good. -/
theorem circuitBreaker_probesLeaked :
    ∃ s, ClientRun .default (fun _ _ => false) (fun _ _ => True) s ∧ s.requests = [] ∧
      (∀ now, (shouldAttempt .default s.circuits "koios" now).2 = false) ∧
        ¬ (s.Matched ∧ s.Recovers .default) := by
  obtain ⟨circuits, settled, run, noProbes, halfOpen⟩ := @client_probing (fun _ _ => True) trivial
  have answered := (run.step (.settle _ [] [probingCall] probingCall "koios" true (.error 404) 0 rfl
    rfl trivial)).step (.settle _ [] [] probingCall "koios" true (.error 404) 0 rfl rfl trivial)
  refine ⟨_, answered, rfl, ?_, fun both => ?_⟩
  · intro now
    change (shouldAttempt .default circuits "koios" now).2 = false
    rw [shouldAttempt, halfOpen]
    rfl
  · exact absurd (both.1 ⟨"koios", true, 0⟩ List.mem_cons_self rfl) nofun

end Probing

end Odatano
