import Mathlib.Data.List.Basic

/-!
# Detached transactions

`srv/utils/tx-utils.ts`: `detachedTx` races a root transaction against a timer that bounds only
the wait for its connection.
-/

namespace Odatano

/-- What the promises of a detached transaction are rejected with. -/
inductive DetachedTxError (E : Type)
  | acquire (error : E)
  | work (error : E)
  | commit (error : E)
  /-- `DetachedTxAbortedError`. -/
  | aborted (label : String)
  /-- The `BackendError` of the guard. -/
  | nestedTxTimeout (message : String) (statusCode : Nat) (code : String)
deriving DecidableEq

/-- How far the callback of `cds.tx` and the transaction around it are. -/
inductive TxPhase (T E : Type)
  | acquiring
  | working
  | committing (value : T)
  | rollingBack (error : DetachedTxError E)
  | ended (outcome : Except (DetachedTxError E) T)

inductive TimerPhase
  | armed
  | fired
  | cleared
deriving DecidableEq

/-- A call of `detachedTx`, from the moment it awaits the race. -/
structure DetachedTx (T E : Type) where
  label : String
  effectiveTimeout : Nat
  phase : TxPhase T E
  timedOut : Bool
  timer : TimerPhase
  /-- Calls of the work function. -/
  calls : Nat
  commits : Nat
  /-- Settlements of `work` and `guard` that the race has not seen yet, oldest first. -/
  settled : List (Except (DetachedTxError E) T)
  race : Option (Except (DetachedTxError E) T)
  /-- What the caller received. -/
  caller : Option (Except (DetachedTxError E) T)

namespace DetachedTx

variable {T E : Type}

def start (label : String) (effectiveTimeout : Nat) : DetachedTx T E where
  label := label
  effectiveTimeout := effectiveTimeout
  phase := .acquiring
  timedOut := false
  timer := .armed
  calls := 0
  commits := 0
  settled := []
  race := none
  caller := none

def timeoutError (s : DetachedTx T E) : DetachedTxError E :=
  .nestedTxTimeout (s.label ++ ": could not begin a detached DB transaction within " ++
    toString s.effectiveTimeout ++ "ms. Most likely the calling request still holds the pooled " ++
    "DB connection open (in-process nested call: do not await this action while your request " ++
    "transaction is open; detach your reads into a committed cds.tx first). Alternatively the " ++
    "connection pool is exhausted.") 503 "ODATANO_NESTED_TX_TIMEOUT"

/-- `clearTimeout` of a timer that has not fired. -/
def clearTimeout (s : DetachedTx T E) : TimerPhase :=
  if s.timer = .armed then .cleared else s.timer

/-- The callback of the timer. -/
def fireTimer (s : DetachedTx T E) : DetachedTx T E :=
  { s with timedOut := true, timer := .fired, settled := s.settled ++ [.error s.timeoutError] }

/-- The promise of the transaction settles. -/
def finish (s : DetachedTx T E) (outcome : Except (DetachedTxError E) T) : DetachedTx T E :=
  { s with phase := .ended outcome, settled := s.settled ++ [outcome] }

/-- What can happen next. -/
inductive Step : DetachedTx T E → DetachedTx T E → Prop
  | grant (s : DetachedTx T E) (acquiring : s.phase = .acquiring) (inTime : s.timedOut = false) :
      Step s { s with phase := .working, timer := s.clearTimeout, calls := s.calls + 1 }
  | lateGrant (s : DetachedTx T E) (acquiring : s.phase = .acquiring) (late : s.timedOut = true) :
      Step s { s with phase := .rollingBack (.aborted s.label) }
  | refuse (s : DetachedTx T E) (error : E) (acquiring : s.phase = .acquiring) :
      Step s { s with phase := .rollingBack (.acquire error) }
  | timeout (s : DetachedTx T E) (armed : s.timer = .armed) :
      Step s s.fireTimer
  | workResolves (s : DetachedTx T E) (value : T) (working : s.phase = .working) :
      Step s { s with phase := .committing value }
  | workRejects (s : DetachedTx T E) (error : E) (working : s.phase = .working) :
      Step s { s with phase := .rollingBack (.work error) }
  | commitSucceeds (s : DetachedTx T E) (value : T) (committing : s.phase = .committing value) :
      Step s ({ s with commits := s.commits + 1 }.finish (.ok value))
  | commitFails (s : DetachedTx T E) (value : T) (error : E)
      (committing : s.phase = .committing value) :
      Step s (s.finish (.error (.commit error)))
  | rolledBack (s : DetachedTx T E) (error : DetachedTxError E)
      (rolling : s.phase = .rollingBack error) :
      Step s (s.finish (.error error))
  /-- The race is settled by the first promise and ignores the second. -/
  | react (s : DetachedTx T E) (first : Except (DetachedTxError E) T)
      (rest : List (Except (DetachedTxError E) T)) (oldest : s.settled = first :: rest) :
      Step s { s with settled := rest, race := s.race.or (some first) }
  /-- The `finally` block, then the caller. -/
  | resume (s : DetachedTx T E) (result : Except (DetachedTxError E) T)
      (decided : s.race = some result) (waiting : s.caller = none) :
      Step s { s with timer := s.clearTimeout, caller := some result }

/-- The states that so many steps lead to. -/
inductive Reached (label : String) (effectiveTimeout : Nat) : Nat → DetachedTx T E → Prop
  | start : Reached label effectiveTimeout 0 (start label effectiveTimeout)
  | next {n : Nat} {s s' : DetachedTx T E} (reached : Reached label effectiveTimeout n s)
      (step : Step s s') : Reached label effectiveTimeout (n + 1) s'

/-- How the transaction ended. -/
def outcome (s : DetachedTx T E) : Option (Except (DetachedTxError E) T) :=
  match s.phase with
  | .ended outcome => some outcome
  | _ => none

/-- What the race is or will be settled with, as far as it is known. -/
def first (s : DetachedTx T E) : Option (Except (DetachedTxError E) T) :=
  s.race.or s.settled.head?

theorem first_append (s : DetachedTx T E) (last : Except (DetachedTxError E) T) :
    s.race.or (s.settled ++ [last]).head? = s.first.or (some last) := by
  rw [first, List.head?_append, List.head?_singleton, Option.or_assoc]

theorem first_finish (s : DetachedTx T E) (outcome : Except (DetachedTxError E) T) :
    (s.finish outcome).first = s.first.or (some outcome) :=
  first_append s outcome

/-- The race takes what it was bound to take. -/
theorem first_react {s : DetachedTx T E} {first : Except (DetachedTxError E) T}
    {rest : List (Except (DetachedTxError E) T)} (oldest : s.settled = first :: rest) :
    (s.race.or (some first)).or rest.head? = s.first := by
  rw [DetachedTx.first, oldest, List.head?_cons]
  cases s.race with
  | none => rfl
  | some result => rfl

/-- The work function has not been called and will not be once the connection is refused or
granted too late. -/
def Idle (s : DetachedTx T E) : Prop :=
  s.calls = 0 ∧ s.commits = 0 ∧
    match s.phase with
    | .acquiring | .rollingBack (.acquire _) =>
        s.first = if s.timedOut then some (.error s.timeoutError) else none
    | .rollingBack (.aborted _) | .ended (.error (.aborted _)) =>
        s.first = some (.error s.timeoutError)
    | .ended (.error (.acquire error)) =>
        s.first = some (.error (.acquire error)) ∨ s.first = some (.error s.timeoutError)
    | _ => False

/-- The work function has been called, and the timer can no longer fire. -/
def Busy (s : DetachedTx T E) : Prop :=
  s.calls = 1 ∧ s.timer ≠ .armed ∧
    match s.phase with
    | .working | .committing _ | .rollingBack (.work _) => s.first = none ∧ s.commits = 0
    | .ended (.ok value) => s.first = some (.ok value) ∧ s.commits = 1
    | .ended (.error (.work error)) => s.first = some (.error (.work error)) ∧ s.commits = 0
    | .ended (.error (.commit error)) => s.first = some (.error (.commit error)) ∧ s.commits = 0
    | _ => False

/-- What holds after any number of steps. -/
structure Sound (s : DetachedTx T E) : Prop where
  inTime : s.timer = .armed → s.timedOut = false
  decided : ∀ result, s.caller = some result → s.race = some result
  work : Idle s ∨ Busy s

theorem sound_start (label : String) (effectiveTimeout : Nat) :
    Sound (start label effectiveTimeout : DetachedTx T E) where
  inTime _ := rfl
  decided _ received := nomatch received
  work := Or.inl ⟨rfl, rfl, rfl⟩

theorem clearTimeout_ne (s : DetachedTx T E) : s.clearTimeout ≠ .armed := by
  unfold clearTimeout
  split
  · nofun
  · assumption

theorem Idle.finish {s : DetachedTx T E} {error : DetachedTxError E} (idle : Idle s)
    (rolling : s.phase = .rollingBack error) : Idle (s.finish (.error error)) := by
  obtain ⟨calls, commits, first⟩ := idle
  refine ⟨calls, commits, ?_⟩
  simp only [rolling] at first
  cases error with
  | acquire error =>
      change (s.finish _).first = _ ∨ (s.finish _).first = _
      rw [first_finish, first]
      cases s.timedOut with
      | true => exact Or.inr rfl
      | false => exact Or.inl rfl
  | aborted label =>
      change (s.finish _).first = _
      rw [first_finish, first]
      rfl
  | work error => exact first.elim
  | commit error => exact first.elim
  | nestedTxTimeout message statusCode code => exact first.elim

theorem Busy.finish {s : DetachedTx T E} {error : DetachedTxError E} (busy : Busy s)
    (rolling : s.phase = .rollingBack error) : Busy (s.finish (.error error)) := by
  obtain ⟨calls, timer, first⟩ := busy
  refine ⟨calls, timer, ?_⟩
  simp only [rolling] at first
  cases error with
  | work error =>
      refine ⟨?_, first.2⟩
      rw [first_finish, first.1]
      rfl
  | acquire error => exact first.elim
  | aborted label => exact first.elim
  | commit error => exact first.elim
  | nestedTxTimeout message statusCode code => exact first.elim

/-- The guard's rejection comes first unless the transaction has ended. -/
theorem Idle.fireTimer {s : DetachedTx T E} (idle : Idle s) (inTime : s.timedOut = false) :
    Idle s.fireTimer := by
  obtain ⟨calls, commits, first⟩ := idle
  have settles : s.fireTimer.first = s.first.or (some (.error s.timeoutError)) :=
    first_append s _
  refine ⟨calls, commits, ?_⟩
  change match s.phase with
    | .acquiring | .rollingBack (.acquire _) => s.fireTimer.first = some (.error s.timeoutError)
    | .rollingBack (.aborted _) | .ended (.error (.aborted _)) =>
        s.fireTimer.first = some (.error s.timeoutError)
    | .ended (.error (.acquire error)) =>
        s.fireTimer.first = some (.error (.acquire error)) ∨
          s.fireTimer.first = some (.error s.timeoutError)
    | _ => False
  rw [settles]
  split at first
  case h_5 => rcases first with first | first <;> simp [first]
  all_goals simp_all

/-- A step of the race or of the caller leaves the work where it is. -/
theorem work_of_same {s s' : DetachedTx T E} (work : Idle s ∨ Busy s)
    (phase : s'.phase = s.phase) (calls : s'.calls = s.calls) (commits : s'.commits = s.commits)
    (first : s'.first = s.first) (timedOut : s'.timedOut = s.timedOut)
    (error : s'.timeoutError = s.timeoutError) (timer : s.timer ≠ .armed → s'.timer ≠ .armed) :
    Idle s' ∨ Busy s' := by
  rcases work with idle | busy
  · refine Or.inl ?_
    rw [Idle, phase, calls, commits, first, timedOut, error]
    exact idle
  · refine Or.inr ⟨calls.trans busy.1, timer busy.2.1, ?_⟩
    rw [phase, commits, first]
    exact busy.2.2

theorem Sound.step {s s' : DetachedTx T E} (sound : Sound s) (step : Step s s') : Sound s' := by
  obtain ⟨inTime, decided, work⟩ := sound
  cases step with
  | grant acquiring notYet =>
      refine ⟨fun _ => notYet, decided, Or.inr ?_⟩
      rcases work with ⟨calls, commits, first⟩ | ⟨-, -, first⟩
      · simp only [acquiring, notYet] at first
        exact ⟨congrArg Nat.succ calls, s.clearTimeout_ne, first, commits⟩
      · simp only [acquiring] at first
  | lateGrant acquiring late =>
      refine ⟨inTime, decided, Or.inl ?_⟩
      rcases work with ⟨calls, commits, first⟩ | ⟨-, -, first⟩
      · simp only [acquiring, late] at first
        exact ⟨calls, commits, first⟩
      · simp only [acquiring] at first
  | refuse error acquiring =>
      refine ⟨inTime, decided, Or.inl ?_⟩
      rcases work with ⟨calls, commits, first⟩ | ⟨-, -, first⟩
      · simp only [acquiring] at first
        exact ⟨calls, commits, first⟩
      · simp only [acquiring] at first
  | timeout armed =>
      refine ⟨nofun, decided, Or.inl ?_⟩
      rcases work with idle | busy
      · exact idle.fireTimer (inTime armed)
      · exact absurd armed busy.2.1
  | workResolves value working =>
      refine ⟨inTime, decided, Or.inr ?_⟩
      rcases work with ⟨-, -, first⟩ | ⟨calls, timer, first⟩
      · simp only [working] at first
      · simp only [working] at first
        exact ⟨calls, timer, first⟩
  | workRejects error working =>
      refine ⟨inTime, decided, Or.inr ?_⟩
      rcases work with ⟨-, -, first⟩ | ⟨calls, timer, first⟩
      · simp only [working] at first
      · simp only [working] at first
        exact ⟨calls, timer, first⟩
  | commitSucceeds value committing =>
      refine ⟨inTime, decided, Or.inr ?_⟩
      rcases work with ⟨-, -, first⟩ | ⟨calls, timer, first⟩
      · simp only [committing] at first
      · simp only [committing] at first
        refine ⟨calls, timer, ?_, congrArg Nat.succ first.2⟩
        rw [first_finish]
        exact congrArg (Option.or · _) first.1
  | commitFails value error committing =>
      refine ⟨inTime, decided, Or.inr ?_⟩
      rcases work with ⟨-, -, first⟩ | ⟨calls, timer, first⟩
      · simp only [committing] at first
      · simp only [committing] at first
        refine ⟨calls, timer, ?_, first.2⟩
        rw [first_finish, first.1]
        rfl
  | rolledBack error rolling =>
      exact ⟨inTime, decided, work.imp (·.finish rolling) (·.finish rolling)⟩
  | react first rest oldest =>
      refine ⟨inTime, fun result received => ?_, work_of_same work rfl rfl rfl
        (first_react oldest) rfl rfl id⟩
      rw [decided result received]
      rfl
  | resume result race waiting =>
      refine ⟨fun armed => absurd armed s.clearTimeout_ne, fun other received => ?_,
        work_of_same work rfl rfl rfl rfl rfl rfl fun _ => s.clearTimeout_ne⟩
      cases received
      exact race

theorem Reached.sound {label : String} {effectiveTimeout n : Nat} {s : DetachedTx T E}
    (reached : Reached label effectiveTimeout n s) : Sound s := by
  induction reached with
  | start => exact sound_start label effectiveTimeout
  | next _ step ih => exact ih.step step

/-! ## Every run ends -/

def phaseSteps : TxPhase T E → Nat
  | .acquiring => 6
  | .working => 4
  | .committing _ => 2
  | .rollingBack _ => 2
  | .ended _ => 0

def timerSteps : TimerPhase → Nat
  | .armed => 2
  | _ => 0

theorem remaining_clearTimeout (s : DetachedTx T E) : timerSteps s.clearTimeout = 0 := by
  have idle := s.clearTimeout_ne
  cases timer : s.clearTimeout with
  | armed => exact absurd timer idle
  | fired => rfl
  | cleared => rfl

def callerSteps : Option (Except (DetachedTxError E) T) → Nat
  | none => 1
  | some _ => 0

/-- Steps that may still come. -/
def remaining (s : DetachedTx T E) : Nat :=
  phaseSteps s.phase + timerSteps s.timer + s.settled.length + callerSteps s.caller

theorem remaining_lt {s s' : DetachedTx T E} (step : Step s s') : s'.remaining < s.remaining := by
  cases step with
  | grant acquiring =>
      simp only [remaining, acquiring, phaseSteps, remaining_clearTimeout]
      omega
  | lateGrant acquiring =>
      simp only [remaining, acquiring, phaseSteps]
      omega
  | refuse error acquiring =>
      simp only [remaining, acquiring, phaseSteps]
      omega
  | timeout armed =>
      simp only [remaining, fireTimer, armed, timerSteps, List.length_append,
        List.length_singleton]
      omega
  | workResolves value working =>
      simp only [remaining, working, phaseSteps]
      omega
  | workRejects error working =>
      simp only [remaining, working, phaseSteps]
      omega
  | commitSucceeds value committing =>
      simp only [remaining, finish, committing, phaseSteps, List.length_append,
        List.length_singleton]
      omega
  | commitFails value error committing =>
      simp only [remaining, finish, committing, phaseSteps, List.length_append,
        List.length_singleton]
      omega
  | rolledBack error rolling =>
      simp only [remaining, finish, rolling, phaseSteps, List.length_append,
        List.length_singleton]
      omega
  | react first rest oldest =>
      simp only [remaining, oldest, List.length_cons]
      omega
  | resume result decided waiting =>
      simp only [remaining, waiting, remaining_clearTimeout, callerSteps]
      omega

theorem Reached.length_le {label : String} {effectiveTimeout n : Nat} {s : DetachedTx T E}
    (reached : Reached label effectiveTimeout n s) : n + s.remaining ≤ 9 := by
  induction reached with
  | start => exact Nat.le_refl 9
  | next _ step ih =>
      have := remaining_lt step
      omega

theorem Idle.first_eq {s : DetachedTx T E} {result : Except (DetachedTxError E) T} (idle : Idle s)
    (first : s.first = some result) :
    (∃ error, result = .error (.acquire error)) ∨ result = .error s.timeoutError := by
  obtain ⟨-, -, known⟩ := idle
  split at known
  case h_5 error _ =>
    rw [first, Option.some.injEq, Option.some.injEq] at known
    exact known.imp (fun same => ⟨error, same⟩) id
  all_goals simp_all

theorem Idle.isSome_first {s : DetachedTx T E} {outcome : Except (DetachedTxError E) T}
    (idle : Idle s) (isEnded : s.phase = .ended outcome) : s.first.isSome := by
  obtain ⟨-, -, known⟩ := idle
  simp only [isEnded] at known
  split at known
  case h_5 => rcases known with known | known <;> simp [known]
  all_goals simp_all

theorem Busy.first_eq {s : DetachedTx T E} (busy : Busy s) : s.first = s.outcome := by
  obtain ⟨-, -, known⟩ := busy
  rw [outcome]
  split at known <;> simp_all

theorem Busy.outcome_eq {s : DetachedTx T E} {result : Except (DetachedTxError E) T}
    (busy : Busy s) (isOutcome : s.outcome = some result) :
    result ≠ .error s.timeoutError ∧ (s.commits = 1 ↔ ∃ value, result = .ok value) := by
  obtain ⟨-, -, known⟩ := busy
  cases phase : s.phase with
  | ended outcome =>
      simp only [DetachedTx.outcome, phase, Option.some.injEq] at isOutcome
      subst isOutcome
      simp only [phase] at known
      cases outcome with
      | ok value => exact ⟨nofun, iff_of_true known.2 ⟨value, rfl⟩⟩
      | error error =>
          have failed : s.commits ≠ 1 ∧ error ≠ s.timeoutError := by
            cases error <;> simp_all [timeoutError]
          exact ⟨fun same => failed.2 (Except.error.inj same), iff_of_false failed.1 nofun⟩
  | acquiring => simp only [DetachedTx.outcome, phase, reduceCtorEq] at isOutcome
  | working => simp only [DetachedTx.outcome, phase, reduceCtorEq] at isOutcome
  | committing value => simp only [DetachedTx.outcome, phase, reduceCtorEq] at isOutcome
  | rollingBack error => simp only [DetachedTx.outcome, phase, reduceCtorEq] at isOutcome

/-- The two ways a call can go. -/
theorem Sound.cases {s : DetachedTx T E} (sound : Sound s) :
    (s.calls = 1 ∧ ∀ result, s.caller = some result → s.outcome = some result ∧
      result ≠ .error s.timeoutError ∧ (s.commits = 1 ↔ ∃ value, result = .ok value)) ∨
    (s.calls = 0 ∧ s.commits = 0 ∧ ∀ result, s.caller = some result →
      (∃ error, result = .error (.acquire error)) ∨ result = .error s.timeoutError) := by
  have received {result : Except (DetachedTxError E) T} (isCaller : s.caller = some result) :
      s.first = some result := by
    rw [first, sound.decided result isCaller]
    rfl
  rcases sound.work with idle | busy
  · exact Or.inr ⟨idle.1, idle.2.1, fun result isCaller => idle.first_eq (received isCaller)⟩
  · refine Or.inl ⟨busy.1, fun result isCaller => ?_⟩
    have isOutcome : s.outcome = some result := busy.first_eq ▸ received isCaller
    exact ⟨isOutcome, busy.outcome_eq isOutcome⟩

/-- A call that can take no further step has answered its caller, unless the work still runs. -/
theorem Sound.answers {s : DetachedTx T E} (sound : Sound s) (rests : ∀ s', ¬Step s s')
    (stopped : s.phase ≠ .working) : s.caller.isSome ∧ s.outcome.isSome := by
  have ended : ∃ outcome, s.phase = .ended outcome := by
    cases phase : s.phase with
    | acquiring =>
        cases late : s.timedOut with
        | true => exact absurd (Step.lateGrant s phase late) (rests _)
        | false => exact absurd (Step.grant s phase late) (rests _)
    | working => exact absurd phase stopped
    | committing value => exact absurd (Step.commitSucceeds s value phase) (rests _)
    | rollingBack error => exact absurd (Step.rolledBack s error phase) (rests _)
    | ended outcome => exact ⟨outcome, rfl⟩
  obtain ⟨outcome, isEnded⟩ := ended
  have isOutcome : s.outcome = some outcome := by rw [DetachedTx.outcome, isEnded]
  have known : s.first.isSome := by
    rcases sound.work with idle | busy
    · exact idle.isSome_first isEnded
    · rw [busy.first_eq, isOutcome]
      rfl
  have seen : s.settled = [] := by
    cases settled : s.settled with
    | nil => rfl
    | cons first rest => exact absurd (Step.react s first rest settled) (rests _)
  rw [first, seen, List.head?_nil, Option.or_none] at known
  obtain ⟨result, decided⟩ := Option.isSome_iff_exists.mp known
  cases waiting : s.caller with
  | none => exact absurd (Step.resume s result decided waiting) (rests _)
  | some result => exact ⟨rfl, isOutcome ▸ rfl⟩

end DetachedTx

open DetachedTx

/-- The work of a detached transaction runs once, and then the caller gets how its transaction
ended; or it never runs, nothing is committed, and the caller gets the error of the connection or
the timeout.  No call takes more than nine steps, and none stops without an answer. -/
theorem detachedTx_runs_once_or_never {T E : Type} {label : String} {effectiveTimeout n : Nat}
    {s : DetachedTx T E} (reached : Reached label effectiveTimeout n s) :
    ((s.calls = 1 ∧ ∀ result, s.caller = some result → s.outcome = some result ∧
        result ≠ .error s.timeoutError ∧ (s.commits = 1 ↔ ∃ value, result = .ok value)) ∨
      (s.calls = 0 ∧ s.commits = 0 ∧ ∀ result, s.caller = some result →
        (∃ error, result = .error (.acquire error)) ∨ result = .error s.timeoutError)) ∧
    n ≤ 9 ∧
    ((∀ s', ¬Step s s') → s.phase ≠ .working → s.caller.isSome ∧ s.outcome.isSome) :=
  ⟨reached.sound.cases, Nat.le_of_add_right_le reached.length_le, reached.sound.answers⟩

/-- A connection granted after the timeout: the caller has the timeout error, and nothing ran. -/
theorem detachedTx_never_runs_late :
    ∃ (n : Nat) (s : DetachedTx Nat String), Reached "count" 10000 n s ∧
      s.caller = some (.error s.timeoutError) ∧ s.outcome = some (.error (.aborted "count")) ∧
      s.calls = 0 ∧ s.commits = 0 := by
  have fired := Reached.start.next (.timeout (start "count" 10000 : DetachedTx Nat String) rfl)
  have answered := (fired.next (.react _ _ _ rfl)).next (.resume _ _ rfl rfl)
  have late := (answered.next (.lateGrant _ rfl rfl)).next (.rolledBack _ _ rfl)
  refine ⟨_, _, late, rfl, rfl, ?_⟩
  rcases (detachedTx_runs_once_or_never late).1 with ⟨-, answers⟩ | ⟨calls, commits, -⟩
  · exact absurd rfl (answers _ rfl).2.1
  · exact ⟨calls, commits⟩

end Odatano
