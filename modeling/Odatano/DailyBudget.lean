import Odatano.AgentGrants

/-!
# The daily budget of a grant

Any number of requests of any number of processes consume and refund units of
one grant.  Each statement is atomic; between two statements of a request the
others and the clock move.  A changeset that writes on its own transaction locks
the row from its first write to its commit, so committed it is a stretch of the
same steps, and rolled back its requests end without a unit.
-/

namespace Odatano

/-! ## The statements -/

/-- A conditional UPDATE of one row, and the number of rows it changed. -/
def AgentGrant.updateWhere (row : AgentGrant) (matched : Bool) (set : AgentGrant → AgentGrant) :
    AgentGrant × Nat :=
  if matched then (set row, 1) else (row, 0)

/-- The compare-and-swap reset of the day window, by a request that holds `grant`. -/
def resetWindow (grant : AgentGrant) (today : UtcDay) (row : AgentGrant) : AgentGrant × Nat :=
  row.updateWhere (row.ID = grant.ID ∧ row.budgetWindow = grant.budgetWindow) fun row =>
    { row with budgetWindow := some today, jobsUsedToday := 1 }

/-- The increment bounded by the daily maximum. -/
def incrementUsed (grant : AgentGrant) (today : UtcDay) (row : AgentGrant) : AgentGrant × Nat :=
  row.updateWhere
    (row.ID = grant.ID ∧ row.budgetWindow = some today ∧
      grant.maxJobsPerDay.any fun max => decide (row.jobsUsedToday < max)) fun row =>
    { row with jobsUsedToday := row.jobsUsedToday + 1 }

/-- Undo one consumption in the window it was charged to. -/
def refundDailyBudget (grant : AgentGrant) (window : UtcDay) (row : AgentGrant) :
    AgentGrant × Nat :=
  row.updateWhere
    (row.ID = grant.ID ∧ row.budgetWindow = some window ∧ 0 < row.jobsUsedToday) fun row =>
    { row with jobsUsedToday := row.jobsUsedToday - 1 }

theorem AgentGrant.updateWhere_unmatched {row row' : AgentGrant} {matched : Bool}
    {set : AgentGrant → AgentGrant} (unmatched : row.updateWhere matched set = (row', 0)) :
    matched = false ∧ row' = row := by
  cases matched with
  | false => exact ⟨rfl, (congrArg Prod.fst unmatched).symm⟩
  | true => cases congrArg Prod.snd unmatched

theorem AgentGrant.updateWhere_matched {row row' : AgentGrant} {matched : Bool}
    {set : AgentGrant → AgentGrant} (changed : row.updateWhere matched set = (row', 1)) :
    matched = true ∧ row' = set row := by
  cases matched with
  | false => cases congrArg Prod.snd changed
  | true => exact ⟨rfl, (congrArg Prod.fst changed).symm⟩

/-! ## Requests -/

/-- Where a request stands in `enforceAgentGrant`. -/
inductive BudgetStage
  | holding
  /-- `consumeDailyBudget` has read the clock. -/
  | called (today : UtcDay)
  | lostReset (today : UtcDay)
  | charged (window : UtcDay)
  | refused
  /-- The request failed with a status in 400..428; its refund is still to come. -/
  | failed (window : UtcDay)
  | refunded (window : UtcDay)
  /-- A statement failed, or the changeset was rolled back. -/
  | gaveUp
deriving DecidableEq

/-- A request and the grant row it works from, read at some earlier moment. -/
structure BudgetRequest where
  grant : AgentGrant
  stage : BudgetStage
deriving DecidableEq

/-- Whether a unit consumed in a day's window is not refunded yet. -/
def BudgetStage.owes (day : UtcDay) : BudgetStage → Bool
  | .charged window => decide (window = day)
  | .failed window => decide (window = day)
  | _ => false

def BudgetRequest.owes (r : BudgetRequest) (day : UtcDay) : Bool := r.stage.owes day

theorem BudgetRequest.owes_of_stage {r : BudgetRequest} {stage : BudgetStage}
    (atStage : r.stage = stage) (day : UtcDay) : r.owes day = stage.owes day := by
  rw [BudgetRequest.owes, atStage]

/-- The grant row, the clock and the requests. -/
structure DailyBudget where
  row : AgentGrant
  today : UtcDay
  requests : List BudgetRequest
deriving DecidableEq

/-- Units consumed in a day's window and not yet refunded. -/
def unitsOf (day : UtcDay) (requests : List BudgetRequest) : Nat :=
  requests.countP fun r => r.owes day

inductive BudgetEvent
  | internal
  | consumed (window : UtcDay)
  | refusedForBudget
  | refund (window : UtcDay)

/-- The request is about to increment: its reset was lost, or it holds a row of the day. -/
def BudgetRequest.increments (r : BudgetRequest) (day : UtcDay) : Prop :=
  r.stage = .lostReset day ∨ r.stage = .called day ∧ r.grant.budgetWindow = some day

inductive BudgetStep : DailyBudget → BudgetEvent → DailyBudget → Prop
  | clock (row : AgentGrant) (today later : UtcDay) (requests : List BudgetRequest)
      (onward : today ≤ later) :
      BudgetStep ⟨row, today, requests⟩ .internal ⟨row, later, requests⟩
  | arrive (row : AgentGrant) (today : UtcDay) (requests : List BudgetRequest) :
      BudgetStep ⟨row, today, requests⟩ .internal ⟨row, today, ⟨row, .holding⟩ :: requests⟩
  | call (row : AgentGrant) (today : UtcDay) (earlier later : List BudgetRequest)
      (r : BudgetRequest) (stage : r.stage = .holding) :
      BudgetStep ⟨row, today, earlier ++ r :: later⟩ .internal
        ⟨row, today, earlier ++ { r with stage := .called today } :: later⟩
  | reset (row row' : AgentGrant) (today day : UtcDay) (earlier later : List BudgetRequest)
      (r : BudgetRequest) (stage : r.stage = .called day)
      (otherWindow : r.grant.budgetWindow ≠ some day)
      (changed : resetWindow r.grant day row = (row', 1)) :
      BudgetStep ⟨row, today, earlier ++ r :: later⟩ (.consumed day)
        ⟨row', today, earlier ++ { r with stage := .charged day } :: later⟩
  | loseReset (row row' : AgentGrant) (today day : UtcDay) (earlier later : List BudgetRequest)
      (r : BudgetRequest) (stage : r.stage = .called day)
      (otherWindow : r.grant.budgetWindow ≠ some day)
      (unchanged : resetWindow r.grant day row = (row', 0)) :
      BudgetStep ⟨row, today, earlier ++ r :: later⟩ .internal
        ⟨row', today, earlier ++ { r with stage := .lostReset day } :: later⟩
  | increment (row row' : AgentGrant) (today day : UtcDay) (earlier later : List BudgetRequest)
      (r : BudgetRequest) (stage : r.increments day)
      (changed : incrementUsed r.grant day row = (row', 1)) :
      BudgetStep ⟨row, today, earlier ++ r :: later⟩ (.consumed day)
        ⟨row', today, earlier ++ { r with stage := .charged day } :: later⟩
  | refuse (row row' : AgentGrant) (today day : UtcDay) (earlier later : List BudgetRequest)
      (r : BudgetRequest) (stage : r.increments day)
      (unchanged : incrementUsed r.grant day row = (row', 0)) :
      BudgetStep ⟨row, today, earlier ++ r :: later⟩ .refusedForBudget
        ⟨row', today, earlier ++ { r with stage := .refused } :: later⟩
  | fail (row : AgentGrant) (today window : UtcDay) (earlier later : List BudgetRequest)
      (r : BudgetRequest) (stage : r.stage = .charged window) :
      BudgetStep ⟨row, today, earlier ++ r :: later⟩ .internal
        ⟨row, today, earlier ++ { r with stage := .failed window } :: later⟩
  | refund (row : AgentGrant) (today window : UtcDay) (earlier later : List BudgetRequest)
      (r : BudgetRequest) (stage : r.stage = .failed window) :
      BudgetStep ⟨row, today, earlier ++ r :: later⟩ (.refund window)
        ⟨(refundDailyBudget r.grant window row).1, today,
          earlier ++ { r with stage := .refunded window } :: later⟩
  | giveUp (row : AgentGrant) (today : UtcDay) (earlier later : List BudgetRequest)
      (r : BudgetRequest) (unpaid : ∀ day, r.owes day = false) :
      BudgetStep ⟨row, today, earlier ++ r :: later⟩ .internal
        ⟨row, today, earlier ++ { r with stage := .gaveUp } :: later⟩

inductive BudgetRun (start : DailyBudget) : DailyBudget → Prop
  | refl : BudgetRun start start
  | step {b b' : DailyBudget} {event : BudgetEvent} (before : BudgetRun start b)
      (step : BudgetStep b event b') : BudgetRun start b'

/-- A grant as it is issued, before its first request. -/
structure DailyBudget.Starts (max : Int) (b : DailyBudget) : Prop where
  maximum : b.row.maxJobsPerDay = some max
  positive : 1 ≤ max
  unused : b.row.jobsUsedToday = 0
  noWindow : b.row.budgetWindow = none
  noRequest : b.requests = []

/-! ## The invariant -/

/-- What a request holds fits the row: the window it read is not after the one
stored now, and the day it reads from the clock is not before it. -/
structure BudgetRequest.Sound (max : Int) (row : AgentGrant) (today : UtcDay)
    (r : BudgetRequest) : Prop where
  grantId : r.grant.ID = row.ID
  maximum : r.grant.maxJobsPerDay = some max
  window : ∀ day, r.grant.budgetWindow = some day → day ≤ today
  called : ∀ day, r.stage = .called day → day ≤ today ∧
    ∀ window, r.grant.budgetWindow = some window → window ≤ day
  owes : ∀ day, r.owes day = true → ∃ window, row.budgetWindow = some window ∧ day ≤ window

structure BudgetSound (max : Int) (b : DailyBudget) : Prop where
  maximum : b.row.maxJobsPerDay = some max
  positive : 1 ≤ max
  clock : ∀ window, b.row.budgetWindow = some window → window ≤ b.today
  used : ∀ day, b.row.budgetWindow = some day → b.row.jobsUsedToday = unitsOf day b.requests
  unused : b.row.budgetWindow = none → b.row.jobsUsedToday = 0
  bounded : ∀ day, (unitsOf day b.requests : Int) ≤ max
  requests : ∀ r ∈ b.requests, r.Sound max b.row b.today

/-- Replacing one request changes the units by what the two owe. -/
theorem unitsOf_replace (day : UtcDay) (earlier later : List BudgetRequest)
    (r r' : BudgetRequest) :
    unitsOf day (earlier ++ r' :: later) + (if r.owes day then 1 else 0) =
      unitsOf day (earlier ++ r :: later) + (if r'.owes day then 1 else 0) := by
  have mine (request : BudgetRequest) :
      unitsOf day (earlier ++ request :: later) =
        unitsOf day earlier + unitsOf day later + if request.owes day then 1 else 0 := by
    simp only [unitsOf, List.countP_append, List.countP_cons]
    exact (Nat.add_assoc ..).symm
  rw [mine r, mine r', Nat.add_right_comm]

/-- Nothing is owed in a window after the stored one. -/
theorem BudgetSound.unitsOf_eq_zero {max : Int} {b : DailyBudget} (sound : BudgetSound max b)
    {day : UtcDay} (after : ∀ window, b.row.budgetWindow = some window → window < day) :
    unitsOf day b.requests = 0 := by
  rw [unitsOf, List.countP_eq_zero]
  intro r rMem owing
  obtain ⟨window, stored, notAfter⟩ := (sound.requests r rMem).owes day owing
  exact Nat.not_lt.mpr notAfter (after window stored)

/-- A step that leaves the row alone may drop the debt of a past window. -/
theorem BudgetSound.replace {max : Int} {row : AgentGrant} {today : UtcDay}
    {earlier later : List BudgetRequest} {r r' : BudgetRequest}
    (sound : BudgetSound max ⟨row, today, earlier ++ r :: later⟩)
    (sameGrant : r'.grant = r.grant) (lessDebt : ∀ day, r'.owes day = true → r.owes day = true)
    (sameDebt : ∀ day, row.budgetWindow = some day → r'.owes day = r.owes day)
    (called : ∀ day, r'.stage = .called day → day ≤ today ∧
      ∀ window, r.grant.budgetWindow = some window → window ≤ day) :
    BudgetSound max ⟨row, today, earlier ++ r' :: later⟩ := by
  refine ⟨sound.maximum, sound.positive, sound.clock, ?_, sound.unused, ?_, ?_⟩
  · intro day window
    have replaced := unitsOf_replace day earlier later r r'
    rw [sameDebt day window] at replaced
    exact (sound.used day window).trans (congrArg _ (Nat.add_right_cancel replaced).symm)
  · intro day
    have bounded : (unitsOf day (earlier ++ r :: later) : Int) ≤ max := sound.bounded day
    have replaced := unitsOf_replace day earlier later r r'
    change (unitsOf day (earlier ++ r' :: later) : Int) ≤ max
    by_cases owing : r'.owes day = true
    · rw [owing, lessDebt day owing] at replaced
      omega
    · rw [if_neg owing] at replaced
      omega
  · intro other otherMem
    rcases List.mem_append.mp otherMem with old | old
    · exact sound.requests other (List.mem_append_left _ old)
    · rcases List.mem_cons.mp old with rfl | old
      · have mine := sound.requests r (List.mem_append_right _ List.mem_cons_self)
        exact ⟨sameGrant ▸ mine.grantId, sameGrant ▸ mine.maximum, sameGrant ▸ mine.window,
          sameGrant ▸ called, fun day owing => mine.owes day (lessDebt day owing)⟩
      · exact sound.requests other
          (List.mem_append_right _ (List.mem_cons_of_mem _ old))

/-- What a step that writes the counter must show: the window it leaves is the
day its unit belongs to, and no stored window is after it. -/
theorem BudgetSound.write {max : Int} {row : AgentGrant} {today day : UtcDay} {used : Int}
    {earlier later : List BudgetRequest} {r r' : BudgetRequest}
    (sound : BudgetSound max ⟨row, today, earlier ++ r :: later⟩)
    (sameGrant : r'.grant = r.grant) (notCalled : ∀ day, r'.stage ≠ .called day)
    (inTime : day ≤ today)
    (onward : ∀ window, row.budgetWindow = some window → window ≤ day)
    (others : ∀ other ≠ day, r'.owes other = r.owes other)
    (counted : used = unitsOf day (earlier ++ r' :: later)) (bounded : used ≤ max) :
    BudgetSound max ⟨{ row with budgetWindow := some day, jobsUsedToday := used }, today,
      earlier ++ r' :: later⟩ := by
  have owedBefore : ∀ other ∈ earlier ++ r :: later, ∀ owed, other.owes owed = true →
      owed ≤ day := by
    intro other otherMem owed owing
    obtain ⟨window, stored, notAfter⟩ := (sound.requests other otherMem).owes owed owing
    exact Nat.le_trans notAfter (onward window stored)
  refine ⟨sound.maximum, sound.positive, ?_, ?_, nofun, ?_, ?_⟩
  · rintro window ⟨⟩
    exact inTime
  · rintro window ⟨⟩
    exact counted
  · intro other
    change (unitsOf other (earlier ++ r' :: later) : Int) ≤ max
    by_cases same : other = day
    · rw [same, ← counted]
      exact bounded
    · have replaced := unitsOf_replace other earlier later r r'
      rw [others other same] at replaced
      have old : (unitsOf other (earlier ++ r :: later) : Int) ≤ max := sound.bounded other
      omega
  · intro other otherMem
    rcases List.mem_append.mp otherMem with old | old
    · have was := sound.requests other (List.mem_append_left _ old)
      exact ⟨was.grantId, was.maximum, was.window, was.called,
        fun owed owing => ⟨day, rfl, owedBefore other (List.mem_append_left _ old) owed owing⟩⟩
    · rcases List.mem_cons.mp old with rfl | old
      · have mineMem : r ∈ earlier ++ r :: later := List.mem_append_right _ List.mem_cons_self
        have mine := sound.requests r mineMem
        refine ⟨sameGrant ▸ mine.grantId, sameGrant ▸ mine.maximum, sameGrant ▸ mine.window,
          fun called stage => absurd stage (notCalled called), fun owed owing => ⟨day, rfl, ?_⟩⟩
        by_cases same : owed = day
        · exact Nat.le_of_eq same
        · exact owedBefore r mineMem owed (others owed same ▸ owing)
      · have oldMem : other ∈ earlier ++ r :: later :=
          List.mem_append_right _ (List.mem_cons_of_mem _ old)
        have was := sound.requests other oldMem
        exact ⟨was.grantId, was.maximum, was.window, was.called,
          fun owed owing => ⟨day, rfl, owedBefore other oldMem owed owing⟩⟩

theorem DailyBudget.Starts.sound {max : Int} {b : DailyBudget} (starts : b.Starts max) :
    BudgetSound max b := by
  refine ⟨starts.maximum, starts.positive, ?_, ?_, fun _ => starts.unused, ?_, ?_⟩
  · intro window stored
    rw [starts.noWindow] at stored
    cases stored
  · intro day stored
    rw [starts.noWindow] at stored
    cases stored
  · intro day
    have positive := starts.positive
    rw [starts.noRequest, unitsOf, List.countP_nil]
    omega
  · intro r rMem
    rw [starts.noRequest] at rMem
    exact absurd rMem List.not_mem_nil

/-! ## Steps and runs -/

theorem resetWindow_changed {grant row row' : AgentGrant} {today : UtcDay}
    (changed : resetWindow grant today row = (row', 1)) :
    row.budgetWindow = grant.budgetWindow ∧
      row' = { row with budgetWindow := some today, jobsUsedToday := 1 } := by
  obtain ⟨matched, rfl⟩ := AgentGrant.updateWhere_matched changed
  exact ⟨(of_decide_eq_true matched).2, rfl⟩

theorem incrementUsed_changed {grant row row' : AgentGrant} {today : UtcDay} {max : Int}
    (maximum : grant.maxJobsPerDay = some max)
    (changed : incrementUsed grant today row = (row', 1)) :
    row.budgetWindow = some today ∧ row.jobsUsedToday < max ∧
      row' = { row with jobsUsedToday := row.jobsUsedToday + 1 } := by
  obtain ⟨matched, rfl⟩ := AgentGrant.updateWhere_matched changed
  have guard := of_decide_eq_true matched
  rw [maximum, Option.any_some, decide_eq_true_eq] at guard
  exact ⟨guard.2.1, guard.2.2, rfl⟩

theorem BudgetRequest.increments.unpaid {r : BudgetRequest} {day : UtcDay}
    (stage : r.increments day) (other : UtcDay) : r.owes other = false := by
  rcases stage with stage | ⟨stage, -⟩
  · exact BudgetRequest.owes_of_stage stage other
  · exact BudgetRequest.owes_of_stage stage other

/-- A request that consumes its unit. -/
theorem BudgetSound.charge {max : Int} {row : AgentGrant} {today day : UtcDay}
    {earlier later : List BudgetRequest} {r : BudgetRequest} {used : Int}
    (sound : BudgetSound max ⟨row, today, earlier ++ r :: later⟩)
    (unpaid : ∀ other, r.owes other = false) (inTime : day ≤ today)
    (onward : ∀ window, row.budgetWindow = some window → window ≤ day)
    (counted : used = unitsOf day (earlier ++ r :: later) + 1) (bounded : used ≤ max) :
    BudgetSound max ⟨{ row with budgetWindow := some day, jobsUsedToday := used }, today,
      earlier ++ { r with stage := .charged day } :: later⟩ := by
  have owesDay : ({ r with stage := .charged day } : BudgetRequest).owes day = true :=
    decide_eq_true rfl
  refine sound.write rfl nofun inTime onward ?_ ?_ bounded
  · intro other different
    rw [unpaid other]
    exact decide_eq_false (Ne.symm different)
  · have replaced := unitsOf_replace day earlier later r { r with stage := .charged day }
    rw [unpaid day, owesDay, if_neg Bool.false_ne_true, if_pos rfl] at replaced
    rw [counted]
    omega

/-- The refund of a unit whose window is still the stored one is matched. -/
theorem refundDailyBudget_eq {max : Int} {row : AgentGrant} {today window : UtcDay}
    {earlier later : List BudgetRequest} {r : BudgetRequest}
    (sound : BudgetSound max ⟨row, today, earlier ++ r :: later⟩)
    (owing : r.owes window = true) :
    (refundDailyBudget r.grant window row).1 =
      if row.budgetWindow = some window then
        { row with jobsUsedToday := row.jobsUsedToday - 1 }
      else row := by
  have mine := sound.requests r (List.mem_append_right _ List.mem_cons_self)
  have sameId : row.ID = r.grant.ID := mine.grantId.symm
  rw [refundDailyBudget, AgentGrant.updateWhere]
  by_cases current : row.budgetWindow = some window
  · have used : row.jobsUsedToday = unitsOf window (earlier ++ r :: later) :=
      sound.used window current
    have owed : 0 < unitsOf window (earlier ++ r :: later) :=
      List.countP_pos_iff.mpr ⟨r, List.mem_append_right _ List.mem_cons_self, owing⟩
    have positive : 0 < row.jobsUsedToday := by omega
    rw [if_pos (decide_eq_true ⟨sameId, current, positive⟩), if_pos current]
  · rw [if_neg (by simp [current]), if_neg current]

theorem BudgetStep.sound {max : Int} {b b' : DailyBudget} {event : BudgetEvent}
    (step : BudgetStep b event b') (sound : BudgetSound max b) : BudgetSound max b' := by
  cases step with
  | clock row today later requests onward =>
      refine ⟨sound.maximum, sound.positive, fun window stored =>
        Nat.le_trans (sound.clock window stored) onward, sound.used, sound.unused,
        sound.bounded, ?_⟩
      intro r rMem
      have was := sound.requests r rMem
      exact ⟨was.grantId, was.maximum,
        fun day window => Nat.le_trans (was.window day window) onward,
        fun day stage => ⟨Nat.le_trans (was.called day stage).1 onward, (was.called day stage).2⟩,
        was.owes⟩
  | arrive row today requests =>
      have units : ∀ day, unitsOf day (⟨row, .holding⟩ :: requests) = unitsOf day requests :=
        fun _ => List.countP_cons_of_neg Bool.false_ne_true
      refine ⟨sound.maximum, sound.positive, sound.clock, ?_, sound.unused, ?_, ?_⟩
      · intro day window
        exact (sound.used day window).trans (by rw [units day])
      · intro day
        rw [units day]
        exact sound.bounded day
      · intro r rMem
        rcases List.mem_cons.mp rMem with rfl | old
        · exact ⟨rfl, sound.maximum, sound.clock, nofun,
            fun _ owing => absurd owing Bool.false_ne_true⟩
        · exact sound.requests r old
  | call row today earlier later r stage =>
      have mine := sound.requests r (List.mem_append_right _ List.mem_cons_self)
      refine sound.replace rfl (fun _ => nofun)
        (fun day _ => (BudgetRequest.owes_of_stage stage day).symm) ?_
      rintro day ⟨⟩
      exact ⟨Nat.le_refl _, mine.window⟩
  | reset row row' today day earlier later r stage otherWindow changed =>
      have mine := sound.requests r (List.mem_append_right _ List.mem_cons_self)
      obtain ⟨inTime, notBefore⟩ := mine.called day stage
      obtain ⟨sameWindow, rfl⟩ := resetWindow_changed changed
      have onward : ∀ window, row.budgetWindow = some window → window < day := by
        intro window stored
        rw [sameWindow] at stored
        refine Nat.lt_of_le_of_ne (notBefore window stored) ?_
        rintro rfl
        exact otherWindow stored
      have nothing : unitsOf day (earlier ++ r :: later) = 0 := sound.unitsOf_eq_zero onward
      refine sound.charge (BudgetRequest.owes_of_stage stage) inTime
        (fun window stored => Nat.le_of_lt (onward window stored)) ?_ sound.positive
      rw [nothing]
      rfl
  | loseReset row row' today day earlier later r stage otherWindow unchanged =>
      obtain ⟨-, rfl⟩ := AgentGrant.updateWhere_unmatched unchanged
      exact sound.replace rfl (fun _ => nofun)
        (fun day _ => (BudgetRequest.owes_of_stage stage day).symm) nofun
  | increment row row' today day earlier later r stage changed =>
      have mine := sound.requests r (List.mem_append_right _ List.mem_cons_self)
      obtain ⟨current, below, rfl⟩ := incrementUsed_changed mine.maximum changed
      have used : row.jobsUsedToday = unitsOf day (earlier ++ r :: later) :=
        sound.used day current
      have onward : ∀ window, row.budgetWindow = some window → window ≤ day := by
        intro window stored
        rw [current] at stored
        cases stored
        exact Nat.le_refl _
      have charged := sound.charge stage.unpaid (sound.clock day current) onward
        (congrArg (· + 1) used) below
      rw [← current] at charged
      exact charged
  | refuse row row' today day earlier later r stage unchanged =>
      obtain ⟨-, rfl⟩ := AgentGrant.updateWhere_unmatched unchanged
      exact sound.replace rfl (fun _ => nofun) (fun day _ => (stage.unpaid day).symm) nofun
  | fail row today window earlier later r stage =>
      have sameDebt := BudgetRequest.owes_of_stage stage
      exact sound.replace rfl (fun day owing => (sameDebt day).trans owing)
        (fun day _ => (sameDebt day).symm) nofun
  | refund row today window earlier later r stage =>
      have owed := BudgetRequest.owes_of_stage stage
      have owing : r.owes window = true := (owed window).trans (decide_eq_true rfl)
      rw [refundDailyBudget_eq sound owing]
      by_cases current : row.budgetWindow = some window
      · have used : row.jobsUsedToday = unitsOf window (earlier ++ r :: later) :=
          sound.used window current
        have bounded : (unitsOf window (earlier ++ r :: later) : Int) ≤ max :=
          sound.bounded window
        have replaced := unitsOf_replace window earlier later r
          { r with stage := .refunded window }
        have paid : ({ r with stage := .refunded window } : BudgetRequest).owes window = false :=
          rfl
        rw [owing, paid, if_pos rfl, if_neg Bool.false_ne_true] at replaced
        have onward : ∀ other, row.budgetWindow = some other → other ≤ window := by
          intro other stored
          rw [current] at stored
          cases stored
          exact Nat.le_refl _
        have written : BudgetSound max
            ⟨{ row with budgetWindow := some window, jobsUsedToday := row.jobsUsedToday - 1 },
              today, earlier ++ { r with stage := .refunded window } :: later⟩ :=
          sound.write rfl nofun (sound.clock window current) onward
            (fun other different =>
              ((owed other).trans (decide_eq_false (Ne.symm different))).symm)
            (by omega) (by omega)
        rw [if_pos current]
        rw [← current] at written
        exact written
      · rw [if_neg current]
        refine sound.replace rfl (fun _ => nofun) (fun day stored => ?_) nofun
        rw [owed day]
        refine (decide_eq_false ?_).symm
        rintro rfl
        exact current stored
  | giveUp row today earlier later r unpaid =>
      exact sound.replace rfl (fun _ => nofun) (fun day _ => (unpaid day).symm) nofun

theorem BudgetRun.sound {max : Int} {start b : DailyBudget} (run : BudgetRun start b)
    (starts : start.Starts max) : BudgetSound max b := by
  induction run with
  | refl => exact starts.sound
  | step before step ih => exact step.sound ih

/-- The counter of an invariant state is not negative. -/
theorem BudgetSound.used_nonneg {max : Int} {b : DailyBudget} (sound : BudgetSound max b) :
    0 ≤ b.row.jobsUsedToday := by
  cases stored : b.row.budgetWindow with
  | none => exact Int.le_of_eq (sound.unused stored).symm
  | some day =>
      rw [sound.used day stored]
      exact Int.natCast_nonneg _

/-- Only a consumption and a refund write the row. -/
theorem BudgetStep.row_eq {b b' : DailyBudget} {event : BudgetEvent} (step : BudgetStep b event b')
    (noWrite : event = .internal ∨ event = .refusedForBudget) : b'.row = b.row := by
  cases step with
  | loseReset row row' today day earlier later r stage otherWindow unchanged =>
      exact (AgentGrant.updateWhere_unmatched unchanged).2
  | refuse row row' today day earlier later r stage unchanged =>
      exact (AgentGrant.updateWhere_unmatched unchanged).2
  | reset => exact noWrite.elim nofun nofun
  | increment => exact noWrite.elim nofun nofun
  | refund => exact noWrite.elim nofun nofun
  | clock | arrive | call | fail | giveUp => rfl

/-- A refund keeps the window, and the counter of any other window than its own. -/
theorem BudgetStep.refund_row {max : Int} {b b' : DailyBudget} {window : UtcDay}
    (step : BudgetStep b (.refund window) b') (sound : BudgetSound max b) :
    b'.row.budgetWindow = b.row.budgetWindow ∧
      (b.row.budgetWindow ≠ some window → b'.row = b.row) := by
  cases step with
  | refund row today window earlier later r stage =>
      have owing : r.owes window = true :=
        (BudgetRequest.owes_of_stage stage window).trans (decide_eq_true rfl)
      simp only [refundDailyBudget_eq sound owing]
      constructor
      · split <;> rfl
      · intro otherWindow
        rw [if_neg otherWindow]

/-- On every day the units consumed in its window and not refunded stay within
the maximum, and are what the counter says while the window is that day.  Only a
consumption and a refund write the row, and a refund reaches its own window only. -/
theorem dailyBudget_conserved {max : Int} {start b : DailyBudget} (starts : start.Starts max)
    (run : BudgetRun start b) :
    (∀ day, (unitsOf day b.requests : Int) ≤ max) ∧
      (∀ day, b.row.budgetWindow = some day → b.row.jobsUsedToday = unitsOf day b.requests) ∧
      (∀ event b', BudgetStep b event b' → event = .internal ∨ event = .refusedForBudget →
        b'.row = b.row) ∧
      ∀ window b', BudgetStep b (.refund window) b' →
        0 ≤ b'.row.jobsUsedToday ∧ b'.row.budgetWindow = b.row.budgetWindow ∧
          (b.row.budgetWindow ≠ some window → b'.row = b.row) := by
  have sound := run.sound starts
  refine ⟨sound.bounded, sound.used, fun event b' step => step.row_eq, ?_⟩
  intro window b' step
  exact ⟨(step.sound sound).used_nonneg, step.refund_row sound⟩

/-! A grant with one job a day, issued on day 7. -/

def sampleGrant : AgentGrant where
  ID := "g"
  userId := "operator"
  agentLabel := none
  tokenHash := "h"
  allowedActions := ["SubmitTransaction"]
  walletId := none
  allowedJobKinds := none
  maxJobsPerDay := some 1
  jobsUsedToday := 0
  budgetWindow := none
  validUntil := none
  isActive := true
  revokedAt := none
  createdAt := 0
  lastUsedAt := none

/-- One request consumes the unit of day 7 and fails, and its refund comes on day
8, when a second request has moved the window. -/
theorem sampleGrant_refundedLate :
    BudgetRun ⟨sampleGrant, 7, []⟩
      ⟨{ sampleGrant with budgetWindow := some 8, jobsUsedToday := 1 }, 8,
        [⟨{ sampleGrant with budgetWindow := some 7, jobsUsedToday := 1 }, .charged 8⟩,
          ⟨sampleGrant, .refunded 7⟩]⟩ :=
  .step (.step (.step (.step (.step (.step (.step (.step (.step .refl
    (.arrive _ _ _))
    (.call _ _ [] [] _ rfl))
    (.reset _ _ _ 7 [] [] _ rfl nofun rfl))
    (.fail _ _ _ [] [] _ rfl))
    (.clock _ _ 8 _ (by decide)))
    (.arrive _ _ _))
    (.call _ _ [] _ _ rfl))
    (.reset _ _ _ 8 [] _ _ rfl (by decide) rfl))
    (.refund _ _ 7
      [⟨{ sampleGrant with budgetWindow := some 7, jobsUsedToday := 1 }, .charged 8⟩] []
      ⟨sampleGrant, .failed 7⟩ rfl)

theorem dailyBudget_conserved_sample :
    unitsOf 7 [⟨{ sampleGrant with budgetWindow := some 7, jobsUsedToday := 1 }, .charged 8⟩,
        ⟨sampleGrant, .refunded 7⟩] = 0 ∧
      (unitsOf 8 [⟨{ sampleGrant with budgetWindow := some 7, jobsUsedToday := 1 }, .charged 8⟩,
        ⟨sampleGrant, .refunded 7⟩] : Int) ≤ 1 :=
  ⟨by decide,
    (dailyBudget_conserved ⟨rfl, by decide, rfl, rfl, rfl⟩ sampleGrant_refundedLate).1 8⟩

end Odatano
