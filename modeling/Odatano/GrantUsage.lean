import Mathlib.Data.List.Basic
import Odatano.AgentGrants
import Odatano.TableSums

/-!
# Usage counters in deferred mode

Every process buffers its calls and flushes them key by key with an update, an
insert and an update again; what could not be written goes back into the buffer.
Any number of flushes of any number of processes overlap, statement by statement.
-/

namespace Odatano

/-! ## Keys -/

/-- A usage row's key.  A grant id is a UUID, a day a date and an action one of
the grantable ones, so none of the three holds the separator of `text`. -/
structure UsageKey where
  grant_ID : String
  day : String
  service : String
  action : String
  grantPlain : '|' ∉ grant_ID.toList
  dayPlain : '|' ∉ day.toList
  actionPlain : '|' ∉ action.toList
deriving DecidableEq

/-- The key of the buffer's map. -/
def UsageKey.text (key : UsageKey) : String :=
  key.grant_ID ++ "|" ++ key.day ++ "|" ++ key.service ++ "|" ++ key.action

theorem UsageKey.toList_text (key : UsageKey) :
    key.text.toList = key.grant_ID.toList ++ '|' :: (key.day.toList ++ '|' ::
      (key.service.toList ++ '|' :: key.action.toList)) := by
  simp [text]

/-- The part before the first separator is determined. -/
theorem append_separator_inj {first first' rest rest' : List Char} (plain : '|' ∉ first)
    (plain' : '|' ∉ first') (same : first ++ '|' :: rest = first' ++ '|' :: rest') :
    first = first' ∧ rest = rest' := by
  induction first generalizing first' with
  | nil =>
      cases first' with
      | nil => exact ⟨rfl, (List.cons.inj same).2⟩
      | cons c _ => exact absurd ((List.cons.inj same).1 ▸ List.mem_cons_self) plain'
  | cons c first ih =>
      cases first' with
      | nil => exact absurd ((List.cons.inj same).1 ▸ List.mem_cons_self) plain
      | cons c' first' =>
          obtain ⟨sameChar, sameRest⟩ := List.cons.inj same
          obtain ⟨sameFirst, sameEnd⟩ := ih (fun isMem => plain (List.mem_cons_of_mem _ isMem))
            (fun isMem => plain' (List.mem_cons_of_mem _ isMem)) sameRest
          exact ⟨by rw [sameChar, sameFirst], sameEnd⟩

/-- The part after the last separator is determined. -/
theorem separator_append_inj {first first' rest rest' : List Char} (plain : '|' ∉ rest)
    (plain' : '|' ∉ rest') (same : first ++ '|' :: rest = first' ++ '|' :: rest') :
    first = first' ∧ rest = rest' := by
  have reversed := congrArg List.reverse same
  simp only [List.reverse_append, List.reverse_cons, List.append_assoc, List.singleton_append]
    at reversed
  obtain ⟨rests, firsts⟩ := append_separator_inj
    (fun isMem => plain (List.mem_reverse.mp isMem))
    (fun isMem => plain' (List.mem_reverse.mp isMem)) reversed
  exact ⟨List.reverse_injective firsts, List.reverse_injective rests⟩

theorem UsageKey.text_injective {key key' : UsageKey} (same : key.text = key'.text) :
    key = key' := by
  have chars := congrArg String.toList same
  rw [toList_text, toList_text] at chars
  obtain ⟨grants, chars⟩ := append_separator_inj key.grantPlain key'.grantPlain chars
  obtain ⟨days, chars⟩ := append_separator_inj key.dayPlain key'.dayPlain chars
  obtain ⟨services, actions⟩ := separator_append_inj key.actionPlain key'.actionPlain chars
  cases key
  cases key'
  simp only [UsageKey.mk.injEq]
  exact ⟨String.toList_injective grants, String.toList_injective days,
    String.toList_injective services, String.toList_injective actions⟩

/-! ## Counters -/

/-- A usage row, or what is to be added to one. -/
structure UsageDelta where
  key : UsageKey
  calls : Int
  refunded : Int
deriving DecidableEq

def UsageDelta.add (row delta : UsageDelta) : UsageDelta :=
  { row with calls := row.calls + delta.calls, refunded := row.refunded + delta.refunded }

/-- The `CardanoAgentGrantUsage` table. -/
abbrev UsageTable := Table UsageDelta.key

/-- The map of buffered deltas; each is stored under the text of its key. -/
abbrev UsageBuffer := Table fun delta : UsageDelta => delta.key.text

def bufferUsage (buffer : UsageBuffer) (delta : UsageDelta) : UsageBuffer :=
  match buffer.find? delta.key.text with
  | some d => buffer.upsert (d.add delta)
  | none => buffer.upsert delta

/-- The UPDATE that adds a delta, and the number of rows it changed. -/
def bumpUsage (rows : UsageTable) (delta : UsageDelta) : UsageTable × Nat :=
  match rows.find? delta.key with
  | some row => (rows.upsert (row.add delta), 1)
  | none => (rows, 0)

/-- The INSERT of a row; it fails when the row exists. -/
def insertUsage (rows : UsageTable) (delta : UsageDelta) : Option UsageTable :=
  match rows.find? delta.key with
  | some _ => none
  | none => some (rows.upsert delta)

/-! ## Flushes -/

/-- The statement a flush is about to run for the delta at the head of its batch. -/
inductive FlushStage
  | bump
  | insert
  | bumpAgain
deriving DecidableEq

/-- What a flush took out of the buffer and has not written. -/
structure UsageFlush where
  batch : List UsageDelta
  stage : FlushStage

structure UsageProcess where
  buffer : UsageBuffer
  flushes : List UsageFlush

/-- One statement of a flush, which may fail having written nothing. -/
def UsageFlush.statement (rows : UsageTable) (buffer : UsageBuffer) (delta : UsageDelta)
    (rest : List UsageDelta) (stage : FlushStage) (fails : Bool) :
    UsageTable × UsageBuffer × UsageFlush :=
  match stage with
  | .bump =>
      if fails then (rows, bufferUsage buffer delta, ⟨rest, .bump⟩)
      else
        match bumpUsage rows delta with
        | (rows, 0) => (rows, buffer, ⟨delta :: rest, .insert⟩)
        | (rows, _ + 1) => (rows, buffer, ⟨rest, .bump⟩)
  | .insert =>
      match if fails then none else insertUsage rows delta with
      | none => (rows, buffer, ⟨delta :: rest, .bumpAgain⟩)
      | some rows => (rows, buffer, ⟨rest, .bump⟩)
  | .bumpAgain =>
      if fails then (rows, bufferUsage buffer delta, ⟨rest, .bump⟩)
      else
        match bumpUsage rows delta with
        | (rows, 0) => (rows, bufferUsage buffer delta, ⟨rest, .bump⟩)
        | (rows, _ + 1) => (rows, buffer, ⟨rest, .bump⟩)

/-- A call counted inside a changeset's own transaction: update, insert if it
matched nothing, at once for everyone else. -/
def recordAwaited (rows : UsageTable) (delta : UsageDelta) : UsageTable :=
  match bumpUsage rows delta with
  | (rows, 0) => (insertUsage rows delta).getD rows
  | (rows, _ + 1) => rows

/-- The database, the live processes, and the calls recorded and refunded. -/
structure UsageSystem where
  rows : UsageTable
  processes : List UsageProcess
  recorded : List UsageKey
  refunded : List UsageKey

inductive UsageStep : UsageSystem → UsageSystem → Prop
  | startProcess (s : UsageSystem) :
      UsageStep s { s with processes := ⟨Table.empty, []⟩ :: s.processes }
  | stopProcess (rows : UsageTable) (earlier later : List UsageProcess)
      (recorded refunded : List UsageKey) :
      UsageStep ⟨rows, earlier ++ ⟨Table.empty, []⟩ :: later, recorded, refunded⟩
        ⟨rows, earlier ++ later, recorded, refunded⟩
  | recordGrantUsage (rows : UsageTable) (earlier later : List UsageProcess) (p : UsageProcess)
      (recorded refunded : List UsageKey) (key : UsageKey) :
      UsageStep ⟨rows, earlier ++ p :: later, recorded, refunded⟩
        ⟨rows, earlier ++ { p with buffer := bufferUsage p.buffer ⟨key, 1, 0⟩ } :: later,
          key :: recorded, refunded⟩
  | refundGrantUsage (rows : UsageTable) (earlier later : List UsageProcess) (p : UsageProcess)
      (recorded refunded : List UsageKey) (key : UsageKey) :
      UsageStep ⟨rows, earlier ++ p :: later, recorded, refunded⟩
        ⟨rows, earlier ++ { p with buffer := bufferUsage p.buffer ⟨key, 0, 1⟩ } :: later,
          recorded, key :: refunded⟩
  | recordInChangeset (s : UsageSystem) (key : UsageKey) :
      UsageStep s
        { s with rows := recordAwaited s.rows ⟨key, 1, 0⟩, recorded := key :: s.recorded }
  | flushGrantUsage (rows : UsageTable) (earlier later : List UsageProcess) (p : UsageProcess)
      (recorded refunded : List UsageKey) :
      UsageStep ⟨rows, earlier ++ p :: later, recorded, refunded⟩
        ⟨rows, earlier ++ ⟨Table.empty, ⟨p.buffer.rows, .bump⟩ :: p.flushes⟩ :: later,
          recorded, refunded⟩
  | statement (rows rows' : UsageTable) (earlier later : List UsageProcess)
      (buffer buffer' : UsageBuffer) (before after : List UsageFlush) (delta : UsageDelta)
      (rest : List UsageDelta) (stage : FlushStage) (fails : Bool) (f : UsageFlush)
      (recorded refunded : List UsageKey)
      (ran : UsageFlush.statement rows buffer delta rest stage fails = (rows', buffer', f)) :
      UsageStep
        ⟨rows, earlier ++ ⟨buffer, before ++ ⟨delta :: rest, stage⟩ :: after⟩ :: later, recorded,
          refunded⟩
        ⟨rows', earlier ++ ⟨buffer', before ++ f :: after⟩ :: later, recorded, refunded⟩
  | flushEnds (rows : UsageTable) (earlier later : List UsageProcess) (buffer : UsageBuffer)
      (before after : List UsageFlush) (stage : FlushStage) (recorded refunded : List UsageKey) :
      UsageStep
        ⟨rows, earlier ++ ⟨buffer, before ++ ⟨[], stage⟩ :: after⟩ :: later, recorded, refunded⟩
        ⟨rows, earlier ++ ⟨buffer, before ++ after⟩ :: later, recorded, refunded⟩

/-- Runs from an empty table without processes. -/
inductive UsageRun : UsageSystem → Prop
  | start : UsageRun ⟨Table.empty, [], [], []⟩
  | step {s s' : UsageSystem} (before : UsageRun s) (step : UsageStep s s') : UsageRun s'

/-! ## Conservation -/

/-- A counter of the deltas, as far as they are about one key. -/
def UsageDelta.count (counter : UsageDelta → Int) (key : UsageKey) (delta : UsageDelta) : Int :=
  if delta.key = key then counter delta else 0

/-- A counter that adds up with the deltas. -/
structure IsCounter (counter : UsageDelta → Int) : Prop where
  add : ∀ row delta, counter (UsageDelta.add row delta) = counter row + counter delta

theorem isCounter_calls : IsCounter UsageDelta.calls := ⟨fun _ _ => rfl⟩

theorem isCounter_refunded : IsCounter UsageDelta.refunded := ⟨fun _ _ => rfl⟩

def storedUsage (rows : UsageTable) (counter : UsageDelta → Int) (key : UsageKey) : Int :=
  rows.sum (UsageDelta.count counter key)

def bufferedUsage (buffer : UsageBuffer) (counter : UsageDelta → Int) (key : UsageKey) : Int :=
  buffer.sum (UsageDelta.count counter key)

/-- What a flush has taken out and not written. -/
def UsageFlush.held (counter : UsageDelta → Int) (key : UsageKey) (f : UsageFlush) : Int :=
  (f.batch.map (UsageDelta.count counter key)).sum

/-- What a process holds in memory. -/
def UsageProcess.held (counter : UsageDelta → Int) (key : UsageKey) (p : UsageProcess) : Int :=
  bufferedUsage p.buffer counter key + (p.flushes.map (UsageFlush.held counter key)).sum

def UsageSystem.total (s : UsageSystem) (counter : UsageDelta → Int) (key : UsageKey) : Int :=
  storedUsage s.rows counter key + (s.processes.map (UsageProcess.held counter key)).sum

section Counters

variable {counter : UsageDelta → Int} (isCounter : IsCounter counter) (key : UsageKey)
include isCounter

theorem UsageDelta.count_add {row delta : UsageDelta} (sameKey : row.key = delta.key) :
    (row.add delta).count counter key = row.count counter key + delta.count counter key := by
  have addKey : (row.add delta).key = delta.key := sameKey
  rw [count, count, count, addKey, sameKey, isCounter.add]
  split
  · rfl
  · exact (add_zero 0).symm

theorem bufferedUsage_bufferUsage (buffer : UsageBuffer) (delta : UsageDelta) :
    bufferedUsage (bufferUsage buffer delta) counter key =
      bufferedUsage buffer counter key + delta.count counter key := by
  rw [bufferUsage, bufferedUsage, bufferedUsage]
  cases found : buffer.find? delta.key.text with
  | none =>
      simp only [Table.sum_upsert, Table.contribution, found, Option.map_none, Option.getD_none,
        sub_zero]
  | some d =>
      have sameText : d.key.text = delta.key.text := (Table.find?_eq_some_iff.mp found).2
      have sameKey : d.key = delta.key := UsageKey.text_injective sameText
      have kept : (d.add delta).key.text = delta.key.text := congrArg UsageKey.text sameKey
      simp only [Table.sum_upsert, Table.contribution, kept, found, Option.map_some,
        Option.getD_some]
      rw [UsageDelta.count_add isCounter key sameKey, add_sub_cancel_left]

theorem storedUsage_bumpUsage (rows : UsageTable) (delta : UsageDelta) :
    storedUsage (bumpUsage rows delta).1 counter key =
      storedUsage rows counter key +
        if (bumpUsage rows delta).2 = 0 then 0 else delta.count counter key := by
  rw [bumpUsage, storedUsage, storedUsage]
  cases found : rows.find? delta.key with
  | none => exact (add_zero _).symm
  | some row =>
      have sameKey : row.key = delta.key := Table.key_of_find? found
      have kept : (row.add delta).key = delta.key := sameKey
      simp only [Table.sum_upsert, Table.contribution, kept, found, Option.map_some,
        Option.getD_some, if_neg Nat.one_ne_zero]
      rw [UsageDelta.count_add isCounter key sameKey, add_sub_cancel_left]

omit isCounter in
theorem storedUsage_insertUsage {rows rows' : UsageTable} {delta : UsageDelta}
    (inserted : insertUsage rows delta = some rows') :
    storedUsage rows' counter key = storedUsage rows counter key + delta.count counter key := by
  rw [insertUsage] at inserted
  cases found : rows.find? delta.key with
  | some => simp [found] at inserted
  | none =>
      rw [found] at inserted
      cases inserted
      simp only [storedUsage, Table.sum_upsert, Table.contribution, found, Option.map_none,
        Option.getD_none, sub_zero]

/-- A statement of a flush moves its delta: into a row, or back into the buffer. -/
theorem UsageFlush.statement_conserves {rows rows' : UsageTable} {buffer buffer' : UsageBuffer}
    {delta : UsageDelta} {rest : List UsageDelta} {stage : FlushStage} {fails : Bool}
    {f : UsageFlush}
    (ran : UsageFlush.statement rows buffer delta rest stage fails = (rows', buffer', f)) :
    storedUsage rows' counter key + (bufferedUsage buffer' counter key + f.held counter key) =
      storedUsage rows counter key + (bufferedUsage buffer counter key +
        UsageFlush.held counter key ⟨delta :: rest, stage⟩) := by
  have bumped := storedUsage_bumpUsage isCounter key rows delta
  have buffered := bufferedUsage_bufferUsage isCounter key buffer delta
  have taken : ∀ stage, UsageFlush.held counter key ⟨delta :: rest, stage⟩ =
      delta.count counter key + UsageFlush.held counter key ⟨rest, .bump⟩ := fun _ => rfl
  rw [taken stage]
  cases stage with
  | bump =>
      simp only [UsageFlush.statement] at ran
      split at ran
      · cases ran
        rw [buffered]
        omega
      · split at ran
        · rename_i unmatched
          cases ran
          rw [unmatched] at bumped
          simp only [if_pos, add_zero] at bumped
          rw [bumped, taken .insert]
        · rename_i matched
          cases ran
          rw [matched] at bumped
          simp only [Nat.succ_ne_zero, if_false] at bumped
          rw [bumped]
          omega
  | insert =>
      simp only [UsageFlush.statement] at ran
      split at ran
      · cases ran
        rw [taken .bumpAgain]
      · rename_i inserted
        cases ran
        have stored : insertUsage rows delta = some rows' := by
          cases fails with
          | true => cases inserted
          | false => exact inserted
        rw [storedUsage_insertUsage key stored]
        omega
  | bumpAgain =>
      simp only [UsageFlush.statement] at ran
      split at ran
      · cases ran
        rw [buffered]
        omega
      · split at ran
        · rename_i unmatched
          cases ran
          rw [unmatched] at bumped
          simp only [if_pos, add_zero] at bumped
          rw [bumped, buffered]
          omega
        · rename_i matched
          cases ran
          rw [matched] at bumped
          simp only [Nat.succ_ne_zero, if_false] at bumped
          rw [bumped]
          omega

theorem storedUsage_recordAwaited (rows : UsageTable) (delta : UsageDelta) :
    storedUsage (recordAwaited rows delta) counter key =
      storedUsage rows counter key + delta.count counter key := by
  have bumped := storedUsage_bumpUsage isCounter key rows delta
  rw [recordAwaited]
  cases found : rows.find? delta.key with
  | none =>
      have inserted : insertUsage rows delta = some (rows.upsert delta) := by
        rw [insertUsage, found]
      have unmatched : bumpUsage rows delta = (rows, 0) := by rw [bumpUsage, found]
      rw [unmatched]
      simp only [inserted, Option.getD_some]
      exact storedUsage_insertUsage key inserted
  | some row =>
      have matched : bumpUsage rows delta = (rows.upsert (row.add delta), 1) := by
        rw [bumpUsage, found]
      rw [matched] at bumped ⊢
      exact bumped

end Counters

/-- What a step adds to the number of recorded calls, and to the refunded ones. -/
theorem UsageStep.conserves {s s' : UsageSystem} (step : UsageStep s s')
    {counter : UsageDelta → Int} (isCounter : IsCounter counter) (key : UsageKey) :
    ∃ newCalls newRefunds : List UsageKey,
      s'.recorded = newCalls ++ s.recorded ∧ s'.refunded = newRefunds ++ s.refunded ∧
        s'.total counter key = s.total counter key +
          ((newCalls.map fun k => UsageDelta.count counter key ⟨k, 1, 0⟩).sum +
            (newRefunds.map fun k => UsageDelta.count counter key ⟨k, 0, 1⟩).sum) := by
  cases step with
  | startProcess =>
      refine ⟨[], [], rfl, rfl, ?_⟩
      have empty : UsageProcess.held counter key ⟨Table.empty, []⟩ = 0 := rfl
      simp only [UsageSystem.total, List.map_cons, List.sum_cons, empty, zero_add,
        List.map_nil, List.sum_nil, add_zero]
  | stopProcess rows earlier later recorded refunded =>
      refine ⟨[], [], rfl, rfl, ?_⟩
      have empty : UsageProcess.held counter key ⟨Table.empty, []⟩ = 0 := rfl
      simp only [UsageSystem.total, List.map_append, List.sum_append, List.map_cons,
        List.sum_cons, empty, zero_add, List.map_nil, List.sum_nil, add_zero]
  | recordGrantUsage rows earlier later p recorded refunded k =>
      refine ⟨[k], [], rfl, rfl, ?_⟩
      have buffered := bufferedUsage_bufferUsage isCounter key p.buffer ⟨k, 1, 0⟩
      simp only [UsageSystem.total, List.map_append, List.sum_append, List.map_cons,
        List.sum_cons, UsageProcess.held, buffered, List.map_nil, List.sum_nil]
      omega
  | refundGrantUsage rows earlier later p recorded refunded k =>
      refine ⟨[], [k], rfl, rfl, ?_⟩
      have buffered := bufferedUsage_bufferUsage isCounter key p.buffer ⟨k, 0, 1⟩
      simp only [UsageSystem.total, List.map_append, List.sum_append, List.map_cons,
        List.sum_cons, UsageProcess.held, buffered, List.map_nil, List.sum_nil]
      omega
  | recordInChangeset _ k =>
      refine ⟨[k], [], rfl, rfl, ?_⟩
      simp only [UsageSystem.total, storedUsage_recordAwaited isCounter key, List.map_cons,
        List.sum_cons, List.map_nil, List.sum_nil]
      omega
  | flushGrantUsage rows earlier later p recorded refunded =>
      refine ⟨[], [], rfl, rfl, ?_⟩
      have moved : UsageProcess.held counter key
          ⟨Table.empty, ⟨p.buffer.rows, .bump⟩ :: p.flushes⟩ = p.held counter key :=
        zero_add _
      simp only [UsageSystem.total, List.map_append, List.sum_append, List.map_cons,
        List.sum_cons, moved, List.map_nil, List.sum_nil, add_zero]
  | statement rows rows' earlier later buffer buffer' before after delta rest stage fails f
      recorded refunded ran =>
      refine ⟨[], [], rfl, rfl, ?_⟩
      have conserved := UsageFlush.statement_conserves isCounter key ran
      simp only [UsageSystem.total, List.map_append, List.sum_append, List.map_cons,
        List.sum_cons, UsageProcess.held, List.map_nil, List.sum_nil]
      omega
  | flushEnds rows earlier later buffer before after stage recorded refunded =>
      refine ⟨[], [], rfl, rfl, ?_⟩
      have nothing : UsageFlush.held counter key ⟨[], stage⟩ = 0 := rfl
      simp only [UsageSystem.total, List.map_append, List.sum_append, List.map_cons,
        List.sum_cons, UsageProcess.held, nothing, zero_add, List.map_nil, List.sum_nil,
        add_zero]

theorem UsageRun.conserves {s : UsageSystem} (run : UsageRun s) {counter : UsageDelta → Int}
    (isCounter : IsCounter counter) (key : UsageKey) :
    s.total counter key =
      (s.recorded.map fun k => UsageDelta.count counter key ⟨k, 1, 0⟩).sum +
        (s.refunded.map fun k => UsageDelta.count counter key ⟨k, 0, 1⟩).sum := by
  induction run with
  | start => rfl
  | step before step ih =>
      obtain ⟨calls, refunds, recorded, refunded, total⟩ := step.conserves isCounter key
      rw [total, ih, recorded, refunded]
      simp only [List.map_append, List.sum_append]
      omega

/-- Ones at the places of a key add up to how often it occurs. -/
theorem sum_indicator (key : UsageKey) (keys : List UsageKey) :
    (keys.map fun k => if k = key then (1 : Int) else 0).sum = keys.count key := by
  induction keys with
  | nil => rfl
  | cons k keys ih =>
      rw [List.map_cons, List.sum_cons, ih, List.count_cons]
      by_cases same : k = key
      · simp [same, add_comm]
      · simp [same]

theorem sum_zeros (key : UsageKey) (keys : List UsageKey) :
    (keys.map fun k => if k = key then (0 : Int) else 0).sum = 0 := by
  simp

/-- Rows and memory of all live processes together hold every recorded call once,
and every refund once. -/
theorem usage_conserved {s : UsageSystem} (run : UsageRun s) (key : UsageKey) :
    storedUsage s.rows UsageDelta.calls key +
        (s.processes.map (UsageProcess.held UsageDelta.calls key)).sum = s.recorded.count key ∧
      storedUsage s.rows UsageDelta.refunded key +
        (s.processes.map (UsageProcess.held UsageDelta.refunded key)).sum =
          s.refunded.count key := by
  have calls := run.conserves isCounter_calls key
  have refunds := run.conserves isCounter_refunded key
  simp only [UsageDelta.count, UsageSystem.total, sum_indicator, sum_zeros, add_zero, zero_add]
    at calls refunds
  exact ⟨calls, refunds⟩

/-! Two flushes of two processes race to insert the same row. -/

def sampleUsageKey : UsageKey where
  grant_ID := "g"
  day := "2026-01-01"
  service := "CardanoTransactionService"
  action := "SubmitTransaction"
  grantPlain := by decide
  dayPlain := by decide
  actionPlain := by decide

def sampleUsage (calls : Int) : UsageDelta := ⟨sampleUsageKey, calls, 0⟩

/-- Both flushes find no row; the second insert fails and its update adds. -/
theorem sampleUsage_race :
    UsageRun ⟨⟨[sampleUsage 2], by decide⟩, [⟨Table.empty, [⟨[], .bump⟩]⟩,
        ⟨Table.empty, [⟨[], .bump⟩]⟩], [sampleUsageKey, sampleUsageKey], []⟩ :=
  .step (.step (.step (.step (.step (.step (.step (.step (.step (.step (.step .start
    (.startProcess _))
    (.startProcess _))
    (.recordGrantUsage _ [] _ _ _ _ sampleUsageKey))
    (.recordGrantUsage _ [_] [] _ _ _ sampleUsageKey))
    (.flushGrantUsage _ [] _ _ _ _))
    (.flushGrantUsage _ [_] [] _ _ _))
    (.statement _ _ [] _ _ _ [] [] _ _ _ false _ _ _ rfl))
    (.statement _ _ [_] [] _ _ [] [] _ _ _ false _ _ _ rfl))
    (.statement _ _ [] _ _ _ [] [] _ _ _ false _ _ _ rfl))
    (.statement _ _ [_] [] _ _ [] [] _ _ _ false _ _ _ rfl))
    (.statement _ _ [_] [] _ _ [] [] _ _ _ false _ _ _ rfl)

theorem usage_conserved_sample :
    storedUsage ⟨[sampleUsage 2], by decide⟩ UsageDelta.calls sampleUsageKey = 2 ∧
      storedUsage ⟨[sampleUsage 2], by decide⟩ UsageDelta.calls sampleUsageKey + (0 + (0 + 0)) =
        [sampleUsageKey, sampleUsageKey].count sampleUsageKey :=
  ⟨by decide, (usage_conserved sampleUsage_race sampleUsageKey).1⟩

end Odatano
