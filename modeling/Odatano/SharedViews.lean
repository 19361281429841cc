import Mathlib.Data.List.Basic

/-!
# Tasks that read a shared value

Tasks that suspend, and read a shared value whenever they go on.  A task that starts may replace
the value.  As long as nobody replaces it under a task in progress, every task ends as it would
have alone.
-/

/-- A computation that suspends: it has ended, or it goes on with the shared value as it is then
and an answer. -/
inductive Resumable (View Answer Result : Type) where
  | done (result : Result)
  | wait (resume : View → Answer → Resumable View Answer Result)

namespace Resumable

variable {View Answer Result : Type}

def isDone : Resumable View Answer Result → Bool
  | done _ => true
  | wait _ => false

/-- Go on with one answer; a task that has ended stays. -/
def receive (view : View) (answer : Answer) :
    Resumable View Answer Result → Resumable View Answer Result
  | done result => done result
  | wait resume => resume view answer

/-- Await a task: when it has ended, the caller goes on with its result in a step of its own. -/
def awaited {Other : Type} (task : Resumable View Answer Result)
    (next : Result → View → Resumable View Answer Other) : Resumable View Answer Other :=
  match task with
  | done result => wait fun view _ => next result view
  | wait resume => wait fun view answer => (resume view answer).awaited next

/-- Go on with answers while the shared value stays. -/
def alone (view : View) (answers : List Answer) (task : Resumable View Answer Result) :
    Resumable View Answer Result :=
  answers.foldl (fun task answer => task.receive view answer) task

@[simp] theorem alone_nil (view : View) (task : Resumable View Answer Result) :
    task.alone view [] = task :=
  rfl

@[simp] theorem alone_cons (view : View) (answer : Answer) (answers : List Answer)
    (task : Resumable View Answer Result) :
    task.alone view (answer :: answers) = (task.receive view answer).alone view answers :=
  rfl

@[simp] theorem alone_done (view : View) (answers : List Answer) (result : Result) :
    (done result : Resumable View Answer Result).alone view answers = done result := by
  induction answers with
  | nil => rfl
  | cons answer answers ih => exact ih

theorem alone_concat (view : View) (answers : List Answer) (answer : Answer)
    (task : Resumable View Answer Result) :
    task.alone view (answers ++ [answer]) = (task.alone view answers).receive view answer := by
  rw [alone, List.foldl_append]
  rfl

/-- A task that ends took an answer where it was suspended. -/
theorem alone_wait_eq_done {view : View} {answers : List Answer}
    {resume : View → Answer → Resumable View Answer Result} {result : Result}
    (ended : (wait resume).alone view answers = done result) :
    ∃ answer rest, (resume view answer).alone view rest = done result := by
  cases answers with
  | nil => cases ended
  | cons answer rest => exact ⟨answer, rest, ended⟩

theorem alone_done_eq_done {view : View} {answers : List Answer} {first result : Result}
    (ended : (done first : Resumable View Answer Result).alone view answers = done result) :
    result = first := by
  rw [alone_done] at ended
  exact (done.inj ended).symm

/-- A caller that ends awaited a task that ended. -/
theorem alone_awaited_eq_done {Other : Type} {view : View} {task : Resumable View Answer Result}
    {next : Result → View → Resumable View Answer Other} {result : Other}
    {answers : List Answer} (ended : (task.awaited next).alone view answers = done result) :
    ∃ inner early late, task.alone view early = done inner ∧
      (next inner view).alone view late = done result := by
  induction task generalizing answers with
  | done inner =>
      obtain ⟨answer, late, ended⟩ := alone_wait_eq_done ended
      exact ⟨inner, [], late, rfl, ended⟩
  | wait resume ih =>
      obtain ⟨answer, rest, ended⟩ := alone_wait_eq_done ended
      obtain ⟨inner, early, late, first, second⟩ := ih view answer ended
      exact ⟨inner, answer :: early, late, first, second⟩

/-- A task among others, with the shared value it started with, the values it went on with and the
answers it has had. -/
structure Party (Label View Answer Result : Type) where
  label : Label
  own : View
  started : Resumable View Answer Result
  seen : List View
  answers : List Answer
  now : Resumable View Answer Result

namespace Party

variable {Label : Type}

/-- A task up to where it first suspends. -/
def start (label : Label) (own : View) (started : Resumable View Answer Result) :
    Party Label View Answer Result :=
  ⟨label, own, started, [], [], started⟩

def receive (view : View) (answer : Answer) (party : Party Label View Answer Result) :
    Party Label View Answer Result :=
  match party.now with
  | done _ => party
  | wait resume =>
      { party with
        seen := party.seen ++ [view]
        answers := party.answers ++ [answer]
        now := resume view answer }

@[simp] theorem label_receive (view : View) (answer : Answer)
    (party : Party Label View Answer Result) : (party.receive view answer).label = party.label := by
  unfold receive
  split <;> rfl

/-- The task always found the value it started with. -/
def Kept (party : Party Label View Answer Result) : Prop := ∀ view ∈ party.seen, view = party.own

/-- With the value it started with, the task is where it would be alone. -/
def Follows (party : Party Label View Answer Result) : Prop :=
  party.Kept → party.now = party.started.alone party.own party.answers

theorem Follows.receive {party : Party Label View Answer Result} (follows : party.Follows)
    (view : View) (answer : Answer) : (party.receive view answer).Follows := by
  intro kept
  unfold Party.receive at kept ⊢
  split at kept
  · exact follows kept
  · rename_i resume suspended
    have earlier : party.Kept := fun old member => kept old (List.mem_append_left _ member)
    have same : view = party.own := kept view (List.mem_append_right _ (List.mem_singleton_self _))
    dsimp only
    rw [alone_concat, ← follows earlier, suspended, same]
    rfl

end Party

/-- Tasks in the order they started, and the value they share. -/
structure Shared (Label View Answer Result : Type) where
  view : View
  parties : List (Party Label View Answer Result)

inductive Event (Label View Answer Result : Type) where
  /-- A task replaces the value and runs up to where it suspends. -/
  | start (label : Label) (replace : View → View) (task : View → Resumable View Answer Result)
  /-- An answer for the task at a position. -/
  | answer (position : Nat) (answer : Answer)

namespace Shared

variable {Label : Type} {s : Shared Label View Answer Result}
  {event : Event Label View Answer Result} {events : List (Event Label View Answer Result)}

def step (s : Shared Label View Answer Result) :
    Event Label View Answer Result → Shared Label View Answer Result
  | .start label replace task =>
      { view := replace s.view
        parties := s.parties ++ [.start label (replace s.view) (task (replace s.view))] }
  | .answer position answer =>
      { s with parties := s.parties.modify position (Party.receive s.view answer) }

def run (s : Shared Label View Answer Result) (events : List (Event Label View Answer Result)) :
    Shared Label View Answer Result :=
  events.foldl step s

/-- What starting gives and answers keep holds of every party. -/
theorem forall_step {property : Party Label View Answer Result → Prop}
    (holds : ∀ party ∈ s.parties, property party)
    (starts : ∀ label replace task, event = .start label replace task →
      property (.start label (replace s.view) (task (replace s.view))))
    (keeps : ∀ party answer, property party → property (party.receive s.view answer)) :
    ∀ party ∈ (s.step event).parties, property party := by
  intro party member
  cases event with
  | start label replace task =>
      rcases List.mem_append.mp member with before | new
      · exact holds party before
      · cases List.mem_singleton.mp new
        exact starts label replace task rfl
  | answer position answer =>
      obtain ⟨index, within, rfl⟩ := List.getElem_of_mem member
      have inside : index < s.parties.length := by
        simpa only [step, List.length_modify] using within
      have same : (s.step (.answer position answer)).parties[index] =
          if position = index then s.parties[index].receive s.view answer
          else s.parties[index] := by
        simp only [step, List.getElem_modify]
      rw [same]
      split
      · exact keeps _ answer (holds _ (List.getElem_mem inside))
      · exact holds _ (List.getElem_mem inside)

/-- In every run, a task that always found the value it started with is where it would be alone. -/
theorem run_follows (follow : ∀ party ∈ s.parties, party.Follows) :
    ∀ party ∈ (s.run events).parties, party.Follows := by
  induction events generalizing s with
  | nil => exact follow
  | cons event events ih =>
      exact ih (forall_step follow (fun _ _ _ _ _ => rfl) fun _ answer follows =>
        follows.receive s.view answer)

/-! ## Runs that replace the value under no task -/

/-- No task is in progress. -/
def Idle (s : Shared Label View Answer Result) : Prop :=
  ∀ party ∈ s.parties, party.now.isDone = true

/-- An event that replaces the value under no task in progress. -/
def Spares (s : Shared Label View Answer Result) : Event Label View Answer Result → Prop
  | .start _ replace _ => replace s.view = s.view ∨ s.Idle
  | .answer _ _ => True

def AllSpare (s : Shared Label View Answer Result) : List (Event Label View Answer Result) → Prop
  | [] => True
  | event :: events => s.Spares event ∧ (s.step event).AllSpare events

/-- Every task found the value it started with, and finds it again unless it has ended. -/
def Undisturbed (s : Shared Label View Answer Result) : Prop :=
  ∀ party ∈ s.parties, party.Kept ∧ (party.now.isDone = true ∨ party.own = s.view)

theorem step_undisturbed (undisturbed : s.Undisturbed) (spares : s.Spares event) :
    (s.step event).Undisturbed := by
  cases event with
  | start label replace task =>
      intro party member
      rcases List.mem_append.mp member with before | new
      · obtain ⟨kept, ended | own⟩ := undisturbed party before
        · exact ⟨kept, .inl ended⟩
        · rcases spares with unchanged | idle
          · exact ⟨kept, .inr (own.trans unchanged.symm)⟩
          · exact ⟨kept, .inl (idle party before)⟩
      · cases List.mem_singleton.mp new
        exact ⟨fun _ none => absurd none List.not_mem_nil, .inr rfl⟩
  | answer position answer =>
      refine forall_step undisturbed (fun _ _ _ start => by cases start) ?_
      rintro party answer ⟨kept, later⟩
      unfold Party.receive
      split
      · exact ⟨kept, later⟩
      · rename_i resume suspended
        have own : party.own = s.view := by
          rcases later with ended | own
          · rw [suspended] at ended
            cases ended
          · exact own
        refine ⟨?_, .inr own⟩
        intro view member
        rcases List.mem_append.mp member with before | new
        · exact kept view before
        · exact (List.mem_singleton.mp new).trans own.symm

theorem run_undisturbed (undisturbed : s.Undisturbed) (spare : s.AllSpare events) :
    (s.run events).Undisturbed := by
  induction events generalizing s with
  | nil => exact undisturbed
  | cons event events ih => exact ih (step_undisturbed undisturbed spare.1) spare.2

end Shared

end Resumable
