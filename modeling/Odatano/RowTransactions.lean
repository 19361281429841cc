import Mathlib.Logic.Function.Basic

/-!
# Transactions on a locked row

Transactions of several parties on one row and on the tables beside it.  An update that
matches the row locks it until its transaction ends; the other parties read the
committed version meanwhile.  Statements of different transactions interleave.
-/

namespace RowTransactions

/-- A statement of a transaction. -/
inductive Statement (Row Tables : Type*)
  | write (set : Tables → Tables)
  /-- An update of the row where it matches. -/
  | update (matched : Row → Bool) (set : Row → Row)
  /-- A read of the row, after which the transaction goes on if it passes. -/
  | check (passes : Row → Bool)

/-- An open transaction: what it has still to do, and what it wrote to the tables. -/
structure Transaction (Row Tables Label : Type*) where
  label : Label
  rest : List (Statement Row Tables)
  writes : Tables → Tables

/-- A transaction before its first statement. -/
def Transaction.of {Row Tables Label : Type*} (label : Label)
    (program : List (Statement Row Tables)) : Transaction Row Tables Label :=
  ⟨label, program, id⟩

structure Store (Row Tables Label : Type*) where
  row : Row
  tables : Tables
  opened : Nat → Option (Transaction Row Tables Label)
  /-- The transaction that locks the row, and its version of it. -/
  locked : Option (Nat × Row)

namespace Store

variable {Row Tables Label : Type*} {s s' : Store Row Tables Label} {i j : Nat}
  {t u : Transaction Row Tables Label}

/-- The version of the row that a transaction has written itself. -/
def own (s : Store Row Tables Label) (i : Nat) : Option Row :=
  (s.locked.filter fun holder => holder.1 = i).map Prod.snd

/-- The row as a transaction sees it. -/
def view (s : Store Row Tables Label) (i : Nat) : Row := (s.own i).getD s.row

/-- No other transaction locks the row. -/
def Free (s : Store Row Tables Label) (i : Nat) : Prop := ∀ j ≠ i, s.own j = none

/-- A transaction begins, or goes on after a statement. -/
def proceed (s : Store Row Tables Label) (i : Nat) (t : Transaction Row Tables Label) :
    Store Row Tables Label :=
  { s with opened := Function.update s.opened i (some t) }

def lock (s : Store Row Tables Label) (i : Nat) (version : Row) : Store Row Tables Label :=
  { s with locked := some (i, version) }

/-- The end of a transaction that is rolled back. -/
def close (s : Store Row Tables Label) (i : Nat) : Store Row Tables Label :=
  { s with
    opened := Function.update s.opened i none
    locked := s.locked.filter fun holder => holder.1 ≠ i }

def commit (s : Store Row Tables Label) (i : Nat) (t : Transaction Row Tables Label) :
    Store Row Tables Label :=
  { s.close i with row := s.view i, tables := t.writes s.tables }

/-- One statement of an open transaction.  An update that does not match waits for no
lock. -/
inductive Runs (s : Store Row Tables Label) (i : Nat) (t : Transaction Row Tables Label) :
    Store Row Tables Label → Prop
  | write (set : Tables → Tables) (rest : List (Statement Row Tables))
      (next : t.rest = .write set :: rest) :
      Runs s i t (s.proceed i { t with rest, writes := set ∘ t.writes })
  | hit (matched : Row → Bool) (set : Row → Row) (rest : List (Statement Row Tables))
      (next : t.rest = .update matched set :: rest) (free : s.Free i)
      (hits : matched (s.view i) = true) :
      Runs s i t ((s.lock i (set (s.view i))).proceed i { t with rest })
  | miss (matched : Row → Bool) (set : Row → Row) (rest : List (Statement Row Tables))
      (next : t.rest = .update matched set :: rest) (misses : matched (s.view i) = false) :
      Runs s i t (s.proceed i { t with rest })
  | pass (passes : Row → Bool) (rest : List (Statement Row Tables))
      (next : t.rest = .check passes :: rest) (passed : passes (s.view i) = true) :
      Runs s i t (s.proceed i { t with rest })

/-! ## Versions of the row -/

@[simp] theorem opened_proceed_self : (s.proceed i t).opened i = some t :=
  Function.update_self ..

theorem opened_proceed_of_ne (other : j ≠ i) : (s.proceed i t).opened j = s.opened j :=
  Function.update_of_ne other ..

@[simp] theorem opened_close_self : (s.close i).opened i = none :=
  Function.update_self ..

theorem opened_close_of_ne (other : j ≠ i) : (s.close i).opened j = s.opened j :=
  Function.update_of_ne other ..

@[simp] theorem opened_lock {version : Row} : (s.lock i version).opened = s.opened := rfl

@[simp] theorem opened_commit : (s.commit i t).opened j = (s.close i).opened j := rfl

@[simp] theorem own_proceed : (s.proceed i t).own j = s.own j := rfl

@[simp] theorem row_proceed : (s.proceed i t).row = s.row := rfl

@[simp] theorem row_lock {version : Row} : (s.lock i version).row = s.row := rfl

theorem own_lock_self {version : Row} : (s.lock i version).own i = some version := by
  simp [own, lock]

theorem own_lock_of_ne {version : Row} (other : j ≠ i) : (s.lock i version).own j = none := by
  simp [own, lock, other.symm]

theorem own_close_of_ne (other : j ≠ i) : (s.close i).own j = s.own j := by
  unfold own close
  cases held : s.locked with
  | none => rfl
  | some holder =>
    have onlyOther : ∀ kept : Nat × Row,
        (decide (kept.1 ≠ i) && decide (kept.1 = j)) = decide (kept.1 = j) := by
      intro kept
      by_cases same : kept.1 = j
      · simp [same, other]
      · simp [same]
    simp only [Option.filter_filter, onlyOther]

@[simp] theorem own_commit : (s.commit i t).own j = (s.close i).own j := rfl

/-- Two transactions never lock the row at once. -/
theorem free_of_own {version : Row} (mine : s.own i = some version) : s.Free i := by
  intro j other
  obtain ⟨holder, kept, -⟩ := Option.map_eq_some_iff.mp mine
  obtain ⟨held, holds⟩ := Option.filter_eq_some_iff.mp kept
  have notOther : ¬holder.1 = j := fun same =>
    other (same.symm.trans (of_decide_eq_true holds))
  simp [own, held, notOther]

/-- A transaction that does not lock the row sees the committed one. -/
theorem view_of_own_none (none : s.own i = none) : s.view i = s.row := by
  rw [view, none, Option.getD_none]

theorem view_of_own {version : Row} (mine : s.own i = some version) :
    s.view i = version := by
  rw [view, mine, Option.getD_some]

/-! ## Facts about every open transaction -/

/-- A fact about each open transaction, the committed row and its own version. -/
def Each (holds : Row → Option Row → Transaction Row Tables Label → Prop)
    (s : Store Row Tables Label) : Prop :=
  ∀ i t, s.opened i = some t → holds s.row (s.own i) t

variable {holds : Row → Option Row → Transaction Row Tables Label → Prop}

/-- A new transaction, or one that does not touch the row, leaves the others alone. -/
theorem Each.proceed (each : s.Each holds) (mine : holds s.row (s.own i) t) :
    (s.proceed i t).Each holds := by
  intro j u opened
  by_cases same : j = i
  · subst same
    rw [opened_proceed_self] at opened
    cases opened
    exact mine
  · rw [opened_proceed_of_ne same] at opened
    exact each j u opened

/-- An update that locks the row does too. -/
theorem Each.lock {version : Row} (each : s.Each holds) (free : s.Free i)
    (mine : holds s.row (some version) t) :
    ((s.lock i version).proceed i t).Each holds := by
  intro j u opened
  by_cases same : j = i
  · subst same
    rw [opened_proceed_self] at opened
    cases opened
    rw [own_proceed, own_lock_self]
    exact mine
  · rw [opened_proceed_of_ne same, opened_lock] at opened
    have before := each j u opened
    rw [free j same] at before
    rw [own_proceed, own_lock_of_ne same]
    exact before

theorem Each.close (each : s.Each holds) : (s.close i).Each holds := by
  intro j u opened
  by_cases same : j = i
  · subst same
    rw [opened_close_self] at opened
    cases opened
  · rw [opened_close_of_ne same] at opened
    rw [own_close_of_ne same]
    exact each j u opened

/-- A commit keeps a fact that each transaction without the lock can rely on. -/
theorem Each.commit (each : s.Each holds)
    (rely : ∀ j u, j ≠ i → s.opened j = some u → s.own j = none →
      holds s.row none u → holds (s.view i) none u) :
    (s.commit i t).Each holds := by
  intro j u opened
  by_cases same : j = i
  · subst same
    rw [opened_commit, opened_close_self] at opened
    cases opened
  · rw [opened_commit, opened_close_of_ne same] at opened
    have before := each j u opened
    rw [own_commit, own_close_of_ne same]
    change holds (s.view i) (s.own j) u
    cases mine : s.own j with
    | none =>
      rw [mine] at before
      exact rely j u same opened mine before
    | some version =>
      rw [mine] at before
      have notMine : s.own i = none := free_of_own mine i (Ne.symm same)
      rw [view_of_own_none notMine]
      exact before

/-- What a statement has to keep of the fact about its own transaction. -/
structure Kept (holds : Row → Option Row → Transaction Row Tables Label → Prop)
    (t : Transaction Row Tables Label) (row : Row) (own : Option Row) : Prop where
  write : ∀ set rest, t.rest = .write set :: rest →
    holds row own { t with rest, writes := set ∘ t.writes }
  hit : ∀ matched set rest, t.rest = .update matched set :: rest →
    matched (own.getD row) = true → holds row (some (set (own.getD row))) { t with rest }
  miss : ∀ matched set rest, t.rest = .update matched set :: rest →
    matched (own.getD row) = false → holds row own { t with rest }
  pass : ∀ passes rest, t.rest = .check passes :: rest →
    passes (own.getD row) = true → holds row own { t with rest }

/-- A statement keeps the fact about every transaction. -/
theorem Each.runs (each : s.Each holds) (kept : Kept holds t s.row (s.own i))
    (runs : Runs s i t s') : s'.Each holds := by
  cases runs with
  | write set rest next => exact each.proceed (kept.write set rest next)
  | hit matched set rest next free hits =>
    exact each.lock free (kept.hit matched set rest next hits)
  | miss matched set rest next misses =>
    exact each.proceed (kept.miss matched set rest next misses)
  | pass passes rest next passed => exact each.proceed (kept.pass passes rest next passed)

/-- Statements leave the committed row alone. -/
theorem Runs.row_eq (runs : Runs s i t s') : s'.row = s.row := by
  cases runs <;> rfl

/-- Statements leave the committed tables alone. -/
theorem Runs.tables_eq (runs : Runs s i t s') : s'.tables = s.tables := by
  cases runs <;> rfl

/-- A statement is taken off the program of its transaction. -/
theorem Runs.next (runs : Runs s i t s') :
    ∃ statement u, t.rest = statement :: u.rest ∧ u.label = t.label ∧
      s'.opened = Function.update s.opened i (some u) := by
  cases runs with
  | write set rest next =>
    exact ⟨_, { t with rest, writes := set ∘ t.writes }, next, rfl, rfl⟩
  | hit matched set rest next free hits => exact ⟨_, { t with rest }, next, rfl, rfl⟩
  | miss matched set rest next misses => exact ⟨_, { t with rest }, next, rfl, rfl⟩
  | pass passes rest next passed => exact ⟨_, { t with rest }, next, rfl, rfl⟩

/-- Only an open transaction locks the row. -/
def LockedOpen (s : Store Row Tables Label) : Prop :=
  ∀ i, s.opened i = none → s.own i = none

theorem LockedOpen.proceed (locked : s.LockedOpen) : (s.proceed i t).LockedOpen := by
  intro j closed
  by_cases same : j = i
  · subst same
    rw [opened_proceed_self] at closed
    cases closed
  · rw [opened_proceed_of_ne same] at closed
    exact locked j closed

theorem LockedOpen.close (locked : s.LockedOpen) : (s.close i).LockedOpen := by
  intro j closed
  by_cases same : j = i
  · subst same
    unfold own Store.close
    cases held : s.locked with
    | none => rfl
    | some holder =>
      have nobody : ∀ kept : Nat × Row,
          (decide (kept.1 ≠ j) && decide (kept.1 = j)) = false := by
        intro kept
        by_cases mine : kept.1 = j <;> simp [mine]
      simp only [Option.filter_filter, nobody]
      rfl
  · rw [opened_close_of_ne same] at closed
    rw [own_close_of_ne same]
    exact locked j closed

theorem LockedOpen.commit (locked : s.LockedOpen) : (s.commit i t).LockedOpen :=
  locked.close

theorem LockedOpen.runs (locked : s.LockedOpen) (runs : Runs s i t s') : s'.LockedOpen := by
  cases runs with
  | write set rest next => exact locked.proceed
  | hit matched set rest next free hits =>
    intro j closed
    by_cases same : j = i
    · subst same
      rw [opened_proceed_self] at closed
      cases closed
    · rw [own_proceed, own_lock_of_ne same]
  | miss matched set rest next misses => exact locked.proceed
  | pass passes rest next passed => exact locked.proceed

/-- Every open transaction was open before, under the same label. -/
def Within (s' s : Store Row Tables Label) : Prop :=
  ∀ j u, s'.opened j = some u → ∃ v, s.opened j = some v ∧ v.label = u.label

theorem within_close : (s.close i).Within s := by
  intro j u opened
  by_cases same : j = i
  · subst same
    rw [opened_close_self] at opened
    cases opened
  · exact ⟨u, opened_close_of_ne same ▸ opened, rfl⟩

theorem within_commit : (s.commit i t).Within s := within_close

theorem Runs.within (opened : s.opened i = some t) (runs : Runs s i t s') : s'.Within s := by
  intro j u openedAfter
  obtain ⟨statement, t', -, label, after⟩ := runs.next
  rw [after] at openedAfter
  by_cases same : j = i
  · subst same
    rw [Function.update_self] at openedAfter
    cases openedAfter
    exact ⟨t, opened, label.symm⟩
  · rw [Function.update_of_ne same] at openedAfter
    exact ⟨u, openedAfter, rfl⟩

end Store

end RowTransactions
