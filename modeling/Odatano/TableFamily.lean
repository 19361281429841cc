import Odatano.KeyedTable

/-!
# Families of keyed tables

Several tables that are written and deleted from together.  The family is
indexed by table names, and every name has its own row and key types.  The main
rule is that a deletion which covers a batch of rows undoes writing the batch,
as long as it spares what was stored before.
-/

/-- One table for every name. -/
abbrev TableFamily {ι : Type*} {ρ κ : ι → Type*} (key : ∀ i, ρ i → κ i) :=
  ∀ i, Table (key i)

namespace TableFamily

variable {ι : Type*} {ρ κ : ι → Type*} {key : ∀ i, ρ i → κ i}

/-- Delete by key, in every table. -/
def delete (tables : TableFamily key) (doomed : ∀ i, κ i → Bool) : TableFamily key :=
  fun i => (tables i).delete fun row => doomed i (key i row)

/-- Two deletions amount to one. -/
theorem delete_delete (tables : TableFamily key) (first second : ∀ i, κ i → Bool) :
    delete (delete tables first) second =
      delete tables fun i k => first i k || second i k := by
  funext i
  apply Table.ext
  simp only [delete, Table.delete, List.filter_filter]
  apply List.filter_congr
  intro row _
  cases first i (key i row) <;> cases second i (key i row) <;> rfl

/-- Deleting keys that are not stored changes nothing. -/
theorem delete_eq_self {tables : TableFamily key} {doomed : ∀ i, κ i → Bool}
    (spared : ∀ i, ∀ row ∈ (tables i).rows, doomed i (key i row) = false) :
    delete tables doomed = tables :=
  funext fun i => Table.delete_eq_self (spared i)

theorem mem_delete {tables : TableFamily key} {doomed : ∀ i, κ i → Bool} {i : ι} {row : ρ i} :
    row ∈ (delete tables doomed i).rows ↔
      row ∈ (tables i).rows ∧ doomed i (key i row) = false :=
  Table.mem_delete

/-- Deletions one after another delete what any of them covers. -/
theorem foldl_delete {α : Type*} (tables : TableFamily key) (doomed : α → ∀ i, κ i → Bool)
    (parts : List α) :
    parts.foldl (fun tables part => delete tables (doomed part)) tables =
      delete tables fun i k => parts.any fun part => doomed part i k := by
  induction parts generalizing tables with
  | nil => exact (delete_eq_self fun i row _ => rfl).symm
  | cons part parts ih => rw [List.foldl_cons, ih, delete_delete]; rfl

section Write

variable [∀ i, DecidableEq (κ i)]

/-- Insert or replace a batch of rows, table by table. -/
def write (tables : TableFamily key) (batch : ∀ i, List (ρ i)) : TableFamily key :=
  fun i => (tables i).upsertAll (batch i)

/-- A written row was stored before or is one of the batch. -/
theorem mem_write {tables : TableFamily key} {batch : ∀ i, List (ρ i)} {i : ι} {row : ρ i}
    (rowMem : row ∈ (write tables batch i).rows) : row ∈ (tables i).rows ∨ row ∈ batch i :=
  Table.mem_upsertAll rowMem

/-- Two batches amount to one. -/
theorem write_write (tables : TableFamily key) (first second : ∀ i, List (ρ i)) :
    write (write tables first) second = write tables fun i => first i ++ second i :=
  funext fun i => ((tables i).upsertAll_append (first i) (second i)).symm

/-- A deletion that covers a batch does not see whether it was written. -/
theorem delete_write (tables : TableFamily key) {batch : ∀ i, List (ρ i)}
    {doomed : ∀ i, κ i → Bool}
    (covered : ∀ i, ∀ row ∈ batch i, doomed i (key i row) = true) :
    delete (write tables batch) doomed = delete tables doomed :=
  funext fun i => Table.delete_upsertAll (tables i) (doomed i) (covered i)

end Write

end TableFamily
