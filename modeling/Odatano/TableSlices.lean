import Odatano.KeyedTable

/-!
# Slices of a keyed table

The rows of a table whose keys satisfy a predicate, and what writes leave of them: a write is cut
down to the keys of the slice, and writes of other keys leave the slice alone.
-/

namespace Table

variable {κ ρ : Type*} {key : ρ → κ} {slice : κ → Bool}

/-- The rows with the keys of a slice. -/
def only (table : Table key) (slice : κ → Bool) : Table key :=
  table.delete fun row => !slice (key row)

@[simp] theorem mem_only {table : Table key} {row : ρ} :
    row ∈ (table.only slice).rows ↔ row ∈ table.rows ∧ slice (key row) = true := by
  simp [only, delete]

theorem rows_only (table : Table key) :
    (table.only slice).rows = table.rows.filter fun row => slice (key row) := by
  simp [only, delete]

theorem only_eq_self {table : Table key} (inside : ∀ row ∈ table.rows, slice (key row) = true) :
    table.only slice = table :=
  delete_eq_self fun row rowMem => by rw [inside row rowMem]; rfl

theorem only_only (table : Table key) : (table.only slice).only slice = table.only slice :=
  only_eq_self fun _ rowMem => (mem_only.mp rowMem).2

/-- A selection inside the slice. -/
theorem select_only (table : Table key) {selected : ρ → Bool}
    (inside : ∀ row, selected row = true → slice (key row) = true) :
    (table.only slice).select selected = table.select selected := by
  rw [select, select, rows_only, List.filter_filter]
  refine List.filter_congr fun row _ => ?_
  cases chosen : selected row with
  | false => rfl
  | true => rw [inside row chosen]; rfl

theorem only_delete (table : Table key) (doomed : ρ → Bool) :
    (table.delete doomed).only slice = (table.only slice).delete doomed := by
  apply ext
  change ((table.rows.filter _).filter _) = ((table.rows.filter _).filter _)
  rw [List.filter_filter, List.filter_filter]
  exact List.filter_congr fun row _ => Bool.and_comm _ _

/-- Deletions outside the slice. -/
theorem only_delete_of_apart (table : Table key) {doomed : ρ → Bool}
    (apart : ∀ row, slice (key row) = true → doomed row = false) :
    (table.delete doomed).only slice = table.only slice := by
  rw [only_delete]
  exact delete_eq_self fun row rowMem => apart row (mem_only.mp rowMem).2

theorem only_update (table : Table key) (selected : ρ → Bool) (change : ρ → ρ)
    (keepsKey : ∀ row, key (change row) = key row) :
    (table.update selected change keepsKey).only slice =
      (table.only slice).update selected change keepsKey := by
  apply ext
  rw [rows_only]
  change ((table.rows.map _).filter _) = (table.only slice).rows.map _
  rw [rows_only, List.filter_map]
  congr 1
  refine List.filter_congr fun row _ => ?_
  simp only [Function.comp_apply]
  split
  · rw [keepsKey]
  · rfl

/-- Rows that a change leaves alone. -/
theorem update_congr (table : Table key) {selected others : ρ → Bool} {change instead : ρ → ρ}
    {keepsKey : ∀ row, key (change row) = key row}
    {keepsToo : ∀ row, key (instead row) = key row}
    (same : ∀ row ∈ table.rows, (if selected row then change row else row) =
      if others row then instead row else row) :
    table.update selected change keepsKey = table.update others instead keepsToo :=
  ext (List.map_congr_left same)

theorem update_eq_self (table : Table key) {selected : ρ → Bool} {change : ρ → ρ}
    {keepsKey : ∀ row, key (change row) = key row}
    (same : ∀ row ∈ table.rows, selected row = true → change row = row) :
    table.update selected change keepsKey = table := by
  apply ext
  change table.rows.map _ = table.rows
  conv_rhs => rw [← List.map_id table.rows]
  refine List.map_congr_left fun row rowMem => ?_
  split
  · rename_i chosen
    exact same row rowMem chosen
  · rfl

section Lookup

variable [DecidableEq κ]

theorem find?_only (table : Table key) (k : κ) :
    (table.only slice).find? k = if slice k then table.find? k else none := by
  rw [only, find?_delete]
  cases found : table.find? k with
  | none => simp
  | some row =>
      rw [Option.filter_some, key_of_find? found]
      cases slice k <;> rfl

theorem find?_only_of_mem (table : Table key) {k : κ} (inside : slice k = true) :
    (table.only slice).find? k = table.find? k := by
  rw [find?_only, if_pos inside]

theorem only_upsert (table : Table key) (row : ρ) :
    (table.upsert row).only slice =
      if slice (key row) then (table.only slice).upsert row else table.only slice := by
  apply ext
  rw [rows_only]
  change (upsertRows key table.rows row).filter _ = _
  cases inside : slice (key row) with
  | true =>
      rw [if_pos rfl]
      change _ = upsertRows key (table.only slice).rows row
      rw [rows_only]
      induction table.rows with
      | nil => simp [upsertRows, inside]
      | cons old rest ih =>
          by_cases same : key old = key row
          · simp [upsertRows, same, inside]
          · cases kept : slice (key old) <;> simp [upsertRows, same, kept, ih]
  | false =>
      rw [if_neg Bool.false_ne_true, rows_only]
      induction table.rows with
      | nil => simp [upsertRows, inside]
      | cons old rest ih =>
          by_cases same : key old = key row
          · simp [upsertRows, same, inside]
          · cases kept : slice (key old) <;> simp [upsertRows, same, kept, ih]

/-- A write is cut down to the keys of the slice. -/
theorem only_upsertAll (table : Table key) (rows : List ρ) :
    (table.upsertAll rows).only slice =
      (table.only slice).upsertAll (rows.filter fun row => slice (key row)) := by
  induction rows generalizing table with
  | nil => rfl
  | cons row rows ih =>
      rw [upsertAll_cons, ih, only_upsert, List.filter_cons]
      cases slice (key row) with
      | true => rfl
      | false => rfl

/-- A write outside the slice. -/
theorem only_upsertAll_of_apart (table : Table key) {rows : List ρ}
    (apart : ∀ row ∈ rows, slice (key row) = false) :
    (table.upsertAll rows).only slice = table.only slice := by
  rw [only_upsertAll, List.filter_eq_nil_iff.mpr fun row rowMem => by rw [apart row rowMem]; simp]
  rfl

end Lookup

end Table
