import Mathlib.Data.List.Induction
import Mathlib.Data.List.Nodup

/-!
# Keyed tables

A table is a list of rows in storage order, no two of which share a key.  The
operations are the ones a relational store offers on a primary key: lookup,
selection, insert-or-replace, deletion and update by a predicate.  The same
structure serves as an insertion-ordered map, whose rows are key/value pairs.
-/

/-- The distinct elements of a list, in the order of their first occurrences. -/
def distinct {α : Type*} [DecidableEq α] : List α → List α
  | [] => []
  | value :: rest => value :: (distinct rest).filter fun other => other ≠ value

@[simp]
theorem mem_distinct {α : Type*} [DecidableEq α] {values : List α} {value : α} :
    value ∈ distinct values ↔ value ∈ values := by
  induction values with
  | nil => simp [distinct]
  | cons first rest ih =>
      by_cases same : value = first
      · simp [distinct, same]
      · simp [distinct, same, ih]

theorem distinct_nodup {α : Type*} [DecidableEq α] (values : List α) :
    (distinct values).Nodup := by
  induction values with
  | nil => exact List.nodup_nil
  | cons first rest ih =>
      refine List.nodup_cons.mpr ⟨?_, ih.filter _⟩
      simp

/-- Rows in storage order, no two of which share a key. -/
structure Table {κ ρ : Type*} (key : ρ → κ) where
  rows : List ρ
  keys_nodup : (rows.map key).Nodup

namespace Table

variable {κ ρ : Type*} {key : ρ → κ}

@[ext]
theorem ext {first second : Table key} (sameRows : first.rows = second.rows) :
    first = second := by
  cases first
  cases second
  simpa using sameRows

/-- The table without rows. -/
def empty : Table key := ⟨[], List.nodup_nil⟩

instance : Inhabited (Table key) := ⟨empty⟩

@[simp] theorem rows_empty : (empty : Table key).rows = [] := rfl

/-- The rows satisfying a predicate, in storage order. -/
def select (table : Table key) (selected : ρ → Bool) : List ρ :=
  table.rows.filter selected

@[simp] theorem mem_select {table : Table key} {selected : ρ → Bool} {row : ρ} :
    row ∈ table.select selected ↔ row ∈ table.rows ∧ selected row = true :=
  List.mem_filter

/-- Remove every row satisfying a predicate. -/
def delete (table : Table key) (doomed : ρ → Bool) : Table key where
  rows := table.rows.filter fun row => !doomed row
  keys_nodup := table.keys_nodup.sublist (List.filter_sublist.map key)

/-- Change every row satisfying a predicate, leaving its key alone. -/
def update (table : Table key) (selected : ρ → Bool) (change : ρ → ρ)
    (keepsKey : ∀ row, key (change row) = key row) : Table key where
  rows := table.rows.map fun row => if selected row then change row else row
  keys_nodup := by
    rw [List.map_map]
    convert table.keys_nodup using 2
    funext row
    simp only [Function.comp_apply]
    split
    · exact keepsKey row
    · rfl

theorem mem_delete {table : Table key} {doomed : ρ → Bool} {row : ρ} :
    row ∈ (table.delete doomed).rows ↔ row ∈ table.rows ∧ doomed row = false := by
  simp [delete]

theorem delete_eq_self {table : Table key} {doomed : ρ → Bool}
    (untouched : ∀ row ∈ table.rows, doomed row = false) :
    table.delete doomed = table := by
  apply ext
  apply List.filter_eq_self.mpr
  intro row rowMem
  rw [untouched row rowMem, Bool.not_false]

theorem mem_rows_inj {table : Table key} {first second : ρ}
    (firstMem : first ∈ table.rows) (secondMem : second ∈ table.rows)
    (sameKey : key first = key second) : first = second :=
  List.inj_on_of_nodup_map table.keys_nodup firstMem secondMem sameKey

section Lookup

variable [DecidableEq κ]

/-- The row with a given key. -/
def find? (table : Table key) (k : κ) : Option ρ :=
  table.rows.find? fun row => decide (key row = k)

/-- Replace the row with the key of `row` in place, or append `row`. -/
def upsertRows (key : ρ → κ) : List ρ → ρ → List ρ
  | [], row => [row]
  | old :: rest, row =>
      if key old = key row then row :: rest
      else old :: upsertRows key rest row

theorem map_upsertRows (rows : List ρ) (row : ρ) :
    (upsertRows key rows row).map key =
      if key row ∈ rows.map key then rows.map key
      else rows.map key ++ [key row] := by
  induction rows with
  | nil => simp [upsertRows]
  | cons old rest ih =>
      simp only [upsertRows]
      by_cases same : key old = key row
      · simp [same]
      · have different : key row ≠ key old := fun equal => same equal.symm
        simp only [if_neg same, List.map_cons, ih, List.mem_cons, different, false_or]
        split <;> simp

/-- Insert a row, replacing the one with the same key in place. -/
def upsert (table : Table key) (row : ρ) : Table key where
  rows := upsertRows key table.rows row
  keys_nodup := by
    rw [map_upsertRows]
    split
    · exact table.keys_nodup
    · rename_i absent
      refine List.nodup_append.mpr ⟨table.keys_nodup, by simp, ?_⟩
      rintro k kMem k' k'Mem rfl
      simp only [List.mem_singleton] at k'Mem
      exact absent (k'Mem ▸ kMem)

/-- Insert new rows; fails when a key would be stored twice. -/
def insertAll? (table : Table key) (rows : List ρ) : Option (Table key) :=
  if nodup : ((table.rows ++ rows).map key).Nodup then some ⟨table.rows ++ rows, nodup⟩
  else none

/-- The part of a table whose keys are listed. -/
def restrict (table : Table key) (keys : List κ) : Table key :=
  table.delete fun row => decide (key row ∉ keys)

/-- Insert or replace rows one after another. -/
def upsertAll (table : Table key) (rows : List ρ) : Table key :=
  rows.foldl upsert table

@[simp] theorem upsertAll_nil (table : Table key) : table.upsertAll [] = table := rfl

@[simp] theorem upsertAll_cons (table : Table key) (row : ρ) (rows : List ρ) :
    table.upsertAll (row :: rows) = (table.upsert row).upsertAll rows := rfl

theorem upsertAll_append (table : Table key) (first second : List ρ) :
    table.upsertAll (first ++ second) = (table.upsertAll first).upsertAll second :=
  List.foldl_append

/-- Writing rows chunk by chunk writes them all. -/
theorem foldl_upsertAll (table : Table key) (chunks : List (List ρ)) :
    chunks.foldl upsertAll table = table.upsertAll chunks.flatten := by
  induction chunks generalizing table with
  | nil => rfl
  | cons chunk chunks ih =>
      rw [List.foldl_cons, ih, List.flatten_cons, upsertAll_append]

theorem find?_eq_some_iff {table : Table key} {k : κ} {row : ρ} :
    table.find? k = some row ↔ row ∈ table.rows ∧ key row = k := by
  constructor
  · intro found
    exact ⟨List.mem_of_find?_eq_some found, by simpa using List.find?_some found⟩
  · rintro ⟨rowMem, rfl⟩
    unfold find?
    cases found : table.rows.find? fun other => decide (key other = key row) with
    | none =>
        have missing := List.find?_eq_none.mp found row rowMem
        simp at missing
    | some other =>
        have otherMem := List.mem_of_find?_eq_some found
        have sameKey : key other = key row := by simpa using List.find?_some found
        rw [mem_rows_inj otherMem rowMem sameKey]

theorem find?_eq_none_iff {table : Table key} {k : κ} :
    table.find? k = none ↔ ∀ row ∈ table.rows, key row ≠ k := by
  simp [find?]

theorem find?_of_mem {table : Table key} {row : ρ} (rowMem : row ∈ table.rows) :
    table.find? (key row) = some row :=
  find?_eq_some_iff.mpr ⟨rowMem, rfl⟩

theorem key_of_find? {table : Table key} {k : κ} {row : ρ}
    (found : table.find? k = some row) : key row = k :=
  (find?_eq_some_iff.mp found).2

theorem mem_of_find? {table : Table key} {k : κ} {row : ρ}
    (found : table.find? k = some row) : row ∈ table.rows :=
  (find?_eq_some_iff.mp found).1

theorem find?_isSome_iff {table : Table key} {k : κ} :
    (table.find? k).isSome ↔ k ∈ table.rows.map key := by
  simp [find?]

@[simp] theorem find?_empty (k : κ) : (empty : Table key).find? k = none := rfl

theorem mem_upsertRows {rows : List ρ} {row other : ρ}
    (nodup : (rows.map key).Nodup) :
    other ∈ upsertRows key rows row ↔
      other = row ∨ other ∈ rows ∧ key other ≠ key row := by
  induction rows with
  | nil => simp [upsertRows]
  | cons old rest ih =>
      simp only [List.map_cons, List.nodup_cons, List.mem_map, not_exists, not_and] at nodup
      simp only [upsertRows]
      by_cases same : key old = key row
      · have apart : ∀ r ∈ rest, key r ≠ key row := fun r rMem equal =>
          nodup.1 r rMem (equal.trans same.symm)
        simp only [if_pos same, List.mem_cons]
        constructor
        · rintro (rfl | otherMem)
          · exact Or.inl rfl
          · exact Or.inr ⟨Or.inr otherMem, apart _ otherMem⟩
        · rintro (rfl | ⟨rfl | otherMem, different⟩)
          · exact Or.inl rfl
          · exact (different same).elim
          · exact Or.inr otherMem
      · simp only [if_neg same, List.mem_cons, ih nodup.2]
        constructor
        · rintro (rfl | rfl | ⟨otherMem, different⟩)
          · exact Or.inr ⟨Or.inl rfl, same⟩
          · exact Or.inl rfl
          · exact Or.inr ⟨Or.inr otherMem, different⟩
        · rintro (rfl | ⟨rfl | otherMem, different⟩)
          · exact Or.inr (Or.inl rfl)
          · exact Or.inl rfl
          · exact Or.inr (Or.inr ⟨otherMem, different⟩)

theorem mem_upsert {table : Table key} {row other : ρ} :
    other ∈ (table.upsert row).rows ↔
      other = row ∨ other ∈ table.rows ∧ key other ≠ key row :=
  mem_upsertRows table.keys_nodup

theorem find?_upsert (table : Table key) (row : ρ) (k : κ) :
    (table.upsert row).find? k = if key row = k then some row else table.find? k := by
  split
  · rename_i same
    exact find?_eq_some_iff.mpr ⟨mem_upsert.mpr (Or.inl rfl), same⟩
  · rename_i different
    ext other
    simp only [find?_eq_some_iff, mem_upsert]
    constructor
    · rintro ⟨rfl | ⟨otherMem, -⟩, rfl⟩
      · exact (different rfl).elim
      · exact ⟨otherMem, rfl⟩
    · rintro ⟨otherMem, rfl⟩
      exact ⟨Or.inr ⟨otherMem, fun equal => different equal.symm⟩, rfl⟩

/-- After writing rows with distinct keys, a lookup finds the written row if
there is one and the old row otherwise. -/
theorem find?_upsertAll (table : Table key) {rows : List ρ}
    (nodup : (rows.map key).Nodup) (k : κ) :
    (table.upsertAll rows).find? k =
      (rows.find? fun row => decide (key row = k)).or (table.find? k) := by
  induction rows generalizing table with
  | nil => rfl
  | cons row rows ih =>
      simp only [List.map_cons, List.nodup_cons] at nodup
      rw [upsertAll_cons, ih _ nodup.2, find?_upsert, List.find?_cons]
      by_cases same : key row = k
      · have absent : (rows.find? fun other => decide (key other = k)) = none := by
          rw [List.find?_eq_none]
          intro other otherMem
          simp only [decide_eq_true_eq]
          rintro rfl
          exact nodup.1 (List.mem_map.mpr ⟨other, otherMem, same.symm⟩)
        simp [same, absent]
      · simp [same]

/-- After writing rows one after another, a lookup finds the last written row with the
key, and the old row if none has it. -/
theorem find?_upsertAll_last (table : Table key) (rows : List ρ) (k : κ) :
    (table.upsertAll rows).find? k =
      (rows.filter fun row => decide (key row = k)).getLast?.or (table.find? k) := by
  induction rows using List.reverseRecOn with
  | nil => rfl
  | append_singleton rows row ih =>
      rw [upsertAll_append, upsertAll_cons, upsertAll_nil, find?_upsert, ih, List.filter_append]
      by_cases same : key row = k
      · simp [same]
      · simp [same]

theorem find?_upsertAll_of_notMem (table : Table key) {rows : List ρ} {k : κ}
    (absent : k ∉ rows.map key) :
    (table.upsertAll rows).find? k = table.find? k := by
  induction rows generalizing table with
  | nil => rfl
  | cons row rows ih =>
      simp only [List.map_cons, List.mem_cons, not_or] at absent
      rw [upsertAll_cons, ih _ absent.2, find?_upsert, if_neg fun equal => absent.1 equal.symm]

theorem find?_upsertAll_of_mem (table : Table key) {rows : List ρ}
    (nodup : (rows.map key).Nodup) {row : ρ} (rowMem : row ∈ rows) :
    (table.upsertAll rows).find? (key row) = some row := by
  rw [find?_upsertAll table nodup]
  have found : (⟨rows, nodup⟩ : Table key).find? (key row) = some row := find?_of_mem rowMem
  unfold find? at found
  rw [found]
  rfl

theorem find?_delete (table : Table key) (doomed : ρ → Bool) (k : κ) :
    (table.delete doomed).find? k = (table.find? k).filter fun row => !doomed row := by
  ext row
  simp only [find?_eq_some_iff, delete, List.mem_filter, Option.filter_eq_some_iff]
  tauto

/-- Deleting keys one after another. -/
theorem find?_foldl_delete (table : Table key) (doomed : List κ) (k : κ) :
    (doomed.foldl (fun table d => table.delete fun row => decide (key row = d)) table).find? k =
      if k ∈ doomed then none else table.find? k := by
  induction doomed generalizing table with
  | nil => simp
  | cons d doomed ih =>
      rw [List.foldl_cons, ih, find?_delete]
      cases found : table.find? k with
      | none => simp
      | some row =>
          by_cases here : k = d <;> by_cases later : k ∈ doomed <;>
            simp [Option.filter, key_of_find? found, here, later]

theorem find?_restrict (table : Table key) {keys : List κ} {k : κ} (listed : k ∈ keys) :
    (table.restrict keys).find? k = table.find? k := by
  rw [restrict, find?_delete]
  cases found : table.find? k with
  | none => rfl
  | some row => simp [Option.filter, key_of_find? found, listed]

theorem find?_select (table : Table key) (selected : ρ → Bool) (k : κ) :
    ((table.select selected).find? fun row => decide (key row = k)) =
      (table.find? k).filter selected := by
  have deleted := find?_delete table (fun row => !selected row) k
  simpa [delete, select, find?] using deleted

theorem mem_upsertAll {table : Table key} {rows : List ρ} {row : ρ}
    (rowMem : row ∈ (table.upsertAll rows).rows) : row ∈ table.rows ∨ row ∈ rows := by
  induction rows generalizing table with
  | nil => exact Or.inl rowMem
  | cons first rest ih =>
      rcases ih rowMem with rowMem | rowMem
      · rcases mem_upsert.mp rowMem with rfl | ⟨rowMem, -⟩
        · exact Or.inr (List.mem_cons_self ..)
        · exact Or.inl rowMem
      · exact Or.inr (List.mem_cons_of_mem _ rowMem)

/-- Where the written rows have one row for each key, they replace the stored ones. -/
theorem mem_upsertAll_iff {table : Table key} {rows : List ρ} {row : ρ}
    (agree : ∀ first ∈ rows, ∀ second ∈ rows, key first = key second → first = second) :
    row ∈ (table.upsertAll rows).rows ↔
      row ∈ rows ∨ row ∈ table.rows ∧ key row ∉ rows.map key := by
  induction rows generalizing table with
  | nil => simp
  | cons first rest ih =>
      have restAgree := fun r rMem s sMem =>
        agree r (List.mem_cons_of_mem _ rMem) s (List.mem_cons_of_mem _ sMem)
      rw [upsertAll_cons, ih restAgree, mem_upsert, List.map_cons, List.mem_cons, List.mem_cons,
        not_or]
      constructor
      · rintro (later | ⟨rfl | ⟨stored, different⟩, absent⟩)
        · exact Or.inl (Or.inr later)
        · exact Or.inl (Or.inl rfl)
        · exact Or.inr ⟨stored, different, absent⟩
      · rintro ((rfl | later) | ⟨stored, different, absent⟩)
        · by_cases again : key row ∈ rest.map key
          · obtain ⟨other, otherMem, sameKey⟩ := List.mem_map.mp again
            have same := agree other (List.mem_cons_of_mem _ otherMem) row
              (List.mem_cons_self ..) sameKey
            exact Or.inl (same ▸ otherMem)
          · exact Or.inr ⟨Or.inl rfl, again⟩
        · exact Or.inl later
        · exact Or.inr ⟨Or.inr ⟨stored, different⟩, absent⟩

/-- Looking up in a table with one row for each of some keys. -/
theorem find?_of_rows_eq_map {table : Table key} {keys : List κ} {make : κ → ρ}
    (rows : table.rows = keys.map make) (rightKey : ∀ k, key (make k) = k) (k : κ) :
    table.find? k = if k ∈ keys then some (make k) else none := by
  split
  · rename_i listed
    rw [find?_eq_some_iff, rows]
    exact ⟨List.mem_map.mpr ⟨k, listed, rfl⟩, rightKey k⟩
  · rename_i unlisted
    rw [find?_eq_none_iff, rows]
    intro row rowMem sameKey
    obtain ⟨other, otherMem, rfl⟩ := List.mem_map.mp rowMem
    exact unlisted ((rightKey other).symm.trans sameKey ▸ otherMem)

theorem rows_of_insertAll? {table inserted : Table key} {rows : List ρ}
    (success : table.insertAll? rows = some inserted) :
    inserted.rows = table.rows ++ rows := by
  unfold insertAll? at success
  split at success
  · cases success
    rfl
  · cases success

theorem find?_update (table : Table key) (selected : ρ → Bool) (change : ρ → ρ)
    (keepsKey : ∀ row, key (change row) = key row) (k : κ) :
    (table.update selected change keepsKey).find? k =
      (table.find? k).map fun row => if selected row then change row else row := by
  simp only [find?, update, List.find?_map]
  congr 2
  funext row
  simp only [Function.comp_apply]
  split
  · rw [keepsKey]
  · rfl

/-- Rows with new keys are appended in order. -/
theorem rows_upsertAll_of_new (table : Table key) {rows : List ρ}
    (nodup : (rows.map key).Nodup)
    (fresh : ∀ row ∈ rows, key row ∉ table.rows.map key) :
    (table.upsertAll rows).rows = table.rows ++ rows := by
  induction rows generalizing table with
  | nil => simp
  | cons row rows ih =>
      simp only [List.map_cons, List.nodup_cons] at nodup
      have appended : (table.upsert row).rows = table.rows ++ [row] := by
        have absent := fresh row (List.mem_cons_self ..)
        change upsertRows key table.rows row = _
        generalize table.rows = stored at absent
        induction stored with
        | nil => rfl
        | cons old rest restIH =>
            simp only [List.map_cons, List.mem_cons, not_or] at absent
            simp only [upsertRows, if_neg fun equal => absent.1 (Eq.symm equal),
              restIH absent.2, List.cons_append]
      rw [upsertAll_cons, ih _ nodup.2, appended, List.append_assoc, List.singleton_append]
      intro other otherMem
      rw [appended, List.map_append, List.mem_append, not_or]
      refine ⟨fresh other (List.mem_cons_of_mem _ otherMem), ?_⟩
      simp only [List.map_cons, List.map_nil, List.mem_singleton]
      intro equal
      exact nodup.1 (List.mem_map.mpr ⟨other, otherMem, equal⟩)

theorem rows_upsert_of_mem (table : Table key) {row : ρ}
    (present : key row ∈ table.rows.map key) :
    (table.upsert row).rows =
      table.rows.map fun old => if key old = key row then row else old := by
  change upsertRows key table.rows row = _
  have nodup := table.keys_nodup
  generalize table.rows = stored at present nodup
  induction stored with
  | nil => simp at present
  | cons old rest ih =>
      simp only [List.map_cons, List.nodup_cons, List.mem_map, not_exists, not_and] at nodup
      simp only [upsertRows, List.map_cons]
      by_cases same : key old = key row
      · simp only [if_pos same, List.cons.injEq, true_and]
        symm
        calc
          rest.map (fun other => if key other = key row then row else other) =
              rest.map id := by
            apply List.map_congr_left
            intro other otherMem
            rw [if_neg fun equal => nodup.1 other otherMem (equal.trans same.symm), id]
          _ = rest := List.map_id rest
      · simp only [List.map_cons, List.mem_cons] at present
        simp only [if_neg same]
        rw [ih (present.resolve_left fun equal => same equal.symm) nodup.2]

/-- Deleting forgets every write of a row the deletion covers, provided the
predicate looks at keys only. -/
theorem delete_upsertAll (table : Table key) (doomed : κ → Bool) {rows : List ρ}
    (covered : ∀ row ∈ rows, doomed (key row) = true) :
    (table.upsertAll rows).delete (fun row => doomed (key row)) =
      table.delete fun row => doomed (key row) := by
  induction rows generalizing table with
  | nil => rfl
  | cons row rows ih =>
      rw [upsertAll_cons, ih _ fun other otherMem =>
        covered other (List.mem_cons_of_mem _ otherMem)]
      have rowCovered := covered row (List.mem_cons_self ..)
      apply ext
      change (upsertRows key table.rows row).filter _ = table.rows.filter _
      generalize table.rows = stored
      induction stored with
      | nil => simp [upsertRows, rowCovered]
      | cons old rest restIH =>
          simp only [upsertRows]
          split
          · rename_i same
            simp [same, rowCovered]
          · rw [List.filter_cons, List.filter_cons, restIH]

end Lookup

end Table
