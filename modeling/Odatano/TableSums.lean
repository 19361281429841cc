import Mathlib.Algebra.BigOperators.Group.List.Basic
import Mathlib.Tactic.Abel
import Odatano.KeyedTable

/-!
# Sums over keyed tables

Sums over the rows of a table after each operation, and the exchange of a sum
over rows with the sum over the rows of a second table that own them.
-/

namespace Table

variable {κ ρ : Type*} {key : ρ → κ}

section Sums

variable {M : Type*} [AddCommMonoid M]

/-- The sum of a quantity over all rows. -/
def sum (table : Table key) (quantity : ρ → M) : M :=
  (table.rows.map quantity).sum

theorem sum_congr {table : Table key} {first second : ρ → M}
    (agree : ∀ row ∈ table.rows, first row = second row) :
    table.sum first = table.sum second :=
  congrArg List.sum (List.map_congr_left agree)

theorem sum_add (table : Table key) (first second : ρ → M) :
    table.sum (fun row => first row + second row) =
      table.sum first + table.sum second :=
  List.sum_map_add

/-- A sum over selected rows. -/
theorem sum_select (table : Table key) (selected : ρ → Bool) (quantity : ρ → M) :
    ((table.select selected).map quantity).sum =
      table.sum fun row => if selected row then quantity row else 0 := by
  rw [select, sum]
  induction table.rows with
  | nil => rfl
  | cons row rows ih =>
      by_cases chosen : selected row = true
      · simp [chosen, ih]
      · simp [chosen, ih]

/-- Sums over two tables exchange. -/
theorem sum_comm {κ' ρ' : Type*} {key' : ρ' → κ'} (first : Table key) (second : Table key')
    (quantity : ρ → ρ' → M) :
    first.sum (fun row => second.sum (quantity row)) =
      second.sum fun row' => first.sum fun row => quantity row row' := by
  change (first.rows.map fun row => second.sum (quantity row)).sum =
    second.sum fun row' => (first.rows.map fun row => quantity row row').sum
  induction first.rows with
  | nil => simp [sum]
  | cons row rows ih =>
      simp only [List.map_cons, List.sum_cons, ih, sum_add]

variable [DecidableEq κ]

/-- What a row looked up by key contributes to a sum, zero when there is none. -/
def contribution (table : Table key) (quantity : ρ → M) (k : κ) : M :=
  ((table.find? k).map quantity).getD 0

/-- At most one row has a given key, so summing over the rows with that key is
looking it up. -/
theorem contribution_eq_sum (table : Table key) (quantity : ρ → M) (k : κ) :
    table.contribution quantity k =
      table.sum fun row => if key row = k then quantity row else 0 := by
  obtain ⟨rows, nodup⟩ := table
  simp only [contribution, sum, find?]
  induction rows with
  | nil => rfl
  | cons row rows ih =>
      simp only [List.map_cons, List.nodup_cons] at nodup
      rw [List.find?_cons, List.map_cons, List.sum_cons]
      by_cases same : key row = k
      · have rest : (rows.map fun other => if key other = k then quantity other else 0).sum =
            0 := by
          apply List.sum_eq_zero
          intro value valueMem
          obtain ⟨other, otherMem, rfl⟩ := List.mem_map.mp valueMem
          rw [if_neg]
          rintro rfl
          exact nodup.1 (List.mem_map.mpr ⟨other, otherMem, same.symm⟩)
        simp [same, rest]
      · simp [same, ih nodup.2]

/-- Adding up, for every owner, what it owns is adding up all that has an owner. -/
theorem sum_owned {κ' ρ' : Type*} {key' : ρ' → κ'} (owners : Table key) (rows : Table key')
    (owner : ρ' → κ) (quantity : ρ → ρ' → M) :
    (owners.sum fun o => rows.sum fun row =>
        if owner row = key o then quantity o row else 0) =
      rows.sum fun row => owners.contribution (fun o => quantity o row) (owner row) := by
  rw [sum_comm]
  apply sum_congr
  intro row _
  rw [contribution_eq_sum]
  apply sum_congr
  intro o _
  simp only [eq_comm]

end Sums

section GroupSums

variable [DecidableEq κ] {G : Type*} [AddCommGroup G]

/-- Writing a row exchanges the contribution at its key. -/
theorem sum_upsert (table : Table key) (quantity : ρ → G) (row : ρ) :
    (table.upsert row).sum quantity =
      table.sum quantity + (quantity row - table.contribution quantity (key row)) := by
  change ((upsertRows key table.rows row).map quantity).sum =
    (table.rows.map quantity).sum + (quantity row -
      ((table.rows.find? fun other => decide (key other = key row)).map quantity).getD 0)
  generalize table.rows = stored
  induction stored with
  | nil => simp [upsertRows]
  | cons old rest ih =>
      by_cases same : key old = key row
      · simp only [upsertRows, same, if_true, List.find?_cons, decide_true, List.map_cons,
          List.sum_cons, Option.map_some, Option.getD_some]
        abel
      · simp only [upsertRows, if_neg same, List.find?_cons, decide_eq_false same,
          List.map_cons, List.sum_cons, ih]
        abel

/-- Writing rows with distinct keys exchanges the contribution at each key. -/
theorem sum_upsertAll (table : Table key) (quantity : ρ → G) {rows : List ρ}
    (nodup : (rows.map key).Nodup) :
    (table.upsertAll rows).sum quantity = table.sum quantity +
      (rows.map fun row => quantity row - table.contribution quantity (key row)).sum := by
  induction rows generalizing table with
  | nil => simp
  | cons row rows ih =>
      simp only [List.map_cons, List.nodup_cons] at nodup
      rw [upsertAll_cons, ih _ nodup.2, sum_upsert, List.map_cons, List.sum_cons, add_assoc]
      congr 3
      apply List.map_congr_left
      intro other otherMem
      rw [contribution, contribution, find?_upsert, if_neg]
      intro equal
      exact nodup.1 (List.mem_map.mpr ⟨other, otherMem, equal.symm⟩)

/-- Writing, for entries with distinct keys, rows that add `growth` to what is
stored adds the growth of the entry with the key looked up. -/
theorem contribution_upsertAll_map {ε : Type*} (table : Table key) (quantity : ρ → G)
    {entries : List ε} (keyOf : ε → κ) {make : ε → ρ} {growth : ε → G}
    (rightKey : ∀ entry, key (make entry) = keyOf entry)
    (nodup : (entries.map keyOf).Nodup)
    (grows : ∀ entry ∈ entries,
      quantity (make entry) = table.contribution quantity (keyOf entry) + growth entry)
    (k : κ) :
    (table.upsertAll (entries.map make)).contribution quantity k =
      table.contribution quantity k +
        (entries.map fun entry => if keyOf entry = k then growth entry else 0).sum := by
  have nodupRows : ((entries.map make).map key).Nodup := by
    simpa [Function.comp_def, rightKey] using nodup
  rw [contribution_eq_sum, contribution_eq_sum, sum_upsertAll _ _ nodupRows, List.map_map]
  congr 2
  apply List.map_congr_left
  intro entry entryMem
  simp only [Function.comp_apply, rightKey, grows entry entryMem]
  by_cases same : keyOf entry = k
  · subst same
    cases found : table.find? (keyOf entry) with
    | none => simp [contribution, found]
    | some row => simp [contribution, found, key_of_find? found]
  · cases found : table.find? (keyOf entry) with
    | none => simp [contribution, found, same]
    | some row => simp [contribution, found, key_of_find? found, same]

end GroupSums

end Table
