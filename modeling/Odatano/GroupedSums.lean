import Mathlib.Algebra.BigOperators.Group.Finset.Basic
import Mathlib.Algebra.Order.BigOperators.Group.Finset
import Mathlib.Algebra.Order.Ring.Int
import Odatano.OrderedMap

/-!
# Sums by key and by group

Amounts are listed under keys, and each key belongs to a group.  A sum by group is the sum of the
sums by key, as long as nothing is cut off in between.
-/

section GroupedSums

variable {κ γ : Type*} [DecidableEq κ] [DecidableEq γ]

/-- The amounts under a key. -/
def keySum (entries : List (κ × Int)) (k : κ) : Int :=
  (entries.map fun entry => if entry.1 = k then entry.2 else 0).sum

/-- The amounts under all keys of a group. -/
def groupSum (group : κ → γ) (entries : List (κ × Int)) (g : γ) : Int :=
  (entries.map fun entry => if group entry.1 = g then entry.2 else 0).sum

def keysOf (entries : List (κ × Int)) : Finset κ := (entries.map Prod.fst).toFinset

variable {group : κ → γ} {entries : List (κ × Int)}

omit [DecidableEq κ] in
@[simp] theorem groupSum_append (first second : List (κ × Int)) (g : γ) :
    groupSum group (first ++ second) g = groupSum group first g + groupSum group second g := by
  simp [groupSum]

theorem keySum_eq_zero {k : κ} (absent : k ∉ keysOf entries) : keySum entries k = 0 := by
  refine List.sum_eq_zero fun amount member => ?_
  obtain ⟨entry, listed, rfl⟩ := List.mem_map.mp member
  refine if_neg fun same => absent ?_
  rw [keysOf, List.mem_toFinset, ← same]
  exact List.mem_map_of_mem listed

theorem keySum_nonneg (nonneg : ∀ entry ∈ entries, 0 ≤ entry.2) (k : κ) :
    0 ≤ keySum entries k := by
  refine List.sum_nonneg fun amount member => ?_
  obtain ⟨entry, listed, rfl⟩ := List.mem_map.mp member
  split
  · exact nonneg entry listed
  · exact le_refl 0

/-- A sum by group over any keys that cover the list. -/
theorem groupSum_eq_sum {keys : Finset κ} (covers : ∀ entry ∈ entries, entry.1 ∈ keys) (g : γ) :
    groupSum group entries g = ∑ k ∈ keys, if group k = g then keySum entries k else 0 := by
  induction entries with
  | nil => simp [groupSum, keySum]
  | cons entry entries ih =>
      have rest := ih fun other member => covers other (List.mem_cons_of_mem _ member)
      have own : (∑ k ∈ keys, if group k = g then (if entry.1 = k then entry.2 else 0) else 0) =
          if group entry.1 = g then entry.2 else 0 := by
        rw [Finset.sum_eq_single entry.1]
        · simp
        · intro k _ other
          simp [other.symm]
        · intro absent
          exact absurd (covers entry (List.mem_cons_self ..)) absent
      have split (k : κ) : (if group k = g then keySum (entry :: entries) k else 0) =
          (if group k = g then (if entry.1 = k then entry.2 else 0) else 0) +
            if group k = g then keySum entries k else 0 := by
        by_cases same : group k = g
        · simp [same, keySum]
        · simp [same]
      rw [Finset.sum_congr rfl fun k _ => split k, Finset.sum_add_distrib, own, ← rest]
      simp [groupSum]

/-- What is covered key by key is covered group by group, if nothing is negative. -/
theorem groupSum_le_of_keySum_le {first second : List (κ × Int)}
    (nonneg : ∀ entry ∈ second, 0 ≤ entry.2)
    (covered : ∀ k ∈ keysOf first, keySum first k ≤ keySum second k) (g : γ) :
    groupSum group first g ≤ groupSum group second g := by
  have inFirst : ∀ entry ∈ first, entry.1 ∈ keysOf first ∪ keysOf second := fun entry member =>
    Finset.mem_union_left _ (List.mem_toFinset.mpr (List.mem_map_of_mem member))
  have inSecond : ∀ entry ∈ second, entry.1 ∈ keysOf first ∪ keysOf second := fun entry member =>
    Finset.mem_union_right _ (List.mem_toFinset.mpr (List.mem_map_of_mem member))
  rw [groupSum_eq_sum inFirst, groupSum_eq_sum inSecond]
  refine Finset.sum_le_sum fun k _ => ?_
  split
  · by_cases listed : k ∈ keysOf first
    · exact covered k listed
    · rw [keySum_eq_zero listed]
      exact keySum_nonneg nonneg k
  · exact le_refl 0

/-- The amounts of a list added up by key. -/
def sumByKey (entries : List (κ × Int)) : OrderedMap κ Int :=
  OrderedMap.accumulate Prod.fst (fun _ => 0) (fun entry amount => amount + entry.2) Table.empty
    entries

theorem getD_get?_sumByKey (entries : List (κ × Int)) (k : κ) :
    (OrderedMap.get? (sumByKey entries) k).getD 0 = keySum entries k := by
  have summed := @OrderedMap.measure_accumulate κ Int _ (κ × Int) Int _ Prod.fst (fun _ => 0)
    (fun entry amount => amount + entry.2) id Prod.snd entries (fun _ _ => rfl)
    (fun _ _ _ => rfl) Table.empty k
  rw [OrderedMap.measure, OrderedMap.measure, Option.map_id, OrderedMap.get?_empty, id_eq,
    id_eq, Option.getD_none, zero_add] at summed
  exact summed

theorem keys_sumByKey (entries : List (κ × Int)) :
    (OrderedMap.keys (sumByKey entries)).toFinset = keysOf entries := by
  ext k
  rw [List.mem_toFinset, OrderedMap.mem_keys_iff, sumByKey, OrderedMap.get?_accumulate_isSome,
    keysOf, List.mem_toFinset, List.mem_map]
  simp

theorem value_of_mem_sumByKey {row : κ × Int} (listed : row ∈ (sumByKey entries).rows) :
    row.2 = keySum entries row.1 := by
  have stored : OrderedMap.get? (sumByKey entries) row.1 = some row.2 :=
    OrderedMap.get?_eq_some_iff.mpr listed
  rw [← getD_get?_sumByKey, stored, Option.getD_some]

theorem exists_row_of_mem_keysOf {k : κ} (listed : k ∈ keysOf entries) :
    (k, keySum entries k) ∈ (sumByKey entries).rows := by
  rw [← keys_sumByKey, List.mem_toFinset] at listed
  obtain ⟨row, member, rfl⟩ := List.mem_map.mp listed
  rw [← value_of_mem_sumByKey member]
  exact member

end GroupedSums
