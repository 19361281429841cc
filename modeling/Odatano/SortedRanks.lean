import Mathlib.Data.List.Sort
import Mathlib.Order.Defs.LinearOrder

/-!
# Ranks in sorted lists

The rank of a key is the number of items with smaller ones.  In a sorted list it is the index of
the first item with that key.
-/

/-- Fewer items satisfy the stronger test if one satisfies the weaker one only. -/
theorem countP_lt_of_mem {α : Type} {items : List α} {stronger weaker : α → Bool} {only : α}
    (implies : ∀ item ∈ items, stronger item = true → weaker item = true)
    (listed : only ∈ items) (fails : stronger only = false) (holds : weaker only = true) :
    items.countP stronger < items.countP weaker := by
  induction items with
  | nil => cases listed
  | cons item items ih =>
      have rest : items.countP stronger ≤ items.countP weaker :=
        List.countP_mono_left fun other member => implies other (List.mem_cons_of_mem _ member)
      rw [List.countP_cons, List.countP_cons]
      rcases List.mem_cons.mp listed with rfl | later
      · rw [fails, holds, if_neg Bool.false_ne_true, if_pos rfl]
        omega
      · have fewer := ih (fun other member => implies other (List.mem_cons_of_mem _ member)) later
        have first := implies item (List.mem_cons_self ..)
        split
        · rename_i satisfied
          rw [if_pos (first satisfied)]
          omega
        · omega

section Ranks

variable {α κ : Type} [LinearOrder κ] (key : α → κ)

/-- How many items have a smaller key. -/
def rankOf (items : List α) (place : κ) : Nat :=
  items.countP fun item => decide (key item < place)

/-- The items in the order of their keys. -/
def sortByKey (items : List α) : List α :=
  items.mergeSort fun first second => decide (key first ≤ key second)

theorem rankOf_of_perm {items others : List α} (same : items.Perm others) (place : κ) :
    rankOf key items place = rankOf key others place :=
  same.countP_eq _

theorem sortByKey_perm (items : List α) : (sortByKey key items).Perm items :=
  List.mergeSort_perm ..

theorem mem_sortByKey {items : List α} {item : α} : item ∈ sortByKey key items ↔ item ∈ items :=
  (sortByKey_perm key items).mem_iff

theorem sortByKey_ascending (items : List α) :
    (sortByKey key items).Pairwise fun first second => key first ≤ key second := by
  have ascending := @List.pairwise_mergeSort α
    (fun first second => decide (key first ≤ key second))
    (fun first second third le le' => by
      rw [decide_eq_true_eq] at le le' ⊢
      exact le.trans le')
    (fun first second => by
      rw [Bool.or_eq_true, decide_eq_true_eq, decide_eq_true_eq]
      exact le_total _ _)
    items
  exact ascending.imp fun le => of_decide_eq_true le

/-- Items with different keys have one order. -/
theorem sortByKey_unique {items sorted : List α} (distinct : (items.map key).Nodup)
    (same : sorted.Perm items)
    (ascending : sorted.Pairwise fun first second => key first ≤ key second) :
    sorted = sortByKey key items := by
  refine List.Perm.eq_of_pairwise (fun first second member member' le le' => ?_) ascending
    (sortByKey_ascending key items) (same.trans (sortByKey_perm key items).symm)
  exact List.inj_on_of_nodup_map distinct (same.mem_iff.mp member)
    ((mem_sortByKey key).mp member') (le_antisymm le le')

/-- Items can be left out before or after they are sorted. -/
theorem sortByKey_filter {items : List α} (distinct : (items.map key).Nodup) (kept : α → Bool) :
    (sortByKey key items).filter kept = sortByKey key (items.filter kept) :=
  sortByKey_unique key (distinct.sublist (List.filter_sublist.map key))
    ((sortByKey_perm key items).filter kept) ((sortByKey_ascending key items).filter kept)

/-- Two sorted lists show the same in a column that determines the key, if they show it in some
order. -/
theorem map_eq_of_perm_map {γ : Type} {items others : List α} {column : α → γ}
    (determined : ∀ first second, column first = column second → key first = key second)
    (distinct : (items.map key).Nodup)
    (ascending : items.Pairwise fun first second => key first ≤ key second)
    (ascending' : others.Pairwise fun first second => key first ≤ key second)
    (same : (others.map column).Perm (items.map column)) :
    others.map column = items.map column := by
  have mapped {sorted : List α}
      (ascending : sorted.Pairwise fun first second => key first ≤ key second) :
      (sorted.map column).Pairwise
        (Relation.Map (fun first second => key first ≤ key second) column column) :=
    List.pairwise_map.mpr (ascending.imp fun le => ⟨_, _, le, rfl, rfl⟩)
  refine List.Perm.eq_of_pairwise (fun x y member member' le le' => ?_) (mapped ascending')
    (mapped ascending) same
  -- both columns are those of listed items, and no two of these have one key
  obtain ⟨first, listed, rfl⟩ := List.mem_map.mp (same.mem_iff.mp member)
  obtain ⟨second, listed', rfl⟩ := List.mem_map.mp member'
  obtain ⟨a, b, le, isFirst, isSecond⟩ := le
  obtain ⟨b', a', le', isSecond', isFirst'⟩ := le'
  rw [determined a first isFirst, determined b second isSecond] at le
  rw [determined b' second isSecond', determined a' first isFirst'] at le'
  exact congrArg column (List.inj_on_of_nodup_map distinct listed listed' (le_antisymm le le'))

/-- The first item that is looked for has the rank of its key, if it is the least one of them. -/
theorem findIdx?_eq_rankOf {sorted : List α} {found : α} {wanted : α → Bool}
    (ascending : sorted.Pairwise fun first second => key first ≤ key second)
    (listed : found ∈ sorted) (least : ∀ item ∈ sorted, wanted item = true → key found ≤ key item)
    (tied : ∀ item ∈ sorted, key item = key found → wanted item = true) :
    sorted.findIdx? wanted = some (rankOf key sorted (key found)) := by
  induction sorted with
  | nil => cases listed
  | cons item sorted ih =>
      rw [List.pairwise_cons] at ascending
      rw [List.findIdx?_cons]
      cases isWanted : wanted item with
      | true =>
          have leastFound := least item (List.mem_cons_self ..) isWanted
          have none : rankOf key (item :: sorted) (key found) = 0 := by
            refine List.countP_eq_zero.mpr fun other member => ?_
            rw [decide_eq_true_eq, not_lt]
            rcases List.mem_cons.mp member with rfl | later
            · exact leastFound
            · exact leastFound.trans (ascending.1 other later)
          rw [if_pos rfl, none]
      | false =>
          have differs : key item ≠ key found := by
            intro same
            rw [tied item (List.mem_cons_self ..) same] at isWanted
            cases isWanted
          have later : found ∈ sorted := by
            rcases List.mem_cons.mp listed with rfl | later
            · exact absurd rfl differs
            · exact later
          have smaller : key item < key found := lt_of_le_of_ne (ascending.1 found later) differs
          have counted := ih ascending.2 later
            (fun other member => least other (List.mem_cons_of_mem _ member))
            (fun other member => tied other (List.mem_cons_of_mem _ member))
          rw [if_neg Bool.false_ne_true, counted, Option.map_some, rankOf, rankOf,
            List.countP_cons, if_pos (decide_eq_true smaller)]

/-- An item with a key of its own is found at its rank. -/
theorem findIdx?_eq_rankOf_of_unique {sorted : List α} {found : α} {wanted : α → Bool}
    (ascending : sorted.Pairwise fun first second => key first ≤ key second)
    (listed : found ∈ sorted)
    (unique : ∀ item ∈ sorted, wanted item = true ↔ key item = key found) :
    sorted.findIdx? wanted = some (rankOf key sorted (key found)) :=
  findIdx?_eq_rankOf key ascending listed
    (fun item member isWanted => ((unique item member).mp isWanted).ge)
    (fun item member same => (unique item member).mpr same)

end Ranks
