import Odatano.JsonValues
import Odatano.OrderedMap
import Odatano.SlidingWindow
import Mathlib.Tactic.Ring

/-!
# The rate limiter

`srv/utils/rate-limiter.ts`: a sliding window for each key, at most so many keys, and at most so
many keys of one principal.
-/

namespace Odatano

open SlidingWindow

/-- The callers pass at least one request; the loader of the grant limit checks it. -/
structure RateLimiterOptions where
  windowMs : Nat
  maxRequests : Nat
  maxKeys? : Option Nat
  maxKeysPerGroup? : Option Nat
  maxRequests_pos : 0 < maxRequests

namespace RateLimiterOptions

variable (opts : RateLimiterOptions)

def maxKeys : Nat := (opts.maxKeys?.filter fun n => decide (n ≠ 0)).getD 10000

def maxKeysPerGroup : Nat := (opts.maxKeysPerGroup?.filter fun n => decide (n ≠ 0)).getD 64

theorem maxKeys_pos : 0 < opts.maxKeys := by
  unfold maxKeys
  cases given : opts.maxKeys?.filter fun n => decide (n ≠ 0) with
  | none => decide
  | some n => exact Nat.pos_of_ne_zero (of_decide_eq_true (Option.filter_eq_some_iff.mp given).2)

end RateLimiterOptions

structure RateCheckResult where
  allowed : Bool
  retryAfterMs : Int
deriving DecidableEq

/-- The colon as a code unit. -/
def colon : CodeUnit := 58

/-- The principal of a key: everything before the first colon. -/
def groupOf (key : JsString) : JsString := key.takeWhile fun unit => decide (unit ≠ colon)

structure RateLimiter where
  groupCounts : OrderedMap JsString Nat
  hits : OrderedMap JsString (List Int)

namespace RateLimiter

def fresh : RateLimiter := ⟨Table.empty, Table.empty⟩

variable (opts : RateLimiterOptions) (now : Int)

def has (l : RateLimiter) (key : JsString) : Bool := (OrderedMap.get? l.hits key).isSome

/-- The times kept for a key. -/
def timestamps (l : RateLimiter) (key : JsString) : List Int :=
  (OrderedMap.get? l.hits key).getD []

def groupCount (l : RateLimiter) (group : JsString) : Nat :=
  (OrderedMap.get? l.groupCounts group).getD 0

def dropKey (l : RateLimiter) (key : JsString) : RateLimiter :=
  if l.has key then
    let group := groupOf key
    let n := (OrderedMap.get? l.groupCounts group).getD 1 - 1
    { hits := Table.delete l.hits fun entry => decide (entry.1 = key)
      groupCounts :=
        if n = 0 then Table.delete l.groupCounts fun entry => decide (entry.1 = group)
        else OrderedMap.set l.groupCounts group n }
  else l

/-- The key a new key would push out. -/
def oldest? (l : RateLimiter) : Option JsString :=
  if opts.maxKeys ≤ l.hits.rows.length then (OrderedMap.keys l.hits).head? else none

def evict (l : RateLimiter) : RateLimiter := (l.oldest? opts).elim l l.dropKey

def countKey (l : RateLimiter) (key : JsString) : RateLimiter where
  groupCounts := OrderedMap.set l.groupCounts (groupOf key) (l.groupCount (groupOf key) + 1)
  hits := l.hits

/-- Count the key of a call; nothing when its group is full. -/
def track (l : RateLimiter) (key : JsString) : Option RateLimiter :=
  if l.has key then some l
  else if opts.maxKeysPerGroup ≤ l.groupCount (groupOf key) then none
  else
    some ((l.evict opts).countKey key)

/-- Delete the key and insert it again, as the most recently used one. -/
def reinsert (l : RateLimiter) (key : JsString) (times : List Int) : RateLimiter where
  groupCounts := l.groupCounts
  hits := OrderedMap.set (Table.delete l.hits fun entry => decide (entry.1 = key)) key times

def checkMany (l : RateLimiter) (key : JsString) (count : Int) : RateCheckResult × RateLimiter :=
  if count ≤ 0 then (⟨true, 0⟩, l)
  else
    match l.track opts key with
    | none => (⟨false, opts.windowMs⟩, l)
    | some l =>
        let timestamps := within opts.windowMs now (l.timestamps key)
        if opts.maxRequests < timestamps.length + count then
          let sorted := timestamps.insertionSort (· ≤ ·)
          let retryAfterMs := match sorted.head? with
            | none => (opts.windowMs : Int)
            | some oldest => oldest + opts.windowMs - now
          (⟨false, max retryAfterMs 0⟩, l.reinsert key sorted)
        else
          (⟨true, 0⟩, l.reinsert key (timestamps ++ List.replicate count.toNat now))

def check (l : RateLimiter) (key : JsString) : RateCheckResult × RateLimiter :=
  l.checkMany opts now key 1

/-- `Math.min` of no time at all is not reached: at least one request is allowed. -/
def peek (l : RateLimiter) (key : JsString) : RateCheckResult :=
  let inWindow := within opts.windowMs now (l.timestamps key)
  if inWindow.length < opts.maxRequests then ⟨true, 0⟩
  else ⟨false, max ((inWindow.min?.getD 0) + opts.windowMs - now) 0⟩

def sweep (l : RateLimiter) : RateLimiter :=
  l.hits.rows.foldl (fun l entry =>
    if entry.2.any fun t => decide (now - opts.windowMs < t) then l else l.dropKey entry.1) l

/-! ## Keys and groups -/

/-- How many tracked keys a group has. -/
def groupSize (l : RateLimiter) (group : JsString) : Nat :=
  (OrderedMap.keys l.hits).countP fun key => decide (groupOf key = group)

/-- Both maps are in step and within their limits. -/
structure InStep (l : RateLimiter) : Prop where
  counts : ∀ group, l.groupCount group = l.groupSize group
  keys : l.hits.rows.length ≤ opts.maxKeys
  group : ∀ group, l.groupSize group ≤ opts.maxKeysPerGroup

theorem has_iff {l : RateLimiter} {key : JsString} : l.has key = true ↔ key ∈ OrderedMap.keys l.hits :=
  OrderedMap.mem_keys_iff.symm

theorem length_keys (l : RateLimiter) : (OrderedMap.keys l.hits).length = l.hits.rows.length :=
  List.length_map _

theorem keys_delete (map : OrderedMap JsString (List Int)) (key : JsString) :
    OrderedMap.keys (Table.delete map fun entry => decide (entry.1 = key)) =
      (OrderedMap.keys map).erase key := by
  rw [(OrderedMap.keys_nodup map).erase_eq_filter, OrderedMap.keys, OrderedMap.keys, Table.delete,
    List.filter_map]
  congr 1
  refine List.filter_congr fun entry _ => ?_
  rw [Bool.eq_iff_iff]
  simp

theorem keys_set_of_notMem {ν : Type} {map : OrderedMap JsString ν} {key : JsString} {value : ν}
    (absent : key ∉ OrderedMap.keys map) :
    OrderedMap.keys (OrderedMap.set map key value) = OrderedMap.keys map ++ [key] := by
  rw [OrderedMap.keys, OrderedMap.set, Table.upsert, Table.map_upsertRows]
  exact if_neg absent

theorem keys_reinsert (l : RateLimiter) (key : JsString) (times : List Int) :
    OrderedMap.keys (l.reinsert key times).hits = (OrderedMap.keys l.hits).erase key ++ [key] := by
  have absent : key ∉ OrderedMap.keys
      (Table.delete l.hits fun entry => decide (entry.1 = key)) := by
    rw [keys_delete]
    exact (OrderedMap.keys_nodup l.hits).not_mem_erase
  rw [reinsert, keys_set_of_notMem absent, keys_delete]

theorem groupSize_pos {l : RateLimiter} {key : JsString} (tracked : l.has key = true) :
    0 < l.groupSize (groupOf key) :=
  List.countP_pos_iff.mpr ⟨key, has_iff.mp tracked, decide_eq_true rfl⟩

/-- Re-inserting a tracked key changes no count. -/
theorem InStep.reinsert {l : RateLimiter} {key : JsString} (inStep : InStep opts l)
    (tracked : l.has key = true) (times : List Int) : InStep opts (l.reinsert key times) := by
  have moved : (OrderedMap.keys (l.reinsert key times).hits).Perm (OrderedMap.keys l.hits) := by
    rw [keys_reinsert]
    exact List.perm_append_comm.trans (List.perm_cons_erase (has_iff.mp tracked)).symm
  have sizes (group : JsString) : (l.reinsert key times).groupSize group = l.groupSize group :=
    moved.countP_eq _
  refine ⟨fun group => (inStep.counts group).trans (sizes group).symm, ?_, fun group => ?_⟩
  · rw [← length_keys, moved.length_eq, length_keys]
    exact inStep.keys
  · rw [sizes]
    exact inStep.group group

theorem keys_dropKey {l : RateLimiter} (key : JsString) :
    OrderedMap.keys (l.dropKey key).hits = (OrderedMap.keys l.hits).erase key := by
  unfold dropKey
  split
  · exact keys_delete l.hits key
  · rename_i absent
    rw [has_iff] at absent
    exact (List.erase_of_not_mem absent).symm

theorem groupSize_dropKey {l : RateLimiter} {key : JsString} (tracked : l.has key = true)
    (group : JsString) :
    (l.dropKey key).groupSize group + (if groupOf key = group then 1 else 0) =
      l.groupSize group := by
  have whole := (List.perm_cons_erase (has_iff.mp tracked)).countP_eq
    fun key => decide (groupOf key = group)
  rw [groupSize, keys_dropKey, groupSize, whole, List.countP_cons]
  simp only [decide_eq_true_eq]

/-- The counter of a dropped key's group goes down by one. -/
theorem groupCount_dropKey {l : RateLimiter} {key : JsString} (tracked : l.has key = true)
    (group : JsString) (counted : 0 < l.groupCount (groupOf key)) :
    (l.dropKey key).groupCount group + (if groupOf key = group then 1 else 0) =
      l.groupCount group := by
  obtain ⟨count, isCount⟩ : ∃ count,
      OrderedMap.get? l.groupCounts (groupOf key) = some count := by
    cases found : OrderedMap.get? l.groupCounts (groupOf key) with
    | none => simp [groupCount, found] at counted
    | some count => exact ⟨count, rfl⟩
  have positive : 0 < count := by simpa [groupCount, isCount] using counted
  rw [dropKey, if_pos tracked, groupCount, groupCount]
  dsimp only
  rw [isCount, Option.getD_some]
  split
  · rw [OrderedMap.get?_delete]
    by_cases same : groupOf key = group
    · subst same
      rw [if_pos rfl, if_pos rfl, isCount, Option.getD_none, Option.getD_some]
      omega
    · rw [if_neg same, if_neg same, Nat.add_zero]
  · rw [OrderedMap.get?_set]
    by_cases same : groupOf key = group
    · subst same
      rw [if_pos rfl, if_pos rfl, isCount, Option.getD_some, Option.getD_some]
      omega
    · rw [if_neg same, if_neg same, Nat.add_zero]

theorem InStep.dropKey {l : RateLimiter} (inStep : InStep opts l) (key : JsString) :
    InStep opts (l.dropKey key) := by
  by_cases tracked : l.has key = true
  · have counted : 0 < l.groupCount (groupOf key) := by
      rw [inStep.counts]
      exact groupSize_pos tracked
    refine ⟨fun group => ?_, ?_, fun group => ?_⟩
    · have counts := inStep.counts group
      have sizes := groupSize_dropKey tracked group
      have counters := groupCount_dropKey tracked group counted
      omega
    · rw [← length_keys, keys_dropKey]
      exact List.erase_sublist.length_le.trans (length_keys l ▸ inStep.keys)
    · have sizes := groupSize_dropKey tracked group
      exact le_of_add_le_left (sizes.le.trans (inStep.group group))
  · rw [RateLimiter.dropKey, if_neg tracked]
    exact inStep

theorem InStep.evict {l : RateLimiter} (inStep : InStep opts l) : InStep opts (l.evict opts) := by
  rw [RateLimiter.evict]
  cases l.oldest? opts with
  | none => exact inStep
  | some oldest => exact inStep.dropKey opts oldest

/-- Eviction leaves room for one more key. -/
theorem length_evict_lt {l : RateLimiter} (keys : l.hits.rows.length ≤ opts.maxKeys) :
    (l.evict opts).hits.rows.length < opts.maxKeys := by
  rw [evict, oldest?]
  split
  · rename_i full
    cases first : OrderedMap.keys l.hits with
    | nil =>
        have none : l.hits.rows.length = 0 := by rw [← length_keys, first, List.length_nil]
        have := opts.maxKeys_pos
        omega
    | cons oldest rest =>
        have shorter : (l.dropKey oldest).hits.rows.length = rest.length := by
          rw [← length_keys, keys_dropKey, first, List.erase_cons_head]
        have whole : l.hits.rows.length = rest.length + 1 := by
          rw [← length_keys, first, List.length_cons]
        change (l.dropKey oldest).hits.rows.length < opts.maxKeys
        omega
  · rename_i room
    exact Nat.lt_of_not_le room

theorem keys_evict_sublist (l : RateLimiter) :
    (OrderedMap.keys (l.evict opts).hits).Sublist (OrderedMap.keys l.hits) := by
  rw [evict]
  cases l.oldest? opts with
  | none => exact List.Sublist.refl _
  | some oldest =>
      change (OrderedMap.keys (l.dropKey oldest).hits).Sublist _
      rw [keys_dropKey]
      exact List.erase_sublist

/-- A new key is counted and inserted. -/
theorem InStep.insert {l : RateLimiter} {key : JsString} (inStep : InStep opts l)
    (absent : ¬l.has key = true) (room : l.hits.rows.length < opts.maxKeys)
    (groupRoom : l.groupSize (groupOf key) < opts.maxKeysPerGroup) (times : List Int) :
    InStep opts ((l.countKey key).reinsert key times) := by
  have keys : OrderedMap.keys ((l.countKey key).reinsert key times).hits =
      OrderedMap.keys l.hits ++ [key] := by
    rw [keys_reinsert]
    exact congrArg (· ++ [key]) (List.erase_of_not_mem (mt has_iff.mpr absent))
  have sizes (group : JsString) : ((l.countKey key).reinsert key times).groupSize group =
      l.groupSize group + if groupOf key = group then 1 else 0 := by
    rw [groupSize, keys, List.countP_append, groupSize, List.countP_singleton]
    simp only [decide_eq_true_eq]
  refine ⟨fun group => ?_, ?_, fun group => ?_⟩
  · rw [sizes, ← inStep.counts group]
    change (OrderedMap.get? (OrderedMap.set l.groupCounts (groupOf key) _) group).getD 0 = _
    rw [OrderedMap.get?_set]
    by_cases same : groupOf key = group
    · subst same
      rw [if_pos rfl, if_pos rfl, Option.getD_some]
    · rw [if_neg same, if_neg same]
      rfl
  · rw [← length_keys, keys, List.length_append, length_keys]
    exact room
  · rw [sizes]
    by_cases same : groupOf key = group
    · subst same
      rw [if_pos rfl]
      exact groupRoom
    · rw [if_neg same]
      exact inStep.group group

/-- A call whose key is refused because of its group. -/
def GroupFull (l : RateLimiter) (key : JsString) : Prop :=
  l.has key = false ∧ opts.maxKeysPerGroup ≤ l.groupCount (groupOf key)

theorem track_eq_none_iff {l : RateLimiter} {key : JsString} :
    l.track opts key = none ↔ GroupFull opts l key := by
  unfold track GroupFull
  cases l.has key <;> simp

/-- The limiter a call works on. -/
theorem track_eq_some_iff {l l' : RateLimiter} {key : JsString} :
    l.track opts key = some l' ↔
      l.has key = true ∧ l' = l ∨
      l.has key = false ∧ l.groupCount (groupOf key) < opts.maxKeysPerGroup ∧
        l' = (l.evict opts).countKey key := by
  unfold track
  cases l.has key <;> simp [eq_comm]

theorem InStep.track {l l' : RateLimiter} {key : JsString} (inStep : InStep opts l)
    (tracks : l.track opts key = some l') (times : List Int) :
    InStep opts (l'.reinsert key times) := by
  rcases (track_eq_some_iff opts).mp tracks with ⟨tracked, rfl⟩ | ⟨absent, groupRoom, rfl⟩
  · exact inStep.reinsert opts tracked times
  · refine (inStep.evict opts).insert opts ?_ (length_evict_lt opts inStep.keys) ?_ times
    · rw [has_iff]
      intro member
      rw [has_iff.mpr ((keys_evict_sublist opts l).subset member)] at absent
      cases absent
    · refine lt_of_le_of_lt ?_ (inStep.counts _ ▸ groupRoom)
      exact (keys_evict_sublist opts l).countP_le

theorem InStep.checkMany {l : RateLimiter} (inStep : InStep opts l) (key : JsString)
    (count : Int) : InStep opts (l.checkMany opts now key count).2 := by
  unfold RateLimiter.checkMany
  split
  · exact inStep
  · cases tracks : l.track opts key with
    | none => exact inStep
    | some l' =>
        dsimp only
        split
        · exact inStep.track opts tracks _
        · exact inStep.track opts tracks _

theorem InStep.sweep {l : RateLimiter} (inStep : InStep opts l) :
    InStep opts (l.sweep opts now) := by
  unfold RateLimiter.sweep
  generalize l.hits.rows = rows
  induction rows generalizing l with
  | nil => exact inStep
  | cons entry rows ih =>
      rw [List.foldl_cons]
      split
      · exact ih inStep
      · exact ih (inStep.dropKey opts entry.1)

end RateLimiter

end Odatano
