import Odatano.TableSums

/-!
# Insertion-ordered maps

A map is a table of key/value pairs.  Besides lookup and assignment it offers
the accumulation idiom `map.set(k, change(map.get(k) ?? init))`; what a measure
of the accumulated values adds up to is computed once, for every accumulation.
-/

/-- A map that keeps the order in which its keys were first set. -/
abbrev OrderedMap (κ ν : Type*) := Table (Prod.fst : κ × ν → κ)

namespace OrderedMap

variable {κ ν : Type*} [DecidableEq κ]

/-- The value set for a key. -/
def get? (map : OrderedMap κ ν) (k : κ) : Option ν :=
  (Table.find? map k).map Prod.snd

/-- Set the value of a key. -/
def set (map : OrderedMap κ ν) (k : κ) (value : ν) : OrderedMap κ ν :=
  Table.upsert map (k, value)

/-- The keys in the order they were first set. -/
def keys (map : OrderedMap κ ν) : List κ := map.rows.map Prod.fst

omit [DecidableEq κ] in
theorem keys_nodup (map : OrderedMap κ ν) : (keys map).Nodup := Table.keys_nodup map

/-- Change the value of a key, starting from `init` when it has none. -/
def modify (map : OrderedMap κ ν) (k : κ) (init : ν) (change : ν → ν) : OrderedMap κ ν :=
  set map k (change ((get? map k).getD init))

/-- A quantity of the value of a key, zero when it has none. -/
def measure {M : Type*} [Zero M] (map : OrderedMap κ ν) (quantity : ν → M) (k : κ) : M :=
  ((get? map k).map quantity).getD 0

@[simp] theorem get?_empty (k : κ) : get? (Table.empty : OrderedMap κ ν) k = none := rfl

theorem get?_set (map : OrderedMap κ ν) (k other : κ) (value : ν) :
    get? (set map k value) other = if k = other then some value else get? map other := by
  unfold get? set
  rw [Table.find?_upsert]
  split <;> rfl

theorem get?_eq_some_iff {map : OrderedMap κ ν} {k : κ} {value : ν} :
    get? map k = some value ↔ (k, value) ∈ map.rows := by
  simp only [get?, Option.map_eq_some_iff, Prod.exists, Table.find?_eq_some_iff]
  constructor
  · rintro ⟨_, _, ⟨member, rfl⟩, rfl⟩
    exact member
  · intro member
    exact ⟨k, value, ⟨member, rfl⟩, rfl⟩

theorem mem_keys_iff {map : OrderedMap κ ν} {k : κ} :
    k ∈ keys map ↔ (get? map k).isSome := by
  rw [get?, Option.isSome_map, Table.find?_isSome_iff]
  rfl

/-- A measure is a sum over the entries with the key. -/
theorem measure_eq_sum {M : Type*} [AddCommMonoid M] (map : OrderedMap κ ν) (quantity : ν → M)
    (k : κ) :
    measure map quantity k =
      (map.rows.map fun entry => if entry.1 = k then quantity entry.2 else 0).sum := by
  have summed := Table.contribution_eq_sum map (fun entry => quantity entry.2) k
  rw [Table.sum] at summed
  rw [← summed, measure, get?, Table.contribution, Option.map_map]
  rfl

theorem get?_delete (map : OrderedMap κ ν) (k other : κ) :
    get? (Table.delete map fun entry => decide (entry.1 = k)) other =
      if k = other then none else get? map other := by
  rw [get?, Table.find?_delete, get?]
  cases found : Table.find? map other with
  | none => simp
  | some entry =>
      have sameKey : entry.1 = other := Table.key_of_find? found
      by_cases same : k = other <;> simp [Option.filter, sameKey, same, eq_comm]

theorem get?_modify (map : OrderedMap κ ν) (k other : κ) (init : ν) (change : ν → ν) :
    get? (modify map k init change) other =
      if k = other then some (change ((get? map k).getD init)) else get? map other :=
  get?_set map k other _

section Accumulation

variable {ε : Type*} {keyOf : ε → κ} {init : ε → ν} {change : ε → ν → ν}

/-- Modify the value of the key of every entry in turn. -/
def accumulate (keyOf : ε → κ) (init : ε → ν) (change : ε → ν → ν)
    (map : OrderedMap κ ν) (entries : List ε) : OrderedMap κ ν :=
  entries.foldl (fun map entry => modify map (keyOf entry) (init entry) (change entry)) map

theorem accumulate_append (map : OrderedMap κ ν) (first second : List ε) :
    accumulate keyOf init change map (first ++ second) =
      accumulate keyOf init change (accumulate keyOf init change map first) second :=
  List.foldl_append

theorem get?_accumulate_isSome (map : OrderedMap κ ν) (entries : List ε) (k : κ) :
    (get? (accumulate keyOf init change map entries) k).isSome ↔
      (get? map k).isSome ∨ ∃ entry ∈ entries, keyOf entry = k := by
  induction entries generalizing map with
  | nil => simp [accumulate]
  | cons entry entries ih =>
      rw [accumulate, List.foldl_cons]
      refine (ih _).trans ?_
      rw [get?_modify]
      by_cases same : keyOf entry = k <;> simp [same]

/-- A property of the values that every start and every change respects. -/
theorem forall_get?_accumulate (property : κ → ν → Prop) (keyOf : ε → κ) (init : ε → ν)
    (change : ε → ν → ν) (map : OrderedMap κ ν) (entries : List ε)
    (before : ∀ k value, get? map k = some value → property k value)
    (starts : ∀ entry ∈ entries, property (keyOf entry) (init entry))
    (keeps : ∀ entry ∈ entries, ∀ value, property (keyOf entry) value →
      property (keyOf entry) (change entry value)) :
    ∀ k value, get? (accumulate keyOf init change map entries) k = some value →
      property k value := by
  induction entries generalizing map with
  | nil => exact before
  | cons entry entries ih =>
      have entryMem : entry ∈ entry :: entries := List.mem_cons_self ..
      refine ih _ ?_ (fun other otherMem => starts other (List.mem_cons_of_mem _ otherMem))
        fun other otherMem => keeps other (List.mem_cons_of_mem _ otherMem)
      intro k value found
      rw [get?_modify] at found
      split at found
      · rename_i same
        subst same
        cases found
        apply keeps entry entryMem
        cases stored : get? map (keyOf entry) with
        | none => exact starts entry entryMem
        | some old => exact before _ _ stored
      · exact before k value found

/-- A measure that starts at zero and grows by `growth` at every change adds up
the growth of the entries with the given key. -/
theorem measure_accumulate {M : Type*} [AddCommMonoid M] (keyOf : ε → κ) (init : ε → ν)
    (change : ε → ν → ν) (quantity : ν → M) (growth : ε → M) {entries : List ε}
    (startsZero : ∀ entry ∈ entries, quantity (init entry) = 0)
    (grows : ∀ entry ∈ entries, ∀ value,
      quantity (change entry value) = quantity value + growth entry)
    (map : OrderedMap κ ν) (k : κ) :
    measure (accumulate keyOf init change map entries) quantity k =
      measure map quantity k +
        (entries.map fun entry => if keyOf entry = k then growth entry else 0).sum := by
  induction entries generalizing map with
  | nil => simp [accumulate]
  | cons entry entries ih =>
      have entryMem : entry ∈ entry :: entries := List.mem_cons_self ..
      have step : measure (modify map (keyOf entry) (init entry) (change entry)) quantity k =
          measure map quantity k + if keyOf entry = k then growth entry else 0 := by
        unfold measure
        rw [get?_modify]
        by_cases same : keyOf entry = k
        · subst same
          cases stored : get? map (keyOf entry) with
          | none => simp [grows entry entryMem, startsZero entry entryMem]
          | some old => simp [grows entry entryMem]
        · simp [same]
      calc
        _ = measure (modify map (keyOf entry) (init entry) (change entry)) quantity k +
              (entries.map fun other => if keyOf other = k then growth other else 0).sum :=
            ih (fun other otherMem => startsZero other (List.mem_cons_of_mem _ otherMem))
              (fun other otherMem => grows other (List.mem_cons_of_mem _ otherMem)) _
        _ = _ := by rw [step, List.map_cons, List.sum_cons, add_assoc]

/-- Collect the entries of each key into a list. -/
def collect (keyOf : ε → κ) (map : OrderedMap κ (List ε)) (entries : List ε) :
    OrderedMap κ (List ε) :=
  accumulate keyOf (fun _ => []) (fun entry list => list ++ [entry]) map entries

theorem getD_get?_collect (map : OrderedMap κ (List ε)) (entries : List ε) (k : κ) :
    (get? (collect keyOf map entries) k).getD [] =
      (get? map k).getD [] ++ entries.filter fun entry => decide (keyOf entry = k) := by
  induction entries generalizing map with
  | nil => simp [collect, accumulate]
  | cons entry entries ih =>
      refine (ih (modify map (keyOf entry) [] fun list => list ++ [entry])).trans ?_
      rw [get?_modify]
      by_cases same : keyOf entry = k
      · subst same
        simp
      · simp [same]

end Accumulation

/-- Assigning distinct keys one after another. -/
theorem get?_foldl_set {keyOf : ν → κ} (map : OrderedMap κ ν) {values : List ν}
    (nodup : (values.map keyOf).Nodup) (k : κ) :
    get? (values.foldl (fun map value => set map (keyOf value) value) map) k =
      (values.find? fun value => decide (keyOf value = k)).or (get? map k) := by
  have pairs : values.foldl (fun map value => set map (keyOf value) value) map =
      Table.upsertAll map (values.map fun value => (keyOf value, value)) :=
    List.foldl_map.symm
  have pairs_nodup : ((values.map fun value => (keyOf value, value)).map Prod.fst).Nodup := by
    simpa [Function.comp_def] using nodup
  rw [pairs, get?, Table.find?_upsertAll map pairs_nodup, List.find?_map, get?]
  cases found : values.find? fun value => decide (keyOf value = k) with
  | none => simp [Function.comp_def, found]
  | some value => simp [Function.comp_def, found]

end OrderedMap
