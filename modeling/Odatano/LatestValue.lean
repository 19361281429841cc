import Mathlib.Data.List.Basic

/-!
# The latest value of a list

Items may give a value each, and the last one that does decides.  A run that overwrites a value
with what each item gives ends with it.
-/

namespace List

variable {α β γ σ : Type*} {given : α → Option β}

/-- The value of the last item that gives one. -/
def latest (given : α → Option β) (items : List α) : Option β := (items.filterMap given).getLast?

@[simp] theorem latest_nil : ([] : List α).latest given = none := rfl

theorem latest_append (first rest : List α) :
    (first ++ rest).latest given = (rest.latest given).or (first.latest given) := by
  rw [latest, filterMap_append, getLast?_append]
  rfl

theorem latest_singleton (item : α) : [item].latest given = given item := by
  cases known : given item <;> simp [latest, known]

theorem latest_cons (item : α) (items : List α) :
    (item :: items).latest given = (items.latest given).or (given item) := by
  calc (item :: items).latest given = ([item] ++ items).latest given := rfl
    _ = (items.latest given).or ([item].latest given) := latest_append [item] items
    _ = (items.latest given).or (given item) := by rw [latest_singleton]

theorem latest_eq_none {items : List α} :
    items.latest given = none ↔ ∀ item ∈ items, given item = none := by
  rw [latest, getLast?_eq_none_iff, filterMap_eq_nil_iff]

theorem latest_congr {other : α → Option β} {items : List α}
    (same : ∀ item ∈ items, given item = other item) : items.latest given = items.latest other :=
  congrArg getLast? (filterMap_congr same)

theorem latest_map (f : γ → α) (items : List γ) :
    (items.map f).latest given = items.latest (given ∘ f) :=
  congrArg getLast? filterMap_map

theorem latest_flatMap (rows : γ → List α) (items : List γ) :
    (items.flatMap rows).latest given = items.latest fun item => (rows item).latest given := by
  induction items with
  | nil => rfl
  | cons item items ih => rw [flatMap_cons, latest_append, ih, latest_cons]

theorem latest_filter (kept : α → Bool) (items : List α) :
    (items.filter kept).latest given =
      items.latest fun item => if kept item = true then given item else none := by
  induction items with
  | nil => rfl
  | cons item items ih =>
      rw [filter_cons, latest_cons, ← ih]
      split
      · exact latest_cons item _
      · exact (Option.or_none).symm

/-- Items that agree on one value. -/
theorem latest_of_one (chosen : α → Bool) (value : Option β) (items : List α) :
    (items.latest fun item => if chosen item = true then value else none) =
      if items.any chosen = true then value else none := by
  induction items with
  | nil => rfl
  | cons item items ih =>
      rw [latest_cons, ih, any_cons]
      cases items.any chosen <;> cases chosen item <;> cases value <;> rfl

/-- Items after the last one that gives a value give none. -/
theorem latest_append_cons {before after : List α} {item : α}
    (silent : ∀ later ∈ after, given later = none) (gives : (given item).isSome = true) :
    (before ++ item :: after).latest given = given item := by
  rw [latest_append, latest_cons, latest_eq_none.mpr silent, Option.none_or]
  obtain ⟨value, known⟩ := Option.isSome_iff_exists.mp gives
  rw [known, Option.some_or]

/-- A run that overwrites values with what each item gives leaves the latest value. -/
theorem foldl_latest {step : σ → α → σ} {values : σ → List (Option β)}
    (overwrites : ∀ state item, values (step state item) = (values state).map (given item).or)
    (items : List α) (state : σ) :
    values (items.foldl step state) = (values state).map (items.latest given).or := by
  induction items generalizing state with
  | nil =>
      have same : (fun value : Option β => (none : Option β).or value) = id := rfl
      rw [foldl_nil, latest_nil]
      exact (congrArg (fun f => (values state).map f) same).symm ▸ (map_id _).symm
  | cons item items ih =>
      rw [foldl_cons, ih, overwrites, map_map, latest_cons]
      exact map_congr_left fun value _ => (Option.or_assoc ..).symm

end List
