import Mathlib.Algebra.Order.Group.Int
import Mathlib.Data.List.Sort

/-!
# Sliding windows

Times of hits, listed in the order they were recorded.  A limit on every window is kept by
counting, at each new hit, the hits that are still inside the window ending there.
-/

namespace SlidingWindow

/-- The times inside the window that ends at `now`. -/
def within (window now : Int) (times : List Int) : List Int :=
  times.filter fun t => decide (now - window < t)

/-- The times inside the window that begins after `start`; on whole times it is the window that
ends before `start + window + 1`. -/
def inside (window start : Int) (times : List Int) : List Int :=
  times.filter fun t => decide (start < t ∧ t ≤ start + window)

/-- No window holds more than `limit` times. -/
def AtMost (limit : Nat) (window : Int) (times : List Int) : Prop :=
  ∀ start, (inside window start times).length ≤ limit

variable {limit : Nat} {window now later : Int} {times : List Int}

@[simp]
theorem within_nil : within window now [] = [] :=
  rfl

theorem within_append (first second : List Int) :
    within window now (first ++ second) = within window now first ++ within window now second :=
  List.filter_append ..

/-- What has left a window does not come back. -/
theorem within_within (passes : now ≤ later) :
    within window later (within window now times) = within window later times := by
  rw [within, within, List.filter_filter]
  refine List.filter_congr fun t _ => ?_
  rw [← Bool.decide_and, decide_eq_decide]
  omega

theorem within_eq_of_le (passes : now ≤ later) {other : List Int}
    (same : within window now times = within window now other) :
    within window later times = within window later other := by
  rw [← within_within passes, same, within_within passes]

theorem atMost_nil : AtMost limit window [] := by
  intro start
  exact Nat.zero_le limit

/-- The window that ends at the latest time. -/
theorem AtMost.length_within (atMost : AtMost limit window times) (past : ∀ t ∈ times, t ≤ now) :
    (within window now times).length ≤ limit := by
  have same : within window now times = inside window (now - window) times := by
    refine List.filter_congr fun t member => ?_
    have := past t member
    rw [decide_eq_decide]
    omega
  rw [same]
  exact atMost (now - window)

/-- New hits that fit into the window ending now fit into every window. -/
theorem AtMost.append (atMost : AtMost limit window times) {count : Nat}
    (fits : (within window now times).length + count ≤ limit) :
    AtMost limit window (times ++ List.replicate count now) := by
  intro start
  rw [inside, List.filter_append, List.length_append]
  by_cases holds : start < now ∧ now ≤ start + window
  · -- every earlier hit of this window is still inside the window ending now
    have fewer : (inside window start times).length ≤ (within window now times).length := by
      refine (List.monotone_filter_right times fun t isInside => ?_).length_le
      rw [decide_eq_true_eq] at isInside ⊢
      omega
    have added : ((List.replicate count now).filter fun t =>
        decide (start < t ∧ t ≤ start + window)).length ≤ count := by
      exact (List.length_filter_le _ _).trans_eq List.length_replicate
    rw [inside] at fewer
    omega
  · have none : ((List.replicate count now).filter fun t =>
        decide (start < t ∧ t ≤ start + window)) = [] := by
      rw [List.filter_eq_nil_iff]
      intro t member
      rw [List.eq_of_mem_replicate member, decide_eq_true_eq]
      exact holds
    rw [none, List.length_nil, Nat.add_zero]
    exact atMost start

/-- The least time is the one recorded first. -/
theorem min?_eq_head? {times : List Int} (order : times.Pairwise (· ≤ ·)) :
    times.min? = times.head? := by
  cases times with
  | nil => rfl
  | cons oldest times =>
      rw [List.head?_cons, List.min?_eq_some_iff]
      refine ⟨List.mem_cons_self, fun t member => ?_⟩
      rcases List.mem_cons.mp member with rfl | later
      · exact le_rfl
      · exact List.rel_of_pairwise_cons order later

end SlidingWindow
