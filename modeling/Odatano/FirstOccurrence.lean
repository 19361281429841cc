import Mathlib.Data.List.Infix
import Mathlib.Data.Nat.Find

/-!
# First occurrences

The first place where a pattern stands in a list, and what comes of replacing the pattern there
instead of at a later place.
-/

namespace List

variable {α : Type*} [DecidableEq α]

/-- Where a pattern first stands in a list. -/
def firstOccurrence (pattern list : List α) : Option Nat :=
  list.tails.findIdx? fun rest => pattern.isPrefixOf rest

variable {pattern list : List α} {place : Nat}

theorem firstOccurrence_eq_some_iff :
    firstOccurrence pattern list = some place ↔
      place ≤ list.length ∧ pattern <+: list.drop place ∧
        ∀ earlier < place, ¬pattern <+: list.drop earlier := by
  rw [firstOccurrence, findIdx?_eq_some_iff_getElem]
  simp only [getElem_tails, length_tails, isPrefixOf_iff_prefix, Nat.lt_succ_iff, exists_prop]

/-- A pattern that stands somewhere is found there or before. -/
theorem exists_firstOccurrence {start rest : List α} :
    ∃ place ≤ start.length, firstOccurrence pattern (start ++ pattern ++ rest) = some place := by
  have stands : pattern <+: (start ++ pattern ++ rest).drop start.length := by
    rw [append_assoc, drop_left]
    exact prefix_append pattern rest
  have somewhere : ∃ place, pattern <+: (start ++ pattern ++ rest).drop place := ⟨_, stands⟩
  have least : Nat.find somewhere ≤ start.length := Nat.find_min' somewhere stands
  refine ⟨Nat.find somewhere, least, ?_⟩
  rw [firstOccurrence_eq_some_iff]
  refine ⟨least.trans ?_, Nat.find_spec somewhere, fun earlier before =>
    Nat.find_min somewhere before⟩
  rw [append_assoc, length_append]
  exact Nat.le_add_right _ _

omit [DecidableEq α] in
/-- Of two lists that a shift by the same list continues, one is a prefix of the other. -/
theorem prefix_or_prefix_of_shift {shift : List α} (moves : shift ≠ []) {first second : List α}
    (isFirst : first <+: shift ++ first) (isSecond : second <+: shift ++ second) :
    first <+: second ∨ second <+: first := by
  by_cases short : second.length ≤ shift.length
  · -- the second lies within the shift, which both lists begin with
    have within : second <+: shift :=
      prefix_of_prefix_length_le isSecond (prefix_append shift second) short
    exact prefix_or_prefix_of_prefix isFirst (within.trans (prefix_append shift first))
  · have long : shift <+: second :=
      prefix_of_prefix_length_le (prefix_append shift second) isSecond (Nat.le_of_not_le short)
    rcases prefix_or_prefix_of_prefix isFirst (prefix_append shift first) with within | beyond
    · exact Or.inl (within.trans long)
    · obtain ⟨first, rfl⟩ := beyond
      obtain ⟨second, rfl⟩ := long
      have shorter : second.length < (shift ++ second).length := by
        rw [length_append]
        exact Nat.lt_add_of_pos_left (length_pos_iff.mpr moves)
      rcases prefix_or_prefix_of_shift moves ((prefix_append_right_inj shift).mp isFirst)
        ((prefix_append_right_inj shift).mp isSecond) with less | more
      · exact Or.inl ((prefix_append_right_inj shift).mpr less)
      · exact Or.inr ((prefix_append_right_inj shift).mpr more)
termination_by second.length

/-- Replacing a pattern at its first place changes the list as at a later place only if the first
place is that one, or if nothing changes. -/
theorem replace_first_eq_iff {start rest replacement : List α}
    (found : firstOccurrence pattern (start ++ pattern ++ rest) = some place)
    (code : pattern <+: replacement ∨ replacement <+: pattern → pattern = replacement) :
    (start ++ pattern ++ rest).take place ++ replacement ++
        (start ++ pattern ++ rest).drop (place + pattern.length) =
      start ++ replacement ++ rest ↔ place = start.length ∨ pattern = replacement := by
  obtain ⟨-, stands, least⟩ := firstOccurrence_eq_some_iff.mp found
  have whole : (start ++ pattern ++ rest).take place ++ pattern ++
      (start ++ pattern ++ rest).drop (place + pattern.length) = start ++ pattern ++ rest := by
    obtain ⟨tail, isTail⟩ := stands
    have after : (start ++ pattern ++ rest).drop (place + pattern.length) = tail := by
      rw [← drop_drop, ← isTail, drop_left]
    rw [after, append_assoc, isTail, take_append_drop]
  constructor
  · intro same
    rcases Nat.lt_trichotomy place start.length with before | there | after
    · refine Or.inr (code ?_)
      have shifted : (start ++ pattern ++ rest).drop place =
          start.drop place ++ pattern ++ rest := by
        rw [append_assoc, drop_append_of_le_length before.le, append_assoc]
      have moves : start.drop place ≠ [] := by
        rw [Ne, drop_eq_nil_iff]
        exact Nat.not_le_of_lt before
      have first : pattern <+: start.drop place ++ pattern := by
        refine prefix_of_prefix_length_le (shifted ▸ stands) (prefix_append _ rest) ?_
        rw [length_append]
        exact Nat.le_add_left _ _
      have second : replacement <+: start.drop place ++ replacement := by
        have tails := congrArg (drop place) same
        have isStart : ((start ++ pattern ++ rest).take place).length = place := by
          rw [length_take, append_assoc, length_append]
          omega
        rw [append_assoc, drop_left' isStart, append_assoc start replacement,
          drop_append_of_le_length before.le] at tails
        have begins : replacement <+: start.drop place ++ (replacement ++ rest) :=
          tails ▸ prefix_append replacement _
        refine prefix_of_prefix_length_le begins ?_ ?_
        · rw [← append_assoc]
          exact prefix_append _ rest
        · rw [length_append]
          exact Nat.le_add_left _ _
      exact prefix_or_prefix_of_shift moves first second
    · exact Or.inl there
    · refine absurd ?_ (least start.length after)
      rw [append_assoc, drop_left]
      exact prefix_append pattern rest
  · rintro (rfl | rfl)
    · rw [append_assoc, append_assoc start pattern, take_left, ← drop_drop, drop_left, drop_left,
        append_assoc]
    · exact whole

end List
