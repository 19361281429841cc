import Mathlib.Data.List.Sort
import Mathlib.Data.Prod.Lex

/-!
# Keyset pages

Rows of a two-part key, read a page at a time in key order.  Each page starts after the last key of
the page before, and the rows of one first key are left to one page where a page can hold them.  The
rows may change between two pages: what a walk has passed stays passed.
-/

/-- The two parts of the keys of rows. -/
structure Keyset (ρ α β : Type*) where
  first : ρ → α
  second : ρ → β

/-- Where a walk continues: after a first key, or within it after a second one. -/
structure KeysetCursor (α β : Type*) where
  first : α
  second : β
  within : Bool

/-- What a page contributes: its rows, where the walk continues and whether it ends. -/
structure KeysetPage (ρ α β : Type*) where
  rows : List ρ
  next : Option (KeysetCursor α β)
  done : Bool

namespace KeysetCursor

variable {α β : Type*} [LinearOrder α] [LinearOrder β]

/-- The walk continues within a first key. -/
def isWithin : Option (KeysetCursor α β) → Bool
  | none => false
  | some cursor => cursor.within

/-- The keys the next page is read from. -/
def selects (cursor : Option (KeysetCursor α β)) (first : α) (second : β) : Bool :=
  match cursor with
  | none => true
  | some cursor =>
      if cursor.within = true then decide (first = cursor.first ∧ cursor.second < second)
      else decide (cursor.first < first)

/-- The keys the walk is through with. -/
def Passed (cursor : Option (KeysetCursor α β)) (first : α) (second : β) : Prop :=
  match cursor with
  | none => False
  | some cursor =>
      if cursor.within = true then
        first < cursor.first ∨ first = cursor.first ∧ second ≤ cursor.second
      else first ≤ cursor.first

instance decidablePassed (cursor : Option (KeysetCursor α β)) (first : α) (second : β) :
    Decidable (Passed cursor first second) :=
  match cursor with
  | none => inferInstanceAs (Decidable False)
  | some cursor => inferInstanceAs (Decidable (if cursor.within = true then
      first < cursor.first ∨ first = cursor.first ∧ second ≤ cursor.second
    else first ≤ cursor.first))

variable {first : α} {second : β} {k : α} {l : β}

@[simp] theorem not_passed_none : ¬ Passed (none : Option (KeysetCursor α β)) k l := id

@[simp] theorem passed_within :
    Passed (some ⟨first, second, true⟩) k l ↔ k < first ∨ k = first ∧ l ≤ second := Iff.rfl

@[simp] theorem passed_after : Passed (some ⟨first, second, false⟩) k l ↔ k ≤ first := Iff.rfl

@[simp] theorem selects_none : selects (none : Option (KeysetCursor α β)) k l = true := rfl

@[simp] theorem selects_within :
    selects (some ⟨first, second, true⟩) k l = true ↔ k = first ∧ second < l := decide_eq_true_iff

@[simp] theorem selects_after :
    selects (some ⟨first, second, false⟩) k l = true ↔ first < k := decide_eq_true_iff

/-- What is read has not been passed. -/
theorem not_passed_of_selects {cursor : Option (KeysetCursor α β)}
    (selected : selects cursor k l = true) : ¬ Passed cursor k l := by
  cases cursor with
  | none => exact id
  | some cursor =>
      obtain ⟨first, second, within⟩ := cursor
      cases within with
      | true =>
          obtain ⟨same, later⟩ := selects_within.mp selected
          rintro (before | ⟨-, notLater⟩)
          · exact before.ne same
          · exact not_le_of_gt later notLater
      | false => exact not_le_of_gt (selects_after.mp selected)

/-- Outside a first key, what has not been passed is read. -/
theorem selects_of_not_passed {cursor : Option (KeysetCursor α β)}
    (outside : isWithin cursor = false) (ahead : ¬ Passed cursor k l) :
    selects cursor k l = true := by
  cases cursor with
  | none => rfl
  | some cursor =>
      obtain ⟨first, second, within⟩ := cursor
      cases within with
      | true => cases outside
      | false => exact selects_after.mpr (lt_of_not_ge ahead)

end KeysetCursor

namespace Keyset

open KeysetCursor

variable {ρ α β : Type*} [LinearOrder α] [LinearOrder β] (keys : Keyset ρ α β)

/-- The key of a row. -/
def key (row : ρ) : α ×ₗ β := toLex (keys.first row, keys.second row)

/-- The first rows in key order. -/
def page (rows : List ρ) (limit : Nat) : List ρ :=
  (rows.insertionSort fun a b => keys.key a ≤ keys.key b).take limit

/-- The rows a page is read from. -/
def ahead (cursor : Option (KeysetCursor α β)) (rows : List ρ) : List ρ :=
  rows.filter fun row => selects cursor (keys.first row) (keys.second row)

/-- What some read rows contribute.  The last first key of a full page may continue in the next one:
its rows wait for it.  When the whole page has that first key, the walk continues within it. -/
def pageOf (limit : Nat) (cursor : Option (KeysetCursor α β)) (read : List ρ) :
    KeysetPage ρ α β :=
  match read.getLast? with
  | none =>
      if isWithin cursor = true then ⟨[], cursor.map fun c => { c with within := false }, false⟩
      else ⟨[], cursor, true⟩
  | some last =>
      let full := decide (read.length = limit)
      let allSame := read.all fun row => decide (keys.first row = keys.first last)
      let complete := if full = true ∧ allSame = false then
        read.filter fun row => decide (keys.first row ≠ keys.first last) else read
      ⟨complete, complete.getLast?.map fun l => ⟨keys.first l, keys.second l, full && allSame⟩,
        !full && !isWithin cursor⟩

/-- Read a page. -/
def readPage (limit : Nat) (rows : List ρ) (cursor : Option (KeysetCursor α β)) :
    KeysetPage ρ α β :=
  keys.pageOf limit cursor (keys.page (keys.ahead cursor rows) limit)

variable {keys} {rows : List ρ} {limit : Nat} {cursor : Option (KeysetCursor α β)} {row other : ρ}

theorem mem_of_mem_page (read : row ∈ keys.page rows limit) : row ∈ rows :=
  (List.mem_insertionSort _).mp (List.mem_of_mem_take read)

theorem pairwise_page :
    (keys.page rows limit).Pairwise fun a b => keys.key a ≤ keys.key b :=
  (List.pairwise_insertionSort (fun a b => keys.key a ≤ keys.key b) rows).sublist
    (List.take_sublist _ _)

/-- A page leaves out no row before one of its own. -/
theorem mem_page_of_lt (isRow : row ∈ rows) (read : other ∈ keys.page rows limit)
    (before : keys.key row < keys.key other) : row ∈ keys.page rows limit := by
  have sorted := List.pairwise_insertionSort (fun a b => keys.key a ≤ keys.key b) rows
  have isSorted := (List.mem_insertionSort (fun a b => keys.key a ≤ keys.key b)).mpr isRow
  unfold page at read ⊢
  rw [← List.take_append_drop limit (rows.insertionSort _)] at sorted isSorted
  rcases List.mem_append.mp isSorted with taken | dropped
  · exact taken
  · have after := (List.pairwise_append.mp sorted).2.2 other read row dropped
    exact absurd before (not_lt_of_ge after)

/-- A page that is not full has every row. -/
theorem mem_page_of_short (isRow : row ∈ rows) (short : (keys.page rows limit).length ≠ limit) :
    row ∈ keys.page rows limit := by
  unfold page at short ⊢
  rw [List.length_take] at short
  rw [List.take_of_length_le (by omega)]
  exact (List.mem_insertionSort _).mpr isRow

theorem nodup_map_page {δ : Type*} {name : ρ → δ} (once : (rows.map name).Nodup) :
    ((keys.page rows limit).map name).Nodup := by
  have sorted : ((rows.insertionSort fun a b => keys.key a ≤ keys.key b).map name).Nodup :=
    (((List.perm_insertionSort _ rows).map name).nodup_iff).mpr once
  exact sorted.sublist ((List.take_sublist _ _).map name)

theorem le_getLast {read : List ρ} (sorted : read.Pairwise fun a b => keys.key a ≤ keys.key b)
    (isRow : row ∈ read) (isLast : read.getLast? = some other) : keys.key row ≤ keys.key other := by
  obtain ⟨before, rfl⟩ := List.getLast?_eq_some_iff.mp isLast
  rcases List.mem_append.mp isRow with earlier | last
  · exact (List.pairwise_append.mp sorted).2.2 row earlier other (List.mem_singleton.mpr rfl)
  · rw [List.mem_singleton.mp last]

theorem key_le_iff : keys.key row ≤ keys.key other ↔
    keys.first row < keys.first other ∨
      keys.first row = keys.first other ∧ keys.second row ≤ keys.second other :=
  Prod.Lex.le_iff

theorem key_lt_iff : keys.key row < keys.key other ↔
    keys.first row < keys.first other ∨
      keys.first row = keys.first other ∧ keys.second row < keys.second other :=
  Prod.Lex.lt_iff

theorem first_le_of_key_le (before : keys.key row ≤ keys.key other) :
    keys.first row ≤ keys.first other := by
  rcases key_le_iff.mp before with earlier | ⟨same, -⟩
  · exact earlier.le
  · exact same.le

variable (keys) in
/-- The ways a page can end. -/
inductive Reads (read : List ρ) (limit : Nat) (cursor : Option (KeysetCursor α β)) :
    KeysetPage ρ α β → Prop
  /-- Nothing is left of the first key. -/
  | leaves (first : α) (second : β) (empty : read = []) (inside : cursor = some ⟨first, second, true⟩) :
      Reads read limit cursor ⟨[], some ⟨first, second, false⟩, false⟩
  /-- Nothing is left. -/
  | ends (empty : read = []) (outside : isWithin cursor = false) :
      Reads read limit cursor ⟨[], cursor, true⟩
  /-- The page is full of one first key. -/
  | stays (last : ρ) (isRow : last ∈ read) (greatest : ∀ row ∈ read, keys.key row ≤ keys.key last)
      (same : ∀ row ∈ read, keys.first row = keys.first last) :
      Reads read limit cursor ⟨read, some ⟨keys.first last, keys.second last, true⟩, false⟩
  /-- The last first key of a full page waits. -/
  | waits (last l : ρ) (isRow : last ∈ read) (isKept : l ∈ read)
      (before : keys.first l < keys.first last)
      (greatest : ∀ row ∈ read, keys.first row ≠ keys.first last → keys.key row ≤ keys.key l) :
      Reads read limit cursor
        ⟨read.filter fun row => decide (keys.first row ≠ keys.first last),
          some ⟨keys.first l, keys.second l, false⟩, false⟩
  /-- The page is not full. -/
  | runsOut (last : ρ) (isRow : last ∈ read) (greatest : ∀ row ∈ read, keys.key row ≤ keys.key last)
      (short : read.length ≠ limit) :
      Reads read limit cursor
        ⟨read, some ⟨keys.first last, keys.second last, false⟩, !isWithin cursor⟩

theorem pageOf_reads {read : List ρ} (sorted : read.Pairwise fun a b => keys.key a ≤ keys.key b) :
    keys.Reads read limit cursor (keys.pageOf limit cursor read) := by
  unfold pageOf
  cases isLast : read.getLast? with
  | none =>
      have empty := List.getLast?_eq_none_iff.mp isLast
      cases cursor with
      | none => exact .ends empty rfl
      | some cursor =>
          obtain ⟨first, second, within⟩ := cursor
          cases within with
          | true => exact .leaves first second empty rfl
          | false => exact .ends empty rfl
  | some last =>
      have isRow := List.mem_of_getLast? isLast
      have greatest : ∀ row ∈ read, keys.key row ≤ keys.key last := fun row isRow =>
        le_getLast sorted isRow isLast
      dsimp only
      by_cases full : read.length = limit
      · cases allSame : read.all fun row => decide (keys.first row = keys.first last) with
        | true =>
            have same : ∀ row ∈ read, keys.first row = keys.first last := fun row isRow =>
              of_decide_eq_true (List.all_eq_true.mp allSame row isRow)
            rw [if_neg (fun both => Bool.noConfusion both.2), isLast, decide_eq_true full]
            exact .stays last isRow greatest same
        | false =>
            rw [if_pos ⟨decide_eq_true full, rfl⟩, decide_eq_true full]
            obtain ⟨row, isOther, differs⟩ := List.all_eq_false.mp allSame
            have isKept : row ∈ read.filter fun row => decide (keys.first row ≠ keys.first last) :=
              List.mem_filter.mpr ⟨isOther, decide_eq_true (fun same => differs (decide_eq_true same))⟩
            cases isGreatest : (read.filter fun row =>
                decide (keys.first row ≠ keys.first last)).getLast? with
            | none =>
                rw [List.getLast?_eq_none_iff.mp isGreatest] at isKept
                cases isKept
            | some l =>
                obtain ⟨inPage, apart⟩ := List.mem_filter.mp (List.mem_of_getLast? isGreatest)
                have before : keys.first l < keys.first last :=
                  lt_of_le_of_ne (first_le_of_key_le (greatest l inPage)) (of_decide_eq_true apart)
                refine .waits last l isRow inPage before fun row isRow apart => ?_
                exact le_getLast (sorted.filter _)
                  (List.mem_filter.mpr ⟨isRow, decide_eq_true apart⟩) isGreatest
      · rw [if_neg (fun both => full (of_decide_eq_true both.1)), isLast, decide_eq_false full]
        exact .runsOut last isRow greatest full

variable (keys) in
theorem readPage_reads (limit : Nat) (rows : List ρ) (cursor : Option (KeysetCursor α β)) :
    keys.Reads (keys.page (keys.ahead cursor rows) limit) limit cursor
      (keys.readPage limit rows cursor) :=
  pageOf_reads pairwise_page

/-! ## What a page adds -/

theorem mem_ahead : row ∈ keys.ahead cursor rows ↔
    row ∈ rows ∧ selects cursor (keys.first row) (keys.second row) = true := List.mem_filter

theorem mem_read_of_mem_readPage (isRow : row ∈ (keys.readPage limit rows cursor).rows) :
    row ∈ keys.page (keys.ahead cursor rows) limit := by
  generalize isPage : keys.readPage limit rows cursor = page at isRow
  have reads := isPage ▸ keys.readPage_reads limit rows cursor
  cases reads with
  | leaves | ends => cases isRow
  | stays | runsOut => exact isRow
  | waits => exact (List.mem_filter.mp isRow).1

/-- A page has rows that were not passed. -/
theorem mem_of_mem_readPage (isRow : row ∈ (keys.readPage limit rows cursor).rows) :
    row ∈ rows ∧ ¬ Passed cursor (keys.first row) (keys.second row) := by
  obtain ⟨stored, selected⟩ := mem_ahead.mp (mem_of_mem_page (mem_read_of_mem_readPage isRow))
  exact ⟨stored, not_passed_of_selects selected⟩

/-- What was passed stays passed. -/
theorem passed_readPage {k : α} {l : β} (passed : Passed cursor k l) :
    Passed (keys.readPage limit rows cursor).next k l := by
  have later {row : ρ} (isRow : row ∈ keys.page (keys.ahead cursor rows) limit) :
      selects cursor (keys.first row) (keys.second row) = true :=
    (mem_ahead.mp (mem_of_mem_page isRow)).2
  generalize isPage : keys.readPage limit rows cursor = page
  have reads := isPage ▸ keys.readPage_reads limit rows cursor
  cases cursor with
  | none => cases passed
  | some cursor =>
      obtain ⟨first, second, within⟩ := cursor
      cases within with
      | true =>
          have upTo : k ≤ first := passed.elim le_of_lt fun both => both.1.le
          cases reads with
          | leaves first second empty inside =>
              cases inside
              exact upTo
          | ends empty outside => cases outside
          | stays last isRow greatest same =>
              obtain ⟨isFirst, after⟩ := selects_within.mp (later isRow)
              rw [isFirst]
              exact passed.imp_right fun both => ⟨both.1, both.2.trans after.le⟩
          | waits last l isRow isKept before greatest =>
              rw [(selects_within.mp (later isKept)).1]
              exact upTo
          | runsOut last isRow greatest short =>
              rw [(selects_within.mp (later isRow)).1]
              exact upTo
      | false =>
          have upTo : k ≤ first := passed
          cases reads with
          | leaves first second empty inside => cases inside
          | ends empty outside => exact passed
          | stays last isRow greatest same =>
              exact .inl (upTo.trans_lt (selects_after.mp (later isRow)))
          | waits last l isRow isKept before greatest =>
              exact (upTo.trans_lt (selects_after.mp (later isKept))).le
          | runsOut last isRow greatest short =>
              exact (upTo.trans_lt (selects_after.mp (later isRow))).le

/-- The rows of a page are passed after it. -/
theorem passed_of_mem_readPage (isRow : row ∈ (keys.readPage limit rows cursor).rows) :
    Passed (keys.readPage limit rows cursor).next (keys.first row) (keys.second row) := by
  generalize isPage : keys.readPage limit rows cursor = page at isRow
  have reads := isPage ▸ keys.readPage_reads limit rows cursor
  cases reads with
  | leaves | ends => cases isRow
  | stays last isLast greatest same => exact key_le_iff.mp (greatest row isRow)
  | waits last l isLast isKept before greatest =>
      obtain ⟨inPage, apart⟩ := List.mem_filter.mp isRow
      exact first_le_of_key_le (greatest row inPage (of_decide_eq_true apart))
  | runsOut last isLast greatest short => exact first_le_of_key_le (greatest row isRow)

/-- Rows up to the first key of a row ahead are ahead too, unless they were passed. -/
theorem mem_ahead_of_le (isRow : row ∈ rows)
    (unpassed : ¬ Passed cursor (keys.first row) (keys.second row))
    (isAhead : other ∈ keys.ahead cursor rows) (upTo : keys.first row ≤ keys.first other) :
    row ∈ keys.ahead cursor rows := by
  refine mem_ahead.mpr ⟨isRow, ?_⟩
  cases inside : isWithin cursor with
  | false => exact selects_of_not_passed inside unpassed
  | true =>
      cases cursor with
      | none => cases inside
      | some cursor =>
          obtain ⟨first, second, within⟩ := cursor
          cases (inside : within = true)
          obtain ⟨isFirst, -⟩ := selects_within.mp (mem_ahead.mp isAhead).2
          rw [passed_within, not_or, not_and] at unpassed
          have same := le_antisymm (upTo.trans isFirst.le) (le_of_not_gt unpassed.1)
          exact selects_within.mpr ⟨same, lt_of_not_ge (unpassed.2 same)⟩

/-- What a page passes is in it. -/
theorem mem_readPage_of_passed (positive : 0 < limit) (once : (rows.map keys.key).Nodup)
    (isRow : row ∈ rows) (unpassed : ¬ Passed cursor (keys.first row) (keys.second row))
    (passed : Passed (keys.readPage limit rows cursor).next (keys.first row) (keys.second row)) :
    row ∈ (keys.readPage limit rows cursor).rows := by
  generalize isPage : keys.readPage limit rows cursor = page at passed
  have reads := isPage ▸ keys.readPage_reads limit rows cursor
  cases reads with
  | leaves first second empty inside =>
      subst inside
      have upTo : keys.first row ≤ first := passed
      rw [passed_within, not_or, not_and] at unpassed
      have same := le_antisymm upTo (le_of_not_gt unpassed.1)
      have isAhead : row ∈ keys.ahead (some ⟨first, second, true⟩) rows :=
        mem_ahead.mpr ⟨isRow, selects_within.mpr ⟨same, lt_of_not_ge (unpassed.2 same)⟩⟩
      have isRead := @mem_page_of_short _ _ _ _ _ keys _ limit row isAhead
        (by rw [empty]; exact positive.ne)
      rw [empty] at isRead
      exact isRead
  | ends empty outside => exact absurd passed unpassed
  | stays last isLast greatest same =>
      have upTo : keys.key row ≤ keys.key last := key_le_iff.mpr passed
      have lastAhead := mem_of_mem_page isLast
      have isAhead := mem_ahead_of_le isRow unpassed lastAhead (first_le_of_key_le upTo)
      rcases upTo.lt_or_eq with before | equal
      · exact mem_page_of_lt isAhead isLast before
      · rw [List.inj_on_of_nodup_map once isRow (mem_ahead.mp lastAhead).1 equal]
        exact isLast
  | waits last l isLast isKept before greatest =>
      have upTo : keys.first row ≤ keys.first l := passed
      have isAhead := mem_ahead_of_le isRow unpassed (mem_of_mem_page isKept) upTo
      have below := upTo.trans_lt before
      exact List.mem_filter.mpr
        ⟨mem_page_of_lt isAhead isLast (key_lt_iff.mpr (.inl below)), decide_eq_true below.ne⟩
  | runsOut last isLast greatest short =>
      have upTo : keys.first row ≤ keys.first last := passed
      exact mem_page_of_short (mem_ahead_of_le isRow unpassed (mem_of_mem_page isLast) upTo) short

/-- The last page has all that was not passed. -/
theorem mem_readPage_of_done (positive : 0 < limit) (isRow : row ∈ rows)
    (unpassed : ¬ Passed cursor (keys.first row) (keys.second row))
    (done : (keys.readPage limit rows cursor).done = true) :
    row ∈ (keys.readPage limit rows cursor).rows := by
  generalize isPage : keys.readPage limit rows cursor = page at done
  have reads := isPage ▸ keys.readPage_reads limit rows cursor
  cases reads with
  | leaves | stays | waits => cases done
  | ends empty outside =>
      have isAhead := mem_ahead.mpr ⟨isRow, selects_of_not_passed outside unpassed⟩
      have isRead := @mem_page_of_short _ _ _ _ _ keys _ limit row isAhead
        (by rw [empty]; exact positive.ne)
      rw [empty] at isRead
      exact isRead
  | runsOut last isLast greatest short =>
      have outside : isWithin cursor = false := by simpa using done
      exact mem_page_of_short (mem_ahead.mpr ⟨isRow, selects_of_not_passed outside unpassed⟩) short

/-- A page that is not the last has rows, or leaves a first key. -/
theorem readPage_progress (goesOn : (keys.readPage limit rows cursor).done = false) :
    (keys.readPage limit rows cursor).rows ≠ [] ∨
      isWithin cursor = true ∧ isWithin (keys.readPage limit rows cursor).next = false := by
  generalize isPage : keys.readPage limit rows cursor = page at goesOn
  have reads := isPage ▸ keys.readPage_reads limit rows cursor
  cases reads with
  | leaves first second empty inside => exact .inr ⟨inside ▸ rfl, rfl⟩
  | ends empty outside => cases goesOn
  | stays last isLast greatest same => exact .inl (List.ne_nil_of_mem isLast)
  | waits last l isLast isKept before greatest =>
      exact .inl (List.ne_nil_of_mem (List.mem_filter.mpr ⟨isKept, decide_eq_true before.ne⟩))
  | runsOut last isLast greatest short => exact .inl (List.ne_nil_of_mem isLast)

theorem nodup_map_readPage {δ : Type*} {name : ρ → δ} (once : (rows.map name).Nodup) :
    ((keys.readPage limit rows cursor).rows.map name).Nodup := by
  have read : ((keys.page (keys.ahead cursor rows) limit).map name).Nodup :=
    nodup_map_page (once.sublist (List.filter_sublist.map name))
  generalize isPage : keys.readPage limit rows cursor = page
  have reads := isPage ▸ keys.readPage_reads limit rows cursor
  cases reads with
  | leaves | ends => exact List.nodup_nil
  | stays | runsOut => exact read
  | waits => exact read.sublist (List.filter_sublist.map name)

end Keyset
