import Mathlib.Logic.Relation
import Odatano.LedgerUndo
import Odatano.SyncState

/-!
# Epoch totals of the crawl

The epoch memo of `srv/blockchain/cardano-indexer.ts`: `prefetchCrawlEpoch`,
`refreshCrawlEpoch` and `crawledEpochTotals`, and the epoch rows that `indexBlockFull`
writes with a block.  Block times are stored as ISO 8601 text and read back as numbers.
-/

namespace Odatano

/-! ## Times -/

/-- `NaN`, or a value. -/
inductive JsNumber
  | nan
  | value (n : Nat)
deriving DecidableEq

/-- `Number` of a text column; a text other than a row of digits is no number here. -/
def jsNumber (text : String) : JsNumber :=
  if text.toList ≠ [] ∧ text.toList.all Char.isDigit = true then
    .value (text.toList.foldl (fun n c => 10 * n + (c.toNat - '0'.toNat)) 0)
  else .nan

/-- Year, month and day of a day since the epoch. -/
def civilDate (days : Nat) : Nat × Nat × Nat :=
  let shifted := days + 719468
  let era := shifted / 146097
  let dayOfEra := shifted % 146097
  let yearOfEra :=
    (dayOfEra - dayOfEra / 1460 + dayOfEra / 36524 - dayOfEra / 146096) / 365
  let dayOfYear := dayOfEra - (365 * yearOfEra + yearOfEra / 4 - yearOfEra / 100)
  let shiftedMonth := (5 * dayOfYear + 2) / 153
  let month := if shiftedMonth < 10 then shiftedMonth + 3 else shiftedMonth - 9
  (yearOfEra + era * 400 + (if month ≤ 2 then 1 else 0), month,
    dayOfYear - (153 * shiftedMonth + 2) / 5 + 1)

/-- Decimal digits, with zeros up to a width. -/
def padded (width n : Nat) : String :=
  String.ofList (List.replicate (width - (toString n).length) '0') ++ toString n

def isoDay (days : Nat) : String :=
  let (year, month, day) := civilDate days
  (if year ≤ 9999 then padded 4 year else "+" ++ padded 6 year) ++ "-" ++ padded 2 month ++ "-" ++
    padded 2 day

def isoClock (seconds : Nat) : String :=
  padded 2 (seconds / 3600 % 24) ++ ":" ++ padded 2 (seconds / 60 % 60) ++ ":" ++
    padded 2 (seconds % 60) ++ ".000Z"

/-- `new Date(seconds * 1000).toISOString()`. -/
def toISOString (seconds : Nat) : String := isoDay (seconds / 86400) ++ "T" ++ isoClock seconds

/-- `MAX` over a text column, null on no value. -/
def maxText : List String → Option String
  | [] => none
  | text :: rest =>
      match maxText rest with
      | none => some text
      | some best => if best ≤ text then some text else some best

/-! ## Epoch rows -/

structure EpochConfig where
  shelleyStartEpoch : Nat
  shelleyStartSlot : Nat
  slotsPerEpoch : Nat
  /-- POSIX seconds of slot 0, had all slots been as long as the Shelley ones. -/
  slotZeroTime : Int
deriving DecidableEq

def EpochConfig.preview : EpochConfig := ⟨0, 0, 86400, 1666656000⟩

def epochStartSlot (network : EpochConfig) (epoch : Nat) : Int :=
  network.shelleyStartSlot + ((epoch : Int) - network.shelleyStartEpoch) * network.slotsPerEpoch

def slotToPosixSeconds (network : EpochConfig) (slot : Int) : Int := network.slotZeroTime + slot

/-- The columns that the crawl can tell itself. -/
structure EpochTotals where
  blockCount : Option Nat
  txCount : Option Nat
  fees : Option Int
  firstBlockTime : Option JsNumber
  lastBlockTime : Option JsNumber
deriving DecidableEq

/-- An `Epochs` row. -/
structure EpochRow where
  epoch : Nat
  startTime : Int
  endTime : Int
  totals : EpochTotals
  output : Option String
  activeStake : Option String
deriving DecidableEq

/-- The blocks of an epoch. -/
def blocksOfEpoch (chain : List BlockData) (epochNumber : Nat) : List BlockData :=
  chain.filter fun block => block.epoch = some epochNumber

/-- The fold over blocks. -/
def foldTotals (blocks : List BlockData) : EpochTotals where
  blockCount := some blocks.length
  txCount := some (blocks.map BlockData.txCount).sum
  fees := some (blocks.map fun block => block.fees.getD 0).sum
  firstBlockTime := (blocks.map BlockData.time).min?.map .value
  lastBlockTime := (blocks.map BlockData.time).max?.map .value

/-- The sums over the stored rows of some blocks, whose times are text. -/
def storedTotals (blocks : List BlockData) : EpochTotals where
  blockCount := some blocks.length
  txCount := some (blocks.map BlockData.txCount).sum
  fees := some (blocks.map fun block => block.fees.getD 0).sum
  firstBlockTime := (minText id (blocks.map fun block => toISOString block.time)).map jsNumber
  lastBlockTime := (maxText (blocks.map fun block => toISOString block.time)).map jsNumber

/-! ## The memo -/

def CRAWL_EPOCH_REFRESH_MS : Time := 300000

def CRAWL_EPOCH_RETRY_MS : Time := 30000

/-- What one refresh of an epoch meets: the clock, whether the store answers, and the
backend's answer. -/
structure RefreshInput where
  now : Time
  readFails : Bool
  answer : Option EpochRow
deriving DecidableEq

/-- An epoch row with the refresh that made it: what it met, whether the crawl covered
the epoch, the blocks of the epoch stored then, and whether it was the final one. -/
structure RefreshedEpoch where
  row : EpochRow
  input : RefreshInput
  covered : Bool
  seen : List BlockData
  final : Bool
deriving DecidableEq

def RefreshedEpoch.epoch (refreshed : RefreshedEpoch) : Nat := refreshed.row.epoch

structure CrawlEpochEntry where
  epochNumber : Nat
  row : Option RefreshedEpoch
  /-- A block transaction that wrote the row has committed. -/
  written : Bool
  nextRefreshAt : Time
  finalized : Bool
deriving DecidableEq

abbrev CrawlEpochCache := Table CrawlEpochEntry.epochNumber

structure CrawlEpochMemo where
  cache : CrawlEpochCache
  current : Option Nat
  previous : Option Nat

def CrawlEpochMemo.empty : CrawlEpochMemo := ⟨.empty, none, none⟩

section Refresh

variable (network : EpochConfig) (startSlot : Option Nat) (chain : List BlockData)

/-- The crawl covers the whole epoch. -/
def coversEpoch (epochNumber : Nat) : Bool :=
  startSlot.any fun slot => decide ((slot : Int) < epochStartSlot network epochNumber)

/-- Totals from crawled blocks; null unless the crawl covers the whole epoch. -/
def crawledEpochTotals (epochNumber : Nat) (input : RefreshInput) : Option EpochTotals :=
  if input.readFails then none
  else if coversEpoch network startSlot epochNumber = false then none
  else if blocksOfEpoch chain epochNumber = [] then none
  else some (storedTotals (blocksOfEpoch chain epochNumber))

/-- Epoch row with only the slot-derived bounds. -/
def bareEpochRow (epochNumber : Nat) : EpochRow where
  epoch := epochNumber
  startTime := slotToPosixSeconds network (epochStartSlot network epochNumber)
  endTime := slotToPosixSeconds network (epochStartSlot network (epochNumber + 1))
  totals := ⟨none, none, none, none, none⟩
  output := none
  activeStake := none

/-- `{ ...row, ...crawled }`. -/
def EpochRow.overlay (row : EpochRow) (crawled : Option EpochTotals) : EpochRow :=
  { row with totals := crawled.getD row.totals }

/-- The entry that a refresh sets. -/
def refreshedEntry (existing : Option CrawlEpochEntry) (epochNumber : Nat) (finalized : Bool)
    (input : RefreshInput) : CrawlEpochEntry :=
  let crawled := crawledEpochTotals network startSlot chain epochNumber input
  let refreshed := fun row : EpochRow =>
    { row, input
      covered := coversEpoch network startSlot epochNumber
      seen := blocksOfEpoch chain epochNumber
      final := finalized : RefreshedEpoch }
  match input.answer with
  | some provided =>
      { epochNumber
        row := some (refreshed (provided.overlay crawled))
        written := false
        nextRefreshAt := input.now + CRAWL_EPOCH_REFRESH_MS
        finalized }
  | none =>
      let kept := existing.bind CrawlEpochEntry.row
      match crawled with
      | none =>
          { epochNumber
            row := kept
            written := existing.any CrawlEpochEntry.written
            nextRefreshAt := input.now + CRAWL_EPOCH_RETRY_MS
            finalized := false }
      | some totals =>
          let base := (kept.map RefreshedEpoch.row).getD (bareEpochRow network epochNumber)
          { epochNumber
            row := some { refreshed (base.overlay (some totals)) with final := false }
            written := false
            nextRefreshAt := input.now + CRAWL_EPOCH_RETRY_MS
            finalized := false }

def refreshCrawlEpoch (cache : CrawlEpochCache) (epochNumber : Nat) (force finalized : Bool)
    (input : RefreshInput) : CrawlEpochCache :=
  let existing := cache.find? epochNumber
  if existing.any CrawlEpochEntry.finalized && finalized then cache
  else if !force && existing.any fun entry => decide (input.now < entry.nextRefreshAt) then cache
  else
    cache.upsert (refreshedEntry network startSlot chain existing epochNumber finalized input)

/-- Run before the block's transaction, with what its refreshes meet by epoch. -/
def prefetchCrawlEpoch (memo : CrawlEpochMemo) (epochNumber : Nat)
    (inputs : Nat → RefreshInput) : CrawlEpochMemo :=
  let entered := memo.current.filter fun epoch => epoch ≠ epochNumber
  -- at an epoch boundary the completed epoch is refreshed one last time
  let others := match entered with
    | some epoch =>
        refreshCrawlEpoch network startSlot chain memo.cache epoch true true (inputs epoch)
    | none =>
        (memo.cache.rows.filter fun entry =>
          entry.epochNumber ≠ epochNumber && !entry.finalized).foldl
          (fun cache entry =>
            refreshCrawlEpoch network startSlot chain cache entry.epochNumber false true
              (inputs entry.epochNumber))
          memo.cache
  let previous := entered.or memo.previous
  let cache :=
    refreshCrawlEpoch network startSlot chain others epochNumber false false (inputs epochNumber)
  { cache := cache.delete fun entry =>
      entry.epochNumber ≠ epochNumber && decide (previous ≠ some entry.epochNumber)
    current := some epochNumber
    previous }

end Refresh

/-- The epoch rows that a block transaction writes. -/
def CrawlEpochMemo.unwritten (memo : CrawlEpochMemo) : List RefreshedEpoch :=
  (memo.cache.rows.filter fun entry => !entry.written).filterMap CrawlEpochEntry.row

/-- `confirmBlockCommit`. -/
def CrawlEpochMemo.confirmBlockCommit (memo : CrawlEpochMemo) : CrawlEpochMemo :=
  { memo with
    cache :=
      memo.cache.update (fun entry => entry.row.isSome)
        (fun entry => { entry with written := true }) fun _ => rfl }

/-! ## Runs -/

structure EpochCrawl where
  /-- The followed chain, newest block first: the `Blocks` rows. -/
  chain : List BlockData
  memo : CrawlEpochMemo
  epochs : Table RefreshedEpoch.epoch

section Steps

variable (network : EpochConfig) (startSlot : Option Nat)

inductive EpochStep : EpochCrawl → EpochCrawl → Prop
  -- before the transaction of a block, also of one that fails
  | prefetch (s : EpochCrawl) (epochNumber : Nat) (inputs : Nat → RefreshInput)
      (answersOwn : ∀ epoch row, (inputs epoch).answer = some row → row.epoch = epoch) :
      EpochStep s
        { s with
          memo := prefetchCrawlEpoch network startSlot s.chain s.memo epochNumber inputs }
  -- `indexBlockFull` in a transaction that commits
  | persistBlock (s : EpochCrawl) (block : BlockData) (epochNumber : Nat)
      (inputs : Nat → RefreshInput) (memo : CrawlEpochMemo)
      (dated : block.epoch = some epochNumber)
      (answersOwn : ∀ epoch row, (inputs epoch).answer = some row → row.epoch = epoch)
      (prefetched :
        prefetchCrawlEpoch network startSlot s.chain s.memo epochNumber inputs = memo) :
      EpochStep s
        { chain := block :: s.chain
          memo := memo.confirmBlockCommit
          epochs := s.epochs.upsertAll memo.unwritten }
  | persistUndated (s : EpochCrawl) (block : BlockData) (undated : block.epoch = none) :
      EpochStep s { s with chain := block :: s.chain }
  | rollback (s : EpochCrawl) (forkSlot : Nat) :
      EpochStep s { s with chain := s.chain.filter fun block => block.slotOrZero ≤ forkSlot }
  | restart (s : EpochCrawl) : EpochStep s { s with memo := .empty }

def EpochRun (s : EpochCrawl) : Prop :=
  Relation.ReflTransGen (EpochStep network startSlot) ⟨[], .empty, .empty⟩ s

end Steps

/-- The refresh read the crawled totals of at least one block. -/
def RefreshedEpoch.ReadsCrawl (refreshed : RefreshedEpoch) : Prop :=
  refreshed.input.readFails = false ∧ refreshed.covered = true ∧ refreshed.seen ≠ []

/-- The row carries the fold over the blocks that its last refresh saw, and once its
epoch is final the fold over the epoch's blocks on the followed chain. -/
def RefreshedEpoch.Carries (refreshed : RefreshedEpoch) (chain : List BlockData) : Prop :=
  refreshed.row.totals = foldTotals refreshed.seen ∧
    (refreshed.final = true →
      refreshed.row.totals = foldTotals (blocksOfEpoch chain refreshed.epoch))

/-! ## Times are lost -/

theorem jsNumber_of_mem {text : String} {c : Char} (cMem : c ∈ text.toList)
    (letter : c.isDigit = false) : jsNumber text = .nan := by
  rw [jsNumber, if_neg]
  rintro ⟨-, digits⟩
  exact absurd (List.all_eq_true.mp digits c cMem) (by simp [letter])

/-- A stored block time is not read back as a number. -/
theorem jsNumber_toISOString (seconds : Nat) : jsNumber (toISOString seconds) = .nan := by
  have separator : 'T' ∈ "T".toList := List.mem_singleton_self _
  have within : 'T' ∈ (toISOString seconds).toList := by
    rw [toISOString, String.toList_append, String.toList_append]
    exact List.mem_append_left _ (List.mem_append_right _ separator)
  exact jsNumber_of_mem within rfl

theorem minText_mem {α : Type*} {chars : α → String} {values : List α} (some : values ≠ []) :
    ∃ value ∈ values, minText chars values = .some value := by
  induction values with
  | nil => exact absurd rfl some
  | cons value rest ih =>
      rw [minText]
      cases best : minText chars rest with
      | none => exact ⟨value, List.mem_cons_self, rfl⟩
      | some least =>
          have rest_ne : rest ≠ [] := by
            rintro rfl
            cases best
          obtain ⟨other, otherMem, found⟩ := ih rest_ne
          cases best.symm.trans found
          dsimp only
          split
          · exact ⟨value, List.mem_cons_self, rfl⟩
          · exact ⟨least, List.mem_cons_of_mem _ otherMem, rfl⟩

theorem storedTotals_firstBlockTime {blocks : List BlockData} (some : blocks ≠ []) :
    (storedTotals blocks).firstBlockTime = .some .nan := by
  have texts : (blocks.map fun block => toISOString block.time) ≠ [] :=
    fun none => some (List.map_eq_nil_iff.mp none)
  obtain ⟨text, textMem, least⟩ := @minText_mem _ id _ texts
  obtain ⟨block, -, rfl⟩ := List.mem_map.mp textMem
  rw [storedTotals, least, Option.map_some, jsNumber_toISOString]

/-- Totals read from the store are the fold over no blocks at all. -/
theorem storedTotals_ne_foldTotals {blocks : List BlockData} (some : blocks ≠ [])
    (others : List BlockData) : storedTotals blocks ≠ foldTotals others := by
  intro same
  have first := congrArg EpochTotals.firstBlockTime same
  rw [storedTotals_firstBlockTime some, foldTotals] at first
  cases least : (others.map BlockData.time).min? with
  | none =>
      rw [least] at first
      cases first
  | some time =>
      rw [least] at first
      cases first

/-! ## Where the rows come from -/

/-- A row has the crawled totals of its refresh, or is the backend's answer. -/
structure RefreshedEpoch.Made (refreshed : RefreshedEpoch) : Prop where
  crawled : refreshed.ReadsCrawl → refreshed.row.totals = storedTotals refreshed.seen
  provided : ¬refreshed.ReadsCrawl → refreshed.input.answer = some refreshed.row

/-- All rows of the memo are made by a refresh. -/
def CrawlEpochCache.Made (cache : CrawlEpochCache) : Prop :=
  ∀ entry ∈ cache.rows, ∀ refreshed, entry.row = some refreshed → refreshed.Made

section Refresh

variable {network : EpochConfig} {startSlot : Option Nat} {chain : List BlockData}
  {epochNumber : Nat} {input : RefreshInput} {cache : CrawlEpochCache}

theorem crawledEpochTotals_of_readsCrawl (reads : input.readFails = false)
    (covered : coversEpoch network startSlot epochNumber = true)
    (some : blocksOfEpoch chain epochNumber ≠ []) :
    crawledEpochTotals network startSlot chain epochNumber input =
      .some (storedTotals (blocksOfEpoch chain epochNumber)) := by
  simp [crawledEpochTotals, reads, covered, some]

theorem readsCrawl_of_crawledEpochTotals {totals : EpochTotals}
    (found : crawledEpochTotals network startSlot chain epochNumber input = some totals) :
    (input.readFails = false ∧ coversEpoch network startSlot epochNumber = true ∧
      blocksOfEpoch chain epochNumber ≠ []) ∧
      totals = storedTotals (blocksOfEpoch chain epochNumber) := by
  rw [crawledEpochTotals] at found
  split at found
  · cases found
  · rename_i reads
    split at found
    · cases found
    · rename_i covered
      split at found
      · cases found
      · rename_i some
        cases found
        exact ⟨⟨Bool.eq_false_iff.mpr reads, Bool.of_not_eq_false covered, some⟩, rfl⟩

theorem made_refreshedEntry {existing : Option CrawlEpochEntry} {finalized : Bool}
    (kept : ∀ refreshed, existing.bind CrawlEpochEntry.row = some refreshed → refreshed.Made)
    {refreshed : RefreshedEpoch}
    (stored : (refreshedEntry network startSlot chain existing epochNumber finalized input).row =
      some refreshed) : refreshed.Made := by
  rw [refreshedEntry] at stored
  dsimp only at stored
  split at stored
  · rename_i provided answered
    cases stored
    constructor
    · rintro ⟨reads, covered, some⟩
      have found : crawledEpochTotals network startSlot chain epochNumber input = _ :=
        crawledEpochTotals_of_readsCrawl reads covered some
      simp only [EpochRow.overlay, found, Option.getD_some]
    · intro unread
      cases found : crawledEpochTotals network startSlot chain epochNumber input with
      | none => exact answered
      | some totals => exact absurd (readsCrawl_of_crawledEpochTotals found).1 unread
  · split at stored
    · exact kept refreshed stored
    · rename_i totals found
      obtain ⟨reads, same⟩ := readsCrawl_of_crawledEpochTotals found
      cases stored
      exact ⟨fun _ => same, fun unread => absurd reads unread⟩

theorem CrawlEpochCache.Made.refresh (made : CrawlEpochCache.Made cache) {force finalized : Bool} :
    CrawlEpochCache.Made
      (refreshCrawlEpoch network startSlot chain cache epochNumber force finalized input) := by
  rw [refreshCrawlEpoch]
  split
  · exact made
  · split
    · exact made
    · intro entry entryMem refreshed stored
      rcases Table.mem_upsert.mp entryMem with rfl | ⟨old, -⟩
      · refine made_refreshedEntry (fun kept found => ?_) stored
        obtain ⟨existing, exists_, row⟩ := Option.bind_eq_some_iff.mp found
        exact made existing (Table.mem_of_find? exists_) kept row
      · exact made entry old refreshed stored

theorem made_prefetchCrawlEpoch {memo : CrawlEpochMemo}
    (made : CrawlEpochCache.Made memo.cache) (inputs : Nat → RefreshInput) :
    CrawlEpochCache.Made
      (prefetchCrawlEpoch network startSlot chain memo epochNumber inputs).cache := by
  have refreshed : ∀ (entries : List CrawlEpochEntry) (cache : CrawlEpochCache),
      CrawlEpochCache.Made cache →
      CrawlEpochCache.Made (entries.foldl (fun cache entry =>
        refreshCrawlEpoch network startSlot chain cache entry.epochNumber false true
          (inputs entry.epochNumber)) cache) := by
    intro entries
    induction entries with
    | nil => exact fun _ cacheMade => cacheMade
    | cons entry rest ih => exact fun cache cacheMade => ih _ cacheMade.refresh
  rw [prefetchCrawlEpoch]
  intro entry entryMem
  have old := (Table.mem_delete.mp entryMem).1
  split at old
  · exact made.refresh.refresh entry old
  · exact (refreshed _ _ made).refresh entry old

end Refresh

/-! ## Runs carry no fold -/

structure EpochCrawl.Sound (s : EpochCrawl) : Prop where
  memo : CrawlEpochCache.Made s.memo.cache
  epochs : ∀ refreshed ∈ s.epochs.rows, refreshed.Made

section Runs

variable {network : EpochConfig} {startSlot : Option Nat} {s s' : EpochCrawl}

theorem EpochStep.sound (step : EpochStep network startSlot s s') (sound : s.Sound) : s'.Sound := by
  cases step with
  | prefetch epochNumber inputs answersOwn =>
      exact ⟨made_prefetchCrawlEpoch sound.memo inputs, sound.epochs⟩
  | persistBlock block epochNumber inputs memo dated answersOwn prefetched =>
      have made : CrawlEpochCache.Made memo.cache :=
        prefetched ▸ made_prefetchCrawlEpoch sound.memo inputs
      constructor
      · intro entry entryMem refreshed stored
        obtain ⟨old, oldMem, rfl⟩ := List.mem_map.mp entryMem
        refine made old oldMem refreshed ?_
        split at stored <;> exact stored
      · intro refreshed refreshedMem
        rcases Table.mem_upsertAll refreshedMem with old | new
        · exact sound.epochs refreshed old
        · obtain ⟨entry, entryMem, stored⟩ := List.mem_filterMap.mp new
          exact made entry (List.mem_filter.mp entryMem).1 refreshed stored
  | persistUndated block undated => exact ⟨sound.memo, sound.epochs⟩
  | rollback forkSlot => exact ⟨sound.memo, sound.epochs⟩
  | restart => exact ⟨fun _ entryMem => absurd entryMem List.not_mem_nil, sound.epochs⟩

theorem EpochRun.sound (run : EpochRun network startSlot s) : s.Sound := by
  induction run with
  | refl =>
      exact ⟨fun _ entryMem => absurd entryMem List.not_mem_nil,
        fun _ epochMem => absurd epochMem List.not_mem_nil⟩
  | tail _ step sound => exact step.sound sound

/-- A stored epoch row carries the folds exactly where its last refresh read no block
from the store and the backend's own answer has them. -/
theorem crawledEpoch_carries_iff (run : EpochRun network startSlot s) {refreshed : RefreshedEpoch}
    (stored : refreshed ∈ s.epochs.rows) :
    refreshed.Carries s.chain ↔
      ¬refreshed.ReadsCrawl ∧ ∃ answer, refreshed.input.answer = some answer ∧
        answer.totals = foldTotals refreshed.seen ∧
        (refreshed.final = true →
          answer.totals = foldTotals (blocksOfEpoch s.chain refreshed.epoch)) := by
  have made := run.sound.epochs refreshed stored
  constructor
  · rintro ⟨carried, final⟩
    have unread : ¬refreshed.ReadsCrawl := fun reads =>
      storedTotals_ne_foldTotals reads.2.2 refreshed.seen ((made.crawled reads).symm.trans carried)
    exact ⟨unread, refreshed.row, made.provided unread, carried, final⟩
  · rintro ⟨unread, answer, answered, carried, final⟩
    cases (made.provided unread).symm.trans answered
    exact ⟨carried, final⟩

/-- Also where the times are lost, a row has the counts of its last refresh. -/
theorem crawledEpoch_counts (run : EpochRun network startSlot s) {refreshed : RefreshedEpoch}
    (stored : refreshed ∈ s.epochs.rows) (reads : refreshed.ReadsCrawl) :
    refreshed.row.totals.blockCount = (foldTotals refreshed.seen).blockCount ∧
      refreshed.row.totals.txCount = (foldTotals refreshed.seen).txCount ∧
      refreshed.row.totals.fees = (foldTotals refreshed.seen).fees := by
  rw [(run.sound.epochs refreshed stored).crawled reads]
  exact ⟨rfl, rfl, rfl⟩

end Runs

section Samples

def epochBlock (hash : BlockHash) (slot epoch : Nat) : BlockData :=
  { sampleBlock hash slot 0 with time := 1666656000 + slot, epoch := some epoch }

/-- A backend that does not know the epoch. -/
def unanswered (now : Time) (_ : Nat) : RefreshInput := ⟨now, false, none⟩

def answered (now : Time) (epoch : Nat) : RefreshInput :=
  ⟨now, false, some (bareEpochRow .preview epoch)⟩

/-- What `persistBlock` leaves. -/
def EpochCrawl.write (s : EpochCrawl) (block : BlockData) (epochNumber : Nat)
    (inputs : Nat → RefreshInput) : EpochCrawl :=
  let memo := prefetchCrawlEpoch .preview (some 0) s.chain s.memo epochNumber inputs
  { chain := block :: s.chain
    memo := memo.confirmBlockCommit
    epochs := s.epochs.upsertAll memo.unwritten }

theorem unanswered_step (s : EpochCrawl) (hash : BlockHash) (slot epochNumber : Nat)
    (now : Time) :
    EpochStep .preview (some 0) s
      (s.write (epochBlock hash slot epochNumber) epochNumber (unanswered now)) :=
  .persistBlock s _ epochNumber _ _ rfl (fun _ _ none => by cases none) rfl

/-- Two blocks of epoch 1, the second after a refresh. -/
def midEpoch : EpochCrawl :=
  (EpochCrawl.write ⟨[], .empty, .empty⟩ (epochBlock (text "a1") 86400 1) 1 (unanswered 0)).write
    (epochBlock (text "a2") 86420 1) 1 (unanswered 40000)

theorem midEpoch_run : EpochRun .preview (some 0) midEpoch :=
  .tail (.single (unanswered_step _ (text "a1") 86400 1 0)) (unanswered_step _ _ _ _ _)

def midEpochRow : RefreshedEpoch where
  row :=
    (bareEpochRow .preview 1).overlay (some (storedTotals [epochBlock (text "a1") 86400 1]))
  input := ⟨40000, false, none⟩
  covered := true
  seen := [epochBlock (text "a1") 86400 1]
  final := false

theorem crawledEpoch_carries_iff_sample :
    midEpochRow ∈ midEpoch.epochs.rows ∧ ¬midEpochRow.Carries midEpoch.chain := by
  have stored : midEpoch.epochs.rows = [midEpochRow] := rfl
  have storedMem : midEpochRow ∈ midEpoch.epochs.rows := stored ▸ List.mem_singleton_self _
  have carries_iff := crawledEpoch_carries_iff midEpoch_run storedMem
  exact ⟨storedMem, fun carries => (carries_iff.mp carries).1 ⟨rfl, rfl, List.cons_ne_nil _ _⟩⟩

/-- Epoch 1 was completed, and then a boundary rollback replaced its second block. -/
def boundaryRollback : EpochCrawl :=
  EpochCrawl.write
    { midEpoch.write (epochBlock (text "b1") 172800 2) 2 (answered 50000) with
      chain := [epochBlock (text "a1") 86400 1] }
    (epochBlock (text "b2") 172840 2) 2 (unanswered 60000)

def finalEpochRow : RefreshedEpoch where
  row :=
    (bareEpochRow .preview 1).overlay
      (some (storedTotals [epochBlock (text "a2") 86420 1, epochBlock (text "a1") 86400 1]))
  input := answered 50000 1
  covered := true
  seen := [epochBlock (text "a2") 86420 1, epochBlock (text "a1") 86400 1]
  final := true

theorem boundaryRollback_run : EpochRun .preview (some 0) boundaryRollback := by
  have crossed : EpochStep .preview (some 0) midEpoch
      (midEpoch.write (epochBlock (text "b1") 172800 2) 2 (answered 50000)) := by
    refine .persistBlock _ _ 2 _ _ rfl (fun epoch row own => ?_) rfl
    cases own
    rfl
  exact ((midEpoch_run.tail crossed).tail (.rollback _ 86400)).tail
    (unanswered_step _ (text "b2") 172840 2 60000)

/-- The times are no numbers, and the block count is that of the fork that was left. -/
theorem crawledEpoch_boundaryRollback :
    EpochRun .preview (some 0) boundaryRollback ∧
      finalEpochRow ∈ boundaryRollback.epochs.rows ∧
      ¬finalEpochRow.Carries boundaryRollback.chain ∧
      finalEpochRow.row.totals.firstBlockTime = some .nan ∧
      finalEpochRow.row.totals.blockCount = some 2 ∧
      (foldTotals (blocksOfEpoch boundaryRollback.chain 1)).blockCount = some 1 := by
  refine ⟨boundaryRollback_run, ?_, ?_, ?_, rfl, rfl⟩
  · have stored : finalEpochRow ∈ boundaryRollback.epochs.rows := List.mem_cons_self
    exact stored
  · rintro ⟨carried, -⟩
    exact storedTotals_ne_foldTotals (List.cons_ne_nil _ _) _ carried
  · exact storedTotals_firstBlockTime (List.cons_ne_nil _ _)

end Samples

end Odatano
