import Odatano.CrawledChain

/-!
# Intersection points cover every fork depth

The points `buildIntersectionPoints` of `srv/blockchain/crawler/crawler.ts` offers a
node after a restart: the cursor, stored ancestors at spaced depths and the
configured start block.
-/

namespace Odatano

/-! ## The list of points -/

/-- The points added are some of the candidates, in their order, one for each hash. -/
theorem foldl_addPoint_eq (candidates points : List ChainPoint) :
    ∃ added, candidates.foldl addPoint points = points ++ added ∧ added.Sublist candidates ∧
      (∀ c ∈ candidates, c.hash ∈ (points ++ added).map ChainPoint.hash) ∧
        ((points.map ChainPoint.hash).Nodup → ((points ++ added).map ChainPoint.hash).Nodup) := by
  induction candidates generalizing points with
  | nil =>
      refine ⟨[], by simp, List.Sublist.refl _, by simp, ?_⟩
      rw [List.append_nil]
      exact id
  | cons candidate rest ih =>
      rw [List.foldl_cons]
      by_cases known : candidate.hash ∈ points.map ChainPoint.hash
      · have same : addPoint points candidate = points := if_pos known
        obtain ⟨added, folded, sublist, covers, nodup⟩ := ih points
        refine ⟨added, same.symm ▸ folded, sublist.cons _, fun c cMem => ?_, nodup⟩
        rcases List.mem_cons.mp cMem with rfl | later
        · rw [List.map_append]
          exact List.mem_append_left _ known
        · exact covers c later
      · have new : addPoint points candidate = points ++ [candidate] := if_neg known
        obtain ⟨added, folded, sublist, covers, nodup⟩ := ih (points ++ [candidate])
        rw [List.append_assoc, List.singleton_append] at folded covers nodup
        refine ⟨candidate :: added, new.symm ▸ folded, sublist.cons_cons _, fun c cMem => ?_,
          fun before => nodup ?_⟩
        · rcases List.mem_cons.mp cMem with rfl | later
          · simp
          · exact covers c later
        · rw [List.map_append, List.map_singleton, ← List.concat_eq_append]
          exact before.concat known

/-! ## The offered depths -/

private theorem exists_doubled_step (n : Nat) {d : Nat} (deep : 10 < d) (bounded : d ≤ 16 * 2 ^ n) :
    ∃ i ≤ n, d ≤ 16 * 2 ^ i ∧ 16 * 2 ^ i ≤ max 16 (2 * d) := by
  induction n with
  | zero => exact ⟨0, le_rfl, bounded, le_max_left ..⟩
  | succ n ih =>
      by_cases earlier : d ≤ 16 * 2 ^ n
      · obtain ⟨i, le, reaches, near⟩ := ih earlier
        exact ⟨i, le.trans n.le_succ, reaches, near⟩
      · have doubled : 16 * 2 ^ (n + 1) = 2 * (16 * 2 ^ n) := by
          rw [Nat.pow_succ]
          omega
        exact ⟨n + 1, le_rfl, bounded, by omega⟩

/-- Some offered depth is as deep as `d` and at most twice as deep, or 16. -/
theorem exists_intersectionStep {d : Nat} (positive : 0 < d) (bounded : d ≤ 2 ^ 14) :
    ∃ step ∈ intersectionSteps, d ≤ step ∧ step ≤ max 16 (2 * d) ∧ (d ≤ 10 → step = d) := by
  by_cases dense : d ≤ 10
  · refine ⟨d, List.mem_append_left _ ?_, le_rfl, by omega, fun _ => rfl⟩
    exact List.mem_map.mpr ⟨d - 1, List.mem_range.mpr (by omega), by omega⟩
  · obtain ⟨i, le, reaches, near⟩ := exists_doubled_step 10 (Nat.lt_of_not_le dense) bounded
    refine ⟨16 * 2 ^ i, List.mem_append_right _ ?_, reaches, near, fun small => absurd small dense⟩
    exact List.mem_map.mpr ⟨i, List.mem_range.mpr (Nat.lt_succ_of_le le), rfl⟩

theorem intersectionStep_pos {step : Nat} (stepMem : step ∈ intersectionSteps) : 0 < step := by
  rcases List.mem_append.mp stepMem with dense | doubled
  · obtain ⟨i, -, rfl⟩ := List.mem_map.mp dense
    exact Nat.succ_pos i
  · obtain ⟨i, -, rfl⟩ := List.mem_map.mp doubled
    exact Nat.mul_pos (by decide) (Nat.two_pow_pos i)

/-! ## A stored chain -/

/-- A stored chain from the configured start block to the cursor, oldest block
first.  The other rows are blocks of other forks above the start block. -/
structure StoredBetween (config : CrawlStart) (db : Db) (start : ChainPoint) (startHeight : Nat)
    (chain : List BlockRow) : Prop where
  configured : config.point = some start
  height_start : ∀ height, start.height = some height → height = startHeight
  stored : ∀ row ∈ chain, row ∈ (db.crawl .blocks).rows
  slots : ∀ row ∈ chain, row.slot.isSome
  heights : ∀ i row, chain[i]? = some row → row.height = some (startHeight + 1 + i)
  nonempty : chain ≠ []
  cursorHash : ∀ row, chain.getLast? = some row → db.sync.lastBlockHash = some row.hash
  cursorHeight : db.sync.lastHeight = startHeight + chain.length
  /-- The start block may be stored, too; no other block that low is. -/
  above : ∀ row ∈ (db.crawl .blocks).rows, ∀ height, row.height = some height →
    startHeight < height ∨ height = startHeight ∧ row.hash = start.hash
  startRow : ∀ row ∈ (db.crawl .blocks).rows, row.hash = start.hash →
    row.height = some startHeight

/-- A point is the block of the chain so many blocks below the cursor; below all
of them lies the start block. -/
def AtDepth (start : ChainPoint) (chain : List BlockRow) (depth : Nat) (point : ChainPoint) : Prop :=
  (∃ row, chain.reverse[depth]? = some row ∧ point.hash = row.hash) ∨
    (depth = chain.length ∧ point.hash = start.hash)

/-- What a node can intersect with. -/
structure CoversForks (start : ChainPoint) (chain : List BlockRow) (cursor : ChainPoint)
    (points : List ChainPoint) : Prop where
  hashes_nodup : (points.map ChainPoint.hash).Nodup
  descending : points.Pairwise fun p q => ∀ first second, p.height = some first →
    q.height = some second → second ≤ first
  first : points.head? = some cursor
  last : ∃ p, points.getLast? = some p ∧ p.hash = start.hash
  depths : ∀ d ≤ 2 ^ 14, d ≤ chain.length → ∃ depth, ∃ p ∈ points, AtDepth start chain depth p ∧
    d ≤ depth ∧ depth ≤ max 16 (2 * d) ∧ (d ≤ 10 → depth = d)

section Points

variable {config : CrawlStart} {db : Db} {start : ChainPoint} {startHeight : Nat}
  {chain : List BlockRow}

/-- Stored points come with the height of their row, highest first. -/
theorem storedPoints_descending (crawl : CrawlStore) (heights : List Nat) :
    (storedPoints crawl heights).Pairwise fun p q => q.height.getD 0 ≤ p.height.getD 0 := by
  have sorted := @List.pairwise_mergeSort BlockRow
    (fun first second => decide (second.height.getD 0 ≤ first.height.getD 0))
    (fun a b c first second => by
      simp only [decide_eq_true_eq] at first second ⊢
      exact second.trans first)
    (fun a b => by
      simp only [Bool.or_eq_true, decide_eq_true_eq]
      exact le_total _ _)
    ((crawl .blocks).select fun row => row.height.any fun h => decide (h ∈ heights))
  refine List.Pairwise.filterMap _ (fun {row other} ordered p isRow q isOther => ?_) sorted
  obtain ⟨-, -, rfl⟩ := Option.map_eq_some_iff.mp isRow
  obtain ⟨-, -, rfl⟩ := Option.map_eq_some_iff.mp isOther
  exact of_decide_eq_true ordered

theorem mem_storedPoints {crawl : CrawlStore} {heights : List Nat} {p : ChainPoint} :
    p ∈ storedPoints crawl heights ↔ ∃ row ∈ (crawl .blocks).rows, ∃ height ∈ heights, ∃ slot,
      row.height = some height ∧ row.slot = some slot ∧ p = ⟨slot, row.hash, some height⟩ := by
  simp only [storedPoints, List.mem_filterMap, List.mem_mergeSort, Table.mem_select]
  constructor
  · rintro ⟨row, ⟨rowMem, listed⟩, mapped⟩
    obtain ⟨slot, known, rfl⟩ := Option.map_eq_some_iff.mp mapped
    cases heightKnown : row.height with
    | none => simp [heightKnown] at listed
    | some height =>
        rw [heightKnown, Option.any_some, decide_eq_true_eq] at listed
        exact ⟨row, rowMem, height, listed, slot, heightKnown, known, rfl⟩
  · rintro ⟨row, rowMem, height, heightMem, slot, heightKnown, known, rfl⟩
    refine ⟨row, ⟨rowMem, ?_⟩, ?_⟩
    · rw [heightKnown, Option.any_some, decide_eq_true_eq]
      exact heightMem
    · rw [known, heightKnown]
      rfl

/-- The candidate points below the cursor, in order. -/
def heightsBelow (db : Db) : List Nat :=
  (intersectionSteps.map fun step => db.sync.lastHeight - step).filter fun height =>
    decide (0 < height)

theorem mem_heightsBelow {height : Nat} :
    height ∈ heightsBelow db ↔
      ∃ step ∈ intersectionSteps, db.sync.lastHeight - step = height ∧ 0 < height := by
  simp only [heightsBelow, List.mem_filter, List.mem_map, decide_eq_true_eq]
  constructor
  · rintro ⟨⟨step, stepMem, same⟩, positive⟩
    exact ⟨step, stepMem, same, positive⟩
  · rintro ⟨step, stepMem, same, positive⟩
    exact ⟨⟨step, stepMem, same⟩, positive⟩

namespace StoredBetween

variable (between : StoredBetween config db start startHeight chain)
include between

/-- The last block of the chain, whose hash the cursor carries. -/
theorem cursor : ∃ row, chain.reverse[0]? = some row ∧ row ∈ (db.crawl .blocks).rows ∧
    db.sync.lastBlockHash = some row.hash ∧ row.height = some db.sync.lastHeight := by
  have positive : 0 < chain.length := List.length_pos_iff.mpr between.nonempty
  have last := List.getLast?_eq_some_getLast between.nonempty
  generalize chain.getLast between.nonempty = row at last
  have atEnd : chain[chain.length - 1]? = some row := List.getLast?_eq_getElem? ▸ last
  refine ⟨row, ?_, between.stored row (List.mem_of_getLast? last), between.cursorHash row last, ?_⟩
  · rw [List.getElem?_reverse positive]
    exact atEnd
  · rw [between.heights _ _ atEnd, between.cursorHeight]
    congr 1
    omega

/-- The candidates are the cursor, the stored ancestors and the start block. -/
theorem buildIntersectionPoints_eq {row : BlockRow}
    (cursorHash : db.sync.lastBlockHash = some row.hash) :
    buildIntersectionPoints config db =
      (⟨db.sync.lastSlot, row.hash, some db.sync.lastHeight⟩ ::
        (storedPoints db.crawl (heightsBelow db) ++ [start])).foldl addPoint [] := by
  rw [buildIntersectionPoints, cursorPoints, cursorHash, between.configured]
  rfl

/-- A stored ancestor lies below the cursor and not below the start block. -/
theorem storedPoint_height {p : ChainPoint} (stored : p ∈ storedPoints db.crawl (heightsBelow db)) :
    ∃ height, p.height = some height ∧ height < db.sync.lastHeight ∧
      (startHeight < height ∨ height = startHeight ∧ p.hash = start.hash) := by
  obtain ⟨row, rowMem, height, heightMem, slot, known, -, rfl⟩ := mem_storedPoints.mp stored
  obtain ⟨step, stepMem, same, positive⟩ := mem_heightsBelow.mp heightMem
  have stepPositive := intersectionStep_pos stepMem
  exact ⟨height, rfl, by omega, between.above row rowMem height known⟩

/-- The block of the chain at a depth is stored, so many blocks below the cursor. -/
theorem ancestor {depth : Nat} (inside : depth < chain.length) :
    ∃ row, chain.reverse[depth]? = some row ∧ row ∈ (db.crawl .blocks).rows ∧ row.slot.isSome ∧
      row.height = some (db.sync.lastHeight - depth) := by
  have index : chain.length - 1 - depth < chain.length := by omega
  have here := List.getElem?_eq_getElem index
  have rowMem := List.getElem_mem index
  refine ⟨chain[chain.length - 1 - depth], ?_, between.stored _ rowMem, between.slots _ rowMem, ?_⟩
  · rw [List.getElem?_reverse inside]
    exact here
  · rw [between.heights _ _ here, between.cursorHeight]
    congr 1
    omega

/-- The candidates come highest first. -/
theorem candidates_descending (hash : BlockHash) :
    ((⟨db.sync.lastSlot, hash, some db.sync.lastHeight⟩ : ChainPoint) ::
      (storedPoints db.crawl (heightsBelow db) ++ [start])).Pairwise fun p q =>
        ∀ first second, p.height = some first → q.height = some second → second ≤ first := by
  have length := between.cursorHeight
  refine List.pairwise_cons.mpr ⟨fun q qMem first second isFirst isSecond => ?_,
    List.pairwise_append.mpr ⟨?_, List.pairwise_singleton .., ?_⟩⟩
  · cases Option.some.inj isFirst
    rcases List.mem_append.mp qMem with stored | isStart
    · obtain ⟨height, known, below, -⟩ := between.storedPoint_height stored
      cases Option.some.inj (known.symm.trans isSecond)
      omega
    · cases List.mem_singleton.mp isStart
      have atStart := between.height_start second isSecond
      omega
  · refine (storedPoints_descending db.crawl (heightsBelow db)).imp fun ordered first second
      isFirst isSecond => ?_
    simpa [isFirst, isSecond] using ordered
  · intro p stored q isStart first second isFirst isSecond
    cases List.mem_singleton.mp isStart
    obtain ⟨height, known, -, above⟩ := between.storedPoint_height stored
    cases Option.some.inj (known.symm.trans isFirst)
    have atStart := between.height_start second isSecond
    omega

/-- Nothing but the start block comes after it. -/
theorem candidates_startLast {hash : BlockHash} (notStart : hash ≠ start.hash) :
    ((⟨db.sync.lastSlot, hash, some db.sync.lastHeight⟩ : ChainPoint) ::
      (storedPoints db.crawl (heightsBelow db) ++ [start])).Pairwise fun p q =>
        p.hash = start.hash → q.hash = start.hash := by
  refine List.pairwise_cons.mpr ⟨fun q _ same => absurd same notStart,
    List.pairwise_append.mpr ⟨?_, List.pairwise_singleton .., ?_⟩⟩
  · refine (storedPoints_descending db.crawl (heightsBelow db)).imp_of_mem
      fun {p q} pStored qStored ordered isStart => ?_
    obtain ⟨row, rowMem, height, -, slot, known, -, rfl⟩ := mem_storedPoints.mp pStored
    obtain ⟨low, qKnown, -, above⟩ := between.storedPoint_height qStored
    cases Option.some.inj (known.symm.trans (between.startRow row rowMem isStart))
    simp only [qKnown, Option.getD_some] at ordered
    exact (above.resolve_left (by omega)).2
  · intro p _ q isStart _
    exact congrArg ChainPoint.hash (List.mem_singleton.mp isStart)

/-- The candidate at an offered depth inside the chain. -/
theorem candidate_atDepth {step : Nat} (offered : step ∈ intersectionSteps)
    (inside : step < chain.length) :
    ∃ row, chain.reverse[step]? = some row ∧
      ∃ p ∈ storedPoints db.crawl (heightsBelow db), p.hash = row.hash := by
  have length := between.cursorHeight
  obtain ⟨row, here, rowMem, slot, height⟩ := between.ancestor inside
  obtain ⟨slot, known⟩ := Option.isSome_iff_exists.mp slot
  have heightMem : db.sync.lastHeight - step ∈ heightsBelow db :=
    mem_heightsBelow.mpr ⟨step, offered, rfl, by omega⟩
  exact ⟨row, here, _, mem_storedPoints.mpr ⟨row, rowMem, _, heightMem, slot, height, known, rfl⟩, rfl⟩

/-- At every depth of the chain some candidate is near. -/
theorem candidate_near {hash : BlockHash} (cursorHash : db.sync.lastBlockHash = some hash)
    {d : Nat} (bounded : d ≤ 2 ^ 14) (inside : d ≤ chain.length) :
    ∃ depth, ∃ p ∈ (⟨db.sync.lastSlot, hash, some db.sync.lastHeight⟩ : ChainPoint) ::
        (storedPoints db.crawl (heightsBelow db) ++ [start]), AtDepth start chain depth p ∧
      d ≤ depth ∧ depth ≤ max 16 (2 * d) ∧ (d ≤ 10 → depth = d) := by
  have startMem : start ∈ (⟨db.sync.lastSlot, hash, some db.sync.lastHeight⟩ : ChainPoint) ::
      (storedPoints db.crawl (heightsBelow db) ++ [start]) :=
    List.mem_cons_of_mem _ (List.mem_append_right _ (List.mem_singleton_self start))
  by_cases atCursor : d = 0
  · obtain ⟨row, isLast, -, rowHash, -⟩ := between.cursor
    cases Option.some.inj (cursorHash.symm.trans rowHash)
    exact ⟨0, _, List.mem_cons_self, Or.inl ⟨row, isLast, rfl⟩, by omega, by omega,
      fun _ => atCursor.symm⟩
  · obtain ⟨step, offered, reaches, near, isDense⟩ :=
      exists_intersectionStep (Nat.pos_of_ne_zero atCursor) bounded
    by_cases atStart : d = chain.length
    · exact ⟨chain.length, start, startMem, Or.inr ⟨rfl, rfl⟩, by omega, by omega,
        fun _ => atStart.symm⟩
    · by_cases stepInside : step < chain.length
      · obtain ⟨row, here, p, pMem, same⟩ := between.candidate_atDepth offered stepInside
        exact ⟨step, p, List.mem_cons_of_mem _ (List.mem_append_left _ pMem),
          Or.inl ⟨row, here, same⟩, reaches, near, isDense⟩
      · exact ⟨chain.length, start, startMem, Or.inr ⟨rfl, rfl⟩, inside, by omega,
          fun small => absurd (isDense small) (by omega)⟩

end StoredBetween

/-- The points offered after a restart repeat no hash and descend from the cursor to the start
block; at every depth of the stored chain up to `2 ^ 14` one of them is a block of the chain
that deep, at most twice as deep or at most 16, and exactly that deep over the last ten. -/
theorem intersectionPoints_cover (between : StoredBetween config db start startHeight chain) :
    ∃ row, chain.getLast? = some row ∧
      CoversForks start chain ⟨db.sync.lastSlot, row.hash, some db.sync.lastHeight⟩
        (buildIntersectionPoints config db) := by
  obtain ⟨row, isLast, rowMem, cursorHash, rowHeight⟩ := between.cursor
  have positive : 0 < chain.length := List.length_pos_iff.mpr between.nonempty
  have length := between.cursorHeight
  have notStart : row.hash ≠ start.hash := fun same => by
    have atStart := Option.some.inj (rowHeight.symm.trans (between.startRow row rowMem same))
    omega
  have built := between.buildIntersectionPoints_eq cursorHash
  obtain ⟨added, folded, sublist, covers, nodup⟩ := foldl_addPoint_eq
    (⟨db.sync.lastSlot, row.hash, some db.sync.lastHeight⟩ ::
      (storedPoints db.crawl (heightsBelow db) ++ [start])) []
  obtain ⟨later, fromCursor, -⟩ := foldl_addPoint_eq
    (storedPoints db.crawl (heightsBelow db) ++ [start])
    [⟨db.sync.lastSlot, row.hash, some db.sync.lastHeight⟩]
  rw [← built, List.nil_append] at folded
  rw [List.nil_append] at covers nodup
  rw [← folded] at sublist covers nodup
  refine ⟨row, ?_,
    { hashes_nodup := nodup List.nodup_nil
      descending := (between.candidates_descending row.hash).sublist sublist
      first := ?_
      last := ?_
      depths := fun d bounded inside => ?_ }⟩
  · rw [← List.head?_reverse, List.head?_eq_getElem?]
    exact isLast
  · rw [built]
    exact congrArg List.head? fromCursor
  · obtain ⟨q, qMem, isStart⟩ := List.mem_map.mp (covers start (by simp))
    have last := List.getLast?_eq_some_getLast (List.ne_nil_of_mem qMem)
    generalize (buildIntersectionPoints config db).getLast _ = p at last
    refine ⟨p, last, ?_⟩
    obtain ⟨before, points⟩ := List.getLast?_eq_some_iff.mp last
    have ordered := (between.candidates_startLast notStart).sublist sublist
    rw [points] at ordered qMem
    rcases List.mem_append.mp qMem with earlier | isLast
    · exact (List.pairwise_append.mp ordered).2.2 q earlier p (List.mem_singleton_self p) isStart
    · exact List.mem_singleton.mp isLast ▸ isStart
  · obtain ⟨depth, p, candidate, atDepth, near⟩ := between.candidate_near cursorHash bounded inside
    obtain ⟨q, qMem, same⟩ := List.mem_map.mp (covers p candidate)
    exact ⟨depth, q, qMem, atDepth.imp (fun ⟨row, here, hash⟩ => ⟨row, here, same.trans hash⟩)
      (And.imp_right same.trans), near⟩

end Points
/-! ### A sample chain -/

/-- A block row at a height. -/
def sampleRow (hash : BlockHash) (height slot : Nat) : BlockRow :=
  ⟨hash, 0, some height, none, none, some slot, none, 0, 0, 0⟩

def sampleChain : List BlockRow := [sampleRow (text "b11") 6 11, sampleRow (text "b12") 7 12]

/-- Two blocks above the start block and one of another fork. -/
def sampleChainDb : Db where
  crawl
    | .blocks => Table.empty.upsertAll (sampleRow (text "c11") 6 11 :: sampleChain)
    | _ => Table.empty
  ledger := LedgerDb.empty
  sync :=
    { SyncState.initial "preview" none with
      lastSlot := 12, lastHeight := 7, lastBlockHash := some (text "b12") }

theorem intersectionPoints_cover_sample :
    ∃ row, sampleChain.getLast? = some row ∧
      CoversForks ⟨10, text "b10", some 5⟩ sampleChain ⟨12, row.hash, some 7⟩
        (buildIntersectionPoints ⟨some 10, some (text "b10"), some 5⟩ sampleChainDb) := by
  have rows : (sampleChainDb.crawl .blocks).rows = sampleRow (text "c11") 6 11 :: sampleChain := rfl
  refine @intersectionPoints_cover ⟨some 10, some (text "b10"), some 5⟩ sampleChainDb
    ⟨10, text "b10", some 5⟩ 5 sampleChain
    { configured := rfl
      height_start := by simp
      stored := fun row rowMem => rows ▸ List.mem_cons_of_mem _ rowMem
      slots := by decide
      heights := fun i row here => ?_
      nonempty := by decide
      cursorHash := fun row last => ?_
      cursorHeight := rfl
      above := fun row rowMem height known => ?_
      startRow := fun row rowMem same => ?_ }
  · match i with
    | 0 | 1 =>
        cases here
        rfl
    | i + 2 => simp [sampleChain] at here
  · cases last
    rfl
  · have heights : ∀ row ∈ sampleRow (text "c11") 6 11 :: sampleChain,
        row.height = some 6 ∨ row.height = some 7 := by decide
    rcases heights row (rows ▸ rowMem) with six | seven
    · exact Or.inl (Option.some.inj (known.symm.trans six) ▸ by decide)
    · exact Or.inl (Option.some.inj (known.symm.trans seven) ▸ by decide)
  · have others : ∀ row ∈ sampleRow (text "c11") 6 11 :: sampleChain,
        row.hash ≠ text "b10" := by decide
    exact absurd same (others row (rows ▸ rowMem))

end Odatano
