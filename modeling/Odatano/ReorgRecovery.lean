import Odatano.RewoundCrawl

/-!
# Recovery of a crawl by pagination

`tryReorgRecovery` of `srv/blockchain/crawler/crawler.ts` with the rollback it leads to.
One stored row is read at each height, and several may be stored there.
-/

namespace Odatano

/-- What `SELECT.one.from(Blocks).where({ height })` finds at each height: some row of it. -/
structure Db.HeightReads (db : Db) where
  ours : Nat → Option BlockRow
  read : ∀ height row, ours height = some row →
    row ∈ (db.crawl .blocks).rows ∧ row.height = some height
  found : ∀ row ∈ (db.crawl .blocks).rows, ∀ height, row.height = some height →
    (ours height).isSome

section Recovery

variable [Bech32]

/-- `tryReorgRecovery`: the database and whether it recovered; none when the rollback finds
the lease lost. -/
def recoverReorg (config : CrawlStart) (db : Db) (onChain : Nat → Option BlockData)
    (reads : db.HeightReads) (leaseOwner : Option LeaseOwner) (now : Time) :
    Option (Db × Bool) :=
  match db.sync.lastBlockHash with
  | none => some (db, false)
  | some _ =>
      match tryReorgRecovery onChain reads.ours db.sync.lastHeight db.sync.lastHeight with
      | none => some (db, false)
      | some point =>
          (handleReorgTx config db (some point) leaseOwner now).map fun stored => (stored.1, true)

end Recovery

/-! ## What is claimed of a recovery -/

/-- The cursor stands at `cursor`, and the rows of the followed blocks are theirs. -/
structure BlockForks.Follows (forks : BlockForks) (chain : List BlockHash) (cursor : BlockHash)
    (db : Db) : Prop where
  linked : forks.tree.Path (cursor :: chain)
  atCursor : db.sync.lastBlockHash = some cursor
  height : db.sync.lastHeight = forks.height cursor
  slots : ∀ row ∈ (db.crawl .blocks).rows, row.hash ∈ cursor :: chain →
    row.slot = some (forks.tree.rank row.hash)

/-- A provider that answers with the blocks of one chain, the one that ends at `tip`. -/
structure BlockForks.Provides (forks : BlockForks) (tip : BlockHash)
    (onChain : Nat → Option BlockData) : Prop where
  answer : ∀ height block, onChain height = some block →
    block = forks.data block.hash ∧ forks.height block.hash = height ∧
      forks.tree.Ancestor block.hash tip
  complete : ∀ node, forks.tree.Ancestor node tip →
    onChain (forks.height node) = some (forks.data node)

/-- The highest block of a chain that another chain contains. -/
structure BlockForks.HighestCommon (forks : BlockForks) (chain : List BlockHash)
    (tip fork : BlockHash) : Prop where
  onChain : fork ∈ chain
  provided : forks.tree.Ancestor fork tip
  highest : ∀ node ∈ chain, forks.tree.Ancestor node tip → forks.height node ≤ forks.height fork

/-- The cursor is at `fork`, and of the followed blocks exactly those that the provider's chain
contains have kept their rows. -/
structure BlockForks.RolledBackTo (forks : BlockForks) (chain : List BlockHash)
    (tip fork : BlockHash) (db stored : Db) : Prop where
  cursor : stored.sync.lastBlockHash = some fork
  slot : stored.sync.lastSlot = forks.tree.rank fork
  height : stored.sync.lastHeight = forks.height fork
  rows : ∀ row ∈ (db.crawl .blocks).rows, row.hash ∈ chain →
    (row ∈ (stored.crawl .blocks).rows ↔ forks.tree.Ancestor row.hash tip)

/-- The recovery finds the fork: it changes nothing while the provider's chain contains the
cursor block, and else goes back to the highest common block within its depth. -/
def FindsFork (forks : BlockForks) (chain : List BlockHash) (cursor tip : BlockHash) (db : Db)
    (recovered : Option (Db × Bool)) : Prop :=
  (forks.tree.Ancestor cursor tip → recovered = some (db, false)) ∧
    (¬ forks.tree.Ancestor cursor tip → ∀ fork, forks.HighestCommon chain tip fork →
      forks.height cursor ≤ forks.height fork + 99 →
        ∃ stored, recovered = some (stored, true) ∧ forks.RolledBackTo chain tip fork db stored)

/-- The row that is read at a height is that of a block. -/
def ReadsAs (ours : Nat → Option BlockRow) (height : Nat) (hash : BlockHash) : Prop :=
  ∃ row, ours height = some row ∧ row.hash = hash

/-- The rows that are read tell the chains apart.  Under a cursor block that the provider has, it
is the one read at its height, or no row read within the depth is the provider's.  Else the
fork block is read at its height, and at each height above it the provider has a
block that is not read there. -/
def ReadsApart (forks : BlockForks) (chain : List BlockHash) (cursor tip : BlockHash)
    (onChain : Nat → Option BlockData) (ours : Nat → Option BlockRow) : Prop :=
  (forks.tree.Ancestor cursor tip →
    ReadsAs ours (forks.height cursor) cursor ∨
      ∀ height, 0 < height → height < forks.height cursor → forks.height cursor < height + 100 →
        ∀ block, onChain height = some block → ¬ ReadsAs ours height block.hash) ∧
    (¬ forks.tree.Ancestor cursor tip → ∀ fork, forks.HighestCommon chain tip fork →
      forks.height cursor ≤ forks.height fork + 99 →
        0 < forks.height fork ∧ ReadsAs ours (forks.height fork) fork ∧
          ∀ height, forks.height fork < height → height ≤ forks.height cursor →
            ∃ block, onChain height = some block ∧ ¬ ReadsAs ours height block.hash)

/-! ## The walk back by height -/

section Walk

variable {onChain : Nat → Option BlockData} {ours : Nat → Option BlockRow}
  {lastHeight start : Nat} {point : ChainPoint}

theorem readsAs_iff {height : Nat} {hash : BlockHash} :
    ((ours height).any fun row => decide (row.hash = hash)) = true ↔ ReadsAs ours height hash := by
  rw [Option.any_eq_true]
  simp only [decide_eq_true_eq, ReadsAs]

/-- One height of the walk. -/
theorem tryReorgRecovery_succ {height : Nat} :
    tryReorgRecovery onChain ours lastHeight (height + 1) = some point ↔
      lastHeight < height + 1 + 100 ∧ ∃ block, onChain (height + 1) = some block ∧
        (ReadsAs ours (height + 1) block.hash ∧ height + 1 ≠ lastHeight ∧
            (∃ slot, block.slot = some slot ∧ point = ⟨slot, block.hash, some (height + 1)⟩) ∨
          ¬ ReadsAs ours (height + 1) block.hash ∧
            tryReorgRecovery onChain ours lastHeight height = some point) := by
  rw [tryReorgRecovery]
  by_cases deep : height + 1 + 100 ≤ lastHeight
  · rw [if_pos deep]
    exact ⟨fun isPoint => absurd isPoint.symm (Option.some_ne_none _),
      fun found => absurd deep (Nat.not_le_of_lt found.1)⟩
  · rw [if_neg deep]
    cases answered : onChain (height + 1) with
    | none =>
        exact ⟨fun isPoint => absurd isPoint.symm (Option.some_ne_none _),
          fun found => found.2.elim fun _ isSome => absurd isSome.1.symm (Option.some_ne_none _)⟩
    | some found =>
        simp only [Option.some.injEq, exists_eq_left']
        by_cases matched : ReadsAs ours (height + 1) found.hash
        · rw [if_pos (readsAs_iff.mpr matched)]
          by_cases atTip : height + 1 = lastHeight
          · subst atTip
            simp [matched]
          · simp [atTip, matched, Nat.lt_of_not_le deep, eq_comm]
        · rw [if_neg (mt readsAs_iff.mp matched)]
          simp [matched, Nat.lt_of_not_le deep]

/-- The walk ends at the first height whose row is the provider's. -/
theorem tryReorgRecovery_eq_some_iff :
    tryReorgRecovery onChain ours lastHeight start = some point ↔
      ∃ height block slot, 0 < height ∧ height ≤ start ∧ lastHeight < height + 100 ∧
        height ≠ lastHeight ∧ onChain height = some block ∧ ReadsAs ours height block.hash ∧
          block.slot = some slot ∧ point = ⟨slot, block.hash, some height⟩ ∧
            ∀ above, height < above → above ≤ start →
              ∃ block, onChain above = some block ∧ ¬ ReadsAs ours above block.hash := by
  induction start with
  | zero =>
      refine ⟨nofun, ?_⟩
      rintro ⟨height, block, slot, positive, low, -⟩
      omega
  | succ start ih =>
      rw [tryReorgRecovery_succ]
      constructor
      · rintro ⟨near, block, answered, ⟨matched, notTip, slot, known, rfl⟩ | ⟨differs, found⟩⟩
        · exact ⟨start + 1, block, slot, Nat.succ_pos _, Nat.le_refl _, near, notTip, answered,
            matched, known, rfl, fun above low high => absurd high (Nat.not_le_of_lt low)⟩
        · obtain ⟨height, other, slot, positive, low, near', notTip, isOther, matched, known, rfl,
            above⟩ := ih.mp found
          refine ⟨height, other, slot, positive, Nat.le_succ_of_le low, near', notTip, isOther,
            matched, known, rfl, fun higher low high => ?_⟩
          rcases Nat.le_succ_iff.mp high with below | rfl
          · exact above higher low below
          · exact ⟨block, answered, differs⟩
      · rintro ⟨height, block, slot, positive, low, near, notTip, answered, matched, known, rfl,
          above⟩
        rcases Nat.le_succ_iff.mp low with below | rfl
        · obtain ⟨top, isTop, differs⟩ := above (start + 1) (Nat.lt_succ_of_le below) (Nat.le_refl _)
          refine ⟨by omega, top, isTop, .inr ⟨differs, ih.mpr ?_⟩⟩
          exact ⟨height, block, slot, positive, below, near, notTip, answered, matched, known, rfl,
            fun higher low high => above higher low (Nat.le_succ_of_le high)⟩
        · exact ⟨near, block, answered, .inl ⟨matched, notTip, slot, known, rfl⟩⟩

/-- A walk that is answered down to a matching row finds one, unless at the cursor. -/
theorem tryReorgRecovery_isSome {height : Nat} (positive : 0 < height) (low : height ≤ start)
    (near : lastHeight < height + 100)
    (answered : ∀ above, height ≤ above → above ≤ start →
      ∃ block slot, onChain above = some block ∧ block.slot = some slot)
    (matched : ∃ block, onChain height = some block ∧ ReadsAs ours height block.hash)
    (notAtTip : ∀ block, onChain lastHeight = some block → ¬ ReadsAs ours lastHeight block.hash) :
    ∃ point, tryReorgRecovery onChain ours lastHeight start = some point := by
  induction start with
  | zero => omega
  | succ start ih =>
      obtain ⟨block, slot, isBlock, known⟩ := answered (start + 1) low (Nat.le_refl _)
      by_cases here : ReadsAs ours (start + 1) block.hash
      · have notTip : start + 1 ≠ lastHeight := fun isTip =>
          notAtTip block (isTip ▸ isBlock) (isTip ▸ here)
        exact ⟨_, tryReorgRecovery_succ.mpr
          ⟨by omega, block, isBlock, .inl ⟨here, notTip, slot, known, rfl⟩⟩⟩
      · have below : height ≤ start := by
          rcases Nat.le_succ_iff.mp low with below | rfl
          · exact below
          · obtain ⟨other, isOther, reads⟩ := matched
            cases isBlock.symm.trans isOther
            exact absurd reads here
        obtain ⟨point, found⟩ := ih below fun above low high =>
          answered above low (Nat.le_succ_of_le high)
        exact ⟨point, tryReorgRecovery_succ.mpr ⟨by omega, block, isBlock, .inr ⟨here, found⟩⟩⟩

end Walk

/-! ## The rollback -/

section Rollback

variable [Bech32] {forks : BlockForks} {config : CrawlStart} {db : Db} {chain : List BlockHash}
  {cursor tip fork : BlockHash} {leaseOwner : Option LeaseOwner} {now : Time}

/-- The crawler does not run under a lease, or still holds it. -/
def Db.LeaseHeld (db : Db) (leaseOwner : Option LeaseOwner) (now : Time) : Prop :=
  ∀ owner, leaseOwner = some owner → (db.sync.renewCrawlerLease owner now).2 = true

theorem handleReorgTx_isSome (held : db.LeaseHeld leaseOwner now) (point : Option ChainPoint) :
    ∃ stored, handleReorgTx config db point leaseOwner now = some stored := by
  cases leaseOwner with
  | none => exact ⟨_, rfl⟩
  | some owner =>
      simp only [handleReorgTx, held owner rfl, if_true]
      exact ⟨_, rfl⟩

omit [Bech32] in
/-- The followed blocks up to the fork are the provider's. -/
theorem BlockForks.HighestCommon.ancestor_iff (highest : forks.HighestCommon (cursor :: chain) tip fork)
    (linked : forks.tree.Path (cursor :: chain)) {node : BlockHash}
    (nodeMem : node ∈ cursor :: chain) :
    forks.tree.Ancestor node tip ↔ forks.tree.rank node ≤ forks.tree.rank fork := by
  have onChain := linked.ancestor_of_mem highest.onChain
  have nodeOnChain := linked.ancestor_of_mem nodeMem
  constructor
  · intro provided
    rcases BlockForks.ancestor_total nodeOnChain onChain with below | above
    · exact ParentTree.Ancestor.rank_le below
    · rcases BlockForks.height_lt_of_ancestor above with rfl | higher
      · exact Nat.le_refl _
      · exact absurd (highest.highest node nodeMem provided) (Nat.not_le_of_lt higher)
  · intro lower
    exact (BlockForks.ancestor_of_rank_le onChain nodeOnChain lower).trans highest.provided

/-- A rollback to the highest common block. -/
theorem BlockForks.HighestCommon.rolledBackTo
    (highest : forks.HighestCommon (cursor :: chain) tip fork)
    (follows : forks.Follows chain cursor db) {stored : Db} {ledgerInvalidated : Bool}
    (committed : handleReorgTx config db
      (some ⟨forks.tree.rank fork, fork, some (forks.height fork)⟩) leaseOwner now =
        some (stored, ledgerInvalidated)) :
    forks.RolledBackTo (cursor :: chain) tip fork db stored := by
  obtain ⟨tables, lastSlot, lastHash⟩ := handleReorgTx_committed committed
  refine ⟨lastHash, lastSlot, handleReorgTx_lastHeight committed, fun row rowMem onChain => ?_⟩
  rw [tables, blocks_rollBackBlocks, List.mem_filter, highest.ancestor_iff follows.linked onChain,
    follows.slots row rowMem onChain]
  simp [rowMem]

end Rollback

/-! ## When the fork is found -/

section Found

variable [Bech32] {forks : BlockForks} {config : CrawlStart} {db : Db} {chain : List BlockHash}
  {cursor tip : BlockHash} {onChain : Nat → Option BlockData} {reads : db.HeightReads}
  {leaseOwner : Option LeaseOwner} {now : Time}

theorem recoverReorg_eq_unchanged_iff (follows : forks.Follows chain cursor db) :
    recoverReorg config db onChain reads leaseOwner now = some (db, false) ↔
      ∀ point, tryReorgRecovery onChain reads.ours (forks.height cursor) (forks.height cursor) ≠
        some point := by
  simp only [recoverReorg, follows.atCursor, follows.height]
  cases walk : tryReorgRecovery onChain reads.ours (forks.height cursor) (forks.height cursor) with
  | none => exact ⟨fun _ _ => nofun, fun _ => rfl⟩
  | some point => simp

theorem recoverReorg_eq_recovered_iff (follows : forks.Follows chain cursor db) {stored : Db} :
    recoverReorg config db onChain reads leaseOwner now = some (stored, true) ↔
      ∃ point ledgerInvalidated,
        tryReorgRecovery onChain reads.ours (forks.height cursor) (forks.height cursor) =
          some point ∧
        handleReorgTx config db (some point) leaseOwner now =
          some (stored, ledgerInvalidated) := by
  simp only [recoverReorg, follows.atCursor, follows.height]
  cases walk : tryReorgRecovery onChain reads.ours (forks.height cursor) (forks.height cursor) with
  | none => simp
  | some point => simp [Option.map_eq_some_iff]

/-- A cursor block that the provider has. -/
theorem unchanged_iff (follows : forks.Follows chain cursor db)
    (provides : forks.Provides tip onChain) (provided : forks.tree.Ancestor cursor tip) :
    recoverReorg config db onChain reads leaseOwner now = some (db, false) ↔
      ReadsAs reads.ours (forks.height cursor) cursor ∨
        ∀ height, 0 < height → height < forks.height cursor → forks.height cursor < height + 100 →
          ∀ block, onChain height = some block → ¬ ReadsAs reads.ours height block.hash := by
  have atTip := provides.complete cursor provided
  have onlyCursor {block : BlockData} (answered : onChain (forks.height cursor) = some block) :
      block.hash = cursor := by
    cases atTip.symm.trans answered
    exact forks.data_hash cursor
  rw [recoverReorg_eq_unchanged_iff follows]
  constructor
  · intro nowhere
    by_contra apart
    obtain ⟨notCursor, someBelow⟩ := not_or.mp apart
    push Not at someBelow
    obtain ⟨height, positive, low, near, block, answered, matched⟩ := someBelow
    -- the provider answers at every height from the match up to the cursor
    obtain ⟨isData, isHeight, onFork⟩ := provides.answer height block answered
    have below : forks.tree.Ancestor block.hash cursor := by
      rcases BlockForks.ancestor_total onFork provided with below | above
      · exact below
      · rcases BlockForks.height_lt_of_ancestor above with same | higher
        · exact same ▸ .refl
        · omega
    obtain ⟨point, found⟩ := tryReorgRecovery_isSome positive (Nat.le_of_lt low) near
      (fun above low high => by
        obtain ⟨node, onChain, rfl⟩ := BlockForks.ancestor_at_height below (isHeight.trans_le low) high
        exact ⟨_, _, provides.complete node (onChain.trans provided), forks.data_slot node⟩)
      ⟨block, answered, matched⟩
      (fun top isTop reads => notCursor (onlyCursor isTop ▸ reads))
    exact nowhere point found
  · intro apart point found
    obtain ⟨height, block, slot, positive, low, near, notTip, answered, matched, -, -, above⟩ :=
      tryReorgRecovery_eq_some_iff.mp found
    have lower : height < forks.height cursor := Nat.lt_of_le_of_ne low notTip
    rcases apart with isCursor | nowhere
    · obtain ⟨top, isTop, differs⟩ := above (forks.height cursor) lower (Nat.le_refl _)
      exact differs (onlyCursor isTop ▸ isCursor)
    · exact nowhere height positive lower near block answered matched

/-- A cursor block that the provider has not. -/
theorem recovered_iff (follows : forks.Follows chain cursor db)
    (provides : forks.Provides tip onChain) (held : db.LeaseHeld leaseOwner now)
    (orphaned : ¬ forks.tree.Ancestor cursor tip) {fork : BlockHash}
    (highest : forks.HighestCommon (cursor :: chain) tip fork)
    (near : forks.height cursor ≤ forks.height fork + 99) :
    (∃ stored, recoverReorg config db onChain reads leaseOwner now = some (stored, true) ∧
        forks.RolledBackTo (cursor :: chain) tip fork db stored) ↔
      0 < forks.height fork ∧ ReadsAs reads.ours (forks.height fork) fork ∧
        ∀ height, forks.height fork < height → height ≤ forks.height cursor →
          ∃ block, onChain height = some block ∧ ¬ ReadsAs reads.ours height block.hash := by
  simp only [recoverReorg_eq_recovered_iff follows]
  constructor
  · rintro ⟨stored, ⟨point, ledgerInvalidated, found, committed⟩, rolledBack⟩
    obtain ⟨height, block, slot, positive, -, -, -, answered, matched, -, rfl, above⟩ :=
      tryReorgRecovery_eq_some_iff.mp found
    have isFork : block.hash = fork :=
      Option.some.inj ((handleReorgTx_committed committed).2.2.symm.trans rolledBack.cursor)
    have isHeight := (provides.answer height block answered).2.1
    rw [isFork] at isHeight matched
    subst isHeight
    exact ⟨positive, matched, above⟩
  · rintro ⟨positive, matched, above⟩
    have notCursor : fork ≠ cursor := fun same => orphaned (same ▸ highest.provided)
    have lower : forks.height fork < forks.height cursor :=
      (BlockForks.height_lt_of_ancestor
        (follows.linked.ancestor_of_mem highest.onChain)).resolve_left notCursor
    have found : tryReorgRecovery onChain reads.ours (forks.height cursor) (forks.height cursor) =
        some ⟨forks.tree.rank fork, fork, some (forks.height fork)⟩ := by
      refine tryReorgRecovery_eq_some_iff.mpr ⟨forks.height fork, forks.data fork, _, positive,
        Nat.le_of_lt lower, by omega, Nat.ne_of_lt lower, provides.complete fork highest.provided,
        ?_, forks.data_slot fork, ?_, above⟩
      · rw [forks.data_hash]
        exact matched
      · rw [forks.data_hash]
    obtain ⟨stored, committed⟩ := handleReorgTx_isSome held
      (some ⟨forks.tree.rank fork, fork, some (forks.height fork)⟩)
    exact ⟨stored.1, ⟨_, stored.2, found, committed⟩, highest.rolledBackTo follows committed⟩

/-- A recovery finds the fork exactly when the rows that are read tell the chains apart. -/
theorem recoverReorg_findsFork_iff (follows : forks.Follows chain cursor db)
    (provides : forks.Provides tip onChain) (held : db.LeaseHeld leaseOwner now) :
    FindsFork forks (cursor :: chain) cursor tip db
        (recoverReorg config db onChain reads leaseOwner now) ↔
      ReadsApart forks (cursor :: chain) cursor tip onChain reads.ours := by
  unfold FindsFork ReadsApart
  refine and_congr (imp_congr_right fun provided => ?_) (imp_congr_right fun orphaned => ?_)
  · exact unchanged_iff follows provides provided
  · refine forall_congr' fun fork => imp_congr_right fun highest => imp_congr_right fun near => ?_
    exact recovered_iff follows provides held orphaned highest near

end Found

/-! `c` and `d` are on top of `a`.  The crawler followed `d`, and a reader has stored the row of
`c`, which the provider now answers with. -/

def siblingBlocks : BlockForks where
  tree :=
    { parent := fun hash =>
        if hash = text "c" ∨ hash = text "d" then some (text "a") else none
      rank := fun hash =>
        if hash = text "c" then 30 else if hash = text "d" then 31 else 20
      rank_lt := by
        intro child node isParent
        split at isParent
        · rename_i above
          cases isParent
          rcases above with rfl | rfl <;> decide
        · cases isParent }
  height := fun hash => if hash = text "c" ∨ hash = text "d" then 3 else 2
  height_child := by
    intro child node isParent
    simp only [ParentTree.ChildOf] at isParent
    split at isParent
    · rename_i above
      cases isParent
      rcases above with rfl | rfl <;> decide
    · cases isParent
  data := fun hash =>
    { sampleBlock hash (if hash = text "c" then 30 else if hash = text "d" then 31 else 20) 0 with
      height := some (if hash = text "c" ∨ hash = text "d" then 3 else 2) }
  data_hash _ := rfl
  data_slot _ := rfl
  data_height _ := rfl

def siblingRow (hash : BlockHash) : BlockRow := mapBlock (siblingBlocks.data hash) none

def siblingDb : Db where
  crawl := TableFamily.write (TableFamily.write (TableFamily.write CrawlStore.empty
    (blockBatch (siblingRow (text "a")))) (blockBatch (siblingRow (text "d"))))
      (blockBatch (siblingRow (text "c")))
  ledger := LedgerDb.empty
  sync := SyncState.initial "preview" (some ⟨31, text "d", some 3⟩)

/-- The blocks up to `c`, by height. -/
def answersUpToC (height : Nat) : Option BlockData :=
  if height = 3 then some (siblingBlocks.data (text "c"))
  else if height = 2 then some (siblingBlocks.data (text "a")) else none

theorem siblingDb_rows {row : BlockRow} (rowMem : row ∈ (siblingDb.crawl .blocks).rows) :
    row = siblingRow (text "a") ∨ row = siblingRow (text "d") ∨ row = siblingRow (text "c") := by
  have rows : (siblingDb.crawl .blocks).rows =
      [siblingRow (text "a"), siblingRow (text "d"), siblingRow (text "c")] := by decide +kernel
  rw [rows] at rowMem
  simpa using rowMem

/-- At height 3 one of the two rows is read. -/
def siblingReads (hash : BlockHash) (isTop : hash = text "c" ∨ hash = text "d") :
    siblingDb.HeightReads where
  ours height :=
    if height = 3 then some (siblingRow hash)
    else if height = 2 then some (siblingRow (text "a")) else none
  read := by
    intro height row isRow
    split at isRow
    · rename_i isThree
      cases isRow
      rcases isTop with rfl | rfl <;> exact ⟨by decide +kernel, by rw [isThree]; rfl⟩
    · split at isRow
      · rename_i isTwo
        cases isRow
        exact ⟨by decide +kernel, by rw [isTwo]; rfl⟩
      · cases isRow
  found := by
    intro row rowMem height isHeight
    rcases siblingDb_rows rowMem with rfl | rfl | rfl <;> cases isHeight <;> rfl

theorem ancestor_c {node : BlockHash} (ancestor : siblingBlocks.tree.Ancestor node (text "c")) :
    node = text "c" ∨ node = text "a" := by
  rcases Relation.ReflTransGen.cases_tail ancestor with same | ⟨parent, below, child⟩
  · exact .inl same.symm
  · have isA : siblingBlocks.tree.parent (text "c") = some (text "a") := by decide
    cases isA.symm.trans child
    rcases Relation.ReflTransGen.cases_tail below with same | ⟨parent, -, child⟩
    · exact .inr same.symm
    · have isRoot : siblingBlocks.tree.parent (text "a") = none := by decide
      cases isRoot.symm.trans child

theorem answersUpToC_provides : siblingBlocks.Provides (text "c") answersUpToC where
  answer := by
    intro height block answered
    simp only [answersUpToC] at answered
    split at answered
    · rename_i isThree
      cases answered
      exact ⟨rfl, isThree.symm ▸ rfl, .refl⟩
    · split at answered
      · rename_i isTwo
        cases answered
        exact ⟨rfl, isTwo.symm ▸ rfl, .single rfl⟩
      · cases answered
  complete := by
    intro node ancestor
    rcases ancestor_c ancestor with rfl | rfl <;> rfl

theorem siblingDb_follows : siblingBlocks.Follows [text "a"] (text "d") siblingDb where
  linked := List.isChain_pair.mpr rfl
  atCursor := rfl
  height := rfl
  slots := by
    intro row rowMem _
    rcases siblingDb_rows rowMem with rfl | rfl | rfl <;> rfl

theorem sibling_orphaned : ¬ siblingBlocks.tree.Ancestor (text "d") (text "c") := by
  intro ancestor
  rcases ancestor_c ancestor with same | same <;> exact absurd same (by decide)

theorem sibling_highest {fork : BlockHash}
    (highest : siblingBlocks.HighestCommon [text "d", text "a"] (text "c") fork) :
    fork = text "a" := by
  rcases ancestor_c highest.provided with rfl | isA
  · exact absurd highest.onChain (by decide)
  · exact isA

theorem a_highest : siblingBlocks.HighestCommon [text "d", text "a"] (text "c") (text "a") where
  onChain := by decide
  provided := .single rfl
  highest node nodeMem ancestor := by
    rcases ancestor_c ancestor with rfl | rfl
    · exact absurd nodeMem (by decide)
    · exact Nat.le_refl _

section Sample

attribute [local instance] byronBech32

theorem recoverReorg_findsFork_sample :
    FindsFork siblingBlocks [text "d", text "a"] (text "d") (text "c") siblingDb
      (recoverReorg ⟨none, none, none⟩ siblingDb answersUpToC
        (siblingReads (text "d") (.inr rfl)) none 0) := by
  have held : siblingDb.LeaseHeld none 0 := fun _ isOwner => absurd isOwner nofun
  refine (recoverReorg_findsFork_iff siblingDb_follows answersUpToC_provides held).mpr
    ⟨fun provided => absurd provided sibling_orphaned, fun _ fork highest _ => ?_⟩
  obtain rfl := sibling_highest highest
  refine ⟨by decide, ⟨_, rfl, rfl⟩, fun height low high => ?_⟩
  have isThree : height = 3 := Nat.le_antisymm high low
  subst isThree
  refine ⟨_, rfl, ?_⟩
  rintro ⟨row, isRow, same⟩
  cases isRow
  exact absurd same (by decide)

/-- The row of `c` is read at the height of the cursor and matches, so that nothing is rolled
back. -/
theorem recoverReorg_foreignRow :
    ¬ FindsFork siblingBlocks [text "d", text "a"] (text "d") (text "c") siblingDb
      (recoverReorg ⟨none, none, none⟩ siblingDb answersUpToC
        (siblingReads (text "c") (.inl rfl)) none 0) := by
  intro finds
  obtain ⟨stored, recovered, -⟩ := finds.2 sibling_orphaned _ a_highest (by decide)
  have returned : (recoverReorg ⟨none, none, none⟩ siblingDb answersUpToC
      (siblingReads (text "c") (.inl rfl)) none 0).map Prod.snd = some false := by decide +kernel
  rw [recovered] at returned
  cases returned

end Sample

end Odatano
