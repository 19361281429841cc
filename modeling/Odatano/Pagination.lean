import Odatano.ParentTree
import Odatano.StoredBlocks

/-!
# Pagination

`paginate` and `tryReorgRecovery` over the `getNextBlocks` of the paging backends.
Every answer of a provider is that of some fork; two calls may be answered from
different ones.
-/

namespace Odatano

/-! ## The provider -/

/-- The blocks of all forks, with their slots as ranks. -/
structure BlockForks where
  tree : ParentTree BlockHash
  height : BlockHash → Nat
  height_child : ∀ {child node}, tree.ChildOf child node → height child = height node + 1
  data : BlockHash → BlockData
  data_hash : ∀ hash, (data hash).hash = hash
  data_slot : ∀ hash, (data hash).slot = some (tree.rank hash)
  data_height : ∀ hash, (data hash).height = some (height hash)

/-- A list of the blocks above a height, on the fork that ends at `tip`. -/
structure ForkPage (forks : BlockForks) (tip : BlockHash) (height count : Nat)
    (page : List BlockHash) : Prop where
  onFork : ∀ hash ∈ page, forks.tree.Ancestor hash tip
  linked : page.IsChain fun node child => forks.tree.ChildOf child node
  above : ∀ hash, page.head? = some hash → forks.height hash = height + 1
  limit : page.length ≤ count

inductive PagingError
  | unvalidated
  /-- `CHAIN_POINT_MISMATCH` -/
  | chainPointMismatch
  | notFound
  | noHeight
  | incomplete
deriving DecidableEq

/-- The answers one `getNextBlocks` of Koios gets, as its requests ask for them. -/
structure KoiosAnswers where
  canonical : Nat → Option BlockHash
  anchorInfo : Option BlockData
  listed : Nat → List BlockHash
  blockInfo : List BlockHash → List BlockData

/-- The height to page from.  A height hint is not proof that the cursor is still
canonical, so the hash at that height is compared first. -/
def KoiosAnswers.anchorHeight (answers : KoiosAnswers) (afterHash : BlockHash)
    (afterHeight : Option Nat) : Except PagingError Nat :=
  match afterHeight.filter (0 < ·) with
  | some height =>
      match answers.canonical height with
      | none => .error .unvalidated
      | some canonicalHash =>
          if canonicalHash = afterHash then .ok height else .error .chainPointMismatch
  | none =>
      match answers.anchorInfo with
      | none => .error .notFound
      | some info =>
          match info.height with
          | none => .error .noHeight
          | some height => .ok height

def KoiosAnswers.getNextBlocks (answers : KoiosAnswers) (afterHash : BlockHash)
    (afterHeight : Option Nat) : Except PagingError (List BlockData) :=
  match answers.anchorHeight afterHash afterHeight with
  | .error error => .error error
  | .ok height =>
      let requested := answers.listed height
      let infos := answers.blockInfo requested
      if requested = [] then .ok []
      else if infos.length < requested.length then .error .incomplete
      else .ok (infos.mergeSort fun first second => first.height.getD 0 ≤ second.height.getD 0)

/-- Each answer is that of a fork: the canonical block and the list of blocks
come from calls of their own. -/
structure KoiosAnswers.OfForks (answers : KoiosAnswers) (forks : BlockForks)
    (afterHash : BlockHash) (count : Nat) (anchorFork listFork : BlockHash) : Prop where
  canonical : ∀ height hash, answers.canonical height = some hash →
    forks.tree.Ancestor hash anchorFork ∧ forks.height hash = height
  anchorInfo : ∀ info, answers.anchorInfo = some info → info = forks.data afterHash
  listed : ∀ height, ForkPage forks listFork height count (answers.listed height)
  known : ∀ requested, ∀ info ∈ answers.blockInfo requested,
    info.hash ∈ requested ∧ info = forks.data info.hash
  once : ∀ requested, ((answers.blockInfo requested).map BlockData.hash).Nodup

/-! ## Reorg recovery -/

/-- Walk back by height until the hash on chain is the stored one.  Null when the
cursor block still matches or a height is unavailable. -/
def tryReorgRecovery (onChain : Nat → Option BlockData) (ours : Nat → Option BlockRow)
    (lastHeight : Nat) : Nat → Option ChainPoint
  | 0 => none
  | height + 1 =>
      if height + 1 + 100 ≤ lastHeight then none
      else
        match onChain (height + 1) with
        | none => none
        | some found =>
            if (ours (height + 1)).any fun row => decide (row.hash = found.hash) then
              if height + 1 = lastHeight then none
              else found.slot.map fun slot => ⟨slot, found.hash, some (height + 1)⟩
            else tryReorgRecovery onChain ours lastHeight height

/-- A recovery point has the hash of a stored row and the slot its block has on chain. -/
theorem tryReorgRecovery_spec {onChain : Nat → Option BlockData} {ours : Nat → Option BlockRow}
    {lastHeight height : Nat} {point : ChainPoint}
    (found : tryReorgRecovery onChain ours lastHeight height = some point) :
    ∃ at_ row block, ours at_ = some row ∧ onChain at_ = some block ∧ row.hash = point.hash ∧
      block.hash = point.hash ∧ block.slot = some point.slot ∧ point.height = some at_ := by
  induction height with
  | zero => cases found
  | succ height ih =>
      simp only [tryReorgRecovery] at found
      split at found
      · cases found
      · split at found
        · cases found
        · rename_i block isOnChain
          split at found
          · rename_i same
            obtain ⟨row, isOurs, sameHash⟩ := (Option.any_eq_true _ _).mp same
            split at found
            · cases found
            · obtain ⟨slot, known, rfl⟩ := Option.map_eq_some_iff.mp found
              exact ⟨height + 1, row, block, isOurs, isOnChain, of_decide_eq_true sameHash, rfl,
                known, rfl⟩
          · exact ih found

/-! ## Runs -/

structure Paging where
  db : Db
  indexer : Indexer
  /-- The blocks of the page that are still to be stored. -/
  page : List BlockData
  /-- The crawl start, or an earlier stored block a recovery went back to. -/
  base : BlockHash

section Runs

variable [Bech32]

/-- The steps of a crawl by pagination; `allowed` says from which fork the blocks
after the cursor may be listed. -/
inductive PagingStep (forks : BlockForks) (config : CrawlStart)
    (allowed : BlockHash → BlockHash → Prop) : Paging → Paging → Prop
  | koiosPage (s : Paging) (afterHash : BlockHash) (answers : KoiosAnswers) (count : Nat)
      (anchorFork listFork : BlockHash) (blocks : List BlockData)
      (cursor : s.db.sync.lastBlockHash = some afterHash) (done : s.page = [])
      (answered : answers.OfForks forks afterHash count anchorFork listFork)
      (page : answers.getNextBlocks afterHash (some s.db.sync.lastHeight) = .ok blocks)
      (may : allowed afterHash listFork) :
      PagingStep forks config allowed s { s with page := blocks }
  -- one call, answered with the blocks after the hash or with a 404
  | blockfrostPage (s : Paging) (afterHash tip : BlockHash) (blocks : List BlockHash)
      (cursor : s.db.sync.lastBlockHash = some afterHash) (done : s.page = [])
      (onFork : ∀ hash ∈ blocks, forks.tree.Ancestor hash tip)
      (linked : (afterHash :: blocks).IsChain fun node child => forks.tree.ChildOf child node) :
      PagingStep forks config allowed s { s with page := blocks.map forks.data }
  | persistBlock (s : Paging) (block : BlockData) (rest : List BlockData)
      (txs : List Transaction) (epochData : Option Nat) (tip : Option ChainPoint)
      (leaseOwner : Option LeaseOwner) (now : Time) (db : Db) (next : s.page = block :: rest)
      (complete : txs.length = block.txCount)
      (committed : (persistBlockTx s.indexer s.db block txs epochData tip leaseOwner now).2 =
        some db) :
      PagingStep forks config allowed s
        { s with
          db
          indexer :=
            (persistBlockTx s.indexer s.db block txs epochData tip leaseOwner now).1.blockCommitted
          page := rest }
  -- the confirmation window, an error, a stop, or chain-sync that came back
  | leavePage (s : Paging) : PagingStep forks config allowed s { s with page := [] }
  | recover (s : Paging) (onChain : Nat → Option BlockData) (ours : Nat → Option BlockRow)
      (point : ChainPoint) (leaseOwner : Option LeaseOwner) (now : Time) (db : Db)
      (ledgerInvalidated : Bool) (done : s.page = [])
      (answered : ∀ height block, onChain height = some block →
        block = forks.data block.hash ∧ forks.height block.hash = height)
      (read : ∀ height row, ours height = some row →
        row ∈ (s.db.crawl .blocks).rows ∧ row.height = some height)
      (found : tryReorgRecovery onChain ours s.db.sync.lastHeight s.db.sync.lastHeight = some point)
      (committed : handleReorgTx config s.db (some point) leaseOwner now =
        some (db, ledgerInvalidated)) :
      PagingStep forks config allowed s
        { db
          indexer := s.indexer.reorgCommitted ledgerInvalidated
          page := []
          base := if point.slot ≤ forks.tree.rank s.base then point.hash else s.base }
  -- leases, imports, failed attempts: neither the block rows nor the cursor
  | other (s : Paging) (db : Db) (indexer : Indexer)
      (blocks : db.crawl .blocks = s.db.crawl .blocks)
      (cursorHash : db.sync.lastBlockHash = s.db.sync.lastBlockHash) :
      PagingStep forks config allowed s { s with db, indexer }

end Runs

/-- The rows stored above the base, in storage order. -/
def Paging.stored (forks : BlockForks) (s : Paging) : List BlockRow :=
  (s.db.crawl .blocks).rows.filter fun row =>
    row.slot.any fun slot => decide (forks.tree.rank s.base < slot)

/-- The stored blocks are a chain from the base to the cursor. -/
structure Paging.Chained (forks : BlockForks) (s : Paging) : Prop where
  linked : (s.base :: (s.stored forks).map BlockRow.hash).IsChain fun node child =>
    forks.tree.ChildOf child node
  consecutive : (some (forks.height s.base) :: (s.stored forks).map BlockRow.height).IsChain
    fun height next => next = height.map (· + 1)
  cursor : s.db.sync.lastBlockHash = ((s.base :: (s.stored forks).map BlockRow.hash).getLast?)

/-- Before the crawl only blocks up to its start are stored. -/
structure Paging.Starts (forks : BlockForks) (start : BlockHash) (s : Paging) : Prop where
  base : s.base = start
  cursor : s.db.sync.lastBlockHash = some start
  noPage : s.page = []
  below : ∀ row ∈ (s.db.crawl .blocks).rows,
    row.slot = some (forks.tree.rank row.hash) ∧ forks.tree.rank row.hash ≤ forks.tree.rank start

/-! ## Forks -/

section Forks

variable {forks : BlockForks} {first second tip : BlockHash}

theorem BlockForks.height_lt_of_ancestor (ancestor : forks.tree.Ancestor first second) :
    first = second ∨ forks.height first < forks.height second := by
  induction ancestor with
  | refl => exact Or.inl rfl
  | tail _ child ih =>
      have higher := forks.height_child child
      rcases ih with rfl | lower
      · exact Or.inr (by omega)
      · exact Or.inr (by omega)

/-- Two blocks of one fork lie one above the other. -/
theorem BlockForks.ancestor_total (onFork : forks.tree.Ancestor first tip)
    (otherOnFork : forks.tree.Ancestor second tip) :
    forks.tree.Ancestor first second ∨ forks.tree.Ancestor second first := by
  have unique : Relator.RightUnique (Function.swap fun node child : BlockHash =>
      forks.tree.ChildOf child node) := fun child node other isParent isOther =>
    Option.some.inj (Eq.trans (Eq.symm isParent) isOther)
  have total := Relation.ReflTransGen.total_of_right_unique unique
    (Relation.reflTransGen_swap.mpr onFork) (Relation.reflTransGen_swap.mpr otherOnFork)
  exact total.symm.imp Relation.reflTransGen_swap.mp Relation.reflTransGen_swap.mp

/-- The block one height above another block of its fork is its child. -/
theorem BlockForks.childOf_next (onFork : forks.tree.Ancestor first tip)
    (otherOnFork : forks.tree.Ancestor second tip)
    (next : forks.height second = forks.height first + 1) : forks.tree.ChildOf second first := by
  rcases BlockForks.ancestor_total onFork otherOnFork with above | below
  · rcases Relation.ReflTransGen.cases_tail above with rfl | ⟨parent, ancestor, child⟩
    · omega
    · have higher := forks.height_child child
      rcases BlockForks.height_lt_of_ancestor ancestor with rfl | lower
      · exact child
      · omega
  · rcases BlockForks.height_lt_of_ancestor below with rfl | lower <;> omega

/-- Of two blocks of one fork the one of the lower rank is an ancestor of the other. -/
theorem BlockForks.ancestor_of_rank_le (onFork : forks.tree.Ancestor first tip)
    (otherOnFork : forks.tree.Ancestor second tip)
    (lower : forks.tree.rank second ≤ forks.tree.rank first) :
    forks.tree.Ancestor second first := by
  rcases BlockForks.ancestor_total onFork otherOnFork with above | below
  · rcases Relation.ReflTransGen.cases_tail above with rfl | ⟨parent, ancestor, child⟩
    · exact .refl
    · have rankParent := ParentTree.Ancestor.rank_le ancestor
      have rankChild := forks.tree.rank_lt child
      omega
  · exact below

/-- A fork has a block at each height between two of its blocks. -/
theorem BlockForks.ancestor_at_height (ancestor : forks.tree.Ancestor first second) {height : Nat}
    (low : forks.height first ≤ height) (high : height ≤ forks.height second) :
    ∃ node, forks.tree.Ancestor node second ∧ forks.height node = height := by
  induction ancestor with
  | refl => exact ⟨first, .refl, Nat.le_antisymm low high⟩
  | @tail parent block ancestor child ih =>
      have next := forks.height_child child
      by_cases here : height = forks.height block
      · exact ⟨block, .refl, here.symm⟩
      · obtain ⟨node, onFork, isHeight⟩ := ih (by omega)
        exact ⟨node, onFork.tail child, isHeight⟩

end Forks

/-! ## Pages -/

section Pages

variable {forks : BlockForks} {answers : KoiosAnswers} {afterHash anchorFork listFork : BlockHash}
  {count : Nat}

theorem ForkPage.heights_increase {height : Nat} {page : List BlockHash}
    (isPage : ForkPage forks listFork height count page) :
    page.Pairwise fun first second => forks.height first < forks.height second := by
  have transitive : IsTrans BlockHash fun first second => forks.height first < forks.height second :=
    ⟨fun _ _ _ => Nat.lt_trans⟩
  refine List.isChain_iff_pairwise.mp (isPage.linked.imp fun node child isChild => ?_)
  rw [forks.height_child isChild]
  exact Nat.lt_succ_self _

/-- A complete batch of block data, sorted by height, is the page as listed. -/
theorem KoiosAnswers.OfForks.sorted
    (answered : answers.OfForks forks afterHash count anchorFork listFork) (height : Nat)
    (complete : (answers.listed height).length ≤
      (answers.blockInfo (answers.listed height)).length) :
    ((answers.blockInfo (answers.listed height)).mergeSort
      fun first second => first.height.getD 0 ≤ second.height.getD 0) =
      (answers.listed height).map forks.data := by
  have increase := (answered.listed height).heights_increase
  have known := answered.known (answers.listed height)
  have once := answered.once (answers.listed height)
  generalize answers.listed height = requested at *
  generalize answers.blockInfo requested = infos at *
  have sameHashes : (infos.map BlockData.hash).Perm requested := by
    refine (List.subperm_of_subset once ?_).perm_of_length_le (by simpa using complete)
    intro hash hashMem
    obtain ⟨info, infoMem, rfl⟩ := List.mem_map.mp hashMem
    exact (known info infoMem).1
  have sameInfos : infos.Perm (requested.map forks.data) := by
    have back : (infos.map BlockData.hash).map forks.data = infos := by
      rw [List.map_map]
      exact (List.map_congr_left fun info infoMem => (known info infoMem).2.symm).trans
        (List.map_id infos)
    exact back ▸ sameHashes.map forks.data
  have heightOf (hash : BlockHash) : (forks.data hash).height.getD 0 = forks.height hash := by
    rw [forks.data_height]
    rfl
  refine List.Perm.eq_of_pairwise ?_ (List.pairwise_mergeSort ?_ ?_ infos) ?_
    ((List.mergeSort_perm _ _).trans sameInfos)
  · intro first second firstMem secondMem le ge
    obtain ⟨hash, hashMem, rfl⟩ :=
      List.mem_map.mp (sameInfos.mem_iff.mp (List.mem_mergeSort.mp firstMem))
    obtain ⟨other, otherMem, rfl⟩ := List.mem_map.mp secondMem
    simp only [heightOf, decide_eq_true_eq] at le ge
    have sameHeight : forks.height hash = forks.height other := Nat.le_antisymm le ge
    have inj := increase.imp fun {a b} (lower : forks.height a < forks.height b) =>
      (show forks.height a ≠ forks.height b from Nat.ne_of_lt lower)
    exact congrArg forks.data
      (List.inj_on_of_nodup_map (List.pairwise_map.mpr inj) hashMem otherMem sameHeight)
  · intro first second third
    simp only [decide_eq_true_eq]
    exact Nat.le_trans
  · intro first second
    simp only [Bool.or_eq_true, decide_eq_true_eq]
    exact Nat.le_total _ _
  · refine List.pairwise_map.mpr (increase.imp fun lower => ?_)
    rw [heightOf, heightOf, decide_eq_true_eq]
    exact Nat.le_of_lt lower

/-- Paging starts at the height of the cursor block. -/
theorem KoiosAnswers.OfForks.anchorHeight
    (answered : answers.OfForks forks afterHash count anchorFork listFork)
    {afterHeight : Option Nat} {height : Nat}
    (ok : answers.anchorHeight afterHash afterHeight = .ok height) :
    height = forks.height afterHash := by
  rw [KoiosAnswers.anchorHeight] at ok
  split at ok
  · split at ok
    · cases ok
    · rename_i canonicalHash isCanonical
      split at ok
      · rename_i same
        cases ok
        exact same ▸ (answered.canonical _ _ isCanonical).2.symm
      · cases ok
  · split at ok
    · cases ok
    · rename_i info isInfo
      split at ok
      · cases ok
      · rename_i known
        cases ok
        rw [answered.anchorInfo info isInfo, forks.data_height] at known
        exact (Option.some.inj known).symm

/-- A page that is listed from a fork with the cursor block goes on from it. -/
theorem KoiosAnswers.OfForks.linked
    (answered : answers.OfForks forks afterHash count anchorFork listFork)
    {afterHeight : Option Nat} {blocks : List BlockData}
    (ok : answers.getNextBlocks afterHash afterHeight = .ok blocks)
    (onFork : forks.tree.Ancestor afterHash listFork) :
    ∃ page : List BlockHash, blocks = page.map forks.data ∧
      (afterHash :: page).IsChain fun node child => forks.tree.ChildOf child node := by
  rw [KoiosAnswers.getNextBlocks] at ok
  split at ok
  · cases ok
  · rename_i height anchored
    simp only at ok
    split at ok
    · cases ok
      exact ⟨[], rfl, List.isChain_singleton _⟩
    · split at ok
      · cases ok
      · rename_i complete
        cases ok
        refine ⟨answers.listed height, answered.sorted height (Nat.le_of_not_lt complete), ?_⟩
        have isPage := answered.listed height
        rw [answered.anchorHeight anchored] at isPage ⊢
        cases page : answers.listed (forks.height afterHash) with
        | nil => exact List.isChain_singleton _
        | cons first rest =>
            rw [page] at isPage
            refine List.isChain_cons_cons.mpr ⟨?_, isPage.linked⟩
            exact BlockForks.childOf_next onFork (isPage.onFork first List.mem_cons_self)
              (isPage.above first rfl)

end Pages

/-! ## What every run keeps -/

/-- The stored blocks are a path of the tree, newest first, and the page goes on
from it. -/
structure PagingSound (forks : BlockForks) (s : Paging) (applied : List BlockHash) : Prop where
  linked : forks.tree.Path (applied ++ [s.base])
  stored : (s.stored forks).map BlockRow.identity =
    applied.reverse.map fun hash => (hash, some (forks.tree.rank hash), some (forks.height hash))
  slots : ∀ row ∈ (s.db.crawl .blocks).rows, row.slot = some (forks.tree.rank row.hash)
  cursor : s.db.sync.lastBlockHash = some (applied.headD s.base)
  page : (applied.headD s.base :: s.page.map BlockData.hash).IsChain fun node child =>
    forks.tree.ChildOf child node
  pageData : ∀ block ∈ s.page, block = forks.data block.hash

section Sound

variable {forks : BlockForks} {s : Paging} {applied : List BlockHash}

theorem PagingSound.hashes (sound : PagingSound forks s applied) :
    (s.stored forks).map BlockRow.hash = applied.reverse := by
  have hashes := congrArg (List.map Prod.fst) sound.stored
  rw [List.map_map, List.map_map] at hashes
  exact hashes.trans (List.map_id _)

theorem PagingSound.mem_applied (sound : PagingSound forks s applied) {row : BlockRow}
    (rowMem : row ∈ (s.db.crawl .blocks).rows)
    (above : forks.tree.rank s.base < forks.tree.rank row.hash) : row.hash ∈ applied := by
  have isStored : row ∈ s.stored forks := by
    refine List.mem_filter.mpr ⟨rowMem, ?_⟩
    rw [sound.slots row rowMem]
    exact decide_eq_true above
  have hashMem := List.mem_map_of_mem (f := BlockRow.hash) isStored
  rw [sound.hashes] at hashMem
  exact List.mem_reverse.mp hashMem

theorem PagingSound.height_of_stored (sound : PagingSound forks s applied) {row : BlockRow}
    (rowMem : row ∈ s.stored forks) :
    row.hash ∈ applied ∧ row.height = some (forks.height row.hash) := by
  have identityMem := List.mem_map_of_mem (f := BlockRow.identity) rowMem
  rw [sound.stored] at identityMem
  obtain ⟨hash, hashMem, same⟩ := List.mem_map.mp identityMem
  simp only [BlockRow.identity, Prod.mk.injEq] at same
  obtain ⟨rfl, -, height⟩ := same
  exact ⟨List.mem_reverse.mp hashMem, height.symm⟩

theorem PagingSound.chained (sound : PagingSound forks s applied) : s.Chained forks := by
  have whole : s.base :: applied.reverse = (applied ++ [s.base]).reverse := by simp
  have linked : (s.base :: applied.reverse).IsChain fun node child =>
      forks.tree.ChildOf child node := by
    rw [whole, List.isChain_reverse]
    exact sound.linked
  refine ⟨by rw [sound.hashes]; exact linked, ?_, ?_⟩
  · have heights : some (forks.height s.base) :: (s.stored forks).map BlockRow.height =
        (s.base :: applied.reverse).map fun hash => some (forks.height hash) := by
      have known := congrArg (List.map fun identity => identity.2.2) sound.stored
      rw [List.map_map, List.map_map] at known
      exact congrArg (List.cons _) known
    rw [heights, List.isChain_map]
    refine linked.imp fun node child isChild => ?_
    rw [forks.height_child isChild]
    rfl
  · rw [sound.hashes, whole, List.getLast?_reverse, sound.cursor]
    cases applied <;> rfl

/-- No stored block is above the cursor. -/
theorem PagingSound.rank_le_cursor (sound : PagingSound forks s applied) {hash : BlockHash}
    (hashMem : hash ∈ applied ++ [s.base]) :
    forks.tree.rank hash ≤ forks.tree.rank (applied.headD s.base) := by
  have decrease := sound.linked.ranks_decrease
  cases applied with
  | nil => exact Nat.le_of_eq (congrArg _ (List.mem_singleton.mp hashMem))
  | cons first rest =>
      rcases List.mem_cons.mp hashMem with rfl | later
      · exact Nat.le_refl _
      · exact Nat.le_of_lt (List.rel_of_pairwise_cons decrease later)

theorem PagingSound.height_lt (sound : PagingSound forks s applied) {child : BlockHash}
    (isChild : forks.tree.ChildOf child (applied.headD s.base)) {hash : BlockHash}
    (hashMem : hash ∈ applied) : forks.height hash < forks.height child := by
  have higher := forks.height_child isChild
  have linked := sound.linked
  cases applied with
  | nil => cases hashMem
  | cons first rest =>
      have ancestor : forks.tree.Ancestor hash first :=
        ParentTree.Path.ancestor_of_mem linked (List.mem_append_left _ hashMem)
      change forks.height child = forks.height first + 1 at higher
      rcases BlockForks.height_lt_of_ancestor ancestor with rfl | lower <;> omega

section Steps

variable [Bech32] {config : CrawlStart}

/-- The next block of the page is stored on top of the cursor. -/
theorem PagingSound.persistBlock (sound : PagingSound forks s applied) {block : BlockData}
    {rest : List BlockData} {txs : List Transaction} {epochData : Option Nat}
    {tip : Option ChainPoint} {leaseOwner : Option LeaseOwner} {now : Time} {db : Db}
    {indexer : Indexer} (next : s.page = block :: rest)
    (committed : (persistBlockTx s.indexer s.db block txs epochData tip leaseOwner now).2 =
      some db) :
    PagingSound forks { s with db, indexer, page := rest } (block.hash :: applied) := by
  obtain ⟨tables, -, cursorHash⟩ := persistBlockTx_committed committed
  have isData : block = forks.data block.hash :=
    sound.pageData block (next ▸ List.mem_cons_self)
  have page := sound.page
  rw [next, List.map_cons, List.isChain_cons_cons] at page
  have isChild : forks.tree.ChildOf block.hash (applied.headD s.base) := page.1
  have slot : block.slot = some (forks.tree.rank block.hash) := by
    rw [isData, forks.data_slot, forks.data_hash]
  have height : block.height = some (forks.height block.hash) := by
    rw [isData, forks.data_height, forks.data_hash]
  obtain ⟨row, doomed, identity, rows, sameHeight⟩ := blocks_indexBlock s.indexer.coverage
    s.db.crawl ⟨block, txs, epochData, ledgerAnswering s.indexer s.db block⟩
  simp only [BlockRow.identity, IndexedBlock.hash, Prod.mk.injEq] at identity
  obtain ⟨rowHash, rowSlot, rowHeight⟩ := identity
  have baseBelow : forks.tree.rank s.base < forks.tree.rank block.hash :=
    Nat.lt_of_le_of_lt (sound.rank_le_cursor (List.mem_append_right _ (List.mem_singleton_self _)))
      (forks.tree.rank_lt isChild)
  have isNew : ∀ old ∈ (s.db.crawl .blocks).rows, old.hash ≠ block.hash := by
    intro old oldMem same
    have above : forks.tree.rank s.base < forks.tree.rank old.hash := same ▸ baseBelow
    have below := sound.rank_le_cursor (List.mem_append_left _ (sound.mem_applied oldMem above))
    have higher := forks.tree.rank_lt isChild
    rw [same] at below
    omega
  have appended : ((s.db.crawl .blocks).upsert row).rows = (s.db.crawl .blocks).rows ++ [row] := by
    have single : ([row].map BlockRow.hash).Nodup := List.nodup_singleton row.hash
    refine Table.rows_upsertAll_of_new (s.db.crawl .blocks) single ?_
    intro old oldMem stored
    obtain ⟨other, otherMem, same⟩ := List.mem_map.mp stored
    cases List.mem_singleton.mp oldMem
    exact isNew other otherMem (same.trans rowHash)
  rw [appended] at rows sameHeight
  have newRows : (db.crawl .blocks).rows = ((s.db.crawl .blocks).rows ++ [row]).filter
      fun old => decide (old.hash ∉ doomed) := by rw [tables]; exact rows
  have isStored : row.slot.any (fun slot => decide (forks.tree.rank s.base < slot)) = true := by
    rw [rowSlot, slot]
    exact decide_eq_true baseBelow
  have storedRows : Paging.stored forks { s with db, indexer, page := rest } =
      s.stored forks ++ [row] := by
    have spared : ∀ old ∈ (s.db.crawl .blocks).rows ++ [row],
        ((old.slot.any fun slot => decide (forks.tree.rank s.base < slot)) &&
          decide (old.hash ∉ doomed)) =
        old.slot.any fun slot => decide (forks.tree.rank s.base < slot) := by
      intro old oldMem
      cases above : old.slot.any fun slot => decide (forks.tree.rank s.base < slot) with
      | false => rfl
      | true =>
          refine decide_eq_true fun isDoomed => ?_
          obtain ⟨otherHash, doomedHeight, isHeight, oldHeight⟩ := sameHeight old oldMem isDoomed
          rcases List.mem_append.mp oldMem with before | isRow
          · obtain ⟨oldApplied, known⟩ := sound.height_of_stored (List.mem_filter.mpr ⟨before, above⟩)
            have lower := sound.height_lt isChild oldApplied
            have same := known.symm.trans (oldHeight.trans (isHeight.symm.trans height))
            exact absurd (Option.some.inj same) (Nat.ne_of_lt lower)
          · exact otherHash (List.mem_singleton.mp isRow ▸ rowHash)
    simp only [Paging.stored, newRows, List.filter_filter]
    rw [List.filter_congr spared, List.filter_append, List.filter_singleton, isStored, cond_true]
  constructor
  · have whole : applied ++ [s.base] = applied.headD s.base :: (applied ++ [s.base]).tail := by
      cases applied <;> rfl
    have linked := sound.linked
    rw [whole] at linked
    rw [List.cons_append, whole]
    exact linked.cons isChild
  · rw [storedRows, List.map_append, sound.stored, List.reverse_cons, List.map_append]
    simp only [List.map_cons, List.map_nil, BlockRow.identity, rowHash, rowSlot, rowHeight, slot,
      height]
  · intro old oldMem
    rw [newRows, List.mem_filter, List.mem_append, List.mem_singleton] at oldMem
    rcases oldMem.1 with before | rfl
    · exact sound.slots old before
    · rw [rowSlot, slot, rowHash]
  · exact cursorHash
  · exact page.2
  · exact fun other otherMem => sound.pageData other (next ▸ List.mem_cons_of_mem _ otherMem)

/-- A recovery goes back to a stored block. -/
theorem PagingSound.recover (sound : PagingSound forks s applied) {point : ChainPoint}
    {leaseOwner : Option LeaseOwner} {now : Time} {db : Db} {indexer : Indexer}
    {ledgerInvalidated : Bool} {row : BlockRow} (rowMem : row ∈ (s.db.crawl .blocks).rows)
    (isPoint : row.hash = point.hash) (slot : point.slot = forks.tree.rank point.hash)
    (committed : handleReorgTx config s.db (some point) leaseOwner now =
      some (db, ledgerInvalidated)) :
    ∃ applied, PagingSound forks
      { db, indexer, page := []
        base := if point.slot ≤ forks.tree.rank s.base then point.hash else s.base } applied := by
  obtain ⟨tables, -, cursorHash⟩ := handleReorgTx_committed committed
  have rows := (congrArg Table.rows (congrFun tables CrawlTable.blocks)).trans
    (blocks_rollBackBlocks s.db.crawl point.slot)
  have slots : ∀ kept ∈ (db.crawl .blocks).rows,
      kept.slot = some (forks.tree.rank kept.hash) := by
    intro kept keptMem
    rw [rows] at keptMem
    exact sound.slots kept (List.mem_filter.mp keptMem).1
  by_cases below : point.slot ≤ forks.tree.rank s.base
  · rw [if_pos below]
    refine ⟨[], List.isChain_singleton _, ?_, slots, cursorHash, List.isChain_singleton _,
      fun _ member => absurd member List.not_mem_nil⟩
    have nothing : Paging.stored forks ⟨db, indexer, [], point.hash⟩ = [] := by
      rw [Paging.stored, rows, List.filter_filter]
      refine List.filter_eq_nil_iff.mpr fun kept _ late => ?_
      rw [slot, Bool.and_eq_true] at late
      rw [late.1] at late
      exact Bool.noConfusion late.2
    rw [nothing]
    rfl
  · rw [if_neg below]
    have above : forks.tree.rank s.base < forks.tree.rank row.hash := by
      rw [isPoint, ← slot]
      exact Nat.lt_of_not_le below
    have pointMem : point.hash ∈ applied := isPoint ▸ sound.mem_applied rowMem above
    obtain ⟨rest, cut, linked⟩ := sound.linked.upTo_eq (List.mem_append_left [s.base] pointMem)
    have split : forks.tree.upTo point.slot applied ++ [s.base] = point.hash :: rest := by
      rw [← cut, ← slot]
      simp only [ParentTree.upTo, List.filter_append]
      rw [List.filter_singleton, decide_eq_true (Nat.le_of_lt (Nat.lt_of_not_le below)), cond_true]
    have head : (forks.tree.upTo point.slot applied).headD s.base = point.hash := by
      have first := congrArg List.head? split
      cases kept : forks.tree.upTo point.slot applied with
      | nil => rw [kept] at first; exact Option.some.inj first
      | cons top others => rw [kept] at first; exact Option.some.inj first
    refine ⟨forks.tree.upTo point.slot applied, ?_, ?_, slots, ?_, ?_,
      fun _ member => absurd member List.not_mem_nil⟩
    · exact split ▸ linked
    · have stored : Paging.stored forks ⟨db, indexer, [], s.base⟩ =
          (s.stored forks).filter fun kept =>
            !kept.slot.any fun known => decide (point.slot < known) := by
        simp only [Paging.stored, rows, List.filter_filter, Bool.and_comm]
      have onIdentity := List.filter_map (f := BlockRow.identity) (l := s.stored forks)
        (p := fun identity => !identity.2.1.any fun known => decide (point.slot < known))
      rw [sound.stored, List.filter_map] at onIdentity
      rw [stored]
      refine onIdentity.symm.trans ?_
      rw [ParentTree.upTo, ← List.filter_reverse]
      refine congrArg _ (List.filter_congr fun hash _ => ?_)
      rw [Bool.eq_iff_iff]
      simp
    · rw [head]
      exact cursorHash
    · exact List.isChain_singleton _

theorem PagingStep.sound {s' : Paging}
    (step : PagingStep forks config forks.tree.Ancestor s s') (sound : PagingSound forks s applied) :
    ∃ applied, PagingSound forks s' applied := by
  -- a page as fetched goes on from the cursor
  have fetched {page : List BlockHash}
      (linked : (applied.headD s.base :: page).IsChain fun node child =>
        forks.tree.ChildOf child node) :
      PagingSound forks { s with page := page.map forks.data } applied := by
    have hashes : (page.map forks.data).map BlockData.hash = page := by
      rw [List.map_map]
      exact (List.map_congr_left fun hash _ => forks.data_hash hash).trans (List.map_id page)
    refine ⟨sound.linked, sound.stored, sound.slots, sound.cursor, hashes.symm ▸ linked, ?_⟩
    intro block blockMem
    obtain ⟨hash, -, rfl⟩ := List.mem_map.mp blockMem
    rw [forks.data_hash]
  cases step with
  | koiosPage afterHash answers count anchorFork listFork blocks cursor done answered page may =>
      obtain ⟨hashes, rfl, linked⟩ := answered.linked page may
      cases sound.cursor.symm.trans cursor
      exact ⟨applied, fetched linked⟩
  | blockfrostPage afterHash tip blocks cursor done onFork linked =>
      cases sound.cursor.symm.trans cursor
      exact ⟨applied, fetched linked⟩
  | persistBlock block rest txs epochData tip leaseOwner now db next complete committed =>
      exact ⟨_, sound.persistBlock next committed⟩
  | leavePage =>
      exact ⟨applied, sound.linked, sound.stored, sound.slots, sound.cursor,
        List.isChain_singleton _, nofun⟩
  | recover onChain ours point leaseOwner now db ledgerInvalidated done answered read found
      committed =>
      obtain ⟨height, row, block, isOurs, isOnChain, rowHash, blockHash, slot, -⟩ :=
        tryReorgRecovery_spec found
      have isData := (answered height block isOnChain).1
      rw [isData, forks.data_slot, blockHash] at slot
      exact sound.recover (read height row isOurs).1 rowHash (Option.some.inj slot).symm committed
  | other db indexer blocks cursorHash =>
      refine ⟨applied, sound.linked, ?_, ?_, cursorHash.trans sound.cursor, sound.page,
        sound.pageData⟩
      · rw [Paging.stored, blocks]
        exact sound.stored
      · rw [blocks]
        exact sound.slots

omit [Bech32] in
theorem Paging.Starts.sound {start : BlockHash} (starts : s.Starts forks start) :
    PagingSound forks s [] := by
  refine ⟨List.isChain_singleton _, ?_, fun row rowMem => (starts.below row rowMem).1, ?_, ?_, ?_⟩
  · have nothing : s.stored forks = [] := by
      refine List.filter_eq_nil_iff.mpr fun row rowMem above => ?_
      obtain ⟨slot, below⟩ := starts.below row rowMem
      rw [slot, starts.base] at above
      exact absurd below (Nat.not_le_of_lt (of_decide_eq_true above))
    rw [nothing]
    rfl
  · rw [starts.cursor, starts.base]
    rfl
  · rw [starts.noPage]
    exact List.isChain_singleton _
  · rw [starts.noPage]
    nofun

/-- Where each list of next blocks is answered from a fork that contains the cursor
block, the stored blocks are a chain from the start to the cursor: each one's
parent is the block stored before it, one height lower. -/
theorem paginated_chain {start : BlockHash} {first : Paging} (starts : first.Starts forks start)
    (run : Relation.ReflTransGen (PagingStep forks config forks.tree.Ancestor) first s) :
    s.Chained forks := by
  have sound : ∃ applied, PagingSound forks s applied := by
    induction run with
    | refl => exact ⟨[], starts.sound⟩
    | tail _ step ih => exact ih.elim fun _ sound => step.sound sound
  obtain ⟨applied, sound⟩ := sound
  exact sound.chained

end Steps

end Sound

/-! Two forks: `d` is on top of `a`, and `c`, at the same height, on top of `b`. -/

def forkedBlocks : BlockForks where
  tree :=
    { parent := fun hash =>
        if hash = text "c" then some (text "b") else if hash = text "d" then some (text "a") else none
      rank := fun hash =>
        if hash = text "c" then 30 else if hash = text "d" then 31 else if hash = text "b" then 21
        else 20
      rank_lt := by
        intro child node isParent
        split at isParent
        · rename_i isC
          cases isParent
          rw [isC]
          decide
        · split at isParent
          · rename_i isD
            cases isParent
            rw [isD]
            decide
          · cases isParent }
  height := fun hash => if hash = text "c" ∨ hash = text "d" then 3 else 2
  height_child := by
    intro child node isParent
    simp only [ParentTree.ChildOf] at isParent
    split at isParent
    · rename_i isC
      cases isParent
      rw [isC]
      decide
    · split at isParent
      · rename_i isD
        cases isParent
        rw [isD]
        decide
      · cases isParent
  data := fun hash =>
    { sampleBlock hash
        (if hash = text "c" then 30 else if hash = text "d" then 31 else if hash = text "b" then 21
          else 20) 0 with
      height := some (if hash = text "c" ∨ hash = text "d" then 3 else 2) }
  data_hash _ := rfl
  data_slot _ := rfl
  data_height _ := rfl

/-- A crawler at `a`. -/
def pagingStart : Paging where
  db := ⟨CrawlStore.empty, LedgerDb.empty, SyncState.initial "preview" (some ⟨20, text "a", some 2⟩)⟩
  indexer := ⟨⟨true, true⟩, false, none, false, none, none⟩
  page := []
  base := text "a"

theorem pagingStart_starts : pagingStart.Starts forkedBlocks (text "a") :=
  ⟨rfl, rfl, rfl, fun _ rowMem => absurd rowMem List.not_mem_nil⟩

/-- The anchor check finds `a`, and the list above it holds one block. -/
def oneBlockAnswers (hash : BlockHash) : KoiosAnswers where
  canonical height := if height = 2 then some (text "a") else none
  anchorInfo := none
  listed height := if height = 2 then [hash] else []
  blockInfo requested := (distinct requested).map forkedBlocks.data

theorem oneBlockAnswers_ofForks {hash : BlockHash} (height : forkedBlocks.height hash = 3) :
    (oneBlockAnswers hash).OfForks forkedBlocks (text "a") 10 (text "a") hash where
  canonical height canonicalHash isCanonical := by
    simp only [oneBlockAnswers, Option.ite_none_right_eq_some, Option.some.injEq] at isCanonical
    obtain ⟨rfl, rfl⟩ := isCanonical
    exact ⟨Relation.ReflTransGen.refl, by decide⟩
  anchorInfo := nofun
  listed := by
    intro height
    simp only [oneBlockAnswers]
    split
    · rename_i isTwo
      refine ⟨?_, List.isChain_singleton _, ?_, Nat.le_add_left 1 9⟩
      · intro other otherMem
        rw [List.mem_singleton.mp otherMem]
        exact Relation.ReflTransGen.refl
      · rintro _ ⟨⟩
        rw [isTwo]
        assumption
    · exact ⟨nofun, List.isChain_nil, nofun, Nat.zero_le _⟩
  known requested info infoMem := by
    obtain ⟨other, otherMem, rfl⟩ := List.mem_map.mp infoMem
    exact ⟨mem_distinct.mp otherMem, rfl⟩
  once requested := by
    have hashes : ((distinct requested).map forkedBlocks.data).map BlockData.hash =
        distinct requested := by
      rw [List.map_map]
      exact (List.map_congr_left fun _ _ => rfl).trans (List.map_id _)
    exact hashes ▸ distinct_nodup requested

section Sample

attribute [local instance] byronBech32

/-- The crawler fetches the one block above `a` and stores it. -/
theorem pagingStart_run {allowed : BlockHash → BlockHash → Prop} {hash : BlockHash}
    (isOne : hash = text "c" ∨ hash = text "d") (may : allowed (text "a") hash) :
    ∃ s, Relation.ReflTransGen (PagingStep forkedBlocks ⟨none, none, none⟩ allowed) pagingStart s ∧
      s.base = text "a" ∧ (s.stored forkedBlocks).map BlockRow.hash = [hash] := by
  have height : forkedBlocks.height hash = 3 := by
    rcases isOne with rfl | rfl <;> rfl
  have page : (oneBlockAnswers hash).getNextBlocks (text "a") (some 2) =
      .ok [forkedBlocks.data hash] := by
    rcases isOne with rfl | rfl <;> decide +kernel
  have fetch : PagingStep forkedBlocks ⟨none, none, none⟩ allowed pagingStart
      { pagingStart with page := [forkedBlocks.data hash] } :=
    .koiosPage _ (text "a") (oneBlockAnswers hash) 10 (text "a") hash _ rfl rfl
      (oneBlockAnswers_ofForks height) page may
  refine ⟨_, (Relation.ReflTransGen.refl.tail fetch).tail
    (.persistBlock _ (forkedBlocks.data hash) [] [] none none none 0 _ rfl rfl rfl), rfl, ?_⟩
  rcases isOne with rfl | rfl <;> decide +kernel

theorem paginated_chain_sample :
    ∃ s : Paging, (s.stored forkedBlocks).map BlockRow.hash = [text "d"] ∧
      s.Chained forkedBlocks := by
  have onFork : forkedBlocks.tree.Ancestor (text "a") (text "d") :=
    Relation.ReflTransGen.single rfl
  obtain ⟨s, run, -, stored⟩ := pagingStart_run (Or.inr rfl) onFork
  exact ⟨s, stored, paginated_chain pagingStart_starts run⟩

/-- Between the anchor check and the list the provider switches to the fork of
`c`, whose parent `b` is not the cursor block. -/
theorem paginated_mixed :
    ∃ s, Relation.ReflTransGen
        (PagingStep forkedBlocks ⟨none, none, none⟩ fun _ _ => True) pagingStart s ∧
      ¬ s.Chained forkedBlocks := by
  obtain ⟨s, run, base, stored⟩ := @pagingStart_run (fun _ _ => True) _ (Or.inl rfl) trivial
  refine ⟨s, run, fun chained => ?_⟩
  have linked := chained.linked
  rw [stored, base, List.isChain_cons_cons] at linked
  have isParent : forkedBlocks.tree.parent (text "c") = some (text "a") := linked.1
  exact absurd isParent (by decide)

end Sample

end Odatano
