import Odatano.IngestSources
import Odatano.StoredBlocks

/-!
# Callbacks that commit in time keep the order

What holds of the store and of the callbacks in flight.  Each step keeps it when
callbacks commit in time, so every block is applied on top of its parent.
-/

namespace Odatano

/-! ## The store -/

/-- The store holds a path of the block tree, and the cursor is at its end. -/
structure StoreSound (tree : ParentTree BlockHash) (base : BlockHash) (db : Db)
    (applied : List BlockHash) : Prop where
  linked : tree.Path (applied ++ [base])
  cursor : db.sync.lastBlockHash = some (applied.headD base)
  cursorSlot : db.sync.lastSlot = tree.rank (applied.headD base)
  stored : ∀ row ∈ (db.crawl .blocks).rows, ∀ slot, row.slot = some slot → tree.rank base < slot →
    row.hash ∈ applied ∧ slot = tree.rank row.hash

theorem head?_append_base (applied : List BlockHash) (base : BlockHash) :
    (applied ++ [base]).head? = some (applied.headD base) := by
  cases applied <;> rfl

section Store

variable [Bech32] {tree : ParentTree BlockHash} {config : CrawlStart} {base : BlockHash}
  {db stored : Db} {applied : List BlockHash}

omit [Bech32] in
theorem StoreSound.ancestor_of_mem (sound : StoreSound tree base db applied) {hash : BlockHash}
    (hashMem : hash ∈ applied ++ [base]) : tree.Ancestor hash (applied.headD base) := by
  obtain ⟨rest, restEq⟩ := List.head?_eq_some_iff.mp (head?_append_base applied base)
  have linked := sound.linked
  rw [restEq] at linked hashMem
  exact linked.ancestor_of_mem hashMem

/-- A block on top of the cursor keeps the store sound. -/
theorem StoreSound.commitBlock (sound : StoreSound tree base db applied)
    {indexer indexer' : Indexer} {message : RollForward} {leaseOwner : Option LeaseOwner}
    {now : Time}
    (committed : persistBlockTx indexer db message.block message.txs message.epochData message.tip
      leaseOwner now = (indexer', some stored))
    (child : tree.ChildOf message.block.hash (applied.headD base))
    (slot : message.block.slot = some (tree.rank message.block.hash)) :
    StoreSound tree base stored (message.block.hash :: applied) := by
  have attempt := congrArg Prod.snd committed
  obtain ⟨tables, cursorSlot, cursorHash⟩ := persistBlockTx_committed attempt
  constructor
  · exact sound.linked.child child
  · exact cursorHash
  · rw [cursorSlot, BlockData.slotOrZero, slot, Option.getD_some, List.headD_cons]
  · intro row rowMem rowSlot known above
    rw [tables] at rowMem
    rcases mem_blocks_indexBlock rowMem with identity | ⟨old, -⟩
    · have hash : row.hash = message.block.hash := congrArg Prod.fst identity
      have own : row.slot = message.block.slot := congrArg (·.2.1) identity
      rw [known, slot] at own
      rw [hash]
      exact ⟨List.mem_cons_self, Option.some.inj own⟩
    · obtain ⟨rowApplied, rank⟩ := sound.stored row old rowSlot known above
      exact ⟨List.mem_cons_of_mem _ rowApplied, rank⟩

omit [Bech32] in
/-- The part of the path up to one of its ancestors ends at that ancestor. -/
theorem StoreSound.upTo (sound : StoreSound tree base db applied) {point : ChainPoint}
    (slot : point.slot = tree.rank point.hash)
    (ancestor : tree.Ancestor point.hash (applied.headD base)) :
    tree.Path (tree.upTo point.slot applied ++
        [if point.slot < tree.rank base then point.hash else base]) ∧
      (tree.upTo point.slot applied).headD
        (if point.slot < tree.rank base then point.hash else base) = point.hash := by
  have decreases := sound.linked.ranks_decrease
  have aboveBase : ∀ hash ∈ applied, tree.rank base < tree.rank hash := fun hash hashMem =>
    (List.pairwise_append.mp decreases).2.2 hash hashMem base (List.mem_singleton_self base)
  by_cases below : point.slot < tree.rank base
  · have nothing : tree.upTo point.slot applied = [] := by
      rw [ParentTree.upTo, List.filter_eq_nil_iff]
      intro hash hashMem
      have higher := aboveBase hash hashMem
      simp only [decide_eq_true_eq]
      omega
    rw [nothing, if_pos below]
    exact ⟨List.isChain_singleton _, rfl⟩
  · rw [if_neg below]
    have onPath : point.hash ∈ applied ++ [base] :=
      (sound.linked.mem_or_ancestor (head?_append_base applied base) ancestor).resolve_right
        (by omega)
    obtain ⟨rest, cut, isPath⟩ := sound.linked.upTo_eq onPath
    have cutEq : tree.upTo (tree.rank point.hash) (applied ++ [base]) =
        tree.upTo point.slot applied ++ [base] := by
      have baseKept : tree.rank base ≤ tree.rank point.hash := by omega
      rw [slot]
      simp [ParentTree.upTo, List.filter_append, baseKept]
    rw [cutEq] at cut
    refine ⟨cut ▸ isPath, ?_⟩
    have head := head?_append_base (tree.upTo point.slot applied) base
    rw [cut, List.head?_cons] at head
    exact (Option.some.inj head).symm

/-- A rollback to an ancestor of the cursor keeps the store sound. -/
theorem StoreSound.commitReorg (sound : StoreSound tree base db applied) {point : ChainPoint}
    {leaseOwner : Option LeaseOwner} {now : Time} {ledgerInvalidated : Bool}
    (committed : handleReorgTx config db (some point) leaseOwner now =
      some (stored, ledgerInvalidated))
    (slot : point.slot = tree.rank point.hash)
    (ancestor : tree.Ancestor point.hash (applied.headD base)) :
    StoreSound tree (if point.slot < tree.rank base then point.hash else base) stored
      (tree.upTo point.slot applied) := by
  obtain ⟨tables, cursorSlot, cursorHash⟩ := handleReorgTx_committed committed
  obtain ⟨isPath, tip⟩ := sound.upTo slot ancestor
  constructor
  · exact isPath
  · rw [cursorHash, tip]
  · rw [cursorSlot, tip, slot]
  · intro row rowMem rowSlot known above
    rw [tables, rollBackBlocks_fst] at rowMem
    obtain ⟨old, spared⟩ := TableFamily.mem_delete.mp rowMem
    have notStale : row.hash ∉ staleBlocks db.crawl point.slot := by
      simpa only [deletesOwned, CrawlTable.owner, CrawlTable.key, decide_eq_false_iff_not]
        using spared
    have early : rowSlot ≤ point.slot := by
      by_contra late
      exact notStale (mem_staleBlocks_of_late old known (Nat.lt_of_not_le late))
    split at above
    · omega
    · obtain ⟨rowApplied, rank⟩ := sound.stored row old rowSlot known above
      refine ⟨List.mem_filter.mpr ⟨rowApplied, ?_⟩, rank⟩
      rw [decide_eq_true_eq, ← rank]
      exact early

end Store

/-! ## The callbacks in flight -/

/-- What a callback is about to do to the store. -/
def JobSound (tree : ParentTree BlockHash) (ingest : Ingest) (c : Callback) : Prop :=
  match c.job with
  | .persist message =>
      message.block.slot = some (tree.rank message.block.hash) ∧ c.source ≤ ingest.lastChecked ∧
        (ingest.lastChecked ≤ c.source → tree.ChildOf message.block.hash ingest.tip)
  | .check point | .reorg point =>
      point.slot = tree.rank point.hash ∧
        (c.source = ingest.lastRead → tree.Ancestor point.hash ingest.tip)

/-- Where the open source stands. -/
structure SourceSound (tree : ParentTree BlockHash) (ingest : Ingest) (source : Source) :
    Prop where
  last : source.id = ingest.lastRead
  slot : source.point.slot = tree.rank source.point.hash
  unchecked : source.checked = false →
    ingest.lastChecked < source.id ∧ tree.Ancestor source.point.hash ingest.tip
  checked : source.checked = true →
    ingest.lastChecked = source.id ∧ (¬ ingest.Busy source.id → source.point.hash = ingest.tip)
  target : ∀ c ∈ ingest.callbacks, c.source = source.id → c.job.target = source.point.hash

/-- The invariant of the ingest loop. -/
structure IngestSound (tree : ParentTree BlockHash) (ingest : Ingest) : Prop where
  store : StoreSound tree ingest.base ingest.db ingest.applied
  distinct : (ingest.callbacks.map Callback.source).Nodup
  known : ∀ c ∈ ingest.callbacks, c.source ≤ ingest.lastRead
  checkedRead : ingest.lastChecked ≤ ingest.lastRead
  jobs : ∀ c ∈ ingest.callbacks, JobSound tree ingest c
  source : ∀ source, ingest.source = some source → SourceSound tree ingest source

theorem Ingest.mem_settle {ingest : Ingest} {id : Nat} {c : Callback} :
    c ∈ ingest.settle id ↔ c ∈ ingest.callbacks ∧ c.source ≠ id := by
  simp [Ingest.settle]

section Invariant

variable {tree : ParentTree BlockHash} {ingest : Ingest}

theorem IngestSound.begins (starts : ingest.Starts tree) : IngestSound tree ingest := by
  have tip : ingest.applied.headD ingest.base = ingest.base := by
    rw [starts.nothingApplied, List.headD_nil]
  refine ⟨⟨?_, ?_, ?_, ?_⟩, ?_, ?_, starts.notRead.le, ?_, ?_⟩
  · rw [starts.nothingApplied]
    exact List.isChain_singleton _
  · rw [tip, starts.cursor]
  · rw [tip, starts.cursorSlot]
  · intro row rowMem slot known above
    have low := starts.stored row rowMem slot known
    omega
  · simp [starts.idle]
  · simp [starts.idle]
  · simp [starts.idle]
  · simp [starts.noSource]

theorem IngestSound.settle_distinct (sound : IngestSound tree ingest) (id : Nat) :
    ((ingest.settle id).map Callback.source).Nodup :=
  (List.filter_sublist.map _).nodup sound.distinct

/-- A source that starts has a number no callback has. -/
theorem IngestSound.openStream (sound : IngestSound tree ingest) {point : ChainPoint}
    (slot : point.slot = tree.rank point.hash) (ancestor : tree.Ancestor point.hash ingest.tip) :
    IngestSound tree (ingest.openSource .chainSync point) where
  store := sound.store
  distinct := sound.distinct
  known c inFlight := (sound.known c inFlight).trans (Nat.le_succ _)
  checkedRead := sound.checkedRead.trans (Nat.le_succ _)
  jobs c inFlight := by
    have old := sound.jobs c inFlight
    have number := sound.known c inFlight
    unfold JobSound at old ⊢
    split at old
    · exact old
    all_goals
      refine ⟨old.1, fun last => ?_⟩
      change c.source = ingest.lastRead + 1 at last
      omega
  source source opened := by
    cases Option.some.inj opened
    refine ⟨rfl, slot, fun _ => ⟨Nat.lt_succ_of_le sound.checkedRead, ancestor⟩, nofun, ?_⟩
    intro c inFlight same
    have number := sound.known c inFlight
    change c.source = ingest.lastRead + 1 at same
    omega

theorem IngestSound.openPagination (sound : IngestSound tree ingest) {hash : BlockHash}
    (cursor : ingest.db.sync.lastBlockHash = some hash) :
    IngestSound tree ((ingest.openSource .pagination ⟨ingest.db.sync.lastSlot, hash, none⟩).markChecked
      (ingest.lastRead + 1)) where
  store := sound.store
  distinct := sound.distinct
  known c inFlight := (sound.known c inFlight).trans (Nat.le_succ _)
  checkedRead := max_le (sound.checkedRead.trans (Nat.le_succ _)) le_rfl
  jobs c inFlight := by
    have old := sound.jobs c inFlight
    have number := sound.known c inFlight
    have checkedRead := sound.checkedRead
    unfold JobSound at old ⊢
    have marked : ((ingest.openSource .pagination ⟨ingest.db.sync.lastSlot, hash, none⟩).markChecked
        (ingest.lastRead + 1)).lastChecked = ingest.lastRead + 1 :=
      max_eq_right (checkedRead.trans (Nat.le_succ _))
    split at old
    · refine ⟨old.1, by omega, fun late => ?_⟩
      omega
    all_goals
      refine ⟨old.1, fun last => ?_⟩
      change c.source = ingest.lastRead + 1 at last
      omega
  source source opened := by
    have tip : hash = ingest.tip := Option.some.inj (cursor.symm.trans sound.store.cursor)
    have isNew : source = ⟨ingest.lastRead + 1, .pagination,
        ⟨ingest.db.sync.lastSlot, hash, none⟩, true⟩ := by
      simpa [Ingest.markChecked, Ingest.openSource] using opened.symm
    subst isNew
    refine ⟨rfl, ?_, nofun, fun _ => ⟨?_, fun _ => tip⟩, ?_⟩
    · change ingest.db.sync.lastSlot = tree.rank hash
      rw [sound.store.cursorSlot, tip, Ingest.tip]
    · exact max_eq_right (sound.checkedRead.trans (Nat.le_succ _))
    · intro c inFlight same
      have number := sound.known c inFlight
      change c.source = ingest.lastRead + 1 at same
      omega

/-- A source without a callback in flight delivers a job. -/
theorem IngestSound.deliver (sound : IngestSound tree ingest) {source : Source}
    {point : ChainPoint} {job : IngestJob} (live : ingest.source = some source)
    (ready : ¬ ingest.Busy source.id) (slot : point.slot = tree.rank point.hash)
    (target : job.target = point.hash) (jobSound : JobSound tree ingest ⟨source.id, job⟩)
    (unchecked : source.checked = false → tree.Ancestor point.hash ingest.tip) :
    IngestSound tree (ingest.deliver source point job) := by
  have old := sound.source source live
  refine ⟨sound.store, ?_, ?_, sound.checkedRead, ?_, ?_⟩
  · simp only [Ingest.deliver, List.map_append, List.map_cons, List.map_nil]
    refine List.nodup_append.mpr ⟨sound.distinct, List.nodup_singleton _, ?_⟩
    intro id idMem other otherMem same
    obtain ⟨c, inFlight, rfl⟩ := List.mem_map.mp idMem
    exact ready ⟨c, inFlight, same.trans (List.mem_singleton.mp otherMem)⟩
  · intro c inFlight
    rcases List.mem_append.mp inFlight with earlier | added
    · exact sound.known c earlier
    · rw [List.mem_singleton.mp added]
      exact old.last.le
  · intro c inFlight
    rcases List.mem_append.mp inFlight with earlier | added
    · exact sound.jobs c earlier
    · rw [List.mem_singleton.mp added]
      exact jobSound
  · intro current opened
    cases Option.some.inj opened
    refine ⟨old.last, slot, fun notChecked => ⟨(old.unchecked notChecked).1, unchecked notChecked⟩,
      fun isChecked => ⟨(old.checked isChecked).1, fun idle => ?_⟩, ?_⟩
    · exact absurd ⟨_, List.mem_append_right _ (List.mem_singleton_self _), rfl⟩ idle
    · intro c inFlight same
      rcases List.mem_append.mp inFlight with earlier | added
      · exact absurd ⟨c, earlier, same⟩ ready
      · rw [List.mem_singleton.mp added]
        exact target

/-- The source that is open is ended. -/
theorem IngestSound.endSource (sound : IngestSound tree ingest) (next : NextSource) :
    IngestSound tree { ingest with source := none, next } :=
  ⟨sound.store, sound.distinct, sound.known, sound.checkedRead, sound.jobs, nofun⟩

/-- Nothing but the store and the next source is other. -/
theorem IngestSound.withDb (sound : IngestSound tree ingest) {db : Db}
    (store : StoreSound tree ingest.base db ingest.applied) (indexer : Indexer)
    (next : NextSource) : IngestSound tree { ingest with db, indexer, next } where
  store
  distinct := sound.distinct
  known := sound.known
  checkedRead := sound.checkedRead
  jobs := sound.jobs
  source source live := by
    obtain ⟨last, slot, unchecked, checked, target⟩ := sound.source source live
    exact ⟨last, slot, unchecked, checked, target⟩

/-- A callback of an ended source gives up. -/
theorem IngestSound.abandon (sound : IngestSound tree ingest) {c : Callback}
    (orphaned : ∀ source, ingest.source = some source → source.id ≠ c.source) :
    IngestSound tree { ingest with callbacks := ingest.settle c.source } where
  store := sound.store
  distinct := sound.settle_distinct _
  known other inFlight := sound.known other (Ingest.mem_settle.mp inFlight).1
  checkedRead := sound.checkedRead
  jobs other inFlight := sound.jobs other (Ingest.mem_settle.mp inFlight).1
  source source live := by
    have old := sound.source source live
    refine ⟨old.last, old.slot, old.unchecked,
      fun isChecked => ⟨(old.checked isChecked).1, fun idle => ?_⟩,
      fun other inFlight => old.target other (Ingest.mem_settle.mp inFlight).1⟩
    refine (old.checked isChecked).2 fun ⟨other, inFlight, same⟩ => idle ⟨other, ?_, same⟩
    exact Ingest.mem_settle.mpr ⟨inFlight, same ▸ orphaned source live⟩

/-- A point that is not the cursor's is rolled back to. -/
theorem IngestSound.mismatch (sound : IngestSound tree ingest) {c : Callback} {point : ChainPoint}
    (inFlight : c ∈ ingest.callbacks) (job : c.job = .check point) :
    IngestSound tree
      { ingest with callbacks := ingest.settle c.source ++ [⟨c.source, .reorg point⟩] } := by
  have checkSound := sound.jobs c inFlight
  simp only [JobSound, job] at checkSound
  refine ⟨sound.store, ?_, ?_, sound.checkedRead, ?_, ?_⟩
  · simp only [List.map_append, List.map_cons, List.map_nil]
    refine List.nodup_append.mpr ⟨sound.settle_distinct _, List.nodup_singleton _, ?_⟩
    intro id idMem other otherMem same
    obtain ⟨kept, keptMem, rfl⟩ := List.mem_map.mp idMem
    exact (Ingest.mem_settle.mp keptMem).2 (same.trans (List.mem_singleton.mp otherMem))
  · intro other otherMem
    rcases List.mem_append.mp otherMem with kept | added
    · exact sound.known other (Ingest.mem_settle.mp kept).1
    · rw [List.mem_singleton.mp added]
      exact sound.known c inFlight
  · intro other otherMem
    rcases List.mem_append.mp otherMem with kept | added
    · exact sound.jobs other (Ingest.mem_settle.mp kept).1
    · rw [List.mem_singleton.mp added]
      exact checkSound
  · intro source live
    have old := sound.source source live
    refine ⟨old.last, old.slot, old.unchecked,
      fun isChecked => ⟨(old.checked isChecked).1, fun idle => ?_⟩, ?_⟩
    · refine (old.checked isChecked).2 fun ⟨other, otherMem, same⟩ => idle ?_
      by_cases own : other.source = c.source
      · exact ⟨_, List.mem_append_right _ (List.mem_singleton_self _), own.symm.trans same⟩
      · exact ⟨other, List.mem_append_left _ (Ingest.mem_settle.mpr ⟨otherMem, own⟩), same⟩
    · intro other otherMem same
      rcases List.mem_append.mp otherMem with kept | added
      · exact old.target other (Ingest.mem_settle.mp kept).1 same
      · rw [List.mem_singleton.mp added] at same ⊢
        have target := old.target c inFlight same
        rw [job] at target
        exact target

/-- The source of a callback that is done. -/
theorem IngestSound.markChecked_source (sound : IngestSound tree ingest) {c : Callback}
    {point : ChainPoint} {source : Source} (inFlight : c ∈ ingest.callbacks)
    (target : c.job.target = point.hash)
    (live : (ingest.markChecked c.source).source = some source) :
    source.id = ingest.lastRead ∧ source.point.slot = tree.rank source.point.hash ∧
      (∀ other ∈ ingest.callbacks, other.source = source.id →
        other.job.target = source.point.hash) ∧
      ((source.id = c.source ∧ source.checked = true ∧ source.point.hash = point.hash) ∨
        (source.id ≠ c.source ∧ ingest.source = some source)) := by
  obtain ⟨before, opened, marked⟩ := Option.map_eq_some_iff.mp live
  have old := sound.source before opened
  by_cases own : before.id = c.source
  · rw [if_pos own] at marked
    subst marked
    refine ⟨old.last, old.slot, old.target, Or.inl ⟨own, rfl, ?_⟩⟩
    exact (old.target c inFlight own.symm).symm.trans target
  · rw [if_neg own] at marked
    subst marked
    exact ⟨old.last, old.slot, old.target, Or.inr ⟨own, opened⟩⟩

/-- The position of a source turns out to be the cursor. -/
theorem IngestSound.acknowledge (sound : IngestSound tree ingest) {c : Callback}
    {point : ChainPoint} (inFlight : c ∈ ingest.callbacks) (job : c.job = .check point)
    (atCursor : ingest.db.sync.lastBlockHash = some point.hash) :
    IngestSound tree
      { ingest.markChecked c.source with callbacks := ingest.settle c.source } where
  store := sound.store
  distinct := sound.settle_distinct _
  known other otherMem := sound.known other (Ingest.mem_settle.mp otherMem).1
  checkedRead := max_le sound.checkedRead (sound.known c inFlight)
  jobs other otherMem := by
    have old := sound.jobs other (Ingest.mem_settle.mp otherMem).1
    unfold JobSound at old ⊢
    split at old
    · exact ⟨old.1, old.2.1.trans (le_max_left _ _),
        fun late => old.2.2 ((le_max_left _ _).trans late)⟩
    all_goals exact old
  source source live := by
    have tip : point.hash = ingest.tip :=
      Option.some.inj (atCursor.symm.trans sound.store.cursor)
    have target : c.job.target = point.hash := by rw [job]; rfl
    have number := sound.known c inFlight
    have checkedRead := sound.checkedRead
    obtain ⟨last, slot, targets, own | ⟨notOwn, opened⟩⟩ :=
      sound.markChecked_source inFlight target live
    · obtain ⟨id, isChecked, at_point⟩ := own
      refine ⟨last, slot, ?_, fun _ => ⟨?_, fun _ => at_point.trans tip⟩,
        fun other otherMem => targets other (Ingest.mem_settle.mp otherMem).1⟩
      · rw [isChecked]
        nofun
      · change max ingest.lastChecked c.source = source.id
        omega
    · have old := sound.source source opened
      refine ⟨last, slot, fun notChecked => ⟨?_, (old.unchecked notChecked).2⟩,
        fun isChecked => ⟨?_, fun idle => (old.checked isChecked).2 ?_⟩,
        fun other otherMem => targets other (Ingest.mem_settle.mp otherMem).1⟩
      · have earlier := (old.unchecked notChecked).1
        change max ingest.lastChecked c.source < source.id
        omega
      · have same := (old.checked isChecked).1
        change max ingest.lastChecked c.source = source.id
        omega
      · rintro ⟨other, otherMem, same⟩
        exact idle ⟨other, Ingest.mem_settle.mpr ⟨otherMem, same ▸ notOwn⟩, same⟩

end Invariant

section Commits

variable [Bech32] {tree : ParentTree BlockHash} {config : CrawlStart} {ingest : Ingest}

/-- A block that commits before a later source checked its position. -/
theorem IngestSound.commitBlock (sound : IngestSound tree ingest) {c : Callback}
    {message : RollForward} {leaseOwner : Option LeaseOwner} {now : Time} {indexer : Indexer}
    {db : Db} (memory : Indexer) (blocks : Nat) (inFlight : c ∈ ingest.callbacks)
    (job : c.job = .persist message) (inTime : ingest.lastChecked ≤ c.source)
    (committed : persistBlockTx ingest.indexer ingest.db message.block message.txs
      message.epochData message.tip leaseOwner now = (indexer, some db)) :
    IngestSound tree
      { ingest with
        db
        indexer := memory
        applied := message.block.hash :: ingest.applied
        callbacks := ingest.settle c.source
        blocksThisStream := blocks } := by
  have jobSound := sound.jobs c inFlight
  simp only [JobSound, job] at jobSound
  obtain ⟨slot, checked, isChild⟩ := jobSound
  have child := isChild inTime
  have own : ∀ other ∈ ingest.settle c.source, other ∈ ingest.callbacks ∧
      other.source ≠ c.source := fun other => Ingest.mem_settle.mp
  refine ⟨sound.store.commitBlock committed child slot, sound.settle_distinct _,
    fun other otherMem => sound.known other (own other otherMem).1, sound.checkedRead, ?_, ?_⟩
  · intro other otherMem
    obtain ⟨old, ne⟩ := own other otherMem
    have oldSound := sound.jobs other old
    unfold JobSound at oldSound ⊢
    split at oldSound
    · -- only callbacks of the source checked last may commit a block
      refine ⟨oldSound.1, oldSound.2.1, fun late => ?_⟩
      change ingest.lastChecked ≤ other.source at late
      omega
    all_goals exact ⟨oldSound.1, fun last => (oldSound.2 last).tail child⟩
  · intro source live
    have old := sound.source source live
    refine ⟨old.last, old.slot, fun notChecked => ?_, fun isChecked => ?_,
      fun other otherMem => old.target other (own other otherMem).1⟩
    · exact ⟨(old.unchecked notChecked).1, (old.unchecked notChecked).2.tail child⟩
    · refine ⟨(old.checked isChecked).1, fun _ => ?_⟩
      have same : c.source = source.id := by
        have := (old.checked isChecked).1
        omega
      have target := old.target c inFlight same
      rw [job] at target
      exact target.symm

/-- A rollback that commits before a later source read the cursor. -/
theorem IngestSound.commitReorg (sound : IngestSound tree ingest) {c : Callback}
    {point : ChainPoint} {leaseOwner : Option LeaseOwner} {now : Time} {db : Db}
    {ledgerInvalidated : Bool} (memory : Indexer) (inFlight : c ∈ ingest.callbacks)
    (job : c.job = .reorg point) (inTime : c.source = ingest.lastRead)
    (committed : handleReorgTx config ingest.db (some point) leaseOwner now =
      some (db, ledgerInvalidated)) :
    IngestSound tree
      { (ingest.markChecked c.source).cutAt tree point with
        db
        indexer := memory
        callbacks := ingest.settle c.source } := by
  have jobSound := sound.jobs c inFlight
  simp only [JobSound, job] at jobSound
  obtain ⟨pointSlot, isAncestor⟩ := jobSound
  have ancestor := isAncestor inTime
  have checkedRead := sound.checkedRead
  have own : ∀ other ∈ ingest.settle c.source, other ∈ ingest.callbacks ∧
      other.source ≠ c.source := fun other => Ingest.mem_settle.mp
  refine ⟨sound.store.commitReorg committed pointSlot ancestor, sound.settle_distinct _,
    fun other otherMem => sound.known other (own other otherMem).1,
    max_le checkedRead inTime.le, ?_, ?_⟩
  · intro other otherMem
    obtain ⟨old, ne⟩ := own other otherMem
    have oldSound := sound.jobs other old
    have number := sound.known other old
    unfold JobSound at oldSound ⊢
    split at oldSound
    · refine ⟨oldSound.1, oldSound.2.1.trans (le_max_left _ _), fun late => ?_⟩
      change max ingest.lastChecked c.source ≤ other.source at late
      omega
    all_goals exact ⟨oldSound.1, fun last => absurd (last.trans inTime.symm) ne⟩
  · intro source live
    have target : c.job.target = point.hash := by rw [job]; rfl
    obtain ⟨last, slot, targets, ⟨id, isChecked, atPoint⟩ | ⟨notOwn, -⟩⟩ :=
      sound.markChecked_source inFlight target live
    · refine ⟨last, slot, ?_, fun _ => ⟨?_, fun _ => ?_⟩,
        fun other otherMem => targets other (own other otherMem).1⟩
      · rw [isChecked]
        nofun
      · change max ingest.lastChecked c.source = source.id
        omega
      · rw [atPoint]
        exact (sound.store.upTo pointSlot ancestor).2.symm
    · exact absurd (last.trans inTime.symm) notOwn

/-- Each step of the ingest loop keeps the invariant. -/
theorem IngestStep.sound {later : Ingest} (sound : IngestSound tree ingest)
    (step : IngestStep tree config CommitsInTime ingest later) : IngestSound tree later := by
  cases step with
  | openStream point idle due offered slot settled =>
      refine sound.openStream slot ?_
      rcases mem_buildIntersectionPoints offered with ⟨-, cursor⟩ | ⟨row, rowMem, hash, known⟩ | start
      · rw [Option.some.inj (cursor.symm.trans sound.store.cursor), Ingest.tip]
        exact Relation.ReflTransGen.refl
      · by_cases low : point.slot ≤ tree.rank ingest.base
        · exact settled (Or.inl low)
        · obtain ⟨onPath, -⟩ := sound.store.stored row rowMem _ known (Nat.lt_of_not_le low)
          rw [← hash]
          exact sound.store.ancestor_of_mem (List.mem_append_left _ onPath)
      · exact settled (Or.inr start)
  | handshake source live unchecked ready =>
      have old := sound.source source live
      obtain ⟨-, ancestor⟩ := old.unchecked unchecked
      exact sound.deliver live ready old.slot rfl ⟨old.slot, fun _ => ancestor⟩ fun _ => ancestor
  | rollForward source message live checked ready child slot =>
      obtain ⟨current, atTip⟩ := (sound.source source live).checked checked
      refine sound.deliver live ready ?_ rfl ⟨slot, current.ge, fun _ => ?_⟩ ?_
      · rw [BlockData.point, BlockData.slotOrZero, slot, Option.getD_some]
      · rw [← atTip ready]
        exact child
      · rw [checked]
        exact fun unchecked => Bool.noConfusion unchecked
  | rollBackward source point live stream checked ready ancestor slot =>
      obtain ⟨-, atTip⟩ := (sound.source source live).checked checked
      rw [atTip ready] at ancestor
      exact sound.deliver live ready slot rfl ⟨slot, fun _ => ancestor⟩ fun _ => ancestor
  | openPagination hash idle due cursor => exact sound.openPagination cursor
  | recover source point live pages checked ready ancestor slot =>
      obtain ⟨-, atTip⟩ := (sound.source source live).checked checked
      rw [atTip ready] at ancestor
      exact sound.deliver live ready slot rfl ⟨slot, fun _ => ancestor⟩ fun _ => ancestor
  | endRound source next => exact sound.endSource next
  | endStream source next => exact sound.endSource next
  | halt => exact sound.endSource .stopped
  | restart => exact sound.withDb sound.store ingest.indexer .chainSync
  | acknowledge c point inFlight job atCursor => exact sound.acknowledge inFlight job atCursor
  | mismatch c point inFlight job offCursor => exact sound.mismatch inFlight job
  | commitBlock c message leaseOwner now indexer db inFlight job complete permitted committed =>
      simp only [CommitsInTime, job] at permitted
      exact sound.commitBlock _ _ inFlight job permitted committed
  | commitReorg c point leaseOwner now db ledgerInvalidated inFlight job permitted committed =>
      simp only [CommitsInTime, job] at permitted
      exact sound.commitReorg _ inFlight job permitted committed
  | abandon c inFlight orphaned => exact sound.abandon orphaned
  | other db indexer tables cursorSlot cursorHash =>
      have store : StoreSound tree ingest.base db ingest.applied := by
        refine ⟨sound.store.linked, ?_, ?_, ?_⟩
        · rw [cursorHash, sound.store.cursor]
        · rw [cursorSlot, sound.store.cursorSlot]
        · rw [tables]
          exact sound.store.stored
      exact sound.withDb store indexer ingest.next

theorem ingest_sound {first last : Ingest} (starts : first.Starts tree)
    (run : Relation.ReflTransGen (IngestStep tree config CommitsInTime) first last) :
    IngestSound tree last := by
  induction run with
  | refl => exact .begins starts
  | tail _ step ih => exact step.sound ih

/-- When callbacks commit in time, every block is applied once and on top of its
parent, and the cursor is at the last one. -/
theorem blocks_applied_in_order {first last : Ingest} (starts : first.Starts tree)
    (run : Relation.ReflTransGen (IngestStep tree config CommitsInTime) first last) :
    AppliedInOrder tree last := by
  have sound := ingest_sound starts run
  refine ⟨sound.store.linked, ?_, sound.store.cursor⟩
  exact (List.nodup_append.mp sound.store.linked.nodup).1

end Commits

/-! ### Sample runs -/

/-- Three blocks in a row. -/
def sampleTree : ParentTree BlockHash where
  parent hash :=
    if hash = text "b12" then some (text "b11")
    else if hash = text "b11" then some (text "b10") else none
  rank hash := if hash = text "b12" then 12 else if hash = text "b11" then 11 else 10
  rank_lt := by
    intro child node isParent
    split at isParent
    · cases Option.some.inj isParent
      simp_all [text]
    · split at isParent
      · cases Option.some.inj isParent
        simp_all [text]
      · cases isParent

theorem sampleTree_first : sampleTree.ChildOf (text "b11") (text "b10") := by
  simp [ParentTree.ChildOf, sampleTree, text]

theorem sampleTree_second : sampleTree.ChildOf (text "b12") (text "b11") := by
  simp [ParentTree.ChildOf, sampleTree, text]

/-- A crawler at the sample start that keeps the UTxO set from there on. -/
def sampleIngest : Ingest where
  db := sampleCrawler.db
  indexer := ⟨⟨true, true⟩, true, some ⟨10, text "b10"⟩, false, none, none⟩
  applied := []
  base := text "b10"
  source := none
  next := .chainSync
  blocksThisStream := 0
  callbacks := []
  lastRead := 0
  lastChecked := 0

theorem sampleIngest_starts : sampleIngest.Starts sampleTree :=
  ⟨rfl, rfl, rfl, fun _ rowMem => absurd rowMem List.not_mem_nil, rfl, rfl, rfl⟩

/-- The block `b12` on top of `b11`. -/
def sampleSecondMessage : RollForward :=
  ⟨sampleBlock (text "b12") 12 1, [sampleTx (text "t2") (text "b12") 12 [] [sampleOutput]], none,
    none⟩

section Sample

attribute [local instance] byronBech32

variable {allowed : Ingest → Callback → Prop} {ingest : Ingest}

/-- A stream is opened and its handshake arrives. -/
def Ingest.sampleAsked (ingest : Ingest) (point : ChainPoint) : Ingest :=
  (ingest.openSource .chainSync point).deliver
    ⟨ingest.lastRead + 1, .chainSync, point, false⟩ point (.check point)

/-- The handshake is acknowledged. -/
def Ingest.sampleStream (ingest : Ingest) (point : ChainPoint) : Ingest :=
  { (ingest.sampleAsked point).markChecked (ingest.lastRead + 1) with
    callbacks := (ingest.sampleAsked point).settle (ingest.lastRead + 1) }

theorem sampleStream_run {point : ChainPoint} (idle : ingest.source = none)
    (due : ingest.next = .chainSync)
    (cursor : point = ⟨ingest.db.sync.lastSlot, ingest.tip, some ingest.db.sync.lastHeight⟩)
    (atTip : ingest.db.sync.lastBlockHash = some ingest.tip)
    (slot : point.slot = sampleTree.rank point.hash)
    (older : ∀ c ∈ ingest.callbacks, c.source ≤ ingest.lastRead) :
    Relation.ReflTransGen (IngestStep sampleTree sampleConfig allowed) ingest
      (ingest.sampleStream point) := by
  have hash : point.hash = ingest.tip := by rw [cursor]
  have opened : IngestStep sampleTree sampleConfig allowed ingest
      (ingest.openSource .chainSync point) := by
    refine IngestStep.openStream ingest point idle due ?_ slot fun _ => ?_
    · rw [cursor]
      exact cursor_mem_buildIntersectionPoints atTip
    · rw [hash]
      exact Relation.ReflTransGen.refl
  have ready : ¬ (ingest.openSource .chainSync point).Busy (ingest.lastRead + 1) := by
    rintro ⟨c, inFlight, same⟩
    have number := older c inFlight
    omega
  have asked : IngestStep sampleTree sampleConfig allowed (ingest.openSource .chainSync point)
      (ingest.sampleAsked point) :=
    IngestStep.handshake _ ⟨ingest.lastRead + 1, .chainSync, point, false⟩ rfl rfl ready
  have acknowledged : IngestStep sampleTree sampleConfig allowed (ingest.sampleAsked point)
      (ingest.sampleStream point) :=
    IngestStep.acknowledge _ ⟨ingest.lastRead + 1, .check point⟩ point
      (List.mem_append_right _ (List.mem_singleton_self _)) rfl (hash ▸ atTip)
  exact ((Relation.ReflTransGen.refl.tail opened).tail asked).tail acknowledged

/-- The transaction of a callback commits. -/
def Ingest.sampleCommit (ingest : Ingest) (source : Nat) (message : RollForward) : Ingest :=
  let attempt := persistBlockTx ingest.indexer ingest.db message.block message.txs
    message.epochData message.tip none 0
  { ingest with
    db := attempt.2.getD ingest.db
    indexer := attempt.1.blockCommitted
    applied := message.block.hash :: ingest.applied
    callbacks := ingest.settle source
    blocksThisStream := ingest.blocksThisStream + 1 }

theorem sampleCommit_step {source : Nat} {message : RollForward}
    (inFlight : ⟨source, .persist message⟩ ∈ ingest.callbacks)
    (complete : message.txs.length = message.block.txCount)
    (permitted : allowed ingest ⟨source, .persist message⟩) :
    IngestStep sampleTree sampleConfig allowed ingest (ingest.sampleCommit source message) :=
  IngestStep.commitBlock ingest _ message none 0 _ _ inFlight rfl complete permitted rfl

/-- The first stream has delivered `b11`. -/
def sampleDelivered : Ingest :=
  (sampleIngest.sampleStream ⟨10, text "b10", some 0⟩).deliver
    ⟨1, .chainSync, ⟨10, text "b10", some 0⟩, true⟩ ⟨11, text "b11", some 11⟩
    (.persist (sampleMessage (text "b11") 11))

/-- The first stream has applied `b11` and delivered `b12`. -/
def sampleAhead : Ingest :=
  (sampleDelivered.sampleCommit 1 (sampleMessage (text "b11") 11)).deliver
    ⟨1, .chainSync, ⟨11, text "b11", some 11⟩, true⟩ ⟨12, text "b12", some 12⟩
    (.persist sampleSecondMessage)

theorem sampleAhead_run
    (permitted : allowed sampleDelivered ⟨1, .persist (sampleMessage (text "b11") 11)⟩) :
    Relation.ReflTransGen (IngestStep sampleTree sampleConfig allowed) sampleIngest sampleAhead := by
  have opened : Relation.ReflTransGen (IngestStep sampleTree sampleConfig allowed) sampleIngest
      (sampleIngest.sampleStream ⟨10, text "b10", some 0⟩) :=
    sampleStream_run rfl rfl rfl rfl rfl fun _ inFlight => absurd inFlight List.not_mem_nil
  have delivered : IngestStep sampleTree sampleConfig allowed
      (sampleIngest.sampleStream ⟨10, text "b10", some 0⟩) sampleDelivered :=
    IngestStep.rollForward _ _ (sampleMessage (text "b11") 11) rfl rfl
      (fun delivering => absurd delivering.choose_spec.1 List.not_mem_nil) sampleTree_first rfl
  have committed : IngestStep sampleTree sampleConfig allowed sampleDelivered
      (sampleDelivered.sampleCommit 1 (sampleMessage (text "b11") 11)) :=
    sampleCommit_step (List.mem_singleton_self _) rfl permitted
  have ahead : IngestStep sampleTree sampleConfig allowed
      (sampleDelivered.sampleCommit 1 (sampleMessage (text "b11") 11)) sampleAhead :=
    IngestStep.rollForward _ _ sampleSecondMessage rfl rfl
      (fun delivering => absurd delivering.choose_spec.1 List.not_mem_nil) sampleTree_second rfl
  exact ((opened.tail delivered).tail committed).tail ahead

/-- Two blocks of one stream. -/
theorem blocks_applied_in_order_sample :
    AppliedInOrder sampleTree (sampleAhead.sampleCommit 1 sampleSecondMessage) := by
  have ahead : Relation.ReflTransGen (IngestStep sampleTree sampleConfig CommitsInTime)
      sampleIngest sampleAhead := sampleAhead_run (Nat.le_refl 1)
  have committed : IngestStep sampleTree sampleConfig CommitsInTime sampleAhead
      (sampleAhead.sampleCommit 1 sampleSecondMessage) :=
    sampleCommit_step (List.mem_singleton_self _) rfl (Nat.le_refl 1)
  exact blocks_applied_in_order sampleIngest_starts (ahead.tail committed)

/-- The socket closes while `b12` is in flight, and the next stream delivers `b12` too. -/
def sampleOverlap : Ingest :=
  ({ sampleAhead with source := none, next := .chainSync }.sampleStream
    ⟨11, text "b11", some 11⟩).deliver
      ⟨2, .chainSync, ⟨11, text "b11", some 11⟩, true⟩ ⟨12, text "b12", some 12⟩
      (.persist sampleSecondMessage)

/-- Both streams apply `b12`, and its output is counted twice. -/
theorem block_applied_twice :
    ∃ last, sampleIngest.Starts sampleTree ∧
      Relation.ReflTransGen (IngestStep sampleTree sampleConfig fun _ _ => True) sampleIngest
        last ∧
      ¬ AppliedInOrder sampleTree last ∧
      last.applied = [text "b12", text "b12", text "b11"] ∧
      last.db.ledger.addresses.rows.map LedgerAddressRow.utxoCount = [3] ∧
      last.db.ledger.utxos.rows.length = 2 := by
  have closed : IngestStep sampleTree sampleConfig (fun _ _ => True) sampleAhead
      { sampleAhead with source := none, next := .chainSync } :=
    IngestStep.endStream _ _ _ rfl rfl fun _ => Nat.one_pos
  have reopened : Relation.ReflTransGen (IngestStep sampleTree sampleConfig fun _ _ => True)
      { sampleAhead with source := none, next := .chainSync }
      ({ sampleAhead with source := none, next := .chainSync }.sampleStream
        ⟨11, text "b11", some 11⟩) := by
    refine sampleStream_run rfl rfl rfl rfl rfl ?_
    intro c inFlight
    rw [List.mem_singleton.mp inFlight]
    exact Nat.le_refl 1
  have delivered : IngestStep sampleTree sampleConfig (fun _ _ => True)
      ({ sampleAhead with source := none, next := .chainSync }.sampleStream
        ⟨11, text "b11", some 11⟩) sampleOverlap := by
    refine IngestStep.rollForward _ ⟨2, .chainSync, ⟨11, text "b11", some 11⟩, true⟩
      sampleSecondMessage rfl rfl ?_ sampleTree_second rfl
    rintro ⟨c, inFlight, same⟩
    rw [List.mem_singleton.mp inFlight] at same
    cases same
  have first : IngestStep sampleTree sampleConfig (fun _ _ => True) sampleOverlap
      (sampleOverlap.sampleCommit 1 sampleSecondMessage) :=
    sampleCommit_step List.mem_cons_self rfl trivial
  have second : IngestStep sampleTree sampleConfig (fun _ _ => True)
      (sampleOverlap.sampleCommit 1 sampleSecondMessage)
      ((sampleOverlap.sampleCommit 1 sampleSecondMessage).sampleCommit 2 sampleSecondMessage) :=
    sampleCommit_step (List.mem_singleton_self _) rfl trivial
  have ahead : Relation.ReflTransGen (IngestStep sampleTree sampleConfig fun _ _ => True)
      sampleIngest sampleAhead := sampleAhead_run trivial
  refine ⟨_, sampleIngest_starts,
    ((((ahead.tail closed).trans reopened).tail delivered).tail first).tail second, ?_, rfl,
    by decide +kernel, by decide +kernel⟩
  intro inOrder
  exact absurd inOrder.once (by decide +kernel)

end Sample

end Odatano
