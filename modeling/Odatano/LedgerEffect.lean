import Odatano.LedgerSums

/-!
# What a block does to the outputs

The consumption loop and the reads of `applyBlockToLedger` are summed up by the
created outputs, the rows spent from the tables and the moves between
addresses.  Later proofs look at these three lists only.
-/

namespace Odatano

namespace LedgerLookup

/-- A lookup agrees with the tables on every transaction it covers. -/
structure Answers (db : LedgerDb) (lookup : LedgerLookup) : Prop where
  rows : ∀ key : Outpoint, OrderedMap.get? lookup.rows key =
    if key.txHash ∈ lookup.hashes then db.utxos.find? key else none
  assets : ∀ key : Outpoint, (OrderedMap.get? lookup.assets key).getD [] =
    if key.txHash ∈ lookup.hashes then db.utxoAssets.select fun a => decide (a.utxo = key)
    else []

theorem answers_empty (db : LedgerDb) : Answers db LedgerLookup.empty where
  rows := by simp [LedgerLookup.empty]
  assets := by simp [LedgerLookup.empty]

end LedgerLookup

section Reads

variable [Bech32] {db : LedgerDb}

/-- Reading a chunk of uncovered transactions keeps a lookup right. -/
theorem readLedgerChunk_answers (built : db.RowsBuilt) {lookup : LedgerLookup}
    (answers : lookup.Answers db) {hashChunk : List TxHash}
    (uncovered : ∀ h ∈ hashChunk, h ∉ lookup.hashes) :
    (readLedgerChunk db lookup hashChunk).Answers db where
  rows := by
    intro key
    have nodup :
        ((db.utxos.select fun r => decide (r.txHash ∈ hashChunk)).map
          LedgerUtxoRow.outpoint).Nodup :=
      db.utxos.keys_nodup.sublist (List.filter_sublist.map _)
    simp only [readLedgerChunk]
    rw [OrderedMap.get?_foldl_set lookup.rows nodup, Table.find?_select, answers.rows]
    simp only [List.mem_append]
    cases found : db.utxos.find? key with
    | none => simp
    | some row =>
        have rowHash : row.txHash = key.txHash := by
          rw [← Table.key_of_find? found, LedgerUtxoRow.outpoint_txHash]
        by_cases covered : key.txHash ∈ lookup.hashes
        · have notRead : key.txHash ∉ hashChunk := fun read => uncovered _ read covered
          simp [Option.filter, rowHash, covered, notRead]
        · by_cases read : key.txHash ∈ hashChunk
          · simp [Option.filter, rowHash, read]
          · simp [Option.filter, rowHash, covered, read]
  assets := by
    intro key
    -- only transactions with assets are asked for, which leaves out no asset row
    have complete : ∀ a ∈ db.utxoAssets.rows, a.utxo.txHash ∈ hashChunk →
        a.utxo.txHash ∈ ((db.utxos.select fun r => decide (r.txHash ∈ hashChunk)).filter
          LedgerUtxoRow.hasAssets).map LedgerUtxoRow.txHash := by
      intro a aMem read
      obtain ⟨row, rowMem, owner, hasAssets⟩ := built.assetOwned a aMem
      have sameHash : row.txHash = a.utxo.txHash := by
        rw [← owner, LedgerUtxoRow.outpoint_txHash]
      refine List.mem_map.mpr ⟨row, ?_, sameHash⟩
      simp [rowMem, sameHash, read, hasAssets]
    simp only [readLedgerChunk, List.mem_append]
    generalize withAssetsEq : ((db.utxos.select fun r => decide (r.txHash ∈ hashChunk)).filter
      LedgerUtxoRow.hasAssets).map LedgerUtxoRow.txHash = withAssets at complete
    have sound : ∀ h ∈ withAssets, h ∈ hashChunk := by
      rw [← withAssetsEq]
      intro h hMem
      obtain ⟨row, rowMem, rfl⟩ := List.mem_map.mp hMem
      simpa using (Table.mem_select.mp (List.mem_filter.mp rowMem).1).2
    have collected : (OrderedMap.get? (OrderedMap.collect LedgerUtxoAssetRow.utxo lookup.assets
        (db.utxoAssets.select fun a => decide (a.utxo.txHash ∈ distinct withAssets)))
          key).getD [] =
        if key.txHash ∈ lookup.hashes ∨ key.txHash ∈ hashChunk then
          db.utxoAssets.select fun a => decide (a.utxo = key)
        else [] := by
      rw [OrderedMap.getD_get?_collect, answers.assets, Table.select, Table.select,
        List.filter_filter]
      by_cases covered : key.txHash ∈ lookup.hashes
      · have notRead : key.txHash ∉ hashChunk := fun read => uncovered _ read covered
        simp only [covered, if_true, true_or, List.append_right_eq_self, List.filter_eq_nil_iff]
        intro a _
        simp only [mem_distinct, Bool.and_eq_true, decide_eq_true_eq, not_and]
        rintro rfl asked
        exact notRead (sound _ asked)
      · by_cases read : key.txHash ∈ hashChunk
        · simp only [covered, read, if_false, or_true, if_true, List.nil_append]
          apply List.filter_congr
          intro a aMem
          by_cases owned : a.utxo = key
          · have asked := complete a aMem (by rw [owned]; exact read)
            rw [owned] at asked
            simp [owned, asked]
          · simp [owned]
        · simp only [covered, read, if_false, or_self, List.nil_append,
            List.filter_eq_nil_iff]
          intro a _
          simp only [mem_distinct, Bool.and_eq_true, decide_eq_true_eq, not_and]
          rintro rfl asked
          exact read (sound _ asked)
    split
    · rename_i none
      rw [none] at collected
      simpa [OrderedMap.collect, OrderedMap.accumulate, Table.select] using collected
    · exact collected

/-- Reading ledger outputs keeps a lookup right and covers what was asked for. -/
theorem readLedgerOutputs_answers (built : db.RowsBuilt) {into : LedgerLookup}
    (answers : into.Answers db) (txHashes : List TxHash) :
    (readLedgerOutputs db txHashes into).Answers db ∧
      ∀ h ∈ txHashes, h ∈ (readLedgerOutputs db txHashes into).hashes := by
  have run : ∀ (chunks : List (List TxHash)) (lookup : LedgerLookup), lookup.Answers db →
      chunks.flatten.Nodup → (∀ h ∈ chunks.flatten, h ∉ lookup.hashes) →
      (chunks.foldl (readLedgerChunk db) lookup).Answers db ∧
        (chunks.foldl (readLedgerChunk db) lookup).hashes = lookup.hashes ++ chunks.flatten := by
    intro chunks
    induction chunks with
    | nil => intro lookup answers _ _; exact ⟨answers, by simp⟩
    | cons hashChunk chunks ih =>
        intro lookup answers nodup uncovered
        rw [List.flatten_cons] at nodup uncovered
        obtain ⟨-, restNodup, apart⟩ := List.nodup_append.mp nodup
        have chunkAnswers := readLedgerChunk_answers built answers fun h hMem =>
          uncovered h (List.mem_append_left _ hMem)
        obtain ⟨restAnswers, restHashes⟩ := ih _ chunkAnswers restNodup (by
          intro h hMem
          simp only [readLedgerChunk, List.mem_append, not_or]
          exact ⟨uncovered h (List.mem_append_right _ hMem), fun read =>
            apart h read h hMem rfl⟩)
        refine ⟨restAnswers, ?_⟩
        rw [List.foldl_cons, restHashes, List.flatten_cons]
        simp [readLedgerChunk]
  obtain ⟨readAnswers, readHashes⟩ := run
    (chunk ((distinct txHashes).filter fun h => decide (h ∉ into.hashes)) IN_CHUNK) into answers
    (by simpa using (distinct_nodup txHashes).filter _)
    (by intro h hMem; simp at hMem; exact hMem.2)
  refine ⟨readAnswers, ?_⟩
  intro h hMem
  rw [readLedgerOutputs, readHashes]
  by_cases covered : h ∈ into.hashes <;> simp [covered, hMem]

end Reads

/-! ## The consumption loop -/

/-- What the consumption loop keeps of the outputs a block creates. -/
structure BlockSpends.Sound [Bech32] (hashes : List TxHash) (state : BlockSpends) : Prop where
  wellBuilt : ∀ entry ∈ state.created.rows, entry.2.WellBuilt
  outpoint : ∀ entry ∈ state.created.rows, entry.2.row.outpoint = entry.1
  hash : ∀ entry ∈ state.created.rows, entry.1.txHash ∈ hashes
  marked : ∀ entry ∈ state.created.rows,
    entry.1 ∈ state.spentInBlock ↔ entry.2.row.spentTxHash.isSome = true
  spender : ∀ entry ∈ state.created.rows, ∀ spender ∈ entry.2.row.spentTxHash, spender ∈ hashes

section Loop

variable [Bech32] {hashes : List TxHash} {slot : Nat}

theorem mem_producedRows {txs : List Transaction} {output : LedgerOutput}
    (produced : output ∈ producedRows txs slot) :
    output.WellBuilt ∧ output.row.spentTxHash = none ∧
      output.row.txHash ∈ txs.map Transaction.hash := by
  obtain ⟨t, tMem, produced⟩ := List.mem_flatMap.mp produced
  obtain ⟨o, -, rfl⟩ := List.mem_map.mp produced
  exact ⟨buildLedgerUtxoRows_wellBuilt _ _, rfl, List.mem_map.mpr ⟨t, tMem, rfl⟩⟩

/-- Before any consumption the created outputs are the produced ones. -/
theorem createdByBlock_sound (txs : List Transaction) :
    BlockSpends.Sound (txs.map Transaction.hash) ⟨createdByBlock txs slot, [], []⟩ := by
  have produced : ∀ entry ∈ (createdByBlock txs slot).rows,
      entry.2 ∈ producedRows txs slot ∧ entry.2.row.outpoint = entry.1 := by
    intro entry entryMem
    have pairs : createdByBlock txs slot = Table.upsertAll Table.empty
        ((producedRows txs slot).map fun built => (built.row.outpoint, built)) :=
      List.foldl_map.symm
    rw [pairs] at entryMem
    rcases Table.mem_upsertAll entryMem with entryMem | entryMem
    · cases entryMem
    · obtain ⟨built, builtMem, rfl⟩ := List.mem_map.mp entryMem
      exact ⟨builtMem, rfl⟩
  refine ⟨?_, fun entry entryMem => (produced entry entryMem).2, ?_, ?_, ?_⟩
  · intro entry entryMem
    exact (mem_producedRows (produced entry entryMem).1).1
  · intro entry entryMem
    rw [← (produced entry entryMem).2]
    exact (mem_producedRows (produced entry entryMem).1).2.2
  · intro entry entryMem
    simp [(mem_producedRows (produced entry entryMem).1).2.1]
  · intro entry entryMem
    simp [(mem_producedRows (produced entry entryMem).1).2.1]

/-- Marking an output keeps it well built. -/
theorem LedgerOutput.WellBuilt.markSpent {output : LedgerOutput} (wellBuilt : output.WellBuilt)
    (spender : TxHash) :
    LedgerOutput.WellBuilt { output with row := output.row.markSpent spender slot } where
  ownerDecoded :=
    ⟨wellBuilt.ownerDecoded.stakeAddress, wellBuilt.ownerDecoded.addressType,
      wellBuilt.ownerDecoded.isScript, wellBuilt.ownerDecoded.paymentCredential⟩
  unspent := fun unspent => nomatch unspent
  assetsOwned := wellBuilt.assetsOwned
  assetUnits_nodup := wellBuilt.assetUnits_nodup
  hasAssets := wellBuilt.hasAssets

theorem BlockSpends.Sound.spend {state : BlockSpends} (sound : state.Sound hashes)
    {s : LedgerSpend} (spenderMem : s.spender ∈ hashes) : (state.spend slot s).Sound hashes := by
  unfold BlockSpends.spend
  split
  · rename_i own found
    have ownMem : (s.key, own) ∈ state.created.rows := OrderedMap.get?_eq_some_iff.mp found
    refine ⟨?_, ?_, ?_, ?_, ?_⟩
    all_goals
      intro entry entryMem
      rcases Table.mem_upsert.mp entryMem with rfl | ⟨entryMem, different⟩
    · exact (sound.wellBuilt _ ownMem).markSpent s.spender
    · exact sound.wellBuilt entry entryMem
    · exact sound.outpoint (s.key, own) ownMem
    · exact sound.outpoint entry entryMem
    · exact sound.hash (s.key, own) ownMem
    · exact sound.hash entry entryMem
    · simp [LedgerUtxoRow.markSpent]
    · rw [List.mem_append, List.mem_singleton, sound.marked entry entryMem]
      exact or_iff_left different
    · intro spender isSpender
      cases Option.some.inj isSpender
      exact spenderMem
    · exact sound.spender entry entryMem
  · exact ⟨sound.wellBuilt, sound.outpoint, sound.hash, sound.marked, sound.spender⟩

theorem BlockSpends.Sound.spends {state : BlockSpends} (sound : state.Sound hashes)
    {spends : List LedgerSpend} (spenders : ∀ s ∈ spends, s.spender ∈ hashes) :
    (spends.foldl (BlockSpends.spend slot) state).Sound hashes := by
  induction spends generalizing state with
  | nil => exact sound
  | cons s spends ih =>
      exact ih (sound.spend (spenders s List.mem_cons_self))
        fun later laterMem => spenders later (List.mem_cons_of_mem _ laterMem)

omit [Bech32] in
/-- The transactions of a block do its consumptions. -/
theorem spender_mem_of_blockSpends {txs : List Transaction} {s : LedgerSpend}
    (sMem : s ∈ blockSpends txs) : s.spender ∈ txs.map Transaction.hash := by
  obtain ⟨t, tMem, consumed⟩ := List.mem_flatMap.mp sMem
  obtain ⟨key, -, rfl⟩ := List.mem_map.mp consumed
  exact List.mem_map.mpr ⟨t, tMem, rfl⟩

omit [Bech32] in
/-- Every consumption is looked up at most once. -/
theorem BlockSpends.lookups_sublist (slot : Nat) (state : BlockSpends) (spends : List LedgerSpend) :
    (spends.foldl (BlockSpends.spend slot) state).lookups.Sublist (state.lookups ++ spends) := by
  induction spends generalizing state with
  | nil => simp
  | cons s spends ih =>
      refine (ih (state.spend slot s)).trans ?_
      unfold BlockSpends.spend
      split
      · exact List.Sublist.append_left (List.sublist_cons_self s spends) _
      · simp

omit [Bech32] in
/-- The rows spent from the tables are open rows of the tables. -/
theorem mem_spentRowsOf {lookup : LedgerLookup} {lookups : List LedgerSpend}
    {row : LedgerUtxoRow} (rowMem : row ∈ spentRowsOf lookup slot lookups) :
    ∃ s ∈ lookups, ∃ old, OrderedMap.get? lookup.rows s.key = some old ∧
      old.spentTxHash = none ∧ row = old.markSpent s.spender slot := by
  obtain ⟨s, sMem, produced⟩ := List.mem_filterMap.mp rowMem
  cases found : OrderedMap.get? lookup.rows s.key with
  | none => simp [found] at produced
  | some old =>
      cases spent : old.spentTxHash with
      | none =>
          refine ⟨s, sMem, old, found, spent, ?_⟩
          simpa [found, spent, eq_comm] using produced
      | some _ => simp [found, spent] at produced

omit [Bech32] in
theorem outpoints_spentRowsOf {lookup : LedgerLookup} (lookups : List LedgerSpend)
    (rightKey : ∀ key row, OrderedMap.get? lookup.rows key = some row → row.outpoint = key) :
    ((spentRowsOf lookup slot lookups).map LedgerUtxoRow.outpoint).Sublist
      (lookups.map LedgerSpend.key) := by
  induction lookups with
  | nil => simp [spentRowsOf]
  | cons s lookups ih =>
      rw [spentRowsOf, List.filterMap_cons, List.map_cons]
      cases found : OrderedMap.get? lookup.rows s.key with
      | none => exact ih.trans (List.sublist_cons_self _ _)
      | some row =>
          cases spent : row.spentTxHash with
          | none =>
              simp only [spent, Option.isSome_none, Bool.false_eq_true, if_false,
                List.map_cons, LedgerUtxoRow.outpoint_markSpent, rightKey _ _ found]
              exact ih.cons_cons _
          | some _ =>
              simp only [spent, Option.isSome_some, if_true]
              exact ih.trans (List.sublist_cons_self _ _)

end Loop

/-! ## The effect of a block -/

/-- No output of these transactions is stored. -/
def LedgerDb.FreshFor (db : LedgerDb) (hashes : List TxHash) : Prop :=
  ∀ row ∈ db.utxos.rows, row.txHash ∉ hashes

/-- No output is consumed twice. -/
def ConsumesOnce (txs : List Transaction) : Prop :=
  ((blockSpends txs).map LedgerSpend.key).Nodup

/-- The moves of one created output. -/
def outputMoves (output : LedgerOutput) : List LedgerMove :=
  ⟨output.row, output.assets, 1⟩ ::
    if output.row.spentTxHash.isSome then [⟨output.row, output.assets, -1⟩] else []

/-- The move of one row spent from the tables. -/
def spentMove (db : LedgerDb) (row : LedgerUtxoRow) : LedgerMove :=
  ⟨row, db.utxoAssets.select fun a => decide (a.utxo = row.outpoint), -1⟩

/-- The outputs the transactions `hashes` create in and spend from the tables. -/
structure BlockEffect [Bech32] (db : LedgerDb) (hashes : List TxHash) (slot : Nat) where
  created : List LedgerOutput
  spentRows : List LedgerUtxoRow
  wellBuilt : ∀ output ∈ created, output.WellBuilt
  created_hash : ∀ output ∈ created, output.row.txHash ∈ hashes
  created_spender : ∀ output ∈ created, ∀ spender ∈ output.row.spentTxHash, spender ∈ hashes
  created_nodup : ((created.map LedgerOutput.row).map LedgerUtxoRow.outpoint).Nodup
  spent_open : ∀ row ∈ spentRows, ∃ old ∈ db.utxos.rows, ∃ spender ∈ hashes,
    old.spentTxHash = none ∧ row = old.markSpent spender slot
  spent_nodup : (spentRows.map LedgerUtxoRow.outpoint).Nodup

namespace BlockEffect

variable [Bech32] {db : LedgerDb} {hashes : List TxHash} {slot : Nat}

/-- The moves between addresses. -/
def moves (effect : BlockEffect db hashes slot) : List LedgerMove :=
  effect.created.flatMap outputMoves ++ effect.spentRows.map (spentMove db)

/-- The tables with the created and spent rows written. -/
def outputs (effect : BlockEffect db hashes slot) : LedgerDb :=
  writeOutputs db effect.created effect.spentRows

/-- The tables after the block. -/
def apply (effect : BlockEffect db hashes slot) : LedgerDb :=
  writeSums slot effect.outputs (deltasOf effect.moves)

end BlockEffect

variable [Bech32]

/-- Applying a block is writing its effect. -/
theorem applyBlockToLedger_eq {db : LedgerDb} (built : db.RowsBuilt) (block : BlockData)
    (txs : List Transaction) (once : ConsumesOnce txs) (lookup : Option LedgerLookup)
    (answers : ∀ read ∈ lookup, LedgerLookup.Answers db read) :
    ∃ effect : BlockEffect db (txs.map Transaction.hash) block.slotOrZero,
      (applyBlockToLedger db block txs lookup).1 = effect.apply := by
  have startAnswers : (lookup.getD LedgerLookup.empty).Answers db := by
    cases lookup with
    | none => exact LedgerLookup.answers_empty db
    | some read => exact answers read rfl
  generalize slotEq : block.slotOrZero = slot
  generalize spendsEq : (blockSpends txs).foldl (BlockSpends.spend slot)
    ⟨createdByBlock txs slot, [], []⟩ = spends
  have sound : spends.Sound (txs.map Transaction.hash) := by
    rw [← spendsEq]
    exact (createdByBlock_sound txs).spends fun s => spender_mem_of_blockSpends
  have lookedUp : spends.lookups.Sublist (blockSpends txs) := by
    rw [← spendsEq]
    simpa using BlockSpends.lookups_sublist slot
      ⟨createdByBlock txs slot, [], []⟩ (blockSpends txs)
  obtain ⟨readAnswers, covered⟩ := readLedgerOutputs_answers built startAnswers
    (spends.lookups.map fun s => s.key.txHash)
  generalize readEq : readLedgerOutputs db (spends.lookups.map fun s => s.key.txHash)
    (lookup.getD LedgerLookup.empty) = read at readAnswers covered
  have rightKey : ∀ key row, OrderedMap.get? read.rows key = some row →
      db.utxos.find? key = some row := by
    intro key row found
    rw [readAnswers.rows] at found
    split at found
    · exact found
    · cases found
  have spentFrom : ∀ row ∈ spentRowsOf read slot spends.lookups,
      ∃ s ∈ spends.lookups, ∃ old, db.utxos.find? s.key = some old ∧
        old.spentTxHash = none ∧ row = old.markSpent s.spender slot := by
    intro row rowMem
    obtain ⟨s, sMem, old, found, unspent, rfl⟩ := mem_spentRowsOf rowMem
    exact ⟨s, sMem, old, rightKey _ _ found, unspent, rfl⟩
  refine ⟨
    { created := spends.created.rows.map Prod.snd
      spentRows := spentRowsOf read slot spends.lookups
      wellBuilt := ?_
      created_hash := ?_
      created_spender := ?_
      created_nodup := ?_
      spent_open := ?_
      spent_nodup := ?_ }, ?_⟩
  · intro output outputMem
    obtain ⟨entry, entryMem, rfl⟩ := List.mem_map.mp outputMem
    exact sound.wellBuilt entry entryMem
  · intro output outputMem
    obtain ⟨entry, entryMem, rfl⟩ := List.mem_map.mp outputMem
    have entryHash := sound.hash entry entryMem
    rwa [← sound.outpoint entry entryMem] at entryHash
  · intro output outputMem
    obtain ⟨entry, entryMem, rfl⟩ := List.mem_map.mp outputMem
    exact sound.spender entry entryMem
  · have keys : ((spends.created.rows.map Prod.snd).map LedgerOutput.row).map
        LedgerUtxoRow.outpoint = spends.created.rows.map Prod.fst := by
      rw [List.map_map, List.map_map]
      exact List.map_congr_left sound.outpoint
    rw [keys]
    exact spends.created.keys_nodup
  · intro row rowMem
    obtain ⟨s, sMem, old, found, unspent, rfl⟩ := spentFrom row rowMem
    exact ⟨old, Table.mem_of_find? found, s.spender,
      spender_mem_of_blockSpends (lookedUp.mem sMem), unspent, rfl⟩
  · exact (outpoints_spentRowsOf spends.lookups fun key row found =>
      Table.key_of_find? (rightKey key row found)).nodup
        ((lookedUp.map LedgerSpend.key).nodup once)
  · have created_moves : createdMoves spends =
        (spends.created.rows.map Prod.snd).flatMap outputMoves := by
      rw [createdMoves, List.flatMap_map]
      apply List.flatMap_congr
      intro entry entryMem
      simp only [outputMoves, ← sound.marked entry entryMem]
    have spent_moves : spentMoves read (spentRowsOf read slot spends.lookups) =
        (spentRowsOf read slot spends.lookups).map (spentMove db) := by
      apply List.map_congr_left
      intro row rowMem
      obtain ⟨s, sMem, old, found, -, rfl⟩ := spentFrom row rowMem
      rw [readAnswers.assets, if_pos, spentMove]
      rw [LedgerUtxoRow.outpoint_markSpent, Table.key_of_find? found]
      exact covered _ (List.mem_map.mpr ⟨s, sMem, rfl⟩)
    simp only [BlockEffect.apply, BlockEffect.outputs, BlockEffect.moves, ← created_moves,
      ← spent_moves, applyBlockToLedger, slotEq, spendsEq, readEq]

/-- Reads a caller did in advance make no difference. -/
theorem applyBlockToLedger_lookup {db : LedgerDb} (built : db.RowsBuilt) (block : BlockData)
    (txs : List Transaction) {lookup : Option LedgerLookup}
    (answers : ∀ read ∈ lookup, LedgerLookup.Answers db read) :
    applyBlockToLedger db block txs lookup = applyBlockToLedger db block txs none := by
  have startAnswers : (lookup.getD LedgerLookup.empty).Answers db := by
    cases lookup with
    | none => exact LedgerLookup.answers_empty db
    | some read => exact answers read rfl
  generalize slotEq : block.slotOrZero = slot
  generalize spendsEq : (blockSpends txs).foldl (BlockSpends.spend slot)
    ⟨createdByBlock txs slot, [], []⟩ = spends
  obtain ⟨readAnswers, covered⟩ := readLedgerOutputs_answers built startAnswers
    (spends.lookups.map fun s => s.key.txHash)
  obtain ⟨freshAnswers, freshCovered⟩ := readLedgerOutputs_answers built
    (LedgerLookup.answers_empty db) (spends.lookups.map fun s => s.key.txHash)
  generalize readEq : readLedgerOutputs db (spends.lookups.map fun s => s.key.txHash)
    (lookup.getD LedgerLookup.empty) = read at readAnswers covered
  generalize freshEq : readLedgerOutputs db (spends.lookups.map fun s => s.key.txHash)
    LedgerLookup.empty = fresh at freshAnswers freshCovered
  have both : ∀ s ∈ spends.lookups, s.key.txHash ∈ read.hashes ∧ s.key.txHash ∈ fresh.hashes :=
    fun s sMem =>
      have asked : s.key.txHash ∈ spends.lookups.map fun s => s.key.txHash :=
        List.mem_map.mpr ⟨s, sMem, rfl⟩
      ⟨covered _ asked, freshCovered _ asked⟩
  have sameRows : spentRowsOf read slot spends.lookups =
      spentRowsOf fresh slot spends.lookups := by
    apply List.filterMap_congr
    intro s sMem
    rw [readAnswers.rows, freshAnswers.rows, if_pos (both s sMem).1, if_pos (both s sMem).2]
  have sameMoves : spentMoves read (spentRowsOf fresh slot spends.lookups) =
      spentMoves fresh (spentRowsOf fresh slot spends.lookups) := by
    apply List.map_congr_left
    intro row rowMem
    obtain ⟨s, sMem, old, found, -, rfl⟩ := mem_spentRowsOf rowMem
    have oldKey : old.outpoint = s.key := by
      rw [freshAnswers.rows, if_pos (both s sMem).2] at found
      exact Table.key_of_find? found
    rw [LedgerUtxoRow.outpoint_markSpent, oldKey, readAnswers.assets, freshAnswers.assets,
      if_pos (both s sMem).1, if_pos (both s sMem).2]
  simp only [applyBlockToLedger, slotEq, spendsEq, readEq, Option.getD_none, freshEq, sameRows,
    sameMoves]

end Odatano
