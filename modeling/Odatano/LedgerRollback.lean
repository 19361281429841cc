import Odatano.LedgerRuns

/-!
# Path independence of the UTxO set

Undoing the transactions of some blocks forgets everything these blocks wrote
to the output tables.  The sums are functions of the output tables, so a ledger
that followed an abandoned fork and came back is the ledger that never left.
-/

namespace Odatano

/-! ## Undoing as one operation on rows -/

/-- What an undo makes of one row. -/
def undoRow (hashes : List TxHash) (row : LedgerUtxoRow) : Option LedgerUtxoRow :=
  if row.txHash ∈ hashes then none
  else some (if row.spentBy hashes then row.reopen else row)

theorem rows_undoRows (utxos : Table LedgerUtxoRow.outpoint) (hashes : List TxHash) :
    (undoRows utxos hashes).rows = utxos.rows.filterMap (undoRow hashes) := by
  simp only [undoRows, Table.update, Table.delete]
  induction utxos.rows with
  | nil => rfl
  | cons row rows ih =>
      by_cases dropped : row.txHash ∈ hashes <;> simp [undoRow, dropped, ih]

theorem undoRow_bind (first second : List TxHash) (row : LedgerUtxoRow) :
    (undoRow first row).bind (undoRow second) = undoRow (first ++ second) row := by
  by_cases inFirst : row.txHash ∈ first
  · simp [undoRow, inFirst]
  · by_cases inSecond : row.txHash ∈ second
    · by_cases reopened : row.spentBy first = true <;>
        simp [undoRow, inFirst, inSecond, reopened, LedgerUtxoRow.reopen]
    · cases spender : row.spentTxHash with
      | none => simp [undoRow, inFirst, inSecond, LedgerUtxoRow.spentBy, spender]
      | some h =>
          by_cases byFirst : h ∈ first <;> by_cases bySecond : h ∈ second <;>
            simp [undoRow, inFirst, inSecond, LedgerUtxoRow.spentBy, spender, byFirst, bySecond,
              LedgerUtxoRow.reopen]

theorem undoRows_append (utxos : Table LedgerUtxoRow.outpoint) (first second : List TxHash) :
    undoRows (undoRows utxos first) second = undoRows utxos (first ++ second) := by
  apply Table.ext
  rw [rows_undoRows, rows_undoRows, rows_undoRows, List.filterMap_filterMap]
  exact List.filterMap_congr fun row _ => undoRow_bind first second row

theorem undoAssetRows_append (assets : Table LedgerUtxoAssetRow.key)
    (first second : List TxHash) :
    undoAssetRows (undoAssetRows assets first) second =
      undoAssetRows assets (first ++ second) := by
  apply Table.ext
  simp only [undoAssetRows, Table.delete, List.filter_filter]
  apply List.filter_congr
  intro a _
  by_cases inFirst : a.utxo.txHash ∈ first <;> by_cases inSecond : a.utxo.txHash ∈ second <;>
    simp [inFirst, inSecond]

theorem undoAssetRows_nil (assets : Table LedgerUtxoAssetRow.key) :
    undoAssetRows assets [] = assets := by
  apply Table.ext
  simp [undoAssetRows, Table.delete]

/-- Rows that mention none of the transactions are left alone. -/
theorem undoRows_eq_self {utxos : Table LedgerUtxoRow.outpoint} {hashes : List TxHash}
    (unmentioned : ∀ row ∈ utxos.rows,
      row.txHash ∉ hashes ∧ ∀ spender ∈ row.spentTxHash, spender ∉ hashes) :
    undoRows utxos hashes = utxos := by
  apply Table.ext
  rw [rows_undoRows]
  refine (List.filterMap_congr ?_).trans List.filterMap_some
  intro row rowMem
  obtain ⟨kept, notSpent⟩ := unmentioned row rowMem
  cases spender : row.spentTxHash with
  | none => simp [undoRow, kept, LedgerUtxoRow.spentBy, spender]
  | some h => simp [undoRow, kept, LedgerUtxoRow.spentBy, spender, notSpent h spender]

theorem undoRows_nil (utxos : Table LedgerUtxoRow.outpoint) : undoRows utxos [] = utxos :=
  undoRows_eq_self fun _ _ => by simp

theorem undoAssetRows_eq_self {assets : Table LedgerUtxoAssetRow.key} {hashes : List TxHash}
    (unmentioned : ∀ a ∈ assets.rows, a.utxo.txHash ∉ hashes) :
    undoAssetRows assets hashes = assets :=
  Table.delete_eq_self fun a aMem => decide_eq_false (unmentioned a aMem)

/-- Undoing forgets the outputs the undone transactions created. -/
theorem undoRows_upsertAll_created (utxos : Table LedgerUtxoRow.outpoint)
    {hashes : List TxHash} {rows : List LedgerUtxoRow}
    (created : ∀ row ∈ rows, row.txHash ∈ hashes) :
    undoRows (utxos.upsertAll rows) hashes = undoRows utxos hashes := by
  have forgotten := Table.delete_upsertAll utxos
    (fun key : Outpoint => decide (key.txHash ∈ hashes))
    fun row rowMem => decide_eq_true (created row rowMem)
  unfold undoRows
  exact congrArg (fun table => Table.update table _ _ _) forgotten

/-- Undoing forgets one spending by the undone transactions. -/
theorem undoRows_upsert_spent {utxos : Table LedgerUtxoRow.outpoint} {hashes : List TxHash}
    {old : LedgerUtxoRow} (oldMem : old ∈ utxos.rows)
    (unspent : old.spentTxHash = none ∧ old.spentSlot = none) {spender : TxHash}
    (undone : spender ∈ hashes) (slot : Nat) :
    undoRows (utxos.upsert (old.markSpent spender slot)) hashes = undoRows utxos hashes := by
  have present : (old.markSpent spender slot).outpoint ∈ utxos.rows.map
      LedgerUtxoRow.outpoint := List.mem_map.mpr ⟨old, oldMem, rfl⟩
  apply Table.ext
  rw [rows_undoRows, rows_undoRows, Table.rows_upsert_of_mem utxos present, List.filterMap_map]
  apply List.filterMap_congr
  intro row rowMem
  rw [Function.comp_apply, LedgerUtxoRow.outpoint_markSpent]
  split
  · rename_i here
    obtain rfl := Table.mem_rows_inj rowMem oldMem here
    have reopened : (row.markSpent spender slot).reopen = row := by
      obtain ⟨txHash, outputIndex, address, stakeAddress, addressType, isScript, lovelace,
        createdSlot, spentTxHash, spentSlot, utxo, paymentCredential, hasAssets⟩ := row
      obtain ⟨rfl, rfl⟩ := unspent
      rfl
    have marked : (row.markSpent spender slot).spentBy hashes = true := by
      simp [LedgerUtxoRow.spentBy, LedgerUtxoRow.markSpent, undone]
    have unmarked : row.spentBy hashes = false := by
      simp [LedgerUtxoRow.spentBy, unspent.1]
    have sameHash : (row.markSpent spender slot).txHash = row.txHash := rfl
    simp only [undoRow, sameHash, marked, unmarked, reopened, if_true, Bool.false_eq_true,
      if_false]
  · rfl

/-- Undoing forgets all spendings by the undone transactions. -/
theorem undoRows_upsertAll_spent {hashes : List TxHash} {slot : Nat}
    {rows : List LedgerUtxoRow} (nodup : (rows.map LedgerUtxoRow.outpoint).Nodup)
    {utxos : Table LedgerUtxoRow.outpoint}
    (spent : ∀ row ∈ rows, ∃ old ∈ utxos.rows, ∃ spender ∈ hashes,
      (old.spentTxHash = none ∧ old.spentSlot = none) ∧ row = old.markSpent spender slot) :
    undoRows (utxos.upsertAll rows) hashes = undoRows utxos hashes := by
  induction rows generalizing utxos with
  | nil => rfl
  | cons row rows ih =>
      simp only [List.map_cons, List.nodup_cons] at nodup
      obtain ⟨old, oldMem, spender, undone, unspent, rfl⟩ := spent row (List.mem_cons_self ..)
      rw [Table.upsertAll_cons, ih nodup.2, undoRows_upsert_spent oldMem unspent undone]
      intro later laterMem
      obtain ⟨other, otherMem, otherSpender, otherUndone, otherUnspent, rfl⟩ :=
        spent later (List.mem_cons_of_mem _ laterMem)
      refine ⟨other, Table.mem_upsert.mpr (Or.inr ⟨otherMem, ?_⟩), otherSpender, otherUndone,
        otherUnspent, rfl⟩
      intro sameKey
      exact nodup.1 (List.mem_map.mpr ⟨_, laterMem, sameKey⟩)

section Blocks

variable [Bech32]

/-! ## Blocks -/

/-- Writing sums leaves the output tables alone. -/
theorem writeSums_outputs (slot : Nat) (db : LedgerDb)
    (deltas : OrderedMap Address AddressDelta) :
    (writeSums slot db deltas).utxos = db.utxos ∧
      (writeSums slot db deltas).utxoAssets = db.utxoAssets := by
  have chunks : ∀ (entries : List (List (Address × AddressDelta))) (writes : SumWrites),
      (entries.foldl (writeAddressChunk slot) writes).db.utxos = writes.db.utxos ∧
        (entries.foldl (writeAddressChunk slot) writes).db.utxoAssets = writes.db.utxoAssets := by
    intro entries
    induction entries with
    | nil => exact fun _ => ⟨rfl, rfl⟩
    | cons first rest ih => exact fun writes => ih (writeAddressChunk slot writes first)
  obtain ⟨accounts, others⟩ := writeAccountChunks_others slot
    ((chunk deltas.rows IN_CHUNK).foldl (writeAddressChunk slot) ⟨db, Table.empty⟩).db
    (chunk ((chunk deltas.rows IN_CHUNK).foldl (writeAddressChunk slot)
      ⟨db, Table.empty⟩).stakeDeltas.rows IN_CHUNK)
  rw [writeSums, others]
  exact chunks _ ⟨db, Table.empty⟩

namespace BlockEffect

variable {db : LedgerDb} {hashes : List TxHash} {slot : Nat}

/-- Undoing transactions that include those of a block forgets the block. -/
theorem undo_apply (effect : BlockEffect db hashes slot) (built : db.RowsBuilt)
    (fresh : db.FreshFor hashes) {undone : List TxHash} (included : ∀ h ∈ hashes, h ∈ undone) :
    undoRows effect.apply.utxos undone = undoRows db.utxos undone ∧
      undoAssetRows effect.apply.utxoAssets undone = undoAssetRows db.utxoAssets undone := by
  obtain ⟨sameUtxos, sameAssets⟩ :=
    writeSums_outputs slot effect.outputs (deltasOf effect.moves)
  constructor
  · rw [apply, sameUtxos, utxos_outputs, undoRows_upsertAll_spent effect.spent_nodup,
      undoRows_upsertAll_created]
    · intro row rowMem
      obtain ⟨output, created, rfl⟩ := List.mem_map.mp rowMem
      exact included _ (effect.created_hash output created)
    · intro row rowMem
      obtain ⟨old, oldMem, spender, spenderMem, unspent, rfl⟩ := effect.spent_open row rowMem
      refine ⟨old, ?_, spender, included _ spenderMem,
        ⟨unspent, built.unspent old oldMem unspent⟩, rfl⟩
      apply Table.mem_of_find? (k := old.outpoint)
      rw [Table.find?_upsertAll_of_notMem _ (effect.notMem_created fresh oldMem),
        Table.find?_of_mem oldMem]
  · rw [apply, sameAssets, utxoAssets_outputs]
    apply Table.delete_upsertAll db.utxoAssets
      (fun key : Outpoint × AssetUnit => decide (key.1.txHash ∈ undone))
    intro a aMem
    obtain ⟨output, created, aMem⟩ := List.mem_flatMap.mp aMem
    have owner := (effect.wellBuilt output created).assetsOwned a aMem
    apply decide_eq_true
    change a.utxo.txHash ∈ undone
    rw [owner]
    exact included _ (effect.created_hash output created)

/-- The outputs after a block are its own and those that were stored. -/
theorem created_apply (effect : BlockEffect db hashes slot) {row : LedgerUtxoRow}
    (rowMem : row ∈ effect.apply.utxos.rows) : row.txHash ∈ hashes ∨
      ∃ old ∈ db.utxos.rows, row.txHash = old.txHash := by
  rw [apply, (writeSums_outputs slot effect.outputs (deltasOf effect.moves)).1] at rowMem
  rcases mem_outputs rowMem with rowMem | ⟨output, created, rfl⟩ | ⟨old, oldMem, _, _, _, rfl⟩
  · exact Or.inr ⟨row, rowMem, rfl⟩
  · exact Or.inl (effect.created_hash output created)
  · exact Or.inr ⟨old, oldMem, rfl⟩

/-- The outputs spent after a block are spent by it or were spent before. -/
theorem spent_apply (effect : BlockEffect db hashes slot) {row : LedgerUtxoRow}
    (rowMem : row ∈ effect.apply.utxos.rows) {spender : TxHash}
    (isSpender : row.spentTxHash = some spender) : spender ∈ hashes ∨
      ∃ old ∈ db.utxos.rows, old.spentTxHash = some spender := by
  rw [apply, (writeSums_outputs slot effect.outputs (deltasOf effect.moves)).1] at rowMem
  rcases mem_outputs rowMem with rowMem | ⟨output, created, rfl⟩ |
    ⟨old, oldMem, marker, markerMem, _, rfl⟩
  · exact Or.inr ⟨row, rowMem, isSpender⟩
  · exact Or.inl (effect.created_spender output created spender isSpender)
  · cases Option.some.inj isSpender
    exact Or.inl markerMem

end BlockEffect

/-- Recounting leaves the output tables alone. -/
theorem recountLedgerAddresses_outputs (db : LedgerDb) (addresses : List Address) :
    (recountLedgerAddresses db addresses).utxos = db.utxos ∧
      (recountLedgerAddresses db addresses).utxoAssets = db.utxoAssets := by
  have counted : ∀ (addresses : List Address) (state : LedgerDb × List StakeAddress),
      (addresses.foldl
        (fun state address =>
          (recountAddress state.1 address,
            state.2 ++ (recountedAddress state.1 address).stakeAddress.toList)) state).1.utxos =
        state.1.utxos ∧
      (addresses.foldl
        (fun state address =>
          (recountAddress state.1 address,
            state.2 ++ (recountedAddress state.1 address).stakeAddress.toList))
        state).1.utxoAssets = state.1.utxoAssets := by
    intro addresses
    induction addresses with
    | nil => exact fun _ => ⟨rfl, rfl⟩
    | cons address rest ih => exact fun state => ih _
  obtain ⟨accounts, others⟩ := (recountLedgerAccounts_recounted
    (addresses.foldl
      (fun state address =>
        (recountAddress state.1 address,
          state.2 ++ (recountedAddress state.1 address).stakeAddress.toList)) (db, [])).1
    (distinct_nodup (addresses.foldl
      (fun state address =>
        (recountAddress state.1 address,
          state.2 ++ (recountedAddress state.1 address).stakeAddress.toList)) (db, [])).2)).others
  rw [recountLedgerAddresses, others]
  exact counted addresses (db, [])

/-- What an undo does to the output tables, whatever the chunks. -/
theorem undoLedgerForTransactions_outputs (db : LedgerDb) (txHashes : List TxHash) :
    (undoLedgerForTransactions db txHashes).1.utxos = undoRows db.utxos txHashes ∧
      (undoLedgerForTransactions db txHashes).1.utxoAssets =
        undoAssetRows db.utxoAssets txHashes := by
  have chunks : ∀ (chunks : List (List TxHash)) (state : LedgerDb × List Address),
      (chunks.foldl undoChunk state).1.utxos = undoRows state.1.utxos chunks.flatten ∧
        (chunks.foldl undoChunk state).1.utxoAssets =
          undoAssetRows state.1.utxoAssets chunks.flatten := by
    intro chunks
    induction chunks with
    | nil => exact fun state => ⟨(undoRows_nil _).symm, (undoAssetRows_nil _).symm⟩
    | cons hashChunk rest ih =>
        intro state
        obtain ⟨utxos, assets⟩ := ih (undoChunk state hashChunk)
        rw [List.foldl_cons, utxos, assets, List.flatten_cons, ← undoRows_append,
          ← undoAssetRows_append]
        exact ⟨rfl, rfl⟩
  unfold undoLedgerForTransactions
  split
  · rename_i nothing
    rw [nothing, undoRows_nil, undoAssetRows_nil]
    exact ⟨rfl, rfl⟩
  · have undone := chunks (chunk txHashes IN_CHUNK) (db, [])
    rw [flatten_chunk_IN_CHUNK] at undone
    obtain ⟨utxos, assets⟩ := recountLedgerAddresses_outputs
      ((chunk txHashes IN_CHUNK).foldl undoChunk (db, [])).1
      (distinct ((chunk txHashes IN_CHUNK).foldl undoChunk (db, [])).2)
    exact ⟨utxos.trans undone.1, assets.trans undone.2⟩

/-- The outputs a block writes depend on the output tables only. -/
theorem applyBlockToLedger_outputs {first second : LedgerDb} (utxos : first.utxos = second.utxos)
    (utxoAssets : first.utxoAssets = second.utxoAssets) (block : BlockData)
    (txs : List Transaction) :
    (applyBlockToLedger first block txs none).1.utxos =
        (applyBlockToLedger second block txs none).1.utxos ∧
      (applyBlockToLedger first block txs none).1.utxoAssets =
        (applyBlockToLedger second block txs none).1.utxoAssets := by
  obtain ⟨_, _, addresses, addressAssets, accounts⟩ := first
  subst utxos utxoAssets
  simp only [applyBlockToLedger, writeSums_outputs]
  exact ⟨rfl, rfl⟩

/-! ## Chains -/

/-- A block with its transactions. -/
structure LedgerBlock where
  block : BlockData
  txs : List Transaction
deriving DecidableEq

def LedgerBlock.hashes (b : LedgerBlock) : List TxHash := b.txs.map Transaction.hash

/-- The transactions of some blocks. -/
def chainHashes (blocks : List LedgerBlock) : List TxHash := blocks.flatMap LedgerBlock.hashes

/-- Apply blocks one after another. -/
def applyBlocks (db : LedgerDb) (blocks : List LedgerBlock) : LedgerDb :=
  blocks.foldl (fun db b => (applyBlockToLedger db b.block b.txs none).1) db

/-- Blocks that extend the chain a ledger describes: every transaction occurs
once on it and no output is consumed twice. -/
structure ExtendsLedger (db : LedgerDb) (blocks : List LedgerBlock) : Prop where
  hashes_once : (chainHashes blocks).Nodup
  hashes_new : ∀ row ∈ db.utxos.rows, row.txHash ∉ chainHashes blocks ∧
    ∀ spender ∈ row.spentTxHash, spender ∉ chainHashes blocks
  spends_once : ((blocks.flatMap fun b => blockSpends b.txs).map LedgerSpend.key).Nodup

omit [Bech32] in
/-- A prefix of blocks that extend a ledger extends it. -/
theorem ExtendsLedger.left {db : LedgerDb} {first rest : List LedgerBlock}
    (chain : ExtendsLedger db (first ++ rest)) : ExtendsLedger db first where
  hashes_once := by
    have once := chain.hashes_once
    rw [chainHashes, List.flatMap_append] at once
    exact (List.nodup_append.mp once).1
  hashes_new row rowMem := by
    have unmentioned := chain.hashes_new row rowMem
    simp only [chainHashes, List.flatMap_append, List.mem_append, not_or] at unmentioned ⊢
    exact ⟨unmentioned.1.1, fun spender isSpender => (unmentioned.2 spender isSpender).1⟩
  spends_once := by
    have once := chain.spends_once
    rw [List.flatMap_append, List.map_append] at once
    exact (List.nodup_append.mp once).1

/-- What applying a chain of blocks does to the output tables. -/
structure ChainEffect (db : LedgerDb) (blocks : List LedgerBlock) (after : LedgerDb) : Prop where
  consistent : after.Consistent
  undone : ∀ undone : List TxHash, (∀ h ∈ chainHashes blocks, h ∈ undone) →
    undoRows after.utxos undone = undoRows db.utxos undone ∧
      undoAssetRows after.utxoAssets undone = undoAssetRows db.utxoAssets undone
  created : ∀ row ∈ after.utxos.rows, row.txHash ∈ chainHashes blocks ∨
    ∃ old ∈ db.utxos.rows, row.txHash = old.txHash
  spent : ∀ row ∈ after.utxos.rows, ∀ spender, row.spentTxHash = some spender →
    spender ∈ chainHashes blocks ∨ ∃ old ∈ db.utxos.rows, old.spentTxHash = some spender

/-- Applying a chain keeps the invariant, and undoing forgets the chain. -/
theorem applyBlocks_effect {db : LedgerDb} {blocks : List LedgerBlock}
    (consistent : db.Consistent) (chain : ExtendsLedger db blocks) :
    ChainEffect db blocks (applyBlocks db blocks) := by
  have fresh : db.FreshFor (chainHashes blocks) := fun row rowMem => (chain.hashes_new row rowMem).1
  obtain ⟨hashesOnce, -, spendsOnce⟩ := chain
  induction blocks generalizing db with
  | nil =>
      exact ⟨consistent, fun _ _ => ⟨rfl, rfl⟩, fun row rowMem => Or.inr ⟨row, rowMem, rfl⟩,
        fun row rowMem _ isSpender => Or.inr ⟨row, rowMem, isSpender⟩⟩
  | cons b blocks ih =>
      simp only [chainHashes, List.flatMap_cons] at hashesOnce fresh
      rw [List.flatMap_cons, List.map_append] at spendsOnce
      obtain ⟨-, restHashes, apart⟩ := List.nodup_append.mp hashesOnce
      obtain ⟨blockSpendsOnce, restSpends, -⟩ := List.nodup_append.mp spendsOnce
      have blockFresh : db.FreshFor (b.txs.map Transaction.hash) := fun row rowMem inBlock =>
        fresh row rowMem (List.mem_append_left _ inBlock)
      obtain ⟨effect, applied⟩ := applyBlockToLedger_eq consistent.rowsBuilt b.block
        b.txs blockSpendsOnce none nofun
      have step : applyBlocks db (b :: blocks) = applyBlocks effect.apply blocks := by
        rw [applyBlocks, List.foldl_cons, applied]
        rfl
      have restFresh : effect.apply.FreshFor (chainHashes blocks) := by
        intro row rowMem later
        rcases effect.created_apply rowMem with own | ⟨old, oldMem, sameHash⟩
        · exact apart _ own _ later rfl
        · exact fresh old oldMem (sameHash ▸ List.mem_append_right _ later)
      have rest := ih (effect.apply_consistent consistent blockFresh) restFresh restHashes
        restSpends
      rw [step]
      refine ⟨rest.consistent, ?_, ?_, ?_⟩
      · intro undone included
        simp only [chainHashes, List.flatMap_cons] at included
        obtain ⟨restUtxos, restAssets⟩ := rest.undone undone fun h later =>
          included h (List.mem_append_right _ later)
        obtain ⟨undoUtxos, undoAssets⟩ := effect.undo_apply consistent.rowsBuilt blockFresh
          fun h inBlock => included h (List.mem_append_left _ inBlock)
        exact ⟨restUtxos.trans undoUtxos, restAssets.trans undoAssets⟩
      · intro row rowMem
        simp only [chainHashes, List.flatMap_cons, List.mem_append]
        rcases rest.created row rowMem with later | ⟨old, oldMem, sameHash⟩
        · exact Or.inl (Or.inr later)
        · rw [sameHash]
          exact (effect.created_apply oldMem).imp_left Or.inl
      · intro row rowMem spender isSpender
        simp only [chainHashes, List.flatMap_cons, List.mem_append]
        rcases rest.spent row rowMem spender isSpender with later | ⟨old, oldMem, oldSpender⟩
        · exact Or.inl (Or.inr later)
        · exact (effect.spent_apply oldMem oldSpender).imp_left Or.inl

/-- The rest of a chain extends the ledger its first blocks were applied to. -/
theorem ExtendsLedger.right {db : LedgerDb} {first rest : List LedgerBlock}
    (consistent : db.Consistent) (chain : ExtendsLedger db (first ++ rest)) :
    ExtendsLedger (applyBlocks db first) rest := by
  have effect := applyBlocks_effect consistent chain.left
  obtain ⟨hashesOnce, hashesNew, spendsOnce⟩ := chain
  simp only [chainHashes, List.flatMap_append] at hashesOnce hashesNew
  rw [List.flatMap_append, List.map_append] at spendsOnce
  obtain ⟨-, restHashes, apart⟩ := List.nodup_append.mp hashesOnce
  refine ⟨restHashes, ?_, (List.nodup_append.mp spendsOnce).2.1⟩
  intro row rowMem
  constructor
  · intro later
    rcases effect.created row rowMem with own | ⟨old, oldMem, sameHash⟩
    · exact apart _ own _ later rfl
    · exact (hashesNew old oldMem).1 (sameHash ▸ List.mem_append_right _ later)
  · intro spender isSpender later
    rcases effect.spent row rowMem spender isSpender with own | ⟨old, oldMem, oldSpender⟩
    · exact apart _ own _ later rfl
    · exact (hashesNew old oldMem).2 spender oldSpender (List.mem_append_right _ later)

/-- Undoing a chain, and transactions nothing stored mentions, restores the
output tables the chain was applied to. -/
theorem undo_applyBlocks {db : LedgerDb} {blocks : List LedgerBlock}
    (consistent : db.Consistent) (chain : ExtendsLedger db blocks) {rolledBack : List TxHash}
    (included : ∀ h ∈ chainHashes blocks, h ∈ rolledBack)
    (unmentioned : ∀ row ∈ db.utxos.rows, row.txHash ∉ rolledBack ∧
      ∀ spender ∈ row.spentTxHash, spender ∉ rolledBack) :
    undoRows (applyBlocks db blocks).utxos rolledBack = db.utxos ∧
      undoAssetRows (applyBlocks db blocks).utxoAssets rolledBack = db.utxoAssets := by
  obtain ⟨undoUtxos, undoAssets⟩ := (applyBlocks_effect consistent chain).undone _ included
  rw [undoUtxos, undoAssets]
  refine ⟨undoRows_eq_self unmentioned, undoAssetRows_eq_self ?_⟩
  intro a aMem undone
  obtain ⟨row, rowMem, owner, -⟩ := consistent.rowsBuilt.assetOwned a aMem
  refine (unmentioned row rowMem).1 ?_
  rwa [← LedgerUtxoRow.outpoint_txHash, owner]

/-- Two ledgers hold the same outputs and the same sums over them.  Slots and
emptied address rows may differ. -/
structure SameLedger (first second : LedgerDb) : Prop where
  utxos : first.utxos = second.utxos
  utxoAssets : first.utxoAssets = second.utxoAssets
  totalLovelace : ∀ address, first.totalLovelace address = second.totalLovelace address
  utxoCount : ∀ address, first.utxoCount address = second.utxoCount address
  assetQuantity : ∀ address unit,
    first.assetQuantity address unit = second.assetQuantity address unit
  controlledAmount : ∀ stake, first.controlledAmount stake = second.controlledAmount stake
  accountUtxoCount : ∀ stake, first.accountUtxoCount stake = second.accountUtxoCount stake

/-- The sums are functions of the outputs. -/
theorem SameLedger.of_outputs {first second : LedgerDb} (firstConsistent : first.Consistent)
    (secondConsistent : second.Consistent) (utxos : first.utxos = second.utxos)
    (utxoAssets : first.utxoAssets = second.utxoAssets) : SameLedger first second := by
  have firstSums := firstConsistent.sumsAgree
  have secondSums := secondConsistent.sumsAgree
  have sameHolding : ∀ unit, first.holding unit = second.holding unit := by
    intro unit
    funext row
    rw [LedgerDb.holding, utxoAssets]
    rfl
  refine ⟨utxos, utxoAssets, ?_, ?_, ?_, ?_, ?_⟩
  · intro address
    rw [firstSums.totalLovelace, secondSums.totalLovelace, LedgerDb.openSum, utxos]
    rfl
  · intro address
    rw [firstSums.utxoCount, secondSums.utxoCount, LedgerDb.openSum, utxos]
    rfl
  · intro address unit
    rw [firstSums.assetQuantity, secondSums.assetQuantity, sameHolding, LedgerDb.openSum, utxos]
    rfl
  · intro stake
    rw [firstSums.controlledAmount, secondSums.controlledAmount, LedgerDb.openStakeSum, utxos]
    rfl
  · intro stake
    rw [firstSums.accountUtxoCount, secondSums.accountUtxoCount, LedgerDb.openStakeSum, utxos]
    rfl

/-- Blocks applied to ledgers with the same outputs leave the same outputs. -/
theorem applyBlocks_outputs {first second : LedgerDb} (utxos : first.utxos = second.utxos)
    (utxoAssets : first.utxoAssets = second.utxoAssets) (blocks : List LedgerBlock) :
    (applyBlocks first blocks).utxos = (applyBlocks second blocks).utxos ∧
      (applyBlocks first blocks).utxoAssets = (applyBlocks second blocks).utxoAssets := by
  induction blocks generalizing first second with
  | nil => exact ⟨utxos, utxoAssets⟩
  | cons b blocks ih =>
      obtain ⟨nextUtxos, nextAssets⟩ :=
        applyBlockToLedger_outputs utxos utxoAssets b.block b.txs
      exact ih nextUtxos nextAssets

/-- A consistent ledger with the output tables a snapshot has after some blocks. -/
structure HoldsChain (snapshot : LedgerDb) (blocks : List LedgerBlock) (ledger : LedgerDb) :
    Prop where
  snapshotConsistent : snapshot.Consistent
  consistent : ledger.Consistent
  utxos : ledger.utxos = (applyBlocks snapshot blocks).utxos
  utxoAssets : ledger.utxoAssets = (applyBlocks snapshot blocks).utxoAssets

namespace HoldsChain

variable {snapshot ledger : LedgerDb} {blocks : List LedgerBlock}

theorem sameLedger (holds : HoldsChain snapshot blocks ledger)
    (chain : ExtendsLedger snapshot blocks) :
    SameLedger ledger (applyBlocks snapshot blocks) :=
  SameLedger.of_outputs holds.consistent
    (applyBlocks_effect holds.snapshotConsistent chain).consistent holds.utxos holds.utxoAssets

/-- Some more blocks are applied. -/
theorem applyBlocks (holds : HoldsChain snapshot blocks ledger) {later : List LedgerBlock}
    (chain : ExtendsLedger snapshot (blocks ++ later)) :
    HoldsChain snapshot (blocks ++ later) (Odatano.applyBlocks ledger later) := by
  have laterChain : ExtendsLedger ledger later := by
    obtain ⟨once, isNew, spendsOnce⟩ := chain.right holds.snapshotConsistent
    rw [← holds.utxos] at isNew
    exact ⟨once, isNew, spendsOnce⟩
  obtain ⟨utxos, assets⟩ := applyBlocks_outputs holds.utxos holds.utxoAssets later
  have split : Odatano.applyBlocks snapshot (blocks ++ later) =
      Odatano.applyBlocks (Odatano.applyBlocks snapshot blocks) later := List.foldl_append
  refine ⟨holds.snapshotConsistent, (applyBlocks_effect holds.consistent laterChain).consistent, ?_, ?_⟩
  · rw [split, utxos]
  · rw [split, assets]

/-- The last blocks are undone, with transactions of later blocks that were
never applied. -/
theorem undo {kept undone skipped : List LedgerBlock}
    (holds : HoldsChain snapshot (kept ++ undone) ledger)
    (chain : ExtendsLedger snapshot (kept ++ (undone ++ skipped))) {rolledBack : List TxHash}
    (included : ∀ h ∈ chainHashes undone, h ∈ rolledBack)
    (later : ∀ h ∈ rolledBack, h ∈ chainHashes (undone ++ skipped)) :
    HoldsChain snapshot kept (undoLedgerForTransactions ledger rolledBack).1 := by
  have keptConsistent : (Odatano.applyBlocks snapshot kept).Consistent :=
    (applyBlocks_effect holds.snapshotConsistent chain.left).consistent
  have rest : ExtendsLedger (Odatano.applyBlocks snapshot kept) (undone ++ skipped) :=
    chain.right holds.snapshotConsistent
  have split : Odatano.applyBlocks snapshot (kept ++ undone) =
      Odatano.applyBlocks (Odatano.applyBlocks snapshot kept) undone := List.foldl_append
  obtain ⟨restoredUtxos, restoredAssets⟩ := undo_applyBlocks keptConsistent rest.left included
    fun row rowMem =>
      ⟨fun undone => (rest.hashes_new row rowMem).1 (later _ undone),
        fun spender isSpender undone =>
          (rest.hashes_new row rowMem).2 spender isSpender (later _ undone)⟩
  obtain ⟨utxos, assets⟩ := undoLedgerForTransactions_outputs ledger rolledBack
  refine ⟨holds.snapshotConsistent,
    undoLedgerForTransactions_consistent holds.consistent rolledBack, ?_, ?_⟩
  · rw [utxos, holds.utxos, split, restoredUtxos]
  · rw [assets, holds.utxoAssets, split, restoredAssets]

end HoldsChain

/-- A ledger that followed a fork, rolled it back and followed another chain
holds what the ledger that followed only that chain holds. -/
theorem ledger_path_independent {db : LedgerDb} (consistent : db.Consistent)
    {abandoned followed : List LedgerBlock} (abandonedChain : ExtendsLedger db abandoned)
    (followedChain : ExtendsLedger db followed) {rolledBack : List TxHash}
    (all : ∀ h, h ∈ rolledBack ↔ h ∈ chainHashes abandoned) :
    SameLedger
      (applyBlocks (undoLedgerForTransactions (applyBlocks db abandoned) rolledBack).1 followed)
      (applyBlocks db followed) := by
  have start : HoldsChain db [] db := ⟨consistent, consistent, rfl, rfl⟩
  have extended : ExtendsLedger db ([] ++ (abandoned ++ [])) := by
    rw [List.append_nil]
    exact abandonedChain
  have onFork : HoldsChain db ([] ++ abandoned) (applyBlocks db abandoned) :=
    start.applyBlocks abandonedChain
  have returned := onFork.undo extended (fun h => (all h).mpr) fun h undone => by
    rw [List.append_nil]
    exact (all h).mp undone
  exact (returned.applyBlocks followedChain).sameLedger followedChain

end Blocks

section Sample

attribute [local instance] byronBech32

/-- The second sample transaction, in the block at `slot`. -/
def sampleFork (slot : Nat) : List LedgerBlock :=
  [⟨sampleBlock (text "fork") slot 1, sampleTxs slot⟩]

theorem sampleFork_extends (slot : Nat) (past : slot = 20 ∨ slot = 21) :
    ExtendsLedger sampleFirst (sampleFork slot) := by
  rcases past with rfl | rfl <;> exact ⟨by decide +kernel, by decide +kernel, by decide +kernel⟩

theorem ledger_path_independent_sample :
    SameLedger
      (applyBlocks
        (undoLedgerForTransactions (applyBlocks sampleFirst (sampleFork 20)) [text "t2"]).1
        (sampleFork 21))
      (applyBlocks sampleFirst (sampleFork 21)) := by
  have consistent : LedgerDb.Consistent sampleFirst :=
    applyBlockToLedger_consistent
      (aggregateStatements_consistent LedgerDb.empty_rowsBuilt rfl)
      (sampleBlock (text "b10") 10 1) (by unfold LedgerDb.FreshFor; decide +kernel)
      (by unfold ConsumesOnce; decide +kernel) nofun
  apply ledger_path_independent consistent (sampleFork_extends 20 (Or.inl rfl))
    (sampleFork_extends 21 (Or.inr rfl))
  intro h
  rfl

end Sample

end Odatano
