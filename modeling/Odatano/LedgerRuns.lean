import Mathlib.Logic.Relation
import Odatano.LedgerAggregates

/-!
# Ledger runs

The import's aggregates establish the ledger invariant, applying a block and
undoing transactions keep it, so the stored sums agree with the open outputs
after every operation of every run.
-/

namespace Odatano

open LedgerState

section Operations

variable [Bech32] {db : LedgerDb}

/-! ## Undo -/

omit [Bech32] in
/-- An address none of whose rows is dropped or reopened keeps its open rows. -/
theorem select_undoRows {utxos : Table LedgerUtxoRow.outpoint} {hashes : List TxHash}
    {address : Address}
    (untouched : ∀ row ∈ utxos.rows, row.address = address →
      row.txHash ∉ hashes ∧ row.spentBy hashes = false) :
    ((undoRows utxos hashes).select fun row => row.openAt address) =
      utxos.select fun row => row.openAt address := by
  simp only [undoRows, Table.select, Table.update, Table.delete]
  generalize utxos.rows = stored at untouched ⊢
  induction stored with
  | nil => rfl
  | cons row rows ih =>
      have rest := ih fun other otherMem => untouched other (List.mem_cons_of_mem _ otherMem)
      by_cases here : row.address = address
      · obtain ⟨notDropped, notReopened⟩ := untouched row (List.mem_cons_self ..) here
        simp [notDropped, notReopened, List.filter_cons, rest]
      · have elsewhere : row.openAt address = false := by simp [LedgerUtxoRow.openAt, here]
        have reopenedElsewhere : row.reopen.openAt address = false := by
          simp [LedgerUtxoRow.openAt, LedgerUtxoRow.reopen, here]
        by_cases dropped : row.txHash ∈ hashes
        · simp [dropped, rest, elsewhere]
        · by_cases reopened : row.spentBy hashes = true <;>
            simp [dropped, reopened, rest, elsewhere, reopenedElsewhere]

omit [Bech32] in
theorem mem_undoRows {utxos : Table LedgerUtxoRow.outpoint} {hashes : List TxHash}
    {row : LedgerUtxoRow} (rowMem : row ∈ (undoRows utxos hashes).rows) :
    ∃ old ∈ utxos.rows, old.txHash ∉ hashes ∧
      (row = old ∨ row = old.reopen) := by
  obtain ⟨old, oldMem, rfl⟩ := List.mem_map.mp rowMem
  obtain ⟨oldMem, kept⟩ := Table.mem_delete.mp oldMem
  refine ⟨old, oldMem, by simpa using kept, ?_⟩
  split
  · exact Or.inr rfl
  · exact Or.inl rfl

omit [Bech32] in
theorem undoRows_of_mem {utxos : Table LedgerUtxoRow.outpoint} {hashes : List TxHash}
    {row : LedgerUtxoRow} (rowMem : row ∈ utxos.rows) (kept : row.txHash ∉ hashes) :
    ∃ row' ∈ (undoRows utxos hashes).rows, row'.outpoint = row.outpoint ∧
      row'.hasAssets = row.hasAssets := by
  refine ⟨if row.spentBy hashes then row.reopen else row, ?_, ?_, ?_⟩
  · exact List.mem_map.mpr ⟨row, Table.mem_delete.mpr ⟨rowMem, by simpa using kept⟩, rfl⟩
  · split <;> rfl
  · split <;> rfl

/-- What dropping and reopening rows leaves alone.  `touched` are the addresses
of the rows it changed. -/
structure RowsUndone (before after : LedgerDb) (touched : List Address) : Prop where
  addresses : after.addresses = before.addresses
  accounts : after.accounts = before.accounts
  rowsBuilt : after.RowsBuilt
  untouched : ∀ address, address ∉ touched → before.AddressAgrees address →
    after.AddressAgrees address

theorem undoChunk_undone (built : db.RowsBuilt) (touched : List Address)
    (hashChunk : List TxHash) :
    RowsUndone db (undoChunk (db, touched) hashChunk).1
      ((db.utxos.select (fun row => decide (row.txHash ∈ hashChunk)) ++
        db.utxos.select fun row => row.spentBy hashChunk).map LedgerUtxoRow.address) where
  addresses := rfl
  accounts := rfl
  rowsBuilt := by
    refine ⟨?_, ?_, ?_⟩
    · intro row rowMem
      obtain ⟨old, oldMem, -, rfl | rfl⟩ := mem_undoRows rowMem
      · exact built.ownerDecoded row oldMem
      · have decoded := built.ownerDecoded old oldMem
        exact ⟨decoded.stakeAddress, decoded.addressType, decoded.isScript,
          decoded.paymentCredential⟩
    · intro row rowMem unspent
      obtain ⟨old, oldMem, -, rfl | rfl⟩ := mem_undoRows rowMem
      · exact built.unspent row oldMem unspent
      · rfl
    · intro a aMem
      obtain ⟨aMem, kept⟩ := Table.mem_delete.mp aMem
      obtain ⟨row, rowMem, owner, hasAssets⟩ := built.assetOwned a aMem
      have rowKept : row.txHash ∉ hashChunk := by
        rw [← LedgerUtxoRow.outpoint_txHash, owner]
        simpa using kept
      obtain ⟨row', row'Mem, sameKey, sameAssets⟩ := undoRows_of_mem rowMem rowKept
      exact ⟨row', row'Mem, sameKey.trans owner, sameAssets.trans hasAssets⟩
  untouched := by
    intro address untouched agrees
    have rowsUntouched : ∀ row ∈ db.utxos.rows, row.address = address →
        row.txHash ∉ hashChunk ∧ row.spentBy hashChunk = false := by
      intro row rowMem here
      simp only [List.map_append, List.mem_append, List.mem_map, Table.mem_select,
        decide_eq_true_eq, not_or, not_exists, not_and] at untouched
      refine ⟨fun created => untouched.1 row ⟨rowMem, created⟩ here, ?_⟩
      by_contra spent
      exact untouched.2 row ⟨rowMem, by simpa using spent⟩ here
    have sameOpenSum : ∀ quantity, (undoChunk (db, touched) hashChunk).1.openSum address
        quantity = db.openSum address quantity := by
      intro quantity
      simp only [LedgerDb.openSum, undoChunk, select_undoRows rowsUntouched]
    refine ⟨?_, ?_, ?_⟩
    · rw [sameOpenSum, ← agrees.totalLovelace]
      rfl
    · rw [sameOpenSum, ← agrees.utxoCount]
      rfl
    · intro unit
      have sameHolding : (db.openSum address
            ((undoChunk (db, touched) hashChunk).1.holding unit)) =
          db.openSum address (db.holding unit) := by
        apply congrArg List.sum
        apply List.map_congr_left
        intro row rowMem
        obtain ⟨rowMem, isOpen⟩ := Table.mem_select.mp rowMem
        have here : row.address = address := by
          simp only [LedgerUtxoRow.openAt, Bool.and_eq_true, decide_eq_true_eq] at isOpen
          exact isOpen.1
        have kept := (rowsUntouched row rowMem here).1
        rw [LedgerDb.holding, LedgerDb.holding, Table.contribution, Table.contribution]
        congr 2
        change (undoAssetRows db.utxoAssets hashChunk).find? _ = _
        rw [undoAssetRows, Table.find?_delete]
        cases found : db.utxoAssets.find? (row.outpoint, unit) with
        | none => rfl
        | some a =>
            have sameOwner : a.utxo = row.outpoint :=
              congrArg Prod.fst (Table.key_of_find? found)
            simp [Option.filter, sameOwner, kept]
      rw [sameOpenSum, sameHolding, ← agrees.assetQuantity]
      rfl

theorem RowsUndone.trans {first second third : LedgerDb} {touched others : List Address}
    (undone : RowsUndone first second touched) (next : RowsUndone second third others) :
    RowsUndone first third (touched ++ others) where
  addresses := next.addresses.trans undone.addresses
  accounts := next.accounts.trans undone.accounts
  rowsBuilt := next.rowsBuilt
  untouched := by
    intro address untouched agrees
    rw [List.mem_append, not_or] at untouched
    exact next.untouched address untouched.2 (undone.untouched address untouched.1 agrees)

theorem undoChunks_undone (built : db.RowsBuilt) (chunks : List (List TxHash))
    (touched : List Address) :
    ∃ gained, (chunks.foldl undoChunk (db, touched)).2 = touched ++ gained ∧
      RowsUndone db (chunks.foldl undoChunk (db, touched)).1 gained := by
  induction chunks generalizing db touched with
  | nil => exact ⟨[], by simp, rfl, rfl, built, fun _ _ agrees => agrees⟩
  | cons hashChunk chunks ih =>
      have first := undoChunk_undone built touched hashChunk
      obtain ⟨gained, touchedEq, rest⟩ := ih first.rowsBuilt (undoChunk (db, touched) hashChunk).2
      refine ⟨_, ?_, first.trans rest⟩
      rw [List.foldl_cons]
      rw [touchedEq]
      exact List.append_assoc _ _ _

/-- Undoing any list of transactions keeps the invariant. -/
theorem undoLedgerForTransactions_consistent (consistent : db.Consistent)
    (txHashes : List TxHash) : (undoLedgerForTransactions db txHashes).1.Consistent := by
  unfold undoLedgerForTransactions
  split
  · exact consistent
  · obtain ⟨gained, touchedEq, undone⟩ :=
      undoChunks_undone consistent.rowsBuilt (chunk txHashes IN_CHUNK) []
    refine (recountLedgerAddresses_consistent undone.rowsBuilt ?_ ?_ ?_).1
    · unfold LedgerDb.StakesDecoded
      rw [undone.addresses]
      exact consistent.stakesDecoded
    · intro stake
      have agrees := consistent.accountsAgree stake
      refine ⟨?_, ?_, ?_⟩
      · rw [LedgerDb.controlledAmount, LedgerDb.stakeSum, undone.accounts, undone.addresses]
        exact agrees.controlledAmount
      · rw [LedgerDb.accountUtxoCount, LedgerDb.stakeSum, undone.accounts, undone.addresses]
        exact agrees.accountUtxoCount
      · rw [LedgerDb.addressCount, LedgerDb.stakeSum, undone.accounts, undone.addresses]
        exact agrees.addressCount
    · intro address untouched
      rw [mem_distinct, touchedEq, List.nil_append] at untouched
      exact undone.untouched address untouched (consistent.addressesAgree address)

/-! ## Runs -/

/-- One ledger operation: a block whose transactions have no stored output and
that consumes no output twice, or an undo of any transactions.  The block may
come with rows its caller already read. -/
inductive LedgerStep : LedgerDb → LedgerDb → Prop
  | apply {db : LedgerDb} (block : BlockData) {txs : List Transaction}
      {lookup : Option LedgerLookup}
      (fresh : db.FreshFor (txs.map Transaction.hash)) (once : ConsumesOnce txs)
      (answers : ∀ read ∈ lookup, LedgerLookup.Answers db read) :
      LedgerStep db (applyBlockToLedger db block txs lookup).1
  | undo {db : LedgerDb} (txHashes : List TxHash) :
      LedgerStep db (undoLedgerForTransactions db txHashes).1

theorem applyBlockToLedger_consistent (consistent : db.Consistent) (block : BlockData)
    {txs : List Transaction} {lookup : Option LedgerLookup}
    (fresh : db.FreshFor (txs.map Transaction.hash)) (once : ConsumesOnce txs)
    (answers : ∀ read ∈ lookup, LedgerLookup.Answers db read) :
    (applyBlockToLedger db block txs lookup).1.Consistent := by
  obtain ⟨effect, applied⟩ :=
    applyBlockToLedger_eq consistent.rowsBuilt block txs once lookup answers
  rw [applied]
  exact effect.apply_consistent consistent fresh

theorem LedgerStep.consistent {after : LedgerDb} (step : LedgerStep db after)
    (consistent : db.Consistent) : after.Consistent := by
  cases step with
  | apply block fresh once answers =>
      exact applyBlockToLedger_consistent consistent block fresh once answers
  | undo txHashes => exact undoLedgerForTransactions_consistent consistent txHashes

theorem ledgerRun_consistent {after : LedgerDb}
    (run : Relation.ReflTransGen LedgerStep db after) (consistent : db.Consistent) :
    after.Consistent := by
  induction run with
  | refl => exact consistent
  | tail _ step ih => exact step.consistent ih

/-- After any run of operations from aggregated rows, the stored sums are the
sums over the open outputs. -/
theorem ledger_sums_agree {rows base after : LedgerDb} (built : rows.RowsBuilt)
    (aggregated : aggregateStatements rows.clearSums = some base)
    (run : Relation.ReflTransGen LedgerStep base after) : after.SumsAgree :=
  (ledgerRun_consistent run (aggregateStatements_consistent built aggregated)).sumsAgree

theorem LedgerDb.empty_rowsBuilt : LedgerDb.empty.RowsBuilt :=
  ⟨by simp [LedgerDb.empty], by simp [LedgerDb.empty], by simp [LedgerDb.empty]⟩

end Operations

/-! ### A sample run -/

/-- Transaction `t1` creates the sample output, `t2` spends it and creates it again. -/
def sampleTxs (slot : Nat) : List Transaction :=
  if slot = 10 then [sampleTx (text "t1") (text "b10") 10 [] [sampleOutput]]
  else [sampleTx (text "t2") (text "b20") 20 [⟨text "t1", 0⟩] [sampleOutput, sampleOutput]]

section Sample

attribute [local instance] byronBech32

/-- The ledger after the first sample block. -/
def sampleFirst : LedgerDb :=
  (applyBlockToLedger LedgerDb.empty (sampleBlock (text "b10") 10 1) (sampleTxs 10) none).1

/-- The ledger after both sample blocks. -/
def sampleSecond : LedgerDb :=
  (applyBlockToLedger sampleFirst (sampleBlock (text "b20") 20 1) (sampleTxs 20) none).1

theorem ledger_sums_agree_sample :
    (undoLedgerForTransactions sampleSecond [text "t2"]).1.SumsAgree := by
  have first : LedgerStep LedgerDb.empty sampleFirst :=
    LedgerStep.apply (sampleBlock (text "b10") 10 1)
      (by unfold LedgerDb.FreshFor; decide +kernel) (by unfold ConsumesOnce; decide +kernel)
      nofun
  have second : LedgerStep sampleFirst sampleSecond :=
    LedgerStep.apply (sampleBlock (text "b20") 20 1)
      (by unfold LedgerDb.FreshFor; decide +kernel) (by unfold ConsumesOnce; decide +kernel)
      nofun
  have third : LedgerStep sampleSecond (undoLedgerForTransactions sampleSecond [text "t2"]).1 :=
    LedgerStep.undo [text "t2"]
  have run := ((Relation.ReflTransGen.refl.tail first).tail second).tail third
  have aggregated : aggregateStatements LedgerDb.empty.clearSums = some LedgerDb.empty := rfl
  exact ledger_sums_agree LedgerDb.empty_rowsBuilt aggregated run

end Sample

end Odatano
