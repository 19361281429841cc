import Mathlib.Algebra.BigOperators.Ring.List
import Odatano.LedgerEffect

/-!
# The moves of a block account for its effect

Writing the outputs of a block changes what is open at an address by the moves
of the block at that address, and the deltas of the block add those moves up.
-/

namespace Odatano

/-- A quantity summed over the moves at an address, with their signs. -/
def moveSum (moves : List LedgerMove) (address : Address) (quantity : LedgerUtxoRow → Int) :
    Int :=
  (moves.map fun move =>
    if move.row.address = address then move.sign * quantity move.row else 0).sum

/-- The quantity of a unit in a list of asset rows. -/
def quantityOf (assets : List LedgerUtxoAssetRow) (unit : AssetUnit) : Int :=
  (assets.map fun a => if a.unit = unit then a.asset.quantity else 0).sum

theorem moveSum_append (first second : List LedgerMove) (address : Address)
    (quantity : LedgerUtxoRow → Int) :
    moveSum (first ++ second) address quantity =
      moveSum first address quantity + moveSum second address quantity := by
  simp [moveSum]

/-- A created output ends up at its address unless the block spent it. -/
theorem moveSum_outputMoves (output : LedgerOutput) (address : Address)
    (quantity : LedgerUtxoRow → Int) :
    moveSum (outputMoves output) address quantity =
      if output.row.openAt address then quantity output.row else 0 := by
  cases spent : output.row.spentTxHash with
  | none => simp [moveSum, outputMoves, LedgerUtxoRow.openAt, spent]
  | some _ =>
      by_cases here : output.row.address = address <;>
        simp [moveSum, outputMoves, LedgerUtxoRow.openAt, spent, here]

theorem moveSum_flatMap_outputMoves (created : List LedgerOutput) (address : Address)
    (quantity : LedgerUtxoRow → Int) :
    moveSum (created.flatMap outputMoves) address quantity =
      (created.map fun output =>
        if output.row.openAt address then quantity output.row else 0).sum := by
  induction created with
  | nil => rfl
  | cons output created ih =>
      rw [List.flatMap_cons, moveSum_append, moveSum_outputMoves, ih, List.map_cons,
        List.sum_cons]

/-! ## Deltas add up moves -/

private theorem measure_applyDelta_assets (move : LedgerMove) (d : AddressDelta)
    (unit : AssetUnit) :
    OrderedMap.measure (applyDelta move d).assets id unit =
      OrderedMap.measure d.assets id unit + move.sign * quantityOf move.assets unit := by
  have added := OrderedMap.measure_accumulate LedgerUtxoAssetRow.unit (fun _ => (0 : Int))
    (fun a quantity => quantity + move.sign * a.asset.quantity) id
    (fun a => move.sign * a.asset.quantity) (fun a (_ : a ∈ move.assets) => rfl)
    (fun _ _ _ => rfl) d.assets unit
  refine added.trans ?_
  rw [quantityOf, ← List.sum_map_mul_left]
  simp only [mul_ite, mul_zero]

theorem measure_deltasOf_lovelace (moves : List LedgerMove) (address : Address) :
    OrderedMap.measure (deltasOf moves) AddressDelta.lovelace address =
      moveSum moves address LedgerUtxoRow.lovelace := by
  have added := OrderedMap.measure_accumulate (fun move => move.row.address)
    (fun move => AddressDelta.start move.row) applyDelta AddressDelta.lovelace
    (fun move => move.sign * move.row.lovelace) (fun move (_ : move ∈ moves) => rfl)
    (fun _ _ _ => rfl) Table.empty address
  simpa [OrderedMap.measure, deltasOf, moveSum] using added

theorem measure_deltasOf_utxos (moves : List LedgerMove) (address : Address) :
    OrderedMap.measure (deltasOf moves) AddressDelta.utxos address =
      moveSum moves address fun _ => 1 := by
  have added := OrderedMap.measure_accumulate (fun move => move.row.address)
    (fun move => AddressDelta.start move.row) applyDelta AddressDelta.utxos
    LedgerMove.sign (fun move (_ : move ∈ moves) => rfl) (fun _ _ _ => rfl) Table.empty address
  simpa [OrderedMap.measure, deltasOf, moveSum] using added

theorem measure_deltasOf_assets {moves : List LedgerMove} {quantity : LedgerUtxoRow → Int}
    {unit : AssetUnit}
    (held : ∀ move ∈ moves, quantityOf move.assets unit = quantity move.row)
    (address : Address) :
    OrderedMap.measure (deltasOf moves) (fun d => OrderedMap.measure d.assets id unit) address =
      moveSum moves address quantity := by
  have added := OrderedMap.measure_accumulate (fun move => move.row.address)
    (fun move => AddressDelta.start move.row) applyDelta
    (fun d => OrderedMap.measure d.assets id unit)
    (fun move => move.sign * quantityOf move.assets unit) (fun move (_ : move ∈ moves) => rfl)
    (fun move _ d => measure_applyDelta_assets move d unit) Table.empty address
  refine added.trans ?_
  have nothing : OrderedMap.measure (Table.empty : OrderedMap Address AddressDelta)
      (fun d => OrderedMap.measure d.assets id unit) address = 0 := rfl
  rw [nothing, zero_add, moveSum]
  apply congrArg List.sum
  apply List.map_congr_left
  intro move moveMem
  rw [held move moveMem]

/-- Every delta carries the stake key of its address. -/
theorem deltasOf_stakeAddress [Bech32] {moves : List LedgerMove}
    (decoded : ∀ move ∈ moves, move.row.OwnerDecoded) :
    ∀ entry ∈ (deltasOf moves).rows,
      entry.2.stakeAddress = (decodeShelleyAddress entry.1).stakeAddress := by
  have kept := OrderedMap.forall_get?_accumulate
    (fun address (d : AddressDelta) =>
      d.stakeAddress = (decodeShelleyAddress address).stakeAddress)
    (fun move : LedgerMove => move.row.address) (fun move => AddressDelta.start move.row)
    applyDelta Table.empty moves (by simp)
    (by exact fun move moveMem => (decoded move moveMem).stakeAddress)
    fun _ _ _ kept => kept
  intro entry entryMem
  exact kept entry.1 entry.2 (OrderedMap.get?_eq_some_iff.mpr entryMem)

/-! ## Outputs after a block -/

namespace BlockEffect

variable [Bech32] {db : LedgerDb} {hashes : List TxHash} {slot : Nat}
  (effect : BlockEffect db hashes slot)

theorem utxos_outputs : effect.outputs.utxos =
    (db.utxos.upsertAll (effect.created.map LedgerOutput.row)).upsertAll effect.spentRows := by
  simp [outputs, writeOutputs]

theorem utxoAssets_outputs : effect.outputs.utxoAssets =
    db.utxoAssets.upsertAll (effect.created.flatMap LedgerOutput.assets) := by
  simp [outputs, writeOutputs]

variable {effect}

theorem notMem_created (effect : BlockEffect db hashes slot) (fresh : db.FreshFor hashes)
    {row : LedgerUtxoRow}
    (rowMem : row ∈ db.utxos.rows) :
    row.outpoint ∉ (effect.created.map LedgerOutput.row).map LedgerUtxoRow.outpoint := by
  rw [List.map_map]
  intro created
  obtain ⟨output, outputMem, sameKey⟩ := List.mem_map.mp created
  have outputHash := effect.created_hash output outputMem
  have sameHash : output.row.txHash = row.txHash := congrArg Outpoint.txHash sameKey
  exact fresh row rowMem (sameHash ▸ outputHash)

/-- A stored output stays stored, marked at most. -/
theorem stored_outputs (effect : BlockEffect db hashes slot) (fresh : db.FreshFor hashes)
    {row : LedgerUtxoRow}
    (rowMem : row ∈ db.utxos.rows) :
    ∃ row' ∈ effect.outputs.utxos.rows, row'.outpoint = row.outpoint ∧
      row'.hasAssets = row.hasAssets := by
  have kept : (db.utxos.upsertAll (effect.created.map LedgerOutput.row)).find? row.outpoint =
      some row := by
    rw [Table.find?_upsertAll_of_notMem _ (effect.notMem_created fresh rowMem),
      Table.find?_of_mem rowMem]
  by_cases spent : row.outpoint ∈ effect.spentRows.map LedgerUtxoRow.outpoint
  · obtain ⟨row', row'Mem, sameKey⟩ := List.mem_map.mp spent
    have stored : row' ∈ effect.outputs.utxos.rows := by
      rw [utxos_outputs]
      exact Table.mem_of_find? (Table.find?_upsertAll_of_mem _ effect.spent_nodup row'Mem)
    obtain ⟨old, oldMem, spender, -, -, rfl⟩ := effect.spent_open row' row'Mem
    obtain rfl : old = row := Table.mem_rows_inj oldMem rowMem sameKey
    exact ⟨_, stored, rfl, rfl⟩
  · refine ⟨row, ?_, rfl, rfl⟩
    rw [utxos_outputs]
    apply Table.mem_of_find? (k := row.outpoint)
    rw [Table.find?_upsertAll_of_notMem _ spent, kept]

/-- A created output is stored. -/
theorem created_mem_outputs (fresh : db.FreshFor hashes) {output : LedgerOutput}
    (created : output ∈ effect.created) : output.row ∈ effect.outputs.utxos.rows := by
  rw [utxos_outputs]
  apply Table.mem_of_find? (k := output.row.outpoint)
  rw [Table.find?_upsertAll_of_notMem]
  · exact Table.find?_upsertAll_of_mem _ effect.created_nodup
      (List.mem_map.mpr ⟨output, created, rfl⟩)
  · intro spent
    obtain ⟨row', row'Mem, sameKey⟩ := List.mem_map.mp spent
    obtain ⟨old, oldMem, spender, -, -, rfl⟩ := effect.spent_open row' row'Mem
    refine effect.notMem_created fresh oldMem ?_
    rw [← LedgerUtxoRow.outpoint_markSpent old spender slot, sameKey]
    exact List.mem_map.mpr ⟨output.row, List.mem_map.mpr ⟨output, created, rfl⟩, rfl⟩

/-- Where the output rows after a block come from. -/
theorem mem_outputs {row : LedgerUtxoRow} (rowMem : row ∈ effect.outputs.utxos.rows) :
    row ∈ db.utxos.rows ∨ (∃ output ∈ effect.created, output.row = row) ∨
      ∃ old ∈ db.utxos.rows, ∃ spender ∈ hashes,
        old.spentTxHash = none ∧ row = old.markSpent spender slot := by
  rw [utxos_outputs] at rowMem
  rcases Table.mem_upsertAll rowMem with rowMem | rowMem
  · rcases Table.mem_upsertAll rowMem with rowMem | rowMem
    · exact Or.inl rowMem
    · exact Or.inr (Or.inl (List.mem_map.mp rowMem))
  · exact Or.inr (Or.inr (effect.spent_open row rowMem))

theorem outputs_rowsBuilt (built : db.RowsBuilt) (fresh : db.FreshFor hashes) :
    effect.outputs.RowsBuilt where
  ownerDecoded := by
    intro row rowMem
    rcases mem_outputs rowMem with rowMem | ⟨output, created, rfl⟩ | ⟨old, oldMem, _, _, _, rfl⟩
    · exact built.ownerDecoded row rowMem
    · exact (effect.wellBuilt output created).ownerDecoded
    · have decoded := built.ownerDecoded old oldMem
      exact ⟨decoded.stakeAddress, decoded.addressType, decoded.isScript,
        decoded.paymentCredential⟩
  unspent := by
    intro row rowMem
    rcases mem_outputs rowMem with rowMem | ⟨output, created, rfl⟩ | ⟨old, oldMem, _, _, _, rfl⟩
    · exact built.unspent row rowMem
    · exact (effect.wellBuilt output created).unspent
    · exact fun unspent => nomatch unspent
  assetOwned := by
    intro a aMem
    rw [utxoAssets_outputs] at aMem
    rcases Table.mem_upsertAll aMem with aMem | aMem
    · obtain ⟨row, rowMem, owner, hasAssets⟩ := built.assetOwned a aMem
      obtain ⟨row', row'Mem, sameKey, sameAssets⟩ :=
        effect.stored_outputs fresh rowMem
      exact ⟨row', row'Mem, sameKey.trans owner, sameAssets.trans hasAssets⟩
    · obtain ⟨output, created, aMem⟩ := List.mem_flatMap.mp aMem
      have wellBuilt := effect.wellBuilt output created
      refine ⟨output.row, created_mem_outputs fresh created,
        (wellBuilt.assetsOwned a aMem).symm, ?_⟩
      rw [wellBuilt.hasAssets, Bool.not_eq_true', List.isEmpty_eq_false_iff]
      exact List.ne_nil_of_mem aMem

/-- What is open at an address changes by the moves of the block. -/
theorem openSum_outputs (fresh : db.FreshFor hashes) (address : Address)
    {quantity : LedgerUtxoRow → Int}
    (markFree : ∀ row spender, quantity (row.markSpent spender slot) = quantity row) :
    effect.outputs.openSum address quantity =
      db.openSum address quantity + moveSum effect.moves address quantity := by
  have created_new : ∀ output ∈ effect.created,
      db.utxos.contribution
        (fun row => if row.openAt address then quantity row else 0) output.row.outpoint = 0 := by
    intro output created
    have absent : db.utxos.find? output.row.outpoint = none := by
      rw [Table.find?_eq_none_iff]
      intro row rowMem sameKey
      refine effect.notMem_created fresh rowMem ?_
      rw [sameKey]
      exact List.mem_map.mpr ⟨output.row, List.mem_map.mpr ⟨output, created, rfl⟩, rfl⟩
    simp [Table.contribution, absent]
  have spent_change : ∀ row ∈ effect.spentRows,
      (if row.openAt address then quantity row else 0) -
        (db.utxos.upsertAll (effect.created.map LedgerOutput.row)).contribution
          (fun row => if row.openAt address then quantity row else 0) row.outpoint =
      if row.address = address then -1 * quantity row else 0 := by
    intro row rowMem
    obtain ⟨old, oldMem, spender, -, unspent, rfl⟩ := effect.spent_open row rowMem
    rw [LedgerUtxoRow.outpoint_markSpent, Table.contribution,
      Table.find?_upsertAll_of_notMem _ (effect.notMem_created fresh oldMem),
      Table.find?_of_mem oldMem, markFree]
    simp only [LedgerUtxoRow.openAt, LedgerUtxoRow.markSpent, unspent, Option.map_some,
      Option.getD_some, Option.isNone_some, Option.isNone_none, Bool.and_false, Bool.and_true,
      decide_eq_true_eq, Bool.false_eq_true, if_false]
    by_cases here : old.address = address <;> simp [here]
  rw [LedgerDb.openSum_eq, LedgerDb.openSum_eq, utxos_outputs,
    Table.sum_upsertAll _ _ effect.spent_nodup, Table.sum_upsertAll _ _ effect.created_nodup,
    moves, moveSum_append, moveSum_flatMap_outputMoves, add_assoc]
  congr 2
  · rw [List.map_map]
    apply congrArg List.sum
    apply List.map_congr_left
    intro output created
    simp only [Function.comp_apply]
    rw [created_new output created, sub_zero]
  · rw [moveSum, List.map_map]
    exact congrArg List.sum (List.map_congr_left spent_change)

end BlockEffect

end Odatano
