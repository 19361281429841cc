import Odatano.LedgerWrites

/-!
# Applying a block keeps the sums

The moves of a block change the open outputs and, through the deltas, the
stored sums by the same amounts.
-/

namespace Odatano

open LedgerState

namespace BlockEffect

variable [Bech32] {db : LedgerDb} {hashes : List TxHash} {slot : Nat}
  {effect : BlockEffect db hashes slot}

/-! ## What the outputs of a block hold -/

/-- The asset rows of created outputs have distinct keys. -/
theorem created_assets_nodup (effect : BlockEffect db hashes slot) :
    ((effect.created.flatMap LedgerOutput.assets).map LedgerUtxoAssetRow.key).Nodup := by
  have apart := effect.created_nodup
  rw [List.map_map] at apart
  rw [List.map_flatMap, List.nodup_flatMap]
  constructor
  · intro output created
    have wellBuilt := effect.wellBuilt output created
    have keys : output.assets.map LedgerUtxoAssetRow.key =
        (output.assets.map LedgerUtxoAssetRow.unit).map fun unit =>
          (output.row.outpoint, unit) := by
      rw [List.map_map]
      apply List.map_congr_left
      intro a aMem
      rw [Function.comp_apply, ← wellBuilt.assetsOwned a aMem]
      rfl
    rw [keys]
    exact wellBuilt.assetUnits_nodup.map fun _ _ same => (Prod.mk.inj same).2
  · refine (List.pairwise_map.mp apart).imp_of_mem ?_
    intro first second firstMem secondMem different
    simp only [Function.onFun, List.disjoint_left, List.mem_map]
    rintro key ⟨a, aMem, rfl⟩ ⟨b, bMem, sameKey⟩
    have aOwner := (effect.wellBuilt first firstMem).assetsOwned a aMem
    have bOwner := (effect.wellBuilt second secondMem).assetsOwned b bMem
    have sameOwner : b.utxo = a.utxo := congrArg Prod.fst sameKey
    exact different (aOwner.symm.trans (sameOwner.symm.trans bOwner))

/-- No asset row of a stored output is written. -/
theorem notMem_created_assets (fresh : db.FreshFor hashes) {row : LedgerUtxoRow}
    (rowMem : row ∈ db.utxos.rows) (unit : AssetUnit) :
    (row.outpoint, unit) ∉
      (effect.created.flatMap LedgerOutput.assets).map LedgerUtxoAssetRow.key := by
  intro written
  obtain ⟨a, aMem, sameKey⟩ := List.mem_map.mp written
  obtain ⟨output, created, aMem⟩ := List.mem_flatMap.mp aMem
  have sameOwner : a.utxo = row.outpoint := congrArg Prod.fst sameKey
  refine effect.notMem_created fresh rowMem ?_
  rw [← sameOwner, (effect.wellBuilt output created).assetsOwned a aMem]
  exact List.mem_map.mpr ⟨output.row, List.mem_map.mpr ⟨output, created, rfl⟩, rfl⟩

/-- A stored output holds what it held. -/
theorem holding_outputs_of_mem (fresh : db.FreshFor hashes) {row : LedgerUtxoRow}
    (rowMem : row ∈ db.utxos.rows) (unit : AssetUnit) :
    effect.outputs.holding unit row = db.holding unit row := by
  rw [LedgerDb.holding, utxoAssets_outputs, Table.contribution,
    Table.find?_upsertAll_of_notMem _ (notMem_created_assets fresh rowMem unit)]
  rfl

/-- A created output holds its own assets. -/
theorem quantityOf_created (built : db.RowsBuilt) (fresh : db.FreshFor hashes)
    {output : LedgerOutput} (created : output ∈ effect.created) (unit : AssetUnit) :
    quantityOf output.assets unit = effect.outputs.holding unit output.row := by
  have wellBuilt := effect.wellBuilt output created
  have listed := Table.contribution_eq_sum
    (⟨output.assets, wellBuilt.assetUnits_nodup⟩ : Table LedgerUtxoAssetRow.unit)
    (fun a => a.asset.quantity) unit
  rw [Table.sum, ← quantityOf] at listed
  rw [← listed, LedgerDb.holding, utxoAssets_outputs]
  unfold Table.contribution
  cases found : Table.find? (⟨output.assets, wellBuilt.assetUnits_nodup⟩ :
      Table LedgerUtxoAssetRow.unit) unit with
  | some a =>
      obtain ⟨aMem, rfl⟩ := Table.find?_eq_some_iff.mp found
      have key : (output.row.outpoint, a.unit) = a.key := by
        rw [LedgerUtxoAssetRow.key, wellBuilt.assetsOwned a aMem]
      rw [key, Table.find?_upsertAll_of_mem _ effect.created_assets_nodup
        (List.mem_flatMap.mpr ⟨output, created, aMem⟩)]
  | none =>
      have noneListed : ∀ a ∈ output.assets, a.unit ≠ unit := Table.find?_eq_none_iff.mp found
      have notWritten : (output.row.outpoint, unit) ∉
          (effect.created.flatMap LedgerOutput.assets).map LedgerUtxoAssetRow.key := by
        intro written
        obtain ⟨a, aMem, sameKey⟩ := List.mem_map.mp written
        obtain ⟨other, otherCreated, aMem⟩ := List.mem_flatMap.mp aMem
        have owner := (effect.wellBuilt other otherCreated).assetsOwned a aMem
        have sameOutpoint : other.row.outpoint = output.row.outpoint :=
          owner.symm.trans (congrArg Prod.fst sameKey)
        have distinct := effect.created_nodup
        rw [List.map_map] at distinct
        obtain rfl : other = output :=
          List.inj_on_of_nodup_map distinct otherCreated created sameOutpoint
        exact noneListed a aMem (congrArg Prod.snd sameKey)
      have notStored : db.utxoAssets.find? (output.row.outpoint, unit) = none := by
        rw [Table.find?_eq_none_iff]
        intro a aMem sameKey
        obtain ⟨row, rowMem, owner, -⟩ := built.assetOwned a aMem
        have sameOwner : row.outpoint = output.row.outpoint :=
          owner.trans (congrArg Prod.fst sameKey)
        have sameHash : row.txHash = output.row.txHash := congrArg Outpoint.txHash sameOwner
        exact fresh row rowMem (sameHash ▸ effect.created_hash output created)
      rw [Table.find?_upsertAll_of_notMem _ notWritten, notStored]

/-- A row spent from the tables moves away what it held. -/
theorem quantityOf_spent (fresh : db.FreshFor hashes) {row : LedgerUtxoRow}
    (spent : row ∈ effect.spentRows) (unit : AssetUnit) :
    quantityOf (spentMove db row).assets unit = effect.outputs.holding unit row := by
  obtain ⟨old, oldMem, spender, -, -, rfl⟩ := effect.spent_open row spent
  have sameHolding : effect.outputs.holding unit (old.markSpent spender slot) =
      effect.outputs.holding unit old := rfl
  rw [sameHolding, holding_outputs_of_mem fresh oldMem, LedgerDb.holding,
    Table.contribution_eq_sum, Table.sum, quantityOf, spentMove, Table.select]
  rw [LedgerUtxoRow.outpoint_markSpent]
  induction db.utxoAssets.rows with
  | nil => rfl
  | cons a rows ih =>
      by_cases owned : a.utxo = old.outpoint <;>
        simp [LedgerUtxoAssetRow.key, owned, ih]

theorem quantityOf_moves (built : db.RowsBuilt) (fresh : db.FreshFor hashes)
    (unit : AssetUnit) : ∀ move ∈ effect.moves,
      quantityOf move.assets unit = effect.outputs.holding unit move.row := by
  intro move moveMem
  rcases List.mem_append.mp moveMem with moveMem | moveMem
  · obtain ⟨output, created, moveMem⟩ := List.mem_flatMap.mp moveMem
    have held := quantityOf_created built fresh created unit
    rcases List.mem_cons.mp moveMem with rfl | moveMem
    · exact held
    · split at moveMem
      · rw [List.mem_singleton] at moveMem
        subst moveMem
        exact held
      · cases moveMem
  · obtain ⟨row, spent, rfl⟩ := List.mem_map.mp moveMem
    exact quantityOf_spent fresh spent unit

theorem ownerDecoded_moves (built : db.RowsBuilt) :
    ∀ move ∈ effect.moves, move.row.OwnerDecoded := by
  intro move moveMem
  rcases List.mem_append.mp moveMem with moveMem | moveMem
  · obtain ⟨output, created, moveMem⟩ := List.mem_flatMap.mp moveMem
    have decoded := (effect.wellBuilt output created).ownerDecoded
    rcases List.mem_cons.mp moveMem with rfl | moveMem
    · exact decoded
    · split at moveMem
      · rw [List.mem_singleton] at moveMem
        subst moveMem
        exact decoded
      · cases moveMem
  · obtain ⟨row, spent, rfl⟩ := List.mem_map.mp moveMem
    obtain ⟨old, oldMem, spender, -, -, rfl⟩ := effect.spent_open row spent
    have decoded := built.ownerDecoded old oldMem
    exact ⟨decoded.stakeAddress, decoded.addressType, decoded.isScript,
      decoded.paymentCredential⟩

/-! ## The sums after a block -/

theorem openSum_holding_outputs (fresh : db.FreshFor hashes) (address : Address)
    (unit : AssetUnit) :
    effect.outputs.openSum address (effect.outputs.holding unit) =
      db.openSum address (db.holding unit) +
        moveSum effect.moves address (effect.outputs.holding unit) := by
  rw [openSum_outputs fresh address fun _ _ => rfl]
  congr 1
  rw [LedgerDb.openSum, LedgerDb.openSum]
  apply congrArg List.sum
  apply List.map_congr_left
  intro row rowMem
  exact holding_outputs_of_mem fresh (Table.mem_select.mp rowMem).1 unit

/-- Applying a block whose transactions have no stored output keeps the invariant. -/
theorem apply_consistent (effect : BlockEffect db hashes slot) (consistent : db.Consistent)
    (fresh : db.FreshFor hashes) : effect.apply.Consistent := by
  have built := consistent.rowsBuilt
  have agree := consistent.addressesAgree
  have outputsBuilt : effect.outputs.RowsBuilt := outputs_rowsBuilt built fresh
  have written : SumsWritten effect.outputs effect.apply (deltasOf effect.moves) :=
    writeSums_written consistent.stakesDecoded
      (deltasOf_stakeAddress (ownerDecoded_moves built))
  have sameOpenSum : ∀ address quantity,
      effect.apply.openSum address quantity = effect.outputs.openSum address quantity := by
    intro address quantity
    rw [LedgerDb.openSum, written.utxos]
    rfl
  have sameHolding : ∀ unit, effect.apply.holding unit = effect.outputs.holding unit := by
    intro unit
    funext row
    rw [LedgerDb.holding, written.utxoAssets]
    rfl
  refine ⟨?_, written.decoded, fun address => ⟨?_, ?_, fun unit => ?_⟩, written.accounts ?_⟩
  · refine ⟨?_, ?_, ?_⟩
    · rw [written.utxos]
      exact outputsBuilt.ownerDecoded
    · rw [written.utxos]
      exact outputsBuilt.unspent
    · rw [written.utxos, written.utxoAssets]
      exact outputsBuilt.assetOwned
  · rw [written.totalLovelace, measure_deltasOf_lovelace, sameOpenSum,
      openSum_outputs fresh address fun _ _ => rfl, ← (agree address).totalLovelace]
    rfl
  · rw [written.utxoCount, measure_deltasOf_utxos, sameOpenSum,
      openSum_outputs fresh address fun _ _ => rfl, ← (agree address).utxoCount]
    rfl
  · rw [written.assetQuantity,
      measure_deltasOf_assets (quantityOf_moves built fresh unit), sameOpenSum, sameHolding,
      openSum_holding_outputs fresh, ← (agree address).assetQuantity]
    rfl
  · intro stake
    have accounts := consistent.accountsAgree stake
    exact ⟨accounts.controlledAmount, accounts.accountUtxoCount, accounts.addressCount⟩

end BlockEffect

end Odatano
