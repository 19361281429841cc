import Odatano.LedgerRecount

/-!
# The aggregates of the import

The aggregate statements succeed on emptied sum tables and make every sum agree
with the open outputs.
-/

namespace Odatano

open LedgerState

variable [Bech32]

/-! ## Aggregates -/

omit [Bech32] in
/-- What the three statements store when they succeed. -/
theorem rows_of_aggregateStatements {rows base : LedgerDb}
    (aggregated : aggregateStatements rows.clearSums = some base) :
    base.utxos = rows.utxos ∧ base.utxoAssets = rows.utxoAssets ∧
      base.addresses.rows = aggregateAddresses rows ∧
      base.addressAssets.rows = aggregateAddressAssets rows ∧
      base.accounts.rows = aggregateAccounts base := by
  simp only [aggregateStatements, Option.bind_eq_bind, Option.bind_eq_some_iff,
    Option.pure_def, Option.some.injEq] at aggregated
  obtain ⟨addresses, addressesEq, addressAssets, assetsEq, accounts, accountsEq, rfl⟩ := aggregated
  refine ⟨rfl, rfl, ?_, ?_, ?_⟩
  · exact (Table.rows_of_insertAll? addressesEq).trans (List.nil_append _)
  · exact (Table.rows_of_insertAll? assetsEq).trans (List.nil_append _)
  · exact (Table.rows_of_insertAll? accountsEq).trans (List.nil_append _)

omit [Bech32] in
/-- On emptied tables the statements succeed. -/
theorem aggregateStatements_clearSums (rows : LedgerDb) :
    (aggregateStatements rows.clearSums).isSome := by
  have inserted : ∀ {κ ρ : Type} [DecidableEq κ] (key : ρ → κ) (new : List ρ),
      (new.map key).Nodup → ((Table.empty : Table key).insertAll? new).isSome := by
    intro κ ρ _ key new nodup
    simp [Table.insertAll?, nodup]
  obtain ⟨addresses, addressesEq⟩ := Option.isSome_iff_exists.mp <|
    inserted LedgerAddressRow.address (aggregateAddresses rows.clearSums) (by
      simpa [aggregateAddresses, Function.comp_def] using distinct_nodup _)
  obtain ⟨addressAssets, assetsEq⟩ := Option.isSome_iff_exists.mp <|
    inserted LedgerAddressAssetRow.key
      (aggregateAddressAssets { rows.clearSums with addresses }) (by
      simpa [aggregateAddressAssets, Function.comp_def, LedgerAddressAssetRow.key] using
        distinct_nodup _)
  obtain ⟨accounts, accountsEq⟩ := Option.isSome_iff_exists.mp <|
    inserted LedgerAccountRow.stakeAddress
      (aggregateAccounts { rows.clearSums with addresses, addressAssets }) (by
      simpa [aggregateAccounts, Function.comp_def] using distinct_nodup _)
  simp only [aggregateStatements, Option.bind_eq_bind]
  change (((Table.empty : Table LedgerAddressRow.address).insertAll? _).bind _).isSome
  rw [addressesEq, Option.bind_some]
  change (((Table.empty : Table LedgerAddressAssetRow.key).insertAll? _).bind _).isSome
  rw [assetsEq, Option.bind_some]
  change (((Table.empty : Table LedgerAccountRow.stakeAddress).insertAll? _).bind _).isSome
  rw [accountsEq]
  rfl

omit [Bech32] in
/-- The join lists the asset rows of open outputs under their address. -/
theorem sum_openAssets (rows : LedgerDb) (address : Address) (unit : AssetUnit) :
    (((openAssets rows).filter fun entry =>
        decide ((entry.1, entry.2.unit) = (address, unit))).map fun entry =>
          entry.2.asset.quantity).sum =
      rows.openSum address (rows.holding unit) := by
  rw [LedgerDb.openSum_holding, Table.sum, openAssets]
  induction rows.utxoAssets.rows with
  | nil => rfl
  | cons a assets ih =>
      rw [List.filterMap_cons, List.map_cons, List.sum_cons, ← ih]
      cases found : rows.utxos.find? a.utxo with
      | none => simp
      | some row =>
          cases spent : row.spentTxHash with
          | some _ => simp [Option.filter, spent, LedgerUtxoRow.openAt]
          | none =>
              by_cases here : row.address = address <;> by_cases ofUnit : a.unit = unit <;>
                simp [Option.filter, spent, LedgerUtxoRow.openAt, here, ofUnit]

omit [Bech32] in
/-- The open rows of an address are its group. -/
theorem group_eq_select (rows : LedgerDb) (address : Address) :
    ((rows.utxos.select fun row => row.spentTxHash.isNone).filter fun row =>
        decide (row.address = address)) =
      rows.utxos.select fun row => row.openAt address := by
  rw [Table.select, Table.select, List.filter_filter]
  rfl

/-- The import's aggregates establish the invariant. -/
theorem aggregateStatements_consistent {rows base : LedgerDb} (built : rows.RowsBuilt)
    (aggregated : aggregateStatements rows.clearSums = some base) : base.Consistent := by
  obtain ⟨sameUtxos, sameAssets, addressRows, assetRows, accountRows⟩ :=
    rows_of_aggregateStatements aggregated
  have sameOpenSum : ∀ address quantity,
      base.openSum address quantity = rows.openSum address quantity := by
    intro address quantity
    rw [LedgerDb.openSum, sameUtxos]
    rfl
  have sameHolding : ∀ unit, base.holding unit = rows.holding unit := by
    intro unit
    funext row
    rw [LedgerDb.holding, sameAssets]
    rfl
  -- an address without a group has no open row
  have noGroup : ∀ address, address ∉ distinct ((rows.utxos.select fun row =>
      row.spentTxHash.isNone).map LedgerUtxoRow.address) →
        (rows.utxos.select fun row => row.openAt address) = [] := by
    intro address unlisted
    rw [← group_eq_select, List.filter_eq_nil_iff]
    intro row rowMem here
    rw [mem_distinct] at unlisted
    exact unlisted (List.mem_map.mpr ⟨row, rowMem, by simpa using here⟩)
  have noAddress : ∀ stake,
      stake ∉ distinct (base.addresses.rows.filterMap LedgerAddressRow.stakeAddress) →
        base.addressRowsOf stake = [] := by
    intro stake unlisted
    rw [LedgerDb.addressRowsOf, Table.select, List.filter_eq_nil_iff]
    intro row rowMem ofStake
    rw [mem_distinct] at unlisted
    exact unlisted (List.mem_filterMap.mpr ⟨row, rowMem, by simpa using ofStake⟩)
  refine ⟨?_, ?_, fun address => ⟨?_, ?_, fun unit => ?_⟩, fun stake => ⟨?_, ?_, ?_⟩⟩
  · refine ⟨?_, ?_, ?_⟩
    · rw [sameUtxos]
      exact built.ownerDecoded
    · rw [sameUtxos]
      exact built.unspent
    · rw [sameUtxos, sameAssets]
      exact built.assetOwned
  · intro stored storedMem
    rw [addressRows] at storedMem
    obtain ⟨address, listed, rfl⟩ := List.mem_map.mp storedMem
    simp only [group_eq_select]
    rw [mem_distinct] at listed
    obtain ⟨row, rowMem, rfl⟩ := List.mem_map.mp listed
    obtain ⟨rowMem, isOpen⟩ := Table.mem_select.mp rowMem
    have decoded : ∀ other ∈ rows.utxos.select fun other => other.openAt row.address,
        other.stakeAddress = (decodeShelleyAddress row.address).stakeAddress := by
      intro other otherMem
      obtain ⟨otherMem, otherOpen⟩ := Table.mem_select.mp otherMem
      have here : other.address = row.address := by
        simp only [LedgerUtxoRow.openAt, Bool.and_eq_true, decide_eq_true_eq] at otherOpen
        exact otherOpen.1
      rw [(built.ownerDecoded other otherMem).stakeAddress, here]
    have member : row ∈ rows.utxos.select fun other => other.openAt row.address := by
      simp only [Table.mem_select, LedgerUtxoRow.openAt, decide_true, Bool.true_and]
      exact ⟨rowMem, isOpen⟩
    cases stake : (decodeShelleyAddress row.address).stakeAddress with
    | none =>
        have noStake : (rows.utxos.select fun other => other.openAt row.address).filterMap
            LedgerUtxoRow.stakeAddress = [] := by
          rw [List.filterMap_eq_nil_iff]
          exact fun other otherMem => (decoded other otherMem).trans stake
        rw [noStake]
        rfl
    | some key =>
        apply minText_of_all_eq
        · apply List.ne_nil_of_mem (a := key)
          exact List.mem_filterMap.mpr ⟨row, member, (decoded row member).trans stake⟩
        · intro other otherMem
          obtain ⟨owner, ownerMem, ownerStake⟩ := List.mem_filterMap.mp otherMem
          rw [decoded owner ownerMem, stake] at ownerStake
          exact (Option.some.inj ownerStake).symm
  · rw [LedgerDb.totalLovelace, Table.contribution,
      Table.find?_of_rows_eq_map addressRows fun _ => rfl, sameOpenSum, LedgerDb.openSum]
    split
    · simp only [Option.map_some, Option.getD_some, group_eq_select]
    · rename_i unlisted
      rw [noGroup address unlisted]
      rfl
  · rw [LedgerDb.utxoCount, Table.contribution,
      Table.find?_of_rows_eq_map addressRows fun _ => rfl, sameOpenSum, LedgerDb.openSum]
    split
    · simp [group_eq_select]
    · rename_i unlisted
      rw [noGroup address unlisted]
      rfl
  · rw [sameOpenSum, sameHolding, ← sum_openAssets, LedgerDb.assetQuantity, Table.contribution,
      Table.find?_of_rows_eq_map assetRows fun _ => rfl]
    split
    · simp only [Option.map_some, Option.getD_some, List.map_map]
      rfl
    · rename_i unlisted
      have noAssets : ((openAssets rows).filter fun entry =>
          decide ((entry.1, entry.2.unit) = (address, unit))) = [] := by
        rw [List.filter_eq_nil_iff]
        intro entry entryMem here
        rw [mem_distinct] at unlisted
        exact unlisted (List.mem_map.mpr ⟨entry, entryMem, by simpa using here⟩)
      rw [noAssets]
      rfl
  all_goals
    simp only [LedgerDb.controlledAmount, LedgerDb.accountUtxoCount, LedgerDb.addressCount,
      Table.contribution, Table.find?_of_rows_eq_map accountRows fun _ => rfl,
      LedgerDb.stakeSum_eq]
    split
    · simp [LedgerDb.addressRowsOf, Table.select]
    · rename_i unlisted
      rw [noAddress stake unlisted]
      rfl

end Odatano
