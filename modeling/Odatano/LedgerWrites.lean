import Odatano.LedgerMoves

/-!
# Writing deltas into the sums

The chunked writes of addresses, address assets and accounts add every delta to
the stored sums, and the stake deltas collected on the way are what the address
rows of a stake key gain.
-/

namespace Odatano

open LedgerState

/-- A quantity of the deltas of an address in a list of touched addresses. -/
def entrySum (entries : List (Address × AddressDelta)) (quantity : AddressDelta → Int)
    (address : Address) : Int :=
  (entries.map fun entry => if entry.1 = address then quantity entry.2 else 0).sum

theorem entrySum_append (first second : List (Address × AddressDelta))
    (quantity : AddressDelta → Int) (address : Address) :
    entrySum (first ++ second) quantity address =
      entrySum first quantity address + entrySum second quantity address := by
  simp [entrySum]

section Chunk

variable [Bech32] {slot : Nat} {writes : SumWrites} {entries : List (Address × AddressDelta)}

/-! ## One chunk of addresses -/

omit [Bech32] in
private theorem find?_existing (addresses : Table LedgerAddressRow.address)
    {entry : Address × AddressDelta} (entryMem : entry ∈ entries) :
    (addresses.restrict (entries.map Prod.fst)).find? entry.1 = addresses.find? entry.1 :=
  Table.find?_restrict addresses (List.mem_map.mpr ⟨entry, entryMem, rfl⟩)

theorem addresses_writeAddressChunk :
    (writeAddressChunk slot writes entries).db.addresses =
      writes.db.addresses.upsertAll (entries.map fun entry =>
        nextAddressRow slot (writes.db.addresses.find? entry.1) entry.1 entry.2) := by
  simp only [writeAddressChunk, writeChunks_eq]
  congr 1
  apply List.map_congr_left
  intro entry entryMem
  simp only [find?_existing _ entryMem]

theorem stakeDeltas_writeAddressChunk :
    (writeAddressChunk slot writes entries).stakeDeltas =
      OrderedMap.accumulate (fun s => s.1) (fun _ => ⟨0, 0, 0⟩)
        (fun s => addStakeDelta s.2.1 s.2.2) writes.stakeDeltas
        (entries.filterMap fun entry =>
          (stakeOf (writes.db.addresses.find? entry.1) entry.2).map fun stake =>
            (stake, writes.db.addresses.find? entry.1, entry.2)) := by
  simp only [writeAddressChunk]
  congr 1
  apply List.filterMap_congr
  intro entry entryMem
  simp only [find?_existing _ entryMem]

/-- A quantity of the address rows grows by its change at every entry. -/
theorem contribution_writeAddressChunk (nodup : (entries.map Prod.fst).Nodup)
    {rowQuantity : LedgerAddressRow → Int} {change : AddressDelta → Int}
    (grows : ∀ prev address d, rowQuantity (nextAddressRow slot prev address d) =
      (prev.map rowQuantity).getD 0 + change d)
    (address : Address) :
    (writeAddressChunk slot writes entries).db.addresses.contribution rowQuantity address =
      writes.db.addresses.contribution rowQuantity address + entrySum entries change address := by
  rw [addresses_writeAddressChunk]
  exact Table.contribution_upsertAll_map writes.db.addresses rowQuantity
    Prod.fst (fun _ => rfl) nodup (fun entry _ => grows _ _ _) address

/-- The stake key an entry is counted under is the one its address decodes to. -/
theorem stakeOf_eq (decoded : writes.db.StakesDecoded) {entry : Address × AddressDelta}
    (entryDecoded : entry.2.stakeAddress = (decodeShelleyAddress entry.1).stakeAddress) :
    stakeOf (writes.db.addresses.find? entry.1) entry.2 =
      (decodeShelleyAddress entry.1).stakeAddress := by
  rw [stakeOf, entryDecoded]
  cases found : writes.db.addresses.find? entry.1 with
  | none => rfl
  | some prev =>
      change prev.stakeAddress.or _ = _
      rw [decoded prev (Table.mem_of_find? found), Table.key_of_find? found, Option.or_self]

theorem stakesDecoded_writeAddressChunk (decoded : writes.db.StakesDecoded)
    (entriesDecoded : ∀ entry ∈ entries,
      entry.2.stakeAddress = (decodeShelleyAddress entry.1).stakeAddress) :
    (writeAddressChunk slot writes entries).db.StakesDecoded := by
  intro row rowMem
  rw [addresses_writeAddressChunk] at rowMem
  rcases Table.mem_upsertAll rowMem with rowMem | rowMem
  · exact decoded row rowMem
  · obtain ⟨entry, entryMem, rfl⟩ := List.mem_map.mp rowMem
    exact stakeOf_eq decoded (entriesDecoded entry entryMem)

/-- The stake deltas gain what the address rows of the stake key gain. -/
theorem stakeSum_writeAddressChunk (change : Option LedgerAddressRow → AddressDelta → Int)
    (nodup : (entries.map Prod.fst).Nodup)
    (decoded : writes.db.StakesDecoded)
    (entriesDecoded : ∀ entry ∈ entries,
      entry.2.stakeAddress = (decodeShelleyAddress entry.1).stakeAddress)
    {rowQuantity : LedgerAddressRow → Int} {stakeQuantity : StakeDelta → Int}
    (startsZero : stakeQuantity ⟨0, 0, 0⟩ = 0)
    (rowGrows : ∀ prev address d, rowQuantity (nextAddressRow slot prev address d) =
      (prev.map rowQuantity).getD 0 + change prev d)
    (stakeGrows : ∀ prev d s, stakeQuantity (addStakeDelta prev d s) =
      stakeQuantity s + change prev d)
    (stake : StakeAddress) :
    (writeAddressChunk slot writes entries).db.stakeSum stake rowQuantity +
        OrderedMap.measure writes.stakeDeltas stakeQuantity stake =
      writes.db.stakeSum stake rowQuantity +
        OrderedMap.measure (writeAddressChunk slot writes entries).stakeDeltas
          stakeQuantity stake := by
  have rowsNodup : ((entries.map fun entry =>
      nextAddressRow slot (writes.db.addresses.find? entry.1) entry.1 entry.2).map
        LedgerAddressRow.address).Nodup := by
    simpa [Function.comp_def, nextAddressRow] using nodup
  have rows : (writeAddressChunk slot writes entries).db.stakeSum stake rowQuantity =
      writes.db.stakeSum stake rowQuantity + (entries.map fun entry =>
        if (decodeShelleyAddress entry.1).stakeAddress = some stake then
          change (writes.db.addresses.find? entry.1) entry.2 else 0).sum := by
    rw [LedgerDb.stakeSum, addresses_writeAddressChunk, Table.sum_upsertAll _ _ rowsNodup,
      List.map_map, ← LedgerDb.stakeSum]
    congr 2
    apply List.map_congr_left
    intro entry entryMem
    have sameStake := stakeOf_eq decoded (entriesDecoded entry entryMem)
    simp only [Function.comp_apply]
    change (if stakeOf _ _ = some stake then _ else 0) -
      writes.db.addresses.contribution _ entry.1 = _
    rw [sameStake, rowGrows, Table.contribution]
    cases found : writes.db.addresses.find? entry.1 with
    | none => simp
    | some prev =>
        have prevStake : prev.stakeAddress = (decodeShelleyAddress entry.1).stakeAddress := by
          rw [decoded prev (Table.mem_of_find? found), Table.key_of_find? found]
        by_cases counted : (decodeShelleyAddress entry.1).stakeAddress = some stake <;>
          simp [prevStake, counted]
  have stakes : OrderedMap.measure (writeAddressChunk slot writes entries).stakeDeltas
        stakeQuantity stake =
      OrderedMap.measure writes.stakeDeltas stakeQuantity stake + (entries.map fun entry =>
        if (decodeShelleyAddress entry.1).stakeAddress = some stake then
          change (writes.db.addresses.find? entry.1) entry.2 else 0).sum := by
    rw [stakeDeltas_writeAddressChunk, OrderedMap.measure_accumulate
      _ _ _ _ (fun s => change s.2.1 s.2.2) (fun _ _ => startsZero)
      (fun s _ value => stakeGrows s.2.1 s.2.2 value)]
    congr 1
    clear rows rowsNodup nodup
    induction entries with
    | nil => rfl
    | cons entry entries ih =>
        have entryStake := stakeOf_eq decoded (entriesDecoded entry (List.mem_cons_self ..))
        have rest := ih fun other otherMem =>
          entriesDecoded other (List.mem_cons_of_mem _ otherMem)
        rw [List.filterMap_cons, entryStake, List.map_cons, List.sum_cons, ← rest]
        cases (decodeShelleyAddress entry.1).stakeAddress with
        | none => simp
        | some counted => simp
  rw [rows, stakes]
  abel

/-! ## Address assets -/

omit [Bech32] in
theorem assetDeltas_nodup (nodup : (entries.map Prod.fst).Nodup) :
    ((assetDeltas entries).map Prod.fst).Nodup := by
  rw [assetDeltas, List.map_flatMap, List.nodup_flatMap]
  constructor
  · intro entry _
    rw [List.map_map]
    have inner : (entry.2.assets.rows.map (Prod.fst ∘ fun asset : AssetUnit × Int =>
        ((entry.1, asset.1), asset.2))) =
        entry.2.assets.keys.map fun unit => (entry.1, unit) := by
      simp [OrderedMap.keys, Function.comp_def]
    rw [inner]
    exact (OrderedMap.keys_nodup _).map fun _ _ same => (Prod.mk.inj same).2
  · refine (List.pairwise_map.mp nodup).imp ?_
    intro first second different
    simp only [Function.onFun, List.disjoint_left, List.mem_map]
    rintro key ⟨_, ⟨_, -, rfl⟩, rfl⟩ ⟨_, ⟨_, -, rfl⟩, sameKey⟩
    exact different (congrArg Prod.fst sameKey).symm

omit [Bech32] in
theorem sum_assetDeltas (entries : List (Address × AddressDelta)) (address : Address)
    (unit : AssetUnit) :
    ((assetDeltas entries).map fun delta =>
        if delta.1 = (address, unit) then delta.2 else 0).sum =
      entrySum entries (fun d => OrderedMap.measure d.assets id unit) address := by
  induction entries with
  | nil => rfl
  | cons entry entries ih =>
      rw [assetDeltas, List.flatMap_cons, List.map_append, List.sum_append, entrySum,
        List.map_cons, List.sum_cons]
      refine congrArg₂ (· + ·) ?_ ih
      rw [List.map_map, OrderedMap.measure_eq_sum]
      by_cases here : entry.1 = address
      · simp [here, Function.comp_def]
      · simp [here, Function.comp_def]

omit [Bech32] in
private theorem key_of_nextAssetRow {stored : Option Int} {key : Address × AssetUnit}
    {delta : Int} {row : LedgerAddressAssetRow}
    (produced : nextAssetRow stored key delta = some row) : row.key = key := by
  simp only [nextAssetRow] at produced
  split at produced
  · cases produced
  · cases produced
    rfl

omit [Bech32] in
private theorem key_of_nextAssetDelete {stored : Option Int} {key other : Address × AssetUnit}
    {delta : Int} (produced : nextAssetDelete stored key delta = some other) : key = other := by
  unfold nextAssetDelete at produced
  split at produced
  · exact Option.some.inj produced
  · cases produced

omit [Bech32] in
private theorem written_nodup (stored : Address × AssetUnit → Option Int)
    {deltas : List ((Address × AssetUnit) × Int)} (nodup : (deltas.map Prod.fst).Nodup) :
    ((deltas.filterMap fun delta => nextAssetRow (stored delta.1) delta.1 delta.2).map
      LedgerAddressAssetRow.key).Nodup := by
  refine List.Nodup.sublist ?_ nodup
  clear nodup
  induction deltas with
  | nil => simp
  | cons delta deltas ih =>
      rw [List.filterMap_cons, List.map_cons]
      cases produced : nextAssetRow (stored delta.1) delta.1 delta.2 with
      | none => exact ih.trans (List.sublist_cons_self _ _)
      | some row =>
          rw [List.map_cons, key_of_nextAssetRow produced]
          exact ih.cons_cons _

omit [Bech32] in
/-- Writing and deleting asset rows adds the delta to every quantity. -/
theorem contribution_adjusted (assets : Table LedgerAddressAssetRow.key)
    {deltas : List ((Address × AssetUnit) × Int)} (nodup : (deltas.map Prod.fst).Nodup)
    (key : Address × AssetUnit) :
    (adjustAssets (fun key => (assets.find? key).map fun row => row.asset.quantity)
        assets deltas).contribution (fun row => row.asset.quantity) key =
      assets.contribution (fun row => row.asset.quantity) key +
        (deltas.map fun delta => if delta.1 = key then delta.2 else 0).sum := by
  generalize storedEq : (fun key : Address × AssetUnit =>
    (assets.find? key).map fun row => row.asset.quantity) = stored
  have writtenNodup := written_nodup stored nodup
  have summed := Table.contribution_eq_sum (⟨deltas, nodup⟩ : OrderedMap _ Int)
    (fun delta => delta.2) key
  rw [Table.sum] at summed
  rw [← summed]
  unfold Table.contribution adjustAssets
  rw [Table.find?_foldl_delete, writeChunks_eq]
  cases found : Table.find? (⟨deltas, nodup⟩ : OrderedMap _ Int) key with
  | none =>
      -- no delta at this key, so nothing is written or deleted there
      have untouched : ∀ delta ∈ deltas, delta.1 ≠ key := Table.find?_eq_none_iff.mp found
      have notDeleted : key ∉ deltas.filterMap fun delta =>
          nextAssetDelete (stored delta.1) delta.1 delta.2 := by
        intro deleted
        obtain ⟨delta, deltaMem, produced⟩ := List.mem_filterMap.mp deleted
        exact untouched delta deltaMem (key_of_nextAssetDelete produced)
      have notWritten : key ∉ (deltas.filterMap fun delta =>
          nextAssetRow (stored delta.1) delta.1 delta.2).map LedgerAddressAssetRow.key := by
        intro written
        obtain ⟨row, rowMem, sameKey⟩ := List.mem_map.mp written
        obtain ⟨delta, deltaMem, produced⟩ := List.mem_filterMap.mp rowMem
        exact untouched delta deltaMem ((key_of_nextAssetRow produced).symm.trans sameKey)
      rw [if_neg notDeleted, Table.find?_upsertAll_of_notMem _ notWritten]
      simp
  | some delta =>
      obtain ⟨deltaMem, rfl⟩ := Table.find?_eq_some_iff.mp found
      have storedHere : (assets.find? delta.1).map (fun row => row.asset.quantity) =
          stored delta.1 := by rw [← storedEq]
      have onlyDelta : ∀ other ∈ deltas, other.1 = delta.1 → other = delta :=
        fun other otherMem => List.inj_on_of_nodup_map nodup otherMem deltaMem
      have deletedHere : delta.1 ∈ deltas.filterMap (fun delta =>
          nextAssetDelete (stored delta.1) delta.1 delta.2) ↔
            nextAssetDelete (stored delta.1) delta.1 delta.2 = some delta.1 := by
        constructor
        · intro deleted
          obtain ⟨other, otherMem, produced⟩ := List.mem_filterMap.mp deleted
          rwa [onlyDelta other otherMem (key_of_nextAssetDelete produced)] at produced
        · exact fun produced => List.mem_filterMap.mpr ⟨delta, deltaMem, produced⟩
      rw [storedHere]
      simp only [deletedHere, Option.map_some, Option.getD_some]
      cases produced : nextAssetRow (stored delta.1) delta.1 delta.2 with
      | some row =>
          have rowMem : row ∈ deltas.filterMap fun delta =>
              nextAssetRow (stored delta.1) delta.1 delta.2 :=
            List.mem_filterMap.mpr ⟨delta, deltaMem, produced⟩
          rw [← key_of_nextAssetRow produced,
            Table.find?_upsertAll_of_mem _ writtenNodup rowMem, key_of_nextAssetRow produced]
          simp only [nextAssetRow] at produced
          split at produced
          · cases produced
          · rename_i changed
            cases produced
            simp only [not_or] at changed
            simp [nextAssetDelete, changed.2, assetSlice]
      | none =>
          have notWritten : delta.1 ∉ (deltas.filterMap fun delta =>
              nextAssetRow (stored delta.1) delta.1 delta.2).map LedgerAddressAssetRow.key := by
            intro written
            obtain ⟨row, rowMem, sameKey⟩ := List.mem_map.mp written
            obtain ⟨other, otherMem, made⟩ := List.mem_filterMap.mp rowMem
            rw [onlyDelta other otherMem ((key_of_nextAssetRow made).symm.trans sameKey),
              produced] at made
            cases made
          rw [Table.find?_upsertAll_of_notMem _ notWritten]
          simp only [nextAssetRow] at produced
          split at produced
          · rename_i unchanged
            cases quantity : stored delta.1 with
            | none =>
                simp only [quantity, Option.getD_none, zero_add, or_self] at unchanged
                rw [quantity] at storedHere
                simp [nextAssetDelete, unchanged, storedHere]
            | some old =>
                simp only [quantity, Option.getD_some] at unchanged
                rw [quantity] at storedHere
                by_cases still : delta.2 = 0
                · simp [nextAssetDelete, still, storedHere]
                · have usedUp : old + delta.2 = 0 := unchanged.resolve_left still
                  simp [nextAssetDelete, still, usedUp]
          · cases produced

/-- An address asset after a chunk is its quantity plus its delta. -/
theorem assetQuantity_writeAddressChunk (nodup : (entries.map Prod.fst).Nodup)
    (address : Address) (unit : AssetUnit) :
    (writeAddressChunk slot writes entries).db.assetQuantity address unit =
      writes.db.assetQuantity address unit +
        entrySum entries (fun d => OrderedMap.measure d.assets id unit) address := by
  have existing : ∀ delta ∈ assetDeltas entries,
      (writes.db.addressAssets.delete fun row =>
        decide (row.address ∉ entries.map Prod.fst)).find? delta.1 =
      writes.db.addressAssets.find? delta.1 := by
    intro delta deltaMem
    obtain ⟨entry, entryMem, deltaMem⟩ := List.mem_flatMap.mp deltaMem
    obtain ⟨asset, -, rfl⟩ := List.mem_map.mp deltaMem
    have listed : entry.1 ∈ entries.map Prod.fst := List.mem_map.mpr ⟨entry, entryMem, rfl⟩
    rw [Table.find?_delete]
    cases found : writes.db.addressAssets.find? (entry.1, asset.1) with
    | none => rfl
    | some row =>
        have rowAddress : row.address = entry.1 :=
          congrArg Prod.fst (Table.key_of_find? found)
        simp only [Option.filter, rowAddress, listed, not_true, decide_false, Bool.not_false,
          if_true]
  have adjusted := contribution_adjusted writes.db.addressAssets (assetDeltas_nodup nodup)
    (address, unit)
  rw [sum_assetDeltas] at adjusted
  refine Eq.trans ?_ adjusted
  have sameReads : (writeAddressChunk slot writes entries).db.addressAssets =
      adjustAssets (fun key => (writes.db.addressAssets.find? key).map fun row =>
        row.asset.quantity) writes.db.addressAssets (assetDeltas entries) := by
    simp only [writeAddressChunk, adjustAssets]
    congr 1
    · congr 1
      apply List.filterMap_congr
      intro delta deltaMem
      simp only [existing delta deltaMem]
    · apply List.filterMap_congr
      intro delta deltaMem
      simp only [existing delta deltaMem]
  rw [LedgerDb.assetQuantity, sameReads]

end Chunk

/-! ## All chunks of addresses -/

/-- What writing some touched addresses changes. -/
structure SumStep [Bech32] (before after : SumWrites)
    (entries : List (Address × AddressDelta)) : Prop where
  utxos : after.db.utxos = before.db.utxos
  utxoAssets : after.db.utxoAssets = before.db.utxoAssets
  accounts : after.db.accounts = before.db.accounts
  decoded : after.db.StakesDecoded
  totalLovelace : ∀ address, after.db.totalLovelace address =
    before.db.totalLovelace address + entrySum entries AddressDelta.lovelace address
  utxoCount : ∀ address, after.db.utxoCount address =
    before.db.utxoCount address + entrySum entries AddressDelta.utxos address
  assetQuantity : ∀ address unit, after.db.assetQuantity address unit =
    before.db.assetQuantity address unit +
      entrySum entries (fun d => OrderedMap.measure d.assets id unit) address
  stakeLovelace : ∀ stake,
    after.db.stakeSum stake LedgerAddressRow.totalLovelace +
        OrderedMap.measure before.stakeDeltas StakeDelta.lovelace stake =
      before.db.stakeSum stake LedgerAddressRow.totalLovelace +
        OrderedMap.measure after.stakeDeltas StakeDelta.lovelace stake
  stakeUtxos : ∀ stake,
    after.db.stakeSum stake LedgerAddressRow.utxoCount +
        OrderedMap.measure before.stakeDeltas StakeDelta.utxos stake =
      before.db.stakeSum stake LedgerAddressRow.utxoCount +
        OrderedMap.measure after.stakeDeltas StakeDelta.utxos stake
  stakeAddresses : ∀ stake,
    after.db.stakeSum stake (fun _ => 1) +
        OrderedMap.measure before.stakeDeltas StakeDelta.newAddresses stake =
      before.db.stakeSum stake (fun _ => 1) +
        OrderedMap.measure after.stakeDeltas StakeDelta.newAddresses stake

section Run

variable [Bech32] {slot : Nat}

theorem writeAddressChunk_step {writes : SumWrites} {entries : List (Address × AddressDelta)}
    (nodup : (entries.map Prod.fst).Nodup) (decoded : writes.db.StakesDecoded)
    (entriesDecoded : ∀ entry ∈ entries,
      entry.2.stakeAddress = (decodeShelleyAddress entry.1).stakeAddress) :
    SumStep writes (writeAddressChunk slot writes entries) entries where
  utxos := rfl
  utxoAssets := rfl
  accounts := rfl
  decoded := stakesDecoded_writeAddressChunk decoded entriesDecoded
  totalLovelace := contribution_writeAddressChunk nodup fun _ _ _ => rfl
  utxoCount := contribution_writeAddressChunk nodup fun _ _ _ => rfl
  assetQuantity := assetQuantity_writeAddressChunk nodup
  stakeLovelace := stakeSum_writeAddressChunk (fun _ d => d.lovelace)
    nodup decoded entriesDecoded rfl (fun _ _ _ => rfl) fun _ _ _ => rfl
  stakeUtxos := stakeSum_writeAddressChunk (fun _ d => d.utxos)
    nodup decoded entriesDecoded rfl (fun _ _ _ => rfl) fun _ _ _ => rfl
  stakeAddresses := stakeSum_writeAddressChunk
    (fun prev _ => if prev.isSome then 0 else 1) nodup decoded entriesDecoded rfl
    (by intro prev _ _; cases prev <;> rfl)
    (by intro prev _ _; cases prev <;> simp [addStakeDelta])

theorem SumStep.trans {first second third : SumWrites}
    {entries others : List (Address × AddressDelta)} (step : SumStep first second entries)
    (next : SumStep second third others) : SumStep first third (entries ++ others) where
  utxos := next.utxos.trans step.utxos
  utxoAssets := next.utxoAssets.trans step.utxoAssets
  accounts := next.accounts.trans step.accounts
  decoded := next.decoded
  totalLovelace := by
    intro address
    rw [next.totalLovelace, step.totalLovelace, entrySum_append, add_assoc]
  utxoCount := by
    intro address
    rw [next.utxoCount, step.utxoCount, entrySum_append, add_assoc]
  assetQuantity := by
    intro address unit
    rw [next.assetQuantity, step.assetQuantity, entrySum_append, add_assoc]
  stakeLovelace := by
    intro stake
    have moved := step.stakeLovelace stake
    have movedOn := next.stakeLovelace stake
    omega
  stakeUtxos := by
    intro stake
    have moved := step.stakeUtxos stake
    have movedOn := next.stakeUtxos stake
    omega
  stakeAddresses := by
    intro stake
    have moved := step.stakeAddresses stake
    have movedOn := next.stakeAddresses stake
    omega

/-- Writing the addresses chunk by chunk adds every delta once. -/
theorem writeAddressChunks_step {writes : SumWrites}
    {chunks : List (List (Address × AddressDelta))}
    (nodup : (chunks.flatten.map Prod.fst).Nodup) (decoded : writes.db.StakesDecoded)
    (entriesDecoded : ∀ entry ∈ chunks.flatten,
      entry.2.stakeAddress = (decodeShelleyAddress entry.1).stakeAddress) :
    SumStep writes (chunks.foldl (writeAddressChunk slot) writes) chunks.flatten := by
  induction chunks generalizing writes with
  | nil =>
      refine ⟨rfl, rfl, rfl, decoded, ?_, ?_, ?_, fun _ => rfl, fun _ => rfl, fun _ => rfl⟩
      all_goals
        intros
        simp [entrySum]
  | cons entries chunks ih =>
      rw [List.flatten_cons, List.map_append] at nodup
      obtain ⟨entriesNodup, restNodup, -⟩ := List.nodup_append.mp nodup
      have step : SumStep writes (writeAddressChunk slot writes entries) entries :=
        writeAddressChunk_step entriesNodup decoded fun entry entryMem =>
          entriesDecoded entry (List.mem_append_left _ entryMem)
      exact step.trans (ih restNodup step.decoded fun entry entryMem =>
        entriesDecoded entry (List.mem_append_right _ entryMem))

/-! ## Accounts -/

omit [Bech32] in
/-- A quantity of the account rows grows by its change at every stake delta. -/
theorem contribution_writeAccountChunks {quantity : LedgerAccountRow → Int}
    {change : StakeDelta → Int}
    (grows : ∀ accounts entry, quantity (nextAccountRow slot accounts entry) =
      accounts.contribution quantity entry.1 + change entry.2)
    {db : LedgerDb} {chunks : List (List (StakeAddress × StakeDelta))}
    (nodup : (chunks.flatten.map Prod.fst).Nodup) (stake : StakeAddress) :
    (chunks.foldl (writeAccountChunk slot) db).accounts.contribution quantity stake =
      db.accounts.contribution quantity stake +
        (chunks.flatten.map fun entry =>
          if entry.1 = stake then change entry.2 else 0).sum := by
  induction chunks generalizing db with
  | nil => simp
  | cons entries chunks ih =>
      rw [List.flatten_cons, List.map_append] at nodup
      obtain ⟨entriesNodup, restNodup, -⟩ := List.nodup_append.mp nodup
      have written : (writeAccountChunk slot db entries).accounts.contribution quantity stake =
          db.accounts.contribution quantity stake +
            (entries.map fun entry => if entry.1 = stake then change entry.2 else 0).sum := by
        refine Table.contribution_upsertAll_map db.accounts quantity Prod.fst
          (fun _ => rfl) entriesNodup ?_ stake
        intro entry entryMem
        rw [grows, Table.contribution,
          Table.find?_restrict _ (List.mem_map.mpr ⟨entry, entryMem, rfl⟩)]
        rfl
      rw [List.foldl_cons, ih restNodup, written, List.flatten_cons, List.map_append,
        List.sum_append, add_assoc]

omit [Bech32] in
/-- Writing accounts leaves the other tables alone. -/
theorem writeAccountChunks_others (slot : Nat) (db : LedgerDb)
    (chunks : List (List (StakeAddress × StakeDelta))) :
    ∃ accounts, chunks.foldl (writeAccountChunk slot) db = { db with accounts } := by
  induction chunks generalizing db with
  | nil => exact ⟨db.accounts, rfl⟩
  | cons entries chunks ih =>
      obtain ⟨accounts, written⟩ := ih (writeAccountChunk slot db entries)
      exact ⟨accounts, written⟩

/-! ## All sums -/

/-- What writing the deltas of a block changes. -/
structure SumsWritten (before after : LedgerDb) (deltas : OrderedMap Address AddressDelta) :
    Prop where
  utxos : after.utxos = before.utxos
  utxoAssets : after.utxoAssets = before.utxoAssets
  decoded : after.StakesDecoded
  totalLovelace : ∀ address, after.totalLovelace address =
    before.totalLovelace address + OrderedMap.measure deltas AddressDelta.lovelace address
  utxoCount : ∀ address, after.utxoCount address =
    before.utxoCount address + OrderedMap.measure deltas AddressDelta.utxos address
  assetQuantity : ∀ address unit, after.assetQuantity address unit =
    before.assetQuantity address unit +
      OrderedMap.measure deltas (fun d => OrderedMap.measure d.assets id unit) address
  accounts : before.AccountsAgree → after.AccountsAgree

theorem writeSums_written {db : LedgerDb} {deltas : OrderedMap Address AddressDelta}
    (decoded : db.StakesDecoded)
    (deltasDecoded : ∀ entry ∈ deltas.rows,
      entry.2.stakeAddress = (decodeShelleyAddress entry.1).stakeAddress) :
    SumsWritten db (writeSums slot db deltas) deltas := by
  have step : SumStep ⟨db, Table.empty⟩
      ((chunk deltas.rows IN_CHUNK).foldl (writeAddressChunk slot) ⟨db, Table.empty⟩)
      (chunk deltas.rows IN_CHUNK).flatten := by
    apply writeAddressChunks_step
    · rw [flatten_chunk_IN_CHUNK]
      exact deltas.keys_nodup
    · exact decoded
    · rw [flatten_chunk_IN_CHUNK]
      exact deltasDecoded
  rw [flatten_chunk_IN_CHUNK] at step
  generalize writesEq :
    (chunk deltas.rows IN_CHUNK).foldl (writeAddressChunk slot) ⟨db, Table.empty⟩ = writes at step
  have written : writeSums slot db deltas =
      (chunk writes.stakeDeltas.rows IN_CHUNK).foldl (writeAccountChunk slot) writes.db := by
    rw [writeSums, writesEq]
  obtain ⟨accounts, others⟩ := writeAccountChunks_others slot writes.db
    (chunk writes.stakeDeltas.rows IN_CHUNK)
  have stakesNodup :
      ((chunk writes.stakeDeltas.rows IN_CHUNK).flatten.map Prod.fst).Nodup := by
    rw [flatten_chunk_IN_CHUNK]
    exact writes.stakeDeltas.keys_nodup
  have grown : ∀ {quantity : LedgerAccountRow → Int} (change : StakeDelta → Int),
      (∀ accounts entry, quantity (nextAccountRow slot accounts entry) =
        accounts.contribution quantity entry.1 + change entry.2) → ∀ stake,
      (writeSums slot db deltas).accounts.contribution quantity stake =
        db.accounts.contribution quantity stake +
          OrderedMap.measure writes.stakeDeltas change stake := by
    intro quantity change grows stake
    rw [written, contribution_writeAccountChunks grows stakesNodup, flatten_chunk_IN_CHUNK,
      OrderedMap.measure_eq_sum, step.accounts]
  have sameAddresses : (writeSums slot db deltas).addresses = writes.db.addresses := by
    rw [written, others]
  have sameAssets : (writeSums slot db deltas).addressAssets = writes.db.addressAssets := by
    rw [written, others]
  refine
    { utxos := ?_, utxoAssets := ?_, decoded := ?_, totalLovelace := ?_, utxoCount := ?_,
      assetQuantity := ?_, accounts := ?_ }
  · rw [written, others]
    exact step.utxos
  · rw [written, others]
    exact step.utxoAssets
  · unfold LedgerDb.StakesDecoded
    rw [sameAddresses]
    exact step.decoded
  · intro address
    rw [LedgerDb.totalLovelace, sameAddresses, OrderedMap.measure_eq_sum]
    exact step.totalLovelace address
  · intro address
    rw [LedgerDb.utxoCount, sameAddresses, OrderedMap.measure_eq_sum]
    exact step.utxoCount address
  · intro address unit
    rw [LedgerDb.assetQuantity, sameAssets, OrderedMap.measure_eq_sum]
    exact step.assetQuantity address unit
  · intro agree
    have sameStakeSum : ∀ stake quantity, (writeSums slot db deltas).stakeSum stake quantity =
        writes.db.stakeSum stake quantity := by
      intro stake quantity
      rw [LedgerDb.stakeSum, sameAddresses, ← LedgerDb.stakeSum]
    -- the stake deltas start empty, so they end as what the address rows gained
    have gained : ∀ {stake quantity total change},
        total + OrderedMap.measure (Table.empty : OrderedMap StakeAddress StakeDelta)
            change stake =
          db.stakeSum stake quantity + OrderedMap.measure writes.stakeDeltas change stake →
        db.stakeSum stake quantity + OrderedMap.measure writes.stakeDeltas change stake =
          total := by
      intro stake quantity total change same
      rw [← same]
      exact add_zero total
    intro stake
    refine ⟨?_, ?_, ?_⟩
    · have before := (agree stake).controlledAmount
      rw [LedgerDb.controlledAmount] at before ⊢
      rw [grown StakeDelta.lovelace fun _ _ => rfl, before, sameStakeSum]
      exact gained (step.stakeLovelace stake)
    · have before := (agree stake).accountUtxoCount
      rw [LedgerDb.accountUtxoCount] at before ⊢
      rw [grown StakeDelta.utxos fun _ _ => rfl, before, sameStakeSum]
      exact gained (step.stakeUtxos stake)
    · have before := (agree stake).addressCount
      rw [LedgerDb.addressCount] at before ⊢
      rw [grown StakeDelta.newAddresses fun _ _ => rfl, before, sameStakeSum]
      exact gained (step.stakeAddresses stake)

end Run

end Odatano
