import Odatano.LedgerApplySums

/-!
# Recounting sums

A recount makes the sums of an address agree with its open outputs and leaves
every other address alone; the recount of the accounts does the same for stake
keys and address rows.
-/

namespace Odatano

open LedgerState

/-! ## Accounts -/

theorem measure_stakeTotals (quantity : StakeDelta → Int) {rowQuantity : LedgerAddressRow → Int}
    (startsZero : quantity ⟨0, 0, 0⟩ = 0)
    (grows : ∀ (s : StakeDelta) (row : LedgerAddressRow),
      quantity
          { lovelace := s.lovelace + row.totalLovelace
            utxos := s.utxos + row.utxoCount
            newAddresses := s.newAddresses + 1 } =
        quantity s + rowQuantity row)
    (rows : List LedgerAddressRow) (stake : StakeAddress) :
    OrderedMap.measure (stakeTotals rows) quantity stake =
      (rows.map fun row => if row.stakeAddress = some stake then rowQuantity row else 0).sum := by
  have added := OrderedMap.measure_accumulate
    (fun entry : StakeAddress × LedgerAddressRow => entry.1) (fun _ => ⟨0, 0, 0⟩)
    (fun entry s =>
      { lovelace := s.lovelace + entry.2.totalLovelace
        utxos := s.utxos + entry.2.utxoCount
        newAddresses := s.newAddresses + 1 })
    quantity (fun entry => rowQuantity entry.2)
    (fun entry (_ : entry ∈ rows.filterMap fun row =>
      row.stakeAddress.map fun stake => (stake, row)) => startsZero)
    (fun entry _ s => grows s entry.2) Table.empty stake
  refine added.trans ?_
  have nothing : OrderedMap.measure (Table.empty : OrderedMap StakeAddress StakeDelta)
      quantity stake = 0 := rfl
  rw [nothing, zero_add]
  clear added
  induction rows with
  | nil => rfl
  | cons row rows ih =>
      cases rowStake : row.stakeAddress with
      | none => simpa [rowStake] using ih
      | some counted => simp [rowStake, ih]

/-- A recounted chunk agrees with the address rows. -/
theorem recountAccountChunk_agrees (db : LedgerDb) {stakeChunk : List StakeAddress}
    (nodup : stakeChunk.Nodup) {stake : StakeAddress} (listed : stake ∈ stakeChunk) :
    (recountAccountChunk db stakeChunk).AccountAgrees stake := by
  let addrRows := db.addresses.select fun row => row.stakeAddress.any fun s =>
    decide (s ∈ stakeChunk)
  let existing := db.accounts.restrict stakeChunk
  have rowsNodup : ((stakeChunk.map (recountedAccount (stakeTotals addrRows) existing)).map
      LedgerAccountRow.stakeAddress).Nodup := by
    simpa [Function.comp_def, recountedAccount] using nodup
  have found : (recountAccountChunk db stakeChunk).accounts.find? stake =
      some (recountedAccount (stakeTotals addrRows) existing stake) :=
    Table.find?_upsertAll_of_mem db.accounts rowsNodup
      (List.mem_map.mpr ⟨stake, listed, rfl⟩)
  have totals : ∀ rowQuantity : LedgerAddressRow → Int,
      (addrRows.map fun row =>
        if row.stakeAddress = some stake then rowQuantity row else 0).sum =
      (recountAccountChunk db stakeChunk).stakeSum stake rowQuantity := by
    intro rowQuantity
    simp only [addrRows, Table.select, LedgerDb.stakeSum, Table.sum, recountAccountChunk]
    induction db.addresses.rows with
    | nil => rfl
    | cons row rows ih =>
        rw [List.filter_cons]
        cases rowStake : row.stakeAddress with
        | none => simpa [rowStake] using ih
        | some counted =>
            by_cases inChunk : counted ∈ stakeChunk
            · simp [rowStake, inChunk, ih]
            · have other : counted ≠ stake := fun same => inChunk (same ▸ listed)
              simpa [rowStake, inChunk, other] using ih
  refine ⟨?_, ?_, ?_⟩
  · rw [← totals, LedgerDb.controlledAmount, Table.contribution, found,
      ← measure_stakeTotals StakeDelta.lovelace rfl fun _ _ => rfl]
    cases get : OrderedMap.get? (stakeTotals addrRows) stake <;>
      simp [recountedAccount, OrderedMap.measure, get]
  · rw [← totals, LedgerDb.accountUtxoCount, Table.contribution, found,
      ← measure_stakeTotals StakeDelta.utxos rfl fun _ _ => rfl]
    cases get : OrderedMap.get? (stakeTotals addrRows) stake <;>
      simp [recountedAccount, OrderedMap.measure, get]
  · rw [← totals, LedgerDb.addressCount, Table.contribution, found,
      ← measure_stakeTotals StakeDelta.newAddresses rfl fun _ _ => rfl]
    cases get : OrderedMap.get? (stakeTotals addrRows) stake <;>
      simp [recountedAccount, OrderedMap.measure, get]

/-- What a recount of accounts leaves alone. -/
structure AccountsRecounted (before after : LedgerDb) (stakes : List StakeAddress) : Prop where
  others : ∃ accounts, after = { before with accounts }
  listed : ∀ stake ∈ stakes, after.AccountAgrees stake
  unlisted : ∀ stake, stake ∉ stakes → before.AccountAgrees stake → after.AccountAgrees stake

theorem recountAccountChunk_recounted (db : LedgerDb) {stakeChunk : List StakeAddress}
    (nodup : stakeChunk.Nodup) :
    AccountsRecounted db (recountAccountChunk db stakeChunk) stakeChunk where
  others := ⟨_, rfl⟩
  listed := fun _ listed => recountAccountChunk_agrees db nodup listed
  unlisted := by
    intro stake unlisted agrees
    have kept : (recountAccountChunk db stakeChunk).accounts.find? stake =
        db.accounts.find? stake := by
      apply Table.find?_upsertAll_of_notMem
      simpa [Function.comp_def, recountedAccount] using unlisted
    refine ⟨?_, ?_, ?_⟩
    · rw [LedgerDb.controlledAmount, Table.contribution, kept]
      exact agrees.controlledAmount
    · rw [LedgerDb.accountUtxoCount, Table.contribution, kept]
      exact agrees.accountUtxoCount
    · rw [LedgerDb.addressCount, Table.contribution, kept]
      exact agrees.addressCount

theorem recountLedgerAccounts_recounted (db : LedgerDb) {stakes : List StakeAddress}
    (nodup : stakes.Nodup) : AccountsRecounted db (recountLedgerAccounts db stakes) stakes := by
  have run : ∀ (chunks : List (List StakeAddress)) (db : LedgerDb), chunks.flatten.Nodup →
      AccountsRecounted db (chunks.foldl recountAccountChunk db) chunks.flatten := by
    intro chunks
    induction chunks with
    | nil => exact fun db _ => ⟨⟨db.accounts, rfl⟩, by simp, fun _ _ agrees => agrees⟩
    | cons stakeChunk chunks ih =>
        intro db nodup
        rw [List.flatten_cons] at nodup ⊢
        obtain ⟨chunkNodup, restNodup, apart⟩ := List.nodup_append.mp nodup
        have first := recountAccountChunk_recounted db chunkNodup
        have rest := ih (recountAccountChunk db stakeChunk) restNodup
        refine ⟨?_, ?_, ?_⟩
        · obtain ⟨firstAccounts, firstEq⟩ := first.others
          obtain ⟨accounts, restEq⟩ := rest.others
          exact ⟨accounts, by rw [List.foldl_cons, restEq, firstEq]⟩
        · intro stake listed
          by_cases later : stake ∈ chunks.flatten
          · exact rest.listed stake later
          · exact rest.unlisted stake later (first.listed stake
              ((List.mem_append.mp listed).resolve_right later))
        · intro stake unlisted agrees
          rw [List.mem_append, not_or] at unlisted
          exact rest.unlisted stake unlisted.2 (first.unlisted stake unlisted.1 agrees)
  have recounted := run (chunk stakes IN_CHUNK) db (by rwa [flatten_chunk_IN_CHUNK])
  rwa [flatten_chunk_IN_CHUNK] at recounted

/-! ## Addresses -/

section Addresses

variable [Bech32] {db : LedgerDb}

omit [Bech32] in
/-- Asset sums over chunks of transactions count every listed row once. -/
private theorem measure_assetChunks (assets : Table LedgerUtxoAssetRow.key)
    (openKeys : List Outpoint) (unit : AssetUnit) {chunks : List (List TxHash)}
    (nodup : chunks.flatten.Nodup) (sums : OrderedMap AssetUnit Int) :
    OrderedMap.measure
        (chunks.foldl
          (fun sums hashChunk =>
            OrderedMap.accumulate LedgerUtxoAssetRow.unit (fun _ => 0)
              (fun a quantity => quantity + a.asset.quantity) sums
              ((assets.select fun a => decide (a.utxo.txHash ∈ hashChunk)).filter fun a =>
                decide (a.utxo ∈ openKeys)))
          sums) id unit =
      OrderedMap.measure sums id unit + assets.sum fun a =>
        if a.utxo.txHash ∈ chunks.flatten ∧ a.utxo ∈ openKeys ∧ a.unit = unit then
          a.asset.quantity else 0 := by
  induction chunks generalizing sums with
  | nil => simp [Table.sum]
  | cons hashChunk chunks ih =>
      rw [List.flatten_cons] at nodup
      obtain ⟨-, restNodup, apart⟩ := List.nodup_append.mp nodup
      have added := OrderedMap.measure_accumulate LedgerUtxoAssetRow.unit
        (fun _ => (0 : Int)) (fun a quantity => quantity + a.asset.quantity) id
        (fun a => a.asset.quantity)
        (fun a (_ : a ∈ (assets.select fun a => decide (a.utxo.txHash ∈ hashChunk)).filter
          fun a => decide (a.utxo ∈ openKeys)) => rfl)
        (fun _ _ _ => rfl) sums unit
      rw [List.foldl_cons, ih restNodup, added, add_assoc]
      congr 1
      clear added ih
      rw [Table.select, Table.sum, Table.sum]
      induction assets.rows with
      | nil => simp
      | cons a rows rowsIH =>
          simp only [List.flatten_cons, List.mem_append] at rowsIH ⊢
          rw [List.filter_cons, List.map_cons, List.map_cons, List.sum_cons, List.sum_cons,
            ← rowsIH]
          by_cases here : a.utxo.txHash ∈ hashChunk
          · have notLater : a.utxo.txHash ∉ chunks.flatten := fun later =>
              apart _ here _ later rfl
            by_cases isOpen : a.utxo ∈ openKeys <;> simp [here, notLater, isOpen, add_assoc]
          · simp only [here, decide_false, Bool.false_eq_true, if_false, false_or]
            abel

/-- The recounted asset sums are what the open outputs hold. -/
theorem measure_openAssetSums (built : db.RowsBuilt) (address : Address) (unit : AssetUnit) :
    OrderedMap.measure (openAssetSums db address) id unit =
      db.openSum address (db.holding unit) := by
  rw [LedgerDb.openSum_holding, openAssetSums]
  simp only
  rw [measure_assetChunks _ _ _ (by rw [flatten_chunk_IN_CHUNK]; exact distinct_nodup _),
    flatten_chunk_IN_CHUNK]
  have nothing : OrderedMap.measure (Table.empty : OrderedMap AssetUnit Int) id unit = 0 := rfl
  rw [nothing, zero_add]
  apply Table.sum_congr
  intro a aMem
  obtain ⟨row, rowMem, owner, hasAssets⟩ := built.assetOwned a aMem
  have found : db.utxos.find? a.utxo = some row := by
    rw [← owner]
    exact Table.find?_of_mem rowMem
  have openKey : a.utxo ∈ (db.utxos.select fun row => row.openAt address).map
      LedgerUtxoRow.outpoint ↔ row.openAt address = true := by
    constructor
    · intro listed
      obtain ⟨other, otherMem, sameKey⟩ := List.mem_map.mp listed
      obtain ⟨otherMem, isOpen⟩ := Table.mem_select.mp otherMem
      rwa [Table.mem_rows_inj otherMem rowMem (sameKey.trans owner.symm)] at isOpen
    · exact fun isOpen =>
        List.mem_map.mpr ⟨row, Table.mem_select.mpr ⟨rowMem, isOpen⟩, owner⟩
  rw [found, Option.any_some]
  by_cases isOpen : row.openAt address = true
  · have asked : a.utxo.txHash ∈ (((db.utxos.select fun row =>
        row.openAt address).filter LedgerUtxoRow.hasAssets).map LedgerUtxoRow.txHash) := by
      refine List.mem_map.mpr ⟨row, ?_, by rw [← owner, LedgerUtxoRow.outpoint_txHash]⟩
      simp [rowMem, isOpen, hasAssets]
    simp only [mem_distinct, asked, openKey, isOpen, true_and, and_true]
  · simp only [openKey, isOpen, Bool.false_eq_true, false_and, and_false]

/-- The stake key of a recounted address is the one it decodes to. -/
theorem recountedAddress_stakeAddress (built : db.RowsBuilt) (decoded : db.StakesDecoded)
    (address : Address) :
    (recountedAddress db address).stakeAddress =
      (decodeShelleyAddress address).stakeAddress := by
  simp only [recountedAddress]
  have ofRows : ((db.utxos.select fun row => row.openAt address).head?.bind
      LedgerUtxoRow.stakeAddress).or (decodeShelleyAddress address).stakeAddress =
        (decodeShelleyAddress address).stakeAddress := by
    cases first : (db.utxos.select fun row => row.openAt address).head? with
    | none => rfl
    | some row =>
        obtain ⟨rowMem, isOpen⟩ := Table.mem_select.mp (List.mem_of_head? first)
        have rowAddress : row.address = address := by
          simp only [LedgerUtxoRow.openAt, Bool.and_eq_true, decide_eq_true_eq] at isOpen
          exact isOpen.1
        rw [Option.bind_some, (built.ownerDecoded row rowMem).stakeAddress, rowAddress,
          Option.or_self]
  rw [ofRows]
  cases found : db.addresses.find? address with
  | none => rfl
  | some prev =>
      rw [Option.bind_some, decoded prev (Table.mem_of_find? found), Table.key_of_find? found,
        Option.or_self]

omit [Bech32] in
private theorem find?_addressAssets_delete (address other : Address) (unit : AssetUnit) :
    (db.addressAssets.delete fun row => decide (row.address = address)).find? (other, unit) =
      if other = address then none else db.addressAssets.find? (other, unit) := by
  rw [Table.find?_delete]
  cases found : db.addressAssets.find? (other, unit) with
  | none => simp
  | some row =>
      have rowAddress : row.address = other := congrArg Prod.fst (Table.key_of_find? found)
      by_cases same : other = address <;> simp [Option.filter, rowAddress, same]

/-- The recounted asset rows hold the recounted asset sums. -/
theorem assetQuantity_recountAddress (db : LedgerDb) (address other : Address)
    (unit : AssetUnit) :
    (recountAddress db address).assetQuantity other unit =
      if other = address then OrderedMap.measure (openAssetSums db address) id unit
      else db.assetQuantity other unit := by
  let rowOf (entry : AssetUnit × Int) : Option LedgerAddressAssetRow :=
    if entry.2 = 0 then none else some ⟨address, entry.1, assetSlice entry.1 entry.2⟩
  have table : (recountAddress db address).addressAssets =
      (db.addressAssets.delete fun row => decide (row.address = address)).upsertAll
        ((openAssetSums db address).rows.filterMap rowOf) := by
    rw [recountAddress, writeChunks_eq]
  have keyOf : ∀ entry row, rowOf entry = some row → row.key = (address, entry.1) := by
    intro entry row made
    simp only [rowOf] at made
    split at made <;> cases made
    rfl
  have nodup : (((openAssetSums db address).rows.filterMap rowOf).map
      LedgerAddressAssetRow.key).Nodup := by
    have keys : ((openAssetSums db address).rows.map fun entry => (address, entry.1)).Nodup := by
      have mapped := (openAssetSums db address).keys_nodup.map
        (f := fun unit => (address, unit)) fun _ _ same => (Prod.mk.inj same).2
      simpa [OrderedMap.keys, Function.comp_def] using mapped
    refine List.Nodup.sublist ?_ keys
    induction (openAssetSums db address).rows with
    | nil => simp
    | cons entry rows ih =>
        rw [List.filterMap_cons, List.map_cons]
        cases made : rowOf entry with
        | none => exact ih.trans (List.sublist_cons_self _ _)
        | some row =>
            rw [List.map_cons, keyOf entry row made]
            exact ih.cons_cons _
  rw [LedgerDb.assetQuantity, table, Table.contribution]
  by_cases same : other = address
  · subst same
    rw [if_pos rfl, OrderedMap.measure]
    cases made : (OrderedMap.get? (openAssetSums db other) unit).bind fun quantity =>
        rowOf (unit, quantity) with
    | some row =>
        obtain ⟨quantity, found, made⟩ := Option.bind_eq_some_iff.mp made
        have rowMem : row ∈ (openAssetSums db other).rows.filterMap rowOf :=
          List.mem_filterMap.mpr ⟨(unit, quantity), OrderedMap.get?_eq_some_iff.mp found, made⟩
        rw [← keyOf (unit, quantity) row made, Table.find?_upsertAll_of_mem _ nodup rowMem, found]
        simp only [rowOf] at made
        split at made <;> cases made
        rfl
    | none =>
        have notWritten : (other, unit) ∉ ((openAssetSums db other).rows.filterMap rowOf).map
            LedgerAddressAssetRow.key := by
          intro written
          obtain ⟨row, rowMem, sameKey⟩ := List.mem_map.mp written
          obtain ⟨entry, entryMem, madeRow⟩ := List.mem_filterMap.mp rowMem
          have sameUnit : entry.1 = unit :=
            congrArg Prod.snd ((keyOf entry row madeRow).symm.trans sameKey)
          subst sameUnit
          rw [OrderedMap.get?_eq_some_iff.mpr entryMem, Option.bind_some, madeRow] at made
          cases made
        rw [Table.find?_upsertAll_of_notMem _ notWritten, find?_addressAssets_delete, if_pos rfl]
        cases found : OrderedMap.get? (openAssetSums db other) unit with
        | none => rfl
        | some quantity =>
            simp only [found, Option.bind_some, rowOf] at made
            split at made
            · rename_i zero
              simp [zero]
            · cases made
  · have notWritten : (other, unit) ∉ ((openAssetSums db address).rows.filterMap rowOf).map
        LedgerAddressAssetRow.key := by
      intro written
      obtain ⟨row, rowMem, sameKey⟩ := List.mem_map.mp written
      obtain ⟨entry, -, made⟩ := List.mem_filterMap.mp rowMem
      exact same (congrArg Prod.fst (sameKey.symm.trans (keyOf entry row made)))
    rw [Table.find?_upsertAll_of_notMem _ notWritten, find?_addressAssets_delete, if_neg same,
      if_neg same]
    rfl

/-- What recounting some addresses changes.  `stakes` are the stake keys of
these addresses. -/
structure AddressesRecounted (before after : LedgerDb) (addresses : List Address)
    (stakes : List StakeAddress) : Prop where
  utxos : after.utxos = before.utxos
  utxoAssets : after.utxoAssets = before.utxoAssets
  accounts : after.accounts = before.accounts
  decoded : after.StakesDecoded
  listed : ∀ address ∈ addresses, after.AddressAgrees address
  unlisted : ∀ address, address ∉ addresses → before.AddressAgrees address →
    after.AddressAgrees address
  otherStakes : ∀ stake, stake ∉ stakes → ∀ quantity,
    after.stakeSum stake quantity = before.stakeSum stake quantity

theorem recountAddress_recounted (built : db.RowsBuilt) (decoded : db.StakesDecoded)
    (address : Address) :
    AddressesRecounted db (recountAddress db address) [address]
      (recountedAddress db address).stakeAddress.toList where
  utxos := rfl
  utxoAssets := rfl
  accounts := rfl
  decoded := by
    intro row rowMem
    rcases Table.mem_upsert.mp rowMem with rfl | ⟨rowMem, -⟩
    · exact recountedAddress_stakeAddress built decoded address
    · exact decoded row rowMem
  listed := by
    intro address' listed
    obtain rfl := List.mem_singleton.mp listed
    have found : (recountAddress db address').addresses.find? address' =
        some (recountedAddress db address') := by
      rw [recountAddress, Table.find?_upsert]
      exact if_pos rfl
    refine ⟨?_, ?_, ?_⟩
    · rw [LedgerDb.totalLovelace, Table.contribution, found]
      rfl
    · rw [LedgerDb.utxoCount, Table.contribution, found]
      simp [recountedAddress, LedgerDb.openSum, recountAddress]
    · intro unit
      rw [assetQuantity_recountAddress, if_pos rfl, measure_openAssetSums built]
      rfl
  unlisted := by
    intro other unlisted agrees
    have different : address ≠ other := fun same => unlisted (by simp [same])
    have kept : (recountAddress db address).addresses.find? other =
        db.addresses.find? other := by
      rw [recountAddress, Table.find?_upsert]
      exact if_neg different
    refine ⟨?_, ?_, ?_⟩
    · rw [LedgerDb.totalLovelace, Table.contribution, kept]
      exact agrees.totalLovelace
    · rw [LedgerDb.utxoCount, Table.contribution, kept]
      exact agrees.utxoCount
    · intro unit
      rw [assetQuantity_recountAddress, if_neg (Ne.symm different)]
      exact agrees.assetQuantity unit
  otherStakes := by
    intro stake otherStake quantity
    rw [recountedAddress_stakeAddress built decoded] at otherStake
    have notStake : (decodeShelleyAddress address).stakeAddress ≠ some stake := by
      simpa using otherStake
    have newRow := recountedAddress_stakeAddress built decoded address
    have oldRow : db.addresses.contribution
        (fun row => if row.stakeAddress = some stake then quantity row else 0) address = 0 := by
      cases found : db.addresses.find? address with
      | none => simp [Table.contribution, found]
      | some prev =>
          have prevStake := decoded prev (Table.mem_of_find? found)
          rw [Table.key_of_find? found] at prevStake
          simp [Table.contribution, found, prevStake, notStake]
    change (db.addresses.upsert (recountedAddress db address)).sum _ = _
    rw [Table.sum_upsert]
    change _ + (_ - db.addresses.contribution _ address) = _
    rw [oldRow, newRow, if_neg notStake, sub_zero, add_zero]
    rfl

theorem AddressesRecounted.rowsBuilt {before after : LedgerDb} {addresses : List Address}
    {stakes : List StakeAddress} (recounted : AddressesRecounted before after addresses stakes)
    (built : before.RowsBuilt) : after.RowsBuilt := by
  refine ⟨?_, ?_, ?_⟩
  · rw [recounted.utxos]
    exact built.ownerDecoded
  · rw [recounted.utxos]
    exact built.unspent
  · rw [recounted.utxos, recounted.utxoAssets]
    exact built.assetOwned

/-- Recounting one address after another recounts them all. -/
theorem recountAddresses_run (built : db.RowsBuilt) (decoded : db.StakesDecoded)
    (addresses : List Address) (stakes : List StakeAddress) :
    ∃ gained,
      (addresses.foldl
        (fun state address =>
          (recountAddress state.1 address,
            state.2 ++ (recountedAddress state.1 address).stakeAddress.toList))
        (db, stakes)).2 = stakes ++ gained ∧
      AddressesRecounted db
        (addresses.foldl
          (fun state address =>
            (recountAddress state.1 address,
              state.2 ++ (recountedAddress state.1 address).stakeAddress.toList))
          (db, stakes)).1 addresses gained := by
  induction addresses generalizing db stakes with
  | nil =>
      exact ⟨[], by simp, rfl, rfl, rfl, decoded, by simp, fun _ _ agrees => agrees,
        fun _ _ _ => rfl⟩
  | cons address addresses ih =>
      have first := recountAddress_recounted built decoded address
      obtain ⟨gained, stakesEq, rest⟩ := ih (first.rowsBuilt built) first.decoded
        (stakes ++ (recountedAddress db address).stakeAddress.toList)
      refine ⟨(recountedAddress db address).stakeAddress.toList ++ gained, ?_, ?_⟩
      · rw [List.foldl_cons, stakesEq, List.append_assoc]
      · rw [List.foldl_cons]
        refine ⟨rest.utxos.trans first.utxos, rest.utxoAssets.trans first.utxoAssets,
          rest.accounts.trans first.accounts, rest.decoded, ?_, ?_, ?_⟩
        · intro other listed
          by_cases later : other ∈ addresses
          · exact rest.listed other later
          · have here : other = address := (List.mem_cons.mp listed).resolve_right later
            exact rest.unlisted other later (first.listed other (by simp [here]))
        · intro other unlisted agrees
          rw [List.mem_cons, not_or] at unlisted
          exact rest.unlisted other unlisted.2
            (first.unlisted other (by simpa using unlisted.1) agrees)
        · intro stake unlisted quantity
          rw [List.mem_append, not_or] at unlisted
          rw [rest.otherStakes stake unlisted.2, first.otherStakes stake unlisted.1]

/-- After a recount of every address whose sums may be off, all sums agree. -/
theorem recountLedgerAddresses_consistent (built : db.RowsBuilt) (decoded : db.StakesDecoded)
    (accounts : db.AccountsAgree) {addresses : List Address}
    (others : ∀ address, address ∉ addresses → db.AddressAgrees address) :
    (recountLedgerAddresses db addresses).Consistent ∧
      (recountLedgerAddresses db addresses).utxos = db.utxos ∧
      (recountLedgerAddresses db addresses).utxoAssets = db.utxoAssets := by
  obtain ⟨stakes, stakesEq, recounted⟩ := recountAddresses_run built decoded addresses []
  rw [List.nil_append] at stakesEq
  rw [recountLedgerAddresses]
  rw [stakesEq]
  generalize (addresses.foldl
    (fun state address =>
      (recountAddress state.1 address,
        state.2 ++ (recountedAddress state.1 address).stakeAddress.toList))
    (db, [])).1 = counted at recounted
  have accountsRecounted := recountLedgerAccounts_recounted counted (distinct_nodup stakes)
  obtain ⟨newAccounts, sameOthers⟩ := accountsRecounted.others
  have countedBuilt := recounted.rowsBuilt built
  have addressesAgree : counted.AddressesAgree := by
    intro address
    by_cases listed : address ∈ addresses
    · exact recounted.listed address listed
    · exact recounted.unlisted address listed (others address listed)
  refine ⟨⟨?_, ?_, ?_, ?_⟩, ?_, ?_⟩
  · rw [sameOthers]
    exact ⟨countedBuilt.ownerDecoded, countedBuilt.unspent, countedBuilt.assetOwned⟩
  · rw [sameOthers]
    exact recounted.decoded
  · rw [sameOthers]
    intro address
    have agrees := addressesAgree address
    exact ⟨agrees.totalLovelace, agrees.utxoCount, agrees.assetQuantity⟩
  · intro stake
    by_cases listed : stake ∈ distinct stakes
    · exact accountsRecounted.listed stake listed
    · -- an unlisted stake key kept its account and its address rows
      apply accountsRecounted.unlisted stake listed
      have agrees := accounts stake
      have sameSum := recounted.otherStakes stake fun member =>
        listed (mem_distinct.mpr member)
      refine ⟨?_, ?_, ?_⟩
      · rw [sameSum, ← agrees.controlledAmount, LedgerDb.controlledAmount, recounted.accounts]
        rfl
      · rw [sameSum, ← agrees.accountUtxoCount, LedgerDb.accountUtxoCount, recounted.accounts]
        rfl
      · rw [sameSum, ← agrees.addressCount, LedgerDb.addressCount, recounted.accounts]
        rfl
  · rw [sameOthers]
    exact recounted.utxos
  · rw [sameOthers]
    exact recounted.utxoAssets

end Addresses

end Odatano
