import Odatano.IndexedOutputs

/-!
# Blocks indexed by a replica

An instance that indexes a block as another one serves it finds every input resolved as far as it
can be and every fee settled, so it writes the rows of the other instance.
-/

namespace Odatano

/-! ## Delivered blocks -/

/-- A block as a backend delivers it to the first instance, with the UTxO set that answers for it:
its transactions are numbered and accepted by the ledger, and what they make and spend is known. -/
structure DeliveredBlock [Bech32] (paid : ChainOutputs) (minted : TxHash → AssetUnit → Int)
    (b : IndexedBlock) : Prop where
  numbered : Numbered b
  servable : ∀ t ∈ b.txs, t.Servable
  accepted : ∀ t ∈ b.txs, LedgerAccepted paid (minted t.hash) t
  produced : ∀ t ∈ b.txs, ∀ o ∈ t.outputs,
    o.address ≠ "" ∧ Spells (paid ⟨t.hash, o.outputIndex⟩) o.amount.amounts
  utxos : ∀ db ∈ b.ledger, db.RowsBuilt ∧ ∀ row ∈ db.utxos.rows, row.address ≠ "" ∧
    Spells (paid row.outpoint) (ledgerRowAmount row
      (db.utxoAssets.select fun a => decide (a.utxo = row.outpoint)))
  bare : ∀ t ∈ b.txs, ∀ input ∈ t.inputs, input.address = "" → input.amount = []
  filled : ∀ t ∈ b.txs, ∀ input ∈ t.inputs, input.address ≠ "" →
    Spells (paid input.outpoint) input.amount
  leader : b.block.slotLeader.isSome
  fees : (∃ t ∈ b.txs, t.phase2Failed = true) →
    b.block.fees = some (b.txs.map Transaction.fee).sum

/-! ## Fees of served transactions -/

@[simp] theorem lovelaceOf_lovelaceFirst (amount : List Amount) :
    lovelaceOf (lovelaceFirst amount) = lovelaceOf amount := by
  have first : (lovelaceFirst amount).find? (fun a => decide (a.unit = lovelace)) =
      amount.find? fun a => decide (a.unit = lovelace) := by
    have noAda : ((amount.filter fun a => decide (a.unit ≠ lovelace)).find?
        fun a => decide (a.unit = lovelace)) = none := by
      refine List.find?_eq_none.mpr fun a aMem isAda => ?_
      exact of_decide_eq_true (List.mem_filter.mp aMem).2 (of_decide_eq_true isAda)
    rw [lovelaceFirst, List.find?_append, noAda, Option.or_none, List.find?_filter]
    simp only [and_self, Bool.decide_eq_true]
  rw [lovelaceOf, lovelaceOf, first]

section Fees

variable [Bech32] {coverage : CrawlCoverage} {block : BlockData} {t : Transaction}
  {paid : ChainOutputs} {minted : AssetUnit → Int}

/-- What a served transaction is charged does not depend on a declared collateral. -/
theorem chargedFee_served (servable : t.Servable) :
    chargedFee (servedTransaction coverage block t) =
      chargedFee { t with totalCollateral := none } := by
  have flag : (servedTransaction coverage block t).phase2Failed = t.phase2Failed :=
    servable.failsPhase2_served
  cases failed : t.phase2Failed with
  | false =>
      rw [failed] at flag
      have own : ({ t with totalCollateral := none } : Transaction).phase2Failed = false := failed
      simp only [chargedFee, flag, own, Bool.not_false, Bool.true_or, if_true]
  | true =>
      rw [failed] at flag
      have own : ({ t with totalCollateral := none } : Transaction).phase2Failed = true := failed
      have inputs : (servedTransaction coverage block t).inputs.filter TxInputLine.isCollateral =
          (t.inputs.filter TxInputLine.isCollateral).map servedInput :=
        filter_map_keeps fun _ => rfl
      have consumed : (((t.inputs.filter TxInputLine.isCollateral).map servedInput).map fun i =>
          lovelaceOf i.amount) =
            (t.inputs.filter TxInputLine.isCollateral).map fun i => lovelaceOf i.amount := by
        rw [List.map_map]
        exact List.map_congr_left fun i _ => lovelaceOf_lovelaceFirst i.amount
      have bare : (((t.inputs.filter TxInputLine.isCollateral).map servedInput).any fun i =>
          decide (i.address = "")) =
            (t.inputs.filter TxInputLine.isCollateral).any fun i => decide (i.address = "") := by
        rw [List.any_map]
        rfl
      have returned : (((servedTransaction coverage block t).outputs.filter
          TxOutputLine.isCollateral).map fun o => lovelaceOf o.amount.amounts).sum =
            ((t.outputs.filter TxOutputLine.isCollateral).map fun o =>
              lovelaceOf o.amount.amounts).sum := by
        have all : t.outputs.filter TxOutputLine.isCollateral = t.outputs :=
          List.filter_eq_self.mpr fun o oMem => (servable.made o oMem).trans failed
        have served : (servedTransaction coverage block t).outputs.filter
            TxOutputLine.isCollateral = (servedTransaction coverage block t).outputs := by
          refine List.filter_eq_self.mpr fun o oMem => ?_
          obtain ⟨o, -, rfl⟩ := List.mem_map.mp oMem
          exact flag
        rw [all, served, servedTransaction, List.map_map]
        refine List.Perm.sum_eq (((List.mergeSort_perm _ _).map _).trans (List.Perm.of_eq ?_))
        refine List.map_congr_left fun o _ => ?_
        rw [Function.comp_apply, amounts_servedOutput, lovelaceOf_lovelaceFirst]
      simp only [chargedFee, flag, own, inputs, consumed, bare, returned, List.map_eq_nil_iff]
      rfl

/-- A served transaction keeps its fee. -/
theorem settled_served (servable : t.Servable) (accounted : Accounted paid minted t)
    (settled : (chargedFee t).getD t.fee = t.fee) :
    (chargedFee (servedTransaction coverage block t)).getD t.fee = t.fee := by
  rw [chargedFee_served servable]
  cases declared : t.totalCollateral with
  | none =>
      have same : { t with totalCollateral := none } = t := by rw [← declared]
      rw [same]
      exact settled
  | some total =>
      have isDeclared : t.totalCollateral.isSome = true := declared ▸ rfl
      rw [chargedFee]
      split
      · rfl
      · rename_i failed
        have failed : t.phase2Failed = true := by
          simpa [Transaction.phase2Failed] using failed
        split
        · rfl
        · split
          · rfl
          · split
            · rfl
            · rename_i someCollateral addressed nonneg
              rw [Option.getD_some, accounted.accepted.declared failed isDeclared, forfeited]
              congr 2
              refine List.map_congr_left fun i iMem => ?_
              refine (accounted.spells i (List.mem_filter.mp iMem).1 fun isBare => ?_).ada
              exact addressed (List.any_eq_true.mpr ⟨i, iMem, decide_eq_true isBare⟩)

end Fees

/-! ## Prepared transactions -/

/-- A transaction that can be served can be served after it is prepared. -/
theorem servable_prepareTx {store : CrawlStore} {ledger : Option LedgerDb}
    {txs : List Transaction} {t : Transaction} (servable : t.Servable) :
    (prepareTx store ledger txs t).Servable where
  height := servable.height
  time := servable.time
  phase2 := by
    refine Eq.trans (failsPhase2_map fun i => ?_) servable.phase2
    exact (resolveInput_keeps store txs ledger i).2
  made := servable.made
  labels := servable.labels
  labelled := servable.labelled
  outputs := servable.outputs

/-- The fee of a prepared transaction is settled. -/
theorem settled_prepareTx (store : CrawlStore) (ledger : Option LedgerDb) (txs : List Transaction)
    (t : Transaction) :
    (chargedFee (prepareTx store ledger txs t)).getD (prepareTx store ledger txs t).fee =
      (prepareTx store ledger txs t).fee := by
  have charged : chargedFee (prepareTx store ledger txs t) =
      chargedFee { t with inputs := t.inputs.map (resolveInput store txs ledger) } := rfl
  rw [charged, prepareTx]
  cases chargedFee { t with inputs := t.inputs.map (resolveInput store txs ledger) } <;> rfl

section Prepared

variable [Bech32] {coverage : CrawlCoverage} {paid : ChainOutputs}
  {minted : TxHash → AssetUnit → Int} {chain : List IndexedBlock} {b : IndexedBlock}

/-- The tables that a chain was indexed into hold outputs of it. -/
theorem DeliveredBlock.holdChain (lined : LinedChain coverage chain)
    (earlier : ∀ c ∈ chain, DeliveredBlock paid minted c) (delivered : DeliveredBlock paid minted b) :
    HoldChain (indexChain coverage CrawlStore.empty chain) b.txs b.ledger paid where
  produced := delivered.produced
  utxos := delivered.utxos
  bare := delivered.bare
  filled := delivered.filled
  stored := by
    intro key out row at_
    obtain ⟨t, tMem, hash, o, oMem, index, address, amounts⟩ := lined.output_of_storedAt at_
    have member := List.mem_map_of_mem (f := fun t => (t.hash, t.outputs)) tMem
    rw [map_preparedTxs _ fun _ _ _ => rfl] at member
    obtain ⟨c, cMem, member⟩ := List.mem_flatMap.mp member
    obtain ⟨u, uMem, same⟩ := List.mem_map.mp member
    simp only [Prod.mk.injEq] at same
    obtain ⟨addressed, spells⟩ := (earlier c cMem).produced u uMem o (same.2 ▸ oMem)
    rw [address, amounts]
    rw [same.1, hash, index] at spells
    exact ⟨addressed, spells⟩

variable (lined : LinedChain coverage chain)
  (holds : HoldChain (indexChain coverage CrawlStore.empty chain) b.txs b.ledger paid)

include lined holds

theorem accounted_prepareTx {minted : AssetUnit → Int} {t : Transaction} (tMem : t ∈ b.txs)
    (accepted : LedgerAccepted paid minted t) :
    Accounted paid minted
      (prepareTx (indexChain coverage CrawlStore.empty chain) b.ledger b.txs t) where
  accepted := by
    have resolved := accepted.resolve
      (resolveInput_keeps (indexChain coverage CrawlStore.empty chain) b.txs b.ledger)
    refine ⟨resolved.balanced, resolved.reported, resolved.unminted, resolved.collateral,
      fun failed isDeclared => ?_⟩
    have uncharged : chargedFee { t with
        inputs := t.inputs.map
          (resolveInput (indexChain coverage CrawlStore.empty chain) b.txs b.ledger) } = none := by
      have declared : t.totalCollateral.isSome = true := isDeclared
      simp only [chargedFee, declared, Bool.or_true, if_true]
    rw [prepareTx, uncharged]
    exact resolved.declared failed isDeclared
  spells := by
    intro i member addressed
    obtain ⟨input, inputMem, rfl⟩ := List.mem_map.mp member
    rw [(resolveInput_keeps _ b.txs b.ledger input).1]
    exact (resolveInput_spells holds tMem inputMem
      (lined.resolvable_of_addressed holds tMem inputMem addressed)).2

/-- An input that stays without an address has no amounts, and nothing knows its output. -/
theorem bare_of_prepareTx {t : Transaction} (tMem : t ∈ b.txs) {i : TxInputLine}
    (iMem : i ∈ (prepareTx (indexChain coverage CrawlStore.empty chain) b.ledger b.txs t).inputs)
    (isBare : i.address = "") :
    i.amount = [] ∧ ¬StoredIn (indexChain coverage CrawlStore.empty chain) i.outpoint ∧
      ∀ u ∈ b.txs, ∀ o ∈ u.outputs, i.outpoint ≠ ⟨u.hash, o.outputIndex⟩ := by
  obtain ⟨input, inputMem, rfl⟩ := List.mem_map.mp iMem
  have unknown : ¬Resolvable (indexChain coverage CrawlStore.empty chain) b.txs b.ledger input :=
    fun known => (resolveInput_spells holds tMem inputMem known).1 isBare
  rw [Resolvable, not_or, not_or, not_or] at unknown
  obtain ⟨unfilled, notOwn, notLedger, notStored⟩ := unknown
  have bare := Classical.not_not.mp unfilled
  rw [(resolveInput_keeps _ b.txs b.ledger input).1]
  refine ⟨?_, notStored, fun u uMem o oMem same => notOwn ⟨u, uMem, o, oMem, same⟩⟩
  have noOwn : OrderedMap.get? (blockOutputs b.txs) input.outpoint = none :=
    Option.eq_none_iff_forall_ne_some.mpr fun own found => by
      obtain ⟨source, sourceMem, ownMem, isKey⟩ := mem_blockOutputs found
      exact notOwn ⟨source, sourceMem, own, ownMem, isKey⟩
  have asked : input ∈ unresolvedInputs b.txs := by
    refine List.mem_filter.mpr ⟨List.mem_flatMap.mpr ⟨t, tMem, inputMem⟩, ?_⟩
    rw [noOwn, decide_eq_true bare]
    rfl
  have noLedger : ledgerOutput b.txs b.ledger input.outpoint = none := by
    cases isLedger : b.ledger with
    | none => rfl
    | some db =>
        rw [← isLedger, ledgerOutput_eq holds isLedger asked, Option.map_eq_none_iff]
        exact Option.eq_none_iff_forall_ne_some.mpr fun row found =>
          notLedger ⟨db, isLedger, found ▸ rfl⟩
  have filled : resolveInput (indexChain coverage CrawlStore.empty chain) b.txs b.ledger input =
      input := by
    rw [resolveInput, if_neg unfilled, noOwn, noLedger]
    exact lined.fill_of_not_stored (fun _ _ rowMem => rowMem) _
      (holds.bare t tMem input inputMem bare) notStored
  rw [filled]
  exact holds.bare t tMem input inputMem bare

end Prepared

/-! ## Indexing what is served -/

/-- Inputs that resolve to themselves. -/
theorem resolveInputs_of_kept {store : CrawlStore} {ledger : Option LedgerDb}
    {txs : List Transaction}
    (kept : ∀ t ∈ txs, ∀ input ∈ t.inputs, resolveInput store txs ledger input = input) :
    (resolveInputs store txs ledger).1 = txs := by
  rw [resolveInputs_eq]
  refine (List.map_congr_left fun t tMem => ?_).trans (List.map_id txs)
  have same : t.inputs.map (resolveInput store txs ledger) = t.inputs :=
    (List.map_congr_left (kept t tMem)).trans (List.map_id t.inputs)
  rw [same]
  rfl

/-- A block whose inputs are resolved and whose fees are settled is prepared already. -/
theorem prepareBlock_of_settled {store : CrawlStore} {ledger : Option LedgerDb}
    {block : BlockData} {txs : List Transaction} (resolved : (resolveInputs store txs ledger).1 = txs)
    (settled : ∀ t ∈ txs, (chargedFee t).getD t.fee = t.fee)
    (total : (∃ t ∈ txs, (chargedFee t).isSome = true) →
      block.fees = some (txs.map Transaction.fee).sum) :
    (prepareBlock store ledger block txs).block = block ∧
      (prepareBlock store ledger block txs).txs = txs := by
  have kept : (txs.map fun t => { t with fee := (chargedFee t).getD t.fee }) = txs := by
    refine (List.map_congr_left fun t tMem => ?_).trans (List.map_id txs)
    rw [settled t tMem]
    rfl
  simp only [prepareBlock, applyCollateralFees, resolved, kept, and_true]
  split
  · rename_i corrected
    obtain ⟨t, tMem, charged⟩ := List.any_eq_true.mp corrected
    rw [← total ⟨t, tMem, charged⟩]
  · rfl

/-- Only a failed transaction is charged its collateral. -/
theorem failed_of_chargedFee {t : Transaction} (charged : (chargedFee t).isSome = true) :
    t.phase2Failed = true := by
  by_contra succeeded
  rw [chargedFee, Bool.not_eq_true _ |>.mp succeeded] at charged
  cases charged

/-- The fee total of a prepared block with a failed transaction is that of its transactions. -/
theorem fees_prepareBlock {store : CrawlStore} {ledger : Option LedgerDb} {block : BlockData}
    {txs : List Transaction} (delivered : block.fees = some (txs.map Transaction.fee).sum) :
    (prepareBlock store ledger block txs).block.fees =
      some ((prepareBlock store ledger block txs).txs.map Transaction.fee).sum := by
  simp only [prepareBlock, applyCollateralFees]
  split
  · rfl
  · rename_i uncorrected
    rw [delivered, List.map_map, resolveInputs_eq, List.map_map]
    refine congrArg (fun fees => some (List.sum fees)) (List.map_congr_left fun t tMem => ?_)
    have uncharged : chargedFee { t with inputs := t.inputs.map (resolveInput store txs ledger) } =
        none := by
      rw [← Option.not_isSome_iff_eq_none]
      intro charged
      refine uncorrected (List.any_eq_true.mpr ⟨_, ?_, charged⟩)
      rw [resolveInputs_eq]
      exact List.mem_map_of_mem tMem
    simp only [Function.comp_apply, uncharged, Option.getD_none]

section Replica

variable [Bech32] (coverage : CrawlCoverage)

/-- A block as it is prepared after the blocks of a chain. -/
abbrev preparedAfter (chain : List IndexedBlock) (b : IndexedBlock) :
    IndexedBlock × PreparedBlock :=
  (b, prepareBlock (indexChain coverage CrawlStore.empty chain) b.ledger b.block b.txs)

/-- A served block as another instance indexes it, which keeps no UTxO set; `epochOf` prefetches
epochs. -/
def replicaBlock (epochOf : BlockData → Option Nat) (entry : IndexedBlock × PreparedBlock) :
    IndexedBlock where
  block := servedBlock entry
  txs := servedTxs coverage entry
  epochData := epochOf (servedBlock entry)
  ledger := none

variable {coverage} {paid : ChainOutputs} {minted : TxHash → AssetUnit → Int}
  {chain : List IndexedBlock} {b : IndexedBlock}

/-- Serving keeps a column that no served line changes. -/
theorem map_servedTxs {α : Type*} (column : Transaction → α) {store : CrawlStore}
    (kept : ∀ t inputs fee, column { t with inputs, fee } = column t)
    (same : ∀ block t, column (servedTransaction coverage block t) = column t) :
    (servedTxs coverage (b, prepareBlock store b.ledger b.block b.txs)).map column =
      b.txs.map column := by
  rw [servedTxs, List.map_map, ← map_prepareBlock_txs column kept store b.ledger b.block b.txs]
  exact List.map_congr_left fun t _ => same _ t

/-- The row of a served block is the row it was read from. -/
theorem mapBlock_served (delivered : DeliveredBlock paid minted b) (store : CrawlStore)
    {epochOf : BlockData → Option Nat}
    (epochs : ∀ block epoch, epochOf block = some epoch → block.epoch = some epoch) :
    mapBlock (servedBlock (b, prepareBlock store b.ledger b.block b.txs))
        (epochOf (servedBlock (b, prepareBlock store b.ledger b.block b.txs))) =
      mapBlock (prepareBlock store b.ledger b.block b.txs).block b.epochData := by
  obtain ⟨fees, isBlock⟩ := prepareBlock_block store b.ledger b.block b.txs
  obtain ⟨leader, isLeader⟩ := Option.isSome_iff_exists.mp delivered.leader
  have epoch : (epochOf (servedBlock (b, prepareBlock store b.ledger b.block b.txs))).or
      (servedBlock (b, prepareBlock store b.ledger b.block b.txs)).epoch =
        (servedBlock (b, prepareBlock store b.ledger b.block b.txs)).epoch := by
    cases prefetched : epochOf (servedBlock (b, prepareBlock store b.ledger b.block b.txs)) with
    | none => exact Option.none_or
    | some epoch => rw [epochs _ _ prefetched, Option.some_or]
  rw [mapBlock, epoch]
  simp only [servedBlock, blockRowToData, mapBlock, isBlock, isLeader, Option.getD_some]

theorem mem_servedTxs {store : CrawlStore} {t : Transaction}
    (tMem : t ∈ servedTxs coverage (b, prepareBlock store b.ledger b.block b.txs)) :
    ∃ u ∈ b.txs, ∃ inputs fee, t = servedTransaction coverage
      (prepareBlock store b.ledger b.block b.txs).block { u with inputs, fee } := by
  obtain ⟨prepare, same, changes⟩ := prepareBlock_txs store b.ledger b.block b.txs
  obtain ⟨p, pMem, rfl⟩ := List.mem_map.mp tMem
  rw [same] at pMem
  obtain ⟨u, uMem, rfl⟩ := List.mem_map.mp pMem
  obtain ⟨inputs, fee, prepared⟩ := changes u
  exact ⟨u, uMem, inputs, fee, congrArg _ prepared⟩

@[simp] theorem replicaBlock_hash (store : CrawlStore) (epochOf : BlockData → Option Nat) :
    (replicaBlock coverage epochOf (b, prepareBlock store b.ledger b.block b.txs)).hash = b.hash :=
  servedBlock_hash store b

@[simp] theorem replicaBlock_slot (store : CrawlStore) (epochOf : BlockData → Option Nat) :
    (replicaBlock coverage epochOf (b, prepareBlock store b.ledger b.block b.txs)).slot = b.slot :=
  column_servedBlock BlockData.slotOrZero (fun _ _ _ _ => rfl) store b

theorem replicaBlock_height (store : CrawlStore) (epochOf : BlockData → Option Nat) :
    (replicaBlock coverage epochOf (b, prepareBlock store b.ledger b.block b.txs)).block.height =
      b.block.height :=
  servedBlock_height store b

/-- Serving a block keeps how it is delivered. -/
theorem wellFormed_replicaBlock (wellFormed : b.WellFormed) (store : CrawlStore)
    (epochOf : BlockData → Option Nat) :
    (replicaBlock coverage epochOf
      (b, prepareBlock store b.ledger b.block b.txs)).WellFormed where
  slot_known := by
    have slot := column_servedBlock BlockData.slot (fun _ _ _ _ => rfl) store b
    rw [replicaBlock_slot]
    exact slot.trans wellFormed.slot_known
  hashes_nodup := by
    have hashes := @map_servedTxs _ coverage b _ Transaction.hash store (fun _ _ _ => rfl)
      fun _ _ => rfl
    exact hashes ▸ wellFormed.hashes_nodup
  blockHash := by
    intro t tMem
    obtain ⟨u, uMem, inputs, fee, rfl⟩ := mem_servedTxs tMem
    rw [replicaBlock_hash]
    exact wellFormed.blockHash u uMem
  txSlot := by
    intro t tMem
    obtain ⟨u, uMem, inputs, fee, rfl⟩ := mem_servedTxs tMem
    rw [replicaBlock_slot]
    exact wellFormed.txSlot u uMem
  index_lt := by
    intro t tMem
    obtain ⟨u, uMem, inputs, fee, rfl⟩ := mem_servedTxs tMem
    exact wellFormed.index_lt u uMem
  labels := by
    intro t tMem label labelMem
    obtain ⟨u, uMem, inputs, fee, rfl⟩ := mem_servedTxs tMem
    rw [servedTransaction, Option.getD_some, rowsOfTransaction_metadata] at labelMem
    obtain ⟨row, rowMem, rfl⟩ := List.mem_map.mp labelMem
    obtain ⟨label, labelMem, same⟩ := tx_of_mem_metadata rowMem
    exact same.trans (wellFormed.labels u uMem label labelMem)

/-- Nothing stored belongs to a served block when nothing stored belongs to the block. -/
theorem untouched_replicaBlock {store replica : CrawlStore} (untouched : Untouched store b)
    (within : ∀ table, ∀ row ∈ (replica table).rows, row ∈ (store table).rows)
    (epochOf : BlockData → Option Nat) :
    Untouched replica (replicaBlock coverage epochOf
      (b, prepareBlock store b.ledger b.block b.txs)) where
  owners := by
    intro table row rowMem owns
    refine untouched.owners table row (within table row rowMem) ?_
    have hashes := @map_servedTxs _ coverage b _ Transaction.hash store (fun _ _ _ => rfl)
      fun _ _ => rfl
    have seqs := @map_servedTxs _ coverage b _ Transaction.txSeq store (fun _ _ _ => rfl)
      fun _ _ => rfl
    cases isOwner : table.owner (table.key row) with
    | block hash =>
        rw [isOwner] at owns
        exact owns.trans (replicaBlock_hash store epochOf)
    | transaction hash =>
        rw [isOwner] at owns
        have member : hash ∈ (servedTxs coverage
            (b, prepareBlock store b.ledger b.block b.txs)).map Transaction.hash := owns
        rwa [hashes] at member
    | position txSeq =>
        rw [isOwner] at owns
        have member : txSeq ∈ (servedTxs coverage
            (b, prepareBlock store b.ledger b.block b.txs)).map Transaction.txSeq := owns
        rwa [seqs] at member
  blockHash := by
    intro row rowMem
    rw [replicaBlock_hash]
    exact untouched.blockHash row (within .transactions row rowMem)
  positions := by
    intro row rowMem
    rw [replicaBlock_slot]
    exact untouched.positions row (within .transactions row rowMem)
  heights := by
    intro row rowMem
    rw [replicaBlock_height]
    exact untouched.heights row (within .blocks row rowMem)

variable (lined : LinedChain coverage chain)
  (earlier : ∀ c ∈ chain, DeliveredBlock paid minted c) (delivered : DeliveredBlock paid minted b)

include lined earlier delivered

/-- A replica leaves the inputs that it is served alone. -/
theorem resolveInputs_served {replica : CrawlStore}
    (within : ∀ table, ∀ row ∈ (replica table).rows,
      row ∈ (indexChain coverage CrawlStore.empty chain table).rows) :
    (resolveInputs replica (servedTxs coverage (preparedAfter coverage chain b)) none).1 =
      servedTxs coverage (preparedAfter coverage chain b) := by
  have holds := delivered.holdChain lined earlier
  refine resolveInputs_of_kept fun t tMem input inputMem => ?_
  obtain ⟨p, pMem, rfl⟩ := List.mem_map.mp tMem
  obtain ⟨i, iMem, rfl⟩ := List.mem_map.mp inputMem
  rw [prepareBlock_map] at pMem
  obtain ⟨u, uMem, rfl⟩ := List.mem_map.mp pMem
  by_cases isBare : (servedInput i).address = ""
  · obtain ⟨noAmount, notStored, notOwn⟩ := bare_of_prepareTx lined holds uMem iMem isBare
    have noOwn : OrderedMap.get? (blockOutputs (servedTxs coverage (preparedAfter coverage chain b)))
          (servedInput i).outpoint = none := by
      refine Option.eq_none_iff_forall_ne_some.mpr fun own found => ?_
      obtain ⟨source, sourceMem, ownMem, isKey⟩ := mem_blockOutputs found
      obtain ⟨q, qMem, rfl⟩ := List.mem_map.mp sourceMem
      rw [prepareBlock_map] at qMem
      obtain ⟨v, vMem, rfl⟩ := List.mem_map.mp qMem
      obtain ⟨o, oMem, rfl⟩ := List.mem_map.mp ownMem
      exact notOwn v vMem o (List.mem_mergeSort.mp oMem) isKey
    have served : (servedInput i).amount = [] := by
      rw [servedInput, noAmount]
      rfl
    rw [resolveInput, if_neg (not_not.mpr isBare), noOwn]
    exact lined.fill_of_not_stored within _ served notStored
  · exact if_pos isBare

/-- A replica prepares a served block already prepared. -/
theorem prepareBlock_served {replica : CrawlStore}
    (within : ∀ table, ∀ row ∈ (replica table).rows,
      row ∈ (indexChain coverage CrawlStore.empty chain table).rows) :
    (prepareBlock replica none
        (servedBlock (preparedAfter coverage chain b))
        (servedTxs coverage (preparedAfter coverage chain b))).block =
      servedBlock (preparedAfter coverage chain b) ∧
    (prepareBlock replica none
        (servedBlock (preparedAfter coverage chain b))
        (servedTxs coverage (preparedAfter coverage chain b))).txs =
      servedTxs coverage (preparedAfter coverage chain b) := by
  have holds := delivered.holdChain lined earlier
  refine prepareBlock_of_settled
    (resolveInputs_served lined earlier delivered within) (fun t tMem => ?_) ?_
  · obtain ⟨p, pMem, rfl⟩ := List.mem_map.mp tMem
    rw [prepareBlock_map] at pMem
    obtain ⟨u, uMem, rfl⟩ := List.mem_map.mp pMem
    exact settled_served (servable_prepareTx (delivered.servable u uMem))
      (accounted_prepareTx lined holds uMem (delivered.accepted u uMem)) (settled_prepareTx _ _ _ u)
  · rintro ⟨t, tMem, charged⟩
    obtain ⟨p, pMem, rfl⟩ := List.mem_map.mp tMem
    rw [prepareBlock_map] at pMem
    obtain ⟨u, uMem, rfl⟩ := List.mem_map.mp pMem
    rw [chargedFee_served (servable_prepareTx (delivered.servable u uMem))] at charged
    have failed := failed_of_chargedFee charged
    have failed : u.phase2Failed = true := failed
    have total := @fees_prepareBlock (indexChain coverage CrawlStore.empty chain) b.ledger _ _
      (delivered.fees ⟨u, uMem, failed⟩)
    have served : (servedTxs coverage (preparedAfter coverage chain b)).map Transaction.fee =
          (prepareBlock (indexChain coverage CrawlStore.empty chain) b.ledger b.block
            b.txs).txs.map Transaction.fee := by
      rw [servedTxs, List.map_map]
      rfl
    rw [served, servedBlock, blockRowToData, mapBlock, total, Option.getD_some]

variable {epochOf : BlockData → Option Nat}
  (epochs : ∀ block epoch, epochOf block = some epoch → block.epoch = some epoch)

include epochs

/-- A replica writes the rows of the instance it is served by. -/
theorem blockRows_replica {replica : CrawlStore}
    (within : ∀ table, ∀ row ∈ (replica table).rows,
      row ∈ (indexChain coverage CrawlStore.empty chain table).rows) (table : CrawlTable) :
    (blockRows coverage replica (replicaBlock coverage epochOf (preparedAfter coverage chain b))
      table).Perm (blockRows coverage (indexChain coverage CrawlStore.empty chain) b table) := by
  have holds := delivered.holdChain lined earlier
  obtain ⟨sameBlock, sameTxs⟩ := prepareBlock_served lined earlier delivered within
  by_cases isBlocks : table = .blocks
  · subst isBlocks
    simp only [blockRows, blockBatch, transactionBatch, assetHistoryBatch, List.append_nil,
      replicaBlock, sameBlock]
    exact List.Perm.of_eq (congrArg (fun row => [row]) (mapBlock_served delivered _ epochs))
  · rw [blockRows_eq_flatMap _ _ _ isBlocks, blockRows_eq_flatMap _ _ _ isBlocks]
    simp only [replicaBlock, sameBlock, sameTxs]
    rw [servedTxs, List.flatMap_map]
    refine List.Perm.flatMap_left _ fun p pMem => ?_
    rw [prepareBlock_map] at pMem
    obtain ⟨u, uMem, rfl⟩ := List.mem_map.mp pMem
    exact rowsOfTransaction_served (servable_prepareTx (delivered.servable u uMem))
      (accounted_prepareTx lined holds uMem (delivered.accepted u uMem)) rfl rfl table

/-- Indexing a served block adds the rows of the block. -/
theorem rows_indexBlock_replica (wellFormed : b.WellFormed)
    (untouched : Untouched (indexChain coverage CrawlStore.empty chain) b)
    (keyed : Keyed coverage (indexChain coverage CrawlStore.empty chain) b)
    {replica : CrawlStore}
    (within : ∀ table, ∀ row ∈ (replica table).rows,
      row ∈ (indexChain coverage CrawlStore.empty chain table).rows) (table : CrawlTable) :
    (indexBlock coverage replica (replicaBlock coverage epochOf (preparedAfter coverage chain b))
      table).rows.Perm ((replica table).rows ++
        blockRows coverage (indexChain coverage CrawlStore.empty chain) b table) := by
  have rows := blockRows_replica lined earlier delivered epochs within
  have keyedReplica : Keyed coverage replica
      (replicaBlock coverage epochOf (preparedAfter coverage chain b)) := fun table =>
    ((rows table).map table.key).nodup_iff.mpr (keyed table)
  rw [rows_indexBlock (wellFormed_replicaBlock wellFormed _ epochOf)
    (untouched_replicaBlock untouched within epochOf) keyedReplica]
  exact (rows table).append_left _

end Replica

end Odatano
