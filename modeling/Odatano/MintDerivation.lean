import Odatano.ResolvedInputs

/-!
# Mint derivation

`buildAssetHistoryRows` of `srv/blockchain/cardano-indexer.ts` after `resolveInputs` and
`applyCollateralFees`, on blocks that the ledger accepted.
-/

namespace Odatano

/-! ## What the rows record -/

/-- The signed quantity of a row. -/
def AssetHistoryRow.signed (row : AssetHistoryRow) : Int :=
  match row.action with
  | .mint => row.quantity
  | .burn => -row.quantity

/-- Rows that record what a transaction minted and burned, unit by unit. -/
structure RecordsMint (minted : AssetUnit → Int) (txHash : TxHash) (rows : List AssetHistoryRow) :
    Prop where
  once : (rows.map AssetHistoryRow.unit).Nodup
  ofTx : ∀ row ∈ rows, row.txHash = txHash
  positive : ∀ row ∈ rows, 0 < row.quantity
  recorded : ∀ unit quantity, (∃ row ∈ rows, row.unit = unit ∧ row.signed = quantity) ↔
    unit ≠ lovelace ∧ quantity ≠ 0 ∧ minted unit = quantity

theorem signed_mintRow (block : BlockData) (txHash : TxHash) {entry : AssetUnit × Int}
    (some : entry.2 ≠ 0) :
    (mintRow block txHash entry).signed = entry.2 ∧
      0 < (mintRow block txHash entry).quantity := by
  rcases Int.lt_or_gt_of_ne some with burned | minted
  · have notMinted : ¬0 < entry.2 := Int.not_lt.mpr (Int.le_of_lt burned)
    simp only [AssetHistoryRow.signed, mintRow, if_neg notMinted, if_pos burned]
    omega
  · have notBurned : ¬entry.2 < 0 := Int.not_lt.mpr (Int.le_of_lt minted)
    simp only [AssetHistoryRow.signed, mintRow, if_pos minted, if_neg notBurned]
    exact ⟨trivial, minted⟩

/-- The rows of a net change record it. -/
theorem recordsMint_of_net (block : BlockData) (txHash : TxHash) {minted : AssetUnit → Int}
    {net : OrderedMap AssetUnit Int}
    (values : ∀ unit, (OrderedMap.get? net unit).getD 0 =
      if unit = lovelace then 0 else minted unit) :
    RecordsMint minted txHash
      ((net.rows.filter fun entry => decide (entry.2 ≠ 0)).map (mintRow block txHash)) where
  once := by
    rw [List.map_map]
    exact (OrderedMap.keys_nodup net).sublist (List.filter_sublist.map Prod.fst)
  ofTx := by
    intro row rowMem
    obtain ⟨entry, -, rfl⟩ := List.mem_map.mp rowMem
    rfl
  positive := by
    intro row rowMem
    obtain ⟨entry, entryMem, rfl⟩ := List.mem_map.mp rowMem
    exact (signed_mintRow block txHash (of_decide_eq_true (List.mem_filter.mp entryMem).2)).2
  recorded := by
    intro unit quantity
    constructor
    · rintro ⟨row, rowMem, rfl, rfl⟩
      obtain ⟨entry, entryMem, rfl⟩ := List.mem_map.mp rowMem
      obtain ⟨member, nonzero⟩ := List.mem_filter.mp entryMem
      have nonzero := of_decide_eq_true nonzero
      have value := values entry.1
      rw [OrderedMap.get?_eq_some_iff.mpr member, Option.getD_some] at value
      rw [(signed_mintRow block txHash nonzero).1]
      change entry.1 ≠ lovelace ∧ entry.2 ≠ 0 ∧ minted entry.1 = entry.2
      split at value
      · exact absurd value nonzero
      · rename_i native
        exact ⟨native, nonzero, value.symm⟩
    · rintro ⟨native, nonzero, rfl⟩
      have value := values unit
      rw [if_neg native] at value
      cases found : OrderedMap.get? net unit with
      | none =>
          rw [found, Option.getD_none] at value
          exact absurd value.symm nonzero
      | some held =>
          rw [found, Option.getD_some] at value
          rw [← value] at nonzero ⊢
          exact ⟨mintRow block txHash (unit, held), List.mem_map.mpr ⟨(unit, held),
            List.mem_filter.mpr ⟨OrderedMap.get?_eq_some_iff.mp found, decide_eq_true nonzero⟩,
            rfl⟩, rfl, (signed_mintRow block txHash nonzero).1⟩

/-- The net quantity of a unit. -/
theorem getD_netAmounts (signed : List (Int × Amount)) (unit : AssetUnit) :
    (OrderedMap.get? (netAmounts signed) unit).getD 0 =
      if unit = lovelace then 0
      else (signed.map fun entry =>
        if entry.2.unit = unit then entry.1 * entry.2.quantity else 0).sum := by
  have summed : OrderedMap.measure (netAmounts signed) id unit = 0 +
      ((signed.filter fun entry => decide (entry.2.unit ≠ lovelace)).map fun entry =>
        if entry.2.unit = unit then entry.1 * entry.2.quantity else 0).sum :=
    OrderedMap.measure_accumulate (fun entry : Int × Amount => entry.2.unit) (fun _ => 0)
      (fun entry quantity => quantity + entry.1 * entry.2.quantity) id
      (fun entry => entry.1 * entry.2.quantity) (fun _ _ => rfl) (fun _ _ _ => rfl) Table.empty unit
  rw [OrderedMap.measure, Option.map_id, id, zero_add] at summed
  rw [summed]
  clear summed
  split
  · rename_i isAda
    refine List.sum_eq_zero fun value member => ?_
    obtain ⟨entry, entryMem, rfl⟩ := List.mem_map.mp member
    exact if_neg fun same => of_decide_eq_true (List.mem_filter.mp entryMem).2 (same.trans isAda)
  · rename_i native
    induction signed with
    | nil => rfl
    | cons entry signed ih =>
        by_cases isAda : entry.2.unit = lovelace
        · have other : entry.2.unit ≠ unit := fun same => native (same.symm.trans isAda)
          rw [List.filter_cons_of_neg (by simp [isAda]), List.map_cons, List.sum_cons,
            if_neg other, zero_add]
          exact ih
        · rw [List.filter_cons_of_pos (by simp [isAda]), List.map_cons, List.map_cons,
            List.sum_cons, List.sum_cons]
          exact congrArg _ ih

/-! ## Accepted transactions -/

/-- The inputs a transaction spends when its scripts succeed. -/
def Transaction.consumed (t : Transaction) : List TxInputLine :=
  t.inputs.filter fun i => !i.isReference && !i.isCollateral

/-- The outputs a transaction makes when its scripts succeed. -/
def Transaction.produced (t : Transaction) : List TxOutputLine :=
  t.outputs.filter fun o => !o.isCollateral

/-- What a failed transaction loses: its collateral inputs without the collateral return. -/
def forfeited (paid : ChainOutputs) (t : Transaction) : Int :=
  ((t.inputs.filter TxInputLine.isCollateral).map fun i => paid i.outpoint lovelace).sum -
    ((t.outputs.filter TxOutputLine.isCollateral).map fun o => lovelaceOf o.amount.amounts).sum

/-- A delivered transaction that the ledger accepted: its assets balance, what its source reports
as minted was minted, and a failed one has its collateral. -/
structure LedgerAccepted (paid : ChainOutputs) (minted : AssetUnit → Int) (t : Transaction) :
    Prop where
  balanced : t.phase2Failed = false → ∀ unit, unit ≠ lovelace →
    (t.consumed.map fun i => paid i.outpoint unit).sum + minted unit =
      (t.produced.map fun o => unitQuantity unit o.amount.amounts).sum
  reported : t.phase2Failed = false → ∀ mint ∈ t.mint, ∀ unit, unit ≠ lovelace →
    unitQuantity unit mint = minted unit
  unminted : t.phase2Failed = true → t.mint = none
  collateral : t.phase2Failed = true →
    t.inputs.filter TxInputLine.isCollateral ≠ [] ∧ 0 ≤ forfeited paid t
  declared : t.phase2Failed = true → t.totalCollateral.isSome = true → t.fee = forfeited paid t

/-- Every input has the address and the amounts of its output. -/
def InputsResolved (paid : ChainOutputs) (t : Transaction) : Prop :=
  ∀ i ∈ t.inputs, i.address ≠ "" ∧ Spells (paid i.outpoint) i.amount

section Accepted

variable {paid : ChainOutputs} {minted : AssetUnit → Int} {t : Transaction}

theorem InputsResolved.any_bare (resolved : InputsResolved paid t) (p : TxInputLine → Bool) :
    ((t.inputs.filter p).any fun i => decide (i.address = "")) = false := by
  rw [List.any_eq_false]
  intro i member isBare
  exact (resolved i (List.mem_filter.mp member).1).1 (of_decide_eq_true isBare)

theorem sum_signed (sign : Int) (unit : AssetUnit) {α : Type} (lines : List α)
    (amounts : α → List Amount) :
    ((lines.flatMap fun line => (amounts line).map fun a => (sign, a)).map
        fun entry : Int × Amount =>
          if entry.2.unit = unit then entry.1 * entry.2.quantity else 0).sum =
      sign * (lines.map fun line => unitQuantity unit (amounts line)).sum := by
  induction lines with
  | nil => simp
  | cons line lines ih =>
      rw [List.flatMap_cons, List.map_append, List.sum_append, ih, List.map_cons, List.sum_cons,
        Int.mul_add]
      congr 1
      rw [unitQuantity]
      induction amounts line with
      | nil => simp
      | cons a amounts ih =>
          simp only [List.map_cons, List.sum_cons, ih, Int.mul_add]
          split <;> simp

/-- The net quantities of a reported mint. -/
theorem getD_netAmounts_mint (mint : List Amount) (unit : AssetUnit) :
    (OrderedMap.get? (netAmounts (mint.map fun m => (1, m))) unit).getD 0 =
      if unit = lovelace then 0 else unitQuantity unit mint := by
  rw [getD_netAmounts]
  split
  · rfl
  · have signed := sum_signed 1 unit [mint] id
    simpa using signed

/-- The net change of an accepted transaction is what it minted and burned. -/
theorem mintDelta_accepted (accepted : LedgerAccepted paid minted t)
    (resolved : InputsResolved paid t) (succeeded : t.phase2Failed = false) :
    ∃ net, mintDelta t = some net ∧ ∀ unit, (OrderedMap.get? net unit).getD 0 =
      if unit = lovelace then 0 else minted unit := by
  rw [mintDelta]
  cases isMint : t.mint with
  | some mint =>
      refine ⟨_, rfl, fun unit => ?_⟩
      rw [getD_netAmounts_mint]
      split
      · rfl
      · rename_i native
        exact accepted.reported succeeded mint isMint unit native
  | none =>
      simp only [succeeded, Bool.false_eq_true, if_false, resolved.any_bare]
      refine ⟨_, rfl, fun unit => ?_⟩
      rw [getD_netAmounts]
      split
      · rfl
      · rename_i native
        rw [List.map_append, List.sum_append, sum_signed, sum_signed]
        have balanced := accepted.balanced succeeded unit native
        have spent : (t.consumed.map fun i => unitQuantity unit i.amount).sum =
            (t.consumed.map fun i => paid i.outpoint unit).sum := by
          refine congrArg List.sum (List.map_congr_left fun i member => ?_)
          exact (resolved i (List.mem_filter.mp member).1).2.assets unit native
        rw [Transaction.consumed, Transaction.produced] at balanced
        rw [Transaction.consumed] at spent
        rw [spent]
        omega

/-- A failed transaction is charged its collateral. -/
theorem chargedFee_accepted (accepted : LedgerAccepted paid minted t)
    (resolved : InputsResolved paid t) (failed : t.phase2Failed = true) :
    (chargedFee t).getD t.fee = forfeited paid t := by
  obtain ⟨collateral, nonneg⟩ := accepted.collateral failed
  have lost : (((t.inputs.filter TxInputLine.isCollateral).map fun i => lovelaceOf i.amount).sum -
      ((t.outputs.filter TxOutputLine.isCollateral).map fun o =>
        lovelaceOf o.amount.amounts).sum) = forfeited paid t := by
    rw [forfeited]
    congr 2
    exact List.map_congr_left fun i member =>
      (resolved i (List.mem_filter.mp member).1).2.ada
  rw [chargedFee]
  cases isDeclared : t.totalCollateral.isSome with
  | true =>
      simp only [failed, Bool.not_true, Bool.false_or, if_true, Option.getD_none]
      exact accepted.declared failed isDeclared
  | false =>
      simp only [failed, Bool.not_true, Bool.false_or, Bool.false_eq_true, if_false, collateral,
        resolved.any_bare, lost, Int.not_lt.mpr nonneg, Option.getD_some]

theorem mintDelta_failed (accepted : LedgerAccepted paid minted t) (failed : t.phase2Failed = true) :
    mintDelta t = none := by
  simp only [mintDelta, accepted.unminted failed, failed, if_true]

end Accepted

/-! ## Blocks -/

/-- A block of accepted transactions whose inputs can all be resolved. -/
structure AcceptedBlock [Bech32] (paid : ChainOutputs) (minted : TxHash → AssetUnit → Int)
    (store : CrawlStore) (ledger : Option LedgerDb) (txs : List Transaction) : Prop
    extends HoldChain store txs ledger paid where
  resolvable : ∀ t ∈ txs, ∀ input ∈ t.inputs, Resolvable store txs ledger input
  accepted : ∀ t ∈ txs, LedgerAccepted paid (minted t.hash) t

/-- The rows of a prepared block record what its transactions minted and burned, and its failed
transactions paid their collateral. -/
structure DerivesMint (paid : ChainOutputs) (minted : TxHash → AssetUnit → Int)
    (prepared : PreparedBlock) : Prop where
  rows : buildAssetHistoryRows prepared.block prepared.txs =
    prepared.txs.flatMap fun t => buildAssetHistoryRows prepared.block [t]
  succeeded : ∀ t ∈ prepared.txs, t.phase2Failed = false →
    RecordsMint (minted t.hash) t.hash (buildAssetHistoryRows prepared.block [t])
  failed : ∀ t ∈ prepared.txs, t.phase2Failed = true →
    buildAssetHistoryRows prepared.block [t] = [] ∧ t.fee = forfeited paid t

section Blocks

variable {paid : ChainOutputs}

theorem filter_map_keeps {inputs : List TxInputLine} {resolve : TxInputLine → TxInputLine}
    {p : TxInputLine → Bool} (keeps : ∀ i, p (resolve i) = p i) :
    (inputs.map resolve).filter p = (inputs.filter p).map resolve := by
  rw [List.filter_map]
  exact congrArg _ (List.filter_congr fun i _ => keeps i)

/-- Resolving inputs keeps an accepted transaction accepted. -/
theorem LedgerAccepted.resolve {minted : AssetUnit → Int} {t : Transaction}
    (accepted : LedgerAccepted paid minted t) {resolve : TxInputLine → TxInputLine}
    (keeps : ∀ i, (resolve i).outpoint = i.outpoint ∧ (resolve i).isCollateral = i.isCollateral ∧
      (resolve i).isReference = i.isReference) :
    LedgerAccepted paid minted { t with inputs := t.inputs.map resolve } := by
  have collateral : (t.inputs.map resolve).filter TxInputLine.isCollateral =
      (t.inputs.filter TxInputLine.isCollateral).map resolve :=
    filter_map_keeps fun i => (keeps i).2.1
  have consumed : (t.inputs.map resolve).filter (fun i => !i.isReference && !i.isCollateral) =
      t.consumed.map resolve :=
    filter_map_keeps fun i => by rw [(keeps i).2.1, (keeps i).2.2]
  have same : forfeited paid { t with inputs := t.inputs.map resolve } = forfeited paid t := by
    simp only [forfeited, collateral, List.map_map]
    congr 2
    exact List.map_congr_left fun i _ => congrArg (paid · lovelace) (keeps i).1
  refine ⟨fun succeeded unit native => ?_, accepted.reported, accepted.unminted,
    fun failed => ?_, fun failed isDeclared => ?_⟩
  · have balanced := accepted.balanced succeeded unit native
    rw [Transaction.consumed, consumed, List.map_map]
    refine Eq.trans (congrArg (· + minted unit) (congrArg List.sum ?_)) balanced
    exact List.map_congr_left fun i _ => congrArg (paid · unit) (keeps i).1
  · rw [same, collateral]
    exact ⟨fun none => (accepted.collateral failed).1 (List.map_eq_nil_iff.mp none),
      (accepted.collateral failed).2⟩
  · rw [same]
    exact accepted.declared failed isDeclared

variable [Bech32] {minted : TxHash → AssetUnit → Int} {store : CrawlStore}
  {ledger : Option LedgerDb} {txs : List Transaction}

/-- What preparing a block makes of a transaction. -/
def prepareTx (store : CrawlStore) (ledger : Option LedgerDb) (txs : List Transaction)
    (t : Transaction) : Transaction :=
  let resolved := { t with inputs := t.inputs.map (resolveInput store txs ledger) }
  { resolved with fee := (chargedFee resolved).getD resolved.fee }

omit [Bech32] in
theorem prepareBlock_map (block : BlockData) :
    (prepareBlock store ledger block txs).txs = txs.map (prepareTx store ledger txs) := by
  simp only [prepareBlock, applyCollateralFees, resolveInputs_eq, List.map_map]
  rfl

theorem inputsResolved_prepareTx (holds : HoldChain store txs ledger paid) {t : Transaction}
    (tMem : t ∈ txs) (resolvable : ∀ input ∈ t.inputs, Resolvable store txs ledger input) :
    InputsResolved paid (prepareTx store ledger txs t) := by
  intro i member
  obtain ⟨input, inputMem, rfl⟩ := List.mem_map.mp member
  rw [(resolveInput_keeps store txs ledger input).1]
  exact resolveInput_spells holds tMem inputMem (resolvable input inputMem)

theorem derivesMint_prepareBlock (accepted : AcceptedBlock paid minted store ledger txs)
    (block : BlockData) : DerivesMint paid minted (prepareBlock store ledger block txs) := by
  have prepared : ∀ t ∈ (prepareBlock store ledger block txs).txs,
      ∃ before, LedgerAccepted paid (minted t.hash) before ∧ InputsResolved paid before ∧
        t = { before with fee := (chargedFee before).getD before.fee } := by
    intro t tMem
    rw [prepareBlock_map] at tMem
    obtain ⟨source, sourceMem, rfl⟩ := List.mem_map.mp tMem
    exact ⟨{ source with inputs := source.inputs.map (resolveInput store txs ledger) },
      (accepted.accepted source sourceMem).resolve (resolveInput_keeps store txs ledger),
      inputsResolved_prepareTx accepted.toHoldChain sourceMem
        (accepted.resolvable source sourceMem), rfl⟩
  refine ⟨?_, fun t tMem succeeded => ?_, fun t tMem failed => ?_⟩
  · simp only [buildAssetHistoryRows, List.flatMap_cons, List.flatMap_nil, List.append_nil]
  · obtain ⟨before, isAccepted, resolved, rfl⟩ := prepared t tMem
    obtain ⟨net, isNet, values⟩ := mintDelta_accepted isAccepted resolved succeeded
    have isNet : mintDelta { before with fee := (chargedFee before).getD before.fee } = some net :=
      isNet
    simp only [buildAssetHistoryRows, List.flatMap_cons, List.flatMap_nil, List.append_nil, isNet]
    exact recordsMint_of_net _ _ values
  · obtain ⟨before, isAccepted, resolved, rfl⟩ := prepared t tMem
    have noMint : mintDelta before = none := mintDelta_failed isAccepted failed
    have noMint : mintDelta { before with fee := (chargedFee before).getD before.fee } = none :=
      noMint
    simp only [buildAssetHistoryRows, List.flatMap_cons, List.flatMap_nil, List.append_nil, noMint,
      true_and]
    exact chargedFee_accepted isAccepted resolved failed

omit [Bech32] in
/-- Settled fees settle to themselves. -/
theorem applyCollateralFees_again (block : BlockData) (txs : List Transaction) :
    applyCollateralFees (applyCollateralFees block txs).1 (applyCollateralFees block txs).2 =
      applyCollateralFees block txs := by
  have settled : (txs.map fun t => { t with fee := (chargedFee t).getD t.fee }).map
        (fun t => { t with fee := (chargedFee t).getD t.fee }) =
      txs.map fun t => { t with fee := (chargedFee t).getD t.fee } := by
    rw [List.map_map]
    refine List.map_congr_left fun t _ => ?_
    change { t with fee := (chargedFee t).getD ((chargedFee t).getD t.fee) } = _
    cases chargedFee t <;> rfl
  have corrected : (txs.map fun t => { t with fee := (chargedFee t).getD t.fee }).any
        (fun t => (chargedFee t).isSome) = txs.any fun t => (chargedFee t).isSome := by
    rw [List.any_map]
    rfl
  simp only [applyCollateralFees, settled, corrected]
  split <;> rfl

omit [Bech32] in
/-- Resolved inputs are left alone. -/
theorem resolveInputs_again (store : CrawlStore) (ledger : Option LedgerDb)
    {txs : List Transaction} (resolved : ∀ t ∈ txs, ∀ i ∈ t.inputs, i.address ≠ "") :
    (resolveInputs store txs ledger).1 = txs := by
  rw [resolveInputs_eq]
  refine (List.map_congr_left fun t tMem => ?_).trans (List.map_id txs)
  have same : t.inputs.map (resolveInput store txs ledger) = t.inputs := by
    refine (List.map_congr_left fun i iMem => ?_).trans (List.map_id t.inputs)
    exact if_pos (resolved t tMem i iMem)
  rw [same]
  rfl

/-- Preparing a prepared block changes nothing, whatever the tables and the UTxO set hold then. -/
theorem prepareBlock_again (accepted : AcceptedBlock paid minted store ledger txs)
    (block : BlockData) (store' : CrawlStore) (ledger' : Option LedgerDb) :
    (prepareBlock store' ledger' (prepareBlock store ledger block txs).block
        (prepareBlock store ledger block txs).txs).block =
      (prepareBlock store ledger block txs).block ∧
    (prepareBlock store' ledger' (prepareBlock store ledger block txs).block
        (prepareBlock store ledger block txs).txs).txs =
      (prepareBlock store ledger block txs).txs := by
  have resolved : ∀ t ∈ (prepareBlock store ledger block txs).txs, ∀ i ∈ t.inputs,
      i.address ≠ "" := by
    intro t tMem i iMem
    rw [prepareBlock_map] at tMem
    obtain ⟨source, sourceMem, rfl⟩ := List.mem_map.mp tMem
    exact (inputsResolved_prepareTx accepted.toHoldChain sourceMem
      (accepted.resolvable source sourceMem) i iMem).1
  have again := applyCollateralFees_again block (resolveInputs store txs ledger).1
  change (applyCollateralFees (prepareBlock store ledger block txs).block
      (resolveInputs store' (prepareBlock store ledger block txs).txs ledger').1).1 = _ ∧
    (applyCollateralFees (prepareBlock store ledger block txs).block
      (resolveInputs store' (prepareBlock store ledger block txs).txs ledger').1).2 = _
  rw [resolveInputs_again store' ledger' resolved]
  exact ⟨congrArg Prod.fst again, congrArg Prod.snd again⟩

/-- After its inputs are resolved and its fees settled, an accepted block gives for every
transaction the rows of its mint and for a failed one none, and a failed one is charged its
collateral; and preparing it once more changes neither rows nor fees nor totals. -/
theorem assetHistory_records_mint (accepted : AcceptedBlock paid minted store ledger txs)
    (block : BlockData) :
    (prepareBlock store ledger block txs).txs.map Transaction.hash = txs.map Transaction.hash ∧
      DerivesMint paid minted (prepareBlock store ledger block txs) ∧
      ∀ store' ledger',
        (prepareBlock store' ledger' (prepareBlock store ledger block txs).block
            (prepareBlock store ledger block txs).txs).block =
          (prepareBlock store ledger block txs).block ∧
        (prepareBlock store' ledger' (prepareBlock store ledger block txs).block
            (prepareBlock store ledger block txs).txs).txs =
          (prepareBlock store ledger block txs).txs := by
  refine ⟨?_, derivesMint_prepareBlock accepted block, prepareBlock_again accepted block⟩
  rw [prepareBlock_map, List.map_map]
  rfl

end Blocks

section Sample

attribute [local instance] byronBech32

/-- A filled input of 7 lovelace, and an output with 3 new tokens. -/
def tokenMint : Transaction :=
  { sampleTx (text "a") (text "block") 1 [] [sampleOutput] with
    inputs := [⟨"Ae2B", [⟨lovelace, 7⟩], text "g", 0, ⟨none, none, none, none, none⟩, false,
      false⟩] }

theorem sevenLovelace_nodup : (([⟨lovelace, 7⟩] : List Amount).map Amount.unit).Nodup := by
  decide

/-- The tokens are burned in the same block, and this mint is reported. -/
def tokenBurn : Transaction :=
  { sampleTx (text "b") (text "block") 1 [⟨text "a", 0⟩]
      [{ sampleOutput with amount := ⟨[⟨lovelace, 7⟩], sevenLovelace_nodup⟩ }] with
    mint := some [⟨text "token", -3⟩] }

def tokenPaid (key : Outpoint) (unit : AssetUnit) : Int :=
  if unit = lovelace then 7
  else if key.txHash = text "a" ∧ unit = text "token" then 3
  else 0

def tokenMinted (hash : TxHash) (unit : AssetUnit) : Int :=
  if unit = text "token" then if hash = text "a" then 3 else -3 else 0

theorem spells_token :
    Spells (tokenPaid ⟨text "a", 0⟩) [⟨lovelace, 7⟩, ⟨text "token", 3⟩] where
  ada := by decide
  assets := by
    intro unit native
    simp [unitQuantity, tokenPaid, native, eq_comm]

theorem spells_seven {key : Outpoint} (other : key.txHash ≠ text "a") :
    Spells (tokenPaid key) [⟨lovelace, 7⟩] where
  ada := by
    rw [tokenPaid, if_pos rfl]
    decide
  assets := by
    intro unit native
    simp [unitQuantity, tokenPaid, native, native.symm, other]

theorem tokenMint_accepted : LedgerAccepted tokenPaid (tokenMinted (text "a")) tokenMint where
  balanced := by
    intro _ unit native
    have spent : tokenPaid ⟨text "g", 0⟩ unit = 0 := by
      have other : text "g" ≠ text "a" := by decide
      simp [tokenPaid, native, other]
    change tokenPaid ⟨text "g", 0⟩ unit + 0 + tokenMinted (text "a") unit =
      unitQuantity unit [⟨lovelace, 7⟩, ⟨text "token", 3⟩] + 0
    rw [spent, spells_token.assets unit native]
    simp [tokenMinted, tokenPaid, native]
  reported := fun _ _ none => by cases none
  unminted := fun failed => by cases failed
  collateral := fun failed => by cases failed
  declared := fun failed => by cases failed

theorem tokenBurn_accepted : LedgerAccepted tokenPaid (tokenMinted (text "b")) tokenBurn where
  balanced := by
    intro _ unit native
    have other : text "b" ≠ text "a" := by decide
    change tokenPaid ⟨text "a", 0⟩ unit + 0 + tokenMinted (text "b") unit =
      unitQuantity unit [⟨lovelace, 7⟩] + 0
    have apart : lovelace ≠ text "token" := by decide
    by_cases isToken : unit = text "token"
    · simp [unitQuantity, tokenMinted, tokenPaid, other, isToken, apart, apart.symm]
    · simp [unitQuantity, tokenMinted, tokenPaid, native, native.symm, isToken]
  reported := by
    intro _ mint isMint unit native
    cases isMint
    have other : text "b" ≠ text "a" := by decide
    simp [unitQuantity, tokenMinted, other, eq_comm]
  unminted := fun failed => by cases failed
  collateral := fun failed => by cases failed
  declared := fun failed => by cases failed

theorem tokenBlock_accepted :
    AcceptedBlock tokenPaid tokenMinted CrawlStore.empty none [tokenMint, tokenBurn] where
  produced := by
    intro t tMem o oMem
    rcases List.mem_pair.mp tMem with rfl | rfl
    · obtain rfl := List.mem_singleton.mp oMem
      exact ⟨by decide, spells_token⟩
    · obtain rfl := List.mem_singleton.mp oMem
      exact ⟨by decide, spells_seven (by decide)⟩
  utxos := fun db isLedger => by cases isLedger
  stored := fun key out row at_ => absurd at_.transaction List.not_mem_nil
  bare := by
    intro t tMem input inputMem isBare
    rcases List.mem_pair.mp tMem with rfl | rfl
    · obtain rfl := List.mem_singleton.mp inputMem
      exact absurd isBare (by decide)
    · obtain rfl := List.mem_singleton.mp inputMem
      rfl
  filled := by
    intro t tMem input inputMem isFilled
    rcases List.mem_pair.mp tMem with rfl | rfl
    · obtain rfl := List.mem_singleton.mp inputMem
      exact spells_seven (by decide)
    · obtain rfl := List.mem_singleton.mp inputMem
      exact absurd rfl isFilled
  resolvable := by
    intro t tMem input inputMem
    rcases List.mem_pair.mp tMem with rfl | rfl
    · obtain rfl := List.mem_singleton.mp inputMem
      exact Or.inl (by decide)
    · obtain rfl := List.mem_singleton.mp inputMem
      exact Or.inr (Or.inl ⟨tokenMint, List.mem_cons_self, sampleOutput,
        List.mem_singleton_self _, rfl⟩)
  accepted := by
    intro t tMem
    rcases List.mem_pair.mp tMem with rfl | rfl
    · exact tokenMint_accepted
    · exact tokenBurn_accepted

theorem assetHistory_records_mint_sample :
    DerivesMint tokenPaid tokenMinted (prepareBlock CrawlStore.empty none
      (sampleBlock (text "block") 1 2) [tokenMint, tokenBurn]) :=
  (assetHistory_records_mint tokenBlock_accepted (sampleBlock (text "block") 1 2)).2.1

end Sample

end Odatano
