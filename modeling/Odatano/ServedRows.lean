import Odatano.MintDerivation
import Odatano.ServedTransactions

/-!
# The rows of what a store serves

A transaction that is put together from its rows and indexed again gives these rows again.  Some
come in another order, since the store lists ada first, outputs by index and redeemers by purpose.
-/

namespace Odatano

/-! ## Reading and storing again -/

@[simp] theorem orNull_orNull (value : Option String) : orNull (orNull value) = orNull value := by
  rw [orNull, orNull, Option.filter_filter]
  simp only [Bool.and_self]

@[simp] theorem UtxoData.stored_stored (data : UtxoData) : data.stored.stored = data.stored := by
  simp [UtxoData.stored]

theorem lovelaceFirst_perm (list : List Amount) : (lovelaceFirst list).Perm list := by
  have native : (list.filter fun a => decide (a.unit ≠ lovelace)) =
      list.filter fun a => !decide (a.unit = lovelace) := by
    simp only [decide_not]
  rw [lovelaceFirst, native]
  exact List.filter_append_perm _ list

@[simp] theorem isEmpty_lovelaceFirst (list : List Amount) :
    (lovelaceFirst list).isEmpty = list.isEmpty :=
  (lovelaceFirst_perm list).isEmpty_eq

/-- A value keeps its amounts in another order. -/
theorem Value.amounts_ofAmounts {value : Value} {list : List Amount}
    (perm : list.Perm value.amounts) : (Value.ofAmounts list).amounts = list := by
  have nodup : (list.map Amount.unit).Nodup := (perm.map Amount.unit).nodup_iff.mpr value.units_nodup
  exact List.pwFilter_eq_self.mpr (List.pairwise_map.mp nodup)

theorem lineAssets_perm (txSeq lineIndex : Nat) {first second : List Amount}
    (perm : first.Perm second) :
    (lineAssets txSeq lineIndex first).Perm (lineAssets txSeq lineIndex second) :=
  perm.map _

theorem amounts_servedOutput (failed : Bool) (output : TxOutputLine) :
    (servedOutput failed output).amount.amounts = lovelaceFirst output.amount.amounts :=
  Value.amounts_ofAmounts (lovelaceFirst_perm output.amount.amounts)

/-! ## Transactions that can be served -/

/-- What no row of a transaction holds can be told from the others: its height and time are known,
its flags are those of a transaction that the ledger applied, and its labels survive their text
form. -/
structure Transaction.Servable (t : Transaction) : Prop where
  height : t.blockHeight.isSome
  time : t.blockTime.isSome
  phase2 : failsPhase2 t.inputs = t.phase2Failed
  made : ∀ o ∈ t.outputs, o.isCollateral = t.phase2Failed
  labels : ∀ label ∈ t.metadata.getD [], ∀ id, metadataIdFor label.label = some id →
    metadataIdFor (.text label.label.toText) = some id
  labelled : t.metadata.getD [] ≠ [] → mapTransactionMetadata (t.metadata.getD []) ≠ []
  outputs : (t.outputs.map TxOutputLine.outputIndex).Nodup

theorem failsPhase2_map {inputs : List TxInputLine} {change : TxInputLine → TxInputLine}
    (keeps : ∀ i, (change i).isCollateral = i.isCollateral ∧
      (change i).isReference = i.isReference) :
    failsPhase2 (inputs.map change) = failsPhase2 inputs := by
  simp only [failsPhase2, List.any_map, Function.comp_def, (keeps _).1, (keeps _).2]

theorem Transaction.Servable.failsPhase2_served {t : Transaction} (servable : t.Servable) :
    failsPhase2 (t.inputs.map servedInput) = t.phase2Failed :=
  (@failsPhase2_map t.inputs servedInput fun _ => ⟨rfl, rfl⟩).trans servable.phase2

/-! ## Lines -/

theorem served_inputAssets (txSeq : Nat) (inputs : List TxInputLine) :
    (mapTransactionInputAssets txSeq (inputs.map servedInput)).Perm
      (mapTransactionInputAssets txSeq inputs) := by
  simp only [mapTransactionInputAssets, List.mapIdx_eq_zipIdx_map, List.zipIdx_map, List.map_map,
    ← List.flatMap_def]
  refine List.Perm.flatMap_left _ fun entry _ => ?_
  exact lineAssets_perm _ _ (lovelaceFirst_perm entry.1.amount)

theorem served_outputAssets (txSeq : Nat) (outputs : List TxOutputLine) (failed : Bool) :
    (mapTransactionOutputAssets txSeq
      ((outputs.mergeSort fun a b => decide (a.outputIndex ≤ b.outputIndex)).map
        (servedOutput failed))).Perm (mapTransactionOutputAssets txSeq outputs) := by
  rw [mapTransactionOutputAssets, mapTransactionOutputAssets, List.flatMap_map]
  refine List.Perm.trans ((List.mergeSort_perm _ _).flatMap_right _) ?_
  refine List.Perm.flatMap_left _ fun output _ => ?_
  rw [amounts_servedOutput]
  exact lineAssets_perm _ _ (lovelaceFirst_perm output.amount.amounts)

section Credentials

variable [Bech32]

theorem served_inputs (txSeq : Nat) (inputs : List TxInputLine) :
    mapTransactionInputs txSeq (inputs.map servedInput) = mapTransactionInputs txSeq inputs := by
  simp only [mapTransactionInputs, List.mapIdx_eq_zipIdx_map, List.zipIdx_map, List.map_map]
  refine List.map_congr_left fun entry _ => ?_
  simp only [Function.comp_apply, Prod.map_fst, Prod.map_snd, id, servedInput,
    UtxoData.stored_stored, isEmpty_lovelaceFirst]
  rfl

theorem served_outputs (txSeq : Nat) (outputs : List TxOutputLine) (failed : Bool) :
    (mapTransactionOutputs txSeq
      ((outputs.mergeSort fun a b => decide (a.outputIndex ≤ b.outputIndex)).map
        (servedOutput failed))).Perm (mapTransactionOutputs txSeq outputs) := by
  rw [mapTransactionOutputs, mapTransactionOutputs, List.map_map]
  refine List.Perm.trans ((List.mergeSort_perm _ _).map _) (List.Perm.of_eq ?_)
  refine List.map_congr_left fun output _ => ?_
  simp only [Function.comp_apply, amounts_servedOutput, isEmpty_lovelaceFirst]
  simp only [servedOutput, UtxoData.stored_stored]
  rfl

end Credentials

/-! ## Labels, certificates, withdrawals and witnesses -/

/-- Stored labels are stored again under their keys. -/
theorem served_metadata {labels : List MetadataLabelTx}
    (survive : ∀ label ∈ labels, ∀ id, metadataIdFor label.label = some id →
      metadataIdFor (.text label.label.toText) = some id) :
    mapTransactionMetadata ((mapTransactionMetadata labels).map metadataRow) =
      mapTransactionMetadata labels := by
  have again : ∀ row ∈ mapTransactionMetadata labels,
      (metadataIdFor (metadataRow row).label).map (fun id =>
        ({ id, tx := (metadataRow row).txHash, label := (metadataRow row).label.toText,
           payload := (metadataRow row).json } : TransactionMetadataRow)) = some row := by
    intro row rowMem
    obtain ⟨label, labelMem, mapped⟩ := List.mem_filterMap.mp rowMem
    obtain ⟨id, isId, rfl⟩ := Option.map_eq_some_iff.mp mapped
    simp only [metadataRow]
    rw [survive label labelMem id isId]
    rfl
  generalize mapTransactionMetadata labels = rows at again
  rw [mapTransactionMetadata, List.filterMap_map]
  exact (List.filterMap_congr again).trans List.filterMap_some

theorem served_certificates (txHash : TxHash) (certificates : List TxCertificate) :
    mapTransactionCertificates txHash
      ((mapTransactionCertificates txHash certificates).map assembleCertificate) =
        mapTransactionCertificates txHash certificates := by
  simp only [mapTransactionCertificates, List.map_map]
  refine List.map_congr_left fun c _ => ?_
  simp only [Function.comp_apply, assembleCertificate, orNull_orNull]

theorem served_withdrawals (txHash : TxHash) (withdrawals : List TxWithdrawal) :
    mapTransactionWithdrawals txHash
      ((mapTransactionWithdrawals txHash withdrawals).map assembleWithdrawal) =
        mapTransactionWithdrawals txHash withdrawals := by
  simp only [mapTransactionWithdrawals, List.map_map]
  rw [List.filter_eq_self.mpr, List.map_map]
  · rfl
  · intro w wMem
    obtain ⟨w, kept, rfl⟩ := List.mem_map.mp wMem
    exact (List.mem_filter.mp kept).2

theorem served_redeemers (txHash : TxHash) (redeemers : List TxRedeemer)
    (order : TransactionRedeemerRow → TransactionRedeemerRow → Bool) :
    (mapTransactionRedeemers txHash
      (((mapTransactionRedeemers txHash redeemers).mergeSort order).map assembleRedeemer)).Perm
        (mapTransactionRedeemers txHash redeemers) := by
  refine List.Perm.trans (((List.mergeSort_perm _ _).map _).map _) (List.Perm.of_eq ?_)
  simp only [mapTransactionRedeemers, List.map_map]
  rfl

theorem served_datums (txHash : TxHash) (datums : List TxDatum) :
    mapTransactionDatums txHash ((mapTransactionDatums txHash datums).map assembleDatum) =
      mapTransactionDatums txHash datums := by
  simp only [mapTransactionDatums, List.map_map]
  rfl

/-! ## Mint and burn rows -/

theorem getD_eq_of_mem {net : OrderedMap AssetUnit Int} {entry : AssetUnit × Int}
    (entryMem : entry ∈ net.rows) : (OrderedMap.get? net entry.1).getD 0 = entry.2 := by
  rw [OrderedMap.get?_eq_some_iff.mpr entryMem, Option.getD_some]

/-- Nets with the same quantities have the same entries other than zeros. -/
theorem net_perm {first second : OrderedMap AssetUnit Int}
    (same : ∀ unit, (OrderedMap.get? first unit).getD 0 = (OrderedMap.get? second unit).getD 0) :
    (first.rows.filter fun entry => decide (entry.2 ≠ 0)).Perm
      (second.rows.filter fun entry => decide (entry.2 ≠ 0)) := by
  have nodup : ∀ net : OrderedMap AssetUnit Int,
      (net.rows.filter fun entry => decide (entry.2 ≠ 0)).Nodup := fun net =>
    (List.Nodup.of_map Prod.fst (OrderedMap.keys_nodup net)).filter _
  have half : ∀ {first second : OrderedMap AssetUnit Int},
      (∀ unit, (OrderedMap.get? first unit).getD 0 = (OrderedMap.get? second unit).getD 0) →
        ∀ entry ∈ first.rows.filter (fun entry => decide (entry.2 ≠ 0)),
          entry ∈ second.rows.filter fun entry => decide (entry.2 ≠ 0) := by
    intro first second same entry entryMem
    obtain ⟨entryMem, nonzero⟩ := List.mem_filter.mp entryMem
    refine List.mem_filter.mpr ⟨?_, nonzero⟩
    have value := (same entry.1).symm.trans (getD_eq_of_mem entryMem)
    cases found : OrderedMap.get? second entry.1 with
    | none =>
        rw [found, Option.getD_none] at value
        exact absurd value.symm (of_decide_eq_true nonzero)
    | some held =>
        rw [found, Option.getD_some] at value
        rw [value] at found
        exact OrderedMap.get?_eq_some_iff.mp found
  refine (List.perm_ext_iff_of_nodup (nodup first) (nodup second)).mpr fun entry => ?_
  exact ⟨half same entry, half (fun unit => (same unit).symm) entry⟩

theorem assembleMint_mintRow (block : BlockData) (txHash : TxHash) (entry : AssetUnit × Int) :
    assembleMint (mintRow block txHash entry) = ⟨entry.1, entry.2⟩ := by
  have unit : (mintRow block txHash entry).unit = entry.1 := rfl
  by_cases minted : 0 < entry.2
  · have action : (mintRow block txHash entry).action = .mint := if_pos minted
    have quantity : (mintRow block txHash entry).quantity = entry.2 := if_neg (by omega)
    rw [assembleMint, unit, action, quantity, if_neg (by decide)]
  · have action : (mintRow block txHash entry).action = .burn := if_neg minted
    rw [assembleMint, unit, action, if_pos rfl, mintRow]
    by_cases burned : entry.2 < 0
    · rw [if_pos burned, neg_neg]
    · rw [if_neg burned, show entry.2 = 0 by omega, neg_zero]

/-- The mint that rows report nets to the net they were made of. -/
theorem getD_netAmounts_mintRows (block : BlockData) (txHash : TxHash)
    {net : OrderedMap AssetUnit Int} (ada : (OrderedMap.get? net lovelace).getD 0 = 0)
    (unit : AssetUnit) :
    (OrderedMap.get? (netAmounts
      ((((net.rows.filter fun entry => decide (entry.2 ≠ 0)).map (mintRow block txHash)).map
        assembleMint).map fun m => (1, m))) unit).getD 0 = (OrderedMap.get? net unit).getD 0 := by
  have summed : (OrderedMap.get? net unit).getD 0 =
      (net.rows.map fun entry => if entry.1 = unit then entry.2 else 0).sum := by
    have measured := OrderedMap.measure_eq_sum net id unit
    rw [OrderedMap.measure, Option.map_id] at measured
    exact measured
  have dropped : ∀ rows : List (AssetUnit × Int),
      ((rows.filter fun entry => decide (entry.2 ≠ 0)).map fun entry =>
        if entry.1 = unit then entry.2 else 0).sum =
          (rows.map fun entry => if entry.1 = unit then entry.2 else 0).sum := by
    intro rows
    induction rows with
    | nil => rfl
    | cons entry rows ih =>
        by_cases isZero : entry.2 = 0
        · rw [List.filter_cons_of_neg (by simp [isZero]), ih, List.map_cons, List.sum_cons, isZero,
            ite_self, zero_add]
        · rw [List.filter_cons_of_pos (by simp [isZero]), List.map_cons, List.sum_cons, ih,
            List.map_cons, List.sum_cons]
  rw [getD_netAmounts]
  split
  · rename_i isAda
    rw [isAda, ada]
  · rw [summed, ← dropped, List.map_map, List.map_map, List.map_map]
    refine congrArg List.sum (List.map_congr_left fun entry _ => ?_)
    simp only [Function.comp_apply, assembleMint_mintRow, one_mul]

theorem unitQuantity_lovelaceFirst (unit : AssetUnit) (list : List Amount) :
    unitQuantity unit (lovelaceFirst list) = unitQuantity unit list :=
  ((lovelaceFirst_perm list).map _).sum_eq

/-- A transaction that the ledger accepted, with the amounts of the inputs that have an address. -/
structure Accounted (paid : ChainOutputs) (minted : AssetUnit → Int) (t : Transaction) : Prop where
  accepted : LedgerAccepted paid minted t
  spells : ∀ i ∈ t.inputs, i.address ≠ "" → Spells (paid i.outpoint) i.amount

/-- What a transaction makes of a unit beyond what it spends. -/
def gained (unit : AssetUnit) (t : Transaction) : Int :=
  (t.produced.map fun o => unitQuantity unit o.amount.amounts).sum -
    (t.consumed.map fun i => unitQuantity unit i.amount).sum

theorem mintDelta_reported {t : Transaction} {mint : List Amount} (reported : t.mint = some mint) :
    mintDelta t = some (netAmounts (mint.map fun m => (1, m))) := by
  simp only [mintDelta, reported]

/-- A mint that no source reported is what outputs exceed inputs by. -/
theorem mintDelta_unreported {t : Transaction} (unreported : t.mint = none)
    (succeeded : t.phase2Failed = false)
    (addressed : ∀ i ∈ t.consumed, i.address ≠ "") :
    ∃ net, mintDelta t = some net ∧ ∀ unit, (OrderedMap.get? net unit).getD 0 =
      if unit = lovelace then 0 else gained unit t := by
  have noneBare : (t.consumed.any fun i => decide (i.address = "")) = false :=
    List.any_eq_false.mpr fun i iMem isBare => addressed i iMem (of_decide_eq_true isBare)
  rw [Transaction.consumed] at noneBare
  simp only [mintDelta, unreported, succeeded, Bool.false_eq_true, if_false, noneBare]
  refine ⟨_, rfl, fun unit => ?_⟩
  rw [getD_netAmounts]
  split
  · rfl
  · rw [List.map_append, List.sum_append, sum_signed, sum_signed, gained, Transaction.produced,
      Transaction.consumed]
    omega

/-- No mint is derived for a failed script or an input without an address. -/
theorem mintDelta_unknown {t : Transaction} (unreported : t.mint = none)
    (unknown : t.phase2Failed = true ∨ ∃ i ∈ t.consumed, i.address = "") :
    mintDelta t = none := by
  simp only [mintDelta, unreported]
  rcases unknown with failed | ⟨i, iMem, isBare⟩
  · rw [if_pos failed]
  · have someBare : (t.consumed.any fun i => decide (i.address = "")) = true :=
      List.any_eq_true.mpr ⟨i, iMem, decide_eq_true isBare⟩
    rw [Transaction.consumed] at someBare
    rw [if_pos someBare, ite_self]

theorem buildAssetHistoryRows_singleton (block : BlockData) (t : Transaction) :
    buildAssetHistoryRows block [t] = (mintDelta t).elim [] fun net =>
      (net.rows.filter fun entry => decide (entry.2 ≠ 0)).map (mintRow block t.hash) := by
  rw [buildAssetHistoryRows, List.flatMap_cons, List.flatMap_nil, List.append_nil]
  cases mintDelta t <;> rfl

theorem mintRow_congr {block other : BlockData} (time : other.time = block.time)
    (height : other.height = block.height) (txHash : TxHash) :
    mintRow other txHash = mintRow block txHash := by
  funext entry
  simp only [mintRow, time, height]

/-- The net of a transaction has no ada. -/
theorem mintDelta_ada {t : Transaction} {net : OrderedMap AssetUnit Int}
    (isNet : mintDelta t = some net) : (OrderedMap.get? net lovelace).getD 0 = 0 := by
  rw [mintDelta] at isNet
  split at isNet
  · cases isNet
    rw [getD_netAmounts, if_pos rfl]
  · dsimp only at isNet
    split at isNet
    · cases isNet
    · split at isNet
      · cases isNet
      · cases isNet
        rw [getD_netAmounts, if_pos rfl]

theorem unknown_of_mintDelta_none {t : Transaction} (isNone : mintDelta t = none) :
    t.phase2Failed = true ∨ ∃ i ∈ t.consumed, i.address = "" := by
  rw [mintDelta] at isNone
  split at isNone
  · cases isNone
  · dsimp only at isNone
    split at isNone
    · rename_i failed
      exact Or.inl failed
    · split at isNone
      · rename_i someBare
        obtain ⟨i, iMem, isBare⟩ := List.any_eq_true.mp someBare
        exact Or.inr ⟨i, iMem, of_decide_eq_true isBare⟩
      · cases isNone

section Mint

variable [Bech32] {coverage : CrawlCoverage} {block : BlockData} {t : Transaction}
  {paid : ChainOutputs} {minted : AssetUnit → Int}

theorem consumed_served : (servedTransaction coverage block t).consumed = t.consumed.map servedInput :=
  filter_map_keeps fun _ => rfl

theorem gained_served (servable : t.Servable) (succeeded : t.phase2Failed = false)
    (unit : AssetUnit) : gained unit (servedTransaction coverage block t) = gained unit t := by
  have all : t.produced = t.outputs :=
    List.filter_eq_self.mpr fun o oMem => by rw [servable.made o oMem, succeeded, Bool.not_false]
  have served : (servedTransaction coverage block t).produced =
      (t.outputs.mergeSort fun a b => decide (a.outputIndex ≤ b.outputIndex)).map
        (servedOutput false) := by
    have failed := servable.failsPhase2_served.trans succeeded
    simp only [Transaction.produced, servedTransaction, failed]
    refine List.filter_eq_self.mpr fun o oMem => ?_
    obtain ⟨o, -, rfl⟩ := List.mem_map.mp oMem
    rfl
  rw [gained, gained, all, served, consumed_served, List.map_map, List.map_map]
  congr 1
  · refine List.Perm.sum_eq (((List.mergeSort_perm _ _).map _).trans (List.Perm.of_eq ?_))
    refine List.map_congr_left fun o _ => ?_
    rw [Function.comp_apply, amounts_servedOutput, unitQuantity_lovelaceFirst]
  · refine congrArg List.sum (List.map_congr_left fun i _ => ?_)
    exact unitQuantity_lovelaceFirst unit i.amount

/-- A transaction without mint or burn rows is served without a mint, and then none is derived. -/
theorem mintDelta_served_of_nil (servable : t.Servable) (accounted : Accounted paid minted t)
    (unreported : (servedTransaction coverage block t).mint = none) {net : OrderedMap AssetUnit Int}
    (isNet : mintDelta t = some net)
    (zeros : ∀ unit, unit ≠ lovelace → (OrderedMap.get? net unit).getD 0 = 0) :
    (mintDelta (servedTransaction coverage block t) = none) ∨
      ∃ served, mintDelta (servedTransaction coverage block t) = some served ∧
        ∀ unit, (OrderedMap.get? served unit).getD 0 = 0 := by
  have sameFlag : (servedTransaction coverage block t).phase2Failed = t.phase2Failed :=
    servable.failsPhase2_served
  by_cases unknown : t.phase2Failed = true ∨ ∃ i ∈ t.consumed, i.address = ""
  · left
    refine mintDelta_unknown unreported ?_
    rw [sameFlag, consumed_served]
    exact unknown.imp id fun ⟨i, iMem, isBare⟩ => ⟨servedInput i, List.mem_map_of_mem iMem, isBare⟩
  · right
    obtain ⟨succeeded, addressed⟩ := not_or.mp unknown
    have succeeded := Bool.eq_false_iff.mpr succeeded
    have addressed : ∀ i ∈ t.consumed, i.address ≠ "" := fun i iMem isBare =>
      addressed ⟨i, iMem, isBare⟩
    obtain ⟨served, isServed, values⟩ := mintDelta_unreported unreported (sameFlag.trans succeeded)
      (by
        rw [consumed_served]
        intro i iMem
        obtain ⟨input, inputMem, rfl⟩ := List.mem_map.mp iMem
        exact addressed input inputMem)
    refine ⟨served, isServed, fun unit => ?_⟩
    rw [values unit]
    split
    · rfl
    · rename_i native
      rw [gained_served servable succeeded, ← zeros unit native]
      cases isMint : t.mint with
      | none =>
          obtain ⟨own, isOwn, ownValues⟩ := mintDelta_unreported isMint succeeded addressed
          cases isNet.symm.trans isOwn
          rw [ownValues unit, if_neg native]
      | some mint =>
          have spent : (t.consumed.map fun i => unitQuantity unit i.amount).sum =
              (t.consumed.map fun i => paid i.outpoint unit).sum := by
            refine congrArg List.sum (List.map_congr_left fun i iMem => ?_)
            exact (accounted.spells i (List.mem_filter.mp iMem).1 (addressed i iMem)).assets unit
              native
          have balanced := accounted.accepted.balanced succeeded unit native
          have reported := accounted.accepted.reported succeeded mint isMint unit native
          have value : (OrderedMap.get? net unit).getD 0 = unitQuantity unit mint := by
            rw [mintDelta, isMint] at isNet
            cases isNet
            rw [getD_netAmounts, if_neg native]
            have signed := sum_signed 1 unit [mint] id
            simpa using signed
          rw [gained, spent, value, reported]
          omega

/-- A transaction that is indexed as it is served gets its mint and burn rows. -/
theorem served_assetHistory (servable : t.Servable) (accounted : Accounted paid minted t)
    {other : BlockData} (time : other.time = block.time) (height : other.height = block.height)
    (kept : coverage.assetHistory = true) :
    (buildAssetHistoryRows other [servedTransaction coverage block t]).Perm
      (buildAssetHistoryRows block [t]) := by
  have rows : rowsOfTransaction coverage block t .assetHistory = buildAssetHistoryRows block [t] := by
    rw [rowsOfTransaction_assetHistory, if_pos kept]
  have mint : (servedTransaction coverage block t).mint =
      (grouped (buildAssetHistoryRows block [t])).map fun rows => rows.map assembleMint := by
    rw [← rows]
    rfl
  have hash : (servedTransaction coverage block t).hash = t.hash := rfl
  rw [buildAssetHistoryRows_singleton] at mint ⊢
  rw [buildAssetHistoryRows_singleton, hash, mintRow_congr time height]
  cases isNet : mintDelta t with
  | none =>
      rw [isNet, Option.elim_none] at mint
      have unknown : (servedTransaction coverage block t).phase2Failed = true ∨
          ∃ i ∈ (servedTransaction coverage block t).consumed, i.address = "" := by
        rw [consumed_served]
        exact (unknown_of_mintDelta_none isNet).imp servable.failsPhase2_served.trans
          fun ⟨i, iMem, isBare⟩ => ⟨servedInput i, List.mem_map_of_mem iMem, isBare⟩
      rw [mintDelta_unknown mint unknown]
  | some net =>
      rw [isNet, Option.elim_some] at mint
      rw [Option.elim_some]
      by_cases none : (net.rows.filter fun entry => decide (entry.2 ≠ 0)) = []
      · rw [none, List.map_nil] at mint ⊢
        have zeros : ∀ unit, unit ≠ lovelace → (OrderedMap.get? net unit).getD 0 = 0 := by
          intro unit _
          cases found : OrderedMap.get? net unit with
          | none => rfl
          | some held =>
              have member := OrderedMap.get?_eq_some_iff.mp found
              exact Classical.not_not.mp fun nonzero =>
                List.filter_eq_nil_iff.mp none _ member (decide_eq_true nonzero)
        rcases mintDelta_served_of_nil servable accounted mint isNet zeros with
          unknown | ⟨served, isServed, values⟩
        · rw [unknown]
          exact List.Perm.refl _
        · rw [isServed, Option.elim_some]
          refine List.Perm.of_eq (List.map_eq_nil_iff.mpr (List.filter_eq_nil_iff.mpr ?_))
          intro entry entryMem nonzero
          exact of_decide_eq_true nonzero ((getD_eq_of_mem entryMem).symm.trans (values entry.1))
      · have some : (((net.rows.filter fun entry => decide (entry.2 ≠ 0)).map
            (mintRow block t.hash)).isEmpty) = false := by
          rw [List.isEmpty_map]
          exact List.isEmpty_eq_false_iff.mpr none
        rw [grouped, some, if_neg Bool.false_ne_true, Option.map_some] at mint
        rw [mintDelta_reported mint, Option.elim_some]
        exact (net_perm fun unit =>
          getD_netAmounts_mintRows block t.hash (mintDelta_ada isNet) unit).map _

/-! ## All rows -/

theorem served_transaction (servable : t.Servable) :
    mapTransaction (servedTransaction coverage block t) = mapTransaction t := by
  have hasMetadata : ((mapTransactionMetadata (t.metadata.getD [])).map metadataRow).isEmpty =
      (t.metadata.getD []).isEmpty := by
    rw [List.isEmpty_map]
    cases some : t.metadata.getD [] with
    | nil => rfl
    | cons label labels =>
        have stored := servable.labelled (by rw [some]; exact List.cons_ne_nil _ _)
        rw [some] at stored
        rw [List.isEmpty_eq_false_iff.mpr stored, List.isEmpty_cons]
  have hasOutputs : (t.outputs.mergeSort fun a b =>
      decide (a.outputIndex ≤ b.outputIndex)).isEmpty = t.outputs.isEmpty :=
    (List.mergeSort_perm _ _).isEmpty_eq
  obtain ⟨height, isHeight⟩ := Option.isSome_iff_exists.mp servable.height
  obtain ⟨time, isTime⟩ := Option.isSome_iff_exists.mp servable.time
  simp only [mapTransaction, servedTransaction, rowsOfTransaction_metadata, hasMetadata, hasOutputs,
    isHeight, isTime, Option.getD_some, List.isEmpty_map, Transaction.txSeq]

/-- A transaction that is indexed as it is served gets the rows it was put together from. -/
theorem rowsOfTransaction_served (servable : t.Servable) (accounted : Accounted paid minted t)
    {other : BlockData} (time : other.time = block.time) (height : other.height = block.height)
    (table : CrawlTable) :
    (rowsOfTransaction coverage other (servedTransaction coverage block t) table).Perm
      (rowsOfTransaction coverage block t table) := by
  have seq : (servedTransaction coverage block t).txSeq = t.txSeq := rfl
  have hash : (servedTransaction coverage block t).hash = t.hash := rfl
  cases table with
  | blocks => exact List.Perm.refl _
  | transactions => exact List.Perm.of_eq (congrArg (fun row => [row]) (served_transaction servable))
  | transactionInputs =>
      rw [rowsOfTransaction_inputs, rowsOfTransaction_inputs, seq]
      exact List.Perm.of_eq (served_inputs t.txSeq t.inputs)
  | transactionInputAssets =>
      rw [rowsOfTransaction_inputAssets, rowsOfTransaction_inputAssets, seq]
      exact served_inputAssets t.txSeq t.inputs
  | transactionOutputs =>
      rw [rowsOfTransaction_outputs, rowsOfTransaction_outputs, seq]
      exact served_outputs t.txSeq t.outputs _
  | transactionOutputAssets =>
      rw [rowsOfTransaction_outputAssets, rowsOfTransaction_outputAssets, seq]
      exact served_outputAssets t.txSeq t.outputs _
  | transactionMetadata =>
      rw [rowsOfTransaction_metadata, rowsOfTransaction_metadata, servedTransaction,
        Option.getD_some, rowsOfTransaction_metadata]
      exact List.Perm.of_eq (served_metadata servable.labels)
  | transactionCertificates =>
      rw [rowsOfTransaction_certificates, rowsOfTransaction_certificates, hash]
      split
      · rename_i kept
        rw [servedTransaction, getD_map_grouped _ _ rfl, rowsOfTransaction_certificates, if_pos kept]
        exact List.Perm.of_eq (served_certificates t.hash _)
      · exact List.Perm.refl _
  | transactionWithdrawals =>
      rw [rowsOfTransaction_withdrawals, rowsOfTransaction_withdrawals, hash]
      split
      · rename_i kept
        rw [servedTransaction, getD_map_grouped _ _ rfl, rowsOfTransaction_withdrawals, if_pos kept]
        exact List.Perm.of_eq (served_withdrawals t.hash _)
      · exact List.Perm.refl _
  | transactionRedeemers =>
      rw [rowsOfTransaction_redeemers, rowsOfTransaction_redeemers, hash, servedTransaction,
        getD_map_grouped _ _ (by rw [List.mergeSort_nil, List.map_nil]), rowsOfTransaction_redeemers]
      exact served_redeemers t.hash _ _
  | transactionDatums =>
      rw [rowsOfTransaction_datums, rowsOfTransaction_datums, hash, servedTransaction,
        getD_map_grouped _ _ rfl, rowsOfTransaction_datums]
      exact List.Perm.of_eq (served_datums t.hash _)
  | assetHistory =>
      rw [rowsOfTransaction_assetHistory, rowsOfTransaction_assetHistory]
      split
      · rename_i kept
        exact served_assetHistory servable accounted time height kept
      · exact List.Perm.refl _

end Mint

end Odatano
