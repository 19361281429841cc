import Odatano.BackfillGaps

/-!
# The second run of the transaction backfill

A transaction whose inputs were filled or rewritten is in line with the stream from then on and
lacks nothing that the stream has; one that was left alone is left alone again.
-/

namespace Odatano

/-! ## A filled input -/

/-- A stored output index comes with its transaction hash. -/
def StoredInputRow.OutpointWhole (row : StoredInputRow) : Prop :=
  row.spentTxHash = none → row.spentOutputIndex = none

instance (row : StoredInputRow) : Decidable row.OutpointWhole :=
  inferInstanceAs (Decidable (_ → _))

/-- The row names the streamed output. -/
structure StoredInputRow.Settled (row : StoredInputRow) (fresh : TxInputLine) : Prop where
  hash : row.spentTxHash = some fresh.txHash
  index : row.spentOutputIndex.getD 0 = fresh.outputIndex
  flags : row.collateral = fresh.isCollateral ∧ row.reference = fresh.isReference

theorem sameInput_of_settled {row : StoredInputRow} {fresh : TxInputLine}
    (settled : row.Settled fresh) (stored : Option Int) : sameInput row fresh stored = true := by
  simp [sameInput, settled.hash, settled.index, settled.flags]

section Filled

variable {old : StoredInputRow} {fresh : TxInputLine}

theorem settled_set (same : old.Matches fresh) : ((missingFields old fresh).set old).Settled fresh := by
  cases stored : old.spentTxHash with
  | none => exact ⟨by simp [InputFields.set, missingFields, stored],
      by simp [InputFields.set, missingFields, stored], same.collateral, same.reference⟩
  | some hash =>
      obtain ⟨isHash, isIndex⟩ := same.outpoint hash stored
      exact ⟨by simp [InputFields.set, missingFields, stored, isHash],
        by simpa [InputFields.set, missingFields, stored] using isIndex, same.collateral,
        same.reference⟩

theorem settled_coalesce (same : old.Matches fresh) (whole : old.OutpointWhole) :
    ((missingFields old fresh).coalesce old).Settled fresh := by
  cases stored : old.spentTxHash with
  | none => exact ⟨by simp [InputFields.coalesce, missingFields, stored],
      by simp [InputFields.coalesce, missingFields, stored, whole stored], same.collateral,
      same.reference⟩
  | some hash =>
      obtain ⟨isHash, isIndex⟩ := same.outpoint hash stored
      exact ⟨by simp [InputFields.coalesce, missingFields, stored, isHash],
        by simpa [InputFields.coalesce, missingFields, stored] using isIndex, same.collateral,
        same.reference⟩

theorem fillNull_set {α : Type} (column value : Option α) :
    fillNull ((fillNull column value).or column) value = none := by
  cases column <;> cases value <;> rfl

theorem coalesce_fillNull {α : Type} (column value : Option α) :
    (column.or (fillNull column value)).or (fillNull (column.or (fillNull column value)) value) =
      column.or (fillNull column value) := by
  cases column <;> cases value <;> rfl

/-- Nothing is missing after an update. -/
theorem missingFields_set (old : StoredInputRow) (fresh : TxInputLine) :
    missingFields ((missingFields old fresh).set old) fresh = InputFields.empty := by
  have hash : ((missingFields old fresh).set old).spentTxHash.isNone = false := by
    cases stored : old.spentTxHash <;> simp [InputFields.set, missingFields, stored]
  have resolved : (((missingFields old fresh).set old).address?.isNone &&
      decide (fresh.address ≠ "")) = false := by
    cases known : old.address? with
    | some address =>
        have set := ((StoredInputRow.FilledTo.set old fresh).resolved address known).1
        have isAddress := (Option.filter_eq_some_iff.mp known).2
        simp [StoredInputRow.address?, set, Option.filter, of_decide_eq_true isAddress]
    | none =>
        by_cases empty : fresh.address = ""
        · simp [empty]
        · have filled : ((missingFields old fresh).set old).address = some fresh.address := by
            simp [InputFields.set, missingFields, known, empty]
          simp [StoredInputRow.address?, filled, Option.filter, empty]
  rw [missingFields, hash, resolved]
  simp only [InputFields.set, missingFields, fillNull_set]
  rfl

theorem missingFields_of_spent {row : StoredInputRow} (fresh : TxInputLine)
    (spent : row.spentTxHash.isNone = false) :
    (missingFields row fresh).spentTxHash = none ∧
      (missingFields row fresh).spentOutputIndex = none := by
  simp [missingFields, spent]

theorem missingFields_of_known {row : StoredInputRow} (fresh : TxInputLine) {address : Address}
    (known : row.address? = some address) : (missingFields row fresh).address = none := by
  simp [missingFields, known]

/-- A bulk update that has nothing to add. -/
theorem InputFields.coalesce_eq_self {fields : InputFields} {row : StoredInputRow}
    (hash : row.spentTxHash.or fields.spentTxHash = row.spentTxHash)
    (index : row.spentOutputIndex.or fields.spentOutputIndex = row.spentOutputIndex)
    (data : row.utxoData.dataHash.or fields.utxoData.dataHash = row.utxoData.dataHash ∧
      row.utxoData.inlineDatum.or fields.utxoData.inlineDatum = row.utxoData.inlineDatum ∧
      row.utxoData.referenceScriptHash.or fields.utxoData.referenceScriptHash =
        row.utxoData.referenceScriptHash ∧
      row.utxoData.referenceScriptSize.or fields.utxoData.referenceScriptSize =
        row.utxoData.referenceScriptSize ∧
      row.utxoData.referenceScriptType.or fields.utxoData.referenceScriptType =
        row.utxoData.referenceScriptType)
    (address : row.address.or fields.address = row.address)
    (resolves : (fields.address.isSome && row.address.isNone) = false) :
    fields.coalesce row = row := by
  simp only [coalesce, hash, index, data, address, resolves, Bool.false_eq_true, if_false]

/-- A bulk update writes the same again. -/
theorem coalesce_missingFields (old : StoredInputRow) (fresh : TxInputLine) :
    (missingFields ((missingFields old fresh).coalesce old) fresh).coalesce
        ((missingFields old fresh).coalesce old) =
      (missingFields old fresh).coalesce old := by
  have hash : ((missingFields old fresh).coalesce old).spentTxHash.isNone = false := by
    cases stored : old.spentTxHash <;> simp [InputFields.coalesce, missingFields, stored]
  have address : ((missingFields old fresh).coalesce old).address.isNone = false ∨
      fresh.address = "" := by
    by_cases empty : fresh.address = ""
    · exact .inr empty
    · refine .inl ?_
      cases known : old.address with
      | some address => simp [InputFields.coalesce, known]
      | none => simp [InputFields.coalesce, missingFields, StoredInputRow.address?, known, empty]
  have unresolved : (missingFields ((missingFields old fresh).coalesce old) fresh).address = none ∨
      ((missingFields old fresh).coalesce old).address.isNone = false := by
    rcases address with known | empty
    · exact .inr known
    · exact .inl (by simp [missingFields, empty])
  have spent := missingFields_of_spent fresh hash
  apply InputFields.coalesce_eq_self
  · rw [spent.1, Option.or_none]
  · rw [spent.2, Option.or_none]
  · exact ⟨coalesce_fillNull _ _, coalesce_fillNull _ _, coalesce_fillNull _ _,
      coalesce_fillNull _ _, coalesce_fillNull _ _⟩
  · rcases unresolved with none | known
    · rw [none, Option.or_none]
    · cases isAddress : ((missingFields old fresh).coalesce old).address with
      | none =>
          rw [isAddress] at known
          cases known
      | some address => rfl
  · rcases unresolved with none | known
    · rw [none]
      rfl
    · rw [known, Bool.and_false]

/-- After a write of either kind, another one writes nothing new. -/
theorem write_write (kind : DbKind) (old : StoredInputRow) (fresh : TxInputLine) :
    kind.write (missingFields (kind.write (missingFields old fresh) old) fresh)
        (kind.write (missingFields old fresh) old) =
      kind.write (missingFields old fresh) old := by
  cases bulk : kind.fillsInBulk with
  | true =>
      have isWrite : kind.write = InputFields.coalesce := if_pos bulk
      rw [isWrite]
      exact coalesce_missingFields old fresh
  | false =>
      have isWrite : kind.write = InputFields.set := if_neg (by rw [bulk]; exact Bool.false_ne_true)
      have nothing := InputFields.write_empty kind ((missingFields old fresh).set old)
      rw [isWrite] at nothing ⊢
      rw [missingFields_set]
      exact nothing

theorem settled_write {kind : DbKind} (same : old.Matches fresh)
    (whole : kind.fillsInBulk = true → old.OutpointWhole) :
    (kind.write (missingFields old fresh) old).Settled fresh := by
  unfold DbKind.write
  split
  · rename_i bulk
    exact settled_coalesce same (whole bulk)
  · exact settled_set same

/-- An address that a second write would set was to be set by the first one. -/
theorem address_missing_of_write {kind : DbKind}
    (again : (missingFields (kind.write (missingFields old fresh) old) fresh).address.isSome = true) :
    (missingFields old fresh).address.isSome = true := by
  cases known : old.address? with
  | some address =>
      have kept := ((StoredInputRow.FilledTo.write kind old fresh).resolved address known).1
      have still : (kind.write (missingFields old fresh) old).address? = some address := by
        rw [StoredInputRow.address?, kept]
        exact Option.filter_eq_some_iff.mpr ⟨rfl, (Option.filter_eq_some_iff.mp known).2⟩
      rw [missingFields_of_known fresh still] at again
      cases again
  | none =>
      by_cases empty : fresh.address = ""
      · simp [missingFields, empty] at again
      · simp [missingFields, known, empty]

end Filled

/-! ## A transaction in line -/

/-- The rows are the same, and every lookup of an input's assets. -/
structure SameLines (first second : LineTables) : Prop where
  inputs : first.inputs = second.inputs
  inputAssets : ∀ k, first.inputAssets.find? k = second.inputAssets.find? k
  outputs : first.outputs = second.outputs
  outputAssets : first.outputAssets = second.outputAssets

section Own

variable {kind : DbKind} {tables : LineTables} {t : Transaction}

/-- The stored inputs are those of the stream, each at its position. -/
structure InLine (tables : LineTables) (t : Transaction) : Prop where
  count : tables.inputs.rows.length = t.inputs.length
  settled : ∀ i fresh, t.inputs[i]? = some fresh →
    ∃ row, tables.inputs.find? (t.txSeq, i) = some row ∧ row.Settled fresh

theorem InLine.plan (inLine : InLine tables t) (isOwn : tables.own t.txSeq = tables) :
    (readStoredInputs tables [t.txSeq]).plan t = .fill := by
  have lines : (readStoredInputs tables [t.txSeq]).lines t = true := by
    rw [StoredInputs.lines, rowsOf_own isOwn, decide_eq_true inLine.count, Bool.true_and,
      List.all_eq_true]
    rintro ⟨fresh, i⟩ isEntry
    obtain ⟨row, isRow, settled⟩ := inLine.settled i fresh (List.mem_zipIdx_iff_getElem?.mp isEntry)
    rw [(readStoredInputs_lookups (List.mem_singleton_self _) _).1, isRow, Option.any_some]
    exact sameInput_of_settled settled _
  rw [StoredInputs.plan, if_pos lines]

theorem lines_of_plan_eq_fill (isOwn : tables.own t.txSeq = tables)
    (planned : (readStoredInputs tables [t.txSeq]).plan t = .fill) :
    tables.inputs.rows.length = t.inputs.length ∧ ∀ i fresh, t.inputs[i]? = some fresh →
      ∃ row, tables.inputs.find? (t.txSeq, i) = some row ∧ row.Matches fresh := by
  have lines : (readStoredInputs tables [t.txSeq]).lines t = true := by
    unfold StoredInputs.plan at planned
    split at planned
    · assumption
    · dsimp only at planned
      split at planned
      · cases planned
      · split at planned <;> cases planned
  obtain ⟨count, all⟩ := Bool.and_eq_true_iff.mp lines
  rw [rowsOf_own isOwn] at count
  refine ⟨of_decide_eq_true count, fun i fresh isFresh => ?_⟩
  have same := List.all_eq_true.mp all (fresh, i) (List.mem_zipIdx_iff_getElem?.mpr isFresh)
  rw [(readStoredInputs_lookups (List.mem_singleton_self _) _).1, Option.any_eq_true] at same
  obtain ⟨row, isRow, same⟩ := same
  exact ⟨row, isRow, matches_of_sameInput same⟩

/-- The assets a fill writes at a key: those of the input, if its address is to be filled. -/
theorem filter_filledAssets (read : StoredInputs) (t : Transaction) (seq i : Nat)
    (unit : AssetUnit) :
    (read.filledAssets t).filter (fun a => decide (a.key = ((seq, i), unit))) =
      if ∃ fresh, t.inputs[i]? = some fresh ∧
          (read.missingAt t.txSeq (fresh, i)).address.isSome = true then
        (mapTransactionInputAssets t.txSeq t.inputs).filter
          fun a => decide (a.key = ((seq, i), unit))
      else [] := by
  have owned : ∀ entry ∈ t.inputs.zipIdx, ∀ a ∈
      (if (read.missingAt t.txSeq entry).address.isSome then
        (mapTransactionInputAssets t.txSeq t.inputs).filter
          fun a => decide (a.lineIndex = entry.2)
      else []), a.lineIndex = entry.2 := by
    intro entry _ a isAsset
    split at isAsset
    · exact of_decide_eq_true (List.mem_filter.mp isAsset).2
    · cases isAsset
  have once : (t.inputs.zipIdx.map Prod.snd).Nodup := by
    rw [List.zipIdx_map_snd]
    exact List.nodup_range'
  have narrow (assets : List LineAssetRow) :
      assets.filter (fun a => decide (a.key = ((seq, i), unit))) =
        (assets.filter fun a => decide (a.lineIndex = i)).filter
          fun a => decide (a.key = ((seq, i), unit)) := by
    rw [List.filter_filter]
    refine List.filter_congr fun a _ => ?_
    by_cases isKey : a.key = ((seq, i), unit)
    · have isLine : a.lineIndex = i := congrArg (fun k => k.1.2) isKey
      simp [isKey, isLine]
    · simp [isKey]
  rw [narrow, StoredInputs.filledAssets]
  cases streamed : t.inputs[i]? with
  | none =>
      have unlisted : ∀ entry ∈ t.inputs.zipIdx, entry.2 ≠ i := by
        rintro ⟨fresh, j⟩ isEntry rfl
        rw [List.mem_zipIdx_iff_getElem?.mp isEntry] at streamed
        cases streamed
      rw [filter_flatMap_other owned unlisted, if_neg (by simp)]
      rfl
  | some fresh =>
      have isEntry : (fresh, i) ∈ t.inputs.zipIdx := List.mem_zipIdx_iff_getElem?.mpr streamed
      rw [filter_flatMap_own once owned isEntry]
      by_cases resolves : (read.missingAt t.txSeq (fresh, i)).address.isSome = true
      · rw [if_pos resolves, if_pos ⟨fresh, rfl, resolves⟩, ← narrow]
      · rw [if_neg resolves, if_neg (by simpa using resolves)]
        rfl

/-- A fill that fills no more addresses than an earlier one leaves every lookup. -/
theorem find?_upsertAll_filledAssets {earlier later : StoredInputs}
    (assets : Table LineAssetRow.key)
    (fewer : ∀ i fresh, t.inputs[i]? = some fresh →
      (later.missingAt t.txSeq (fresh, i)).address.isSome = true →
        (earlier.missingAt t.txSeq (fresh, i)).address.isSome = true)
    (k : (Nat × Nat) × AssetUnit) :
    ((assets.upsertAll (earlier.filledAssets t)).upsertAll (later.filledAssets t)).find? k =
      (assets.upsertAll (earlier.filledAssets t)).find? k := by
  obtain ⟨⟨seq, i⟩, unit⟩ := k
  rw [Table.find?_upsertAll_last, Table.find?_upsertAll_last, filter_filledAssets,
    filter_filledAssets]
  by_cases again : ∃ fresh, t.inputs[i]? = some fresh ∧
      (later.missingAt t.txSeq (fresh, i)).address.isSome = true
  · obtain ⟨fresh, streamed, resolves⟩ := again
    rw [if_pos ⟨fresh, streamed, resolves⟩,
      if_pos ⟨fresh, streamed, fewer i fresh streamed resolves⟩]
    cases ((mapTransactionInputAssets t.txSeq t.inputs).filter
      fun a => decide (a.key = ((seq, i), unit))).getLast? <;> rfl
  · rw [if_neg again]
    rfl

/-! ## The second time -/

theorem backfillOwn_of_fill (planned : (readStoredInputs tables [t.txSeq]).plan t = .fill) :
    backfillOwn kind tables t = LineTables.dropOutputs
      { tables with
        inputs := updateWith kind.key_write tables.inputs
          ((readStoredInputs tables [t.txSeq]).fills t)
        inputAssets := tables.inputAssets.upsertAll
          ((readStoredInputs tables [t.txSeq]).filledAssets t) } t.txSeq
      (extraOutputs tables t) := by
  unfold backfillOwn
  dsimp only
  rw [planned]

theorem backfillOwn_of_rewrite {ordered : List StoredInputRow}
    (planned : (readStoredInputs tables [t.txSeq]).plan t = .rewrite ordered) :
    backfillOwn kind tables t = (rewriteInOrder tables t.txSeq ordered t.inputs).dropOutputs t.txSeq
      (extraOutputs tables t) := by
  unfold backfillOwn
  dsimp only
  rw [planned]

theorem backfillOwn_of_skip (planned : (readStoredInputs tables [t.txSeq]).plan t = .skip) :
    backfillOwn kind tables t = tables.dropOutputs t.txSeq (extraOutputs tables t) := by
  unfold backfillOwn
  dsimp only
  rw [planned]

theorem own_backfillOwn (isOwn : tables.own t.txSeq = tables) :
    (backfillOwn kind tables t).own t.txSeq = backfillOwn kind tables t := by
  have alone := @own_backfillLines kind tables [t] (List.nodup_singleton _) t
    (List.mem_singleton_self _)
  rw [isOwn] at alone
  rw [← alone, own_own]

theorem mem_extraOutputs_iff {i : Nat} :
    i ∈ extraOutputs tables t ↔
      (∀ j ∈ t.outputs.map TxOutputLine.outputIndex, ∃ o ∈ tables.outputs.rows,
        o.txSeq = t.txSeq ∧ o.outputIndex = j) ∧
      (∃ o ∈ tables.outputs.rows, o.txSeq = t.txSeq ∧ o.outputIndex = i) ∧
        i ∉ t.outputs.map TxOutputLine.outputIndex := by
  have isIndex (j : Nat) : j ∈ (tables.outputs.select fun row => decide (row.txSeq = t.txSeq)).map
      TransactionOutputRow.outputIndex ↔
        ∃ o ∈ tables.outputs.rows, o.txSeq = t.txSeq ∧ o.outputIndex = j := by
    rw [List.mem_map]
    refine exists_congr fun o => ?_
    rw [Table.select, List.mem_filter, decide_eq_true_iff, and_assoc]
  unfold extraOutputs
  dsimp only
  split
  · rename_i lacking
    obtain ⟨j, kept, missing⟩ := lacking
    refine iff_of_false List.not_mem_nil fun stored => missing ?_
    exact (isIndex j).mpr (stored.1 j kept)
  · rename_i all
    rw [List.mem_filter, isIndex, decide_eq_true_iff]
    refine ⟨fun extra => ⟨fun j kept => ?_, extra⟩, fun extra => extra.2⟩
    by_contra missing
    exact all ⟨j, kept, fun stored => missing ((isIndex j).mp stored)⟩

/-- Outputs that were dropped are not there to be dropped. -/
theorem extraOutputs_dropOutputs {filled : LineTables} (outputs : filled.outputs = tables.outputs) :
    extraOutputs (filled.dropOutputs t.txSeq (extraOutputs tables t)) t = [] := by
  have older : ∀ o ∈ (filled.dropOutputs t.txSeq (extraOutputs tables t)).outputs.rows,
      o ∈ tables.outputs.rows := fun o isOutput => outputs ▸ (Table.mem_delete.mp isOutput).1
  refine List.eq_nil_iff_forall_not_mem.mpr fun i extra => ?_
  obtain ⟨stored, ⟨o, isOutput, isSeq, isIndex⟩, unstreamed⟩ := mem_extraOutputs_iff.mp extra
  have doomed : i ∈ extraOutputs tables t := by
    refine mem_extraOutputs_iff.mpr ⟨fun j kept => ?_, ⟨o, older o isOutput, isSeq, isIndex⟩,
      unstreamed⟩
    obtain ⟨other, isOther, same⟩ := stored j kept
    exact ⟨other, older other isOther, same⟩
  exact of_decide_eq_false (Table.mem_delete.mp isOutput).2 ⟨isSeq, isIndex ▸ doomed⟩

/-- Rows to which an update adds nothing. -/
theorem updateWith_fills_eq_self (isOwn : tables.own t.txSeq = tables)
    (written : ∀ row ∈ tables.inputs.rows, ∀ fresh, t.inputs[row.inputIndex]? = some fresh →
      kind.write (missingFields row fresh) row = row) :
    updateWith kind.key_write tables.inputs ((readStoredInputs tables [t.txSeq]).fills t) =
      tables.inputs := by
  refine Table.update_eq_self _ fun row isRow _ => ?_
  rw [fillWith_fills isRow (txSeq_of_own isOwn isRow)]
  cases streamed : t.inputs[row.inputIndex]? with
  | none => rfl
  | some fresh => exact written row isRow fresh streamed

/-- The transaction of the rows is filled, and nothing is left to fill. -/
structure Complete (kind : DbKind) (tables : LineTables) (t : Transaction) : Prop where
  inLine : InLine tables t
  written : ∀ row ∈ tables.inputs.rows, ∀ fresh, t.inputs[row.inputIndex]? = some fresh →
    kind.write (missingFields row fresh) row = row

/-- The inputs of a transaction whose rows are in line, after their fill. -/
theorem complete_of_fill (isOwn : tables.own t.txSeq = tables)
    (planned : (readStoredInputs tables [t.txSeq]).plan t = .fill)
    (whole : kind.fillsInBulk = true → ∀ row ∈ tables.inputs.rows, row.OutpointWhole)
    {filled : LineTables} (inputs : filled.inputs = updateWith kind.key_write tables.inputs
      ((readStoredInputs tables [t.txSeq]).fills t)) : Complete kind filled t := by
  obtain ⟨count, lines⟩ := lines_of_plan_eq_fill isOwn planned
  refine ⟨⟨?_, fun i fresh streamed => ?_⟩, fun row isRow fresh streamed => ?_⟩
  · rw [inputs, updateWith, Table.update, List.length_map]
    exact count
  · obtain ⟨row, stored, same⟩ := lines i fresh streamed
    obtain ⟨isRow, isKey⟩ := Table.find?_eq_some_iff.mp stored
    obtain rfl : row.inputIndex = i := congrArg Prod.snd isKey
    refine ⟨_, by rw [inputs, find?_updateWith, stored, Option.map_some], ?_⟩
    rw [fillWith_fills isRow (txSeq_of_own isOwn isRow), streamed, Option.elim_some]
    exact settled_write same fun bulk => whole bulk row isRow
  · rw [inputs] at isRow
    obtain ⟨old, isOld, rfl⟩ := List.mem_map.mp isRow
    dsimp only at streamed ⊢
    have sameIndex : (fillWith kind.write ((readStoredInputs tables [t.txSeq]).fills t)
        old).inputIndex = old.inputIndex := congrArg Prod.snd (key_fillWith kind.key_write _ old)
    rw [if_pos rfl] at streamed ⊢
    rw [sameIndex] at streamed
    rw [fillWith_fills isOld (txSeq_of_own isOwn isOld), streamed, Option.elim_some]
    exact write_write kind old fresh

/-- What the rows of a rewritten transaction name, and that they miss nothing. -/
theorem mem_orderedRows {ordered : List StoredInputRow} (matched :
      List.Forall₂ StoredInputRow.Matches ordered t.inputs) {row : StoredInputRow}
    (isRow : row ∈ orderedRows t.txSeq ordered t.inputs) {fresh : TxInputLine}
    (streamed : t.inputs[row.inputIndex]? = some fresh) :
    row.Settled fresh ∧ missingFields row fresh = InputFields.empty := by
  obtain ⟨i, inside, isRow⟩ := List.mem_mapIdx.mp isRow
  obtain ⟨isOld, isStreamed⟩ : i < ordered.length ∧ i < t.inputs.length := by
    rw [List.length_zip] at inside
    omega
  subst isRow
  dsimp only at streamed ⊢
  rw [List.getElem?_eq_getElem isStreamed, Option.some_inj] at streamed
  rw [List.getElem_zip]
  subst streamed
  have same : ordered[i].Matches t.inputs[i] :=
    (List.forall₂_iff_get.mp matched).2 i isOld isStreamed
  obtain ⟨hash, index, flags⟩ := settled_set same
  exact ⟨⟨hash, index, flags⟩, missingFields_set _ _⟩

theorem complete_of_rewrite (isOwn : tables.own t.txSeq = tables) {ordered : List StoredInputRow}
    (matched : List.Forall₂ StoredInputRow.Matches ordered t.inputs) {filled : LineTables}
    (inputs : filled.inputs = (rewriteInOrder tables t.txSeq ordered t.inputs).inputs) :
    Complete kind filled t := by
  have rows : filled.inputs.rows = orderedRows t.txSeq ordered t.inputs :=
    (congrArg Table.rows inputs).trans (rows_rewriteInOrder isOwn ordered)
  have lengths := matched.length_eq
  refine ⟨⟨?_, fun i fresh streamed => ?_⟩, fun row isRow fresh streamed => ?_⟩
  · rw [rows, orderedRows, List.length_mapIdx, List.length_zip]
    omega
  · have inside : i < (orderedRows t.txSeq ordered t.inputs).length := by
      rw [orderedRows, List.length_mapIdx, List.length_zip]
      have := (List.getElem?_eq_some_iff.mp streamed).1
      omega
    have isRow := List.getElem_mem inside
    have isKey : (orderedRows t.txSeq ordered t.inputs)[i].key = (t.txSeq, i) := by
      simp [orderedRows, StoredInputRow.key]
    have isIndex : (orderedRows t.txSeq ordered t.inputs)[i].inputIndex = i :=
      congrArg Prod.snd isKey
    refine ⟨_, Table.find?_eq_some_iff.mpr ⟨rows.symm ▸ isRow, isKey⟩, ?_⟩
    exact (mem_orderedRows matched isRow ((congrArg (t.inputs[·]?) isIndex).trans streamed)).1
  · rw [rows] at isRow
    rw [(mem_orderedRows matched isRow streamed).2]
    exact InputFields.write_empty kind row

/-- What is missing at a position, in one expression. -/
theorem missingAt_own (fresh : TxInputLine) (i : Nat) :
    (readStoredInputs tables [t.txSeq]).missingAt t.txSeq (fresh, i) =
      (tables.inputs.find? (t.txSeq, i)).elim InputFields.empty fun row =>
        missingFields row fresh := by
  rw [StoredInputs.missingAt, (readStoredInputs_lookups (List.mem_singleton_self _) _).1]
  cases tables.inputs.find? (t.txSeq, i) <;> rfl

/-- An address that is missing after a fill was missing before it. -/
theorem address_missing_of_fill {filled : LineTables} (inputs : filled.inputs =
      updateWith kind.key_write tables.inputs ((readStoredInputs tables [t.txSeq]).fills t))
    {fresh : TxInputLine} {i : Nat} (streamed : t.inputs[i]? = some fresh)
    (again : ((readStoredInputs filled [t.txSeq]).missingAt t.txSeq (fresh, i)).address.isSome =
      true) :
    ((readStoredInputs tables [t.txSeq]).missingAt t.txSeq (fresh, i)).address.isSome = true := by
  rw [missingAt_own, inputs, find?_updateWith] at again
  rw [missingAt_own]
  cases stored : tables.inputs.find? (t.txSeq, i) with
  | none =>
      rw [stored] at again
      cases again
  | some row =>
      obtain ⟨isRow, isKey⟩ := Table.find?_eq_some_iff.mp stored
      obtain rfl : row.inputIndex = i := congrArg Prod.snd isKey
      rw [stored, Option.map_some, Option.elim_some, fillWith_fills isRow (congrArg Prod.fst isKey),
        streamed, Option.elim_some] at again
      rw [Option.elim_some]
      exact address_missing_of_write again

/-- A rewritten transaction misses no address. -/
theorem filledAssets_of_rewrite (isOwn : tables.own t.txSeq = tables)
    {ordered : List StoredInputRow}
    (matched : List.Forall₂ StoredInputRow.Matches ordered t.inputs) {filled : LineTables}
    (inputs : filled.inputs = (rewriteInOrder tables t.txSeq ordered t.inputs).inputs) :
    (readStoredInputs filled [t.txSeq]).filledAssets t = [] := by
  rw [StoredInputs.filledAssets, List.flatMap_eq_nil_iff]
  rintro ⟨fresh, i⟩ isEntry
  have streamed := List.mem_zipIdx_iff_getElem?.mp isEntry
  refine if_neg fun resolves => ?_
  rw [missingAt_own] at resolves
  cases stored : filled.inputs.find? (t.txSeq, i) with
  | none =>
      rw [stored] at resolves
      cases resolves
  | some row =>
      obtain ⟨isRow, isKey⟩ := Table.find?_eq_some_iff.mp stored
      obtain rfl : row.inputIndex = i := congrArg Prod.snd isKey
      rw [inputs, rows_rewriteInOrder isOwn ordered] at isRow
      rw [stored, Option.elim_some, (mem_orderedRows matched isRow streamed).2] at resolves
      cases resolves

/-- A complete transaction keeps its inputs and its outputs, and its assets where no address is
left to fill. -/
theorem sameLines_of_complete (isOwn : tables.own t.txSeq = tables)
    (complete : Complete kind tables t) (noExtra : extraOutputs tables t = [])
    (assets : ∀ k, (tables.inputAssets.upsertAll
      ((readStoredInputs tables [t.txSeq]).filledAssets t)).find? k = tables.inputAssets.find? k) :
    SameLines (backfillOwn kind tables t) tables := by
  unfold backfillOwn
  dsimp only
  rw [complete.inLine.plan isOwn, noExtra, dropOutputs_nil]
  exact ⟨updateWith_fills_eq_self isOwn complete.written, assets, rfl, rfl⟩

/-- A second backfill of a transaction changes nothing. -/
theorem backfillOwn_again (isOwn : tables.own t.txSeq = tables)
    (whole : kind.fillsInBulk = true → ∀ row ∈ tables.inputs.rows, row.OutpointWhole) :
    SameLines (backfillOwn kind (backfillOwn kind tables t) t) (backfillOwn kind tables t) := by
  have isOwnAfter := @own_backfillOwn kind tables t isOwn
  cases planned : (readStoredInputs tables [t.txSeq]).plan t with
  | fill =>
      rw [backfillOwn_of_fill planned] at isOwnAfter ⊢
      refine sameLines_of_complete isOwnAfter (complete_of_fill isOwn planned whole rfl)
        (extraOutputs_dropOutputs rfl) fun k => ?_
      exact find?_upsertAll_filledAssets tables.inputAssets
        (fun i fresh streamed again => address_missing_of_fill rfl streamed again) k
  | rewrite ordered =>
      obtain ⟨-, matched⟩ := plan_eq_rewrite planned
      rw [backfillOwn_of_rewrite planned] at isOwnAfter ⊢
      refine sameLines_of_complete isOwnAfter (complete_of_rewrite isOwn matched rfl)
        (extraOutputs_dropOutputs rfl) fun k => ?_
      have filled := @filledAssets_of_rewrite tables t isOwn ordered matched
        ((rewriteInOrder tables t.txSeq ordered t.inputs).dropOutputs t.txSeq
          (extraOutputs tables t)) rfl
      rw [filled, Table.upsertAll_nil]
  | skip =>
      have plannedAgain : (readStoredInputs (tables.dropOutputs t.txSeq (extraOutputs tables t))
          [t.txSeq]).plan t = .skip := planned
      rw [backfillOwn_of_skip planned, backfillOwn_of_skip plannedAgain,
        extraOutputs_dropOutputs rfl, dropOutputs_nil]
      exact ⟨rfl, fun _ => rfl, rfl, rfl⟩

end Own

/-! ## Two runs -/

/-- Once a run has returned, a second run over the same transactions leaves the inputs and outputs
of every transaction as they are, whatever the batches of the two runs were. -/
theorem backfillTransactions_again {kind : DbKind} {tables : BackfillTables}
    {resolveInputs resolveAgain : InputResolver} {hasBackend hasBackendAgain : Bool}
    {fromSlot toSlot fromAgain toAgain : Int} {batchBlocks batchAgain : Option Int}
    {db dbAgain : Db} {messages messagesAgain : List NodeMessage}
    {result resultAgain : TransactionBackfillResult}
    {stream streamAgain : BlockStream (List Transaction) TransactionBackfill}
    (returned : backfillTransactions kind resolveInputs hasBackend fromSlot toSlot batchBlocks db
      tables messages = some (.ok (result, stream)))
    (once : (stream.store.versions.flatten.map Transaction.txSeq).Nodup)
    (whole : kind.fillsInBulk = true → ∀ row ∈ tables.lines.inputs.rows, row.OutpointWhole)
    (returnedAgain : backfillTransactions kind resolveAgain hasBackendAgain fromAgain toAgain
      batchAgain dbAgain stream.store.tables messagesAgain = some (.ok (resultAgain, streamAgain)))
    (same : streamAgain.store.versions.flatten.Perm stream.store.versions.flatten) (seq : Nat) :
    SameLines (streamAgain.store.tables.lines.own seq) (stream.store.tables.lines.own seq) := by
  have onceAgain : (streamAgain.store.versions.flatten.map Transaction.txSeq).Nodup :=
    (same.map Transaction.txSeq).nodup_iff.mpr once
  obtain ⟨listedAgain, unlistedAgain⟩ := backfillTransactions_own returnedAgain onceAgain
  by_cases listed : seq ∈ stream.store.versions.flatten.map Transaction.txSeq
  · obtain ⟨t, isListed, rfl⟩ := List.mem_map.mp listed
    rw [listedAgain t (same.mem_iff.mpr isListed),
      (backfillTransactions_own returned once).1 t isListed]
    refine backfillOwn_again (own_own _ _) fun bulk row isRow => whole bulk row ?_
    exact (Table.mem_only.mp isRow).1
  · rw [unlistedAgain seq fun again => listed ((same.map Transaction.txSeq).mem_iff.mp again)]
    exact ⟨rfl, fun _ => rfl, rfl, rfl⟩

/-- The second run has both blocks in one batch. -/
theorem backfillTransactions_again_sample :
    ∃ result stream resultAgain streamAgain,
      backfillTransactions .sqlite streamedInputs true 25 35 (some 1) storedBlocksDb indexedTables
        streamedMessages = some (.ok (result, stream)) ∧
      backfillTransactions .sqlite streamedInputs true 25 35 none storedBlocksDb stream.store.tables
        streamedMessages = some (.ok (resultAgain, streamAgain)) ∧
      SameLines (streamAgain.store.tables.lines.own swappedTx.txSeq)
        (stream.store.tables.lines.own swappedTx.txSeq) := by
  obtain ⟨result, stream, returned, versions⟩ := streamed_runs .sqlite indexedTables
  obtain ⟨resultAgain, streamAgain, returnedAgain, versionsAgain⟩ :=
    streamed_runs_at_once .sqlite stream.store.tables
  have once : (stream.store.versions.flatten.map Transaction.txSeq).Nodup := by
    rw [versions]
    exact streamed_once
  have whole : ∀ row ∈ indexedTables.lines.inputs.rows, row.OutpointWhole := by
    decide
  have same : streamAgain.store.versions.flatten.Perm stream.store.versions.flatten := by
    rw [versions, versionsAgain]
    exact .refl _
  exact ⟨result, stream, resultAgain, streamAgain, returned, returnedAgain,
    backfillTransactions_again returned once (fun _ => whole) returnedAgain same _⟩

end Odatano
