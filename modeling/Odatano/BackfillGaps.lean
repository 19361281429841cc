import Odatano.BackfillRuns

/-!
# What the transaction backfill fills

Filling keeps what a stored input holds, rewriting moves each input together with its assets, and
what is dropped is either a regular input of a failed script or an output that the stream does not
have.
-/

namespace Odatano

/-! ## One input -/

/-- A column that holds a value keeps it. -/
def Keeps {α : Type} (old column : Option α) : Prop := ∀ value, old = some value → column = some value

theorem Keeps.rfl {α : Type} {column : Option α} : Keeps column column := fun _ => id

theorem keeps_fillNull_or {α : Type} (old fresh : Option α) :
    Keeps old ((fillNull old fresh).or old) := by
  rintro value rfl
  rfl

theorem keeps_or {α : Type} (old fresh : Option α) : Keeps old (old.or fresh) := by
  rintro value rfl
  rfl

/-- A stored input holds what it held, and where its address was known also the flags beside it. -/
structure StoredInputRow.FilledTo (old row : StoredInputRow) : Prop where
  spentTxHash : Keeps old.spentTxHash row.spentTxHash
  spentOutputIndex : old.spentTxHash ≠ none → row.spentOutputIndex = old.spentOutputIndex
  dataHash : Keeps old.utxoData.dataHash row.utxoData.dataHash
  inlineDatum : Keeps old.utxoData.inlineDatum row.utxoData.inlineDatum
  referenceScriptHash : Keeps old.utxoData.referenceScriptHash row.utxoData.referenceScriptHash
  referenceScriptSize : Keeps old.utxoData.referenceScriptSize row.utxoData.referenceScriptSize
  referenceScriptType : Keeps old.utxoData.referenceScriptType row.utxoData.referenceScriptType
  resolved : ∀ address, old.address? = some address →
    row.address = some address ∧ row.hasAddresses = old.hasAddresses ∧ row.hasAssets = old.hasAssets
  paymentCredential : row.paymentCredential = old.paymentCredential
  flags : row.isCollateral = old.isCollateral ∧ row.isReference = old.isReference

namespace StoredInputRow.FilledTo

variable {old row : StoredInputRow} {fresh : TxInputLine}

theorem address_eq {address : Address} (known : old.address? = some address) :
    old.address = some address :=
  (Option.filter_eq_some_iff.mp known).1

protected theorem refl (row : StoredInputRow) : row.FilledTo row where
  spentTxHash := .rfl
  spentOutputIndex _ := rfl
  dataHash := .rfl
  inlineDatum := .rfl
  referenceScriptHash := .rfl
  referenceScriptSize := .rfl
  referenceScriptType := .rfl
  resolved _ known := ⟨address_eq known, rfl, rfl⟩
  paymentCredential := rfl
  flags := ⟨rfl, rfl⟩

/-- A row by row update. -/
theorem set (old : StoredInputRow) (fresh : TxInputLine) :
    old.FilledTo ((missingFields old fresh).set old) where
  spentTxHash := by
    intro hash stored
    simp [InputFields.set, missingFields, stored]
  spentOutputIndex := by
    intro stored
    obtain ⟨hash, stored⟩ := Option.ne_none_iff_exists'.mp stored
    simp [InputFields.set, missingFields, stored]
  dataHash := keeps_fillNull_or _ _
  inlineDatum := keeps_fillNull_or _ _
  referenceScriptHash := keeps_fillNull_or _ _
  referenceScriptSize := keeps_fillNull_or _ _
  referenceScriptType := keeps_fillNull_or _ _
  resolved := by
    intro address known
    simp [InputFields.set, missingFields, known, address_eq known]
  paymentCredential := rfl
  flags := ⟨rfl, rfl⟩

/-- A bulk update. -/
theorem coalesce (old : StoredInputRow) (fresh : TxInputLine) :
    old.FilledTo ((missingFields old fresh).coalesce old) where
  spentTxHash := keeps_or _ _
  spentOutputIndex := by
    intro stored
    obtain ⟨hash, stored⟩ := Option.ne_none_iff_exists'.mp stored
    simp [InputFields.coalesce, missingFields, stored]
  dataHash := keeps_or _ _
  inlineDatum := keeps_or _ _
  referenceScriptHash := keeps_or _ _
  referenceScriptSize := keeps_or _ _
  referenceScriptType := keeps_or _ _
  resolved := by
    intro address known
    simp [InputFields.coalesce, missingFields, known, address_eq known]
  paymentCredential := rfl
  flags := ⟨rfl, rfl⟩

theorem write (kind : DbKind) (old : StoredInputRow) (fresh : TxInputLine) :
    old.FilledTo (kind.write (missingFields old fresh) old) := by
  unfold DbKind.write
  split
  · exact coalesce old fresh
  · exact set old fresh

/-- A row that is moved. -/
theorem moved (filled : old.FilledTo row) (seq index : Nat) :
    old.FilledTo { row with txSeq := seq, inputIndex := index } :=
  { filled with }

end StoredInputRow.FilledTo

/-! ## The plan of a transaction -/

/-- A stored and a streamed input with the same flags, and with the same output where one is
stored. -/
structure StoredInputRow.Matches (row : StoredInputRow) (fresh : TxInputLine) : Prop where
  collateral : row.collateral = fresh.isCollateral
  reference : row.reference = fresh.isReference
  outpoint : ∀ hash, row.spentTxHash = some hash →
    hash = fresh.txHash ∧ row.spentOutputIndex.getD 0 = fresh.outputIndex

theorem matches_of_sameInput {row : StoredInputRow} {fresh : TxInputLine} {stored : Option Int}
    (same : sameInput row fresh stored = true) : row.Matches fresh := by
  unfold sameInput at same
  split at same
  · cases same
  · rename_i flags
    rw [not_or, not_not, not_not] at flags
    refine ⟨flags.1, flags.2, fun hash isStored => ?_⟩
    rw [isStored] at same
    exact of_decide_eq_true same

theorem matches_of_hasOutpointOf {row : StoredInputRow} {fresh : TxInputLine}
    (same : row.hasOutpointOf fresh = true) : row.Matches fresh := by
  obtain ⟨isHash, isIndex, collateral, reference⟩ := of_decide_eq_true same
  refine ⟨collateral, reference, fun hash isStored => ⟨?_, isIndex⟩⟩
  exact Option.some.inj (isStored.symm.trans isHash)

/-- Taking rows by outpoint takes each row once. -/
theorem takeByOutpoint_eq_some {rows ordered : List StoredInputRow} {fresh : List TxInputLine}
    (taken : takeByOutpoint rows fresh = some ordered) :
    (∃ rest, rows.Perm (ordered ++ rest)) ∧ List.Forall₂ StoredInputRow.Matches ordered fresh := by
  induction fresh generalizing rows ordered with
  | nil =>
      cases taken
      exact ⟨⟨rows, .refl _⟩, .nil⟩
  | cons f fresh ih =>
      rw [takeByOutpoint] at taken
      cases found : rows.find? (·.hasOutpointOf f) with
      | none =>
          rw [found] at taken
          cases taken
      | some r =>
          rw [found] at taken
          obtain ⟨later, isLater, rfl⟩ := Option.map_eq_some_iff.mp taken
          obtain ⟨⟨rest, others⟩, matched⟩ := ih isLater
          have isRow := List.mem_of_find?_eq_some found
          exact ⟨⟨rest, (List.perm_cons_erase isRow).trans (others.cons r)⟩,
            .cons (matches_of_hasOutpointOf (List.find?_some found :)) matched⟩

theorem reorderByOutpoint_eq_some {rows ordered : List StoredInputRow} {fresh : List TxInputLine}
    (reordered : reorderByOutpoint rows fresh = some ordered) :
    ordered.Perm rows ∧ List.Forall₂ StoredInputRow.Matches ordered fresh := by
  unfold reorderByOutpoint at reordered
  split at reordered
  · cases reordered
  · rename_i whole
    obtain ⟨⟨rest, taken⟩, matched⟩ := takeByOutpoint_eq_some reordered
    have none : rest = [] := by
      have lengths := taken.length_eq
      have same := matched.length_eq
      rw [List.length_append] at lengths
      exact List.length_eq_zero_iff.mp (by omega)
    rw [none, List.append_nil] at taken
    exact ⟨taken.symm, matched⟩

/-- A rewrite puts the rows that the ledger has in the order of the stream. -/
theorem plan_eq_rewrite {read : StoredInputs} {t : Transaction} {ordered : List StoredInputRow}
    (planned : read.plan t = .rewrite ordered) :
    ordered.Perm (keptInputs t (read.rowsOf t.txSeq)) ∧
      List.Forall₂ StoredInputRow.Matches ordered t.inputs := by
  unfold StoredInputs.plan at planned
  split at planned
  · cases planned
  · dsimp only at planned
    split at planned
    · rename_i inPlace
      cases planned
      obtain ⟨length, all⟩ := Bool.and_eq_true_iff.mp inPlace
      refine ⟨.refl _, List.forall₂_iff_zip.mpr ⟨of_decide_eq_true length, fun isPair => ?_⟩⟩
      exact matches_of_sameInput (List.all_eq_true.mp all _ isPair)
    · split at planned
      · rename_i reordered
        cases planned
        exact reorderByOutpoint_eq_some reordered
      · cases planned

/-- What is kept is stored; what is not is a regular input of a failed script. -/
theorem mem_keptInputs {t : Transaction} {rows : List StoredInputRow} {row : StoredInputRow} :
    row ∈ keptInputs t rows ↔ row ∈ rows ∧
      ¬ (t.phase2Failed = true ∧ row.collateral = false ∧ row.reference = false) := by
  unfold keptInputs
  dsimp only
  split
  · rename_i failed
    rw [List.mem_filter, List.mem_mergeSort]
    refine and_congr_right fun _ => ?_
    cases row.collateral <;> cases row.reference <;> simp [failed]
  · rename_i applied
    rw [List.mem_mergeSort]
    exact ⟨fun isRow => ⟨isRow, fun dropped => applied dropped.1⟩, And.left⟩

theorem keptInputs_subperm (t : Transaction) (rows : List StoredInputRow) :
    (keptInputs t rows).Subperm rows := by
  unfold keptInputs
  dsimp only
  split
  · exact List.filter_sublist.subperm.trans (List.mergeSort_perm _ _).subperm
  · exact (List.mergeSort_perm _ _).subperm

/-! ## The rows of a transaction -/

theorem own_own (tables : LineTables) (seq : Nat) : (tables.own seq).own seq = tables.own seq := by
  unfold LineTables.own
  simp only [Table.only_only]

section Own

variable {kind : DbKind} {tables : LineTables} {t : Transaction}

theorem InputFields.write_empty (kind : DbKind) (row : StoredInputRow) :
    kind.write InputFields.empty row = row := by
  unfold DbKind.write
  split
  · simp [InputFields.coalesce, InputFields.empty]
  · simp [InputFields.set, InputFields.empty]

/-- A fill writes what the streamed input at the position of a row has and the row misses. -/
theorem fillWith_fills {row : StoredInputRow} (isRow : row ∈ tables.inputs.rows)
    (isSeq : row.txSeq = t.txSeq) :
    fillWith kind.write ((readStoredInputs tables [t.txSeq]).fills t) row =
      (t.inputs[row.inputIndex]?).elim row fun fresh => kind.write (missingFields row fresh) row := by
  have isKey : row.key = (t.txSeq, row.inputIndex) := by rw [← isSeq]; rfl
  have missing (fresh : TxInputLine) :
      (readStoredInputs tables [t.txSeq]).missingAt t.txSeq (fresh, row.inputIndex) =
        missingFields row fresh := by
    rw [StoredInputs.missingAt, (readStoredInputs_lookups (List.mem_singleton_self _) _).1, ← isKey,
      Table.find?_of_mem isRow]
  unfold fillWith
  cases found : ((readStoredInputs tables [t.txSeq]).fills t).find? fun fill =>
      decide (fill.key = row.key) with
  | some fill =>
      obtain ⟨isEntry, -⟩ := List.mem_filter.mp (List.mem_of_find?_eq_some found)
      obtain ⟨⟨fresh, i⟩, entry, rfl⟩ := List.mem_map.mp isEntry
      have same : (t.txSeq, i) = row.key := of_decide_eq_true (List.find?_some found :)
      rw [isKey] at same
      cases same
      rw [List.mem_zipIdx_iff_getElem?.mp entry, Option.elim_some]
      exact congrArg (fun fields => kind.write fields row) (missing fresh)
  | none =>
      cases isFresh : t.inputs[row.inputIndex]? with
      | none => rfl
      | some fresh =>
          have nothing : missingFields row fresh = InputFields.empty := by
            by_contra some
            refine List.find?_eq_none.mp found ⟨t.txSeq, row.inputIndex, missingFields row fresh⟩ ?_
              (decide_eq_true isKey.symm)
            refine List.mem_filter.mpr ⟨List.mem_map.mpr ⟨(fresh, row.inputIndex), ?_, ?_⟩,
              decide_eq_true some⟩
            · exact List.mem_zipIdx_iff_getElem?.mpr isFresh
            · rw [missing]
          rw [Option.elim_some, nothing, InputFields.write_empty]

theorem txSeq_of_own (isOwn : tables.own t.txSeq = tables) {row : StoredInputRow}
    (isRow : row ∈ tables.inputs.rows) : row.txSeq = t.txSeq := by
  rw [← isOwn] at isRow
  exact of_decide_eq_true (Table.mem_only.mp isRow).2

theorem rowsOf_own (isOwn : tables.own t.txSeq = tables) :
    (readStoredInputs tables [t.txSeq]).rowsOf t.txSeq = tables.inputs.rows := by
  rw [readStoredInputs_rowsOf (List.nodup_singleton _) (List.mem_singleton_self _), Table.select,
    List.filter_eq_self]
  exact fun row isRow => decide_eq_true (txSeq_of_own isOwn isRow)

/-- The rows of a rewrite have the positions in the stream as keys. -/
theorem keys_orderedRows (seq : Nat) (ordered : List StoredInputRow) (fresh : List TxInputLine) :
    (orderedRows seq ordered fresh).map StoredInputRow.key =
      (List.range (ordered.zip fresh).length).map fun i => (seq, i) := by
  apply List.ext_getElem
  · rw [List.length_map, List.length_map, List.length_range, orderedRows, List.length_mapIdx]
  · intro i _ _
    rw [List.getElem_map, List.getElem_map, List.getElem_range]
    simp only [orderedRows, List.getElem_mapIdx]
    rfl

theorem rows_rewriteInOrder (isOwn : tables.own t.txSeq = tables) (ordered : List StoredInputRow) :
    (rewriteInOrder tables t.txSeq ordered t.inputs).inputs.rows =
      orderedRows t.txSeq ordered t.inputs := by
  have gone : tables.inputs.delete (fun row => decide (row.txSeq = t.txSeq)) = Table.empty := by
    apply Table.ext
    refine List.filter_eq_nil_iff.mpr fun row isRow => ?_
    simp [txSeq_of_own isOwn isRow]
  rw [rewriteInOrder]
  dsimp only
  rw [gone, Table.rows_upsertAll_of_new]
  · rfl
  · rw [keys_orderedRows]
    exact List.Nodup.map (fun _ _ same => congrArg Prod.snd same) List.nodup_range
  · exact fun _ _ => List.not_mem_nil

/-! ## The assets of a rewrite -/

/-- Stored rows of one transaction, each at most once, have different positions. -/
theorem nodup_inputIndex (isOwn : tables.own t.txSeq = tables) {ordered : List StoredInputRow}
    (stored : ordered.Subperm tables.inputs.rows) :
    (ordered.map StoredInputRow.inputIndex).Nodup := by
  have keys : (ordered.map StoredInputRow.key).Nodup := by
    obtain ⟨same, isPerm, isSublist⟩ := stored
    exact ((isPerm.map StoredInputRow.key).nodup_iff).mp
      (tables.inputs.keys_nodup.sublist (isSublist.map StoredInputRow.key))
  refine List.Nodup.of_map (fun i => (t.txSeq, i)) ?_
  rw [List.map_map]
  convert keys using 1
  refine List.map_congr_left fun row isRow => ?_
  rw [Function.comp_apply, ← txSeq_of_own isOwn (stored.subset isRow)]
  rfl

theorem newIndex_eq_some_iff {ordered : List StoredInputRow}
    (once : (ordered.map StoredInputRow.inputIndex).Nodup) {index i : Nat} :
    newIndex ordered index = some i ↔ ordered[i]?.map StoredInputRow.inputIndex = some index := by
  rw [newIndex, List.findIdx?_eq_some_iff_getElem]
  constructor
  · rintro ⟨inside, isIndex, -⟩
    rw [List.getElem?_eq_getElem inside, Option.map_some, of_decide_eq_true isIndex]
  · intro found
    obtain ⟨row, isRow, rfl⟩ := Option.map_eq_some_iff.mp found
    obtain ⟨inside, rfl⟩ := List.getElem?_eq_some_iff.mp isRow
    refine ⟨inside, decide_eq_true rfl, fun j before same => ?_⟩
    have first : j < (ordered.map StoredInputRow.inputIndex).length := by
      rw [List.length_map]
      omega
    have second : i < (ordered.map StoredInputRow.inputIndex).length := by
      rw [List.length_map]
      omega
    have alike : (ordered.map StoredInputRow.inputIndex)[j] =
        (ordered.map StoredInputRow.inputIndex)[i] := by
      rw [List.getElem_map, List.getElem_map]
      exact of_decide_eq_true same
    exact before.ne ((List.Nodup.getElem_inj_iff once).mp alike)

theorem lineAssets_of_own (isOwn : tables.own t.txSeq = tables) {a : LineAssetRow}
    (isAsset : a ∈ tables.inputAssets.rows) : a.txSeq = t.txSeq := by
  rw [← isOwn] at isAsset
  exact of_decide_eq_true (Table.mem_only.mp isAsset).2

theorem getLast?_filter_key {κ ρ : Type*} [DecidableEq κ] {key : ρ → κ} (table : Table key) (k : κ) :
    (table.rows.filter fun row => decide (key row = k)).getLast? = table.find? k := by
  have same : (Table.empty : Table key).upsertAll table.rows = table := by
    apply Table.ext
    rw [Table.rows_upsertAll_of_new _ table.keys_nodup fun _ _ => List.not_mem_nil]
    rfl
  have last := Table.find?_upsertAll_last (Table.empty : Table key) table.rows k
  rw [same] at last
  exact (last.trans (Option.or_none ..)).symm

/-- The assets of an input move with it. -/
theorem find?_rewriteInOrder (isOwn : tables.own t.txSeq = tables) {ordered : List StoredInputRow}
    (stored : ordered.Subperm tables.inputs.rows) {i : Nat} {old : StoredInputRow}
    (isOld : ordered[i]? = some old) (unit : AssetUnit) :
    (rewriteInOrder tables t.txSeq ordered t.inputs).inputAssets.find? ((t.txSeq, i), unit) =
      (tables.inputAssets.find? ((t.txSeq, old.inputIndex), unit)).map (·.moveTo i) := by
  have once := nodup_inputIndex isOwn stored
  have gone : tables.inputAssets.delete (fun a => decide (a.txSeq = t.txSeq)) = Table.empty := by
    apply Table.ext
    refine List.filter_eq_nil_iff.mpr fun a isAsset => ?_
    simp [lineAssets_of_own isOwn isAsset]
  have all : (tables.inputAssets.select fun a => decide (a.txSeq = t.txSeq)) =
      tables.inputAssets.rows :=
    List.filter_eq_self.mpr fun a isAsset => decide_eq_true (lineAssets_of_own isOwn isAsset)
  rw [rewriteInOrder]
  dsimp only
  rw [gone, all, Table.find?_upsertAll_last, ← getLast?_filter_key tables.inputAssets,
    ← List.getLast?_map]
  have moved : (tables.inputAssets.rows.filterMap fun a =>
      (newIndex ordered a.lineIndex).map a.moveTo).filter
        (fun a => decide (a.key = ((t.txSeq, i), unit))) =
      (tables.inputAssets.rows.filter fun a =>
        decide (a.key = ((t.txSeq, old.inputIndex), unit))).map (·.moveTo i) := by
    have owned : ∀ a ∈ tables.inputAssets.rows, a.txSeq = t.txSeq := fun a isAsset =>
      lineAssets_of_own isOwn isAsset
    generalize tables.inputAssets.rows = assets at owned
    induction assets with
    | nil => rfl
    | cons a assets ih =>
        have isSeq := owned a List.mem_cons_self
        have later := ih fun other isOther => owned other (List.mem_cons_of_mem _ isOther)
        have here : newIndex ordered a.lineIndex = some i ↔ a.lineIndex = old.inputIndex := by
          rw [newIndex_eq_some_iff once, isOld, Option.map_some, Option.some_inj, eq_comm]
        rw [List.filterMap_cons, List.filter_cons]
        cases moves : newIndex ordered a.lineIndex with
        | none =>
            have elsewhere : a.lineIndex ≠ old.inputIndex := fun same => by
              rw [here.mpr same] at moves
              cases moves
            rw [Option.map_none, if_neg (by simp [LineAssetRow.key, elsewhere])]
            exact later
        | some j =>
            rw [Option.map_some]
            dsimp only
            rw [List.filter_cons, later]
            by_cases isUnit : a.unit = unit
            · by_cases isHere : a.lineIndex = old.inputIndex
              · obtain rfl := Option.some.inj (moves.symm.trans (here.mpr isHere))
                rw [if_pos (by simp [LineAssetRow.key, LineAssetRow.moveTo, isSeq, isUnit]),
                  if_pos (by simp [LineAssetRow.key, isSeq, isHere, isUnit]), List.map_cons]
              · have apart : j ≠ i := fun same => isHere (here.mp (same ▸ moves))
                rw [if_neg (by simp [LineAssetRow.key, LineAssetRow.moveTo, apart]),
                  if_neg (by simp [LineAssetRow.key, isHere])]
            · rw [if_neg (by simp [LineAssetRow.key, LineAssetRow.moveTo, isUnit]),
                if_neg (by simp [LineAssetRow.key, isUnit])]
  rw [moved]
  exact Option.or_none ..

/-! ## What a backfill leaves -/

/-- A stored input and what became of it: it holds what it held, and an input whose address was
known has the same assets. -/
structure CarriedTo (before after : LineTables) (seq : Nat) (old row : StoredInputRow) : Prop where
  filled : old.FilledTo row
  assets : old.address? ≠ none → ∀ unit,
    after.inputAssets.find? ((seq, row.inputIndex), unit) =
      (before.inputAssets.find? ((seq, old.inputIndex), unit)).map (·.moveTo row.inputIndex)

/-- The rows of a transaction after its backfill, and the stored rows they come from. -/
structure FillsGaps (before after : LineTables) (t : Transaction)
    (sources : List StoredInputRow) : Prop where
  /-- No stored input is used twice. -/
  stored : sources.Subperm before.inputs.rows
  carried : List.Forall₂ (CarriedTo before after t.txSeq) sources after.inputs.rows
  /-- Only regular inputs of a failed script are dropped. -/
  dropped : ∀ row ∈ before.inputs.rows, row ∉ sources →
    t.phase2Failed = true ∧ row.collateral = false ∧ row.reference = false
  /-- Only outputs that the stream does not have are dropped, and none is added. -/
  outputs : ∀ o, o ∈ after.outputs.rows → o ∈ before.outputs.rows
  unstreamed : ∀ o ∈ before.outputs.rows, o ∉ after.outputs.rows →
    o.outputIndex ∉ t.outputs.map TxOutputLine.outputIndex

theorem mem_extraOutputs {i : Nat} (extra : i ∈ extraOutputs tables t) :
    i ∉ t.outputs.map TxOutputLine.outputIndex := by
  unfold extraOutputs at extra
  dsimp only at extra
  split at extra
  · cases extra
  · exact of_decide_eq_true (List.mem_filter.mp extra).2

/-- Dropping outputs concerns outputs alone. -/
theorem fillsGaps_dropOutputs {filled : LineTables} {sources : List StoredInputRow}
    (stored : sources.Subperm tables.inputs.rows)
    (carried : List.Forall₂ (CarriedTo tables filled t.txSeq) sources filled.inputs.rows)
    (dropped : ∀ row ∈ tables.inputs.rows, row ∉ sources →
      t.phase2Failed = true ∧ row.collateral = false ∧ row.reference = false)
    (outputs : filled.outputs = tables.outputs) :
    FillsGaps tables (filled.dropOutputs t.txSeq (extraOutputs tables t)) t sources where
  stored := stored
  carried := carried.imp fun old row carried => ⟨carried.filled, carried.assets⟩
  dropped := dropped
  outputs o isOutput := outputs ▸ (Table.mem_delete.mp isOutput).1
  unstreamed o isOutput gone := by
    by_contra streamed
    refine gone (Table.mem_delete.mpr ⟨outputs ▸ isOutput, decide_eq_false fun doomed => ?_⟩)
    exact mem_extraOutputs doomed.2 streamed

theorem LineAssetRow.moveTo_self (a : LineAssetRow) : a.moveTo a.lineIndex = a := rfl

/-- Assets at a position stay there. -/
theorem map_moveTo_find? (seq index : Nat) (unit : AssetUnit) :
    (tables.inputAssets.find? ((seq, index), unit)).map (·.moveTo index) =
      tables.inputAssets.find? ((seq, index), unit) := by
  cases found : tables.inputAssets.find? ((seq, index), unit) with
  | none => rfl
  | some a =>
      have isLine : a.lineIndex = index := congrArg (fun k => k.1.2) (Table.key_of_find? found)
      rw [Option.map_some, ← isLine, LineAssetRow.moveTo_self]

/-- The rows in line with the stream are filled in place. -/
theorem carried_fill (isOwn : tables.own t.txSeq = tables) {row : StoredInputRow}
    (isRow : row ∈ tables.inputs.rows) :
    CarriedTo tables { tables with
        inputs := updateWith kind.key_write tables.inputs
          ((readStoredInputs tables [t.txSeq]).fills t)
        inputAssets := tables.inputAssets.upsertAll
          ((readStoredInputs tables [t.txSeq]).filledAssets t) } t.txSeq row
      (fillWith kind.write ((readStoredInputs tables [t.txSeq]).fills t) row) := by
  have isSeq := txSeq_of_own isOwn isRow
  have sameIndex : (fillWith kind.write ((readStoredInputs tables [t.txSeq]).fills t)
      row).inputIndex = row.inputIndex :=
    congrArg Prod.snd (key_fillWith kind.key_write _ row)
  refine ⟨?_, fun known unit => ?_⟩
  · rw [fillWith_fills isRow isSeq]
    cases t.inputs[row.inputIndex]? with
    | none => exact .refl row
    | some fresh => exact .write kind row fresh
  · rw [sameIndex]
    dsimp only
    rw [map_moveTo_find?, Table.find?_upsertAll_of_notMem]
    · intro filled
      obtain ⟨a, isAsset, isKey⟩ := List.mem_map.mp filled
      obtain ⟨⟨fresh, i⟩, -, isAsset⟩ := List.mem_flatMap.mp isAsset
      split at isAsset
      · rename_i resolves
        have isLine := of_decide_eq_true (List.mem_filter.mp isAsset).2
        have isRowLine : a.lineIndex = row.inputIndex := congrArg (fun k => k.1.2) isKey
        have isI : i = row.inputIndex := isLine.symm.trans isRowLine
        subst isI
        rw [StoredInputs.missingAt, (readStoredInputs_lookups (List.mem_singleton_self _) _).1,
          ← isSeq] at resolves
        have stored : tables.inputs.find? (row.txSeq, row.inputIndex) = some row :=
          Table.find?_of_mem isRow
        obtain ⟨address, isKnown⟩ := Option.ne_none_iff_exists'.mp known
        rw [stored] at resolves
        simp [missingFields, isKnown] at resolves
      · cases isAsset

/-- The rows in another order are rewritten in that of the stream. -/
theorem carried_rewrite (isOwn : tables.own t.txSeq = tables) {ordered : List StoredInputRow}
    (stored : ordered.Subperm tables.inputs.rows) (whole : ordered.length = t.inputs.length) :
    List.Forall₂ (CarriedTo tables (rewriteInOrder tables t.txSeq ordered t.inputs) t.txSeq) ordered
      (orderedRows t.txSeq ordered t.inputs) := by
  rw [List.forall₂_iff_get]
  refine ⟨?_, fun i isOld isRow => ?_⟩
  · rw [orderedRows, List.length_mapIdx, List.length_zip, whole, Nat.min_self]
  · have inputs : i < t.inputs.length := whole ▸ isOld
    have isMoved : (orderedRows t.txSeq ordered t.inputs).get ⟨i, isRow⟩ =
        { (missingFields ordered[i] t.inputs[i]).set ordered[i] with
          txSeq := t.txSeq, inputIndex := i } := by
      simp [orderedRows]
    rw [isMoved, List.get_eq_getElem]
    refine ⟨(StoredInputRow.FilledTo.set _ _).moved _ _, fun _ unit => ?_⟩
    exact find?_rewriteInOrder isOwn stored (List.getElem?_eq_getElem isOld) unit

theorem forall₂_map_right_self {α β : Type} {R : α → β → Prop} {rows : List α} {f : α → β}
    (related : ∀ row ∈ rows, R row (f row)) : List.Forall₂ R rows (rows.map f) :=
  List.forall₂_map_right_iff.mpr (List.forall₂_same.mpr related)

/-- A backfill of one transaction fills gaps. -/
theorem backfillOwn_fillsGaps (isOwn : tables.own t.txSeq = tables) :
    ∃ sources, FillsGaps tables (backfillOwn kind tables t) t sources := by
  unfold backfillOwn
  dsimp only
  cases planned : (readStoredInputs tables [t.txSeq]).plan t with
  | fill =>
      refine ⟨tables.inputs.rows, fillsGaps_dropOutputs (.refl _) ?_ ?_ rfl⟩
      · exact forall₂_map_right_self fun row isRow => carried_fill isOwn isRow
      · exact fun row isRow gone => absurd isRow gone
  | rewrite ordered =>
      obtain ⟨isPerm, matched⟩ := plan_eq_rewrite planned
      rw [rowsOf_own isOwn] at isPerm
      have stored := isPerm.subperm.trans (keptInputs_subperm t tables.inputs.rows)
      refine ⟨ordered, fillsGaps_dropOutputs stored ?_ ?_ rfl⟩
      · dsimp only
        rw [rows_rewriteInOrder isOwn]
        exact carried_rewrite isOwn stored matched.length_eq
      · intro row isRow gone
        by_contra kept
        exact gone (isPerm.mem_iff.mpr (mem_keptInputs.mpr ⟨isRow, kept⟩))
  | skip =>
      refine ⟨tables.inputs.rows, fillsGaps_dropOutputs (.refl _) ?_ ?_ rfl⟩
      · exact List.forall₂_same.mpr fun row _ =>
          ⟨.refl row, fun _ unit => (map_moveTo_find? _ _ unit).symm⟩
      · exact fun row isRow gone => absurd isRow gone

end Own

/-- Whatever a run streams, in whatever batches: of each transaction the stored inputs keep what
they hold, with their assets, each used at most once, and only regular inputs of failed scripts and
outputs that the stream does not have are dropped. -/
theorem backfillTransactions_fillsGaps {kind : DbKind} {tables : BackfillTables}
    {resolveInputs : InputResolver} {hasBackend : Bool} {fromSlot toSlot : Int}
    {batchBlocks : Option Int} {db : Db} {messages : List NodeMessage}
    {result : TransactionBackfillResult}
    {stream : BlockStream (List Transaction) TransactionBackfill}
    (returned : backfillTransactions kind resolveInputs hasBackend fromSlot toSlot batchBlocks db
      tables messages = some (.ok (result, stream)))
    (once : (stream.store.versions.flatten.map Transaction.txSeq).Nodup) :
    ∀ t ∈ stream.store.versions.flatten, ∃ sources,
      FillsGaps (tables.lines.own t.txSeq) (stream.store.tables.lines.own t.txSeq) t sources := by
  intro t listed
  rw [(backfillTransactions_own returned once).1 t listed]
  exact backfillOwn_fillsGaps (own_own _ _)

/-- The transaction in `c` is rewritten. -/
theorem backfillTransactions_fillsGaps_sample :
    ∃ result stream, backfillTransactions .sqlite streamedInputs true 25 35 (some 1) storedBlocksDb
        indexedTables streamedMessages = some (.ok (result, stream)) ∧
      ∃ sources, FillsGaps (indexedTables.lines.own swappedTx.txSeq)
        (stream.store.tables.lines.own swappedTx.txSeq) swappedTx sources := by
  obtain ⟨result, stream, returned, versions⟩ := streamed_runs .sqlite indexedTables
  have once : (stream.store.versions.flatten.map Transaction.txSeq).Nodup := by
    rw [versions]
    exact streamed_once
  have listed : swappedTx ∈ stream.store.versions.flatten := by
    rw [versions]
    exact List.mem_cons_self
  exact ⟨result, stream, returned, backfillTransactions_fillsGaps returned once swappedTx listed⟩

end Odatano
