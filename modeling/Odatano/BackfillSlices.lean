import Odatano.TableSlices
import Odatano.TransactionBackfill

/-!
# What a backfill does to one transaction

A batch of `backfillTransactions` of `srv/blockchain/crawler/transaction-backfill.ts` reads and
writes the inputs and outputs of each of its transactions on their own.
-/

namespace Odatano

/-! ## Reading -/

section Read

variable {tables : LineTables} {seqs : List Nat}

/-- The rows of some positions, chunk by chunk. -/
def chunkedRows {κ ρ : Type*} {key : ρ → κ} (table : Table key) (seqOf : ρ → Nat)
    (wanted : ρ → Bool) (seqs : List Nat) : List ρ :=
  (chunk seqs IN_CHUNK).flatMap fun seqChunk =>
    table.select fun row => decide (seqOf row ∈ seqChunk) && wanted row

section Chunked

variable {κ ρ : Type*} {key : ρ → κ} {table : Table key} {seqOf : ρ → Nat} {wanted : ρ → Bool}

theorem mem_chunkedRows {row : ρ} :
    row ∈ chunkedRows table seqOf wanted seqs ↔
      row ∈ table.rows ∧ seqOf row ∈ seqs ∧ wanted row = true := by
  unfold chunkedRows
  simp only [List.mem_flatMap, Table.mem_select, Bool.and_eq_true, decide_eq_true_eq]
  have inChunk : seqOf row ∈ seqs ↔ ∃ seqChunk ∈ chunk seqs IN_CHUNK, seqOf row ∈ seqChunk := by
    rw [← List.mem_flatten, flatten_chunk_IN_CHUNK]
  rw [inChunk]
  constructor
  · rintro ⟨seqChunk, chunkMem, rowMem, listed, isWanted⟩
    exact ⟨rowMem, ⟨seqChunk, chunkMem, listed⟩, isWanted⟩
  · rintro ⟨rowMem, ⟨seqChunk, chunkMem, listed⟩, isWanted⟩
    exact ⟨seqChunk, chunkMem, rowMem, listed, isWanted⟩

/-- A position that is listed once is read once, in the order of the table. -/
theorem filter_chunkedRows (once : seqs.Nodup) {seq : Nat} (listed : seq ∈ seqs) :
    (chunkedRows table seqOf wanted seqs).filter (fun row => decide (seqOf row = seq)) =
      table.select fun row => decide (seqOf row = seq) && wanted row := by
  have flattened : (chunk seqs IN_CHUNK).flatten = seqs := flatten_chunk_IN_CHUNK seqs
  rw [← flattened] at once listed
  unfold chunkedRows
  generalize chunk seqs IN_CHUNK = chunks at once listed
  rw [List.filter_flatMap]
  -- the chunk that lists the position, and the others
  have own : ∀ seqChunk : List Nat, (table.select fun row =>
        decide (seqOf row ∈ seqChunk) && wanted row).filter
          (fun row => decide (seqOf row = seq)) =
      if seq ∈ seqChunk then table.select fun row => decide (seqOf row = seq) && wanted row
      else [] := by
    intro seqChunk
    rw [Table.select, List.filter_filter]
    by_cases here : seq ∈ seqChunk
    · rw [if_pos here]
      refine List.filter_congr fun row _ => ?_
      by_cases same : seqOf row = seq
      · subst same
        simp [here]
      · simp [same]
    · rw [if_neg here, List.filter_eq_nil_iff]
      intro row _
      by_cases same : seqOf row = seq
      · subst same
        simp [here]
      · simp [same]
  simp only [own]
  induction chunks with
  | nil => cases listed
  | cons first rest ih =>
      rw [List.flatten_cons, List.nodup_append] at once
      obtain ⟨-, restOnce, apart⟩ := once
      rw [List.flatMap_cons]
      by_cases here : seq ∈ first
      · have elsewhere : rest.flatMap (fun seqChunk => if seq ∈ seqChunk then
            table.select fun row => decide (seqOf row = seq) && wanted row else []) = [] := by
          rw [List.flatMap_eq_nil_iff]
          intro seqChunk chunkMem
          refine if_neg fun again => ?_
          exact apart seq here seq (List.mem_flatten.mpr ⟨seqChunk, chunkMem, again⟩) rfl
        rw [if_pos here, elsewhere, List.append_nil]
      · rw [if_neg here, List.nil_append]
        exact ih restOnce ((List.mem_append.mp listed).resolve_left here)

/-- The last of the rows that were read under a key is the stored one. -/
theorem getLast?_chunkedRows [DecidableEq κ] {k : κ} {seq : Nat} (listed : seq ∈ seqs)
    (position : ∀ row : ρ, key row = k → seqOf row = seq ∧ wanted row = true) :
    ((chunkedRows table seqOf wanted seqs).filter fun row => decide (key row = k)).getLast? =
      table.find? k := by
  have only : ∀ row ∈ (chunkedRows table seqOf wanted seqs).filter (fun row =>
      decide (key row = k)), table.find? k = some row := by
    intro row rowMem
    obtain ⟨rowMem, isKey⟩ := List.mem_filter.mp rowMem
    rw [← of_decide_eq_true isKey]
    exact Table.find?_of_mem (mem_chunkedRows.mp rowMem).1
  cases last : ((chunkedRows table seqOf wanted seqs).filter fun row =>
      decide (key row = k)).getLast? with
  | some row => exact (only row (List.mem_of_getLast? last)).symm
  | none =>
      cases found : table.find? k with
      | none => rfl
      | some row =>
          obtain ⟨rowMem, isKey⟩ := Table.find?_eq_some_iff.mp found
          obtain ⟨isSeq, isWanted⟩ := position row isKey
          have read : row ∈ (chunkedRows table seqOf wanted seqs).filter
              (fun row => decide (key row = k)) :=
            List.mem_filter.mpr ⟨mem_chunkedRows.mpr ⟨rowMem, isSeq ▸ listed, isWanted⟩,
              decide_eq_true isKey⟩
          rw [List.getLast?_eq_none_iff.mp last] at read
          cases read

end Chunked

/-- The rows a batch reads, all chunks together. -/
theorem readStoredInputs_eq (tables : LineTables) (seqs : List Nat) :
    readStoredInputs tables seqs =
      { stored := (chunkedRows tables.inputs StoredInputRow.txSeq (fun _ => true) seqs).foldl
          (fun map r => OrderedMap.set map r.key r) Table.empty
        storedLovelace := (chunkedRows tables.inputAssets LineAssetRow.txSeq
            (fun a => decide (a.unit = lovelace)) seqs).foldl
          (fun map a => OrderedMap.set map (a.txSeq, a.lineIndex) a.quantity) Table.empty
        storedBySeq := OrderedMap.collect StoredInputRow.txSeq Table.empty
          (chunkedRows tables.inputs StoredInputRow.txSeq (fun _ => true) seqs) } := by
  unfold readStoredInputs chunkedRows
  induction chunk seqs IN_CHUNK using List.reverseRecOn with
  | nil => rfl
  | append_singleton chunks seqChunk ih =>
      rw [List.foldl_append, List.foldl_cons, List.foldl_nil, ih]
      simp only [List.flatMap_append, List.flatMap_singleton, List.foldl_append, readStoredChunk,
        OrderedMap.collect, OrderedMap.accumulate_append, Bool.and_true, Bool.decide_and]

/-- What a batch reads of the transaction at a position. -/
theorem readStoredInputs_lookups {seq : Nat} (listed : seq ∈ seqs) (i : Nat) :
    OrderedMap.get? (readStoredInputs tables seqs).stored (seq, i) =
        tables.inputs.find? (seq, i) ∧
      OrderedMap.get? (readStoredInputs tables seqs).storedLovelace (seq, i) =
        (tables.inputAssets.find? ((seq, i), lovelace)).map LineAssetRow.quantity := by
  rw [readStoredInputs_eq]
  constructor
  · have pairs : (chunkedRows tables.inputs StoredInputRow.txSeq (fun _ => true) seqs).foldl
          (fun map r => OrderedMap.set map r.key r) Table.empty =
        Table.upsertAll (Table.empty : OrderedMap (Nat × Nat) StoredInputRow)
          ((chunkedRows tables.inputs StoredInputRow.txSeq (fun _ => true) seqs).map
            fun r => (r.key, r)) := List.foldl_map.symm
    rw [pairs, OrderedMap.get?, Table.find?_upsertAll_last, List.filter_map, List.getLast?_map]
    change (Option.or (Option.map _ ((List.filter (fun row : StoredInputRow =>
      decide (row.key = (seq, i))) _).getLast?)) none).map Prod.snd = _
    rw [getLast?_chunkedRows listed fun row isKey => ⟨congrArg Prod.fst isKey, rfl⟩]
    cases tables.inputs.find? (seq, i) <;> rfl
  · have pairs : (chunkedRows tables.inputAssets LineAssetRow.txSeq
            (fun a => decide (a.unit = lovelace)) seqs).foldl
          (fun map a => OrderedMap.set map (a.txSeq, a.lineIndex) a.quantity) Table.empty =
        Table.upsertAll (Table.empty : OrderedMap (Nat × Nat) Int)
          ((chunkedRows tables.inputAssets LineAssetRow.txSeq
            (fun a => decide (a.unit = lovelace)) seqs).map
              fun a => ((a.txSeq, a.lineIndex), a.quantity)) := List.foldl_map.symm
    rw [pairs, OrderedMap.get?, Table.find?_upsertAll_last, List.filter_map, List.getLast?_map]
    have sameKeys : (chunkedRows tables.inputAssets LineAssetRow.txSeq
          (fun a => decide (a.unit = lovelace)) seqs).filter
            ((fun entry : (Nat × Nat) × Int => decide (entry.1 = (seq, i))) ∘
              fun a => ((a.txSeq, a.lineIndex), a.quantity)) =
        (chunkedRows tables.inputAssets LineAssetRow.txSeq
          (fun a => decide (a.unit = lovelace)) seqs).filter
            fun a => decide (a.key = ((seq, i), lovelace)) := by
      refine List.filter_congr fun a aMem => ?_
      have isLovelace := of_decide_eq_true (mem_chunkedRows.mp aMem).2.2
      simp [LineAssetRow.key, isLovelace]
    have last := @getLast?_chunkedRows seqs _ _ LineAssetRow.key tables.inputAssets
      LineAssetRow.txSeq (fun a => decide (a.unit = lovelace)) _ ((seq, i), lovelace) seq listed
      fun a isKey => ⟨congrArg (fun k : (Nat × Nat) × AssetUnit => k.1.1) isKey,
        decide_eq_true (congrArg Prod.snd isKey)⟩
    rw [sameKeys, last]
    cases tables.inputAssets.find? ((seq, i), lovelace) <;> rfl

theorem readStoredInputs_rowsOf (once : seqs.Nodup) {seq : Nat} (listed : seq ∈ seqs) :
    (readStoredInputs tables seqs).rowsOf seq =
      tables.inputs.select fun row => decide (row.txSeq = seq) := by
  rw [readStoredInputs_eq, StoredInputs.rowsOf, OrderedMap.getD_get?_collect]
  refine (filter_chunkedRows once listed).trans ?_
  simp only [Bool.and_true]

end Read

/-! ## The rows of one transaction -/

/-- The inputs and outputs at a position. -/
def LineTables.own (tables : LineTables) (seq : Nat) : LineTables where
  inputs := tables.inputs.only fun k => decide (k.1 = seq)
  inputAssets := tables.inputAssets.only fun k => decide (k.1.1 = seq)
  outputs := tables.outputs.only fun k => decide (k.1 = seq)
  outputAssets := tables.outputAssets.only fun k => decide (k.1.1 = seq)

section Own

variable (tables : LineTables) (seq : Nat)

theorem find?_own_inputs (i : Nat) :
    (tables.own seq).inputs.find? (seq, i) = tables.inputs.find? (seq, i) :=
  Table.find?_only_of_mem _ (by simp)

theorem find?_own_inputAssets (i : Nat) (unit : AssetUnit) :
    (tables.own seq).inputAssets.find? ((seq, i), unit) =
      tables.inputAssets.find? ((seq, i), unit) :=
  Table.find?_only_of_mem _ (by simp)

theorem select_own_inputs :
    (tables.own seq).inputs.select (fun row => decide (row.txSeq = seq)) =
      tables.inputs.select fun row => decide (row.txSeq = seq) :=
  Table.select_only _ fun _ isSeq => isSeq

end Own

/-- Two readings tell the same of the transaction at a position. -/
structure StoredInputs.SameAt (first second : StoredInputs) (seq : Nat) : Prop where
  stored : ∀ i, OrderedMap.get? first.stored (seq, i) = OrderedMap.get? second.stored (seq, i)
  storedLovelace : ∀ i, OrderedMap.get? first.storedLovelace (seq, i) =
    OrderedMap.get? second.storedLovelace (seq, i)
  rowsOf : first.rowsOf seq = second.rowsOf seq

namespace StoredInputs.SameAt

variable {first second : StoredInputs} {t : Transaction}

theorem plan (same : first.SameAt second t.txSeq) : first.plan t = second.plan t := by
  unfold StoredInputs.plan StoredInputs.lines
  simp only [same.stored, same.storedLovelace, same.rowsOf]

theorem missingAt (same : first.SameAt second t.txSeq) :
    first.missingAt t.txSeq = second.missingAt t.txSeq := by
  funext entry
  unfold StoredInputs.missingAt
  rw [same.stored]

theorem fills (same : first.SameAt second t.txSeq) : first.fills t = second.fills t := by
  unfold StoredInputs.fills
  simp only [same.missingAt]

theorem filledAssets (same : first.SameAt second t.txSeq) :
    first.filledAssets t = second.filledAssets t := by
  unfold StoredInputs.filledAssets
  simp only [same.missingAt]

end StoredInputs.SameAt

/-- A batch reads of a transaction what its own rows say. -/
theorem readStoredInputs_own (tables : LineTables) {seqs : List Nat} (once : seqs.Nodup)
    {seq : Nat} (listed : seq ∈ seqs) :
    (readStoredInputs tables seqs).SameAt (readStoredInputs (tables.own seq) [seq]) seq where
  stored i := by
    rw [(readStoredInputs_lookups listed i).1,
      (readStoredInputs_lookups (List.mem_singleton_self seq) i).1, find?_own_inputs]
  storedLovelace i := by
    rw [(readStoredInputs_lookups listed i).2,
      (readStoredInputs_lookups (List.mem_singleton_self seq) i).2, find?_own_inputAssets]
  rowsOf := by
    rw [readStoredInputs_rowsOf once listed,
      readStoredInputs_rowsOf (List.nodup_singleton seq) (List.mem_singleton_self seq),
      select_own_inputs]

/-! ## Fills -/

section Fills

variable {write : InputFields → StoredInputRow → StoredInputRow}
  (keepsKey : ∀ fields row, (write fields row).key = row.key)

/-- A row after its fill, if there is one. -/
def fillWith (write : InputFields → StoredInputRow → StoredInputRow) (fills : List InputFill)
    (row : StoredInputRow) : StoredInputRow :=
  match fills.find? fun fill => decide (fill.key = row.key) with
  | some fill => write fill.set row
  | none => row

include keepsKey in
theorem key_fillWith (fills : List InputFill) (row : StoredInputRow) :
    (fillWith write fills row).key = row.key := by
  unfold fillWith
  split
  · exact keepsKey _ _
  · rfl

/-- All rows after their fills. -/
def updateWith (inputs : Table StoredInputRow.key) (fills : List InputFill) :
    Table StoredInputRow.key :=
  inputs.update (fun _ => true) (fillWith write fills) (key_fillWith keepsKey fills)

theorem find?_updateWith (inputs : Table StoredInputRow.key) (fills : List InputFill)
    (k : Nat × Nat) :
    (updateWith keepsKey inputs fills).find? k = (inputs.find? k).map (fillWith write fills) := by
  rw [updateWith, Table.find?_update]
  rfl

theorem updateWith_nil (inputs : Table StoredInputRow.key) :
    updateWith keepsKey inputs [] = inputs :=
  Table.update_eq_self _ fun _ _ _ => rfl

/-- Fills of different rows, one list after the other. -/
theorem updateWith_append (inputs : Table StoredInputRow.key) {first second : List InputFill}
    (apart : ∀ a ∈ first, ∀ b ∈ second, a.key ≠ b.key) :
    updateWith keepsKey (updateWith keepsKey inputs first) second =
      updateWith keepsKey inputs (first ++ second) := by
  apply Table.ext
  change (inputs.rows.map _).map _ = inputs.rows.map _
  rw [List.map_map]
  refine List.map_congr_left fun row _ => ?_
  simp only [Function.comp_apply, if_true]
  have sameKey := key_fillWith keepsKey first row
  unfold fillWith at sameKey ⊢
  rw [List.find?_append]
  cases found : first.find? fun fill => decide (fill.key = row.key) with
  | none =>
      rw [Option.none_or]
  | some fill =>
      rw [found] at sameKey
      have isKey : fill.key = row.key := of_decide_eq_true (List.find?_some found :)
      have absent : (second.find? fun other => decide (other.key = row.key)) = none := by
        rw [List.find?_eq_none]
        intro other otherMem sameToo
        refine apart fill (List.mem_of_find?_eq_some found) other otherMem ?_
        rw [isKey, of_decide_eq_true sameToo]
      dsimp only at sameKey ⊢
      rw [sameKey, absent]
      rfl

theorem foldl_updateWith (inputs : Table StoredInputRow.key) {chunks : List (List InputFill)}
    (once : (chunks.flatten.map InputFill.key).Nodup) :
    chunks.foldl (updateWith keepsKey) inputs = updateWith keepsKey inputs chunks.flatten := by
  induction chunks generalizing inputs with
  | nil =>
      exact (updateWith_nil keepsKey inputs).symm
  | cons first rest ih =>
      rw [List.flatten_cons, List.map_append, List.nodup_append] at once
      rw [List.foldl_cons, ih _ once.2.1, List.flatten_cons]
      refine updateWith_append keepsKey inputs fun a aMem b bMem => ?_
      exact once.2.2 _ (List.mem_map_of_mem aMem) _ (List.mem_map_of_mem bMem)

theorem only_updateWith (inputs : Table StoredInputRow.key) (fills : List InputFill)
    (slice : Nat × Nat → Bool) :
    (updateWith keepsKey inputs fills).only slice =
      updateWith keepsKey (inputs.only slice) (fills.filter fun fill => slice fill.key) := by
  rw [updateWith, Table.only_update]
  refine Table.update_congr _ fun row rowMem => ?_
  simp only [if_true]
  have inside := (Table.mem_only.mp rowMem).2
  unfold fillWith
  rw [List.find?_filter]
  have same : (fun fill : InputFill =>
        decide (slice fill.key = true ∧ decide (fill.key = row.key) = true)) =
      fun fill => decide (fill.key = row.key) := by
    funext fill
    by_cases isKey : fill.key = row.key
    · simp [isKey, inside]
    · simp [isKey]
  rw [same]

end Fills

/-- How a database writes a fill. -/
def DbKind.write (kind : DbKind) : InputFields → StoredInputRow → StoredInputRow :=
  if kind.fillsInBulk then InputFields.coalesce else InputFields.set

theorem DbKind.key_write (kind : DbKind) (fields : InputFields) (row : StoredInputRow) :
    (kind.write fields row).key = row.key := by
  unfold DbKind.write
  split <;> rfl

/-- Chunked or row by row, each row is written its own fill. -/
theorem writeInputFills_eq (kind : DbKind) (inputs : Table StoredInputRow.key)
    {fills : List InputFill} (once : (fills.map InputFill.key).Nodup) :
    writeInputFills kind inputs fills = updateWith kind.key_write inputs fills := by
  unfold writeInputFills
  cases bulk : kind.fillsInBulk with
  | true =>
      have isWrite : kind.write = InputFields.coalesce := if_pos bulk
      have pieces : (chunk fills FILL_CHUNK).flatten = fills := flatten_chunk fills (by decide)
      have each := @foldl_updateWith InputFields.coalesce InputFields.key_coalesce inputs
        (chunk fills FILL_CHUNK) (by rw [pieces]; exact once)
      rw [pieces] at each
      rw [if_pos rfl]
      have key_write := kind.key_write
      have goal : ∀ (write : InputFields → StoredInputRow → StoredInputRow)
          (keeps : ∀ fields row, (write fields row).key = row.key),
          write = InputFields.coalesce →
            (chunk fills FILL_CHUNK).foldl updateInBulk inputs = updateWith keeps inputs fills := by
        rintro write keeps rfl
        exact each
      exact goal _ key_write isWrite
  | false =>
      have isWrite : kind.write = InputFields.set := if_neg (by rw [bulk]; exact Bool.false_ne_true)
      have pieces : (fills.map fun fill => [fill]).flatten = fills := by
        rw [← List.flatMap_def]
        exact List.flatMap_singleton' fills
      have each := @foldl_updateWith InputFields.set InputFields.key_set inputs
        (fills.map fun fill => [fill]) (by rw [pieces]; exact once)
      rw [pieces, List.foldl_map] at each
      have single : ∀ (inputs : Table StoredInputRow.key) (fill : InputFill),
          updateWith InputFields.key_set inputs [fill] = updateInput inputs fill := by
        intro inputs fill
        refine Table.update_congr _ fun row _ => ?_
        simp only [if_true, fillWith, List.find?_cons, List.find?_nil]
        by_cases isKey : row.key = fill.key
        · simp [isKey]
        · simp [isKey, Ne.symm isKey]
      simp only [single] at each
      rw [if_neg Bool.false_ne_true]
      have goal : ∀ (write : InputFields → StoredInputRow → StoredInputRow)
          (keeps : ∀ fields row, (write fields row).key = row.key),
          write = InputFields.set →
            fills.foldl updateInput inputs = updateWith keeps inputs fills := by
        rintro write keeps rfl
        exact each
      exact goal _ kind.key_write isWrite

theorem keys_fills_once (read : StoredInputs) (t : Transaction) :
    ((read.fills t).map InputFill.key).Nodup := by
  unfold StoredInputs.fills
  refine (List.filter_sublist.map InputFill.key).nodup ?_
  rw [List.map_map]
  have positions : t.inputs.zipIdx.map (InputFill.key ∘ fun entry =>
        (⟨t.txSeq, entry.2, read.missingAt t.txSeq entry⟩ : InputFill)) =
      (t.inputs.zipIdx.map Prod.snd).map fun i => (t.txSeq, i) := by
    rw [List.map_map]
    rfl
  rw [positions, List.zipIdx_map_snd]
  exact List.Nodup.map (fun _ _ same => congrArg Prod.snd same) (List.nodup_range' 1 (by simp))

theorem key_of_mem_fills {read : StoredInputs} {t : Transaction} {fill : InputFill}
    (listed : fill ∈ read.fills t) : fill.key.1 = t.txSeq := by
  obtain ⟨listed, -⟩ := List.mem_filter.mp listed
  obtain ⟨entry, -, rfl⟩ := List.mem_map.mp listed
  rfl

theorem keys_flatMap_fills_once (read : StoredInputs) {txs : List Transaction}
    (once : (txs.map Transaction.txSeq).Nodup) :
    ((txs.flatMap read.fills).map InputFill.key).Nodup := by
  induction txs with
  | nil => exact List.nodup_nil
  | cons t txs ih =>
      rw [List.map_cons, List.nodup_cons] at once
      rw [List.flatMap_cons, List.map_append, List.nodup_append]
      refine ⟨keys_fills_once read t, ih once.2, ?_⟩
      intro a aMem b bMem same
      obtain ⟨fill, fillMem, rfl⟩ := List.mem_map.mp aMem
      obtain ⟨other, otherMem, rfl⟩ := List.mem_map.mp bMem
      obtain ⟨u, uMem, otherMem⟩ := List.mem_flatMap.mp otherMem
      refine once.1 ?_
      rw [← key_of_mem_fills fillMem, same, key_of_mem_fills otherMem]
      exact List.mem_map_of_mem uMem

theorem txSeq_of_mem_filledAssets {read : StoredInputs} {t : Transaction} {a : LineAssetRow}
    (listed : a ∈ read.filledAssets t) : a.key.1.1 = t.txSeq := by
  obtain ⟨entry, -, listed⟩ := List.mem_flatMap.mp listed
  split at listed
  · obtain ⟨line, lineMem, listed⟩ := List.mem_flatten.mp (List.mem_filter.mp listed).1
    obtain ⟨i, inside, rfl⟩ := List.mem_mapIdx.mp lineMem
    obtain ⟨amount, -, rfl⟩ := List.mem_map.mp listed
    rfl
  · cases listed

/-! ## Transactions of a batch -/

section Batch

variable {α β : Type*} {seqOf : α → Nat} {ownerOf : β → Nat} {rowsOf : α → List β}

/-- What the transactions of a batch contribute at the position of one of them. -/
theorem filter_flatMap_own {entries : List α} (once : (entries.map seqOf).Nodup)
    (owned : ∀ entry ∈ entries, ∀ row ∈ rowsOf entry, ownerOf row = seqOf entry) {entry : α}
    (listed : entry ∈ entries) :
    (entries.flatMap rowsOf).filter (fun row => decide (ownerOf row = seqOf entry)) =
      rowsOf entry := by
  induction entries with
  | nil => cases listed
  | cons first rest ih =>
      rw [List.map_cons, List.nodup_cons] at once
      rw [List.flatMap_cons, List.filter_append]
      have ownedRest : ∀ other ∈ rest, ∀ row ∈ rowsOf other, ownerOf row = seqOf other :=
        fun other otherMem => owned other (List.mem_cons_of_mem _ otherMem)
      rcases List.mem_cons.mp listed with rfl | later
      · have all : (rowsOf entry).filter (fun row => decide (ownerOf row = seqOf entry)) =
            rowsOf entry := List.filter_eq_self.mpr fun row rowMem =>
          decide_eq_true (owned entry (List.mem_cons_self ..) row rowMem)
        have none : (rest.flatMap rowsOf).filter
            (fun row => decide (ownerOf row = seqOf entry)) = [] := by
          rw [List.filter_eq_nil_iff]
          intro row rowMem same
          obtain ⟨other, otherMem, rowMem⟩ := List.mem_flatMap.mp rowMem
          have isOther := ownedRest other otherMem row rowMem
          rw [of_decide_eq_true same] at isOther
          exact once.1 (isOther ▸ List.mem_map_of_mem otherMem)
        rw [all, none, List.append_nil]
      · have none : (rowsOf first).filter (fun row => decide (ownerOf row = seqOf entry)) = [] := by
          rw [List.filter_eq_nil_iff]
          intro row rowMem same
          have isFirst := owned first (List.mem_cons_self ..) row rowMem
          rw [of_decide_eq_true same] at isFirst
          exact once.1 (isFirst ▸ List.mem_map_of_mem later)
        rw [none, List.nil_append]
        exact ih once.2 ownedRest later

/-- At another position they contribute nothing. -/
theorem filter_flatMap_other {entries : List α} {seq : Nat}
    (owned : ∀ entry ∈ entries, ∀ row ∈ rowsOf entry, ownerOf row = seqOf entry)
    (unlisted : ∀ entry ∈ entries, seqOf entry ≠ seq) :
    (entries.flatMap rowsOf).filter (fun row => decide (ownerOf row = seq)) = [] := by
  rw [List.filter_eq_nil_iff]
  intro row rowMem same
  obtain ⟨entry, entryMem, rowMem⟩ := List.mem_flatMap.mp rowMem
  exact unlisted entry entryMem ((owned entry entryMem row rowMem).symm.trans
    (of_decide_eq_true same))

end Batch

/-! ## Rewriting and dropping -/

theorem txSeq_orderedRows {seq : Nat} {ordered : List StoredInputRow}
    {fresh : List TxInputLine} {row : StoredInputRow}
    (listed : row ∈ orderedRows seq ordered fresh) : row.txSeq = seq := by
  obtain ⟨i, inside, rfl⟩ := List.mem_mapIdx.mp listed
  rfl

section Own

variable {tables : LineTables} {seq : Nat}

/-- A rewrite of the transaction at the position. -/
theorem own_rewriteInOrder (ordered : List StoredInputRow) (fresh : List TxInputLine) :
    (rewriteInOrder tables seq ordered fresh).own seq =
      rewriteInOrder (tables.own seq) seq ordered fresh := by
  unfold rewriteInOrder LineTables.own
  simp only [LineTables.mk.injEq, and_true]
  have rowsInside : (orderedRows seq ordered fresh).filter
      (fun row => decide (row.key.1 = seq)) = orderedRows seq ordered fresh :=
    List.filter_eq_self.mpr fun row rowMem => decide_eq_true (txSeq_orderedRows rowMem)
  have assetsSame := @Table.select_only _ _ LineAssetRow.key (fun k => decide (k.1.1 = seq))
    tables.inputAssets (fun a => decide (a.txSeq = seq)) fun _ isSeq => isSeq
  refine ⟨?_, ?_⟩
  · rw [Table.only_upsertAll, Table.only_delete, rowsInside]
  · rw [Table.only_upsertAll, Table.only_delete, assetsSame]
    congr 1
    refine List.filter_eq_self.mpr fun a aMem => ?_
    obtain ⟨old, oldMem, moved⟩ := List.mem_filterMap.mp aMem
    obtain ⟨i, -, rfl⟩ := Option.map_eq_some_iff.mp moved
    exact (Table.mem_select.mp oldMem).2

/-- A rewrite of another transaction. -/
theorem own_rewriteInOrder_of_ne {other : Nat} (apart : other ≠ seq)
    (ordered : List StoredInputRow) (fresh : List TxInputLine) :
    (rewriteInOrder tables other ordered fresh).own seq = tables.own seq := by
  unfold rewriteInOrder LineTables.own
  simp only [LineTables.mk.injEq, and_true]
  refine ⟨?_, ?_⟩
  · rw [Table.only_upsertAll_of_apart, Table.only_delete_of_apart]
    · intro row inside
      have isSeq : row.txSeq = seq := of_decide_eq_true inside
      exact decide_eq_false fun isOther => apart (isOther.symm.trans isSeq)
    · intro row rowMem
      exact decide_eq_false fun isSeq => apart ((txSeq_orderedRows rowMem).symm.trans isSeq)
  · rw [Table.only_upsertAll_of_apart, Table.only_delete_of_apart]
    · intro a inside
      have isSeq : a.txSeq = seq := of_decide_eq_true inside
      exact decide_eq_false fun isOther => apart (isOther.symm.trans isSeq)
    · intro a aMem
      obtain ⟨old, oldMem, moved⟩ := List.mem_filterMap.mp aMem
      obtain ⟨i, -, rfl⟩ := Option.map_eq_some_iff.mp moved
      have isOther : old.txSeq = other := of_decide_eq_true (Table.mem_select.mp oldMem).2
      exact decide_eq_false fun isSeq => apart (isOther.symm.trans isSeq)

/-- The rewrites of a batch, of which at most one is at the position. -/
theorem own_rewriteAll {reorders : List (Transaction × List StoredInputRow)}
    (once : (reorders.map fun entry => entry.1.txSeq).Nodup) :
    (rewriteAll tables reorders).own seq =
      match reorders.find? fun entry => decide (entry.1.txSeq = seq) with
      | some entry => rewriteInOrder (tables.own seq) seq entry.2 entry.1.inputs
      | none => tables.own seq := by
  induction reorders generalizing tables with
  | nil => rfl
  | cons first rest ih =>
      rw [List.map_cons, List.nodup_cons] at once
      rw [rewriteAll, List.foldl_cons]
      refine (ih once.2).trans ?_
      rw [List.find?_cons]
      by_cases here : first.1.txSeq = seq
      · have absent : (rest.find? fun entry => decide (entry.1.txSeq = seq)) = none := by
          rw [List.find?_eq_none]
          intro entry entryMem same
          refine once.1 ?_
          rw [here, ← of_decide_eq_true same]
          exact List.mem_map_of_mem entryMem
        rw [absent, decide_eq_true here]
        subst here
        exact own_rewriteInOrder _ _
      · rw [decide_eq_false here, own_rewriteInOrder_of_ne here]

/-- The stored outputs of a transaction that the stream does not have. -/
def extraOutputs (tables : LineTables) (t : Transaction) : List Nat :=
  let indices := (tables.outputs.select fun row => decide (row.txSeq = t.txSeq)).map
    TransactionOutputRow.outputIndex
  let keep := t.outputs.map TxOutputLine.outputIndex
  if ∃ i ∈ keep, i ∉ indices then [] else indices.filter fun i => decide (i ∉ keep)

/-- Drop some outputs of the transaction at a position. -/
def LineTables.dropOutputs (tables : LineTables) (seq : Nat) (extra : List Nat) : LineTables :=
  { tables with
    outputAssets := tables.outputAssets.delete fun a =>
      decide (a.txSeq = seq ∧ a.lineIndex ∈ extra)
    outputs := tables.outputs.delete fun o => decide (o.txSeq = seq ∧ o.outputIndex ∈ extra) }

theorem dropOutputs_nil : tables.dropOutputs seq [] = tables := by
  unfold LineTables.dropOutputs
  rw [Table.delete_eq_self fun _ _ => by simp, Table.delete_eq_self fun _ _ => by simp]

theorem own_dropOutputs (extra : List Nat) :
    (tables.dropOutputs seq extra).own seq = (tables.own seq).dropOutputs seq extra := by
  unfold LineTables.dropOutputs LineTables.own
  simp only [Table.only_delete]

theorem own_dropOutputs_of_ne {other : Nat} (apart : other ≠ seq) (extra : List Nat) :
    (tables.dropOutputs other extra).own seq = tables.own seq := by
  unfold LineTables.dropOutputs LineTables.own
  simp only [LineTables.mk.injEq, true_and]
  refine ⟨Table.only_delete_of_apart _ ?_, Table.only_delete_of_apart _ ?_⟩
  · intro o inside
    have isSeq : o.txSeq = seq := of_decide_eq_true inside
    exact decide_eq_false fun doomed => apart (doomed.1.symm.trans isSeq)
  · intro a inside
    have isSeq : a.txSeq = seq := of_decide_eq_true inside
    exact decide_eq_false fun doomed => apart (doomed.1.symm.trans isSeq)

/-- What `dropExtraOutputs` drops of one transaction. -/
def extraOf (wanted : OrderedMap Nat (List Nat)) (stored : Nat × List TransactionOutputRow) :
    List Nat :=
  let keep := (OrderedMap.get? wanted stored.1).getD []
  let indices := stored.2.map TransactionOutputRow.outputIndex
  if ∃ i ∈ keep, i ∉ indices then [] else indices.filter fun i => decide (i ∉ keep)

theorem dropExtraOutputs_fst (wanted : OrderedMap Nat (List Nat)) (state : LineTables × List Nat)
    (stored : Nat × List TransactionOutputRow) :
    (dropExtraOutputs wanted state stored).1 =
      state.1.dropOutputs stored.1 (extraOf wanted stored) := by
  unfold dropExtraOutputs extraOf
  by_cases lacking : ∃ i ∈ (OrderedMap.get? wanted stored.1).getD [],
      i ∉ stored.2.map TransactionOutputRow.outputIndex
  · simp only [if_pos lacking, if_pos (Or.inr lacking), dropOutputs_nil]
  · simp only [if_neg lacking]
    by_cases none : (stored.2.map TransactionOutputRow.outputIndex).filter
        (fun i => decide (i ∉ (OrderedMap.get? wanted stored.1).getD [])) = []
    · rw [if_pos (Or.inl none), none, dropOutputs_nil]
    · rw [if_neg (not_or.mpr ⟨none, lacking⟩)]
      rfl

theorem own_foldl_dropExtraOutputs (wanted : OrderedMap Nat (List Nat))
    {stored : List (Nat × List TransactionOutputRow)} (once : (stored.map Prod.fst).Nodup)
    (touched : List Nat) :
    ((stored.foldl (dropExtraOutputs wanted) (tables, touched)).1).own seq =
      match stored.find? fun entry => decide (entry.1 = seq) with
      | some entry => (tables.own seq).dropOutputs seq (extraOf wanted entry)
      | none => tables.own seq := by
  induction stored generalizing tables touched with
  | nil => rfl
  | cons first rest ih =>
      rw [List.map_cons, List.nodup_cons] at once
      rw [List.foldl_cons, List.find?_cons]
      have isDropped := dropExtraOutputs_fst wanted (tables, touched) first
      generalize dropExtraOutputs wanted (tables, touched) first = state at isDropped
      obtain ⟨dropped, later⟩ := state
      simp only at isDropped
      rw [ih once.2, isDropped]
      by_cases here : first.1 = seq
      · have absent : (rest.find? fun entry => decide (entry.1 = seq)) = none := by
          rw [List.find?_eq_none]
          intro entry entryMem same
          refine once.1 ?_
          rw [here, ← of_decide_eq_true same]
          exact List.mem_map_of_mem entryMem
        rw [absent, decide_eq_true here]
        subst here
        exact own_dropOutputs _
      · rw [decide_eq_false here, own_dropOutputs_of_ne here]

/-- The outputs that the stream has, by position. -/
theorem wantedOutputs_rows {txs : List Transaction} (once : (txs.map Transaction.txSeq).Nodup) :
    (txs.foldl (fun wanted t =>
        OrderedMap.set wanted t.txSeq (t.outputs.map TxOutputLine.outputIndex))
      (Table.empty : OrderedMap Nat (List Nat))).rows =
        txs.map fun t => (t.txSeq, t.outputs.map TxOutputLine.outputIndex) := by
  have pairs : txs.foldl (fun wanted t =>
        OrderedMap.set wanted t.txSeq (t.outputs.map TxOutputLine.outputIndex))
      (Table.empty : OrderedMap Nat (List Nat)) =
        Table.upsertAll Table.empty
          (txs.map fun t => (t.txSeq, t.outputs.map TxOutputLine.outputIndex)) :=
    List.foldl_map.symm
  rw [pairs, Table.rows_upsertAll_of_new]
  · rfl
  · rw [List.map_map]
    exact once
  · exact fun _ _ => List.not_mem_nil

/-- The stored outputs of the streamed transactions, by position. -/
def storedOutputs (tables : LineTables) (txs : List Transaction) :
    OrderedMap Nat (List TransactionOutputRow) :=
  OrderedMap.collect TransactionOutputRow.txSeq Table.empty
    (chunkedRows tables.outputs TransactionOutputRow.txSeq (fun _ => true)
      (txs.map Transaction.txSeq))

theorem dropUnappliedOutputs_eq {txs : List Transaction}
    (once : (txs.map Transaction.txSeq).Nodup) :
    ∃ wanted : OrderedMap Nat (List Nat),
      wanted.rows = txs.map (fun t => (t.txSeq, t.outputs.map TxOutputLine.outputIndex)) ∧
        dropUnappliedOutputs tables txs =
          (storedOutputs tables txs).rows.foldl (dropExtraOutputs wanted) (tables, []) := by
  refine ⟨_, wantedOutputs_rows once, ?_⟩
  have keys : OrderedMap.keys (txs.foldl (fun wanted t =>
        OrderedMap.set wanted t.txSeq (t.outputs.map TxOutputLine.outputIndex))
      (Table.empty : OrderedMap Nat (List Nat))) = txs.map Transaction.txSeq := by
    rw [OrderedMap.keys, wantedOutputs_rows once, List.map_map]
    rfl
  simp only [dropUnappliedOutputs, storedOutputs, chunkedRows, keys, Bool.and_true]

/-- Of each streamed transaction the extra outputs are dropped. -/
theorem own_dropUnappliedOutputs {txs : List Transaction}
    (once : (txs.map Transaction.txSeq).Nodup) {t : Transaction} (listed : t ∈ txs) :
    (dropUnappliedOutputs tables txs).1.own t.txSeq =
      (tables.own t.txSeq).dropOutputs t.txSeq (extraOutputs tables t) := by
  obtain ⟨wanted, wantedRows, dropped⟩ := @dropUnappliedOutputs_eq tables txs once
  have kept : OrderedMap.get? wanted t.txSeq = some (t.outputs.map TxOutputLine.outputIndex) := by
    rw [OrderedMap.get?_eq_some_iff, wantedRows]
    exact List.mem_map.mpr ⟨t, listed, rfl⟩
  have collected : (OrderedMap.get? (storedOutputs tables txs) t.txSeq).getD [] =
      tables.outputs.select fun row => decide (row.txSeq = t.txSeq) := by
    rw [storedOutputs, OrderedMap.getD_get?_collect]
    refine (filter_chunkedRows once (List.mem_map_of_mem listed)).trans ?_
    simp only [Bool.and_true]
  rw [dropped, own_foldl_dropExtraOutputs wanted (Table.keys_nodup _)]
  cases found : (storedOutputs tables txs).rows.find? fun entry => decide (entry.1 = t.txSeq) with
  | some entry =>
      have isKey : entry.1 = t.txSeq := of_decide_eq_true (List.find?_some found :)
      have isEntry : OrderedMap.get? (storedOutputs tables txs) t.txSeq = some entry.2 := by
        rw [OrderedMap.get?, Table.find?, found]
        rfl
      rw [isEntry, Option.getD_some] at collected
      simp only [extraOf, isKey, kept, collected, Option.getD_some, extraOutputs]
  | none =>
      have isNone : OrderedMap.get? (storedOutputs tables txs) t.txSeq = none := by
        rw [OrderedMap.get?, Table.find?, found]
        rfl
      rw [isNone, Option.getD_none] at collected
      have noExtra : extraOutputs tables t = [] := by
        simp [extraOutputs, ← collected]
      rw [noExtra, dropOutputs_nil]

/-- Other transactions keep their outputs. -/
theorem own_dropUnappliedOutputs_of_notMem {txs : List Transaction}
    (once : (txs.map Transaction.txSeq).Nodup) (unlisted : seq ∉ txs.map Transaction.txSeq) :
    (dropUnappliedOutputs tables txs).1.own seq = tables.own seq := by
  obtain ⟨wanted, -, dropped⟩ := @dropUnappliedOutputs_eq tables txs once
  rw [dropped, own_foldl_dropExtraOutputs wanted (Table.keys_nodup _)]
  cases found : (storedOutputs tables txs).rows.find? fun entry => decide (entry.1 = seq) with
  | none => rfl
  | some entry =>
      have isSome : (OrderedMap.get? (storedOutputs tables txs) seq).isSome := by
        rw [OrderedMap.get?, Table.find?, found]
        rfl
      rcases (OrderedMap.get?_accumulate_isSome _ _ _).mp isSome with empty | ⟨row, rowMem, isSeq⟩
      · cases empty
      · exact absurd (isSeq ▸ (mem_chunkedRows.mp rowMem).2.1) unlisted

end Own

/-! ## One transaction of a batch -/

/-- The inputs and outputs of one transaction after the batch that has it. -/
def backfillOwn (kind : DbKind) (tables : LineTables) (t : Transaction) : LineTables :=
  let read := readStoredInputs tables [t.txSeq]
  let filled : LineTables :=
    match read.plan t with
    | .fill =>
        { tables with
          inputs := updateWith kind.key_write tables.inputs (read.fills t)
          inputAssets := tables.inputAssets.upsertAll (read.filledAssets t) }
    | .rewrite ordered => rewriteInOrder tables t.txSeq ordered t.inputs
    | .skip => tables
  filled.dropOutputs t.txSeq (extraOutputs tables t)

section Batch

variable {kind : DbKind} {tables : LineTables} {txs : List Transaction} {seq : Nat}

/-- The fills at the position of a transaction of the batch. -/
theorem own_fillInLine (once : (txs.map Transaction.txSeq).Nodup) {t : Transaction}
    (listed : t ∈ txs) (read : StoredInputs) :
    (fillInLine kind tables read txs).own t.txSeq =
      if read.plan t = .fill then
        { tables.own t.txSeq with
          inputs := updateWith kind.key_write (tables.own t.txSeq).inputs (read.fills t)
          inputAssets := (tables.own t.txSeq).inputAssets.upsertAll (read.filledAssets t) }
      else tables.own t.txSeq := by
  have inLineOnce : ((read.inLine txs).map Transaction.txSeq).Nodup :=
    (List.filter_sublist.map Transaction.txSeq).nodup once
  have fillsOwned : ∀ t ∈ read.inLine txs, ∀ fill ∈ read.fills t, fill.key.1 = t.txSeq :=
    fun _ _ _ fillMem => key_of_mem_fills fillMem
  have assetsOwned : ∀ t ∈ read.inLine txs, ∀ a ∈ read.filledAssets t, a.key.1.1 = t.txSeq :=
    fun _ _ _ aMem => txSeq_of_mem_filledAssets aMem
  unfold fillInLine LineTables.own
  rw [writeInputFills_eq kind tables.inputs (keys_flatMap_fills_once read inLineOnce)]
  simp only [only_updateWith, Table.only_upsertAll]
  by_cases inLine : read.plan t = .fill
  · have isInLine : t ∈ read.inLine txs := List.mem_filter.mpr ⟨listed, decide_eq_true inLine⟩
    rw [if_pos inLine, filter_flatMap_own inLineOnce fillsOwned isInLine,
      filter_flatMap_own inLineOnce assetsOwned isInLine]
  · have apart : ∀ other ∈ read.inLine txs, other.txSeq ≠ t.txSeq := by
      intro other otherMem same
      obtain ⟨otherMem, otherInLine⟩ := List.mem_filter.mp otherMem
      rw [List.inj_on_of_nodup_map once otherMem listed same] at otherInLine
      exact inLine (of_decide_eq_true otherInLine)
    rw [if_neg inLine, filter_flatMap_other fillsOwned apart,
      filter_flatMap_other assetsOwned apart]
    simp only [updateWith_nil, Table.upsertAll_nil]

theorem own_fillInLine_of_notMem (once : (txs.map Transaction.txSeq).Nodup)
    (unlisted : seq ∉ txs.map Transaction.txSeq) (read : StoredInputs) :
    (fillInLine kind tables read txs).own seq = tables.own seq := by
  have inLineOnce : ((read.inLine txs).map Transaction.txSeq).Nodup :=
    (List.filter_sublist.map Transaction.txSeq).nodup once
  have apart : ∀ other ∈ read.inLine txs, other.txSeq ≠ seq := fun other otherMem same =>
    unlisted (same ▸ List.mem_map_of_mem (List.mem_of_mem_filter otherMem))
  unfold fillInLine LineTables.own
  rw [writeInputFills_eq kind tables.inputs (keys_flatMap_fills_once read inLineOnce)]
  simp only [only_updateWith, Table.only_upsertAll]
  rw [filter_flatMap_other (fun _ _ _ fillMem => key_of_mem_fills fillMem) apart,
    filter_flatMap_other (fun _ _ _ aMem => txSeq_of_mem_filledAssets aMem) apart]
  simp only [updateWith_nil, Table.upsertAll_nil]

theorem reorders_once (once : (txs.map Transaction.txSeq).Nodup) (read : StoredInputs) :
    ((read.reorders txs).map fun entry => entry.1.txSeq).Nodup := by
  have named : ((read.reorders txs).map Prod.fst).Sublist txs := by
    unfold StoredInputs.reorders
    induction txs with
    | nil => exact List.Sublist.refl _
    | cons t txs ih =>
        rw [List.map_cons, List.nodup_cons] at once
        rw [List.filterMap_cons]
        cases read.plan t with
        | rewrite ordered => exact (ih once.2).cons_cons t
        | fill => exact (ih once.2).cons t
        | skip => exact (ih once.2).cons t
  have sublist := named.map Transaction.txSeq
  rw [List.map_map] at sublist
  exact sublist.nodup once

/-- The rewrite of a transaction of the batch, if it is rewritten. -/
theorem find?_reorders (once : (txs.map Transaction.txSeq).Nodup) {t : Transaction}
    (listed : t ∈ txs) (read : StoredInputs) :
    ((read.reorders txs).find? fun entry => decide (entry.1.txSeq = t.txSeq)) =
      match read.plan t with
      | .rewrite ordered => some (t, ordered)
      | _ => none := by
  have mem_reorders : ∀ entry ∈ read.reorders txs,
      entry.1 ∈ txs ∧ read.plan entry.1 = .rewrite entry.2 := by
    intro entry entryMem
    obtain ⟨other, otherMem, isEntry⟩ := List.mem_filterMap.mp entryMem
    cases planned : read.plan other with
    | rewrite ordered =>
        rw [planned] at isEntry
        cases isEntry
        exact ⟨otherMem, planned⟩
    | fill =>
        rw [planned] at isEntry
        cases isEntry
    | skip =>
        rw [planned] at isEntry
        cases isEntry
  cases found : (read.reorders txs).find? fun entry => decide (entry.1.txSeq = t.txSeq) with
  | some entry =>
      obtain ⟨entryMem, planned⟩ := mem_reorders entry (List.mem_of_find?_eq_some found)
      have same : entry.1.txSeq = t.txSeq := of_decide_eq_true (List.find?_some found :)
      have isOwn := List.inj_on_of_nodup_map once entryMem listed same
      rw [← isOwn, planned]
  | none =>
      cases planned : read.plan t with
      | rewrite ordered =>
          have entryMem : (t, ordered) ∈ read.reorders txs :=
            List.mem_filterMap.mpr ⟨t, listed, by rw [planned]⟩
          have absent := List.find?_eq_none.mp found (t, ordered) entryMem
          simp only [decide_true, not_true_eq_false] at absent
      | fill => rfl
      | skip => rfl

theorem outputs_rewriteAll (tables : LineTables)
    (reorders : List (Transaction × List StoredInputRow)) :
    (rewriteAll tables reorders).outputs = tables.outputs := by
  induction reorders generalizing tables with
  | nil => rfl
  | cons entry reorders ih =>
      rw [rewriteAll, List.foldl_cons]
      exact ih _

theorem extraOutputs_congr {first second : LineTables} {t : Transaction}
    (same : (first.outputs.select fun row => decide (row.txSeq = t.txSeq)) =
      second.outputs.select fun row => decide (row.txSeq = t.txSeq)) :
    extraOutputs first t = extraOutputs second t := by
  unfold extraOutputs
  rw [same]

/-- A batch does to each of its transactions what it would do to it alone. -/
theorem own_backfillLines (once : (txs.map Transaction.txSeq).Nodup) {t : Transaction}
    (listed : t ∈ txs) :
    (backfillLines kind tables txs).1.own t.txSeq =
      backfillOwn kind (tables.own t.txSeq) t := by
  have same := readStoredInputs_own tables once (List.mem_map_of_mem listed)
  unfold backfillLines backfillOwn
  simp only
  generalize readStoredInputs tables (txs.map Transaction.txSeq) = read at same
  rw [own_dropUnappliedOutputs once listed, own_rewriteAll (reorders_once once read),
    find?_reorders once listed, own_fillInLine once listed, same.plan, same.fills,
    same.filledAssets]
  have extra : extraOutputs (rewriteAll (fillInLine kind tables read txs) (read.reorders txs)) t =
      extraOutputs (tables.own t.txSeq) t := by
    refine extraOutputs_congr ?_
    rw [outputs_rewriteAll]
    exact (@Table.select_only _ _ TransactionOutputRow.key (fun k => decide (k.1 = t.txSeq))
      tables.outputs (fun row => decide (row.txSeq = t.txSeq)) fun _ isSeq => isSeq).symm
  rw [extra]
  cases (readStoredInputs (tables.own t.txSeq) [t.txSeq]).plan t with
  | fill => rfl
  | rewrite ordered => rfl
  | skip => rfl

/-- A batch leaves other transactions alone. -/
theorem own_backfillLines_of_notMem (once : (txs.map Transaction.txSeq).Nodup)
    (unlisted : seq ∉ txs.map Transaction.txSeq) :
    (backfillLines kind tables txs).1.own seq = tables.own seq := by
  unfold backfillLines
  simp only
  generalize readStoredInputs tables (txs.map Transaction.txSeq) = read
  rw [own_dropUnappliedOutputs_of_notMem once unlisted, own_rewriteAll (reorders_once once read)]
  have absent : ((read.reorders txs).find? fun entry => decide (entry.1.txSeq = seq)) = none := by
    rw [List.find?_eq_none]
    intro entry entryMem same
    obtain ⟨other, otherMem, isEntry⟩ := List.mem_filterMap.mp entryMem
    have isOther : entry.1 = other := by
      cases planned : read.plan other <;> rw [planned] at isEntry <;> cases isEntry
      rfl
    exact unlisted (of_decide_eq_true same ▸ List.mem_map_of_mem (isOther ▸ otherMem))
  rw [absent]
  exact own_fillInLine_of_notMem once unlisted read

end Batch

end Odatano
