import Odatano.ServedBlocks

/-!
# The outputs of an indexed chain

The tables that a chain was indexed into hold the outputs of its transactions, each under the
position of its transaction and with all its amounts.
-/

namespace Odatano

section Chain

variable [Bech32] (coverage : CrawlCoverage)

/-- The prepared transactions of a chain. -/
def preparedTxs (store : CrawlStore) (chain : List IndexedBlock) : List Transaction :=
  (preparedChain coverage store chain).flatMap fun entry => entry.2.txs

variable {coverage} {store : CrawlStore} {chain : List IndexedBlock}

/-- A column that preparation does not change, along a chain. -/
theorem map_preparedTxs {α : Type*} (column : Transaction → α)
    (kept : ∀ t inputs fee, column { t with inputs, fee } = column t) (store : CrawlStore)
    (chain : List IndexedBlock) :
    (preparedTxs coverage store chain).map column = chain.flatMap fun b => b.txs.map column := by
  induction chain generalizing store with
  | nil => rfl
  | cons b chain ih =>
      rw [preparedTxs, preparedChain, List.flatMap_cons, List.map_append, List.flatMap_cons,
        map_prepareBlock_txs column kept]
      exact congrArg _ (ih (indexBlock coverage store b))

/-- No two transactions of a chain have one position. -/
theorem preparedTxs_seqs_nodup (valid : ValidChain store chain)
    (numbered : ∀ b ∈ chain, Numbered b) :
    ((preparedTxs coverage store chain).map Transaction.txSeq).Nodup := by
  rw [map_preparedTxs Transaction.txSeq (fun _ _ _ => rfl), List.nodup_flatMap]
  constructor
  · intro b bMem
    exact txSeqs_nodup (valid.wellFormed b bMem) (numbered b bMem).indexes_nodup
  · refine valid.ordered.imp_of_mem fun {b c} bMem cMem precedes => ?_
    intro txSeq first second
    have owns : b.Owns (.position txSeq) := first
    exact precedes.not_owns (valid.wellFormed b bMem) (valid.wellFormed c cMem) owns second

/-- The rows of a table that the block of a transaction does not show in. -/
theorem rows_eq_flatMap_preparedTxs (valid : ValidChain CrawlStore.empty chain)
    (keyed : KeyedChain coverage CrawlStore.empty chain) {table : CrawlTable}
    (isChild : table ≠ .blocks) {rowsOf : Transaction → List table.Row}
    (same : ∀ block t, rowsOfTransaction coverage block t table = rowsOf t) :
    (indexChain coverage CrawlStore.empty chain table).rows =
      (preparedTxs coverage CrawlStore.empty chain).flatMap rowsOf := by
  rw [rows_indexChain valid keyed, chainRows_eq_flatMap _ _ isChild, preparedTxs, List.flatMap_assoc]
  refine (List.nil_append _).trans (List.flatMap_congr fun entry _ => ?_)
  exact List.flatMap_congr fun t _ => same entry.2.block t

/-- A chain whose tables are read line by line. -/
structure LinedChain (coverage : CrawlCoverage) (chain : List IndexedBlock) : Prop where
  valid : ValidChain CrawlStore.empty chain
  keyed : KeyedChain coverage CrawlStore.empty chain
  numbered : ∀ b ∈ chain, Numbered b
  outputs : ∀ b ∈ chain, ∀ t ∈ b.txs, (t.outputs.map TxOutputLine.outputIndex).Nodup

namespace LinedChain

theorem rows_transactions (lined : LinedChain coverage chain) :
    (indexChain coverage CrawlStore.empty chain .transactions).rows =
      (preparedTxs coverage CrawlStore.empty chain).map mapTransaction := by
  rw [rows_eq_flatMap_preparedTxs lined.valid lined.keyed (by decide) fun _ t =>
    rowsOfTransaction_transactions _ _ t, List.map_eq_flatMap]

theorem rows_outputs (lined : LinedChain coverage chain) :
    (indexChain coverage CrawlStore.empty chain .transactionOutputs).rows =
      (preparedTxs coverage CrawlStore.empty chain).flatMap fun t =>
        mapTransactionOutputs t.txSeq t.outputs :=
  rows_eq_flatMap_preparedTxs lined.valid lined.keyed (by decide) fun _ t =>
    rowsOfTransaction_outputs _ _ t

theorem rows_outputAssets (lined : LinedChain coverage chain) :
    (indexChain coverage CrawlStore.empty chain .transactionOutputAssets).rows =
      (preparedTxs coverage CrawlStore.empty chain).flatMap fun t =>
        mapTransactionOutputAssets t.txSeq t.outputs :=
  rows_eq_flatMap_preparedTxs lined.valid lined.keyed (by decide) fun _ t =>
    rowsOfTransaction_outputAssets _ _ t

theorem seqs_nodup (lined : LinedChain coverage chain) :
    ((preparedTxs coverage CrawlStore.empty chain).map Transaction.txSeq).Nodup :=
  preparedTxs_seqs_nodup lined.valid lined.numbered

theorem outputs_nodup (lined : LinedChain coverage chain) {t : Transaction}
    (tMem : t ∈ preparedTxs coverage CrawlStore.empty chain) :
    (t.outputs.map TxOutputLine.outputIndex).Nodup := by
  have member := List.mem_map_of_mem (f := fun t => t.outputs.map TxOutputLine.outputIndex) tMem
  rw [map_preparedTxs _ fun _ _ _ => rfl] at member
  obtain ⟨b, bMem, member⟩ := List.mem_flatMap.mp member
  obtain ⟨u, uMem, same⟩ := List.mem_map.mp member
  exact same ▸ lined.outputs b bMem u uMem

/-- Transactions with one position are one. -/
theorem eq_of_txSeq (lined : LinedChain coverage chain) {t u : Transaction}
    (tMem : t ∈ preparedTxs coverage CrawlStore.empty chain)
    (uMem : u ∈ preparedTxs coverage CrawlStore.empty chain) (same : t.txSeq = u.txSeq) : t = u :=
  List.inj_on_of_nodup_map lined.seqs_nodup tMem uMem same

/-- A stored output is an output of the chain, with all its amounts. -/
theorem output_of_storedAt (lined : LinedChain coverage chain) {key : Outpoint}
    {out : TransactionOutputRow} {row : TransactionRow}
    (at_ : StoredAt (indexChain coverage CrawlStore.empty chain) key out row) :
    ∃ t ∈ preparedTxs coverage CrawlStore.empty chain, t.hash = key.txHash ∧ ∃ o ∈ t.outputs,
      o.outputIndex = key.outputIndex ∧ out.address = o.address ∧
        storedAmounts (indexChain coverage CrawlStore.empty chain) out = o.amount.amounts := by
  have isRow := at_.transaction
  rw [lined.rows_transactions] at isRow
  obtain ⟨t, tMem, rfl⟩ := List.mem_map.mp isRow
  have isOutput := at_.output
  rw [lined.rows_outputs] at isOutput
  obtain ⟨u, uMem, isOutput⟩ := List.mem_flatMap.mp isOutput
  obtain ⟨o, oMem, rfl⟩ := List.mem_map.mp isOutput
  cases lined.eq_of_txSeq tMem uMem (Option.some.inj at_.position)
  refine ⟨t, tMem, at_.hash, o, oMem, at_.index, rfl, ?_⟩
  have assets : (indexChain coverage CrawlStore.empty chain .transactionOutputAssets).rows.filter
      (fun row => decide (row.txSeq = t.txSeq)) = mapTransactionOutputAssets t.txSeq t.outputs := by
    rw [lined.rows_outputAssets]
    exact filter_flatMap_of_key (fun u _ row rowMem => txSeq_of_mem_outputAssets rowMem)
      lined.seqs_nodup tMem
  have line := filter_flatMap_lineAssets t.txSeq TxOutputLine.outputIndex
    (fun output => output.amount.amounts) (lined.outputs_nodup tMem) oMem
  have both : (indexChain coverage CrawlStore.empty chain .transactionOutputAssets).rows.filter
      (fun row => decide (row.txSeq = t.txSeq ∧ row.lineIndex = o.outputIndex)) =
        lineAssets t.txSeq o.outputIndex o.amount.amounts := by
    rw [← line, ← mapTransactionOutputAssets, ← assets, List.filter_filter]
    refine List.filter_congr fun row _ => ?_
    rw [← Bool.decide_and, decide_eq_decide, and_comm]
  simp only [storedAmounts, storedAssets, Table.select]
  rw [both, lineAssets, List.map_map]
  exact List.map_id o.amount.amounts

/-- An output row under the position of a transaction is stored as its output. -/
theorem storedIn_of_outputs (lined : LinedChain coverage chain) {key : Outpoint}
    {row : TransactionRow} {out : TransactionOutputRow}
    (rowMem : row ∈ (indexChain coverage CrawlStore.empty chain .transactions).rows)
    (outMem : out ∈ (indexChain coverage CrawlStore.empty chain .transactionOutputs).rows)
    (hash : row.hash = key.txHash) (position : row.txSeq = some out.txSeq)
    (index : out.outputIndex = key.outputIndex) :
    StoredIn (indexChain coverage CrawlStore.empty chain) key := by
  refine ⟨out, row, ⟨rowMem, outMem, hash, position, index⟩, fun other otherMem same => ?_⟩
  rw [lined.rows_transactions] at rowMem otherMem
  obtain ⟨t, tMem, rfl⟩ := List.mem_map.mp rowMem
  obtain ⟨u, uMem, rfl⟩ := List.mem_map.mp otherMem
  rw [lined.eq_of_txSeq uMem tMem (Option.some.inj same)]

/-- An asset row under the position of a transaction belongs to a stored output. -/
theorem storedIn_of_assets (lined : LinedChain coverage chain) {key : Outpoint}
    {row : TransactionRow} {asset : LineAssetRow}
    (rowMem : row ∈ (indexChain coverage CrawlStore.empty chain .transactions).rows)
    (assetMem : asset ∈ (indexChain coverage CrawlStore.empty chain .transactionOutputAssets).rows)
    (hash : row.hash = key.txHash) (position : row.txSeq = some asset.txSeq)
    (index : asset.lineIndex = key.outputIndex) :
    StoredIn (indexChain coverage CrawlStore.empty chain) key := by
  rw [lined.rows_outputAssets] at assetMem
  obtain ⟨u, uMem, assetMem⟩ := List.mem_flatMap.mp assetMem
  obtain ⟨o, oMem, assetMem⟩ := List.mem_flatMap.mp assetMem
  obtain ⟨a, -, rfl⟩ := List.mem_map.mp assetMem
  obtain ⟨out, outMem, outSeq, outIndex⟩ :
      ∃ out ∈ mapTransactionOutputs u.txSeq u.outputs,
        out.txSeq = u.txSeq ∧ out.outputIndex = o.outputIndex :=
    ⟨_, List.mem_map_of_mem oMem, rfl, rfl⟩
  refine lined.storedIn_of_outputs rowMem ?_ hash (position.trans (congrArg some outSeq.symm))
    (outIndex.trans index)
  rw [lined.rows_outputs]
  exact List.mem_flatMap.mpr ⟨u, uMem, outMem⟩

/-- An input without an address stays as it is where no more is stored than the chain, and its
output is not. -/
theorem fill_of_not_stored (lined : LinedChain coverage chain) {replica : CrawlStore}
    (within : ∀ table, ∀ row ∈ (replica table).rows,
      row ∈ (indexChain coverage CrawlStore.empty chain table).rows) (hashes : List TxHash)
    {input : TxInputLine} (bare : input.amount = [])
    (absent : ¬StoredIn (indexChain coverage CrawlStore.empty chain) input.outpoint) :
    (readStoredOutputs replica hashes).fill input = input := by
  have noOutput : OrderedMap.get? (readStoredOutputs replica hashes).outByKey input.outpoint = none := by
    refine Option.eq_none_iff_forall_ne_some.mpr fun out found => ?_
    obtain ⟨⟨row, at_⟩, -⟩ := readStoredOutputs_sound found
    exact absent (lined.storedIn_of_outputs (within .transactions row at_.transaction)
      (within .transactionOutputs out at_.output) at_.hash at_.position at_.index)
  have noAssets :
      (OrderedMap.get? (readStoredOutputs replica hashes).amtByKey input.outpoint).getD [] = [] := by
    rw [getD_amtByKey]
    refine List.filter_eq_nil_iff.mpr fun asset assetMem isKey => ?_
    obtain ⟨index, row, rowMem, hash, position⟩ :=
      transaction_of_readOutpoint (of_decide_eq_true isKey)
    obtain ⟨piece, -, assetMem⟩ := List.mem_flatMap.mp assetMem
    exact absent (lined.storedIn_of_assets (within .transactions row rowMem)
      (within .transactionOutputAssets asset (Table.mem_select.mp assetMem).1) hash position index)
  have amount : ((OrderedMap.get? (readStoredOutputs replica hashes).amtByKey input.outpoint).map
      fun rows => rows.map fun r => (⟨r.unit, r.quantity⟩ : Amount)).getD input.amount =
        input.amount := by
    cases found : OrderedMap.get? (readStoredOutputs replica hashes).amtByKey input.outpoint with
    | none => rfl
    | some rows =>
        rw [found, Option.getD_some] at noAssets
        rw [Option.map_some, Option.getD_some, noAssets, bare, List.map_nil]
  rw [StoredOutputs.fill, noOutput, amount]
  rfl

variable {txs : List Transaction} {ledger : Option LedgerDb} {paid : ChainOutputs}

/-- Only an input that can be resolved gets an address. -/
theorem resolvable_of_addressed (lined : LinedChain coverage chain)
    (holds : HoldChain (indexChain coverage CrawlStore.empty chain) txs ledger paid)
    {t : Transaction} (tMem : t ∈ txs) {input : TxInputLine} (inputMem : input ∈ t.inputs)
    (addressed : (resolveInput (indexChain coverage CrawlStore.empty chain) txs ledger
      input).address ≠ "") :
    Resolvable (indexChain coverage CrawlStore.empty chain) txs ledger input := by
  unfold resolveInput at addressed
  split at addressed
  · exact Or.inl addressed
  · rename_i unfilled
    have isBare := Classical.not_not.mp unfilled
    split at addressed
    · rename_i own found
      obtain ⟨source, sourceMem, ownMem, isKey⟩ := mem_blockOutputs found
      exact Or.inr (Or.inl ⟨source, sourceMem, own, ownMem, isKey⟩)
    · rename_i notOwn
      have asked : input ∈ unresolvedInputs txs := by
        refine List.mem_filter.mpr ⟨List.mem_flatMap.mpr ⟨t, tMem, inputMem⟩, ?_⟩
        rw [notOwn, decide_eq_true isBare]
        rfl
      split at addressed
      · rename_i row amount found
        cases isLedger : ledger with
        | none =>
            rw [isLedger] at found
            cases found
        | some db =>
            rw [ledgerOutput_eq holds isLedger asked] at found
            obtain ⟨stored, isStored, -⟩ := Option.map_eq_some_iff.mp found
            exact Or.inr (Or.inr (Or.inl ⟨db, rfl, isStored ▸ rfl⟩))
      · cases found : OrderedMap.get? (readStoredOutputs
            (indexChain coverage CrawlStore.empty chain)
            (sourceHashes txs ledger)).outByKey input.outpoint with
        | none =>
            rw [StoredOutputs.fill, found] at addressed
            exact absurd isBare addressed
        | some out =>
            obtain ⟨⟨row, at_⟩, -⟩ := readStoredOutputs_sound found
            exact Or.inr (Or.inr (Or.inr (lined.storedIn_of_outputs at_.transaction at_.output
              at_.hash at_.position at_.index)))

end LinedChain

end Chain

end Odatano
