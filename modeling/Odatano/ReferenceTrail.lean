import Odatano.AssetDecimals
import Odatano.ChainRows
import Odatano.LatestValue
import Odatano.MintDerivation

/-!
# The trail of a reference token

Where the outputs of a chain hold a reference token, each transaction that makes such an output
spends the one before, `currentReferenceDatum` walks along them and ends with the last datum.
-/

namespace Odatano

/-- The transactions of a chain, in order. -/
def chainTxs (chain : List IndexedBlock) : List Transaction := chain.flatMap IndexedBlock.txs

theorem mem_chainTxs {chain : List IndexedBlock} {t : Transaction} :
    t ∈ chainTxs chain ↔ ∃ b ∈ chain, t ∈ b.txs :=
  List.mem_flatMap

theorem chainTxs_append (first rest : List IndexedBlock) :
    chainTxs (first ++ rest) = chainTxs first ++ chainTxs rest :=
  List.flatMap_append

/-! ## Columns of an indexed chain -/

section Columns

variable [Bech32] {coverage : CrawlCoverage}

/-- The columns of a chain's rows that preparation leaves alone. -/
theorem map_chainRows {γ : Type} {table : CrawlTable} (isChild : table ≠ .blocks)
    (column : table.Row → γ) (columns : Transaction → List γ)
    (kept : ∀ block (t : Transaction) (resolve : TxInputLine → TxInputLine) fee,
      (∀ i, (resolve i).outpoint = i.outpoint ∧ (resolve i).isCollateral = i.isCollateral ∧
        (resolve i).isReference = i.isReference) →
      (rowsOfTransaction coverage block { t with inputs := t.inputs.map resolve, fee } table).map
        column = columns t) (store : CrawlStore) (chain : List IndexedBlock) :
    (chainRows coverage store chain table).map column = (chainTxs chain).flatMap columns := by
  induction chain generalizing store with
  | nil => rfl
  | cons b rest ih =>
      have here : (blockRows coverage store b table).map column = b.txs.flatMap columns := by
        rw [blockRows_eq_flatMap coverage store b isChild, List.map_flatMap, prepareBlock_map,
          List.flatMap_map]
        refine List.flatMap_congr fun t _ => ?_
        exact kept _ t _ _ (resolveInput_keeps store b.txs b.ledger)
      rw [chainRows, List.map_append, here, ih, chainTxs, chainTxs, List.flatMap_cons,
        List.flatMap_append]

theorem map_indexChain {γ : Type} {base : CrawlStore} {chain : List IndexedBlock}
    (valid : ValidChain base chain) (keyed : KeyedChain coverage base chain) {table : CrawlTable}
    (isChild : table ≠ .blocks) (column : table.Row → γ) (columns : Transaction → List γ)
    (kept : ∀ block (t : Transaction) (resolve : TxInputLine → TxInputLine) fee,
      (∀ i, (resolve i).outpoint = i.outpoint ∧ (resolve i).isCollateral = i.isCollateral ∧
        (resolve i).isReference = i.isReference) →
      (rowsOfTransaction coverage block { t with inputs := t.inputs.map resolve, fee } table).map
        column = columns t) :
    (indexChain coverage base chain table).rows.map column =
      (base table).rows.map column ++ (chainTxs chain).flatMap columns := by
  rw [rows_indexChain valid keyed, List.map_append, map_chainRows isChild column columns kept]

/-- What the followed trail reads of a transaction row. -/
def TransactionRow.place (row : TransactionRow) : TxHash × Option Nat := (row.hash, row.txSeq)

/-- What the followed trail reads of an input row. -/
structure SpentLine where
  txSeq : Nat
  outpoint : Outpoint
  isCollateral : Bool
  isReference : Bool

def TransactionInputRow.spentLine (row : TransactionInputRow) : SpentLine :=
  ⟨row.txSeq, ⟨row.spentTxHash, row.spentOutputIndex⟩, row.isCollateral, row.isReference⟩

def Transaction.spentLines (t : Transaction) : List SpentLine :=
  t.inputs.map fun i => ⟨t.txSeq, i.outpoint, i.isCollateral, i.isReference⟩

def TransactionOutputRow.heldData (row : TransactionOutputRow) : (Nat × Nat) × UtxoData :=
  ((row.txSeq, row.outputIndex), row.utxo)

def LineAssetRow.heldUnit (row : LineAssetRow) : (Nat × Nat) × AssetUnit :=
  ((row.txSeq, row.lineIndex), row.unit)

def Transaction.heldUnits (t : Transaction) : List ((Nat × Nat) × AssetUnit) :=
  t.outputs.flatMap fun o => o.amount.amounts.map fun a => ((t.txSeq, o.outputIndex), a.unit)

def TransactionDatumRow.revealed (row : TransactionDatumRow) : String × String :=
  (row.dataHash, row.datum)

def Transaction.revealed (t : Transaction) : List (String × String) :=
  (t.datums.getD []).map fun d => (d.hash, d.cbor)

variable {base : CrawlStore} {chain : List IndexedBlock}

section Indexed

variable (valid : ValidChain base chain) (keyed : KeyedChain coverage base chain)
include valid keyed

theorem transactionColumns :
    (indexChain coverage base chain .transactions).rows.map TransactionRow.place =
      (base .transactions).rows.map TransactionRow.place ++
        (chainTxs chain).flatMap fun t => [(t.hash, some t.txSeq)] := by
  have isChild : CrawlTable.transactions ≠ .blocks := by decide
  refine map_indexChain valid keyed isChild _ _ fun block t resolve fee keeps => ?_
  rfl

theorem inputColumns :
    (indexChain coverage base chain .transactionInputs).rows.map TransactionInputRow.spentLine =
      (base .transactionInputs).rows.map TransactionInputRow.spentLine ++
        (chainTxs chain).flatMap Transaction.spentLines := by
  have isChild : CrawlTable.transactionInputs ≠ .blocks := by decide
  refine map_indexChain valid keyed isChild _ _ fun block t resolve fee keeps => ?_
  simp only [rowsOfTransaction, transactionBatch, assetHistoryBatch, List.flatMap_cons,
    List.flatMap_nil, List.append_nil, mapTransactionInputs, Transaction.spentLines]
  refine List.ext_getElem (by simp) fun n _ bound => ?_
  have inputBound : n < t.inputs.length := by simpa using bound
  simp only [List.getElem_map, List.getElem_mapIdx, TransactionInputRow.spentLine]
  obtain ⟨outpoint, isCollateral, isReference⟩ := keeps t.inputs[n]
  rw [isCollateral, isReference, ← outpoint]
  rfl

theorem outputColumns :
    (indexChain coverage base chain .transactionOutputs).rows.map TransactionOutputRow.heldData =
      (base .transactionOutputs).rows.map TransactionOutputRow.heldData ++
        (chainTxs chain).flatMap fun t =>
          t.outputs.map fun o => ((t.txSeq, o.outputIndex), o.data.stored) := by
  have isChild : CrawlTable.transactionOutputs ≠ .blocks := by decide
  refine map_indexChain valid keyed isChild _ _ fun block t resolve fee keeps => ?_
  simp only [rowsOfTransaction, transactionBatch, assetHistoryBatch, List.flatMap_cons,
    List.flatMap_nil, List.append_nil, mapTransactionOutputs, List.map_map]
  rfl

theorem outputAssetColumns :
    (indexChain coverage base chain .transactionOutputAssets).rows.map LineAssetRow.heldUnit =
      (base .transactionOutputAssets).rows.map LineAssetRow.heldUnit ++
        (chainTxs chain).flatMap Transaction.heldUnits := by
  have isChild : CrawlTable.transactionOutputAssets ≠ .blocks := by decide
  refine map_indexChain valid keyed isChild _ _ fun block t resolve fee keeps => ?_
  simp only [rowsOfTransaction, transactionBatch, assetHistoryBatch, List.flatMap_cons,
    List.flatMap_nil, List.append_nil, mapTransactionOutputAssets, List.map_flatMap, lineAssets,
    List.map_map, Transaction.heldUnits]
  rfl

theorem datumColumns :
    (indexChain coverage base chain .transactionDatums).rows.map TransactionDatumRow.revealed =
      (base .transactionDatums).rows.map TransactionDatumRow.revealed ++
        (chainTxs chain).flatMap Transaction.revealed := by
  have isChild : CrawlTable.transactionDatums ≠ .blocks := by decide
  refine map_indexChain valid keyed isChild _ _ fun block t resolve fee keeps => ?_
  simp only [rowsOfTransaction, transactionBatch, assetHistoryBatch, List.flatMap_cons,
    List.flatMap_nil, List.append_nil, mapTransactionDatums, List.map_map, Transaction.revealed]
  rfl

end Indexed

/-- The datums the tables before the chain and the witness sets on it reveal, with their hashes. -/
def revealedData (base : CrawlStore) (txs : List Transaction) : List (String × String) :=
  (base .transactionDatums).rows.map TransactionDatumRow.revealed ++
    txs.flatMap Transaction.revealed

variable (coverage base chain) in
/-- What a chain's data keep to: keys and positions are not shared, a hash names one datum, and an
inline datum has bytes. -/
structure DeliveredChain : Prop where
  keyed : KeyedChain coverage base chain
  indexes : ∀ b ∈ chain, (b.txs.map Transaction.index).Nodup
  datums : ∀ first ∈ revealedData base (chainTxs chain),
    ∀ second ∈ revealedData base (chainTxs chain), first.1 = second.1 → first = second
  inline : ∀ t ∈ chainTxs chain, ∀ o ∈ t.outputs, o.data.inlineDatum ≠ some ""

variable (coverage base chain) in
/-- The tables of a chain that was indexed. -/
structure FollowedTables (store : CrawlStore) : Prop extends
    DeliveredChain coverage base chain where
  valid : ValidChain base chain
  tables : store = indexChain coverage base chain

end Columns

/-- The output holds a unit. -/
def TxOutputLine.holds (unit : AssetUnit) (o : TxOutputLine) : Bool :=
  decide (unit ∈ o.amount.amounts.map Amount.unit)

/-- The transaction consumes an output: with a regular input or, in a phase-2 failure, which comes
without regular inputs, with its collateral. -/
def Transaction.Consumes (t : Transaction) (spent : Outpoint) : Prop :=
  (∃ i ∈ t.consumed, i.outpoint = spent) ∨
    (t.consumed = [] ∧ ∃ i ∈ t.inputs, i.isReference = false ∧ i.outpoint = spent)

/-- The datum a hash names, as far as the chain reveals it. -/
def revealedDatum (base : CrawlStore) (txs : List Transaction) (dataHash : String) :
    Option String :=
  ((revealedData base txs).find? fun datum => decide (datum.1 = dataHash)).map Prod.snd

/-- The datum of an output, as far as the chain reveals it. -/
def chainDatum (base : CrawlStore) (txs : List Transaction) (o : TxOutputLine) : Option String :=
  (orNull o.data.inlineDatum).or ((orNull o.data.dataHash).bind (revealedDatum base txs))

def heldAt (held : Transaction × TxOutputLine) : Outpoint := ⟨held.1.hash, held.2.outputIndex⟩

/-- Outputs that hold a token, each made by the transaction that consumed the one before: the token
is in one output at a time, and after the last one it is burned or not moved. -/
structure ReferenceTrail (base : CrawlStore) (txs : List Transaction) (unit : AssetUnit)
    (trail : List (Transaction × TxOutputLine)) : Prop where
  held : ∀ held ∈ trail, held.1 ∈ txs ∧
    held.1.outputs.filter (TxOutputLine.holds unit) = [held.2]
  moves : trail.IsChain fun held next => next.1.Consumes (heldAt held)
  spentOnce : ∀ held ∈ trail, ∀ t ∈ txs, ∀ u ∈ txs, t.Consumes (heldAt held) →
    u.Consumes (heldAt held) → t = u
  ends : ∀ last, trail.getLast? = some last → ∀ t ∈ txs, t.Consumes (heldAt last) →
    t.outputs.filter (TxOutputLine.holds unit) = []
  -- nothing stored before the chain spends an output of it
  quiet : ∀ held ∈ trail, ∀ row ∈ (base .transactionInputs).rows,
    (⟨row.spentTxHash, row.spentOutputIndex⟩ : Outpoint) = heldAt held → row.isReference = true

theorem ReferenceTrail.tail {base : CrawlStore} {txs : List Transaction} {unit : AssetUnit}
    {first second : Transaction × TxOutputLine} {rest : List (Transaction × TxOutputLine)}
    (trail : ReferenceTrail base txs unit (first :: second :: rest)) :
    ReferenceTrail base txs unit (second :: rest) where
  held held member := trail.held held (List.mem_cons_of_mem _ member)
  moves := (List.isChain_cons_cons.mp trail.moves).2
  spentOnce held member := trail.spentOnce held (List.mem_cons_of_mem _ member)
  ends last isLast := trail.ends last (by rw [List.getLast?_cons_cons]; exact isLast)
  quiet held member := trail.quiet held (List.mem_cons_of_mem _ member)

/-! ## Lookups -/

section Lookups

variable [Bech32] {coverage : CrawlCoverage} {base : CrawlStore} {chain : List IndexedBlock}
  {store : CrawlStore}

theorem DeliveredChain.txSeq_inj (valid : ValidChain base chain)
    (delivered : DeliveredChain coverage base chain) {t u : Transaction}
    (tMem : t ∈ chainTxs chain) (uMem : u ∈ chainTxs chain) (same : t.txSeq = u.txSeq) :
    t = u := by
  have nodup : ((chainTxs chain).map Transaction.txSeq).Nodup := by
    rw [chainTxs, List.map_flatMap, List.nodup_flatMap]
    refine ⟨fun b bMem => txSeqs_nodup (valid.wellFormed b bMem) (delivered.indexes b bMem), ?_⟩
    refine valid.ordered.imp_of_mem fun {b c} bMem cMem precedes txSeq first second => ?_
    exact @IndexedBlock.Precedes.not_owns b c precedes (valid.wellFormed b bMem)
      (valid.wellFormed c cMem) (.position txSeq) first second
  exact List.inj_on_of_nodup_map nodup tMem uMem same

section Rows

variable {ρ γ : Type} {rows old : List ρ} {column : ρ → γ} {txs : List Transaction}
  {columns : Transaction → List γ}
  (appended : rows.map column = old.map column ++ txs.flatMap columns)
include appended

omit [Bech32] in
theorem column_of_mem {row : ρ} (rowMem : row ∈ rows) :
    (∃ before ∈ old, column before = column row) ∨ ∃ t ∈ txs, column row ∈ columns t := by
  have member : column row ∈ rows.map column := List.mem_map_of_mem rowMem
  rw [appended, List.mem_append] at member
  rcases member with earlier | later
  · exact Or.inl (List.mem_map.mp earlier)
  · exact Or.inr (List.mem_flatMap.mp later)

omit [Bech32] in
theorem row_of_mem_columns {t : Transaction} (tMem : t ∈ txs) {value : γ}
    (valueMem : value ∈ columns t) : ∃ row ∈ rows, column row = value := by
  have member : value ∈ old.map column ++ txs.flatMap columns :=
    List.mem_append_right _ (List.mem_flatMap.mpr ⟨t, tMem, valueMem⟩)
  rw [← appended] at member
  exact List.mem_map.mp member

end Rows

namespace FollowedTables

variable (followed : FollowedTables coverage base chain store)
include followed

/-- Nothing stored before the chain takes a position of it. -/
theorem not_owned {t : Transaction} (tMem : t ∈ chainTxs chain) {table : CrawlTable}
    {row : table.Row} (rowMem : row ∈ (base table).rows) :
    table.owner (table.key row) ≠ .position t.txSeq := by
  intro owner
  obtain ⟨b, bMem, here⟩ := mem_chainTxs.mp tMem
  refine (followed.valid.untouched b bMem).owners table row rowMem ?_
  rw [owner]
  exact List.mem_map_of_mem here

theorem transactions : (store .transactions).rows.map TransactionRow.place =
    (base .transactions).rows.map TransactionRow.place ++
      (chainTxs chain).flatMap fun t => [(t.hash, some t.txSeq)] :=
  followed.tables ▸ transactionColumns followed.valid followed.keyed

/-- The position a transaction of the chain is stored under. -/
theorem txSeq_of_hash {t : Transaction} (tMem : t ∈ chainTxs chain) :
    ((store .transactions).find? t.hash).bind TransactionRow.txSeq = some t.txSeq := by
  obtain ⟨row, rowMem, place⟩ := row_of_mem_columns followed.transactions tMem
    (List.mem_singleton_self (t.hash, some t.txSeq))
  have hash : row.hash = t.hash := congrArg Prod.fst place
  have found : (store .transactions).find? t.hash = some row :=
    Table.find?_eq_some_iff.mpr ⟨rowMem, hash⟩
  rw [found]
  exact congrArg Prod.snd place

/-- The transaction stored under a position of the chain. -/
theorem hash_of_txSeq {t : Transaction} (tMem : t ∈ chainTxs chain) :
    ((store .transactions).rows.find? fun row => decide (row.txSeq = some t.txSeq)).map
      TransactionRow.hash = some t.hash := by
  obtain ⟨row, rowMem, place⟩ := row_of_mem_columns followed.transactions tMem
    (List.mem_singleton_self (t.hash, some t.txSeq))
  cases found : (store .transactions).rows.find? fun row => decide (row.txSeq = some t.txSeq) with
  | none =>
      have missed := List.find?_eq_none.mp found row rowMem
      rw [decide_eq_true_eq] at missed
      exact absurd (congrArg Prod.snd place) missed
  | some other =>
      have stored : other.txSeq = some t.txSeq := by simpa using List.find?_some found
      rcases column_of_mem followed.transactions (List.mem_of_find?_eq_some found) with
        ⟨before, beforeMem, same⟩ | ⟨u, uMem, same⟩
      · obtain ⟨b, bMem, here⟩ := mem_chainTxs.mp tMem
        have position : before.txSeq = some t.txSeq := (congrArg Prod.snd same).trans stored
        refine absurd ?_ ((followed.valid.untouched b bMem).positions before beforeMem _ position)
        exact (followed.valid.wellFormed b bMem).slot_of_owns (List.mem_map_of_mem here)
      · have same := List.mem_singleton.mp same
        have seq : u.txSeq = t.txSeq :=
          Option.some.inj ((congrArg Prod.snd same).symm.trans stored)
        have isT := followed.txSeq_inj followed.valid uMem tMem seq
        exact congrArg some ((congrArg Prod.fst same).trans (congrArg Transaction.hash isT))

theorem outputs : (store .transactionOutputs).rows.map TransactionOutputRow.heldData =
    (base .transactionOutputs).rows.map TransactionOutputRow.heldData ++
      (chainTxs chain).flatMap fun t =>
        t.outputs.map fun o => ((t.txSeq, o.outputIndex), o.data.stored) :=
  followed.tables ▸ outputColumns followed.valid followed.keyed

/-- The stored data of an output of the chain. -/
theorem data_of_output {t : Transaction} (tMem : t ∈ chainTxs chain) {o : TxOutputLine}
    (oMem : o ∈ t.outputs) :
    ((store .transactionOutputs).rows.find? fun row =>
      decide (row.txSeq = t.txSeq) && decide (row.outputIndex = o.outputIndex)).map
        TransactionOutputRow.utxo = some o.data.stored := by
  obtain ⟨row, rowMem, held⟩ := row_of_mem_columns followed.outputs tMem
    (List.mem_map_of_mem (f := fun o => ((t.txSeq, o.outputIndex), o.data.stored)) oMem)
  have key : (row.txSeq, row.outputIndex) = (t.txSeq, o.outputIndex) := congrArg Prod.fst held
  cases found : (store .transactionOutputs).rows.find? fun row =>
      decide (row.txSeq = t.txSeq) && decide (row.outputIndex = o.outputIndex) with
  | none =>
      have missed := List.find?_eq_none.mp found row rowMem
      simp only [Prod.mk.injEq] at key
      simp [key] at missed
  | some other =>
      have chosen := List.find?_some found
      simp only [Bool.and_eq_true, decide_eq_true_eq] at chosen
      have sameKey : (other.txSeq, other.outputIndex) = (row.txSeq, row.outputIndex) := by
        rw [key, chosen.1, chosen.2]
      have same := Table.mem_rows_inj (List.mem_of_find?_eq_some found) rowMem sameKey
      rw [same]
      exact congrArg (fun held => some held.2) held

theorem outputAssets : (store .transactionOutputAssets).rows.map LineAssetRow.heldUnit =
    (base .transactionOutputAssets).rows.map LineAssetRow.heldUnit ++
      (chainTxs chain).flatMap Transaction.heldUnits :=
  followed.tables ▸ outputAssetColumns followed.valid followed.keyed

/-- A row that places a unit in a transaction of the chain. -/
theorem holder_of_row {t : Transaction} (tMem : t ∈ chainTxs chain) {unit : AssetUnit}
    {row : LineAssetRow} (rowMem : row ∈ (store .transactionOutputAssets).rows)
    (chosen : (decide (row.txSeq = t.txSeq) && decide (row.unit = unit)) = true) :
    ∃ o ∈ t.outputs, o.holds unit = true ∧ row.lineIndex = o.outputIndex := by
  simp only [Bool.and_eq_true, decide_eq_true_eq] at chosen
  rcases column_of_mem followed.outputAssets rowMem with ⟨old, oldMem, same⟩ | ⟨u, uMem, held⟩
  · have position : old.txSeq = t.txSeq :=
      (congrArg (fun held => held.1.1) same).trans chosen.1
    exact absurd (congrArg RowOwner.position position)
      (@not_owned _ _ _ _ _ followed t tMem .transactionOutputAssets old oldMem)
  · obtain ⟨o, oMem, listed⟩ := List.mem_flatMap.mp held
    obtain ⟨a, aMem, same⟩ := List.mem_map.mp listed
    simp only [LineAssetRow.heldUnit, Prod.mk.injEq] at same
    have isT := followed.txSeq_inj followed.valid uMem tMem (same.1.1.trans chosen.1)
    subst isT
    refine ⟨o, oMem, decide_eq_true ?_, same.1.2.symm⟩
    exact List.mem_map.mpr ⟨a, aMem, same.2.trans chosen.2⟩

/-- The row that says where a transaction of the chain holds a unit. -/
theorem line_of_holder {t : Transaction} (tMem : t ∈ chainTxs chain) {unit : AssetUnit}
    {o : TxOutputLine} (alone : t.outputs.filter (TxOutputLine.holds unit) = [o]) :
    ((store .transactionOutputAssets).rows.find? fun row =>
      decide (row.txSeq = t.txSeq) && decide (row.unit = unit)).map LineAssetRow.lineIndex =
        some o.outputIndex := by
  have oMem : o ∈ t.outputs.filter (TxOutputLine.holds unit) := alone ▸ List.mem_singleton_self o
  obtain ⟨oMem, holds⟩ := List.mem_filter.mp oMem
  obtain ⟨a, aMem, isUnit⟩ := List.mem_map.mp (of_decide_eq_true holds)
  have listed : ((t.txSeq, o.outputIndex), unit) ∈ t.heldUnits :=
    List.mem_flatMap.mpr ⟨o, oMem, List.mem_map.mpr ⟨a, aMem, by rw [isUnit]⟩⟩
  obtain ⟨row, rowMem, held⟩ := row_of_mem_columns followed.outputAssets tMem listed
  cases found : (store .transactionOutputAssets).rows.find? fun row =>
      decide (row.txSeq = t.txSeq) && decide (row.unit = unit) with
  | none =>
      have missed := List.find?_eq_none.mp found row rowMem
      simp only [LineAssetRow.heldUnit, Prod.mk.injEq] at held
      simp [held] at missed
  | some other =>
      have chosen : (decide (other.txSeq = t.txSeq) && decide (other.unit = unit)) = true := by
        simpa using List.find?_some found
      obtain ⟨line, lineMem, lineHolds, index⟩ := followed.holder_of_row tMem
        (List.mem_of_find?_eq_some found) chosen
      have isHolder : line ∈ t.outputs.filter (TxOutputLine.holds unit) :=
        List.mem_filter.mpr ⟨lineMem, lineHolds⟩
      rw [alone] at isHolder
      rw [← List.mem_singleton.mp isHolder]
      exact congrArg some index

/-- No row says that a transaction of the chain holds a unit where none of its outputs does. -/
theorem no_holder {t : Transaction} (tMem : t ∈ chainTxs chain) {unit : AssetUnit}
    (none : t.outputs.filter (TxOutputLine.holds unit) = []) :
    ((store .transactionOutputAssets).rows.find? fun row =>
      decide (row.txSeq = t.txSeq) && decide (row.unit = unit)) = .none := by
  refine List.find?_eq_none.mpr fun row rowMem chosen => ?_
  obtain ⟨line, lineMem, lineHolds, -⟩ := followed.holder_of_row tMem rowMem chosen
  exact List.filter_eq_nil_iff.mp none line lineMem lineHolds

theorem inputs : (store .transactionInputs).rows.map TransactionInputRow.spentLine =
    (base .transactionInputs).rows.map TransactionInputRow.spentLine ++
      (chainTxs chain).flatMap Transaction.spentLines :=
  followed.tables ▸ inputColumns followed.valid followed.keyed

/-- A regular input stored at a position of the chain is one of its transaction. -/
theorem consumed_of_row {t : Transaction} (tMem : t ∈ chainTxs chain)
    {row : TransactionInputRow} (rowMem : row ∈ (store .transactionInputs).rows)
    (position : row.txSeq = t.txSeq) (regular : row.isCollateral = false)
    (spent : row.isReference = false) : t.consumed ≠ [] := by
  rcases column_of_mem followed.inputs rowMem with ⟨old, oldMem, same⟩ | ⟨u, uMem, line⟩
  · have old_position : old.txSeq = t.txSeq := (congrArg SpentLine.txSeq same).trans position
    exact absurd (congrArg RowOwner.position old_position)
      (@not_owned _ _ _ _ _ followed t tMem .transactionInputs old oldMem)
  · obtain ⟨i, iMem, same⟩ := List.mem_map.mp line
    have isT := followed.txSeq_inj followed.valid uMem tMem
      ((congrArg SpentLine.txSeq same).trans position)
    subst isT
    refine List.ne_nil_of_mem (List.mem_filter.mpr ⟨iMem, ?_⟩)
    have collateral : i.isCollateral = false := (congrArg SpentLine.isCollateral same).trans regular
    have reference : i.isReference = false := (congrArg SpentLine.isReference same).trans spent
    rw [collateral, reference]
    rfl

variable {spent : Outpoint}
  (quiet : ∀ row ∈ (base .transactionInputs).rows,
    (⟨row.spentTxHash, row.spentOutputIndex⟩ : Outpoint) = spent → row.isReference = true)
include quiet

/-- An input row that spends an output of the chain is one of a transaction of the chain. -/
theorem spender_of_row {row : TransactionInputRow}
    (rowMem : row ∈ (store .transactionInputs).select fun row =>
      decide (row.spentTxHash = spent.txHash ∧ row.spentOutputIndex = spent.outputIndex) &&
        !row.isReference) :
    ∃ t ∈ chainTxs chain, row.txSeq = t.txSeq ∧ ∃ i ∈ t.inputs, i.outpoint = spent ∧
      i.isReference = false ∧ i.isCollateral = row.isCollateral := by
  obtain ⟨rowMem, chosen⟩ := Table.mem_select.mp rowMem
  simp only [Bool.and_eq_true, decide_eq_true_eq, Bool.not_eq_true'] at chosen
  obtain ⟨⟨hash, index⟩, notReference⟩ := chosen
  have outpoint : (⟨row.spentTxHash, row.spentOutputIndex⟩ : Outpoint) = spent := by
    rw [hash, index]
  rcases column_of_mem followed.inputs rowMem with ⟨old, oldMem, same⟩ | ⟨t, tMem, line⟩
  · have reference := quiet old oldMem ((congrArg SpentLine.outpoint same).trans outpoint)
    have sameReference : old.isReference = row.isReference :=
      congrArg SpentLine.isReference same
    rw [sameReference, notReference] at reference
    cases reference
  · obtain ⟨i, iMem, same⟩ := List.mem_map.mp line
    exact ⟨t, tMem, (congrArg SpentLine.txSeq same).symm, i, iMem,
      (congrArg SpentLine.outpoint same).trans outpoint,
      (congrArg SpentLine.isReference same).trans notReference,
      congrArg SpentLine.isCollateral same⟩

/-- The consumer that is found consumes the output. -/
theorem consumes_of_consumingTx {txSeq : Nat} (found : consumingTx store spent = some txSeq) :
    ∃ t ∈ chainTxs chain, t.Consumes spent ∧ t.txSeq = txSeq := by
  simp only [consumingTx] at found
  split at found
  · rename_i row isRegular
    cases found
    obtain ⟨t, tMem, position, i, iMem, outpoint, reference, collateral⟩ :=
      followed.spender_of_row quiet (List.mem_of_find?_eq_some isRegular)
    have regular : row.isCollateral = false := by simpa using List.find?_some isRegular
    refine ⟨t, tMem, Or.inl ⟨i, List.mem_filter.mpr ⟨iMem, ?_⟩, outpoint⟩, position.symm⟩
    rw [reference, collateral, regular]
    rfl
  · obtain ⟨row, isCandidate, rfl⟩ := Option.map_eq_some_iff.mp found
    obtain ⟨t, tMem, position, i, iMem, outpoint, reference, -⟩ :=
      followed.spender_of_row quiet (List.mem_of_find?_eq_some isCandidate)
    have alone := List.find?_some isCandidate
    rw [Option.isNone_iff_eq_none, List.find?_eq_none] at alone
    refine ⟨t, tMem, Or.inr ⟨?_, i, iMem, reference, outpoint⟩, position.symm⟩
    refine List.eq_nil_iff_forall_not_mem.mpr fun other consumed => ?_
    obtain ⟨otherMem, regular⟩ := List.mem_filter.mp consumed
    simp only [Bool.and_eq_true, Bool.not_eq_true'] at regular
    obtain ⟨stored, storedMem, line⟩ := row_of_mem_columns followed.inputs tMem
      (List.mem_map_of_mem (f := fun i : TxInputLine =>
        (⟨t.txSeq, i.outpoint, i.isCollateral, i.isReference⟩ : SpentLine)) otherMem)
    refine alone stored storedMem ?_
    have storedSeq : stored.txSeq = t.txSeq := congrArg SpentLine.txSeq line
    have storedCollateral : stored.isCollateral = other.isCollateral :=
      congrArg SpentLine.isCollateral line
    have storedReference : stored.isReference = other.isReference :=
      congrArg SpentLine.isReference line
    simp [storedSeq, position, storedCollateral, storedReference, regular]

omit quiet in
/-- Where no consumer is found nothing consumes the output. -/
theorem not_consumes_of_consumingTx (found : consumingTx store spent = none) {t : Transaction}
    (tMem : t ∈ chainTxs chain) : ¬ t.Consumes spent := by
  have listed : ∀ i ∈ t.inputs, i.outpoint = spent → i.isReference = false →
      ∃ row ∈ (store .transactionInputs).select fun row =>
        decide (row.spentTxHash = spent.txHash ∧ row.spentOutputIndex = spent.outputIndex) &&
          !row.isReference, row.txSeq = t.txSeq ∧ row.isCollateral = i.isCollateral := by
    intro i iMem outpoint reference
    obtain ⟨row, rowMem, line⟩ := row_of_mem_columns followed.inputs tMem
      (List.mem_map_of_mem (f := fun i : TxInputLine =>
        (⟨t.txSeq, i.outpoint, i.isCollateral, i.isReference⟩ : SpentLine)) iMem)
    have spends : (⟨row.spentTxHash, row.spentOutputIndex⟩ : Outpoint) = spent :=
      (congrArg SpentLine.outpoint line).trans outpoint
    have notReference : row.isReference = false :=
      (congrArg SpentLine.isReference line).trans reference
    refine ⟨row, Table.mem_select.mpr ⟨rowMem, ?_⟩, congrArg SpentLine.txSeq line,
      congrArg SpentLine.isCollateral line⟩
    rw [← spends, notReference]
    simp
  simp only [consumingTx] at found
  split at found
  · cases found
  · rename_i noRegular
    rw [Option.map_eq_none_iff, List.find?_eq_none] at found
    rw [List.find?_eq_none] at noRegular
    rintro (⟨i, consumed, outpoint⟩ | ⟨alone, i, iMem, reference, outpoint⟩)
    · obtain ⟨iMem, regular⟩ := List.mem_filter.mp consumed
      simp only [Bool.and_eq_true, Bool.not_eq_true'] at regular
      obtain ⟨row, rowMem, -, collateral⟩ := listed i iMem outpoint regular.1
      refine noRegular row rowMem ?_
      rw [collateral, regular.2]
      rfl
    · obtain ⟨row, rowMem, position, -⟩ := listed i iMem outpoint reference
      have isNone : ((store .transactionInputs).rows.find? fun other =>
          decide (other.txSeq = row.txSeq) &&
            (!other.isCollateral && !other.isReference)) = none := by
        refine List.find?_eq_none.mpr fun other otherMem chosen => ?_
        simp only [Bool.and_eq_true, decide_eq_true_eq, Bool.not_eq_true'] at chosen
        exact followed.consumed_of_row tMem otherMem (chosen.1.trans position) chosen.2.1
          chosen.2.2 alone
      exact found row rowMem (Option.isNone_iff_eq_none.mpr isNone)

omit quiet in
/-- The tables read a datum hash as the chain reveals it. -/
theorem storedDatum_eq (dataHash : String) :
    storedDatum store dataHash = revealedDatum base (chainTxs chain) dataHash := by
  have columns : (store .transactionDatums).rows.map TransactionDatumRow.revealed =
      revealedData base (chainTxs chain) :=
    followed.tables ▸ datumColumns followed.valid followed.keyed
  rw [storedDatum, revealedDatum, ← columns, List.find?_map, Option.map_map]
  rfl

omit quiet in
/-- What a hop of the trail reads from a stored output is its datum on the chain. -/
theorem held_eq {o : TxOutputLine} {output : Option TransactionOutputRow}
    (stored : output.map TransactionOutputRow.utxo = some o.data.stored) :
    ((output.bind fun row => row.utxo.inlineDatum).or
      ((output.bind fun row => orNull row.utxo.dataHash).bind (storedDatum store))) =
        chainDatum base (chainTxs chain) o := by
  obtain ⟨row, rfl, data⟩ := Option.map_eq_some_iff.mp stored
  have readsRevealed : storedDatum store = revealedDatum base (chainTxs chain) :=
    funext followed.storedDatum_eq
  have again : orNull (orNull o.data.dataHash) = orNull o.data.dataHash := by
    simp [orNull, Option.filter_filter]
  simp only [Option.bind_some, data, UtxoData.stored, readsRevealed, again, chainDatum]

section Hop

variable {t : Transaction} (tMem : t ∈ chainTxs chain) {unit : AssetUnit} {o : TxOutputLine}
include tMem

omit quiet in
/-- The trail ends in a transaction that does not hold the token. -/
theorem followReference_lost (none : t.outputs.filter (TxOutputLine.holds unit) = [])
    (hops : Nat) (datum : Option String) :
    followReference store unit hops (some t.hash) datum = datum := by
  cases hops with
  | zero => rfl
  | succ hops =>
      rw [followReference, followed.txSeq_of_hash tMem]
      simp only [followed.no_holder tMem none]

variable (alone : t.outputs.filter (TxOutputLine.holds unit) = [o])
include alone

omit quiet in
/-- The trail ends in an output that nothing consumes. -/
theorem followReference_unspent
    (unspent : consumingTx store ⟨t.hash, o.outputIndex⟩ = none) (hops : Nat)
    (datum : Option String) :
    followReference store unit (hops + 1) (some t.hash) datum =
      (chainDatum base (chainTxs chain) o).or datum := by
  have oMem : o ∈ t.outputs :=
    (List.mem_filter.mp (alone ▸ List.mem_singleton_self o : o ∈ t.outputs.filter _)).1
  obtain ⟨holder, found, index⟩ := Option.map_eq_some_iff.mp (followed.line_of_holder tMem alone)
  rw [followReference, followed.txSeq_of_hash tMem]
  simp only [found, index, unspent]
  rw [followed.held_eq (followed.data_of_output tMem oMem)]

omit quiet in
/-- The trail goes on in the consumer of the output. -/
theorem followReference_spent {next : Transaction} (nextMem : next ∈ chainTxs chain)
    (spent : consumingTx store ⟨t.hash, o.outputIndex⟩ = some next.txSeq) (hops : Nat)
    (datum : Option String) :
    followReference store unit (hops + 1) (some t.hash) datum =
      followReference store unit hops (some next.hash)
        ((chainDatum base (chainTxs chain) o).or datum) := by
  have oMem : o ∈ t.outputs :=
    (List.mem_filter.mp (alone ▸ List.mem_singleton_self o : o ∈ t.outputs.filter _)).1
  obtain ⟨holder, found, index⟩ := Option.map_eq_some_iff.mp (followed.line_of_holder tMem alone)
  rw [followReference, followed.txSeq_of_hash tMem]
  simp only [found, index, spent, followed.hash_of_txSeq nextMem]
  rw [followed.held_eq (followed.data_of_output tMem oMem)]

end Hop

omit quiet in
/-- Along a trail the last datum is read. -/
theorem followReference_trail {unit : AssetUnit} {first : Transaction × TxOutputLine}
    {rest : List (Transaction × TxOutputLine)}
    (trail : ReferenceTrail base (chainTxs chain) unit (first :: rest)) {hops : Nat}
    (enough : rest.length < hops) (datum : Option String) :
    followReference store unit hops (some first.1.hash) datum =
      ((first :: rest).latest fun held => chainDatum base (chainTxs chain) held.2).or datum := by
  induction rest generalizing first hops datum with
  | nil =>
      obtain ⟨hops, rfl⟩ := Nat.exists_eq_add_one_of_ne_zero (Nat.ne_of_gt enough)
      obtain ⟨firstMem, alone⟩ := trail.held first List.mem_cons_self
      rw [List.latest_singleton]
      cases spender : consumingTx store (heldAt first) with
      | none => exact followed.followReference_unspent firstMem alone spender hops datum
      | some txSeq =>
          obtain ⟨next, nextMem, consumes, rfl⟩ := followed.consumes_of_consumingTx
            (trail.quiet first List.mem_cons_self) spender
          rw [followed.followReference_spent firstMem alone nextMem spender]
          exact followed.followReference_lost nextMem
            (trail.ends first rfl next nextMem consumes) hops _
  | cons second rest ih =>
      obtain ⟨hops, rfl⟩ := Nat.exists_eq_add_one_of_ne_zero (Nat.ne_of_gt
        (Nat.zero_lt_of_lt enough))
      obtain ⟨firstMem, alone⟩ := trail.held first List.mem_cons_self
      have secondIn : second ∈ first :: second :: rest :=
        List.mem_cons_of_mem _ List.mem_cons_self
      obtain ⟨secondMem, -⟩ := trail.held second secondIn
      have moves : second.1.Consumes (heldAt first) := (List.isChain_cons_cons.mp trail.moves).1
      cases spender : consumingTx store (heldAt first) with
      | none =>
          exact absurd moves (followed.not_consumes_of_consumingTx spender secondMem)
      | some txSeq =>
          obtain ⟨next, nextMem, consumes, rfl⟩ := followed.consumes_of_consumingTx
            (trail.quiet first List.mem_cons_self) spender
          have isSecond := trail.spentOnce first List.mem_cons_self next nextMem second.1
            secondMem consumes moves
          subst isSecond
          rw [followed.followReference_spent firstMem alone nextMem spender,
            ih trail.tail (Nat.lt_of_succ_lt_succ enough), ← Option.or_assoc]
          exact congrArg (Option.or · datum) (List.latest_cons first (second :: rest)).symm

end FollowedTables

end Lookups

end Odatano
