import Odatano.LedgerRollback

/-!
# The stored outputs after a block

What `applyBlockToLedger` of `srv/blockchain/ledger-state.ts` leaves of each output: the slot it
was created in, the transaction that spent it and when.
-/

namespace Odatano

/-! ## Lookups -/

/-- The consumption of an output by a block, if there is one. -/
def spendOf (txs : List Transaction) (key : Outpoint) : Option LedgerSpend :=
  (blockSpends txs).find? fun s => decide (s.key = key)

/-- A stored output after a block: marked as spent if the block consumes it and it is open. -/
def LedgerUtxoRow.afterBlock (txs : List Transaction) (slot : Nat) (row : LedgerUtxoRow) :
    LedgerUtxoRow :=
  match row.spentTxHash, spendOf txs row.outpoint with
  | none, some s => row.markSpent s.spender slot
  | _, _ => row

namespace LedgerUtxoRow

variable (txs : List Transaction) (slot : Nat) (row : LedgerUtxoRow)

@[simp] theorem outpoint_afterBlock : (row.afterBlock txs slot).outpoint = row.outpoint := by
  unfold afterBlock
  split <;> rfl

@[simp] theorem address_afterBlock : (row.afterBlock txs slot).address = row.address := by
  unfold afterBlock
  split <;> rfl

@[simp] theorem createdSlot_afterBlock :
    (row.afterBlock txs slot).createdSlot = row.createdSlot := by
  unfold afterBlock
  split <;> rfl

variable {txs slot row}

theorem afterBlock_spent {spender : TxHash} (spent : row.spentTxHash = some spender) :
    row.afterBlock txs slot = row := by
  unfold afterBlock
  rw [spent]

theorem afterBlock_open (unspent : row.spentTxHash = none)
    (unconsumed : spendOf txs row.outpoint = none) : row.afterBlock txs slot = row := by
  unfold afterBlock
  rw [unspent, unconsumed]

theorem afterBlock_consumed (unspent : row.spentTxHash = none) {s : LedgerSpend}
    (consumed : spendOf txs row.outpoint = some s) :
    row.afterBlock txs slot = row.markSpent s.spender slot := by
  unfold afterBlock
  rw [unspent, consumed]

/-- A block leaves an output as it is, or marks an open one with what consumed it. -/
theorem afterBlock_cases (row : LedgerUtxoRow) (txs : List Transaction) (slot : Nat) :
    row.afterBlock txs slot = row ∨
      row.spentTxHash = none ∧ ∃ s, spendOf txs row.outpoint = some s ∧
        row.afterBlock txs slot = row.markSpent s.spender slot := by
  cases spent : row.spentTxHash with
  | some spender => exact .inl (afterBlock_spent spent)
  | none =>
      cases consumed : spendOf txs row.outpoint with
      | none => exact .inl (afterBlock_open spent consumed)
      | some s => exact .inr ⟨rfl, s, rfl, afterBlock_consumed spent consumed⟩

end LedgerUtxoRow

theorem mem_of_spendOf {txs : List Transaction} {key : Outpoint} {s : LedgerSpend}
    (consumed : spendOf txs key = some s) : s ∈ blockSpends txs ∧ s.key = key :=
  ⟨List.mem_of_find?_eq_some consumed, of_decide_eq_true (List.find?_some consumed :)⟩

theorem spendOf_of_mem {txs : List Transaction} (once : ConsumesOnce txs) {s : LedgerSpend}
    (spent : s ∈ blockSpends txs) : spendOf txs s.key = some s := by
  cases consumed : spendOf txs s.key with
  | none =>
      exact absurd (decide_eq_true rfl) (List.find?_eq_none.mp consumed s spent)
  | some other =>
      obtain ⟨otherMem, sameKey⟩ := mem_of_spendOf consumed
      rw [List.inj_on_of_nodup_map once otherMem spent sameKey]

section Block

variable {slot : Nat} {state : BlockSpends}

/-- A consumption keeps which outputs the block created. -/
theorem get?_spend (s : LedgerSpend) (key : Outpoint) :
    OrderedMap.get? (state.spend slot s).created key =
      (OrderedMap.get? state.created key).map fun output =>
        if s.key = key then { output with row := output.row.markSpent s.spender slot }
        else output := by
  unfold BlockSpends.spend
  cases own : OrderedMap.get? state.created s.key with
  | none =>
      by_cases same : s.key = key
      · subst same
        simp [own]
      · simp [same]
  | some output =>
      rw [OrderedMap.get?_set]
      by_cases same : s.key = key
      · subst same
        simp [own]
      · simp [same]

theorem get?_spends {spends : List LedgerSpend} (once : (spends.map LedgerSpend.key).Nodup)
    (key : Outpoint) :
    OrderedMap.get? (spends.foldl (BlockSpends.spend slot) state).created key =
      (OrderedMap.get? state.created key).map fun output =>
        match spends.find? fun s => decide (s.key = key) with
        | some s => { output with row := output.row.markSpent s.spender slot }
        | none => output := by
  induction spends generalizing state with
  | nil => simp
  | cons s spends ih =>
      simp only [List.map_cons, List.nodup_cons] at once
      rw [List.foldl_cons, ih once.2, get?_spend, Option.map_map]
      refine Option.map_congr fun output _ => ?_
      by_cases same : s.key = key
      · have absent : (spends.find? fun other => decide (other.key = key)) = none := by
          rw [List.find?_eq_none]
          intro other otherMem sameKey
          refine once.1 ?_
          rw [same, ← of_decide_eq_true sameKey]
          exact List.mem_map_of_mem otherMem
        simp [same, absent]
      · simp [same]

/-- What is looked up are the consumptions of outputs that the block did not create. -/
theorem lookups_spends (spends : List LedgerSpend) :
    (spends.foldl (BlockSpends.spend slot) state).lookups =
      state.lookups ++
        spends.filter fun s => (OrderedMap.get? state.created s.key).isNone := by
  induction spends generalizing state with
  | nil => simp
  | cons s spends ih =>
      have same : (fun other : LedgerSpend =>
          (OrderedMap.get? (state.spend slot s).created other.key).isNone) =
          fun other => (OrderedMap.get? state.created other.key).isNone := by
        funext other
        rw [get?_spend, Option.isNone_map]
      rw [List.foldl_cons, ih, same, List.filter_cons]
      unfold BlockSpends.spend
      cases own : OrderedMap.get? state.created s.key with
      | none => simp
      | some output => simp

end Block

section Apply

variable [Bech32] {db : LedgerDb}

/-- The row a block creates for an output. -/
def createdRow (txs : List Transaction) (slot : Nat) (key : Outpoint) : Option LedgerUtxoRow :=
  (OrderedMap.get? (createdByBlock txs slot) key).map LedgerOutput.row

theorem createdRow_unspent {txs : List Transaction} {slot : Nat} {key : Outpoint}
    {row : LedgerUtxoRow} (created : createdRow txs slot key = some row) :
    row.outpoint = key ∧ row.spentTxHash = none ∧
      ∃ output ∈ producedRows txs slot, output.row = row := by
  obtain ⟨output, found, rfl⟩ := Option.map_eq_some_iff.mp created
  have pairs : createdByBlock txs slot = Table.upsertAll Table.empty
      ((producedRows txs slot).map fun built => (built.row.outpoint, built)) :=
    List.foldl_map.symm
  have entryMem := OrderedMap.get?_eq_some_iff.mp found
  rw [pairs] at entryMem
  rcases Table.mem_upsertAll entryMem with none | written
  · cases none
  · obtain ⟨built, builtMem, same⟩ := List.mem_map.mp written
    cases same
    exact ⟨rfl, (mem_producedRows builtMem).2.1, _, builtMem, rfl⟩

omit [Bech32] in
/-- The rows that a block spends from the tables. -/
theorem mem_spentRows_iff {read : LedgerLookup} {slot : Nat} {lookups : List LedgerSpend}
    (answers : ∀ s ∈ lookups, OrderedMap.get? read.rows s.key = db.utxos.find? s.key)
    {row : LedgerUtxoRow} :
    row ∈ spentRowsOf read slot lookups ↔
      ∃ s ∈ lookups, ∃ old, db.utxos.find? s.key = some old ∧ old.spentTxHash = none ∧
        row = old.markSpent s.spender slot := by
  constructor
  · intro rowMem
    obtain ⟨s, sMem, old, found, unspent, rfl⟩ := mem_spentRowsOf rowMem
    exact ⟨s, sMem, old, (answers s sMem).symm.trans found, unspent, rfl⟩
  · rintro ⟨s, sMem, old, found, unspent, rfl⟩
    refine List.mem_filterMap.mpr ⟨s, sMem, ?_⟩
    simp [answers s sMem, found, unspent]

omit [Bech32] in
/-- No row is spent twice. -/
theorem LedgerLookup.Answers.nodup_spentRowsOf {read : LedgerLookup} (answers : read.Answers db)
    (slot : Nat) {lookups : List LedgerSpend} (once : (lookups.map LedgerSpend.key).Nodup) :
    ((spentRowsOf read slot lookups).map LedgerUtxoRow.outpoint).Nodup := by
  refine List.Sublist.nodup (outpoints_spentRowsOf lookups fun key row found => ?_) once
  rw [answers.rows] at found
  split at found
  · exact Table.key_of_find? found
  · cases found

/-- The outputs that a block creates are written over those of the tables. -/
theorem BlockSpends.Sound.find?_created {spends : BlockSpends} {hashes : List TxHash}
    (sound : spends.Sound hashes) (utxos : Table LedgerUtxoRow.outpoint) (key : Outpoint) :
    (utxos.upsertAll ((spends.created.rows.map Prod.snd).map LedgerOutput.row)).find? key =
      ((OrderedMap.get? spends.created key).map LedgerOutput.row).or (utxos.find? key) := by
  have createdKeys : ((spends.created.rows.map Prod.snd).map LedgerOutput.row).map
      LedgerUtxoRow.outpoint = spends.created.rows.map Prod.fst := by
    rw [List.map_map, List.map_map]
    exact List.map_congr_left sound.outpoint
  cases own : OrderedMap.get? spends.created key with
  | some output =>
      have entryMem := OrderedMap.get?_eq_some_iff.mp own
      have isKey : output.row.outpoint = key := sound.outpoint _ entryMem
      rw [← isKey]
      exact Table.find?_upsertAll_of_mem _ (createdKeys ▸ spends.created.keys_nodup)
        (List.mem_map_of_mem (List.mem_map_of_mem entryMem))
  | none =>
      refine Table.find?_upsertAll_of_notMem _ ?_
      rw [createdKeys]
      intro listed
      have isSome := OrderedMap.mem_keys_iff.mp listed
      rw [own] at isSome
      cases isSome

/-- An output after a block. -/
theorem find?_applyBlockToLedger (built : db.RowsBuilt) (block : BlockData)
    (txs : List Transaction) (once : ConsumesOnce txs) (key : Outpoint) :
    (applyBlockToLedger db block txs none).1.utxos.find? key =
      ((createdRow txs block.slotOrZero key).or (db.utxos.find? key)).map
        (LedgerUtxoRow.afterBlock txs block.slotOrZero) := by
  generalize slotEq : block.slotOrZero = slot
  generalize spendsEq : (blockSpends txs).foldl (BlockSpends.spend slot)
    ⟨createdByBlock txs slot, [], []⟩ = spends
  have sound : spends.Sound (txs.map Transaction.hash) := by
    rw [← spendsEq]
    exact (createdByBlock_sound txs).spends fun s => spender_mem_of_blockSpends
  obtain ⟨readAnswers, covered⟩ := readLedgerOutputs_answers built
    (LedgerLookup.answers_empty db) (spends.lookups.map fun s => s.key.txHash)
  generalize readEq : readLedgerOutputs db (spends.lookups.map fun s => s.key.txHash)
    LedgerLookup.empty = read at readAnswers covered
  have answers : ∀ s ∈ spends.lookups,
      OrderedMap.get? read.rows s.key = db.utxos.find? s.key := by
    intro s sMem
    rw [readAnswers.rows, if_pos (covered _ (List.mem_map.mpr ⟨s, sMem, rfl⟩))]
  have lookups : spends.lookups = (blockSpends txs).filter fun s =>
      (OrderedMap.get? (createdByBlock txs slot) s.key).isNone := by
    rw [← spendsEq, lookups_spends, List.nil_append]
  have written : (applyBlockToLedger db block txs none).1.utxos =
      (db.utxos.upsertAll ((spends.created.rows.map Prod.snd).map LedgerOutput.row)).upsertAll
        (spentRowsOf read slot spends.lookups) := by
    simp only [applyBlockToLedger, slotEq, spendsEq, Option.getD_none, readEq,
      (writeSums_outputs _ _ _).1, writeOutputs, writeChunks_eq]
  have ofCreated := sound.find?_created db.utxos key
  have spentKeys : ((spentRowsOf read slot spends.lookups).map LedgerUtxoRow.outpoint).Nodup := by
    refine readAnswers.nodup_spentRowsOf slot ?_
    rw [lookups]
    exact (List.filter_sublist.map LedgerSpend.key).nodup once
  have marked : OrderedMap.get? spends.created key =
      (OrderedMap.get? (createdByBlock txs slot) key).map fun output =>
        match spendOf txs key with
        | some s => { output with row := output.row.markSpent s.spender slot }
        | none => output := by
    rw [← spendsEq]
    exact get?_spends once key
  -- a row of the tables that is spent by the block
  have spentFrom {row : LedgerUtxoRow} (rowMem : row ∈ spentRowsOf read slot spends.lookups) :
      ∃ s ∈ blockSpends txs, OrderedMap.get? (createdByBlock txs slot) s.key = none ∧
        ∃ old, db.utxos.find? s.key = some old ∧ old.spentTxHash = none ∧
          row = old.markSpent s.spender slot := by
    obtain ⟨s, sMem, old⟩ := (mem_spentRows_iff answers).mp rowMem
    rw [lookups, List.mem_filter, Option.isNone_iff_eq_none] at sMem
    exact ⟨s, sMem.1, sMem.2, old⟩
  have notSpent (absent : ∀ s ∈ blockSpends txs, s.key = key →
        OrderedMap.get? (createdByBlock txs slot) key = none →
          ∀ old, db.utxos.find? key = some old → old.spentTxHash ≠ none) :
      key ∉ (spentRowsOf read slot spends.lookups).map LedgerUtxoRow.outpoint := by
    intro listed
    obtain ⟨row, rowMem, isKey⟩ := List.mem_map.mp listed
    obtain ⟨s, sMem, notCreated, old, found, unspent, rfl⟩ := spentFrom rowMem
    have sameKey : s.key = key := (Table.key_of_find? found).symm.trans isKey
    rw [sameKey] at notCreated found
    exact absent s sMem sameKey notCreated old found unspent
  rw [written]
  cases created : OrderedMap.get? (createdByBlock txs slot) key with
  | some output =>
      -- the mark was set in the map of created outputs
      have isRow : createdRow txs slot key = some output.row := by rw [createdRow, created]; rfl
      obtain ⟨isKey, unspent, -⟩ := createdRow_unspent isRow
      rw [Table.find?_upsertAll_of_notMem _ (notSpent fun _ _ _ none => by
        rw [created] at none; cases none), ofCreated, marked, created, isRow]
      simp only [Option.map_some, Option.some_or, LedgerUtxoRow.afterBlock, unspent, isKey]
      cases spendOf txs key <;> rfl
  | none =>
      have notRow : createdRow txs slot key = none := by rw [createdRow, created]; rfl
      rw [notRow, Option.none_or]
      rw [marked, created, Option.map_none, Option.map_none, Option.none_or] at ofCreated
      cases stored : db.utxos.find? key with
      | none =>
          rw [Table.find?_upsertAll_of_notMem _ (notSpent fun _ _ _ _ old found => by
            rw [stored] at found; cases found), ofCreated, stored]
          rfl
      | some row =>
          have isKey : row.outpoint = key := Table.key_of_find? stored
          cases spent : row.spentTxHash with
          | some spender =>
              rw [Table.find?_upsertAll_of_notMem _ (notSpent fun _ _ _ _ old found => by
                cases stored.symm.trans found
                rw [spent]
                exact Option.some_ne_none _), ofCreated, stored]
              simp only [Option.map_some, LedgerUtxoRow.afterBlock, spent]
          | none =>
              cases consumed : spendOf txs key with
              | none =>
                  rw [Table.find?_upsertAll_of_notMem _ (notSpent fun s sMem sameKey _ _ _ => by
                    have absent := List.find?_eq_none.mp consumed s sMem
                    exact absurd sameKey (by simpa using absent)), ofCreated, stored]
                  simp only [Option.map_some, LedgerUtxoRow.afterBlock, spent, isKey, consumed]
              | some s =>
                  have sameKey : s.key = key := of_decide_eq_true (List.find?_some consumed :)
                  have looked : s ∈ spends.lookups := by
                    rw [lookups, List.mem_filter, sameKey, created]
                    exact ⟨List.mem_of_find?_eq_some consumed, rfl⟩
                  have rowMem : row.markSpent s.spender slot ∈
                      spentRowsOf read slot spends.lookups :=
                    (mem_spentRows_iff answers).mpr
                      ⟨s, looked, row, sameKey.symm ▸ stored, spent, rfl⟩
                  have found := Table.find?_upsertAll_of_mem (db.utxos.upsertAll
                    ((spends.created.rows.map Prod.snd).map LedgerOutput.row)) spentKeys rowMem
                  rw [LedgerUtxoRow.outpoint_markSpent, isKey] at found
                  rw [found]
                  simp only [Option.map_some, LedgerUtxoRow.afterBlock, spent, isKey, consumed]

end Apply

/-! ## Rows -/

/-- The outputs that some transactions produce, with the addresses they pay. -/
def txOutputs (txs : List Transaction) : List (Outpoint × Address) :=
  txs.flatMap fun t => (producedOutputs t).map fun o => (⟨t.hash, o.outputIndex⟩, o.address)

namespace LedgerBlock

/-- `num(block.slot)`. -/
def slot (b : LedgerBlock) : Nat := b.block.slotOrZero

def outputs (b : LedgerBlock) : List (Outpoint × Address) := txOutputs b.txs

def spends (b : LedgerBlock) : List LedgerSpend := blockSpends b.txs

end LedgerBlock

section Rows

variable [Bech32]

theorem producedRows_outputs (txs : List Transaction) (slot : Nat) :
    (producedRows txs slot).map (fun output => (output.row.outpoint, output.row.address)) =
      txOutputs txs := by
  rw [producedRows, txOutputs, List.map_flatMap]
  simp only [List.map_map]
  rfl

theorem createdSlot_producedRows {txs : List Transaction} {slot : Nat} {output : LedgerOutput}
    (produced : output ∈ producedRows txs slot) : output.row.createdSlot = some slot := by
  obtain ⟨t, _, built⟩ := List.mem_flatMap.mp produced
  obtain ⟨o, _, rfl⟩ := List.mem_map.mp built
  rfl

/-- A block creates a row for each output that it pays, with its slot. -/
theorem createdRow_paid {b : LedgerBlock} {key : Outpoint} {row : LedgerUtxoRow}
    (created : createdRow b.txs b.slot key = some row) :
    row.outpoint = key ∧ row.spentTxHash = none ∧ row.spentSlot = none ∧
      row.createdSlot = some b.slot ∧ (key, row.address) ∈ b.outputs := by
  obtain ⟨isKey, unspent, output, produced, isRow⟩ := createdRow_unspent created
  subst isRow
  have listed : (output.row.outpoint, output.row.address) ∈ b.outputs := by
    rw [LedgerBlock.outputs, ← producedRows_outputs b.txs b.slot]
    exact List.mem_map_of_mem produced
  refine ⟨isKey, unspent, ?_, createdSlot_producedRows produced, isKey ▸ listed⟩
  obtain ⟨t, _, built⟩ := List.mem_flatMap.mp produced
  obtain ⟨o, _, rfl⟩ := List.mem_map.mp built
  rfl

theorem createdRow_isSome {b : LedgerBlock} {key : Outpoint}
    (paid : key ∈ b.outputs.map Prod.fst) : ∃ row, createdRow b.txs b.slot key = some row := by
  have pairs : createdByBlock b.txs b.slot = Table.upsertAll Table.empty
      ((producedRows b.txs b.slot).map fun built => (built.row.outpoint, built)) :=
    List.foldl_map.symm
  rw [LedgerBlock.outputs, ← producedRows_outputs b.txs b.slot, List.map_map] at paid
  obtain ⟨output, produced, isKey⟩ := List.mem_map.mp paid
  have written : (output.row.outpoint, output) ∈
      ((producedRows b.txs b.slot).map fun built => (built.row.outpoint, built)).filter
        fun entry => decide (entry.1 = key) :=
    List.mem_filter.mpr ⟨List.mem_map_of_mem produced, decide_eq_true isKey⟩
  have last := List.getLast?_eq_some_getLast (List.ne_nil_of_mem written)
  refine ⟨((List.getLast _ (List.ne_nil_of_mem written)).2).row, ?_⟩
  rw [createdRow, OrderedMap.get?, pairs, Table.find?_upsertAll_last, last]
  rfl

/-- The rows after a block are those it creates and those it found, marked where it spends. -/
theorem mem_applyBlockToLedger {db : LedgerDb} (built : db.RowsBuilt) {b : LedgerBlock}
    (once : ConsumesOnce b.txs)
    (unpaid : ∀ row ∈ db.utxos.rows, row.outpoint ∉ b.outputs.map Prod.fst)
    {row : LedgerUtxoRow} :
    row ∈ (applyBlockToLedger db b.block b.txs none).1.utxos.rows ↔
      ∃ base, base.afterBlock b.txs b.slot = row ∧
        (createdRow b.txs b.slot base.outpoint = some base ∨ base ∈ db.utxos.rows) := by
  have found := find?_applyBlockToLedger built b.block b.txs once
  constructor
  · intro rowMem
    have stored := Table.find?_of_mem rowMem
    rw [found, Option.map_eq_some_iff] at stored
    obtain ⟨base, isBase, rfl⟩ := stored
    refine ⟨base, rfl, ?_⟩
    rw [LedgerUtxoRow.outpoint_afterBlock] at isBase
    rcases Option.or_eq_some_iff.mp isBase with created | ⟨-, old⟩
    · exact Or.inl created
    · exact Or.inr (Table.mem_of_find? old)
  · rintro ⟨base, rfl, created | old⟩
    · refine @Table.mem_of_find? _ _ _ _ _ base.outpoint _ ?_
      rw [found]
      change ((createdRow b.txs b.slot base.outpoint).or _).map _ = _
      rw [created]
      rfl
    · refine @Table.mem_of_find? _ _ _ _ _ base.outpoint _ ?_
      have notCreated : createdRow b.txs b.slot base.outpoint = none := by
        cases created : createdRow b.txs b.slot base.outpoint with
        | none => rfl
        | some other =>
            have paid := (createdRow_paid created).2.2.2.2
            exact absurd (List.mem_map_of_mem paid) (unpaid base old)
      rw [found]
      change ((createdRow b.txs b.slot base.outpoint).or _).map _ = _
      rw [notCreated, Option.none_or, Table.find?_of_mem old]
      rfl

end Rows

end Odatano
