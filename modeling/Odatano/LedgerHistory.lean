import Mathlib.Data.List.Infix
import Odatano.BlockOutputs

/-!
# The history of a chain in the ledger

The rows of the crawled UTxO set against the chain: the outputs open at the anchor of an import,
and what the blocks since then paid and consumed.
-/

namespace Odatano

/-! ## Chains -/

/-- A chain: what its genesis pays, the blocks up to the anchor of an import and the blocks
since.  Transactions occur once, outputs are paid once and consumed once, and no block consumes
an output that no block up to it pays. -/
structure LedgerChain where
  genesis : List (Outpoint × Address)
  history : List LedgerBlock
  blocks : List LedgerBlock
  hashes_once : (chainHashes (history ++ blocks)).Nodup
  genesis_apart : ∀ paid ∈ genesis, paid.1.txHash ∉ chainHashes (history ++ blocks)
  outputs_once :
    ((genesis ++ (history ++ blocks).flatMap LedgerBlock.outputs).map Prod.fst).Nodup
  spends_once : (((history ++ blocks).flatMap LedgerBlock.spends).map LedgerSpend.key).Nodup
  spends_paid : ∀ reached ∈ (history ++ blocks).inits, ∀ s ∈ reached.flatMap LedgerBlock.spends,
    s.key ∈ (genesis ++ reached.flatMap LedgerBlock.outputs).map Prod.fst

namespace LedgerChain

variable {chain : LedgerChain}

def allBlocks (chain : LedgerChain) : List LedgerBlock := chain.history ++ chain.blocks

/-- The outputs that some first blocks of the chain leave behind, consumed or not. -/
def outputsUpTo (chain : LedgerChain) (reached : List LedgerBlock) : List (Outpoint × Address) :=
  chain.genesis ++ reached.flatMap LedgerBlock.outputs

/-- An output is paid by one block only. -/
theorem not_repaid {before later : List LedgerBlock} {b : LedgerBlock}
    (split : chain.allBlocks = before ++ b :: later) {key : Outpoint}
    (paid : key ∈ (chain.outputsUpTo before).map Prod.fst) : key ∉ b.outputs.map Prod.fst := by
  have once := chain.outputs_once
  change ((chain.genesis ++ chain.allBlocks.flatMap _).map Prod.fst).Nodup at once
  rw [split, List.flatMap_append, List.flatMap_cons, ← List.append_assoc, List.map_append] at once
  intro again
  refine (List.nodup_append.mp once).2.2 key paid key ?_ rfl
  rw [List.map_append]
  exact List.mem_append_left _ again

/-- An output is consumed by one block only. -/
theorem not_respent {before later : List LedgerBlock} {b : LedgerBlock}
    (split : chain.allBlocks = before ++ b :: later) {s other : LedgerSpend}
    (spent : s ∈ before.flatMap LedgerBlock.spends) (again : other ∈ b.spends) :
    s.key ≠ other.key := by
  have once := chain.spends_once
  change ((chain.allBlocks.flatMap _).map LedgerSpend.key).Nodup at once
  rw [split, List.flatMap_append, List.flatMap_cons, List.map_append, List.map_append] at once
  refine (List.nodup_append.mp once).2.2 _ (List.mem_map_of_mem spent) _ ?_
  exact List.mem_append_left _ (List.mem_map_of_mem again)

theorem consumesOnce {b : LedgerBlock} (listed : b ∈ chain.allBlocks) : ConsumesOnce b.txs := by
  obtain ⟨before, later, split⟩ := List.append_of_mem listed
  have once := chain.spends_once
  change ((chain.allBlocks.flatMap _).map LedgerSpend.key).Nodup at once
  rw [split, List.flatMap_append, List.flatMap_cons, List.map_append, List.map_append] at once
  exact (List.nodup_append.mp (List.nodup_append.mp once).2.1).1

theorem paid_of_spent {reached later : List LedgerBlock}
    (split : chain.allBlocks = reached ++ later) {s : LedgerSpend}
    (spent : s ∈ reached.flatMap LedgerBlock.spends) :
    s.key ∈ (chain.outputsUpTo reached).map Prod.fst :=
  chain.spends_paid reached ((List.mem_inits _ _).mpr ⟨later, split.symm⟩) s spent

/-- The open outputs at the anchor, as an import stores them. -/
structure ImportedAt (chain : LedgerChain) (snapshot : LedgerDb) : Prop where
  paid : ∀ row ∈ snapshot.utxos.rows,
    (row.outpoint, row.address) ∈ chain.outputsUpTo chain.history
  unmarked : ∀ row ∈ snapshot.utxos.rows,
    row.createdSlot = none ∧ row.spentTxHash = none ∧ row.spentSlot = none
  unspent : ∀ row ∈ snapshot.utxos.rows,
    row.outpoint ∉ (chain.history.flatMap LedgerBlock.spends).map LedgerSpend.key
  complete : ∀ paid ∈ chain.outputsUpTo chain.history,
    paid.1 ∉ (chain.history.flatMap LedgerBlock.spends).map LedgerSpend.key →
      ∃ row ∈ snapshot.utxos.rows, row.outpoint = paid.1

/-- The rows an import builds from the open outputs at the anchor. -/
theorem importedAt_of_open [Bech32] {snapshot : LedgerDb} {entries : List LedgerOutputLike}
    (rows : snapshot.utxos.rows = entries.map fun entry => (buildLedgerUtxoRows entry none).row)
    (paid : ∀ entry ∈ entries,
      (⟨entry.txHash, entry.outputIndex⟩, entry.address) ∈ chain.outputsUpTo chain.history)
    (unspent : ∀ entry ∈ entries, (⟨entry.txHash, entry.outputIndex⟩ : Outpoint) ∉
      (chain.history.flatMap LedgerBlock.spends).map LedgerSpend.key)
    (complete : ∀ paid ∈ chain.outputsUpTo chain.history,
      paid.1 ∉ (chain.history.flatMap LedgerBlock.spends).map LedgerSpend.key →
        ∃ entry ∈ entries, (⟨entry.txHash, entry.outputIndex⟩ : Outpoint) = paid.1) :
    chain.ImportedAt snapshot := by
  constructor
  · intro row rowMem
    rw [rows] at rowMem
    obtain ⟨entry, listed, rfl⟩ := List.mem_map.mp rowMem
    exact paid entry listed
  · intro row rowMem
    rw [rows] at rowMem
    obtain ⟨entry, _, rfl⟩ := List.mem_map.mp rowMem
    exact ⟨rfl, rfl, rfl⟩
  · intro row rowMem
    rw [rows] at rowMem
    obtain ⟨entry, listed, rfl⟩ := List.mem_map.mp rowMem
    exact unspent entry listed
  · intro output outputMem isOpen
    obtain ⟨entry, listed, isKey⟩ := complete output outputMem isOpen
    refine ⟨(buildLedgerUtxoRows entry none).row, ?_, isKey⟩
    rw [rows]
    exact List.mem_map_of_mem listed

/-- The stored outputs are those at the anchor and those of some blocks since, marked with the
slots of the blocks that paid them and with what consumed them. -/
structure Records (chain : LedgerChain) (kept : List LedgerBlock)
    (utxos : Table LedgerUtxoRow.outpoint) : Prop where
  created : ∀ row ∈ utxos.rows, ∀ slot, row.createdSlot = some slot →
    ∃ b ∈ kept, b.slot = slot ∧ (row.outpoint, row.address) ∈ b.outputs
  imported : ∀ row ∈ utxos.rows, row.createdSlot = none →
    (row.outpoint, row.address) ∈ chain.outputsUpTo chain.history
  spent : ∀ row ∈ utxos.rows, ∀ spender, row.spentTxHash = some spender →
    ∃ b ∈ kept, row.spentSlot = some b.slot ∧ ⟨row.outpoint, spender⟩ ∈ b.spends
  unspent : ∀ row ∈ utxos.rows, row.spentTxHash = none → row.spentSlot = none
  output_row : ∀ b ∈ kept, ∀ paid ∈ b.outputs,
    ∃ row ∈ utxos.rows, row.outpoint = paid.1 ∧ row.createdSlot = some b.slot
  imported_row : ∀ paid ∈ chain.outputsUpTo chain.history,
    paid.1 ∉ (chain.history.flatMap LedgerBlock.spends).map LedgerSpend.key →
      ∃ row ∈ utxos.rows, row.outpoint = paid.1
  spend_row : ∀ b ∈ kept, ∀ s ∈ b.spends, ∀ row ∈ utxos.rows, row.outpoint = s.key →
    row.spentTxHash = some s.spender ∧ row.spentSlot = some b.slot

theorem records_imported {snapshot : LedgerDb} (imported : chain.ImportedAt snapshot) :
    chain.Records [] snapshot.utxos where
  created row rowMem slot created := by
    rw [(imported.unmarked row rowMem).1] at created
    cases created
  imported row rowMem _ := imported.paid row rowMem
  spent row rowMem spender spent := by
    rw [(imported.unmarked row rowMem).2.1] at spent
    cases spent
  unspent row rowMem _ := (imported.unmarked row rowMem).2.2
  output_row := nofun
  imported_row := imported.complete
  spend_row := nofun

namespace Records

variable [Bech32] {kept later : List LedgerBlock} {b : LedgerBlock} {db : LedgerDb}

omit [Bech32] in
/-- A stored output was paid by the chain. -/
theorem paid {utxos : Table LedgerUtxoRow.outpoint} (records : chain.Records kept utxos)
    {row : LedgerUtxoRow} (rowMem : row ∈ utxos.rows) :
    (row.outpoint, row.address) ∈ chain.outputsUpTo (chain.history ++ kept) := by
  rw [outputsUpTo, List.flatMap_append, ← List.append_assoc]
  cases isSlot : row.createdSlot with
  | none => exact List.mem_append_left _ (records.imported row rowMem isSlot)
  | some slot =>
      obtain ⟨b, bMem, -, paid⟩ := records.created row rowMem slot isSlot
      exact List.mem_append_right _ (List.mem_flatMap.mpr ⟨b, bMem, paid⟩)

/-- A block consumes only outputs that no block before it did. -/
theorem unspent_of_spends (whole : chain.allBlocks = (chain.history ++ kept) ++ b :: later)
    (records : chain.Records kept db.utxos) {base : LedgerUtxoRow}
    (origin : createdRow b.txs b.slot base.outpoint = some base ∨ base ∈ db.utxos.rows)
    {s : LedgerSpend} (sMem : s ∈ b.spends) (isKey : base.outpoint = s.key) :
    base.spentTxHash = none := by
  rcases origin with created | old
  · exact (createdRow_paid created).2.1
  · cases before : base.spentTxHash with
    | none => rfl
    | some spender =>
        obtain ⟨d, dMem, -, spentBefore⟩ := records.spent base old spender before
        exact absurd isKey (chain.not_respent whole
          (List.mem_flatMap.mpr ⟨d, List.mem_append_right _ dMem, spentBefore⟩) sMem)

/-- One more block of the chain. -/
theorem applyBlock (records : chain.Records kept db.utxos) (built : db.RowsBuilt)
    (split : chain.blocks = kept ++ b :: later) :
    chain.Records (kept ++ [b]) (applyBlockToLedger db b.block b.txs none).1.utxos := by
  have whole : chain.allBlocks = (chain.history ++ kept) ++ b :: later := by
    rw [allBlocks, split, List.append_assoc]
  have once : ConsumesOnce b.txs := chain.consumesOnce (by rw [whole]; simp)
  have unpaid : ∀ row ∈ db.utxos.rows, row.outpoint ∉ b.outputs.map Prod.fst :=
    fun row rowMem => chain.not_repaid whole (List.mem_map_of_mem (records.paid rowMem))
  have rows {row : LedgerUtxoRow} := @mem_applyBlockToLedger _ db built b once unpaid row
  have stays {base : LedgerUtxoRow}
      (origin : createdRow b.txs b.slot base.outpoint = some base ∨ base ∈ db.utxos.rows) :
      base.afterBlock b.txs b.slot ∈
        (applyBlockToLedger db b.block b.txs none).1.utxos.rows := rows.mpr ⟨base, rfl, origin⟩
  constructor
  case created =>
    intro row rowMem slot isSlot
    obtain ⟨base, rfl, created | old⟩ := rows.mp rowMem
    · obtain ⟨-, -, -, ownSlot, paid⟩ := createdRow_paid created
      rw [LedgerUtxoRow.createdSlot_afterBlock, ownSlot] at isSlot
      cases isSlot
      exact ⟨b, by simp, rfl, by simpa using paid⟩
    · rw [LedgerUtxoRow.createdSlot_afterBlock] at isSlot
      obtain ⟨earlier, earlierMem, sameSlot, paid⟩ := records.created base old slot isSlot
      exact ⟨earlier, List.mem_append_left _ earlierMem, sameSlot, by simpa using paid⟩
  case imported =>
    intro row rowMem isSlot
    obtain ⟨base, rfl, created | old⟩ := rows.mp rowMem
    · rw [LedgerUtxoRow.createdSlot_afterBlock, (createdRow_paid created).2.2.2.1] at isSlot
      cases isSlot
    · rw [LedgerUtxoRow.createdSlot_afterBlock] at isSlot
      simpa using records.imported base old isSlot
  case spent =>
    intro row rowMem spender isSpent
    obtain ⟨base, rfl, origin⟩ := rows.mp rowMem
    rcases base.afterBlock_cases b.txs b.slot with same | ⟨-, s, consumed, marked⟩
    · rw [same] at isSpent ⊢
      rcases origin with created | old
      · rw [(createdRow_paid created).2.1] at isSpent
        cases isSpent
      · obtain ⟨c, cMem, spent⟩ := records.spent base old spender isSpent
        exact ⟨c, List.mem_append_left _ cMem, spent⟩
    · obtain ⟨sMem, sameKey⟩ := mem_of_spendOf consumed
      rw [marked] at isSpent ⊢
      cases isSpent
      refine ⟨b, by simp, rfl, ?_⟩
      rw [LedgerUtxoRow.outpoint_markSpent, ← sameKey]
      exact sMem
  case unspent =>
    intro row rowMem isOpen
    obtain ⟨base, rfl, origin⟩ := rows.mp rowMem
    rcases base.afterBlock_cases b.txs b.slot with same | ⟨-, s, consumed, marked⟩
    · rw [same] at isOpen ⊢
      rcases origin with created | old
      · exact (createdRow_paid created).2.2.1
      · exact records.unspent base old isOpen
    · rw [marked] at isOpen
      cases isOpen
  case output_row =>
    intro c cMem paid paidMem
    rcases List.mem_append.mp cMem with earlier | isLast
    · obtain ⟨row, rowMem, isKey, isSlot⟩ := records.output_row c earlier paid paidMem
      exact ⟨_, stays (Or.inr rowMem), by simpa using isKey, by simpa using isSlot⟩
    · rw [List.mem_singleton] at isLast
      subst isLast
      obtain ⟨row, created⟩ := createdRow_isSome (List.mem_map_of_mem paidMem)
      obtain ⟨isKey, -, -, isSlot, -⟩ := createdRow_paid created
      refine ⟨_, stays (Or.inl (isKey.symm ▸ created)), by simpa using isKey, ?_⟩
      simpa using isSlot
  case imported_row =>
    intro paid paidMem unconsumed
    obtain ⟨row, rowMem, isKey⟩ := records.imported_row paid paidMem unconsumed
    exact ⟨_, stays (Or.inr rowMem), by simpa using isKey⟩
  case spend_row =>
    intro c cMem s sMem row rowMem isKey
    obtain ⟨base, rfl, origin⟩ := rows.mp rowMem
    rw [LedgerUtxoRow.outpoint_afterBlock] at isKey
    rcases List.mem_append.mp cMem with earlier | isLast
    · rcases origin with created | old
      · -- the output would have been consumed before it was paid
        have spentBefore : s ∈ (chain.history ++ kept).flatMap LedgerBlock.spends :=
          List.mem_flatMap.mpr ⟨c, List.mem_append_right _ earlier, sMem⟩
        have paid := (createdRow_paid created).2.2.2.2
        rw [isKey] at paid
        exact absurd (List.mem_map_of_mem paid)
          (chain.not_repaid whole (chain.paid_of_spent whole spentBefore))
      · have marked := records.spend_row c earlier s sMem base old isKey
        rw [LedgerUtxoRow.afterBlock_spent marked.1]
        exact marked
    · rw [List.mem_singleton] at isLast
      subst isLast
      have consumed : spendOf c.txs base.outpoint = some s := by
        rw [isKey]
        exact spendOf_of_mem once sMem
      have unspent := unspent_of_spends whole records origin sMem isKey
      rw [LedgerUtxoRow.afterBlock_consumed unspent consumed]
      exact ⟨rfl, rfl⟩

end Records

section Holds

variable [Bech32] {snapshot : LedgerDb}

omit [Bech32] in
theorem mem_chainHashes_of_paid {blocks : List LedgerBlock} {paid : Outpoint × Address}
    (paidMem : paid ∈ blocks.flatMap LedgerBlock.outputs) :
    paid.1.txHash ∈ chainHashes blocks := by
  obtain ⟨b, bMem, paidMem⟩ := List.mem_flatMap.mp paidMem
  obtain ⟨t, tMem, produced⟩ := List.mem_flatMap.mp paidMem
  obtain ⟨o, _, rfl⟩ := List.mem_map.mp produced
  exact List.mem_flatMap.mpr ⟨b, bMem, List.mem_map_of_mem tMem⟩

omit [Bech32] in
/-- The blocks since the anchor extend what was imported. -/
theorem extendsLedger (imported : chain.ImportedAt snapshot) :
    ExtendsLedger snapshot chain.blocks where
  hashes_once := by
    have once := chain.hashes_once
    rw [chainHashes, List.flatMap_append] at once
    exact (List.nodup_append.mp once).2.1
  hashes_new := by
    intro row rowMem
    refine ⟨fun later => ?_, fun spender isSpender => ?_⟩
    · rcases List.mem_append.mp (imported.paid row rowMem) with genesis | paid
      · refine chain.genesis_apart _ genesis ?_
        rw [chainHashes, List.flatMap_append]
        exact List.mem_append_right _ later
      · have once := chain.hashes_once
        rw [chainHashes, List.flatMap_append] at once
        exact (List.nodup_append.mp once).2.2 _ (mem_chainHashes_of_paid paid) _ later rfl
    · rw [(imported.unmarked row rowMem).2.1] at isSpender
      cases isSpender
  spends_once := by
    have once := chain.spends_once
    rw [List.flatMap_append, List.map_append] at once
    exact (List.nodup_append.mp once).2.1

/-- The blocks since the anchor, one after another. -/
theorem records_applyBlocks (consistent : snapshot.Consistent)
    (imported : chain.ImportedAt snapshot) (kept : List LedgerBlock) :
    ∀ {later : List LedgerBlock}, chain.blocks = kept ++ later →
      chain.Records kept (applyBlocks snapshot kept).utxos := by
  induction kept using List.reverseRecOn with
  | nil =>
      intro _ _
      exact records_imported imported
  | append_singleton kept b ih =>
      intro later split
      rw [List.append_assoc] at split
      have known := chain.extendsLedger imported
      rw [split] at known
      have built := (applyBlocks_effect consistent known.left).consistent.rowsBuilt
      have step := (ih split).applyBlock built split
      have applied : applyBlocks snapshot (kept ++ [b]) =
          (applyBlockToLedger (applyBlocks snapshot kept) b.block b.txs none).1 := by
        rw [applyBlocks, List.foldl_append]
        rfl
      rw [applied]
      exact step

/-- A ledger that holds the chain records it. -/
theorem records {ledger : LedgerDb} (holds : HoldsChain snapshot chain.blocks ledger)
    (imported : chain.ImportedAt snapshot) : chain.Records chain.blocks ledger.utxos := by
  rw [holds.utxos]
  exact records_applyBlocks holds.snapshotConsistent imported _ (List.append_nil _).symm

end Holds

/-! ## The transactions of an address -/

/-- A transaction with an output at the address, or that consumes one. -/
def Touches (chain : LedgerChain) (address : Address) (t : Transaction) : Prop :=
  (∃ o ∈ producedOutputs t, o.address = address) ∨
    ∃ key ∈ consumedInputs t, (key, address) ∈ chain.outputsUpTo chain.allBlocks

instance (chain : LedgerChain) (address : Address) : DecidablePred (chain.Touches address) :=
  fun _ => inferInstanceAs (Decidable (_ ∨ _))

/-- The transactions of some blocks at an address, with their slots. -/
def transactionsIn (chain : LedgerChain) (blocks : List LedgerBlock) (address : Address) :
    List (TxHash × Nat) :=
  blocks.flatMap fun b =>
    (b.txs.filter fun t => decide (chain.Touches address t)).map fun t => (t.hash, b.slot)

theorem mem_transactionsIn {blocks : List LedgerBlock} {address : Address}
    {named : TxHash × Nat} :
    named ∈ chain.transactionsIn blocks address ↔
      ∃ b ∈ blocks, ∃ t ∈ b.txs, chain.Touches address t ∧ named = (t.hash, b.slot) := by
  unfold transactionsIn
  simp only [List.mem_flatMap, List.mem_map, List.mem_filter, decide_eq_true_eq]
  constructor
  · rintro ⟨b, bMem, t, ⟨tMem, touches⟩, rfl⟩
    exact ⟨b, bMem, t, tMem, touches, rfl⟩
  · rintro ⟨b, bMem, t, tMem, touches, rfl⟩
    exact ⟨b, bMem, t, ⟨tMem, touches⟩, rfl⟩

/-- No transaction is listed twice. -/
theorem transactionsIn_once (address : Address) :
    ((chain.transactionsIn chain.allBlocks address).map Prod.fst).Nodup := by
  refine List.Sublist.nodup ?_ chain.hashes_once
  change ((chain.transactionsIn chain.allBlocks address).map Prod.fst).Sublist
    (chainHashes chain.allBlocks)
  unfold transactionsIn chainHashes
  induction chain.allBlocks with
  | nil => simp
  | cons b blocks ih =>
      rw [List.flatMap_cons, List.flatMap_cons, List.map_append, List.map_map]
      exact (List.filter_sublist.map Transaction.hash).append ih

/-- An output pays one address. -/
theorem address_eq {key : Outpoint} {first second : Address}
    (firstPaid : (key, first) ∈ chain.outputsUpTo chain.allBlocks)
    (secondPaid : (key, second) ∈ chain.outputsUpTo chain.allBlocks) : first = second :=
  (Prod.ext_iff.mp (List.inj_on_of_nodup_map chain.outputs_once firstPaid secondPaid rfl)).2

theorem mem_outputs_iff {b : LedgerBlock} {paid : Outpoint × Address} :
    paid ∈ b.outputs ↔ ∃ t ∈ b.txs, ∃ o ∈ producedOutputs t,
      paid = (⟨t.hash, o.outputIndex⟩, o.address) := by
  unfold LedgerBlock.outputs txOutputs
  simp only [List.mem_flatMap, List.mem_map, eq_comm]

theorem mem_spends_iff {b : LedgerBlock} {s : LedgerSpend} :
    s ∈ b.spends ↔ ∃ t ∈ b.txs, s.spender = t.hash ∧ s.key ∈ consumedInputs t := by
  unfold LedgerBlock.spends blockSpends
  simp only [List.mem_flatMap, List.mem_map]
  constructor
  · rintro ⟨t, tMem, key, consumed, rfl⟩
    exact ⟨t, tMem, rfl, consumed⟩
  · rintro ⟨t, tMem, spender, consumed⟩
    exact ⟨t, tMem, s.key, consumed, by rw [← spender]⟩

/-- The transactions that paid the address since the anchor, with their slots, one for each
output. -/
def paidSince (chain : LedgerChain) (address : Address) : List (TxHash × Nat) :=
  chain.blocks.flatMap fun b =>
    (b.outputs.filter fun paid => decide (paid.2 = address)).map fun paid =>
      (paid.1.txHash, b.slot)

/-- The transactions that consumed outputs of the address since the anchor, with their slots, one
for each output. -/
def spentSince (chain : LedgerChain) (address : Address) : List (TxHash × Nat) :=
  chain.blocks.flatMap fun b =>
    (b.spends.filter fun s =>
      decide ((s.key, address) ∈ chain.outputsUpTo chain.allBlocks)).map fun s =>
        (s.spender, b.slot)

/-- These are the transactions of the address since the anchor. -/
theorem mem_since_iff {address : Address} {named : TxHash × Nat} :
    (named ∈ chain.paidSince address ∨ named ∈ chain.spentSince address) ↔
      named ∈ chain.transactionsIn chain.blocks address := by
  simp only [paidSince, spentSince, List.mem_flatMap, List.mem_map, List.mem_filter,
    decide_eq_true_eq, mem_transactionsIn, mem_outputs_iff, mem_spends_iff]
  constructor
  · rintro (⟨b, bMem, paid, ⟨⟨t, tMem, o, produced, rfl⟩, here⟩, rfl⟩ |
      ⟨b, bMem, s, ⟨⟨t, tMem, isSpender, consumed⟩, paid⟩, rfl⟩)
    · exact ⟨b, bMem, t, tMem, Or.inl ⟨o, produced, here⟩, rfl⟩
    · exact ⟨b, bMem, t, tMem, Or.inr ⟨s.key, consumed, paid⟩, by rw [isSpender]⟩
  · rintro ⟨b, bMem, t, tMem, ⟨o, produced, here⟩ | ⟨key, consumed, paid⟩, rfl⟩
    · exact Or.inl ⟨b, bMem, _, ⟨⟨t, tMem, o, produced, rfl⟩, here⟩, rfl⟩
    · exact Or.inr ⟨b, bMem, ⟨key, t.hash⟩, ⟨⟨t, tMem, rfl, consumed⟩, paid⟩, rfl⟩

namespace Records

variable {utxos : Table LedgerUtxoRow.outpoint}

/-- An output that a block since the anchor consumes is stored. -/
theorem exists_row_of_spend (records : chain.Records chain.blocks utxos) {b : LedgerBlock}
    (bMem : b ∈ chain.blocks) {s : LedgerSpend} (spent : s ∈ b.spends) {address : Address}
    (paid : (s.key, address) ∈ chain.outputsUpTo chain.allBlocks) :
    ∃ row ∈ utxos.rows, row.outpoint = s.key := by
  rw [outputsUpTo, allBlocks, List.flatMap_append, ← List.append_assoc] at paid
  rcases List.mem_append.mp paid with anchored | since
  · refine records.imported_row _ anchored fun earlier => ?_
    obtain ⟨other, otherMem, isKey⟩ := List.mem_map.mp earlier
    obtain ⟨before, after, split⟩ := List.append_of_mem bMem
    refine @not_respent chain (chain.history ++ before) after b ?_ other _ ?_ spent isKey
    · rw [allBlocks, split, List.append_assoc]
    · rw [List.flatMap_append]
      exact List.mem_append_left _ otherMem
  · obtain ⟨c, cMem, listed⟩ := List.mem_flatMap.mp since
    obtain ⟨row, rowMem, isKey, -⟩ := records.output_row c cMem _ listed
    exact ⟨row, rowMem, isKey⟩

/-- The stored outputs at an address with a slot of creation are those paid since the anchor. -/
theorem created_iff (records : chain.Records chain.blocks utxos) {address : Address}
    {key : Outpoint} {slot : Nat} :
    (∃ row ∈ utxos.rows, row.address = address ∧ row.createdSlot = some slot ∧
        row.outpoint = key) ↔
      ∃ b ∈ chain.blocks, (key, address) ∈ b.outputs ∧ b.slot = slot := by
  constructor
  · rintro ⟨row, rowMem, rfl, isSlot, rfl⟩
    obtain ⟨b, bMem, inSlot, paid⟩ := records.created row rowMem slot isSlot
    exact ⟨b, bMem, paid, inSlot⟩
  · rintro ⟨b, bMem, paid, rfl⟩
    obtain ⟨row, rowMem, isKey, isSlot⟩ := records.output_row b bMem _ paid
    refine ⟨row, rowMem, ?_, isSlot, isKey⟩
    refine chain.address_eq (isKey ▸ records.paid rowMem) (List.mem_append_right _ ?_)
    exact List.mem_flatMap.mpr ⟨b, List.mem_append_right _ bMem, paid⟩

/-- The stored outputs at an address that are marked spent are those consumed since the anchor. -/
theorem spent_iff (records : chain.Records chain.blocks utxos) {address : Address}
    {key : Outpoint} {spender : TxHash} {slot : Nat} :
    (∃ row ∈ utxos.rows, row.address = address ∧ row.spentSlot = some slot ∧
        row.spentTxHash = some spender ∧ row.outpoint = key) ↔
      ∃ b ∈ chain.blocks, (⟨key, spender⟩ ∈ b.spends ∧
        (key, address) ∈ chain.outputsUpTo chain.allBlocks) ∧ b.slot = slot := by
  constructor
  · rintro ⟨row, rowMem, rfl, isSlot, isSpender, rfl⟩
    obtain ⟨b, bMem, inSlot, spent⟩ := records.spent row rowMem spender isSpender
    rw [isSlot] at inSlot
    exact ⟨b, bMem, ⟨spent, records.paid rowMem⟩, (Option.some.inj inSlot).symm⟩
  · rintro ⟨b, bMem, ⟨spent, paid⟩, rfl⟩
    obtain ⟨row, rowMem, isKey⟩ := records.exists_row_of_spend bMem spent paid
    obtain ⟨isSpender, isSlot⟩ := records.spend_row b bMem _ spent row rowMem isKey
    have stored := records.paid rowMem
    rw [isKey] at stored
    exact ⟨row, rowMem, chain.address_eq stored paid, isSlot, isSpender, isKey⟩

end Records

end LedgerChain

end Odatano
