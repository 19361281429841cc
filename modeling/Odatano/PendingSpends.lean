import Odatano.KeyedTable
import Odatano.SyncState

/-!
# Pending spends

`srv/blockchain/pending-spends.ts`: the transactions a process has submitted,
applied to the outputs a backend lists for an address.  Hashes are in lower case,
as the source folds them; an unparsable transaction is absent.
-/

namespace Odatano

/-- How long a submitted transaction counts as pending. -/
def PENDING_TX_TTL_MS : Time := 10 * 60000

/-- An unspent output as builders see it. -/
structure WalletUtxo where
  txHash : TxHash
  outputIndex : Nat
  address : Address
  amount : List Amount
  datumHash : Option String
  inlineDatum : Option String
  scriptRefCbor : Option String
deriving DecidableEq

def WalletUtxo.ref (utxo : WalletUtxo) : Outpoint := ⟨utxo.txHash, utxo.outputIndex⟩

structure ParsedOutput where
  address : Address
  lovelaceAmount : Int
  assets : List Amount
  datumHash : Option String
  inlineDatumHex : Option String
  referenceScriptHex : Option String
deriving DecidableEq

/-- What `record` reads of a parsed transaction. -/
structure ParsedTransaction where
  txHash : TxHash
  inputs : List Outpoint
  outputs : List ParsedOutput
deriving DecidableEq

def ParsedTransaction.output (parsed : ParsedTransaction) (o : ParsedOutput × Nat) : WalletUtxo where
  txHash := parsed.txHash
  outputIndex := o.2
  address := o.1.address
  amount := ⟨lovelace, o.1.lovelaceAmount⟩ :: o.1.assets
  datumHash := o.1.datumHash
  inlineDatum := o.1.inlineDatumHex
  scriptRefCbor := o.1.referenceScriptHex

/-- The outputs of a transaction, by position. -/
def ParsedTransaction.utxos (parsed : ParsedTransaction) : List WalletUtxo :=
  parsed.outputs.zipIdx.map parsed.output

structure PendingTx where
  txHash : TxHash
  inputs : List Outpoint
  outputs : List WalletUtxo
  expiresAt : Time
deriving DecidableEq

/-- The map by hash, in the order of its keys. -/
abbrev PendingTxs := Table PendingTx.txHash

namespace PendingTxs

/-- Remember a submitted transaction; unparsable CBOR is ignored. -/
def record (txs : PendingTxs) (parsed : Option ParsedTransaction) (now : Time) : PendingTxs :=
  match parsed with
  | none => txs
  | some parsed =>
      txs.upsert ⟨parsed.txHash, parsed.inputs, parsed.utxos, now + PENDING_TX_TTL_MS⟩

def prune (txs : PendingTxs) (now : Time) : PendingTxs :=
  txs.delete fun tx => decide (tx.expiresAt ≤ now)

/-- The pending transaction that spends an output, if any. -/
def spentBy (txs : PendingTxs) (outpoint : Outpoint) (now : Time) : PendingTxs × Option TxHash :=
  (prune txs now,
    ((prune txs now).rows.find? fun tx => decide (outpoint ∈ tx.inputs)).map PendingTx.txHash)

/-- Forget the transactions whose outputs are listed. -/
def forget (txs : PendingTxs) (utxos : List WalletUtxo) : PendingTxs :=
  txs.delete fun tx => decide (tx.txHash ∈ utxos.map WalletUtxo.txHash)

def spent (txs : PendingTxs) : List Outpoint := txs.rows.flatMap PendingTx.inputs

/-- The listed outputs no pending transaction spends, then the pending outputs to
the address that none spends. -/
def offer (txs : PendingTxs) (address : Address) (utxos : List WalletUtxo) : List WalletUtxo :=
  (utxos.filter fun u => decide (u.ref ∉ spent txs)) ++
    (txs.rows.flatMap PendingTx.outputs).filter fun o =>
      decide (o.address = address ∧ o.ref ∉ spent txs)

/-- The address's UTxOs after the pending transactions.  One whose outputs already
appear has been crawled and is forgotten. -/
def apply (txs : PendingTxs) (address : Address) (utxos : List WalletUtxo) (now : Time) :
    PendingTxs × List WalletUtxo :=
  let txs := prune txs now
  if txs.rows = [] then (txs, utxos)
  else (forget txs utxos, offer (forget txs utxos) address utxos)

end PendingTxs

/-! ## Runs -/

/-- What a backend lists for an address when it reflects the first `shown` of the
recorded transactions. -/
structure ViewOf (recorded : List ParsedTransaction) (shown : Nat) (address : Address)
    (view : List WalletUtxo) : Prop where
  once : (view.map WalletUtxo.ref).Nodup
  own : ∀ u ∈ view, ∀ tx ∈ recorded, u.txHash = tx.txHash → tx ∈ recorded.take shown ∧ u ∈ tx.utxos
  unspent : ∀ u ∈ view, ∀ tx ∈ recorded.take shown, u.ref ∉ tx.inputs
  complete : ∀ tx ∈ recorded.take shown, ∀ u ∈ tx.utxos, u.address = address →
    (∀ other ∈ recorded.take shown, u.ref ∉ other.inputs) → u ∈ view

/-- An answer of `apply`, with the transactions recorded by then. -/
structure PendingOffer where
  address : Address
  recorded : List ParsedTransaction
  utxos : List WalletUtxo
deriving DecidableEq

structure PendingState where
  txs : PendingTxs
  now : Time
  recorded : List ParsedTransaction
  offers : List PendingOffer

section Steps

variable (allowed : PendingState → Nat → Address → List WalletUtxo → Prop)

/-- Everything happens within the retention time of what is remembered. -/
inductive PendingStep : PendingState → PendingState → Prop
  -- the hash is that of the body, which has the inputs and the outputs
  | record (s : PendingState) (parsed : ParsedTransaction)
      (sameBody : ∀ tx ∈ s.recorded, tx.txHash = parsed.txHash → tx = parsed) :
      PendingStep s
        { s with
          txs := s.txs.record (some parsed) s.now
          recorded := s.recorded ++ [parsed] }
  | recordUnparsable (s : PendingState) :
      PendingStep s { s with txs := s.txs.record none s.now }
  | spentBy (s : PendingState) (outpoint : Outpoint)
      (retained : ∀ tx ∈ s.txs.rows, s.now < tx.expiresAt) :
      PendingStep s { s with txs := (s.txs.spentBy outpoint s.now).1 }
  | apply (s : PendingState) (shown : Nat) (address : Address) (view : List WalletUtxo)
      (retained : ∀ tx ∈ s.txs.rows, s.now < tx.expiresAt)
      (isView : ViewOf s.recorded shown address view) (may : allowed s shown address view) :
      PendingStep s
        { s with
          txs := (s.txs.apply address view s.now).1
          offers := ⟨address, s.recorded, (s.txs.apply address view s.now).2⟩ :: s.offers }
  | tick (s : PendingState) (now : Time) (later : s.now ≤ now) : PendingStep s { s with now }

inductive PendingRun (now : Time) : PendingState → Prop
  | start : PendingRun now ⟨.empty, now, [], []⟩
  | step {s s' : PendingState} (before : PendingRun now s) (step : PendingStep allowed s s') :
      PendingRun now s'

end Steps

/-- No recorded transaction spends an offered output, none is offered twice, and
every output to the address that none spends is offered. -/
structure PendingOffer.Right (offer : PendingOffer) : Prop where
  unspent : ∀ u ∈ offer.utxos, ∀ tx ∈ offer.recorded, u.ref ∉ tx.inputs
  once : (offer.utxos.map WalletUtxo.ref).Nodup
  complete : ∀ tx ∈ offer.recorded, ∀ u ∈ tx.utxos, u.address = offer.address →
    (∀ other ∈ offer.recorded, u.ref ∉ other.inputs) → u ∈ offer.utxos

/-- A view reflects what is no longer remembered, and every spent output to the
address of a transaction that it does not list has a spender that it does not
list and that is remembered. -/
structure ShowsParents (s : PendingState) (shown : Nat) (address : Address)
    (view : List WalletUtxo) : Prop where
  current : ∀ tx ∈ s.recorded, (∀ kept ∈ s.txs.rows, kept.txHash ≠ tx.txHash) →
    tx ∈ s.recorded.take shown
  parents : ∀ kept ∈ s.txs.rows, kept.txHash ∉ view.map WalletUtxo.txHash →
    ∀ u ∈ kept.outputs, u.address = address → ∀ tx ∈ s.recorded, u.ref ∈ tx.inputs →
      ∃ spender ∈ s.txs.rows, spender.txHash ∉ view.map WalletUtxo.txHash ∧
        u.ref ∈ spender.inputs

/-! ## What is remembered -/

/-- A remembered transaction is a recorded one. -/
def PendingTx.Of (kept : PendingTx) (tx : ParsedTransaction) : Prop :=
  kept.txHash = tx.txHash ∧ kept.inputs = tx.inputs ∧ kept.outputs = tx.utxos

structure PendingSound (s : PendingState) : Prop where
  sameBody : ∀ tx ∈ s.recorded, ∀ other ∈ s.recorded, tx.txHash = other.txHash → tx = other
  remembered : ∀ kept ∈ s.txs.rows, ∃ tx ∈ s.recorded, kept.Of tx
  offers : ∀ offer ∈ s.offers, offer.Right

theorem ParsedTransaction.txHash_of_mem_utxos {parsed : ParsedTransaction} {u : WalletUtxo}
    (uMem : u ∈ parsed.utxos) : u.txHash = parsed.txHash := by
  obtain ⟨o, -, rfl⟩ := List.mem_map.mp uMem
  rfl

theorem ParsedTransaction.refs_nodup (parsed : ParsedTransaction) :
    (parsed.utxos.map WalletUtxo.ref).Nodup := by
  have positions : parsed.utxos.map WalletUtxo.outputIndex = List.range' 0 parsed.outputs.length := by
    rw [utxos, List.map_map]
    exact List.zipIdx_map_snd 0 parsed.outputs
  refine List.Nodup.of_map Outpoint.outputIndex ?_
  rw [List.map_map]
  exact positions ▸ List.nodup_range'

namespace PendingTxs

variable {txs : PendingTxs} {address : Address} {utxos : List WalletUtxo} {u : WalletUtxo}

theorem prune_of_retained {now : Time} (retained : ∀ tx ∈ txs.rows, now < tx.expiresAt) :
    prune txs now = txs :=
  Table.delete_eq_self fun tx txMem => decide_eq_false (Nat.not_le.mpr (retained tx txMem))

theorem mem_spent {outpoint : Outpoint} :
    outpoint ∈ spent txs ↔ ∃ tx ∈ txs.rows, outpoint ∈ tx.inputs := by
  rw [spent, List.mem_flatMap]

theorem mem_forget {tx : PendingTx} :
    tx ∈ (forget txs utxos).rows ↔
      tx ∈ txs.rows ∧ tx.txHash ∉ utxos.map WalletUtxo.txHash := by
  rw [forget, Table.mem_delete, decide_eq_false_iff_not]

theorem mem_offer :
    u ∈ offer txs address utxos ↔
      (u ∈ utxos ∨ (∃ tx ∈ txs.rows, u ∈ tx.outputs) ∧ u.address = address) ∧ u.ref ∉ spent txs := by
  rw [offer, List.mem_append, List.mem_filter, List.mem_filter, List.mem_flatMap]
  simp only [decide_eq_true_eq]
  tauto

/-- Without pending transactions nothing is changed. -/
theorem apply_eq {now : Time} (retained : ∀ tx ∈ txs.rows, now < tx.expiresAt) :
    apply txs address utxos now = (forget txs utxos, offer (forget txs utxos) address utxos) := by
  rw [apply, prune_of_retained retained]
  split
  · rename_i noRows
    have isEmpty : txs = .empty := Table.ext noRows
    subst isEmpty
    refine Prod.ext rfl ?_
    simp [offer, forget, spent, Table.delete, Table.empty]
  · rfl

end PendingTxs

namespace PendingSound

variable {s : PendingState}

/-- The row of a recorded transaction has its inputs and outputs. -/
theorem of_hash (sound : PendingSound s) {kept : PendingTx} {tx : ParsedTransaction}
    (keptMem : kept ∈ s.txs.rows) (txMem : tx ∈ s.recorded) (sameHash : kept.txHash = tx.txHash) :
    kept.Of tx := by
  obtain ⟨other, otherMem, isOther⟩ := sound.remembered kept keptMem
  exact sound.sameBody other otherMem tx txMem (isOther.1.symm.trans sameHash) ▸ isOther

theorem refs_nodup (sound : PendingSound s) (view : List WalletUtxo) :
    (((s.txs.forget view).rows.flatMap PendingTx.outputs).map WalletUtxo.ref).Nodup := by
  have origin {kept : PendingTx} (keptMem : kept ∈ (s.txs.forget view).rows) :
      ∃ tx, kept.Of tx := by
    obtain ⟨tx, -, isTx⟩ := sound.remembered kept (PendingTxs.mem_forget.mp keptMem).1
    exact ⟨tx, isTx⟩
  rw [List.map_flatMap, List.nodup_flatMap]
  constructor
  · intro kept keptMem
    obtain ⟨tx, -, -, outputs⟩ := origin keptMem
    exact outputs ▸ tx.refs_nodup
  · refine (List.pairwise_map.mp (s.txs.forget view).keys_nodup).imp_of_mem ?_
    intro first second firstMem secondMem different ref refMem otherRefMem
    obtain ⟨u, uMem, rfl⟩ := List.mem_map.mp refMem
    obtain ⟨v, vMem, sameRef⟩ := List.mem_map.mp otherRefMem
    obtain ⟨tx, isTx⟩ := origin firstMem
    obtain ⟨other, isOther⟩ := origin secondMem
    rw [isTx.2.2] at uMem
    rw [isOther.2.2] at vMem
    have sameHash : v.txHash = u.txHash := congrArg Outpoint.txHash sameRef
    rw [ParsedTransaction.txHash_of_mem_utxos uMem, ParsedTransaction.txHash_of_mem_utxos vMem,
      ← isTx.1, ← isOther.1] at sameHash
    exact different sameHash.symm

variable {shown : Nat} {address : Address} {view : List WalletUtxo}

/-- A recorded transaction is still pending after the view, or the view reflects it. -/
theorem pending_or_shown (sound : PendingSound s) (isView : ViewOf s.recorded shown address view)
    (shows : ShowsParents s shown address view) {tx : ParsedTransaction} (txMem : tx ∈ s.recorded) :
    (∃ kept ∈ (s.txs.forget view).rows, kept.Of tx) ∨ tx ∈ s.recorded.take shown := by
  by_cases remembered : ∃ kept ∈ s.txs.rows, kept.txHash = tx.txHash
  · obtain ⟨kept, keptMem, sameHash⟩ := remembered
    by_cases listed : kept.txHash ∈ view.map WalletUtxo.txHash
    · obtain ⟨u, uMem, isHash⟩ := List.mem_map.mp listed
      exact Or.inr (isView.own u uMem tx txMem (isHash.trans sameHash)).1
    · exact Or.inl ⟨kept, PendingTxs.mem_forget.mpr ⟨keptMem, listed⟩,
        sound.of_hash keptMem txMem sameHash⟩
  · refine Or.inr (shows.current tx txMem fun kept keptMem sameHash => ?_)
    exact remembered ⟨kept, keptMem, sameHash⟩

theorem right (sound : PendingSound s) (isView : ViewOf s.recorded shown address view)
    (shows : ShowsParents s shown address view) :
    PendingOffer.Right ⟨address, s.recorded, (s.txs.forget view).offer address view⟩ := by
  have spent_recorded {outpoint : Outpoint} (isSpent : outpoint ∈ (s.txs.forget view).spent) :
      ∃ tx ∈ s.recorded, outpoint ∈ tx.inputs := by
    obtain ⟨kept, keptMem, spends⟩ := PendingTxs.mem_spent.mp isSpent
    obtain ⟨tx, txMem, isTx⟩ := sound.remembered kept (PendingTxs.mem_forget.mp keptMem).1
    exact ⟨tx, txMem, isTx.2.1 ▸ spends⟩
  constructor
  · intro u uMem tx txMem spends
    obtain ⟨source, unspent⟩ := PendingTxs.mem_offer.mp uMem
    refine unspent (PendingTxs.mem_spent.mpr ?_)
    rcases source with listed | ⟨⟨kept, keptMem, isOutput⟩, inAddress⟩
    · rcases sound.pending_or_shown isView shows txMem with ⟨kept, keptMem, isTx⟩ | isShown
      · exact ⟨kept, keptMem, isTx.2.1 ▸ spends⟩
      · exact absurd spends (isView.unspent u listed tx isShown)
    · obtain ⟨wasKept, unlisted⟩ := PendingTxs.mem_forget.mp keptMem
      obtain ⟨spender, spenderMem, spenderUnlisted, isSpent⟩ :=
        shows.parents kept wasKept unlisted u isOutput inAddress tx txMem spends
      exact ⟨spender, PendingTxs.mem_forget.mpr ⟨spenderMem, spenderUnlisted⟩, isSpent⟩
  · rw [PendingTxs.offer, List.map_append]
    refine List.nodup_append'.mpr ⟨?_, ?_, ?_⟩
    · exact isView.once.sublist (List.filter_sublist.map _)
    · exact (sound.refs_nodup view).sublist (List.filter_sublist.map _)
    · intro ref listedRef pendingRef
      obtain ⟨u, uMem, rfl⟩ := List.mem_map.mp listedRef
      obtain ⟨v, vMem, sameRef⟩ := List.mem_map.mp pendingRef
      obtain ⟨kept, keptMem, isOutput⟩ := List.mem_flatMap.mp (List.mem_filter.mp vMem).1
      obtain ⟨wasKept, unlisted⟩ := PendingTxs.mem_forget.mp keptMem
      obtain ⟨tx, -, isTx⟩ := sound.remembered kept wasKept
      rw [isTx.2.2] at isOutput
      have sameHash : v.txHash = u.txHash := congrArg Outpoint.txHash sameRef
      rw [ParsedTransaction.txHash_of_mem_utxos isOutput, ← isTx.1] at sameHash
      exact unlisted (sameHash ▸ List.mem_map.mpr ⟨u, (List.mem_filter.mp uMem).1, rfl⟩)
  · intro tx txMem u uMem inAddress unspent
    have notSpent : u.ref ∉ (s.txs.forget view).spent := by
      intro isSpent
      obtain ⟨other, otherMem, spends⟩ := spent_recorded isSpent
      exact unspent other otherMem spends
    refine PendingTxs.mem_offer.mpr ⟨?_, notSpent⟩
    rcases sound.pending_or_shown isView shows txMem with ⟨kept, keptMem, isTx⟩ | isShown
    · exact Or.inr ⟨⟨kept, keptMem, isTx.2.2 ▸ uMem⟩, inAddress⟩
    · exact Or.inl (isView.complete tx isShown u uMem inAddress fun other otherShown =>
        unspent other (List.mem_of_mem_take otherShown))

end PendingSound

section Runs

variable {s s' : PendingState}

theorem PendingStep.sound (step : PendingStep ShowsParents s s') (sound : PendingSound s) :
    PendingSound s' := by
  cases step with
  | record parsed sameBody =>
      refine ⟨?_, ?_, sound.offers⟩
      · intro tx txMem other otherMem sameHash
        rcases List.mem_append.mp txMem with old | isNew
        · rcases List.mem_append.mp otherMem with otherOld | otherNew
          · exact sound.sameBody tx old other otherOld sameHash
          · cases List.mem_singleton.mp otherNew
            exact sameBody tx old sameHash
        · cases List.mem_singleton.mp isNew
          rcases List.mem_append.mp otherMem with otherOld | otherNew
          · exact (sameBody other otherOld sameHash.symm).symm
          · exact (List.mem_singleton.mp otherNew).symm
      · intro kept keptMem
        rcases Table.mem_upsert.mp keptMem with rfl | ⟨old, -⟩
        · exact ⟨parsed, List.mem_append_right _ (List.mem_singleton_self parsed), rfl, rfl, rfl⟩
        · obtain ⟨tx, txMem, isTx⟩ := sound.remembered kept old
          exact ⟨tx, List.mem_append_left _ txMem, isTx⟩
  | recordUnparsable => exact sound
  | spentBy outpoint retained =>
      refine ⟨sound.sameBody, fun kept keptMem => ?_, sound.offers⟩
      exact sound.remembered kept (Table.mem_delete.mp keptMem).1
  | apply shown address view retained isView may =>
      rw [PendingTxs.apply_eq retained]
      refine ⟨sound.sameBody, ?_, ?_⟩
      · intro kept keptMem
        exact sound.remembered kept (PendingTxs.mem_forget.mp keptMem).1
      · intro offer offerMem
        rcases List.mem_cons.mp offerMem with rfl | old
        · exact sound.right isView may
        · exact sound.offers offer old
  | tick now later => exact ⟨sound.sameBody, sound.remembered, sound.offers⟩

theorem PendingRun.sound {now : Time} (run : PendingRun ShowsParents now s) : PendingSound s := by
  induction run with
  | start =>
      refine ⟨?_, ?_, ?_⟩
      · exact fun _ txMem => absurd txMem List.not_mem_nil
      · exact fun _ keptMem => absurd keptMem List.not_mem_nil
      · exact fun _ offerMem => absurd offerMem List.not_mem_nil
  | step before step ih => exact step.sound ih

/-- Where every view reflects what is no longer remembered and shows parents with
their children, what is offered is right. -/
theorem pendingSpends_right {now : Time} (run : PendingRun ShowsParents now s) :
    ∀ offer ∈ s.offers, offer.Right :=
  run.sound.offers

end Runs

/-! A payment and a second one from its change. -/

def parentTx : ParsedTransaction :=
  ⟨text "b", [⟨text "a", 0⟩], [⟨"other", 2, [], none, none, none⟩, ⟨"sender", 7, [], none, none, none⟩]⟩

def childTx : ParsedTransaction :=
  ⟨text "c", [⟨text "b", 1⟩], [⟨"other", 1, [], none, none, none⟩, ⟨"sender", 5, [], none, none, none⟩]⟩

/-- An output at the sender's address. -/
def senderUtxo (txHash : TxHash) (outputIndex : Nat) (amount : Int) : WalletUtxo :=
  ⟨txHash, outputIndex, "sender", [⟨lovelace, amount⟩], none, none, none⟩

def chainedPending (now : Time) : PendingState :=
  ⟨(PendingTxs.record .empty (some parentTx) now).record (some childTx) now, now,
    [parentTx, childTx], []⟩

theorem pendingRun_chained (allowed : PendingState → Nat → Address → List WalletUtxo → Prop) :
    PendingRun allowed 0 (chainedPending 0) :=
  .step (.step .start (.record _ parentTx nofun)) (.record _ childTx (by decide))

theorem pendingSpends_right_sample :
    PendingOffer.Right ⟨"sender", [parentTx, childTx], [senderUtxo (text "c") 1 5]⟩ := by
  have lagging : ViewOf [parentTx, childTx] 0 "sender" [senderUtxo (text "a") 0 9] :=
    ⟨by decide, by decide, by decide, by decide⟩
  have spentByChild : ∀ kept ∈ (chainedPending 0).txs.rows, ∀ u ∈ kept.outputs,
      ∀ tx ∈ [parentTx, childTx], u.ref ∈ tx.inputs → u.ref ∈ childTx.inputs := by decide +kernel
  have childKept : ⟨childTx.txHash, childTx.inputs, childTx.utxos, PENDING_TX_TTL_MS⟩ ∈
      (chainedPending 0).txs.rows := by decide +kernel
  have run := (pendingRun_chained ShowsParents).step
    (.apply _ 0 "sender" [senderUtxo (text "a") 0 9] (by decide) lagging
      ⟨by decide +kernel, fun kept keptMem _ u uMem _ tx txMem spends =>
        ⟨_, childKept, by decide, spentByChild kept keptMem u uMem tx txMem spends⟩⟩)
  exact pendingSpends_right run _ List.mem_cons_self

/-- The view has both; the child is forgotten first and the parent's change, which it
has spent, is offered again. -/
theorem pendingSpends_reoffers :
    ∃ s, PendingRun (fun _ _ _ _ => True) 0 s ∧
      ∃ offer ∈ s.offers, senderUtxo (text "b") 1 7 ∈ offer.utxos ∧ ¬ offer.Right := by
  have shown : ViewOf [parentTx, childTx] 2 "sender" [senderUtxo (text "c") 1 5] :=
    ⟨by decide, by decide, by decide, by decide⟩
  have run := (pendingRun_chained fun _ _ _ _ => True).step
    (.apply _ 2 "sender" [senderUtxo (text "c") 1 5] (by decide) shown trivial)
  refine ⟨_, run, _, List.mem_cons_self, by decide +kernel, fun right => ?_⟩
  exact right.unspent (senderUtxo (text "b") 1 7) (by decide +kernel) childTx (by decide)
    (by decide)

end Odatano
