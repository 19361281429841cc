import Mathlib.Data.List.Flatten
import Mathlib.Data.List.Sort
import Odatano.BackendErrors
import Odatano.CrawlRows
import Odatano.EpochTotals
import Odatano.LedgerHistory
import Odatano.LocalCoverage
import Odatano.UtxoSetImport

/-!
# The transactions of an address

`resolveAddressTransactionHashes` and `localAddressTransactions` of
`srv/blockchain/cardano-indexer.ts`: the newest transactions of an address from the crawled UTxO
set, which scans a bounded number of its rows.
-/

namespace Odatano

/-! ## The newest of a list -/

section Newest

variable {α : Type*}

/-- The `n` first entries after a stable sort by slot, the newest first. -/
def newest (n : Nat) (entries : List (α × Nat)) : List (α × Nat) :=
  (entries.mergeSort fun a b => decide (b.2 ≤ a.2)).take n

variable {n : Nat} {entries : List (α × Nat)}

theorem sorted_newest (entries : List (α × Nat)) :
    (entries.mergeSort fun a b => decide (b.2 ≤ a.2)).Pairwise fun a b => b.2 ≤ a.2 := by
  refine (List.pairwise_mergeSort ?_ ?_ entries).imp of_decide_eq_true
  · intro a b c first second
    exact decide_eq_true ((of_decide_eq_true second).trans (of_decide_eq_true first))
  · intro a b
    simpa using Nat.le_total b.2 a.2

theorem newest_subset {entry : α × Nat} (selected : entry ∈ newest n entries) :
    entry ∈ entries :=
  List.mem_mergeSort.mp (List.mem_of_mem_take selected)

theorem length_newest (n : Nat) (entries : List (α × Nat)) :
    (newest n entries).length = min n entries.length := by
  rw [newest, List.length_take, List.length_mergeSort]

/-- The selected entries and the rest, none of which is newer. -/
theorem newest_split (n : Nat) (entries : List (α × Nat)) :
    ∃ rest, (newest n entries ++ rest).Perm entries ∧
      ∀ chosen ∈ newest n entries, ∀ left ∈ rest, left.2 ≤ chosen.2 := by
  refine ⟨(entries.mergeSort fun a b => decide (b.2 ≤ a.2)).drop n, ?_, ?_⟩
  · rw [newest, List.take_append_drop]
    exact List.mergeSort_perm _ _
  · have sorted := sorted_newest entries
    rw [← List.take_append_drop n (entries.mergeSort fun a b => decide (b.2 ≤ a.2)),
      List.pairwise_append] at sorted
    exact sorted.2.2

/-- Every entry is selected or no newer than the selected ones. -/
theorem le_of_notMem_newest {entry chosen : α × Nat} (listed : entry ∈ entries)
    (out : entry ∉ newest n entries) (selected : chosen ∈ newest n entries) :
    entry.2 ≤ chosen.2 := by
  obtain ⟨rest, whole, older⟩ := newest_split n entries
  rcases List.mem_append.mp (whole.mem_iff.mpr listed) with inside | left
  · exact absurd inside out
  · exact older chosen selected entry left

/-- If there are `n` entries that are at least as new, so are all selected ones. -/
theorem le_of_count {slot : Nat}
    (count : n ≤ (entries.filter fun entry => decide (slot ≤ entry.2)).length)
    {chosen : α × Nat} (selected : chosen ∈ newest n entries) : slot ≤ chosen.2 := by
  obtain ⟨rest, whole, older⟩ := newest_split n entries
  by_contra isOlder
  push Not at isOlder
  -- the rest is older still, so all that is as new would be among the others selected
  have restOlder : rest.filter (fun entry => decide (slot ≤ entry.2)) = [] := by
    rw [List.filter_eq_nil_iff]
    intro left leftMem asNew
    have := older chosen selected left leftMem
    have := of_decide_eq_true asNew
    omega
  have counted := (whole.filter fun entry => decide (slot ≤ entry.2)).length_eq
  rw [List.filter_append, restOlder, List.append_nil] at counted
  have fewer : ((newest n entries).filter fun entry => decide (slot ≤ entry.2)).length <
      (newest n entries).length :=
    List.length_filter_lt_length_iff_exists.mpr ⟨chosen, selected, by simpa using isOlder⟩
  rw [length_newest] at fewer
  omega

end Newest

/-! ## The exact history -/

/-- The newest `limit` of some transactions with their slots. -/
structure ExactHistory (history : List (TxHash × Nat)) (limit : Nat) (answer : List TxHash) :
    Prop where
  listed : ∀ hash ∈ answer, hash ∈ history.map Prod.fst
  once : answer.Nodup
  all_or_limit : answer.length = min limit history.length
  newestFirst : answer.Pairwise fun first second =>
    ∀ a ∈ history, ∀ b ∈ history, a.1 = first → b.1 = second → b.2 ≤ a.2
  newest : ∀ a ∈ history, a.1 ∉ answer → ∀ b ∈ history, b.1 ∈ answer → a.2 ≤ b.2

section Exact

variable {history read : List (TxHash × Nat)} {limit : Nat} {answer : List TxHash}

/-- An answer that is the newest of the transactions that were read, out of a history. -/
structure AnswersNewest (history read : List (TxHash × Nat)) (limit : Nat)
    (answer : List TxHash) : Prop where
  once : (history.map Prod.fst).Nodup
  readOnce : read.Nodup
  sound : ∀ entry ∈ read, entry ∈ history
  selected : answer.Perm ((newest limit read).map Prod.fst)
  sorted : answer.Pairwise fun first second =>
    ∀ a ∈ read, ∀ b ∈ read, a.1 = first → b.1 = second → b.2 ≤ a.2

namespace AnswersNewest

variable (answers : AnswersNewest history read limit answer)

include answers

theorem same : ∀ a ∈ history, ∀ b ∈ history, a.1 = b.1 → a = b :=
  fun _ aMem _ bMem => List.inj_on_of_nodup_map answers.once aMem bMem

theorem length_answer : answer.length = min limit read.length := by
  rw [answers.selected.length_eq, List.length_map, length_newest]

/-- An answered hash stands for an entry that was read. -/
theorem entryOf {hash : TxHash} (answered : hash ∈ answer) :
    ∃ entry ∈ newest limit read, entry.1 = hash :=
  List.mem_map.mp (answers.selected.mem_iff.mp answered)

theorem answered_iff {entry : TxHash × Nat} (listed : entry ∈ history) :
    entry.1 ∈ answer ↔ entry ∈ newest limit read := by
  constructor
  · intro answered
    obtain ⟨other, chosen, sameHash⟩ := answers.entryOf answered
    rw [← answers.same other (answers.sound other (newest_subset chosen)) entry listed sameHash]
    exact chosen
  · intro chosen
    exact answers.selected.mem_iff.mpr (List.mem_map_of_mem chosen)

theorem newest_nodup : (newest limit read).Nodup :=
  (List.take_sublist _ _).nodup ((List.mergeSort_perm read _).nodup_iff.mpr answers.readOnce)

theorem answer_nodup : answer.Nodup := by
  refine answers.selected.nodup_iff.mpr (answers.newest_nodup.map_on fun a aMem b bMem => ?_)
  exact answers.same a (answers.sound a (newest_subset aMem)) b
    (answers.sound b (newest_subset bMem))

/-- If the answer is exact, what was not read leaves room for `limit` that were. -/
theorem reached (holds : ExactHistory history limit answer) {entry : TxHash × Nat}
    (listed : entry ∈ history) (unread : entry ∉ read) :
    limit ≤ (read.filter fun other => decide (entry.2 ≤ other.2)).length := by
  have out : entry.1 ∉ answer := fun answered =>
    unread (newest_subset ((answers.answered_iff listed).mp answered))
  -- with fewer than `limit` answers all transactions would be among them
  have full : answer.length = limit := by
    by_contra notFull
    have all : answer.length = (history.map Prod.fst).length := by
      have := holds.all_or_limit
      rw [List.length_map]
      omega
    have whole :=
      (List.subperm_of_subset answers.answer_nodup holds.listed).perm_of_length_le all.ge
    exact out (whole.mem_iff.mpr (List.mem_map_of_mem listed))
  have counted : (newest limit read).length ≤
      (read.filter fun other => decide (entry.2 ≤ other.2)).length := by
    refine (List.subperm_of_subset answers.newest_nodup fun chosen chosenMem => ?_).length_le
    refine List.mem_filter.mpr ⟨newest_subset chosenMem, decide_eq_true ?_⟩
    have inHistory := answers.sound chosen (newest_subset chosenMem)
    exact holds.newest entry listed out chosen inHistory
      ((answers.answered_iff inHistory).mpr chosenMem)
  have length := answers.length_answer
  rw [length_newest] at counted
  omega

/-- If what was not read leaves room for `limit` that were, the answer is exact. -/
theorem exactHistory_of_reached (reached : ∀ entry ∈ history, entry ∈ read ∨
      limit ≤ (read.filter fun other => decide (entry.2 ≤ other.2)).length) :
    ExactHistory history limit answer := by
  refine ⟨?_, answers.answer_nodup, ?_, ?_, ?_⟩
  · intro hash answered
    obtain ⟨entry, chosen, rfl⟩ := answers.entryOf answered
    exact List.mem_map_of_mem (answers.sound entry (newest_subset chosen))
  · have readLength := (List.subperm_of_subset answers.readOnce answers.sound).length_le
    rw [answers.length_answer]
    by_cases all : ∀ entry ∈ history, entry ∈ read
    · have historyOnce : history.Nodup := List.Nodup.of_map _ answers.once
      have := (List.subperm_of_subset historyOnce all).length_le
      omega
    · push Not at all
      obtain ⟨entry, listed, notRead⟩ := all
      have count := (reached entry listed).resolve_left notRead
      have := List.length_filter_le (fun other : TxHash × Nat => decide (entry.2 ≤ other.2)) read
      omega
  · refine answers.sorted.imp_of_mem fun {first second} firstMem secondMem newer a aMem b bMem => ?_
    rintro rfl rfl
    exact newer a (newest_subset ((answers.answered_iff aMem).mp firstMem)) b
      (newest_subset ((answers.answered_iff bMem).mp secondMem)) rfl rfl
  · intro a listed out b bMem answered
    have chosen := (answers.answered_iff bMem).mp answered
    rcases reached a listed with wasRead | count
    · exact le_of_notMem_newest wasRead (fun inside => out ((answers.answered_iff listed).mpr inside))
        chosen
    · exact le_of_count count chosen

/-- The newest of the transactions that were read are the newest of all exactly if what was not
read leaves room for `limit` that were, in its slot or later. -/
theorem exactHistory_iff : ExactHistory history limit answer ↔
    ∀ entry ∈ history, entry ∈ read ∨
      limit ≤ (read.filter fun other => decide (entry.2 ≤ other.2)).length := by
  refine ⟨fun holds entry listed => ?_, answers.exactHistory_of_reached⟩
  exact or_iff_not_imp_left.mpr (answers.reached holds listed)

end AnswersNewest

end Exact

/-! ## Net amounts -/

/-- Net asset change. -/
structure NetAsset where
  unit : AssetUnit
  policyId : String
  assetName : String
  assetNameHex : String
  quantity : Int
deriving DecidableEq

/-- An `AddressTransactions` row. -/
structure AddressTransaction where
  address : Address
  txHash : TxHash
  netAmount : Int
  blockTime : Int
  netAssets : Option (List NetAsset)
  hasAssets : Bool
deriving DecidableEq

/-- An input or output of a provider transaction. -/
structure AddressAmounts where
  address : Address
  amount : List Amount

/-- A provider transaction as far as its net amounts read it. -/
structure AmountsTransaction where
  hash : TxHash
  blockTime : Int
  inputs : List AddressAmounts
  outputs : List AddressAmounts

/-- The amounts at an address. -/
def amountsAt (address : Address) (lines : List AddressAmounts) : List Amount :=
  (lines.filter fun line => decide (line.address = address)).flatMap AddressAmounts.amount

/-- Net asset changes of an address in a transaction; zero balances are dropped. -/
def netAssetsOf (inputs outputs : List Amount) : List NetAsset :=
  let natives := List.filter fun a : Amount => decide (a.unit ≠ lovelace)
  let spent := OrderedMap.accumulate Amount.unit (fun _ => 0)
    (fun a quantity => quantity - a.quantity) Table.empty (natives inputs)
  let balances := OrderedMap.accumulate Amount.unit (fun _ => 0)
    (fun a quantity => quantity + a.quantity) spent (natives outputs)
  (balances.rows.filter fun entry => decide (entry.2 ≠ 0)).map fun entry =>
    let digits := entry.1.chars.toList
    let assetNameHex := String.ofList (digits.drop 56)
    { unit := entry.1
      policyId := String.ofList (digits.take 56)
      assetName := decodeAssetName assetNameHex
      assetNameHex
      quantity := entry.2 }

/-- The net amounts of an address: outputs minus inputs. -/
def mapAddressTransaction (address : Address) (t : AmountsTransaction) : AddressTransaction :=
  let inputs := amountsAt address t.inputs
  let outputs := amountsAt address t.outputs
  let netAssets := netAssetsOf inputs outputs
  { address
    txHash := t.hash
    netAmount := lovelaceSum outputs - lovelaceSum inputs
    blockTime := t.blockTime
    netAssets := if netAssets = [] then none else some netAssets
    hasAssets := !netAssets.isEmpty }
where
  lovelaceSum (amounts : List Amount) : Int :=
    ((amounts.filter fun a => decide (a.unit = lovelace)).map Amount.quantity).sum

/-- Newest first; the transaction hash breaks ties inside one block. -/
def sortAddressTransactions (rows : List AddressTransaction) : List AddressTransaction :=
  rows.mergeSort fun a b =>
    -- `localeCompare` on the lower-case hashes
    decide (b.blockTime < a.blockTime ∨
      b.blockTime = a.blockTime ∧ b.txHash.chars ≤ a.txHash.chars)

/-! ## The crawled history -/

/-- The order in which the database finds rows that `orderBy` leaves equal: any order, however the
rows are listed. -/
structure QueryOrder where
  arrange : List (TxHash × Nat) → List (TxHash × Nat)
  arrange_perm : ∀ rows, (arrange rows).Perm rows
  arrange_congr : ∀ {first second}, first.Perm second → arrange first = arrange second

/-- `orderBy('slot desc').limit(limit)` over the selected columns. -/
def QueryOrder.newest (order : QueryOrder) (limit : Nat) (rows : List (TxHash × Nat)) :
    List (TxHash × Nat) :=
  Odatano.newest limit (order.arrange rows)

/-- The transactions that created the outputs at an address, one for each output. -/
def createdAt (db : LedgerDb) (addr : Address) : List (TxHash × Nat) :=
  (db.utxos.select fun row => decide (row.address = addr)).filterMap fun row =>
    row.createdSlot.map fun slot => (row.txHash, slot)

/-- The transactions that consumed outputs at an address, one for each output.  A row with a
slot has the transaction too. -/
def spentAt (db : LedgerDb) (addr : Address) : List (TxHash × Nat) :=
  (db.utxos.select fun row => decide (row.address = addr)).filterMap fun row =>
    row.spentSlot.bind fun slot => row.spentTxHash.map fun hash => (hash, slot)

/-- The bound of each scan: a transaction can touch the address with several outputs. -/
def scanLimit (limit : Nat) : Nat := min (limit * 20) 2000

/-- Candidate transactions by slot, as the two scans find them. -/
def scannedTransactions (created spent : QueryOrder) (db : LedgerDb) (addr : Address)
    (limit : Nat) : List (TxHash × Nat) :=
  created.newest (scanLimit limit) (createdAt db addr) ++
    spent.newest (scanLimit limit) (spentAt db addr)

/-- The slot of each candidate. -/
def slotsOf (scanned : List (TxHash × Nat)) : OrderedMap TxHash Nat :=
  scanned.foldl (fun slots entry => OrderedMap.set slots entry.1 entry.2) Table.empty

/-- Append an amount to the list of its output. -/
def pushAmount (out : OrderedMap Outpoint (List Amount)) (a : LedgerUtxoAssetRow) :
    OrderedMap Outpoint (List Amount) :=
  match OrderedMap.get? out a.utxo with
  | some amounts => OrderedMap.set out a.utxo (amounts ++ [⟨a.unit, a.asset.quantity⟩])
  | none => out

/-- Amount lists of `LedgerUTxOs` rows. -/
def ledgerAmounts (db : LedgerDb) (rows : List LedgerUtxoRow) :
    OrderedMap Outpoint (List Amount) :=
  let out := rows.foldl
    (fun out r => OrderedMap.set out r.outpoint [⟨lovelace, r.lovelace⟩]) Table.empty
  let withAssets := distinct ((rows.filter LedgerUtxoRow.hasAssets).map LedgerUtxoRow.txHash)
  (chunk withAssets IN_CHUNK).foldl
    (fun out hashChunk =>
      (db.utxoAssets.select fun a => decide (a.utxo.txHash ∈ hashChunk)).foldl pushAmount out)
    out

/-- The net amounts of some transactions with their slots, from the rows at an address. -/
def addressRows (network : EpochConfig) (db : LedgerDb) (addr : Address)
    (selected : List (TxHash × Nat)) : List AddressTransaction :=
  let hashes := selected.map Prod.fst
  let outRows := db.utxos.select fun row => decide (row.address = addr ∧ row.txHash ∈ hashes)
  let inRows := db.utxos.select fun row =>
    decide (row.address = addr ∧ ∃ spender ∈ row.spentTxHash, spender ∈ hashes)
  let amounts := ledgerAmounts db (outRows ++ inRows)
  let lines (rows : List LedgerUtxoRow) : List AddressAmounts := rows.map fun row =>
    ⟨addr, (OrderedMap.get? amounts row.outpoint).getD []⟩
  selected.map fun entry => mapAddressTransaction addr
    { hash := entry.1
      blockTime := slotToPosixSeconds network entry.2
      inputs := lines (inRows.filter fun row => decide (row.spentTxHash = some entry.1))
      outputs := lines (outRows.filter fun row => decide (row.txHash = entry.1)) }

/-- Transactions of an address from the crawled UTxO set. -/
structure LocalTransactions where
  rows : List AddressTransaction
  complete : Bool
deriving DecidableEq

/-- Transactions that paid to or spent from the address since the anchor.  `complete` is true when
the address first appeared after the anchor.  None when the set cannot answer. -/
def localAddressTransactions (created spent : QueryOrder) (network : EpochConfig)
    (cursor : SyncState) (now : Time) (db : LedgerDb) (addr : Address) (limit : Nat) :
    Option LocalTransactions :=
  if ((localCoverage cursor now).map LocalCoverage.ledger).getD false then
    some <| match db.addresses.find? addr with
      | none => ⟨[], false⟩
      | some known =>
          let selected :=
            newest limit (slotsOf (scannedTransactions created spent db addr limit)).rows
          ⟨sortAddressTransactions (addressRows network db addr selected),
            known.firstSeenSlot.isSome⟩
  else none

/-- A listing and whether a backend was asked for it. -/
structure HashListing where
  asked : Bool
  result : Except ClientError (List TxHash)
deriving DecidableEq

/-- Latest transaction hashes of an address: the crawled set when it has enough, else the backend.
`backend` is what `client.getAddressTransactionHashes` would answer. -/
def resolveAddressTransactionHashes (crawled : Option LocalTransactions) (limit : Nat)
    (backend : Except ClientError (List TxHash)) : HashListing :=
  match crawled with
  | some held =>
      let hashes := held.rows.map AddressTransaction.txHash
      if held.complete || decide (limit ≤ held.rows.length) then ⟨false, .ok hashes⟩
      else
        match backend with
        | .ok answer => ⟨true, .ok answer⟩
        | .error (.backendError (.providerUnavailableError ..))
        | .error (.allBackendsFailedError _) => ⟨true, .ok hashes⟩
        | .error e => ⟨true, .error e⟩
  | none => ⟨true, backend⟩

/-! ## What the scans find -/

section Scans

variable {entry : TxHash × Nat} {limit : Nat}

theorem QueryOrder.newest_congr (order : QueryOrder) {first second : List (TxHash × Nat)}
    (perm : first.Perm second) : order.newest limit first = order.newest limit second := by
  rw [QueryOrder.newest, QueryOrder.newest, order.arrange_congr perm]

theorem QueryOrder.newest_subset {order : QueryOrder} {rows : List (TxHash × Nat)}
    (found : entry ∈ order.newest limit rows) : entry ∈ rows :=
  (order.arrange_perm rows).mem_iff.mp (Odatano.newest_subset found)

/-- A scan of no more rows than its limit finds all of them. -/
theorem QueryOrder.mem_newest_of_fits {order : QueryOrder} {rows : List (TxHash × Nat)}
    (fits : rows.length ≤ limit) : entry ∈ order.newest limit rows ↔ entry ∈ rows := by
  have arranged := order.arrange_perm rows
  rw [QueryOrder.newest, Odatano.newest, List.take_of_length_le]
  · exact List.mem_mergeSort.trans arranged.mem_iff
  · rw [List.length_mergeSort, arranged.length_eq]
    exact fits

/-- Each candidate with its slot, if no transaction was found in two slots. -/
theorem mem_slotsOf {scanned : List (TxHash × Nat)}
    (agree : ∀ a ∈ scanned, ∀ b ∈ scanned, a.1 = b.1 → a = b) :
    entry ∈ (slotsOf scanned).rows ↔ entry ∈ scanned := by
  have written : slotsOf scanned = Table.upsertAll Table.empty scanned := rfl
  rw [written, Table.mem_upsertAll_iff agree]
  simp [Table.empty]

theorem slotsOf_once (scanned : List (TxHash × Nat)) : (slotsOf scanned).rows.Nodup :=
  List.Nodup.of_map _ (slotsOf scanned).keys_nodup

/-- The candidates that are counted once each. -/
theorem filter_slotsOf_length {scanned : List (TxHash × Nat)}
    (agree : ∀ a ∈ scanned, ∀ b ∈ scanned, a.1 = b.1 → a = b) (p : TxHash × Nat → Bool) :
    ((slotsOf scanned).rows.filter p).length = (distinct (scanned.filter p)).length := by
  refine List.Perm.length_eq ((List.perm_ext_iff_of_nodup ?_ (distinct_nodup _)).mpr ?_)
  · exact (slotsOf_once scanned).filter p
  · intro entry
    rw [mem_distinct, List.mem_filter, List.mem_filter, mem_slotsOf agree]

end Scans

/-! ## The answered rows -/

section Answer

variable {network : EpochConfig} {db : LedgerDb} {addr : Address}
  {selected : List (TxHash × Nat)}

theorem hashes_addressRows :
    (addressRows network db addr selected).map AddressTransaction.txHash =
      selected.map Prod.fst := by
  rw [addressRows, List.map_map]
  rfl

theorem mem_addressRows {row : AddressTransaction}
    (rowMem : row ∈ addressRows network db addr selected) :
    ∃ entry ∈ selected, row.txHash = entry.1 ∧
      row.blockTime = slotToPosixSeconds network entry.2 := by
  obtain ⟨entry, entryMem, rfl⟩ := List.mem_map.mp rowMem
  exact ⟨entry, entryMem, rfl, rfl⟩

theorem sorted_sortAddressTransactions (rows : List AddressTransaction) :
    (sortAddressTransactions rows).Pairwise fun a b => b.blockTime ≤ a.blockTime := by
  refine (List.pairwise_mergeSort ?_ ?_ rows).imp ?_
  · intro a b c first second
    rw [decide_eq_true_eq] at first second ⊢
    rcases first with first | ⟨first, firstHash⟩
    · rcases second with second | ⟨second, -⟩
      · exact Or.inl (second.trans first)
      · exact Or.inl (second ▸ first)
    · rcases second with second | ⟨second, secondHash⟩
      · exact Or.inl (first ▸ second)
      · exact Or.inr ⟨second.trans first, String.le_trans secondHash firstHash⟩
  · intro a b
    rw [Bool.or_eq_true, decide_eq_true_eq, decide_eq_true_eq]
    rcases lt_trichotomy a.blockTime b.blockTime with less | same | more
    · exact Or.inr (Or.inl less)
    · rcases String.le_total a.txHash.chars b.txHash.chars with below | above
      · exact Or.inr (Or.inr ⟨same, below⟩)
      · exact Or.inl (Or.inr ⟨same.symm, above⟩)
    · exact Or.inl (Or.inl more)
  · intro a b newer
    rcases of_decide_eq_true newer with newer | ⟨same, -⟩
    · exact newer.le
    · exact same.le

/-- The answer names the selected transactions, the newest first. -/
theorem sortedRows_newest {read : List (TxHash × Nat)} {limit : Nat}
    (same : ∀ a ∈ read, ∀ b ∈ read, a.1 = b.1 → a = b) :
    let rows := sortAddressTransactions (addressRows network db addr (newest limit read))
    (rows.map AddressTransaction.txHash).Perm ((newest limit read).map Prod.fst) ∧
      (rows.map AddressTransaction.txHash).Pairwise fun first second =>
        ∀ a ∈ read, ∀ b ∈ read, a.1 = first → b.1 = second → b.2 ≤ a.2 := by
  intro rows
  have whole : rows.Perm (addressRows network db addr (newest limit read)) :=
    List.mergeSort_perm _ _
  refine ⟨?_, ?_⟩
  · rw [← @hashes_addressRows network db addr]
    exact whole.map _
  · rw [List.pairwise_map]
    refine (sorted_sortAddressTransactions _).imp_of_mem fun {x y} xMem yMem newer => ?_
    intro a aMem b bMem isFirst isSecond
    obtain ⟨c, cMem, cHash, cTime⟩ := mem_addressRows (whole.mem_iff.mp xMem)
    obtain ⟨d, dMem, dHash, dTime⟩ := mem_addressRows (whole.mem_iff.mp yMem)
    rw [same a aMem c (newest_subset cMem) (isFirst.trans cHash),
      same b bMem d (newest_subset dMem) (isSecond.trans dHash)]
    rw [cTime, dTime, slotToPosixSeconds, slotToPosixSeconds] at newer
    omega

end Answer

/-! ## The crawled history against the chain -/

section Chain

variable [Bech32] {chain : LedgerChain} {snapshot ledger : LedgerDb} {created spent : QueryOrder}
  {network : EpochConfig} {cursor : SyncState} {now : Time} {addr : Address} {limit : Nat}

/-- The transactions of the whole chain at an address. -/
def LedgerChain.transactionsAt (chain : LedgerChain) (addr : Address) : List (TxHash × Nat) :=
  chain.transactionsIn chain.allBlocks addr

omit [Bech32] in
theorem LedgerChain.transactionsAt_eq (addr : Address) :
    chain.transactionsAt addr =
      chain.transactionsIn chain.history addr ++ chain.transactionsIn chain.blocks addr := by
  rw [transactionsAt, allBlocks, transactionsIn, List.flatMap_append]
  rfl

/-- The newest `rows` outputs paid to the address since the anchor, and as many of those that were
consumed, by the transactions that paid and consumed them. -/
def LedgerChain.newestSince (chain : LedgerChain) (created spent : QueryOrder) (addr : Address)
    (rows : Nat) : List (TxHash × Nat) :=
  created.newest rows (chain.paidSince addr) ++ spent.newest rows (chain.spentSince addr)

omit [Bech32] in
/-- What the stored outputs say, each once, is what some entries with their outpoints say. -/
theorem filterMap_rows_perm {β : Type} {utxos : Table LedgerUtxoRow.outpoint}
    {value : LedgerUtxoRow → Option β} {entries : List (Outpoint × β)}
    (once : (entries.map Prod.fst).Nodup)
    (same : ∀ key v, (∃ row ∈ utxos.rows, value row = some v ∧ row.outpoint = key) ↔
      (key, v) ∈ entries) :
    (utxos.rows.filterMap fun row => (value row).map fun v => (row.outpoint, v)).Perm entries := by
  have keys (rows : List LedgerUtxoRow) :
      ((rows.filterMap fun row => (value row).map fun v => (row.outpoint, v)).map
        Prod.fst).Sublist (rows.map LedgerUtxoRow.outpoint) := by
    induction rows with
    | nil => exact .slnil
    | cons row rows ih =>
        cases isValue : value row with
        | none => simpa [isValue] using ih.cons row.outpoint
        | some v => simpa [isValue] using ih.cons_cons row.outpoint
  refine (List.perm_ext_iff_of_nodup ?_ once.of_map).mpr fun entry => ?_
  · exact (utxos.keys_nodup.sublist (keys utxos.rows)).of_map
  · rw [← same entry.1 entry.2]
    simp only [List.mem_filterMap, Option.map_eq_some_iff, Prod.ext_iff]
    constructor
    · rintro ⟨row, rowMem, v, isValue, isKey, rfl⟩
      exact ⟨row, rowMem, isValue, isKey⟩
    · rintro ⟨row, rowMem, isValue, isKey⟩
      exact ⟨row, rowMem, entry.2, isValue, isKey, rfl⟩

omit [Bech32] in
/-- The stored outputs with a slot of creation are those that a block since the anchor paid. -/
theorem createdAt_perm (records : chain.Records chain.blocks ledger.utxos) :
    (createdAt ledger addr).Perm (chain.paidSince addr) := by
  have perm := @filterMap_rows_perm Nat ledger.utxos
    (fun row => if row.address = addr then row.createdSlot else none)
    (chain.blocks.flatMap fun b =>
      (b.outputs.filter fun paid => decide (paid.2 = addr)).map fun paid => (paid.1, b.slot))
    ?_ fun key slot => ?_
  · have mapped := perm.map fun entry : Outpoint × Nat => (entry.1.txHash, entry.2)
    refine (List.Perm.of_eq ?_).trans (mapped.trans (List.Perm.of_eq ?_))
    · rw [createdAt, Table.select, List.filterMap_filter, List.map_filterMap]
      refine List.filterMap_congr fun row _ => ?_
      by_cases here : row.address = addr
      · simp [here, Function.comp_def]
      · simp [here]
    · rw [LedgerChain.paidSince, List.map_flatMap]
      simp only [List.map_map]
      rfl
  · have once := chain.outputs_once
    rw [List.flatMap_append, ← List.append_assoc, List.map_append] at once
    refine (List.nodup_append.mp once).2.1.sublist ?_
    rw [List.map_flatMap, List.map_flatMap]
    refine List.Sublist.flatMap_right _ fun b _ => ?_
    rw [List.map_map]
    exact List.filter_sublist.map Prod.fst
  · have recorded := @LedgerChain.Records.created_iff chain _ records addr key slot
    simp only [Option.ite_none_right_eq_some, and_assoc]
    rw [recorded]
    simp only [List.mem_flatMap, List.mem_map, List.mem_filter, decide_eq_true_eq, Prod.mk.injEq]
    constructor
    · rintro ⟨b, bMem, paid, rfl⟩
      exact ⟨b, bMem, (key, addr), ⟨paid, rfl⟩, rfl, rfl⟩
    · rintro ⟨b, bMem, paid, ⟨listed, rfl⟩, rfl, rfl⟩
      exact ⟨b, bMem, listed, rfl⟩

omit [Bech32] in
/-- The stored outputs with a slot of consumption are those that a block since the anchor
consumed. -/
theorem spentAt_perm (records : chain.Records chain.blocks ledger.utxos) :
    (spentAt ledger addr).Perm (chain.spentSince addr) := by
  have perm := @filterMap_rows_perm (TxHash × Nat) ledger.utxos
    (fun row => if row.address = addr then
      row.spentSlot.bind fun slot => row.spentTxHash.map fun hash => (hash, slot) else none)
    (chain.blocks.flatMap fun b =>
      (b.spends.filter fun s => decide ((s.key, addr) ∈ chain.outputsUpTo chain.allBlocks)).map
        fun s => (s.key, s.spender, b.slot))
    ?_ fun key entry => ?_
  · have mapped := perm.map Prod.snd
    refine (List.Perm.of_eq ?_).trans (mapped.trans (List.Perm.of_eq ?_))
    · rw [spentAt, Table.select, List.filterMap_filter, List.map_filterMap]
      refine List.filterMap_congr fun row _ => ?_
      by_cases here : row.address = addr
      · simp [here, Function.comp_def]
      · simp [here]
    · rw [LedgerChain.spentSince, List.map_flatMap]
      simp only [List.map_map]
      rfl
  · have once := chain.spends_once
    rw [List.flatMap_append, List.map_append] at once
    refine (List.nodup_append.mp once).2.1.sublist ?_
    rw [List.map_flatMap, List.map_flatMap]
    refine List.Sublist.flatMap_right _ fun b _ => ?_
    rw [List.map_map]
    exact List.filter_sublist.map LedgerSpend.key
  · obtain ⟨spender, slot⟩ := entry
    have recorded := @LedgerChain.Records.spent_iff chain _ records addr key spender slot
    simp only [Option.ite_none_right_eq_some, Option.bind_eq_some_iff, Option.map_eq_some_iff,
      Prod.mk.injEq]
    constructor
    · rintro ⟨row, rowMem, ⟨here, slot, isSlot, hash, isHash, rfl, rfl⟩, isKey⟩
      obtain ⟨b, bMem, spent, rfl⟩ := recorded.mp ⟨row, rowMem, here, isSlot, isHash, isKey⟩
      refine List.mem_flatMap.mpr ⟨b, bMem, List.mem_map.mpr ⟨⟨key, hash⟩, ?_, rfl⟩⟩
      exact List.mem_filter.mpr ⟨spent.1, decide_eq_true spent.2⟩
    · intro listed
      obtain ⟨b, bMem, spentIn⟩ := List.mem_flatMap.mp listed
      obtain ⟨s, consumed, same⟩ := List.mem_map.mp spentIn
      obtain ⟨spent, paid⟩ := List.mem_filter.mp consumed
      simp only [Prod.mk.injEq] at same
      obtain ⟨rfl, rfl, rfl⟩ := same
      obtain ⟨row, rowMem, here, isSlot, isHash, isKey⟩ :=
        recorded.mpr ⟨b, bMem, ⟨spent, of_decide_eq_true paid⟩, rfl⟩
      exact ⟨row, rowMem, ⟨here, _, isSlot, _, isHash, rfl, rfl⟩, isKey⟩

/-- The scans find the newest that the blocks since the anchor paid and consumed. -/
theorem scannedTransactions_eq (holds : HoldsChain snapshot chain.blocks ledger)
    (imported : chain.ImportedAt snapshot) :
    scannedTransactions created spent ledger addr limit =
      chain.newestSince created spent addr (scanLimit limit) := by
  have records := chain.records holds imported
  rw [scannedTransactions, LedgerChain.newestSince, created.newest_congr (createdAt_perm records),
    spent.newest_congr (spentAt_perm records)]

omit [Bech32] in
theorem LedgerChain.mem_newestSince {entry : TxHash × Nat} {rows : Nat}
    (found : entry ∈ chain.newestSince created spent addr rows) :
    entry ∈ chain.transactionsIn chain.blocks addr :=
  chain.mem_since_iff.mp ((List.mem_append.mp found).imp QueryOrder.newest_subset
    QueryOrder.newest_subset)

omit [Bech32] in
/-- With no more outputs than that, these are all transactions since the anchor. -/
theorem LedgerChain.mem_newestSince_of_fits {entry : TxHash × Nat} {rows : Nat}
    (paidFits : (chain.paidSince addr).length ≤ rows)
    (spentFits : (chain.spentSince addr).length ≤ rows) :
    entry ∈ chain.newestSince created spent addr rows ↔
      entry ∈ chain.transactionsIn chain.blocks addr := by
  rw [newestSince, List.mem_append, QueryOrder.mem_newest_of_fits paidFits,
    QueryOrder.mem_newest_of_fits spentFits, chain.mem_since_iff]

/-- The rows that are found, selected and sorted. -/
theorem exact_scanned_iff (holds : HoldsChain snapshot chain.blocks ledger)
    (imported : chain.ImportedAt snapshot) :
    ExactHistory (chain.transactionsAt addr) limit
        ((sortAddressTransactions (addressRows network ledger addr (newest limit
          (slotsOf (scannedTransactions created spent ledger addr limit)).rows))).map
            AddressTransaction.txHash) ↔
      ∀ entry ∈ chain.transactionsAt addr,
        entry ∈ chain.newestSince created spent addr (scanLimit limit) ∨
          limit ≤ (distinct ((chain.newestSince created spent addr (scanLimit limit)).filter
            fun other => decide (entry.2 ≤ other.2))).length := by
  rw [scannedTransactions_eq holds imported]
  generalize foundEq : chain.newestSince created spent addr (scanLimit limit) = found
  have listed : ∀ entry ∈ found, entry ∈ chain.transactionsAt addr := by
    intro entry entryMem
    rw [← foundEq] at entryMem
    rw [chain.transactionsAt_eq]
    exact List.mem_append_right _ (chain.mem_newestSince entryMem)
  have once : ((chain.transactionsAt addr).map Prod.fst).Nodup := chain.transactionsIn_once addr
  have agree : ∀ a ∈ found, ∀ b ∈ found, a.1 = b.1 → a = b := fun a aMem b bMem =>
    List.inj_on_of_nodup_map once (listed a aMem) (listed b bMem)
  have same : ∀ a ∈ (slotsOf found).rows, ∀ b ∈ (slotsOf found).rows, a.1 = b.1 → a = b :=
    fun a aMem b bMem => agree a ((mem_slotsOf agree).mp aMem) b ((mem_slotsOf agree).mp bMem)
  obtain ⟨selected, sorted⟩ := @sortedRows_newest network ledger addr _ limit same
  have answers : AnswersNewest (chain.transactionsAt addr) (slotsOf found).rows limit _ :=
    ⟨once, slotsOf_once _, fun entry isFound => listed entry ((mem_slotsOf agree).mp isFound),
      selected, sorted⟩
  rw [answers.exactHistory_iff]
  refine forall₂_congr fun entry _ => ?_
  rw [mem_slotsOf agree, filter_slotsOf_length agree]

omit [Bech32] in
/-- If neither scan is cut, only the transactions up to the anchor can be missing. -/
theorem reached_of_fits_iff (paidFits : (chain.paidSince addr).length ≤ scanLimit limit)
    (spentFits : (chain.spentSince addr).length ≤ scanLimit limit) :
    (∀ entry ∈ chain.transactionsAt addr,
        entry ∈ chain.newestSince created spent addr (scanLimit limit) ∨
          limit ≤ (distinct ((chain.newestSince created spent addr (scanLimit limit)).filter
            fun other => decide (entry.2 ≤ other.2))).length) ↔
      ∀ entry ∈ chain.transactionsIn chain.history addr,
        limit ≤ ((chain.transactionsIn chain.blocks addr).filter
          fun other => decide (entry.2 ≤ other.2)).length := by
  have found {entry : TxHash × Nat} := @LedgerChain.mem_newestSince_of_fits chain created spent
    addr entry _ paidFits spentFits
  have once : (chain.transactionsIn chain.history addr ++
      chain.transactionsIn chain.blocks addr).Nodup := by
    rw [← chain.transactionsAt_eq]
    exact List.Nodup.of_map _ (chain.transactionsIn_once addr)
  have counted (p : TxHash × Nat → Bool) :
      (distinct ((chain.newestSince created spent addr (scanLimit limit)).filter p)).length =
        ((chain.transactionsIn chain.blocks addr).filter p).length := by
    refine List.Perm.length_eq ((List.perm_ext_iff_of_nodup (distinct_nodup _) ?_).mpr ?_)
    · exact (List.nodup_append.mp once).2.1.filter p
    · intro entry
      rw [mem_distinct, List.mem_filter, List.mem_filter, found]
  rw [chain.transactionsAt_eq]
  simp only [List.mem_append, found, counted]
  constructor
  · intro reached entry earlier
    refine (reached entry (Or.inl earlier)).resolve_left fun since => ?_
    exact (List.nodup_append.mp once).2.2 entry earlier entry since rfl
  · rintro reached entry (earlier | since)
    · exact Or.inr (reached entry earlier)
    · exact Or.inl since

omit [Bech32] in
/-- Whatever the crawled set answers alone are the rows found. -/
theorem answered_rows {backend : Except ClientError (List TxHash)} {answer : List TxHash}
    (answered : resolveAddressTransactionHashes
      (localAddressTransactions created spent network cursor now ledger addr limit) limit backend =
        ⟨false, .ok answer⟩) :
    answer = (sortAddressTransactions (addressRows network ledger addr (newest limit
      (slotsOf (scannedTransactions created spent ledger addr limit)).rows))).map
        AddressTransaction.txHash := by
  unfold resolveAddressTransactionHashes at answered
  cases held : localAddressTransactions created spent network cursor now ledger addr limit with
  | none =>
      rw [held] at answered
      cases answered
  | some crawled =>
      rw [held] at answered
      dsimp only at answered
      split at answered
      · rename_i enough
        cases answered
        unfold localAddressTransactions at held
        split at held
        · cases held
          cases known : ledger.addresses.find? addr with
          | some row => rfl
          | none =>
              -- an address without a row is answered for the limit zero only
              rw [known] at enough
              have isZero : limit = 0 := by simpa using enough
              subst isZero
              simp [newest, addressRows, sortAddressTransactions]
        · cases held
      · split at answered <;> cases answered

/-- What the crawled set answers alone is the exact history if and only if each transaction of the
chain at the address is among the newest `min (20 * limit) 2000` outputs that were paid to it or
consumed from it since the anchor, or `limit` of those transactions are in its slot or in a later
one.  With no more outputs than that, this asks for `limit` transactions since the anchor unless
the address has none up to the anchor. -/
theorem resolveAddressTransactionHashes_exact_iff
    (holds : HoldsChain snapshot chain.blocks ledger) (imported : chain.ImportedAt snapshot)
    {backend : Except ClientError (List TxHash)} {answer : List TxHash}
    (answered : resolveAddressTransactionHashes
      (localAddressTransactions created spent network cursor now ledger addr limit) limit backend =
        ⟨false, .ok answer⟩) :
    (ExactHistory (chain.transactionsAt addr) limit answer ↔
      ∀ entry ∈ chain.transactionsAt addr,
        entry ∈ chain.newestSince created spent addr (min (limit * 20) 2000) ∨
          limit ≤ (distinct ((chain.newestSince created spent addr (min (limit * 20) 2000)).filter
            fun other => decide (entry.2 ≤ other.2))).length) ∧
    ((chain.paidSince addr).length ≤ min (limit * 20) 2000 →
      (chain.spentSince addr).length ≤ min (limit * 20) 2000 →
        (ExactHistory (chain.transactionsAt addr) limit answer ↔
          ∀ entry ∈ chain.transactionsIn chain.history addr,
            limit ≤ ((chain.transactionsIn chain.blocks addr).filter
              fun other => decide (entry.2 ≤ other.2)).length)) := by
  rw [answered_rows answered]
  have exact_iff := @exact_scanned_iff _ chain snapshot ledger created spent network addr limit
    holds imported
  refine ⟨exact_iff, fun paidFits spentFits => exact_iff.trans ?_⟩
  exact reached_of_fits_iff paidFits spentFits

end Chain

section Sample

attribute [local instance] byronBech32

/-- One transaction that moves an output to an address. -/
def movingBlock (hash : Text) (slot : Nat) (source : Outpoint) (address : Address) : LedgerBlock :=
  ⟨sampleBlock hash slot 1, [sampleTx hash hash slot [source] [{ sampleOutput with address }]]⟩

/-- `Ae2A` is paid and emptied before the anchor at slot 20, and paid again in slot 30. -/
def emptiedChain : LedgerChain where
  genesis := [(⟨text "g", 0⟩, "Ae2B")]
  history := [movingBlock (text "a") 10 ⟨text "g", 0⟩ "Ae2A",
    movingBlock (text "b") 20 ⟨text "a", 0⟩ "Ae2B"]
  blocks := [movingBlock (text "c") 30 ⟨text "b", 0⟩ "Ae2A"]
  hashes_once := by decide +kernel
  genesis_apart := by decide +kernel
  outputs_once := by decide +kernel
  spends_once := by decide +kernel
  spends_paid := by decide +kernel

/-- The one output that is open at the anchor. -/
def openAtAnchor : List LedgerOutputLike :=
  [⟨text "b", 0, "Ae2B", sampleOutput.amount, sampleOutput.data⟩]

/-- The import at the anchor. -/
def anchorImport : LedgerDb :=
  (aggregateStatements (LedgerDb.empty.loadPage openAtAnchor).clearSums).getD LedgerDb.empty

theorem anchorImport_eq :
    aggregateStatements (LedgerDb.empty.loadPage openAtAnchor).clearSums = some anchorImport := by
  obtain ⟨base, aggregated⟩ := Option.isSome_iff_exists.mp
    (aggregateStatements_clearSums (LedgerDb.empty.loadPage openAtAnchor))
  rw [anchorImport, aggregated]
  rfl

theorem openAtAnchor_new : NewOutputs LedgerDb.empty openAtAnchor :=
  ⟨by decide +kernel, fun _ stored => absurd stored List.not_mem_nil⟩

theorem anchorImport_importedAt : emptiedChain.ImportedAt anchorImport := by
  refine @LedgerChain.importedAt_of_open emptiedChain _ anchorImport openAtAnchor ?_ ?_ ?_ ?_
  · rw [(rows_of_aggregateStatements anchorImport_eq).1, rows_loadPage openAtAnchor_new]
    rfl
  · decide +kernel
  · decide +kernel
  · decide +kernel

theorem anchorImport_holds :
    HoldsChain anchorImport emptiedChain.blocks (applyBlocks anchorImport emptiedChain.blocks) := by
  have consistent : anchorImport.Consistent := aggregateStatements_consistent
    (loadPage_rowsBuilt LedgerDb.empty_rowsBuilt openAtAnchor_new) anchorImport_eq
  have start : HoldsChain anchorImport [] anchorImport := ⟨consistent, consistent, rfl, rfl⟩
  exact start.applyBlocks (emptiedChain.extendsLedger anchorImport_importedAt)

/-- A crawler at the tip with an active UTxO set. -/
def activeCursor : SyncState :=
  { SyncState.initial "preview" (some ⟨20, text "b", some 20⟩) with
    lastSlot := 30
    syncStatus := .synced
    leaseOwner := some "crawler"
    leaseUntil := some 10
    utxoSet := { UtxoSetState.initial with status := .active } }

/-- By transaction hash, then by slot. -/
def hashThenSlot (a b : TxHash × Nat) : Prop :=
  a.1.chars ≤ b.1.chars ∧ (a.1.chars = b.1.chars → a.2 ≤ b.2)

instance : DecidableRel hashThenSlot := fun _ _ => inferInstanceAs (Decidable (_ ∧ _))

theorem hashThenSlot_sorted (rows : List (TxHash × Nat)) :
    (rows.mergeSort fun a b => decide (hashThenSlot a b)).Pairwise hashThenSlot := by
  refine (List.pairwise_mergeSort ?_ ?_ rows).imp of_decide_eq_true
  · intro a b c first second
    rw [decide_eq_true_eq] at first second ⊢
    refine ⟨String.le_trans first.1 second.1, fun same => ?_⟩
    have between : a.1.chars = b.1.chars := by
      refine String.le_antisymm first.1 ?_
      rw [same]
      exact second.1
    exact (first.2 between).trans (second.2 (between.symm.trans same))
  · intro a b
    rw [Bool.or_eq_true, decide_eq_true_eq, decide_eq_true_eq]
    by_cases same : a.1.chars = b.1.chars
    · have le := String.le_refl b.1.chars
      rcases Nat.le_total a.2 b.2 with below | above
      · exact Or.inl ⟨same ▸ le, fun _ => below⟩
      · exact Or.inr ⟨same ▸ le, fun _ => above⟩
    · rcases String.le_total a.1.chars b.1.chars with below | above
      · exact Or.inl ⟨below, fun equal => absurd equal same⟩
      · exact Or.inr ⟨above, fun equal => absurd equal.symm same⟩

/-- Equal rows in the order of their transactions. -/
def txHashOrder : QueryOrder where
  arrange rows := rows.mergeSort fun a b => decide (hashThenSlot a b)
  arrange_perm rows := List.mergeSort_perm rows _
  arrange_congr := by
    intro first second perm
    refine List.Perm.eq_of_pairwise ?_ (hashThenSlot_sorted first) (hashThenSlot_sorted second) ?_
    · rintro ⟨⟨hash, _⟩, slot⟩ ⟨⟨other, _⟩, otherSlot⟩ _ _ ab ba
      obtain rfl : hash = other := String.le_antisymm ab.1 ba.1
      obtain rfl : slot = otherSlot := Nat.le_antisymm (ab.2 rfl) (ba.2 rfl)
      rfl
    · exact (List.mergeSort_perm first _).trans (perm.trans (List.mergeSort_perm second _).symm)

/-- The latest transaction of the address that held the output at the anchor. -/
theorem resolveAddressTransactionHashes_exact_sample :
    ExactHistory (emptiedChain.transactionsAt "Ae2B") 1 [text "c"] := by
  have answered : resolveAddressTransactionHashes (localAddressTransactions txHashOrder txHashOrder
      .preview activeCursor 0 (applyBlocks anchorImport emptiedChain.blocks) "Ae2B" 1) 1 (.ok []) =
        ⟨false, .ok [text "c"]⟩ := by decide +kernel
  exact (resolveAddressTransactionHashes_exact_iff anchorImport_holds anchorImport_importedAt
    answered).1.mpr (by decide +kernel)

/-- The address that was emptied before the anchor counts as new: its earlier transactions are
left out although five were asked for. -/
theorem resolveAddressTransactionHashes_misses :
    ¬ ∀ (chain : LedgerChain) (snapshot ledger : LedgerDb),
      HoldsChain snapshot chain.blocks ledger → chain.ImportedAt snapshot →
      ∀ (addr : Address) (limit : Nat) (answer : List TxHash),
        resolveAddressTransactionHashes (localAddressTransactions txHashOrder txHashOrder .preview
          activeCursor 0 ledger addr limit) limit (.ok []) = ⟨false, .ok answer⟩ →
        ExactHistory (chain.transactionsAt addr) limit answer := by
  intro always
  have whole := always _ _ _ anchorImport_holds anchorImport_importedAt "Ae2A" 5 [text "c"]
    (by decide +kernel)
  exact absurd whole.all_or_limit (by decide +kernel)

end Sample

end Odatano
