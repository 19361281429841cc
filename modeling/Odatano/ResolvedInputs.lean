import Odatano.CrawlerLedger

/-!
# What the inputs of a block resolve to

`resolveInputs` of `srv/blockchain/cardano-indexer.ts` fills an input from the block, the UTxO set
or the tables.  When these hold the outputs of the chain, every input that one of them knows ends
with the address and the amounts of the output it refers to.
-/

namespace OrderedMap

variable {κ ν ε : Type*} [DecidableEq κ] (keyOf : ε → Option κ)

/-- Assigning the entries that have a key: the last one counts. -/
theorem get?_foldl_setSome (valueOf : ε → ν) {step : OrderedMap κ ν → ε → OrderedMap κ ν}
    (isStep : ∀ map entry,
      step map entry = (keyOf entry).elim map fun key => set map key (valueOf entry))
    (map : OrderedMap κ ν) (entries : List ε) (k : κ) :
    get? (entries.foldl step map) k =
      ((entries.filter fun entry => decide (keyOf entry = some k)).getLast?.map valueOf).or
        (get? map k) := by
  induction entries using List.reverseRecOn with
  | nil => rfl
  | append_singleton entries entry ih =>
      rw [List.foldl_append, List.foldl_cons, List.foldl_nil, isStep, List.filter_append]
      cases found : keyOf entry with
      | none => simp [found, ih]
      | some key =>
          rw [Option.elim_some, get?_set, ih]
          by_cases same : key = k
          · simp [found, same]
          · simp [found, same]

/-- Collecting the entries that have a key. -/
theorem getD_get?_foldl_collectSome {step : OrderedMap κ (List ε) → ε → OrderedMap κ (List ε)}
    (isStep : ∀ map entry, step map entry =
      (keyOf entry).elim map fun key => modify map key [] fun list => list ++ [entry])
    (map : OrderedMap κ (List ε)) (entries : List ε) (k : κ) :
    (get? (entries.foldl step map) k).getD [] =
      (get? map k).getD [] ++ entries.filter fun entry => decide (keyOf entry = some k) := by
  induction entries using List.reverseRecOn with
  | nil => simp
  | append_singleton entries entry ih =>
      rw [List.foldl_append, List.foldl_cons, List.foldl_nil, isStep, List.filter_append]
      cases found : keyOf entry with
      | none => simp [found, ih]
      | some key =>
          rw [Option.elim_some, get?_modify]
          by_cases same : key = k
          · subst same
            simp [found, ih]
          · simp [found, same, ih]

end OrderedMap

namespace Odatano

/-! ## Amounts -/

/-- The quantity of a unit in an amount list. -/
def unitQuantity (unit : AssetUnit) (amounts : List Amount) : Int :=
  (amounts.map fun a => if a.unit = unit then a.quantity else 0).sum

/-- What every output reference pays. -/
abbrev ChainOutputs := Outpoint → AssetUnit → Int

/-- An amount list spells out the quantities of an output. -/
structure Spells (paid : AssetUnit → Int) (amounts : List Amount) : Prop where
  ada : lovelaceOf amounts = paid lovelace
  assets : ∀ unit, unit ≠ lovelace → unitQuantity unit amounts = paid unit

/-! ## Reading stored outputs -/

section Stored

variable (store : CrawlStore)

/-- The asset rows of a stored output. -/
def storedAssets (out : TransactionOutputRow) : List LineAssetRow :=
  (store .transactionOutputAssets).select fun r =>
    decide (r.txSeq = out.txSeq ∧ r.lineIndex = out.outputIndex)

/-- The amounts of a stored output. -/
def storedAmounts (out : TransactionOutputRow) : List Amount :=
  (storedAssets store out).map fun r => ⟨r.unit, r.quantity⟩

/-- `out` is the row of the output `key`. -/
structure StoredAt (key : Outpoint) (out : TransactionOutputRow) (row : TransactionRow) :
    Prop where
  transaction : row ∈ (store .transactions).rows
  output : out ∈ (store .transactionOutputs).rows
  hash : row.hash = key.txHash
  position : row.txSeq = some out.txSeq
  index : out.outputIndex = key.outputIndex

/-- An output is stored, and no other transaction is stored under its position. -/
def StoredIn (key : Outpoint) : Prop :=
  ∃ out row, StoredAt store key out row ∧
    ∀ other ∈ (store .transactions).rows, other.txSeq = row.txSeq → other = row

variable {store} (hashes : List TxHash)

theorem mem_readTxKeys {key : TxKey} :
    key ∈ readTxKeys store hashes ↔
      ∃ row ∈ (store .transactions).rows, row.hash ∈ hashes ∧ row.txKey = key := by
  simp only [readTxKeys, List.mem_flatMap, List.mem_map, Table.mem_select, decide_eq_true_eq]
  constructor
  · rintro ⟨hashChunk, isChunk, row, ⟨member, read⟩, same⟩
    refine ⟨row, member, ?_, same⟩
    rw [← flatten_chunk_IN_CHUNK hashes]
    exact List.mem_flatten.mpr ⟨hashChunk, isChunk, read⟩
  · rintro ⟨row, member, read, same⟩
    rw [← flatten_chunk_IN_CHUNK hashes] at read
    obtain ⟨hashChunk, isChunk, read⟩ := List.mem_flatten.mp read
    exact ⟨hashChunk, isChunk, row, ⟨member, read⟩, same⟩

variable (store)

/-- `hashBySeq`. -/
def hashBySeq : OrderedMap Nat TxHash :=
  (readTxKeys store hashes).foldl
    (fun hashes key =>
      match key.txSeq with
      | some txSeq => OrderedMap.set hashes txSeq key.hash
      | none => hashes) Table.empty

/-- The output a line row is filed under. -/
def readOutpoint (txSeq index : Nat) : Option Outpoint :=
  (OrderedMap.get? (hashBySeq store hashes) txSeq).map fun hash => ⟨hash, index⟩

/-- The positions that are read, in pieces. -/
def seqChunks : List (List Nat) := chunk (OrderedMap.keys (hashBySeq store hashes)) IN_CHUNK

/-- One piece of the read. -/
theorem readStoredOutputs_eq :
    (readStoredOutputs store hashes).outByKey =
        ((seqChunks store hashes).flatMap fun seqChunk =>
          (store .transactionOutputs).select fun r => decide (r.txSeq ∈ seqChunk)).foldl
          (fun outputs r =>
            match readOutpoint store hashes r.txSeq r.outputIndex with
            | some key => OrderedMap.set outputs key r
            | none => outputs) Table.empty ∧
      (readStoredOutputs store hashes).amtByKey =
        ((seqChunks store hashes).flatMap fun seqChunk =>
          (store .transactionOutputAssets).select fun r => decide (r.txSeq ∈ seqChunk)).foldl
          (fun amounts r =>
            match readOutpoint store hashes r.txSeq r.lineIndex with
            | some key => OrderedMap.modify amounts key [] fun list => list ++ [r]
            | none => amounts) Table.empty := by
  rw [List.foldl_flatMap, List.foldl_flatMap]
  constructor
  · exact (List.foldl_hom StoredOutputs.outByKey fun _ _ => rfl).symm
  · exact (List.foldl_hom StoredOutputs.amtByKey fun _ _ => rfl).symm

theorem get?_outByKey (key : Outpoint) :
    OrderedMap.get? (readStoredOutputs store hashes).outByKey key =
      (((seqChunks store hashes).flatMap fun seqChunk =>
          (store .transactionOutputs).select fun r => decide (r.txSeq ∈ seqChunk)).filter fun r =>
        decide (readOutpoint store hashes r.txSeq r.outputIndex = some key)).getLast? := by
  rw [(readStoredOutputs_eq store hashes).1]
  refine (OrderedMap.get?_foldl_setSome
    (fun r => readOutpoint store hashes r.txSeq r.outputIndex) id ?_ _ _ _).trans ?_
  · intro map r
    cases readOutpoint store hashes r.txSeq r.outputIndex <;> rfl
  · rw [Option.map_id, id, OrderedMap.get?_empty, Option.or_none]

theorem getD_amtByKey (key : Outpoint) :
    (OrderedMap.get? (readStoredOutputs store hashes).amtByKey key).getD [] =
      ((seqChunks store hashes).flatMap fun seqChunk =>
          (store .transactionOutputAssets).select fun r => decide (r.txSeq ∈ seqChunk)).filter
        fun r => decide (readOutpoint store hashes r.txSeq r.lineIndex = some key) := by
  rw [(readStoredOutputs_eq store hashes).2]
  refine (OrderedMap.getD_get?_foldl_collectSome
    (fun r => readOutpoint store hashes r.txSeq r.lineIndex) ?_ _ _ _).trans ?_
  · intro map r
    cases readOutpoint store hashes r.txSeq r.lineIndex <;> rfl
  · rw [OrderedMap.get?_empty, Option.getD_none, List.nil_append]

/-- A position stands for the transaction read last under it. -/
theorem get?_hashBySeq (txSeq : Nat) :
    OrderedMap.get? (hashBySeq store hashes) txSeq =
      ((readTxKeys store hashes).filter fun key =>
        decide (key.txSeq = some txSeq)).getLast?.map TxKey.hash := by
  refine (OrderedMap.get?_foldl_setSome TxKey.txSeq TxKey.hash ?_ _ _ _).trans ?_
  · intro map key
    cases key.txSeq <;> rfl
  · rw [OrderedMap.get?_empty, Option.or_none]

variable {store} {hashes}

theorem transaction_of_readOutpoint {txSeq index : Nat} {key : Outpoint}
    (found : readOutpoint store hashes txSeq index = some key) :
    index = key.outputIndex ∧
      ∃ row ∈ (store .transactions).rows, row.hash = key.txHash ∧ row.txSeq = some txSeq := by
  rw [readOutpoint, get?_hashBySeq] at found
  obtain ⟨hash, isHash, rfl⟩ := Option.map_eq_some_iff.mp found
  obtain ⟨last, isLast, rfl⟩ := Option.map_eq_some_iff.mp isHash
  obtain ⟨member, isSeq⟩ := List.mem_filter.mp (List.mem_of_getLast? isLast)
  obtain ⟨row, rowMem, -, rfl⟩ := (mem_readTxKeys hashes).mp member
  exact ⟨rfl, row, rowMem, rfl, of_decide_eq_true isSeq⟩

/-- A transaction has one position. -/
theorem readOutpoint_inj {first second index other : Nat} {key : Outpoint}
    (isFirst : readOutpoint store hashes first index = some key)
    (isSecond : readOutpoint store hashes second other = some key) :
    first = second ∧ index = other := by
  obtain ⟨rfl, row, rowMem, hash, position⟩ := transaction_of_readOutpoint isFirst
  obtain ⟨rfl, row', rowMem', hash', position'⟩ := transaction_of_readOutpoint isSecond
  have same : row = row' := Table.mem_rows_inj rowMem rowMem' (hash.trans hash'.symm)
  rw [same, position'] at position
  exact ⟨(Option.some.inj position).symm, rfl⟩

theorem readOutpoint_of_only {key : Outpoint} {row : TransactionRow} {txSeq : Nat}
    (rowMem : row ∈ (store .transactions).rows) (hash : row.hash = key.txHash)
    (position : row.txSeq = some txSeq) (read : key.txHash ∈ hashes)
    (only : ∀ other ∈ (store .transactions).rows, other.txSeq = row.txSeq → other = row) :
    readOutpoint store hashes txSeq key.outputIndex = some key := by
  have member : row.txKey ∈ (readTxKeys store hashes).filter fun key =>
      decide (key.txSeq = some txSeq) :=
    List.mem_filter.mpr ⟨(mem_readTxKeys hashes).mpr ⟨row, rowMem, hash ▸ read, rfl⟩,
      decide_eq_true position⟩
  obtain ⟨last, isLast⟩ := Option.isSome_iff_exists.mp
    (List.getLast?_isSome.mpr (List.ne_nil_of_mem member))
  obtain ⟨lastMem, isSeq⟩ := List.mem_filter.mp (List.mem_of_getLast? isLast)
  obtain ⟨other, otherMem, -, rfl⟩ := (mem_readTxKeys hashes).mp lastMem
  have same : other = row := only other otherMem ((of_decide_eq_true isSeq).trans position.symm)
  rw [readOutpoint, get?_hashBySeq, isLast, Option.map_some, Option.map_some, same]
  exact congrArg some (by cases key; exact congrArg (Outpoint.mk · _) hash)

theorem mem_seqChunks_of_readOutpoint {txSeq index : Nat} {key : Outpoint}
    (found : readOutpoint store hashes txSeq index = some key) :
    txSeq ∈ (seqChunks store hashes).flatten := by
  rw [seqChunks, flatten_chunk_IN_CHUNK, OrderedMap.mem_keys_iff]
  obtain ⟨hash, isHash, -⟩ := Option.map_eq_some_iff.mp found
  exact Option.isSome_of_eq_some isHash

theorem seqChunks_nodup : (seqChunks store hashes).flatten.Nodup := by
  rw [seqChunks, flatten_chunk_IN_CHUNK]
  exact OrderedMap.keys_nodup _

/-- Rows that belong to one position are read in one piece. -/
theorem filter_flatMap_pieces {ρ : Type*} (rows : List ρ) (seqOf : ρ → Nat)
    {pieces : List (List Nat)} {seq : Nat} (nodup : pieces.flatten.Nodup)
    (member : seq ∈ pieces.flatten) (p : ρ → Bool)
    (only : ∀ r ∈ rows, p r = true → seqOf r = seq) :
    (pieces.flatMap fun piece => rows.filter fun r => decide (seqOf r ∈ piece)).filter p =
      rows.filter p := by
  have whole {piece : List Nat} (within : seq ∈ piece) :
      (rows.filter fun r => decide (seqOf r ∈ piece)).filter p = rows.filter p := by
    rw [List.filter_filter]
    refine List.filter_congr fun r rMem => ?_
    cases isP : p r with
    | false => rfl
    | true => rw [only r rMem isP, decide_eq_true within, Bool.and_true]
  have nothing {piece : List Nat} (outside : seq ∉ piece) :
      (rows.filter fun r => decide (seqOf r ∈ piece)).filter p = [] := by
    refine List.filter_eq_nil_iff.mpr fun r rMem isP => ?_
    obtain ⟨rMem, within⟩ := List.mem_filter.mp rMem
    exact outside (only r rMem isP ▸ of_decide_eq_true within)
  rw [List.filter_flatMap]
  induction pieces with
  | nil => cases member
  | cons piece pieces ih =>
      rw [List.flatten_cons] at nodup member
      obtain ⟨-, restNodup, apart⟩ := List.nodup_append.mp nodup
      rw [List.flatMap_cons]
      by_cases within : seq ∈ piece
      · have rest : (pieces.flatMap fun piece =>
            (rows.filter fun r => decide (seqOf r ∈ piece)).filter p) = [] := by
          refine List.flatMap_eq_nil_iff.mpr fun other otherMem => nothing fun isOther => ?_
          exact apart seq within seq (List.mem_flatten.mpr ⟨other, otherMem, isOther⟩) rfl
        rw [whole within, rest, List.append_nil]
      · rw [nothing within, List.nil_append]
        exact ih restNodup ((List.mem_append.mp member).resolve_left within)

/-- What is read for an output are its row and its asset rows. -/
theorem readStoredOutputs_sound {key : Outpoint} {out : TransactionOutputRow}
    (found : OrderedMap.get? (readStoredOutputs store hashes).outByKey key = some out) :
    (∃ row, StoredAt store key out row) ∧
      (OrderedMap.get? (readStoredOutputs store hashes).amtByKey key).getD [] =
        storedAssets store out := by
  rw [get?_outByKey] at found
  obtain ⟨member, isKey⟩ := List.mem_filter.mp (List.mem_of_getLast? found)
  have isKey := of_decide_eq_true isKey
  obtain ⟨seqChunk, -, outMem⟩ := List.mem_flatMap.mp member
  obtain ⟨index, row, rowMem, hash, position⟩ := transaction_of_readOutpoint isKey
  refine ⟨⟨row, rowMem, (Table.mem_select.mp outMem).1, hash, position, index⟩, ?_⟩
  rw [getD_amtByKey]
  have reads (r : LineAssetRow) :
      decide (readOutpoint store hashes r.txSeq r.lineIndex = some key) =
        decide (r.txSeq = out.txSeq ∧ r.lineIndex = out.outputIndex) := by
    refine decide_eq_decide.mpr ⟨fun isOther => readOutpoint_inj isOther isKey, ?_⟩
    rintro ⟨sameSeq, sameIndex⟩
    rw [sameSeq, sameIndex, isKey]
  refine (filter_flatMap_pieces (store .transactionOutputAssets).rows LineAssetRow.txSeq
    seqChunks_nodup (mem_seqChunks_of_readOutpoint isKey) _ ?_).trans ?_
  · intro r _ isOther
    exact (readOutpoint_inj (of_decide_eq_true isOther) isKey).1
  · exact List.filter_congr fun r _ => reads r

theorem readStoredOutputs_complete {key : Outpoint} (stored : StoredIn store key)
    (read : key.txHash ∈ hashes) :
    (OrderedMap.get? (readStoredOutputs store hashes).outByKey key).isSome = true := by
  obtain ⟨out, row, at_, only⟩ := stored
  have isKey := readOutpoint_of_only at_.transaction at_.hash at_.position read only
  rw [get?_outByKey, List.getLast?_isSome]
  obtain ⟨seqChunk, isChunk, within⟩ := List.mem_flatten.mp (mem_seqChunks_of_readOutpoint isKey)
  refine List.ne_nil_of_mem (a := out) (List.mem_filter.mpr ⟨List.mem_flatMap.mpr
    ⟨seqChunk, isChunk, Table.mem_select.mpr ⟨at_.output, decide_eq_true within⟩⟩, ?_⟩)
  rw [at_.index, isKey, decide_eq_true rfl]

end Stored

/-! ## Resolving an input -/

section Resolve

theorem get?_blockOutputs (txs : List Transaction) (key : Outpoint) :
    OrderedMap.get? (blockOutputs txs) key =
      (((txs.flatMap fun t => t.outputs.map fun o =>
        ((⟨t.hash, o.outputIndex⟩ : Outpoint), o)).filter fun entry =>
          decide (entry.1 = key)).getLast?).map Prod.snd := by
  refine (OrderedMap.get?_foldl_setSome (fun entry : Outpoint × TxOutputLine => some entry.1)
    Prod.snd (fun _ _ => rfl) _ _ _).trans ?_
  simp only [Option.some.injEq, OrderedMap.get?_empty, Option.or_none]

theorem mem_blockOutputs {txs : List Transaction} {key : Outpoint} {own : TxOutputLine}
    (found : OrderedMap.get? (blockOutputs txs) key = some own) :
    ∃ t ∈ txs, own ∈ t.outputs ∧ key = ⟨t.hash, own.outputIndex⟩ := by
  rw [get?_blockOutputs] at found
  obtain ⟨entry, isLast, rfl⟩ := Option.map_eq_some_iff.mp found
  obtain ⟨member, isKey⟩ := List.mem_filter.mp (List.mem_of_getLast? isLast)
  obtain ⟨t, tMem, member⟩ := List.mem_flatMap.mp member
  obtain ⟨o, oMem, rfl⟩ := List.mem_map.mp member
  exact ⟨t, tMem, oMem, (of_decide_eq_true isKey).symm⟩

theorem blockOutputs_isSome {txs : List Transaction} {t : Transaction} {o : TxOutputLine}
    (tMem : t ∈ txs) (oMem : o ∈ t.outputs) :
    (OrderedMap.get? (blockOutputs txs) ⟨t.hash, o.outputIndex⟩).isSome = true := by
  rw [get?_blockOutputs, Option.isSome_map, List.getLast?_isSome]
  refine List.ne_nil_of_mem (List.mem_filter.mpr ⟨List.mem_flatMap.mpr
    ⟨t, tMem, List.mem_map.mpr ⟨o, oMem, rfl⟩⟩, decide_eq_true rfl⟩)

variable (store : CrawlStore) (txs : List Transaction) (ledger : Option LedgerDb)

/-- The inputs that the block itself does not resolve. -/
def unresolvedInputs : List TxInputLine :=
  (txs.flatMap Transaction.inputs).filter fun input =>
    decide (input.address = "") && (OrderedMap.get? (blockOutputs txs) input.outpoint).isNone

/-- The row of the UTxO set for an output. -/
def ledgerOutput (key : Outpoint) : Option (LedgerUtxoRow × List Amount) :=
  (ledger.map fun db => readLedgerOutputs db ((unresolvedInputs txs).map TxInputLine.txHash)
    LedgerLookup.empty).bind fun lookup => lookup.output key

/-- The transactions whose outputs are read from the tables. -/
def sourceHashes : List TxHash :=
  distinct (((unresolvedInputs txs).filter fun input =>
    (ledgerOutput txs ledger input.outpoint).isNone).map TxInputLine.txHash)

/-- What one input becomes. -/
def resolveInput (input : TxInputLine) : TxInputLine :=
  if input.address ≠ "" then input
  else
    match OrderedMap.get? (blockOutputs txs) input.outpoint with
    | some own =>
        { input with
          address := own.address
          amount := own.amount.amounts
          data := input.data.copyFrom own.data }
    | none =>
        match ledgerOutput txs ledger input.outpoint with
        | some (row, amount) =>
            { input with
              address := row.address
              amount
              data := input.data.copyFrom row.utxo }
        | none => (readStoredOutputs store (sourceHashes txs ledger)).fill input

theorem resolveInputs_eq :
    (resolveInputs store txs ledger).1 =
      txs.map fun t => { t with inputs := t.inputs.map (resolveInput store txs ledger) } := rfl

theorem resolveInput_keeps (input : TxInputLine) :
    (resolveInput store txs ledger input).outpoint = input.outpoint ∧
      (resolveInput store txs ledger input).isCollateral = input.isCollateral ∧
      (resolveInput store txs ledger input).isReference = input.isReference := by
  unfold resolveInput
  split
  · exact ⟨rfl, rfl, rfl⟩
  · split
    · exact ⟨rfl, rfl, rfl⟩
    · split <;> exact ⟨rfl, rfl, rfl⟩

variable [Bech32] (paid : ChainOutputs)

/-- The block, the UTxO set and the tables hold outputs of the chain, and an input that a backend
filled has the amounts of its output; any other has none yet. -/
structure HoldChain : Prop where
  produced : ∀ t ∈ txs, ∀ o ∈ t.outputs,
    o.address ≠ "" ∧ Spells (paid ⟨t.hash, o.outputIndex⟩) o.amount.amounts
  utxos : ∀ db ∈ ledger, db.RowsBuilt ∧ ∀ row ∈ db.utxos.rows, row.address ≠ "" ∧
    Spells (paid row.outpoint) (ledgerRowAmount row
      (db.utxoAssets.select fun a => decide (a.utxo = row.outpoint)))
  stored : ∀ key out row, StoredAt store key out row →
    out.address ≠ "" ∧ Spells (paid key) (storedAmounts store out)
  bare : ∀ t ∈ txs, ∀ input ∈ t.inputs, input.address = "" → input.amount = []
  filled : ∀ t ∈ txs, ∀ input ∈ t.inputs, input.address ≠ "" →
    Spells (paid input.outpoint) input.amount

/-- An input that can be resolved. -/
def Resolvable (input : TxInputLine) : Prop :=
  input.address ≠ "" ∨
    (∃ t ∈ txs, ∃ o ∈ t.outputs, input.outpoint = ⟨t.hash, o.outputIndex⟩) ∨
    (∃ db ∈ ledger, (db.utxos.find? input.outpoint).isSome = true) ∨
    StoredIn store input.outpoint

variable {store txs ledger paid}

/-- The UTxO set answers for the outputs it has. -/
theorem ledgerOutput_eq (holds : HoldChain store txs ledger paid) {db : LedgerDb}
    (isLedger : ledger = some db) {input : TxInputLine} (asked : input ∈ unresolvedInputs txs) :
    ledgerOutput txs ledger input.outpoint =
      (db.utxos.find? input.outpoint).map fun row =>
        (row, ledgerRowAmount row (db.utxoAssets.select fun a =>
          decide (a.utxo = input.outpoint))) := by
  obtain ⟨built, -⟩ := holds.utxos db isLedger
  obtain ⟨answers, covered⟩ := readLedgerOutputs_answers built (LedgerLookup.answers_empty db)
    ((unresolvedInputs txs).map TxInputLine.txHash)
  have within := covered input.outpoint.txHash (List.mem_map.mpr ⟨input, asked, rfl⟩)
  rw [ledgerOutput, isLedger, Option.map_some, Option.bind_some, LedgerLookup.output,
    answers.rows, answers.assets, if_pos within, if_pos within]

/-- Every input that a source knows ends with an address and the amounts of its output. -/
theorem resolveInput_spells (holds : HoldChain store txs ledger paid) {t : Transaction}
    (tMem : t ∈ txs) {input : TxInputLine} (inputMem : input ∈ t.inputs)
    (known : Resolvable store txs ledger input) :
    (resolveInput store txs ledger input).address ≠ "" ∧
      Spells (paid input.outpoint) (resolveInput store txs ledger input).amount := by
  unfold resolveInput
  split
  · rename_i isFilled
    exact ⟨isFilled, holds.filled t tMem input inputMem isFilled⟩
  · rename_i unfilled
    have isBare := Classical.not_not.mp unfilled
    split
    · rename_i own found
      obtain ⟨source, sourceMem, ownMem, isKey⟩ := mem_blockOutputs found
      rw [isKey]
      exact holds.produced source sourceMem own ownMem
    · rename_i notOwn
      have asked : input ∈ unresolvedInputs txs := by
        refine List.mem_filter.mpr ⟨List.mem_flatMap.mpr ⟨t, tMem, inputMem⟩, ?_⟩
        rw [notOwn, decide_eq_true isBare]
        rfl
      split
      · rename_i row amount found
        cases isLedger : ledger with
        | none =>
            rw [isLedger] at found
            cases found
        | some db =>
            rw [ledgerOutput_eq holds isLedger asked] at found
            obtain ⟨stored, isStored, same⟩ := Option.map_eq_some_iff.mp found
            cases same
            obtain ⟨addressed, spells⟩ :=
              (holds.utxos db isLedger).2 row (Table.mem_of_find? isStored)
            rw [show row.outpoint = input.outpoint from Table.key_of_find? isStored] at spells
            exact ⟨addressed, spells⟩
      · rename_i notLedger
        have read : input.outpoint.txHash ∈ sourceHashes txs ledger := by
          refine mem_distinct.mpr (List.mem_map.mpr ⟨input, List.mem_filter.mpr ⟨asked, ?_⟩, rfl⟩)
          rw [notLedger]
          rfl
        have stored : StoredIn store input.outpoint := by
          rcases known with isFilled | ⟨source, sourceMem, o, oMem, isKey⟩ | ⟨db, isLedger, isRow⟩ |
            stored
          · exact absurd isBare isFilled
          · have isOwn := blockOutputs_isSome sourceMem oMem
            rw [← isKey, notOwn] at isOwn
            cases isOwn
          · rw [ledgerOutput_eq holds isLedger asked, Option.map_eq_none_iff] at notLedger
            rw [notLedger] at isRow
            cases isRow
          · exact stored
        obtain ⟨out, found⟩ :=
          Option.isSome_iff_exists.mp (readStoredOutputs_complete stored read)
        obtain ⟨⟨row, storedAt⟩, amounts⟩ := readStoredOutputs_sound found
        obtain ⟨addressed, spells⟩ := holds.stored _ out row storedAt
        rw [storedAmounts, ← amounts] at spells
        simp only [StoredOutputs.fill, found, Option.map_some, Option.getD_some]
        refine ⟨addressed, ?_⟩
        cases assets : OrderedMap.get?
            (readStoredOutputs store (sourceHashes txs ledger)).amtByKey input.outpoint with
        | none =>
            rw [assets, Option.getD_none, List.map_nil] at spells
            rw [Option.map_none, Option.getD_none, holds.bare t tMem input inputMem isBare]
            exact spells
        | some rows =>
            rw [assets, Option.getD_some] at spells
            exact spells

end Resolve

end Odatano
