import Odatano.EpochTotals
import Odatano.LocalCoverage
import Odatano.MintDerivation
import Odatano.TransactionPositions

/-!
# Totals from the crawled tables

`localPoolBlocks` and `localAssetInfo` of `srv/blockchain/cardano-indexer.ts` count
the rows of a pool and fold the rows of an asset.  The same tables hold the blocks,
transactions and asset histories that readers stored.
-/

namespace Odatano

/-! ## The answers -/

/-- Epoch a slot belongs to; no network has slots before its epoch 0. -/
def epochOfSlot (network : EpochConfig) (slot : Nat) : Nat :=
  (network.shelleyStartEpoch +
    ((slot : Int) - network.shelleyStartSlot) / network.slotsPerEpoch).toNat

/-- What the answers of an indexer depend on besides the database. -/
structure CrawlAnswers where
  network : EpochConfig
  crawlAssetHistory : Bool
  crawlAuthoritative : Bool
  hasBackendFor : String → Bool

structure LocalPoolBlocks where
  blocksEpoch : Option Nat
  blocksMinted : Option Nat
deriving DecidableEq

/-- The `Blocks` rows of a pool from a slot on. -/
def countSince (store : CrawlStore) (poolId : String) (fromSlot : Int) : Nat :=
  ((store .blocks).select fun row =>
    decide (row.slotLeader = some poolId) &&
      row.slot.any fun slot : Nat => decide (fromSlot ≤ (slot : Int))).length

/-- Block counts of a pool.  The epoch count needs the whole current epoch crawled, the
lifetime count the whole chain since Shelley. -/
def localPoolBlocks (network : EpochConfig) (cursor : SyncState) (now : Time)
    (store : CrawlStore) (poolId : String) : LocalPoolBlocks :=
  match localCoverage cursor now with
  | none => ⟨none, none⟩
  | some coverage =>
      let epochStart := epochStartSlot network (epochOfSlot network coverage.lastSlot)
      { blocksEpoch :=
          if (coverage.fromSlot : Int) < epochStart then some (countSince store poolId epochStart)
          else none
        blocksMinted :=
          if coverage.fromSlot ≤ network.shelleyStartSlot then some (countSince store poolId 0)
          else none }

/-- The last slot of a crawl that answers `method` alone. -/
def crawlAnswers (config : CrawlAnswers) (cursor : SyncState) (now : Time) (method : String) :
    Option Nat :=
  match localCoverage cursor now with
  | none => none
  | some coverage =>
      if config.network.shelleyStartSlot < coverage.fromSlot then none
      else if !config.crawlAuthoritative && config.hasBackendFor method then none
      else some coverage.lastSlot

/-- A query without an order: the database returns the rows in any. -/
structure ReadOrder where
  read : List AssetHistoryRow → List AssetHistoryRow
  perm : ∀ rows, (read rows).Perm rows

/-- `Number(blockHeight ?? 0)`. -/
def AssetHistoryRow.heightOrZero (row : AssetHistoryRow) : Nat := row.blockHeight.getD 0

/-- A burn counts negative. -/
def AssetHistoryRow.signedQuantity (row : AssetHistoryRow) : Int :=
  (if row.action = .burn then -1 else 1) * row.quantity

/-- An asset, without the registry fields, which stay null. -/
structure AssetInfo (Json : Type) where
  unit : AssetUnit
  policyId : String
  assetNameHex : String
  assetName : Option String
  fingerprint : String
  totalSupply : Int
  mintOrBurnCount : Nat
  initialMintTxHash : Option TxHash
  initialMintTime : Option Nat
  onchainMetadata : Option Json

structure NotFoundError where
  message : String

section AssetInfo

variable {Json : Type} (parseJson : String → Option Json)
  (computeCip14Fingerprint : String → String → String)

/-- The CIP-25 metadata of a transaction; an unparseable payload is left out. -/
def onchainMetadataOf (store : CrawlStore) (txHash : TxHash) : Option Json :=
  let row := ((store .transactionMetadata).select fun row =>
    decide (row.tx = txHash ∧ row.label = "721")).head?
  (row.bind TransactionMetadataRow.payload).bind parseJson

/-- The answer that some ordered mint and burn rows give. -/
def assetInfoOf (store : CrawlStore) (unit : AssetUnit) (ordered : List AssetHistoryRow) :
    AssetInfo Json :=
  let mints := ordered.filter fun event => decide (event.action ≠ .burn)
  let policyId := String.ofList (unit.chars.toList.take 56)
  let assetNameHex := String.ofList (unit.chars.toList.drop 56)
  { unit
    policyId
    assetNameHex
    assetName := if assetNameHex = "" then none else some (decodeAssetName assetNameHex)
    fingerprint := computeCip14Fingerprint policyId assetNameHex
    totalSupply := (ordered.map AssetHistoryRow.signedQuantity).sum
    mintOrBurnCount := ordered.length
    initialMintTxHash := mints.head?.map AssetHistoryRow.txHash
    initialMintTime := mints.head?.bind AssetHistoryRow.blockTime
    onchainMetadata := mints.getLast?.bind fun latest =>
      onchainMetadataOf parseJson store latest.txHash }

/-- Asset from crawled mint and burn rows, null when the crawled chain does not answer. -/
def localAssetInfo (config : CrawlAnswers) (cursor : SyncState) (now : Time)
    (store : CrawlStore) (order : ReadOrder) (unit : AssetUnit) :
    Except NotFoundError (Option (AssetInfo Json)) :=
  if !config.crawlAssetHistory || (crawlAnswers config cursor now "getAssetInfo").isNone then
    .ok none
  else
    let events := order.read ((store .assetHistory).select fun row => decide (row.unit = unit))
    if events = [] then
      .error ⟨"Asset " ++ unit.chars ++ " (never minted in the crawled chain)"⟩
    else
      let ordered := events.mergeSort fun a b => decide (a.heightOrZero ≤ b.heightOrZero)
      .ok (some (assetInfoOf parseJson computeCip14Fingerprint store unit ordered))

end AssetInfo

/-! ## The lazy writes -/

/-- Store a block row that a reader fetched. -/
def writeBlockRow (store : CrawlStore) (row : BlockRow) : CrawlStore :=
  TableFamily.write store (blockBatch row)

/-- What `indexAssetHistory` writes: the provider's rows, unless the crawl answers.  A
provider can list one transaction twice. -/
def indexAssetHistory (config : CrawlAnswers) (cursor : SyncState) (now : Time)
    (store : CrawlStore) (events : List AssetHistoryRow) : CrawlStore :=
  if config.crawlAssetHistory &&
      (crawlAnswers config cursor now "getAssetHistory").isSome then store
  else
    let rows := ((Table.empty : Table CrawlTable.assetHistory.key).upsertAll events).rows
    TableFamily.write store (assetHistoryBatch rows)

/-! ## The store and the followed chain -/

/-- A block of the followed chain, with the net quantities that its transactions minted on the
chain. -/
structure FollowedBlock where
  block : IndexedBlock
  minted : TxHash → AssetUnit → Int

/-- What a transaction of a block minted or burned of an asset. -/
def chainMint (block : BlockData) (txHash : TxHash) (unit : AssetUnit) (quantity : Int) :
    AssetHistoryRow where
  unit
  txHash
  action := if 0 < quantity then .mint else .burn
  quantity := quantity.natAbs
  blockTime := some block.time
  blockHeight := block.height

/-- The mints and burns of an asset in a block, in the order of its transactions. -/
def FollowedBlock.mints (f : FollowedBlock) (unit : AssetUnit) : List AssetHistoryRow :=
  (f.block.txs.filter fun t => decide (f.minted t.hash unit ≠ 0)).map fun t =>
    chainMint f.block.block t.hash unit (f.minted t.hash unit)

/-- A delivered transaction next to what it minted: a source that reports its mint reports that,
and a failed transaction mints nothing. -/
structure DeliversMint (minted : AssetUnit → Int) (t : Transaction) : Prop where
  ada : minted lovelace = 0
  reported : ∀ mint ∈ t.mint, ∀ unit, unit ≠ lovelace → unitQuantity unit mint = minted unit
  failed : t.phase2Failed = true → t.mint = none ∧ ∀ unit, minted unit = 0

/-- The crawled tables, the cursor row and the followed chain, oldest block first. -/
structure FollowedStore where
  store : CrawlStore
  cursor : SyncState
  chain : List FollowedBlock

def FollowedStore.start (network : String) (point : Option ChainPoint) : FollowedStore :=
  ⟨CrawlStore.empty, SyncState.initial network point, []⟩

/-- A write to the crawled tables. -/
inductive StoreWrite
  | crawledBlock (coverage : CrawlCoverage) (f : FollowedBlock)
  | readBlock (row : BlockRow)
  | readTransaction (providerTx : Transaction)
  | readHistory (events : List AssetHistoryRow)

section Steps

variable [Bech32] (allowed : FollowedStore → StoreWrite → Prop)

/-- The mint rows that indexing a block writes. -/
def resolvedMints (store : CrawlStore) (b : IndexedBlock) : List AssetHistoryRow :=
  let prepared := prepareBlock store b.ledger b.block b.txs
  buildAssetHistoryRows prepared.block prepared.txs

/-- Crawler and readers write in any order.  Of the cursor row only the start slot and the
slot of the cursor matter; every other column changes at will. -/
inductive FollowStep : FollowedStore → FollowedStore → Prop
  | persist (s : FollowedStore) (coverage : CrawlCoverage) (b : IndexedBlock)
      (minted : TxHash → AssetUnit → Int) (cursor : SyncState)
      (sameStart : cursor.startSlot = s.cursor.startSlot)
      (atBlock : cursor.lastSlot = b.slot) (wellFormed : b.WellFormed)
      (delivers : ∀ t ∈ b.txs, DeliversMint (minted t.hash) t)
      (follows : ∀ f ∈ s.chain, f.block.Precedes b)
      (grows : ∀ f ∈ s.chain, ∀ before after, f.block.block.height = some before →
        b.block.height = some after → before < after)
      (may : allowed s (.crawledBlock coverage ⟨b, minted⟩)) :
      FollowStep s
        { store := indexBlock coverage s.store b
          cursor
          chain := s.chain ++ [⟨b, minted⟩] }
  | rollBack (s : FollowedStore) (forkSlot : Nat) (cursor : SyncState)
      (sameStart : cursor.startSlot = s.cursor.startSlot) (atFork : cursor.lastSlot = forkSlot) :
      FollowStep s
        { store := (rollBackBlocks s.store (staleBlocks s.store forkSlot)).1
          cursor
          chain := s.chain.filter fun f => decide (f.block.slot ≤ forkSlot) }
  | readBlock (s : FollowedStore) (row : BlockRow) (may : allowed s (.readBlock row)) :
      FollowStep s { s with store := writeBlockRow s.store row }
  | readTransaction (s : FollowedStore) (providerTx : Transaction)
      (may : allowed s (.readTransaction providerTx)) :
      FollowStep s { s with store := (indexTransaction s.store providerTx).1 }
  | readHistory (s : FollowedStore) (config : CrawlAnswers) (now : Time)
      (events : List AssetHistoryRow) (may : allowed s (.readHistory events)) :
      FollowStep s { s with store := indexAssetHistory config s.cursor now s.store events }
  -- leases, status changes, the ledger columns
  | cursorRow (s : FollowedStore) (cursor : SyncState)
      (sameStart : cursor.startSlot = s.cursor.startSlot)
      (sameSlot : cursor.lastSlot = s.cursor.lastSlot) :
      FollowStep s { s with cursor }

/-- What a crawler and readers can reach from a fresh database. -/
def FollowReachable (network : String) (point : Option ChainPoint) (s : FollowedStore) : Prop :=
  Relation.ReflTransGen (FollowStep allowed) (FollowedStore.start network point) s

end Steps

namespace FollowedStore

/-- The followed chain up to the cursor. -/
def followed (s : FollowedStore) : List FollowedBlock :=
  s.chain.filter fun f => decide (f.block.slot ≤ s.cursor.lastSlot)

/-- The blocks of a pool on the followed chain, from a slot on. -/
def poolBlocks (s : FollowedStore) (poolId : String) (fromSlot : Int) : Nat :=
  (s.followed.filter fun f =>
    decide (f.block.block.slotLeader = some poolId ∧ fromSlot ≤ (f.block.slot : Int))).length

/-- The mints and burns of an asset on the followed chain, in its order. -/
def history (s : FollowedStore) (unit : AssetUnit) : List AssetHistoryRow :=
  s.followed.flatMap fun f => f.mints unit

end FollowedStore

/-! ## Writes that keep the totals -/

/-- The crawl starts at Shelley or before, so it can answer for assets. -/
def FromShelley (network : EpochConfig) (cursor : SyncState) : Prop :=
  cursor.startSlot.any (fun start => decide (start ≤ network.shelleyStartSlot)) = true

/-- A block row says where a block is and who made it. -/
structure BlockRow.Describes (row : BlockRow) (b : IndexedBlock) : Prop where
  hash : row.hash = b.hash
  slot : row.slot = b.block.slot
  height : row.height = b.block.height
  slotLeader : row.slotLeader = b.block.slotLeader

/-- A row of a pool before the start of a crawl that does not reach back to Shelley. -/
def BeforeCrawl (network : EpochConfig) (cursor : SyncState) (slot : Nat) : Prop :=
  ∃ start, cursor.startSlot = some start ∧ slot ≤ start ∧ network.shelleyStartSlot < start

/-- The mint of a delivered transaction can be told: its source reports it, or all its inputs can
be resolved, from tables that hold the chain's outputs, and its balance tells. -/
def MintKnown [Bech32] (store : CrawlStore) (b : IndexedBlock) (minted : AssetUnit → Int)
    (t : Transaction) : Prop :=
  t.mint.isSome = true ∨ ∃ paid, HoldChain store b.txs b.ledger paid ∧
    LedgerAccepted paid minted t ∧ ∀ input ∈ t.inputs, Resolvable store b.txs b.ledger input

section Totals

variable [Bech32] (network : EpochConfig) (poolId : String) (unit : AssetUnit)

/-- The writes that keep the totals of a pool and an asset: what a reader stores agrees
with the followed chain, and the crawl can tell and records every mint, one at most in a block. -/
def Harmless (s : FollowedStore) : StoreWrite → Prop
  | .crawledBlock coverage f =>
      FromShelley network s.cursor → coverage.assetHistory = true ∧ f.block.block.height.isSome ∧
        (∀ t ∈ f.block.txs, t.phase2Failed = false →
          MintKnown s.store f.block (f.minted t.hash) t) ∧
        (f.block.txs.filter fun t => decide (0 < f.minted t.hash unit)).length ≤ 1
  | .readBlock row =>
      (∀ f ∈ s.chain, f.block.hash = row.hash → row.Describes f.block) ∧
        (row.hash ∉ s.chain.map (fun f => f.block.hash) → row.slotLeader = some poolId →
          ∀ slot, row.slot = some slot → BeforeCrawl network s.cursor slot)
  | .readTransaction providerTx =>
      ∀ f ∈ s.chain, ∀ mint ∈ f.mints unit, mint.txHash = providerTx.hash →
        providerTx.blockHash = f.block.hash ∧
          providerTx.txSeq / TX_SEQ_SLOT_FACTOR = f.block.slot
  | .readHistory events =>
      FromShelley network s.cursor →
        ∀ row ∈ events, row.unit = unit → ∃ f ∈ s.chain, row ∈ f.mints unit

/-! ## What holds in every state -/

/-- The followed blocks stand in the order of the chain, up to the cursor. -/
structure ChainSound (s : FollowedStore) : Prop where
  wellFormed : ∀ f ∈ s.chain, f.block.WellFormed
  ordered : s.chain.Pairwise fun f later => f.block.Precedes later.block
  grows : s.chain.Pairwise fun f later => ∀ before after, f.block.block.height = some before →
    later.block.block.height = some after → before < after
  upToCursor : ∀ f ∈ s.chain, f.block.slot ≤ s.cursor.lastSlot

/-- The rows of the pool are those of its followed blocks. -/
structure BlocksSound (s : FollowedStore) : Prop where
  stored : ∀ f ∈ s.chain, ∃ row ∈ (s.store .blocks).rows, row.Describes f.block
  followed : ∀ row ∈ (s.store .blocks).rows, row.slotLeader = some poolId → ∀ slot,
    row.slot = some slot →
      row.hash ∈ s.chain.map (fun f => f.block.hash) ∨ BeforeCrawl network s.cursor slot

/-- The rows of the asset are those of the followed blocks, and the transactions of these
rows are stored under their blocks. -/
structure AssetsSound (s : FollowedStore) : Prop where
  heights : ∀ f ∈ s.chain, f.block.block.height.isSome
  mintedOnce : ∀ f ∈ s.chain,
    (f.block.txs.filter fun t => decide (0 < f.minted t.hash unit)).length ≤ 1
  rows : ∀ row : AssetHistoryRow, row.unit = unit →
    (row ∈ (s.store .assetHistory).rows ↔ ∃ f ∈ s.chain, row ∈ f.mints unit)
  transactions : ∀ f ∈ s.chain, ∀ mint ∈ f.mints unit,
    ∃ row ∈ (s.store .transactions).rows, row.hash = mint.txHash ∧
      row.blockHash = f.block.hash ∧
      ∃ txSeq, row.txSeq = some txSeq ∧ txSeq / TX_SEQ_SLOT_FACTOR = f.block.slot

structure TotalsSound (s : FollowedStore) : Prop where
  chain : ChainSound s
  blocks : BlocksSound network poolId s
  assets : FromShelley network s.cursor → AssetsSound unit s

end Totals

/-! ## The mints of a block -/

section Mints

variable {f : FollowedBlock} {unit : AssetUnit} {row : AssetHistoryRow}

theorem mem_mints : row ∈ f.mints unit ↔ ∃ t ∈ f.block.txs, f.minted t.hash unit ≠ 0 ∧
    row = chainMint f.block.block t.hash unit (f.minted t.hash unit) := by
  rw [FollowedBlock.mints, List.mem_map]
  simp only [List.mem_filter, decide_eq_true_eq, and_assoc, @eq_comm _ row]

theorem unit_of_mem_mints (rowMem : row ∈ f.mints unit) : row.unit = unit := by
  obtain ⟨t, -, -, rfl⟩ := mem_mints.mp rowMem
  rfl

theorem txHash_of_mem_mints (rowMem : row ∈ f.mints unit) :
    row.txHash ∈ f.block.txs.map Transaction.hash := by
  obtain ⟨t, tMem, -, rfl⟩ := mem_mints.mp rowMem
  exact List.mem_map_of_mem tMem

theorem blockHeight_of_mem_mints (rowMem : row ∈ f.mints unit) :
    row.blockHeight = f.block.block.height := by
  obtain ⟨t, -, -, rfl⟩ := mem_mints.mp rowMem
  rfl

theorem mints_nodup (hashes : (f.block.txs.map Transaction.hash).Nodup) : (f.mints unit).Nodup := by
  refine List.Nodup.of_map AssetHistoryRow.txHash ?_
  rw [FollowedBlock.mints, List.map_map]
  exact hashes.sublist (List.filter_sublist.map Transaction.hash)

end Mints

theorem keys_buildAssetHistoryRows {block : BlockData} {txs : List Transaction}
    (nodup : (txs.map Transaction.hash).Nodup) :
    ((buildAssetHistoryRows block txs).map CrawlTable.assetHistory.key).Nodup := by
  rw [buildAssetHistoryRows, List.map_flatMap, List.nodup_flatMap]
  constructor
  · intro t _
    cases mintDelta t with
    | none => exact List.nodup_nil
    | some net =>
        rw [List.map_map]
        have units : (net.rows.map Prod.fst).Nodup := net.keys_nodup
        refine List.Nodup.of_map Prod.fst ?_
        rw [List.map_map]
        exact units.sublist (List.filter_sublist.map Prod.fst)
  · refine (List.pairwise_map.mp nodup).imp ?_
    intro t u different key inFirst inSecond
    obtain ⟨first, firstMem, rfl⟩ := List.mem_map.mp inFirst
    obtain ⟨second, secondMem, sameKey⟩ := List.mem_map.mp inSecond
    have hashOf {t : Transaction} {row : AssetHistoryRow}
        (rowMem : row ∈ buildAssetHistoryRows block [t]) : row.txHash = t.hash := by
      obtain ⟨u, uMem, sameHash⟩ := txHash_of_mem_assetHistory rowMem
      exact List.mem_singleton.mp uMem ▸ sameHash
    have ofFirst := hashOf (List.mem_flatMap.mpr ⟨t, List.mem_singleton_self t, firstMem⟩)
    have ofSecond := hashOf (List.mem_flatMap.mpr ⟨u, List.mem_singleton_self u, secondMem⟩)
    have sameHash : second.txHash = first.txHash := congrArg Prod.snd sameKey
    exact different (ofFirst.symm.trans (sameHash.symm.trans ofSecond))

section Resolved

variable {store : CrawlStore} {b : IndexedBlock}

theorem txHash_of_mem_resolvedMints {row : AssetHistoryRow}
    (rowMem : row ∈ resolvedMints store b) : row.txHash ∈ b.txs.map Transaction.hash := by
  have hashes := map_prepareBlock_txs Transaction.hash (fun _ _ _ => rfl) store b.ledger
    b.block b.txs
  obtain ⟨t, tMem, sameHash⟩ := txHash_of_mem_assetHistory rowMem
  rw [sameHash, ← hashes]
  exact List.mem_map_of_mem tMem

theorem keys_resolvedMints (nodup : (b.txs.map Transaction.hash).Nodup) :
    ((resolvedMints store b).map CrawlTable.assetHistory.key).Nodup := by
  apply keys_buildAssetHistoryRows
  rwa [map_prepareBlock_txs Transaction.hash (fun _ _ _ => rfl)]

/-- What indexing makes of a transaction has the net quantities that it minted. -/
theorem mintDelta_prepareTx [Bech32] {minted : AssetUnit → Int} {t : Transaction} (tMem : t ∈ b.txs)
    (delivers : DeliversMint minted t) (succeeded : t.phase2Failed = false)
    (known : MintKnown store b minted t) :
    ∃ net, mintDelta (prepareTx store b.ledger b.txs t) = some net ∧
      ∀ unit, (OrderedMap.get? net unit).getD 0 = minted unit := by
  have shown {net : OrderedMap AssetUnit Int} (values : ∀ unit, (OrderedMap.get? net unit).getD 0 =
      if unit = lovelace then 0 else minted unit) (unit : AssetUnit) :
      (OrderedMap.get? net unit).getD 0 = minted unit := by
    rw [values]
    split
    · rename_i isAda
      rw [isAda, delivers.ada]
    · rfl
  rcases known with reports | ⟨paid, holds, accepted, resolvable⟩
  · obtain ⟨mint, isMint⟩ := Option.isSome_iff_exists.mp reports
    have isPrepared : (prepareTx store b.ledger b.txs t).mint = some mint := isMint
    refine ⟨_, by rw [mintDelta, isPrepared], shown fun unit => ?_⟩
    rw [getD_netAmounts_mint]
    split
    · rfl
    · rename_i native
      exact delivers.reported mint isMint unit native
  · obtain ⟨net, isNet, values⟩ := mintDelta_accepted
      (accepted.resolve (resolveInput_keeps store b.txs b.ledger))
      (inputsResolved_prepareTx holds tMem resolvable) succeeded
    exact ⟨net, isNet, shown values⟩

theorem mintDelta_prepareTx_failed {minted : AssetUnit → Int} {t : Transaction}
    (delivers : DeliversMint minted t) (failed : t.phase2Failed = true) :
    mintDelta (prepareTx store b.ledger b.txs t) = none := by
  have noMint : (prepareTx store b.ledger b.txs t).mint = none := (delivers.failed failed).1
  have isFailed : (prepareTx store b.ledger b.txs t).phase2Failed = true := failed
  simp only [mintDelta, noMint, isFailed, if_true]

/-- A row with the amount that a transaction minted is the chain's. -/
theorem mintRow_eq_chainMint (fees : Option Int) (txHash : TxHash) (entry : AssetUnit × Int) :
    mintRow { b.block with fees } txHash entry = chainMint b.block txHash entry.1 entry.2 := by
  unfold mintRow chainMint
  congr 1
  split
  · omega
  · omega

/-- The rows that indexing writes of an asset are the mints of the chain. -/
theorem mem_resolvedMints_iff [Bech32] {minted : TxHash → AssetUnit → Int} {unit : AssetUnit}
    (delivers : ∀ t ∈ b.txs, DeliversMint (minted t.hash) t)
    (known : ∀ t ∈ b.txs, t.phase2Failed = false → MintKnown store b (minted t.hash) t)
    {row : AssetHistoryRow} (ofUnit : row.unit = unit) :
    row ∈ resolvedMints store b ↔ row ∈ FollowedBlock.mints ⟨b, minted⟩ unit := by
  obtain ⟨fees, block⟩ := prepareBlock_block store b.ledger b.block b.txs
  simp only [resolvedMints, buildAssetHistoryRows, block, prepareBlock_map, List.mem_flatMap,
    List.mem_map, exists_exists_and_eq_and, mem_mints]
  refine exists_congr fun t => and_congr_right fun tMem => ?_
  cases isFailed : t.phase2Failed with
  | true =>
      rw [mintDelta_prepareTx_failed (delivers t tMem) isFailed]
      constructor
      · intro rowMem
        cases rowMem
      · rintro ⟨some, -⟩
        exact absurd (((delivers t tMem).failed isFailed).2 unit) some
  | false =>
      obtain ⟨net, isNet, values⟩ :=
        mintDelta_prepareTx tMem (delivers t tMem) isFailed (known t tMem isFailed)
      rw [isNet]
      simp only [List.mem_map, List.mem_filter, decide_eq_true_eq, mintRow_eq_chainMint]
      constructor
      · rintro ⟨entry, ⟨entryMem, nonzero⟩, rfl⟩
        have isUnit : entry.1 = unit := ofUnit
        have value := values entry.1
        rw [OrderedMap.get?_eq_some_iff.mpr entryMem, Option.getD_some, isUnit] at value
        rw [value] at nonzero ⊢
        rw [isUnit]
        exact ⟨nonzero, rfl⟩
      · rintro ⟨nonzero, rfl⟩
        have value := values unit
        cases found : OrderedMap.get? net unit with
        | none =>
            rw [found, Option.getD_none] at value
            exact absurd value.symm nonzero
        | some held =>
            rw [found, Option.getD_some] at value
            rw [← value] at nonzero ⊢
            exact ⟨(unit, held), ⟨OrderedMap.get?_eq_some_iff.mp found, nonzero⟩, rfl⟩

/-- Indexing a block writes its mints over what is stored. -/
theorem assetHistory_indexBlock [Bech32] (coverage : CrawlCoverage) (store : CrawlStore)
    (b : IndexedBlock) :
    indexBlock coverage store b .assetHistory =
      (store .assetHistory).upsertAll
        (if coverage.assetHistory then resolvedMints store b else []) := by
  simp only [indexBlock, indexBlockRows, removeSupersededBlocks, removeStaleTxSeqs,
    deleteTransactionRows_eq, TableFamily.write, TableFamily.delete, deletesBlocks,
    deletesTransaction, blockBatch, transactionBatch, assetHistoryBatch, resolvedMints,
    Table.upsertAll_nil]
  congr 1
  rw [Table.delete_eq_self (fun _ _ => rfl), Table.delete_eq_self (fun _ _ => rfl)]

end Resolved

/-! ## The steps -/

section Steps

variable {network : EpochConfig} {poolId : String} {unit : AssetUnit}
  {s : FollowedStore}

namespace ChainSound

/-- Cursor columns aside, the chain is what matters. -/
theorem at_cursor (sound : ChainSound s) {store : CrawlStore} {cursor : SyncState}
    (sameSlot : cursor.lastSlot = s.cursor.lastSlot) :
    ChainSound { s with store, cursor } :=
  { sound with upToCursor := fun f fMem => sameSlot ▸ sound.upToCursor f fMem }

theorem persist (sound : ChainSound s) {store : CrawlStore} {b : IndexedBlock}
    {minted : TxHash → AssetUnit → Int} {cursor : SyncState} (atBlock : cursor.lastSlot = b.slot)
    (wellFormed : b.WellFormed) (follows : ∀ f ∈ s.chain, f.block.Precedes b)
    (grows : ∀ f ∈ s.chain, ∀ before after, f.block.block.height = some before →
      b.block.height = some after → before < after) :
    ChainSound ⟨store, cursor, s.chain ++ [⟨b, minted⟩]⟩ where
  wellFormed f fMem := by
    rcases List.mem_append.mp fMem with old | new
    · exact sound.wellFormed f old
    · rw [List.mem_singleton.mp new]
      exact wellFormed
  ordered := List.pairwise_append.mpr ⟨sound.ordered, List.pairwise_singleton _ _,
    fun f fMem _ new => List.mem_singleton.mp new ▸ follows f fMem⟩
  grows := List.pairwise_append.mpr ⟨sound.grows, List.pairwise_singleton _ _,
    fun f fMem _ new => List.mem_singleton.mp new ▸ grows f fMem⟩
  upToCursor f fMem := by
    change f.block.slot ≤ cursor.lastSlot
    rw [atBlock]
    rcases List.mem_append.mp fMem with old | new
    · exact Nat.le_of_lt (follows f old).slot_lt
    · rw [List.mem_singleton.mp new]

theorem rollBack (sound : ChainSound s) {store : CrawlStore} {forkSlot : Nat}
    {cursor : SyncState} (atFork : cursor.lastSlot = forkSlot) :
    ChainSound ⟨store, cursor, s.chain.filter fun f => decide (f.block.slot ≤ forkSlot)⟩ where
  wellFormed f fMem := sound.wellFormed f (List.mem_filter.mp fMem).1
  ordered := sound.ordered.filter _
  grows := sound.grows.filter _
  upToCursor f fMem := by
    change f.block.slot ≤ cursor.lastSlot
    rw [atFork]
    exact of_decide_eq_true (List.mem_filter.mp fMem).2

theorem hashes_nodup (sound : ChainSound s) : (s.chain.map fun f => f.block.hash).Nodup :=
  List.pairwise_map.mpr (sound.ordered.imp fun precedes => precedes.hash_ne)

end ChainSound

namespace BlocksSound

/-- Only the block table, the start of the crawl and the chain matter. -/
theorem congr (sound : BlocksSound network poolId s) {store : CrawlStore} {cursor : SyncState}
    (sameBlocks : store .blocks = s.store .blocks)
    (sameStart : cursor.startSlot = s.cursor.startSlot) :
    BlocksSound network poolId { s with store, cursor } where
  stored f fMem := by
    obtain ⟨row, rowMem, describes⟩ := sound.stored f fMem
    refine ⟨row, ?_, describes⟩
    change row ∈ (store .blocks).rows
    rwa [sameBlocks]
  followed row rowMem leader slot isSlot := by
    have stored : row ∈ (s.store .blocks).rows := sameBlocks ▸ rowMem
    rcases sound.followed row stored leader slot isSlot with onChain | ⟨start, isStart, before⟩
    · exact Or.inl onChain
    · exact Or.inr ⟨start, sameStart.trans isStart, before⟩

theorem persist [Bech32] (sound : BlocksSound network poolId s) (coverage : CrawlCoverage)
    {b : IndexedBlock} {cursor : SyncState} (sameStart : cursor.startSlot = s.cursor.startSlot)
    (follows : ∀ f ∈ s.chain, f.block.Precedes b) {minted : TxHash → AssetUnit → Int} :
    BlocksSound network poolId
      ⟨indexBlock coverage s.store b, cursor, s.chain ++ [⟨b, minted⟩]⟩ where
  stored f fMem := by
    rcases List.mem_append.mp fMem with old | new
    · obtain ⟨row, rowMem, describes⟩ := sound.stored f old
      have precedes := follows f old
      refine ⟨row, mem_blocks_indexBlock_of_apart rowMem ?_ ?_, describes⟩
      · rw [describes.hash]
        exact precedes.hash_ne
      · rw [describes.height]
        exact precedes.height_ne
    · obtain rfl := List.mem_singleton.mp new
      obtain ⟨row, rowMem, sameHash⟩ := exists_block_indexBlock coverage s.store b
      rcases mem_blocks_indexBlock_mapBlock rowMem with ⟨fees, rfl⟩ | ⟨-, other⟩
      · exact ⟨_, rowMem, rfl, rfl, rfl, rfl⟩
      · exact (other sameHash).elim
  followed row rowMem leader slot isSlot := by
    rcases mem_blocks_indexBlock_mapBlock rowMem with ⟨fees, rfl⟩ | ⟨stored, -⟩
    · exact Or.inl (List.mem_map_of_mem (List.mem_append_right _ (List.mem_singleton_self _)))
    · rcases sound.followed row stored leader slot isSlot with onChain | ⟨start, isStart, before⟩
      · rw [List.map_append]
        exact Or.inl (List.mem_append_left _ onChain)
      · exact Or.inr ⟨start, sameStart.trans isStart, before⟩

/-- A rollback takes the followed blocks after the fork and no other ones. -/
theorem rollBack (sound : BlocksSound network poolId s) (chain : ChainSound s) (forkSlot : Nat)
    {cursor : SyncState} (sameStart : cursor.startSlot = s.cursor.startSlot) :
    BlocksSound network poolId
      ⟨(rollBackBlocks s.store (staleBlocks s.store forkSlot)).1, cursor,
        s.chain.filter fun f => decide (f.block.slot ≤ forkSlot)⟩ where
  stored f fMem := by
    obtain ⟨onChain, early⟩ := List.mem_filter.mp fMem
    obtain ⟨row, rowMem, describes⟩ := sound.stored f onChain
    refine ⟨row, ?_, describes⟩
    rw [blocks_rollBackBlocks]
    refine List.mem_filter.mpr ⟨rowMem, ?_⟩
    rw [describes.slot, (chain.wellFormed f onChain).slot_known]
    simpa using early
  followed row rowMem leader slot isSlot := by
    rw [blocks_rollBackBlocks] at rowMem
    obtain ⟨stored, kept⟩ := List.mem_filter.mp rowMem
    rcases sound.followed row stored leader slot isSlot with onChain | ⟨start, isStart, before⟩
    · obtain ⟨f, fMem, sameHash⟩ := List.mem_map.mp onChain
      obtain ⟨own, ownMem, describes⟩ := sound.stored f fMem
      have isOwn : own = row := Table.mem_rows_inj ownMem stored (describes.hash.trans sameHash)
      subst isOwn
      refine Or.inl (List.mem_map.mpr ⟨f, List.mem_filter.mpr ⟨fMem, ?_⟩, sameHash⟩)
      rw [describes.slot, (chain.wellFormed f fMem).slot_known] at kept
      simpa using kept
    · exact Or.inr ⟨start, sameStart.trans isStart, before⟩

theorem readBlock [Bech32] (sound : BlocksSound network poolId s) {row : BlockRow}
    (may : Harmless network poolId unit s (.readBlock row)) :
    BlocksSound network poolId { s with store := writeBlockRow s.store row } where
  stored f fMem := by
    obtain ⟨own, ownMem, describes⟩ := sound.stored f fMem
    by_cases same : f.block.hash = row.hash
    · exact ⟨row, Table.mem_upsert.mpr (Or.inl rfl), may.1 f fMem same⟩
    · refine ⟨own, Table.mem_upsert.mpr (Or.inr ⟨ownMem, ?_⟩), describes⟩
      exact fun sameHash => same (describes.hash.symm.trans sameHash)
  followed other otherMem leader slot isSlot := by
    rcases Table.mem_upsert.mp otherMem with rfl | ⟨stored, -⟩
    · by_cases onChain : other.hash ∈ s.chain.map fun f => f.block.hash
      · exact Or.inl onChain
      · exact Or.inr (may.2 onChain leader slot isSlot)
    · exact sound.followed other stored leader slot isSlot

end BlocksSound

namespace AssetsSound

theorem congr (sound : AssetsSound unit s) {store : CrawlStore} {cursor : SyncState}
    (sameHistory : store .assetHistory = s.store .assetHistory)
    (sameTransactions : store .transactions = s.store .transactions) :
    AssetsSound unit { s with store, cursor } where
  heights := sound.heights
  mintedOnce := sound.mintedOnce
  rows row ofUnit := by
    rw [← sound.rows row ofUnit]
    change row ∈ (store .assetHistory).rows ↔ _
    rw [sameHistory]
  transactions f fMem mint mintMem := by
    obtain ⟨row, rowMem, found⟩ := sound.transactions f fMem mint mintMem
    refine ⟨row, ?_, found⟩
    change row ∈ (store .transactions).rows
    rwa [sameTransactions]

theorem persist [Bech32] (sound : AssetsSound unit s) {coverage : CrawlCoverage} {b : IndexedBlock}
    {minted : TxHash → AssetUnit → Int} {cursor : SyncState} (wellFormed : b.WellFormed)
    (follows : ∀ f ∈ s.chain, f.block.Precedes b)
    (delivers : ∀ t ∈ b.txs, DeliversMint (minted t.hash) t)
    (recorded : coverage.assetHistory = true) (height : b.block.height.isSome)
    (known : ∀ t ∈ b.txs, t.phase2Failed = false → MintKnown s.store b (minted t.hash) t)
    (once : (b.txs.filter fun t => decide (0 < minted t.hash unit)).length ≤ 1) :
    AssetsSound unit ⟨indexBlock coverage s.store b, cursor, s.chain ++ [⟨b, minted⟩]⟩ where
  heights f fMem := by
    rcases List.mem_append.mp fMem with old | new
    · exact sound.heights f old
    · rw [List.mem_singleton.mp new]
      exact height
  mintedOnce f fMem := by
    rcases List.mem_append.mp fMem with old | new
    · exact sound.mintedOnce f old
    · rw [List.mem_singleton.mp new]
      exact once
  rows row ofUnit := by
    have agree : ∀ first ∈ resolvedMints s.store b, ∀ second ∈ resolvedMints s.store b,
        CrawlTable.assetHistory.key first = CrawlTable.assetHistory.key second → first = second :=
      fun first firstMem second secondMem same =>
        List.inj_on_of_nodup_map (keys_resolvedMints wellFormed.hashes_nodup) firstMem secondMem same
    change row ∈ (indexBlock coverage s.store b .assetHistory).rows ↔ _
    rw [assetHistory_indexBlock, if_pos recorded, Table.mem_upsertAll_iff agree,
      sound.rows row ofUnit, mem_resolvedMints_iff delivers known ofUnit]
    constructor
    · rintro (new | ⟨⟨f, fMem, rowMem⟩, -⟩)
      · exact ⟨_, List.mem_append_right _ (List.mem_singleton_self _), new⟩
      · exact ⟨f, List.mem_append_left _ fMem, rowMem⟩
    · rintro ⟨f, fMem, rowMem⟩
      rcases List.mem_append.mp fMem with old | new
      · refine Or.inr ⟨⟨f, old, rowMem⟩, fun listed => ?_⟩
        obtain ⟨other, otherMem, sameKey⟩ := List.mem_map.mp listed
        have sameHash : other.txHash = row.txHash := congrArg Prod.snd sameKey
        obtain ⟨t, tMem, isHash⟩ := List.mem_map.mp (txHash_of_mem_mints rowMem)
        obtain ⟨u, uMem, isOther⟩ := List.mem_map.mp (txHash_of_mem_resolvedMints otherMem)
        refine (follows f old).txs_ne t tMem u uMem ?_
        rw [isHash, isOther, sameHash]
      · rw [List.mem_singleton.mp new] at rowMem
        exact Or.inl rowMem
  transactions f fMem mint mintMem := by
    change ∃ row ∈ (indexBlock coverage s.store b .transactions).rows, _
    rcases List.mem_append.mp fMem with old | new
    · obtain ⟨row, rowMem, sameHash, sameBlock, txSeq, position, inSlot⟩ :=
        sound.transactions f old mint mintMem
      refine ⟨row, (mem_transactions_indexBlock wellFormed.hashes_nodup).mpr
        (Or.inr ⟨rowMem, fun listed => ?_, fun stale => ?_⟩), sameHash, sameBlock, txSeq, position,
        inSlot⟩
      · obtain ⟨u, uMem, isHash⟩ := List.mem_map.mp listed
        obtain ⟨t, tMem, isMint⟩ := List.mem_map.mp (txHash_of_mem_mints mintMem)
        refine (follows f old).txs_ne t tMem u uMem ?_
        rw [isMint, isHash, sameHash]
      · obtain ⟨other, -, sameKey, staleSeq, isStale, staleSlot⟩ := mem_staleTxSeqs_slot
          (fun t tMem => wellFormed.slot_of_owns (List.mem_map_of_mem tMem)) stale
        have sameSeq : other.txSeq = row.txSeq := congrArg TxKey.txSeq sameKey
        have same : staleSeq = txSeq :=
          Option.some.inj (isStale.symm.trans (sameSeq.trans position))
        rw [same, inSlot] at staleSlot
        exact absurd staleSlot (Nat.ne_of_lt (follows f old).slot_lt)
    · obtain rfl := List.mem_singleton.mp new
      obtain ⟨t, tMem, isHash⟩ := List.mem_map.mp (txHash_of_mem_mints mintMem)
      obtain ⟨prepare, same, changes⟩ := prepareBlock_txs s.store b.ledger b.block b.txs
      obtain ⟨inputs, fee, prepared⟩ := changes t
      refine ⟨mapTransaction (prepare t), (mem_transactions_indexBlock wellFormed.hashes_nodup).mpr
        (Or.inl ⟨prepare t, same ▸ List.mem_map_of_mem tMem, rfl⟩), ?_, ?_, t.txSeq, ?_,
        wellFormed.slot_of_owns (List.mem_map_of_mem tMem)⟩
      · rw [prepared]
        exact isHash
      · rw [prepared]
        exact wellFormed.blockHash t tMem
      · rw [prepared]
        rfl

/-- A rollback takes the rows of the blocks after the fork and no other ones. -/
theorem rollBack (sound : AssetsSound unit s) (chain : ChainSound s)
    (blocks : BlocksSound network poolId s) (forkSlot : Nat) {cursor : SyncState} :
    AssetsSound unit
      ⟨(rollBackBlocks s.store (staleBlocks s.store forkSlot)).1, cursor,
        s.chain.filter fun f => decide (f.block.slot ≤ forkSlot)⟩ := by
  have staleIff {f : FollowedBlock} (fMem : f ∈ s.chain) :
      f.block.hash ∈ staleBlocks s.store forkSlot ↔ forkSlot < f.block.slot := by
    obtain ⟨row, rowMem, describes⟩ := blocks.stored f fMem
    have slotKnown : row.slot = some f.block.slot :=
      describes.slot.trans (chain.wellFormed f fMem).slot_known
    constructor
    · intro stale
      obtain ⟨other, otherMem, sameHash⟩ := List.mem_map.mp stale
      obtain ⟨otherMem, late⟩ := Table.mem_select.mp otherMem
      have isRow : other = row :=
        Table.mem_rows_inj otherMem rowMem (sameHash.trans describes.hash.symm)
      rw [isRow, slotKnown] at late
      simpa using late
    · intro late
      exact describes.hash ▸ mem_staleBlocks_of_late rowMem slotKnown late
  -- the row of a minting transaction is deleted exactly when its block is stale
  have namedIff {f : FollowedBlock} (fMem : f ∈ s.chain) {mint : AssetHistoryRow}
      (mintMem : mint ∈ f.mints unit) :
      mint.txHash ∈ (transactionsOf s.store (staleBlocks s.store forkSlot)).map TxKey.hash ↔
        forkSlot < f.block.slot := by
    obtain ⟨row, rowMem, sameHash, sameBlock, -⟩ := sound.transactions f fMem mint mintMem
    rw [← staleIff fMem, List.mem_map]
    constructor
    · rintro ⟨key, keyMem, isHash⟩
      obtain ⟨other, otherMem, stale, rfl⟩ := mem_transactionsOf.mp keyMem
      have isRow : other = row := Table.mem_rows_inj otherMem rowMem (isHash.trans sameHash.symm)
      rwa [isRow, sameBlock] at stale
    · intro stale
      exact ⟨row.txKey, mem_transactionsOf.mpr ⟨row, rowMem, sameBlock ▸ stale, rfl⟩, sameHash⟩
  refine ⟨fun f fMem => sound.heights f (List.mem_filter.mp fMem).1,
    fun f fMem => sound.mintedOnce f (List.mem_filter.mp fMem).1, fun row ofUnit => ?_,
    fun f fMem mint mintMem => ?_⟩
  · change row ∈ ((rollBackBlocks s.store (staleBlocks s.store forkSlot)).1 .assetHistory).rows ↔ _
    rw [rollBackBlocks_fst, TableFamily.mem_delete, sound.rows row ofUnit]
    simp only [deletesOwned, CrawlTable.owner, decide_eq_false_iff_not]
    constructor
    · rintro ⟨⟨f, fMem, rowMem⟩, spared⟩
      refine ⟨f, List.mem_filter.mpr ⟨fMem, decide_eq_true ?_⟩, rowMem⟩
      exact Nat.le_of_not_lt fun late => spared ((namedIff fMem rowMem).mpr late)
    · rintro ⟨f, fMem, rowMem⟩
      obtain ⟨onChain, early⟩ := List.mem_filter.mp fMem
      refine ⟨⟨f, onChain, rowMem⟩, fun named => ?_⟩
      exact Nat.not_lt.mpr (of_decide_eq_true early) ((namedIff onChain rowMem).mp named)
  · obtain ⟨onChain, early⟩ := List.mem_filter.mp fMem
    obtain ⟨row, rowMem, sameHash, found⟩ := sound.transactions f onChain mint mintMem
    refine ⟨row, ?_, sameHash, found⟩
    change row ∈ ((rollBackBlocks s.store (staleBlocks s.store forkSlot)).1 .transactions).rows
    rw [rollBackBlocks_fst, TableFamily.mem_delete]
    refine ⟨rowMem, decide_eq_false fun named => ?_⟩
    change row.hash ∈ _ at named
    rw [sameHash] at named
    exact Nat.not_lt.mpr (of_decide_eq_true early) ((namedIff onChain mintMem).mp named)

theorem readTransaction [Bech32] (sound : AssetsSound unit s) {providerTx : Transaction}
    (may : Harmless network poolId unit s (.readTransaction providerTx)) :
    AssetsSound unit { s with store := (indexTransaction s.store providerTx).1 } where
  heights := sound.heights
  mintedOnce := sound.mintedOnce
  rows row ofUnit := by
    change row ∈ ((indexTransaction s.store providerTx).1 .assetHistory).rows ↔ _
    rw [indexTransaction_fst]
    exact sound.rows row ofUnit
  transactions f fMem mint mintMem := by
    change ∃ row ∈ ((indexTransaction s.store providerTx).1 .transactions).rows, _
    rw [indexTransaction_fst]
    obtain ⟨row, rowMem, sameHash, found⟩ := sound.transactions f fMem mint mintMem
    by_cases same : mint.txHash = providerTx.hash
    · obtain ⟨sameBlock, inSlot⟩ := may f fMem mint mintMem same
      exact ⟨mapTransaction providerTx, Table.mem_upsert.mpr (Or.inl rfl), same.symm, sameBlock,
        providerTx.txSeq, rfl, inSlot⟩
    · refine ⟨row, Table.mem_upsert.mpr (Or.inr ⟨rowMem, ?_⟩), sameHash, found⟩
      exact fun isNew => same (sameHash.symm.trans isNew)

theorem readHistory (sound : AssetsSound unit s) (config : CrawlAnswers)
    (now : Time) {events : List AssetHistoryRow}
    (onChain : ∀ row ∈ events, row.unit = unit → ∃ f ∈ s.chain, row ∈ f.mints unit) :
    AssetsSound unit
      { s with store := indexAssetHistory config s.cursor now s.store events } := by
  simp only [indexAssetHistory]
  split
  · exact sound
  · refine ⟨sound.heights, sound.mintedOnce, fun row ofUnit => ?_, sound.transactions⟩
    generalize isTable : (Table.empty : Table CrawlTable.assetHistory.key).upsertAll events = fetched
    have fromEvents {row : AssetHistoryRow} (rowMem : row ∈ fetched.rows) : row ∈ events := by
      rw [← isTable] at rowMem
      exact (Table.mem_upsertAll rowMem).resolve_left List.not_mem_nil
    change row ∈ ((s.store .assetHistory).upsertAll fetched.rows).rows ↔ _
    rw [Table.mem_upsertAll_iff fun first firstMem second secondMem same =>
      Table.mem_rows_inj firstMem secondMem same, ← sound.rows row ofUnit]
    have stored {row : AssetHistoryRow} (ofUnit : row.unit = unit) (rowMem : row ∈ fetched.rows) :
        row ∈ (s.store .assetHistory).rows :=
      (sound.rows row ofUnit).mpr (onChain row (fromEvents rowMem) ofUnit)
    constructor
    · rintro (new | ⟨old, -⟩)
      · exact stored ofUnit new
      · exact old
    · intro old
      by_cases listed : CrawlTable.assetHistory.key row ∈ fetched.rows.map CrawlTable.assetHistory.key
      · obtain ⟨other, otherMem, sameKey⟩ := List.mem_map.mp listed
        have otherUnit : other.unit = unit := (congrArg Prod.fst sameKey).trans ofUnit
        have same : other = row := Table.mem_rows_inj (stored otherUnit otherMem) old sameKey
        exact Or.inl (same ▸ otherMem)
      · exact Or.inr ⟨old, listed⟩

end AssetsSound

end Steps

section Steps

variable {network : EpochConfig} {poolId : String} {unit : AssetUnit}
  {s : FollowedStore}

theorem totalsSound_start (name : String) (point : Option ChainPoint) :
    TotalsSound network poolId unit (.start name point) where
  chain := ⟨fun _ m => absurd m List.not_mem_nil, .nil, .nil, fun _ m => absurd m List.not_mem_nil⟩
  blocks := ⟨fun _ m => absurd m List.not_mem_nil, fun _ m => absurd m List.not_mem_nil⟩
  assets _ := ⟨fun _ m => absurd m List.not_mem_nil, fun _ m => absurd m List.not_mem_nil,
    fun _ _ => ⟨fun m => absurd m List.not_mem_nil,
      fun ⟨_, m, _⟩ => absurd m List.not_mem_nil⟩, fun _ m => absurd m List.not_mem_nil⟩

theorem fromShelley_congr {cursor other : SyncState}
    (sameStart : cursor.startSlot = other.startSlot) :
    FromShelley network cursor → FromShelley network other := by
  unfold FromShelley
  rw [sameStart]
  exact id

variable [Bech32]

/-- Where the writes are harmless, every step keeps the totals. -/
theorem TotalsSound.step (sound : TotalsSound network poolId unit s) {s' : FollowedStore}
    (step : FollowStep (Harmless network poolId unit) s s') :
    TotalsSound network poolId unit s' := by
  cases step with
  | persist coverage b minted cursor sameStart atBlock wellFormed delivers follows grows may =>
      refine ⟨sound.chain.persist atBlock wellFormed follows grows,
        sound.blocks.persist coverage sameStart follows, fun fromShelley => ?_⟩
      have before := fromShelley_congr sameStart fromShelley
      obtain ⟨recorded, height, known, once⟩ := may before
      exact (sound.assets before).persist wellFormed follows delivers recorded height known once
  | rollBack forkSlot cursor sameStart atFork =>
      exact ⟨sound.chain.rollBack atFork, sound.blocks.rollBack sound.chain forkSlot sameStart,
        fun fromShelley => (sound.assets (fromShelley_congr sameStart fromShelley)).rollBack
          sound.chain sound.blocks forkSlot⟩
  | readBlock row may =>
      exact ⟨sound.chain.at_cursor rfl, sound.blocks.readBlock may,
        fun fromShelley => (sound.assets fromShelley).congr rfl rfl⟩
  | readTransaction providerTx may =>
      refine ⟨sound.chain.at_cursor rfl, sound.blocks.congr ?_ rfl,
        fun fromShelley => (sound.assets fromShelley).readTransaction may⟩
      rw [indexTransaction_fst]
      rfl
  | readHistory config now events may =>
      refine ⟨sound.chain.at_cursor rfl, sound.blocks.congr ?_ rfl,
        fun fromShelley => (sound.assets fromShelley).readHistory config now (may fromShelley)⟩
      simp only [indexAssetHistory]
      split <;> rfl
  | cursorRow cursor sameStart sameSlot =>
      exact ⟨sound.chain.at_cursor sameSlot, sound.blocks.congr rfl sameStart,
        fun fromShelley => (sound.assets (fromShelley_congr sameStart fromShelley)).congr rfl rfl⟩

theorem FollowReachable.totalsSound {name : String} {point : Option ChainPoint}
    (run : FollowReachable (Harmless network poolId unit) name point s) :
    TotalsSound network poolId unit s := by
  induction run with
  | refl => exact totalsSound_start name point
  | tail _ step ih => exact ih.step step

end Steps

/-! ## The totals -/

section Answers

variable {network : EpochConfig} {poolId : String} {unit : AssetUnit} {s : FollowedStore}

theorem ChainSound.followed_eq (sound : ChainSound s) : s.followed = s.chain :=
  List.filter_eq_self.mpr fun f fMem => decide_eq_true (sound.upToCursor f fMem)

/-- The count over the rows is the count over the chain, as long as no row from before the
crawl is counted. -/
theorem TotalsSound.countSince_eq (sound : TotalsSound network poolId unit s) {fromSlot : Int}
    (outside : ∀ slot, BeforeCrawl network s.cursor slot → (slot : Int) < fromSlot) :
    countSince s.store poolId fromSlot = s.poolBlocks poolId fromSlot := by
  rw [countSince, FollowedStore.poolBlocks, sound.chain.followed_eq,
    ← List.length_map BlockRow.hash, ← List.length_map fun f : FollowedBlock => f.block.hash]
  apply List.Perm.length_eq
  refine (List.perm_ext_iff_of_nodup ?_ ?_).mpr fun hash => ?_
  · exact (s.store .blocks).keys_nodup.sublist (List.filter_sublist.map _)
  · exact sound.chain.hashes_nodup.sublist (List.filter_sublist.map _)
  simp only [List.mem_map, Table.mem_select, List.mem_filter, Bool.and_eq_true, decide_eq_true_eq]
  constructor
  · rintro ⟨row, ⟨rowMem, leader, late⟩, rfl⟩
    cases isSlot : row.slot with
    | none => simp [isSlot] at late
    | some slot =>
        rw [isSlot, Option.any_some, decide_eq_true_eq] at late
        rcases sound.blocks.followed row rowMem leader slot isSlot with onChain | before
        · obtain ⟨f, fMem, sameHash⟩ := List.mem_map.mp onChain
          obtain ⟨own, ownMem, describes⟩ := sound.blocks.stored f fMem
          have isOwn : own = row :=
            Table.mem_rows_inj ownMem rowMem (describes.hash.trans sameHash)
          subst isOwn
          have sameSlot : f.block.slot = slot := Option.some.inj
            ((sound.chain.wellFormed f fMem).slot_known.symm.trans
              (describes.slot.symm.trans isSlot))
          exact ⟨f, ⟨fMem, describes.slotLeader.symm.trans leader, sameSlot ▸ late⟩, sameHash⟩
        · exact absurd late (Int.not_le.mpr (outside slot before))
  · rintro ⟨f, ⟨fMem, leader, late⟩, rfl⟩
    obtain ⟨row, rowMem, describes⟩ := sound.blocks.stored f fMem
    refine ⟨row, ⟨rowMem, describes.slotLeader.trans leader, ?_⟩, describes.hash⟩
    rw [describes.slot, (sound.chain.wellFormed f fMem).slot_known]
    exact decide_eq_true late

/-- What `localCoverage` says comes from the cursor row. -/
theorem localCoverage_slots {cursor : SyncState} {now : Time} {coverage : LocalCoverage}
    (covers : localCoverage cursor now = some coverage) :
    cursor.startSlot = some coverage.fromSlot ∧ coverage.lastSlot = cursor.lastSlot := by
  simp only [localCoverage, Option.ite_none_right_eq_some, Option.map_eq_some_iff] at covers
  obtain ⟨-, fromSlot, isStart, rfl⟩ := covers
  exact ⟨isStart, rfl⟩

theorem TotalsSound.blocksEpoch (sound : TotalsSound network poolId unit s) {now : Time}
    {count : Nat}
    (answers : (localPoolBlocks network s.cursor now s.store poolId).blocksEpoch = some count) :
    count = s.poolBlocks poolId
      (epochStartSlot network (epochOfSlot network s.cursor.lastSlot)) := by
  simp only [localPoolBlocks] at answers
  split at answers
  · cases answers
  · rename_i coverage covers
    obtain ⟨isStart, sameLast⟩ := localCoverage_slots covers
    rw [sameLast] at answers
    obtain ⟨covered, same⟩ := Option.ite_none_right_eq_some.mp answers
    rw [← Option.some.inj same]
    refine sound.countSince_eq fun slot ⟨start, isOwn, before, _⟩ => ?_
    have sameStart : start = coverage.fromSlot := Option.some.inj (isOwn.symm.trans isStart)
    exact Int.lt_of_le_of_lt (Int.ofNat_le.mpr (sameStart ▸ before)) covered

theorem TotalsSound.blocksMinted (sound : TotalsSound network poolId unit s) {now : Time}
    {count : Nat}
    (answers : (localPoolBlocks network s.cursor now s.store poolId).blocksMinted = some count) :
    count = s.poolBlocks poolId 0 := by
  simp only [localPoolBlocks] at answers
  split at answers
  · cases answers
  · rename_i coverage covers
    obtain ⟨isStart, -⟩ := localCoverage_slots covers
    obtain ⟨covered, same⟩ := Option.ite_none_right_eq_some.mp answers
    rw [← Option.some.inj same]
    refine sound.countSince_eq fun slot ⟨start, isOwn, _, late⟩ => ?_
    have sameStart : start = coverage.fromSlot := Option.some.inj (isOwn.symm.trans isStart)
    exact absurd covered (Nat.not_le.mpr (sameStart ▸ late))

/-- Mint rows of the chain stand in the order of their heights. -/
theorem ChainSound.history_ordered (sound : ChainSound s)
    (heights : ∀ f ∈ s.chain, f.block.block.height.isSome) :
    (s.history unit).Pairwise fun a b => a.heightOrZero ≤ b.heightOrZero := by
  rw [FollowedStore.history, sound.followed_eq]
  refine List.pairwise_flatMap.mpr ⟨fun f _ => ?_, ?_⟩
  · refine List.Pairwise.imp_of_mem (fun aMem bMem _ => ?_) (List.pairwise_of_forall fun _ _ => trivial)
    rw [AssetHistoryRow.heightOrZero, AssetHistoryRow.heightOrZero, blockHeight_of_mem_mints aMem,
      blockHeight_of_mem_mints bMem]
  · refine List.Pairwise.imp_of_mem (fun {f g} fMem gMem grows a aMem b bMem => ?_) sound.grows
    obtain ⟨before, isBefore⟩ := Option.isSome_iff_exists.mp (heights f fMem)
    obtain ⟨after, isAfter⟩ := Option.isSome_iff_exists.mp (heights g gMem)
    have less := grows before after isBefore isAfter
    rw [AssetHistoryRow.heightOrZero, AssetHistoryRow.heightOrZero, blockHeight_of_mem_mints aMem,
      blockHeight_of_mem_mints bMem, isBefore, isAfter]
    exact less.le

theorem ChainSound.heights_nodup (sound : ChainSound s)
    (heights : ∀ f ∈ s.chain, f.block.block.height.isSome) :
    (s.chain.map fun f => f.block.block.height).Nodup := by
  refine List.pairwise_map.mpr (sound.grows.imp_of_mem fun {f g} fMem _ grows same => ?_)
  obtain ⟨height, isHeight⟩ := Option.isSome_iff_exists.mp (heights f fMem)
  exact Nat.lt_irrefl height (grows height height isHeight (same ▸ isHeight))

theorem mem_history (sound : ChainSound s) {row : AssetHistoryRow} :
    row ∈ s.history unit ↔ ∃ f ∈ s.chain, row ∈ f.mints unit := by
  rw [FollowedStore.history, sound.followed_eq, List.mem_flatMap]

theorem ChainSound.history_nodup (sound : ChainSound s) : (s.history unit).Nodup := by
  rw [FollowedStore.history, sound.followed_eq]
  refine List.nodup_flatMap.mpr ⟨fun f fMem => ?_, ?_⟩
  · exact mints_nodup (sound.wellFormed f fMem).hashes_nodup
  · refine sound.ordered.imp fun {f g} precedes row inFirst inSecond => ?_
    obtain ⟨t, tMem, isFirst⟩ := List.mem_map.mp (txHash_of_mem_mints inFirst)
    obtain ⟨u, uMem, isSecond⟩ := List.mem_map.mp (txHash_of_mem_mints inSecond)
    exact precedes.txs_ne t tMem u uMem (isFirst.trans isSecond.symm)

/-- A row that is no burn is of a transaction that mints. -/
theorem exists_minting {f : FollowedBlock} {row : AssetHistoryRow} (rowMem : row ∈ f.mints unit)
    (isMint : row.action ≠ .burn) :
    ∃ t ∈ f.block.txs.filter (fun t => decide (0 < f.minted t.hash unit)),
      row = chainMint f.block.block t.hash unit (f.minted t.hash unit) := by
  obtain ⟨t, tMem, -, rfl⟩ := mem_mints.mp rowMem
  refine ⟨t, List.mem_filter.mpr ⟨tMem, decide_eq_true ?_⟩, rfl⟩
  by_contra burned
  exact isMint (if_neg burned)

theorem eq_of_short {α : Type*} {list : List α} (short : list.length ≤ 1) {first second : α}
    (firstMem : first ∈ list) (secondMem : second ∈ list) : first = second := by
  match list, short with
  | [only], _ => exact (List.mem_singleton.mp firstMem).trans (List.mem_singleton.mp secondMem).symm

/-- Two mints of the chain with one height are one. -/
theorem AssetsSound.mint_unique (sound : AssetsSound unit s) (chain : ChainSound s)
    {first second : AssetHistoryRow} (firstMem : first ∈ s.history unit)
    (secondMem : second ∈ s.history unit) (isFirst : first.action ≠ .burn)
    (isSecond : second.action ≠ .burn) (same : first.heightOrZero = second.heightOrZero) :
    first = second := by
  obtain ⟨f, fMem, inFirst⟩ := (mem_history chain).mp firstMem
  obtain ⟨g, gMem, inSecond⟩ := (mem_history chain).mp secondMem
  obtain ⟨before, isBefore⟩ := Option.isSome_iff_exists.mp (sound.heights f fMem)
  obtain ⟨after, isAfter⟩ := Option.isSome_iff_exists.mp (sound.heights g gMem)
  rw [AssetHistoryRow.heightOrZero, AssetHistoryRow.heightOrZero, blockHeight_of_mem_mints inFirst,
    blockHeight_of_mem_mints inSecond, isBefore, isAfter, Option.getD_some, Option.getD_some] at same
  have sameBlock : f = g := List.inj_on_of_nodup_map (chain.heights_nodup sound.heights) fMem gMem
    (isBefore.trans (same ▸ isAfter.symm))
  subst sameBlock
  obtain ⟨t, tMem, rfl⟩ := exists_minting inFirst isFirst
  obtain ⟨u, uMem, rfl⟩ := exists_minting inSecond isSecond
  have once := sound.mintedOnce f fMem
  rw [eq_of_short once tMem uMem]

variable {Json : Type} {parseJson : String → Option Json}
  {computeCip14Fingerprint : String → String → String}

/-- Rows of one asset in another order give the same answer, as long as the mints among
them come in the same order. -/
theorem assetInfoOf_perm (store : CrawlStore) {first second : List AssetHistoryRow}
    (perm : first.Perm second)
    (mints : first.filter (fun row => decide (row.action ≠ .burn)) =
      second.filter fun row => decide (row.action ≠ .burn)) :
    assetInfoOf parseJson computeCip14Fingerprint store unit first =
      assetInfoOf parseJson computeCip14Fingerprint store unit second := by
  simp only [assetInfoOf, mints, perm.length_eq, (perm.map AssetHistoryRow.signedQuantity).sum_eq]

theorem AssetsSound.read_perm (sound : AssetsSound unit s) (chain : ChainSound s)
    (order : ReadOrder) :
    (order.read ((s.store .assetHistory).select fun row => decide (row.unit = unit))).Perm
      (s.history unit) := by
  refine (order.perm _).trans ((List.perm_ext_iff_of_nodup ?_ chain.history_nodup).mpr fun row => ?_)
  · exact ((s.store .assetHistory).keys_nodup.of_map _).filter _
  · rw [mem_history chain, Table.mem_select, decide_eq_true_eq]
    constructor
    · rintro ⟨rowMem, ofUnit⟩
      exact (sound.rows row ofUnit).mp rowMem
    · rintro ⟨f, fMem, rowMem⟩
      have ofUnit := unit_of_mem_mints rowMem
      exact ⟨(sound.rows row ofUnit).mpr ⟨f, fMem, rowMem⟩, ofUnit⟩

/-- Sorting by height puts the mints into the order of the chain. -/
theorem AssetsSound.sorted_mints (sound : AssetsSound unit s) (chain : ChainSound s)
    {events : List AssetHistoryRow} (perm : events.Perm (s.history unit)) :
    (events.mergeSort fun a b => decide (a.heightOrZero ≤ b.heightOrZero)).filter
        (fun row => decide (row.action ≠ .burn)) =
      (s.history unit).filter fun row => decide (row.action ≠ .burn) := by
  have sorted := @List.pairwise_mergeSort _
    (fun a b : AssetHistoryRow => decide (a.heightOrZero ≤ b.heightOrZero))
    (fun a b c first second => by
      rw [decide_eq_true_eq] at *
      exact first.trans second)
    (fun a b => by
      rw [Bool.or_eq_true, decide_eq_true_eq, decide_eq_true_eq]
      exact Nat.le_total _ _) events
  have whole := (List.mergeSort_perm events
    fun a b => decide (a.heightOrZero ≤ b.heightOrZero)).trans perm
  refine List.Perm.eq_of_pairwise (fun a b aMem bMem above below => ?_)
    ((sorted.imp of_decide_eq_true).filter _)
    ((chain.history_ordered sound.heights).filter _) (whole.filter _)
  obtain ⟨aMem, aMint⟩ := List.mem_filter.mp aMem
  obtain ⟨bMem, bMint⟩ := List.mem_filter.mp bMem
  exact sound.mint_unique chain (whole.mem_iff.mp aMem) bMem (of_decide_eq_true aMint)
    (of_decide_eq_true bMint) (Nat.le_antisymm above below)

/-- Every total that the store answers is the fold over the followed chain up to the
cursor. -/
structure AnswersFollow (network : EpochConfig) (poolId : String) (unit : AssetUnit)
    (s : FollowedStore) : Prop where
  blocksEpoch : ∀ now count,
    (localPoolBlocks network s.cursor now s.store poolId).blocksEpoch = some count →
      count = s.poolBlocks poolId (epochStartSlot network (epochOfSlot network s.cursor.lastSlot))
  blocksMinted : ∀ now count,
    (localPoolBlocks network s.cursor now s.store poolId).blocksMinted = some count →
      count = s.poolBlocks poolId 0
  assetInfo : ∀ {Json : Type} (parseJson : String → Option Json)
    (computeCip14Fingerprint : String → String → String) (config : CrawlAnswers) now order info,
    config.network = network →
      localAssetInfo parseJson computeCip14Fingerprint config s.cursor now s.store order unit =
        .ok (some info) →
      info = assetInfoOf parseJson computeCip14Fingerprint s.store unit (s.history unit)
  neverMinted : ∀ {Json : Type} (parseJson : String → Option Json)
    (computeCip14Fingerprint : String → String → String) (config : CrawlAnswers) now order error,
    config.network = network →
      localAssetInfo parseJson computeCip14Fingerprint config s.cursor now s.store order unit =
        .error error →
      s.history unit = []

theorem fromShelley_of_crawlAnswers {config : CrawlAnswers} {cursor : SyncState} {now : Time}
    {method : String} (answers : (crawlAnswers config cursor now method).isSome) :
    FromShelley config.network cursor := by
  simp only [crawlAnswers] at answers
  split at answers
  · cases answers
  · rename_i coverage covers
    obtain ⟨isStart, -⟩ := localCoverage_slots covers
    split at answers
    · cases answers
    · rename_i reaches
      rw [FromShelley, isStart, Option.any_some, decide_eq_true_eq]
      exact Nat.le_of_not_lt reaches

/-- What an answered asset lookup read. -/
theorem localAssetInfo_spec {config : CrawlAnswers} {cursor : SyncState} {now : Time}
    {store : CrawlStore} {order : ReadOrder} :
    localAssetInfo parseJson computeCip14Fingerprint config cursor now store order unit = .ok none ∨
      (crawlAnswers config cursor now "getAssetInfo").isSome ∧
        ∃ events, events =
            order.read ((store .assetHistory).select fun row => decide (row.unit = unit)) ∧
          ((events = [] ∧ ∃ error, localAssetInfo parseJson computeCip14Fingerprint config cursor now
              store order unit = .error error) ∨
            localAssetInfo parseJson computeCip14Fingerprint config cursor now store order unit =
              .ok (some (assetInfoOf parseJson computeCip14Fingerprint store unit
                (events.mergeSort fun a b => decide (a.heightOrZero ≤ b.heightOrZero))))) := by
  simp only [localAssetInfo]
  split
  · exact Or.inl rfl
  · rename_i answers
    rw [Bool.or_eq_true, not_or, Option.isNone_iff_eq_none] at answers
    refine Or.inr ⟨Option.isSome_iff_ne_none.mpr answers.2, _, rfl, ?_⟩
    split
    · rename_i none
      exact Or.inl ⟨none, _, rfl⟩
    · exact Or.inr rfl

theorem TotalsSound.answersFollow (sound : TotalsSound network poolId unit s) :
    AnswersFollow network poolId unit s where
  blocksEpoch _ _ := sound.blocksEpoch
  blocksMinted _ _ := sound.blocksMinted
  assetInfo parseJson computeCip14Fingerprint config now order info sameNetwork answered := by
    rcases @localAssetInfo_spec unit _ parseJson computeCip14Fingerprint config s.cursor now
      s.store order with silent | ⟨answers, events, rfl, ⟨-, error, refused⟩ | found⟩
    · rw [silent] at answered
      cases answered
    · rw [refused] at answered
      cases answered
    · rw [found] at answered
      have assets := sound.assets (sameNetwork ▸ fromShelley_of_crawlAnswers answers)
      have perm := assets.read_perm sound.chain order
      rw [← Option.some.inj (Except.ok.inj answered)]
      exact assetInfoOf_perm s.store ((List.mergeSort_perm _ _).trans perm)
        (assets.sorted_mints sound.chain perm)
  neverMinted parseJson computeCip14Fingerprint config now order error sameNetwork refused := by
    rcases @localAssetInfo_spec unit _ parseJson computeCip14Fingerprint config s.cursor now
      s.store order with silent | ⟨answers, events, rfl, ⟨none, -⟩ | found⟩
    · rw [silent] at refused
      cases refused
    · have assets := sound.assets (sameNetwork ▸ fromShelley_of_crawlAnswers answers)
      have perm := assets.read_perm sound.chain order
      exact List.nil_perm.mp (none ▸ perm)
    · rw [found] at refused
      cases refused

end Answers

/-- Where readers store nothing that the followed chain does not hold, the totals are the
folds over it. -/
theorem localTotals_followed [Bech32] (network : EpochConfig) (poolId : String)
    (unit : AssetUnit) {name : String} {point : Option ChainPoint} {s : FollowedStore}
    (run : FollowReachable (Harmless network poolId unit) name point s) :
    AnswersFollow network poolId unit s :=
  run.totalsSound.answersFollow

section Sample

attribute [local instance] byronBech32

/-- A block of the pool `p` at a slot. -/
def poolBlock (hash : BlockHash) (slot txCount : Nat) : BlockData :=
  { sampleBlock hash slot txCount with slotLeader := some "p" }

/-- A block that mints 3 tokens. -/
def mintingBlock : IndexedBlock :=
  ⟨poolBlock (text "b") 20 1,
    [{ sampleTx (text "t1") (text "b") 20 [] [sampleOutput] with
        mint := some [⟨text "token", 3⟩] }], none, none⟩

/-- The cursor of a crawl since Shelley, at the block. -/
def cursorAtMint : SyncState :=
  { SyncState.initial "preview" (some ⟨0, text "o", some 0⟩) with
    lastSlot := 20
    syncStatus := .synced
    leaseOwner := some "crawler"
    leaseUntil := some 10 }

/-- Three tokens are minted. -/
def threeMinted (_ : TxHash) (unit : AssetUnit) : Int := if unit = text "token" then 3 else 0

/-- The block is crawled. -/
def mintCrawled : FollowedStore :=
  ⟨indexBlock ⟨true, true⟩ CrawlStore.empty mintingBlock, cursorAtMint,
    [⟨mintingBlock, threeMinted⟩]⟩

theorem mintCrawled_reachable {allowed : FollowedStore → StoreWrite → Prop}
    (may : ∀ s, s.chain = [] → s.store = CrawlStore.empty →
      allowed s (.crawledBlock ⟨true, true⟩ ⟨mintingBlock, threeMinted⟩)) :
    FollowReachable allowed "preview" (some ⟨0, text "o", some 0⟩) mintCrawled :=
  .single (.persist (.start "preview" (some ⟨0, text "o", some 0⟩)) ⟨true, true⟩ mintingBlock
    threeMinted cursorAtMint rfl rfl
    { slot_known := rfl
      hashes_nodup := by decide
      blockHash := by decide
      txSlot := by decide
      index_lt := by decide
      labels := by decide }
    (fun t tMem => by
      obtain rfl := List.mem_singleton.mp tMem
      refine ⟨by decide, fun mint isMint unit _ => ?_, fun failed => by cases failed⟩
      cases isMint
      simp [unitQuantity, threeMinted, eq_comm])
    (fun _ m => absurd m List.not_mem_nil) (fun _ m => absurd m List.not_mem_nil)
    (may _ rfl rfl))

/-- The crawl answers with one block and 3 tokens minted. -/
theorem localTotals_followed_sample :
    localPoolBlocks .preview cursorAtMint 0 mintCrawled.store "p" = ⟨none, some 1⟩ ∧
      AnswersFollow .preview "p" (text "token") mintCrawled := by
  refine ⟨by decide +kernel, localTotals_followed .preview "p" (text "token")
    (mintCrawled_reachable fun s _ _ _ => ?_)⟩
  refine ⟨rfl, rfl, fun t tMem _ => ?_, by decide +kernel⟩
  obtain rfl := List.mem_singleton.mp tMem
  exact Or.inl rfl

/-- A reader stores the pool's next block before the crawler reaches it, and the pool has one
block more than the followed chain. -/
theorem localPoolBlocks_aheadOfCursor :
    ¬ ∀ s, FollowReachable (fun _ _ => True) "preview" (some ⟨0, text "o", some 0⟩) s →
      AnswersFollow .preview "p" (text "token") s := by
  intro follow
  have run : FollowReachable (fun _ _ => True) "preview" (some ⟨0, text "o", some 0⟩)
      { mintCrawled with
        store := writeBlockRow mintCrawled.store (mapBlock (poolBlock (text "c") 21 0) none) } :=
    .tail (mintCrawled_reachable fun _ _ _ => trivial) (.readBlock mintCrawled _ trivial)
  have counted := (follow _ run).blocksMinted 0 2 (by decide +kernel)
  exact absurd counted (by decide +kernel)

end Sample

end Odatano
