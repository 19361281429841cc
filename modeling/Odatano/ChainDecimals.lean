import Odatano.CrawledChain
import Odatano.ReferenceTrail

/-!
# Token decimals along the crawl

Blocks write the decimals of CIP-68 tokens forward and no rollback writes them back.  Runs of the
crawl with the asset catalogue, and when the stored decimals are those of the followed chain.
-/

namespace Odatano

section Decimals

variable [DatumReader]

/-! ## The decimals of a chain -/

/-- The outputs of a chain that hold a token, in the order of blocks, transactions and outputs. -/
def referenceOutputs (unit : AssetUnit) (txs : List Transaction) :
    List (Transaction × TxOutputLine) :=
  txs.flatMap fun t => (t.outputs.filter (TxOutputLine.holds unit)).map fun o => (t, o)

/-- The decimals the datum of an output gives, as far as the chain reveals it. -/
def chainDecimals (base : CrawlStore) (txs : List Transaction) (o : TxOutputLine) : Option Nat :=
  (orNull (chainDatum base txs o)).bind cip68DecimalsFromDatum

/-- The decimals given by the latest output of a chain that holds the reference token with a datum
that gives decimals. -/
def latestDecimals (base : CrawlStore) (chain : List IndexedBlock) (referenceUnit : AssetUnit) :
    Option Nat :=
  (referenceOutputs referenceUnit (chainTxs chain)).latest fun held =>
    chainDecimals base (chainTxs chain) held.2

/-- The decimals stored in the slices of a unit. -/
def storedDecimals (assets : AssetTable) (unit : AssetUnit) : List (Option Nat) :=
  (assets.select fun row => decide (row.unit = unit)).map AssetRow.decimals

/-- Every slice of a stored unit has a value. -/
def StoresDecimals (assets : AssetTable) (unit : AssetUnit) (decimals : Option Nat) : Prop :=
  storedDecimals assets unit ≠ [] ∧ ∀ stored ∈ storedDecimals assets unit, stored = decimals

/-! ## Writing -/

omit [DatumReader] in
theorem storedDecimals_set (assets : AssetTable) (unit written : AssetUnit) (decimals : Nat) :
    storedDecimals (setAssetDecimals assets written decimals).1 unit =
      (storedDecimals assets unit).map
        (if unit = written then some decimals else none : Option Nat).or := by
  unfold storedDecimals setAssetDecimals Table.select Table.update
  dsimp only
  rw [List.filter_map, List.map_map, List.map_map]
  have kept : ((fun row : AssetRow => decide (row.unit = unit)) ∘ fun row : AssetRow =>
      if decide (row.unit = written) = true then { row with decimals := some decimals } else row) =
        fun row => decide (row.unit = unit) := by
    funext row
    simp only [Function.comp_apply]
    split <;> rfl
  rw [kept]
  refine List.map_congr_left fun row rowMem => ?_
  have isUnit : row.unit = unit := of_decide_eq_true (List.mem_filter.mp rowMem).2
  simp only [Function.comp_apply, isUnit, decide_eq_true_eq]
  split
  · rfl
  · rfl

omit [DatumReader] in
theorem storedDecimals_setUsers (written : AssetTable × Nat) (users : List AssetUnit)
    (decimals : Nat) (unit : AssetUnit) :
    storedDecimals (setUsers written users decimals).1 unit =
      (storedDecimals written.1 unit).map
        (if unit ∈ users then some decimals else none : Option Nat).or := by
  have folded := @List.foldl_latest AssetUnit Nat (AssetTable × Nat)
    (fun user => if unit = user then some decimals else none)
    (fun written user =>
      ((setAssetDecimals written.1 user decimals).1,
        written.2 + (setAssetDecimals written.1 user decimals).2))
    (fun written => storedDecimals written.1 unit)
    (fun written user => storedDecimals_set written.1 unit user decimals) users written
  refine folded.trans (congrArg (fun value : Option Nat => List.map value.or _) ?_)
  have same := List.latest_of_one (fun user => decide (unit = user)) (some decimals) users
  simp only [decide_eq_true_eq] at same
  rw [same]
  refine if_congr ?_ rfl rfl
  rw [List.any_eq_true]
  constructor
  · rintro ⟨user, userMem, isUnit⟩
    exact of_decide_eq_true isUnit ▸ userMem
  · exact fun member => ⟨unit, member, decide_eq_true rfl⟩

section Token

variable {unit referenceUnit : AssetUnit} (described : cip68ReferenceUnit unit = some referenceUnit)
include described

theorem storedDecimals_applyAmount (store : CrawlStore) (t : Transaction) (o : TxOutputLine)
    (written : AssetTable × Nat) (a : Amount) :
    storedDecimals (applyAmount store t o written a).1 unit =
      (storedDecimals written.1 unit).map
        (if decide (a.unit = referenceUnit) = true then datumDecimals store t o else none).or := by
  have unchanged : storedDecimals written.1 unit =
      (storedDecimals written.1 unit).map (none : Option Nat).or :=
    (List.map_id _).symm
  have isDescribed : ∀ users, cip68UserUnits a.unit = some users →
      (unit ∈ users ↔ a.unit = referenceUnit) := by
    intro users known
    constructor
    · intro member
      exact Option.some.inj
        ((mem_cip68UserUnits.mp ⟨users, known, member⟩).symm.trans described)
    · intro isReference
      obtain ⟨others, sameUsers, member⟩ := mem_cip68UserUnits.mpr described
      rw [← isReference, known] at sameUsers
      exact Option.some.inj sameUsers ▸ member
  unfold applyAmount
  cases known : cip68UserUnits a.unit with
  | none =>
      have other : ¬ a.unit = referenceUnit := by
        intro isReference
        obtain ⟨users, isUsers, -⟩ := mem_cip68UserUnits.mpr described
        rw [← isReference, known] at isUsers
        cases isUsers
      rw [decide_eq_false other]
      exact unchanged
  | some users =>
      dsimp only
      cases read : datumDecimals store t o with
      | none =>
          dsimp only
          split <;> exact unchanged
      | some decimals =>
          dsimp only
          rw [storedDecimals_setUsers]
          simp only [isDescribed users known, decide_eq_true_eq]

/-- What a block does to the stored decimals of a token. -/
theorem storedDecimals_applyReferenceDatums (store : CrawlStore) (txs : List Transaction)
    (assets : AssetTable) :
    storedDecimals (applyReferenceDatums store txs assets).1 unit =
      (storedDecimals assets unit).map (txs.latest fun t =>
        (t.outputs.filter (TxOutputLine.holds referenceUnit)).latest
          (datumDecimals store t)).or := by
  refine @List.foldl_latest Transaction Nat (AssetTable × Nat) _ _
    (fun written => storedDecimals written.1 unit) (fun written t => ?_) txs (assets, 0)
  rw [List.latest_filter]
  refine @List.foldl_latest TxOutputLine Nat (AssetTable × Nat) _ _
    (fun written => storedDecimals written.1 unit) (fun written o => ?_) t.outputs written
  have folded := @List.foldl_latest Amount Nat (AssetTable × Nat) _ _
    (fun written => storedDecimals written.1 unit)
    (storedDecimals_applyAmount described store t o) o.amount.amounts written
  refine folded.trans (congrArg (fun value : Option Nat => List.map value.or _) ?_)
  rw [List.latest_of_one (fun a : Amount => decide (a.unit = referenceUnit))]
  refine if_congr ?_ rfl rfl
  rw [List.any_eq_true, TxOutputLine.holds, decide_eq_true_eq, List.mem_map]
  simp only [decide_eq_true_eq]

end Token

/-! ## Reading -/

section Reading

variable [Bech32] {coverage : CrawlCoverage} {base : CrawlStore} {chain : List IndexedBlock}
  {store : CrawlStore} (followed : FollowedTables coverage base chain store)
include followed

/-- The datum a block reads for one of its outputs is the one the chain reveals. -/
theorem FollowedTables.datumDecimals_eq {t : Transaction} (tMem : t ∈ chainTxs chain)
    {o : TxOutputLine} (oMem : o ∈ t.outputs) :
    datumDecimals store t o = chainDecimals base (chainTxs chain) o := by
  have inline : orNull o.data.inlineDatum = o.data.inlineDatum := by
    cases known : o.data.inlineDatum with
    | none => rfl
    | some datum =>
        have filled : datum ≠ "" := fun blank =>
          followed.inline t tMem o oMem (known.trans (congrArg some blank))
        rw [orNull, Option.filter_some, decide_eq_true filled, if_pos rfl]
  have witnessed : ∀ dataHash,
      (((t.datums.getD []).reverse.find? fun d => decide (d.hash = dataHash)).map TxDatum.cbor).or
        (storedDatum store dataHash) = revealedDatum base (chainTxs chain) dataHash := by
    intro dataHash
    rw [followed.storedDatum_eq]
    cases own : (t.datums.getD []).reverse.find? fun d => decide (d.hash = dataHash) with
    | none => rfl
    | some d =>
        have dMem : d ∈ t.datums.getD [] :=
          List.mem_reverse.mp (List.mem_of_find?_eq_some own)
        have isHash : d.hash = dataHash := by simpa using List.find?_some own
        have listed : (d.hash, d.cbor) ∈ revealedData base (chainTxs chain) :=
          List.mem_append_right _ (List.mem_flatMap.mpr ⟨t, tMem, List.mem_map_of_mem dMem⟩)
        rw [Option.map_some, Option.some_or, revealedDatum]
        cases found : (revealedData base (chainTxs chain)).find?
            fun datum => decide (datum.1 = dataHash) with
        | none =>
            have missed := List.find?_eq_none.mp found _ listed
            rw [decide_eq_true_eq] at missed
            exact absurd isHash missed
        | some datum =>
            have sameHash : datum.1 = dataHash := by simpa using List.find?_some found
            have same := followed.datums _ listed _ (List.mem_of_find?_eq_some found)
              (isHash.trans sameHash.symm)
            exact congrArg (fun datum : String × String => some datum.2) same
  rw [datumDecimals, chainDecimals, outputDatum, chainDatum, inline]
  exact congrArg (fun datum : Option String =>
    (orNull (o.data.inlineDatum.or datum)).bind cip68DecimalsFromDatum)
    (congrArg (orNull o.data.dataHash).bind (funext witnessed))

end Reading

/-! ## Following the token -/

/-- The mint a token is followed from: the one that ranks first in the stored history or, without a
stored mint, the given one. -/
def FollowedFrom (store : CrawlStore) (referenceUnit : AssetUnit) (mintTxHash : Option TxHash)
    (first : Option TxHash) : Prop :=
  (∃ row ∈ mintRows store referenceUnit, first = some row.txHash ∧
      ∀ other ∈ mintRows store referenceUnit, other.recency ≤ row.recency) ∨
    (mintRows store referenceUnit = [] ∧ first = mintTxHash)

/-- The token is followed: the outputs that hold it end in a trail from its latest mint, on which
the newest datum gives decimals if any output does. -/
structure FollowedToken [Bech32] (coverage : CrawlCoverage) (base : CrawlStore)
    (chain : List IndexedBlock) (referenceUnit : AssetUnit) (mintTxHash : Option TxHash)
    (earlier trail : List (Transaction × TxOutputLine)) : Prop where
  outputs : referenceOutputs referenceUnit (chainTxs chain) = earlier ++ trail
  linked : ReferenceTrail base (chainTxs chain) referenceUnit trail
  starts : FollowedFrom (indexChain coverage base chain) referenceUnit mintTxHash
    (trail.head?.map fun held => held.1.hash)
  hops : trail.length ≤ MAX_HOPS
  newest : ∀ held ∈ earlier ++ trail, (chainDecimals base (chainTxs chain) held.2).isSome = true →
    ∃ before last after, trail = before ++ last :: after ∧
      (chainDecimals base (chainTxs chain) last.2).isSome = true ∧
        ∀ later ∈ after, chainDatum base (chainTxs chain) later.2 = none

omit [DatumReader] in
/-- The mint the code starts from. -/
theorem mint_of_followedFrom {store : CrawlStore} {referenceUnit : AssetUnit}
    {mintTxHash first : Option TxHash}
    (starts : FollowedFrom store referenceUnit mintTxHash first) :
    (((mintRows store referenceUnit).argmax AssetHistoryRow.recency).map
      AssetHistoryRow.txHash).or mintTxHash = first := by
  rcases starts with ⟨row, rowMem, rfl, newest⟩ | ⟨none, rfl⟩
  · cases found : (mintRows store referenceUnit).argmax AssetHistoryRow.recency with
    | none =>
        rw [List.argmax_eq_none.mp found] at rowMem
        cases rowMem
    | some newestRow =>
        have rank : newestRow.recency = row.recency :=
          le_antisymm (newest newestRow (List.argmax_mem found))
            (List.le_of_mem_argmax rowMem found)
        have chars : newestRow.txHash.chars = row.txHash.chars :=
          congrArg (fun rank => (ofLex (ofLex rank).2).2) rank
        have same : newestRow.txHash = row.txHash := by
          cases newestHash : newestRow.txHash
          cases rowHash : row.txHash
          rw [newestHash, rowHash] at chars
          cases chars
          rfl
        exact congrArg some same
  · rw [none]
    rfl

section Token

variable [Bech32] {coverage : CrawlCoverage} {base : CrawlStore} {chain : List IndexedBlock}
  {store : CrawlStore} {unit referenceUnit : AssetUnit} {mintTxHash : Option TxHash}
  {earlier trail : List (Transaction × TxOutputLine)}

/-- Following a token gives the decimals of the chain. -/
theorem FollowedToken.cip68Decimals_eq (followed : FollowedTables coverage base chain store)
    (described : cip68ReferenceUnit unit = some referenceUnit)
    (token : FollowedToken coverage base chain referenceUnit mintTxHash earlier trail) :
    cip68Decimals store unit mintTxHash = latestDecimals base chain referenceUnit := by
  have datum : currentReferenceDatum store referenceUnit mintTxHash =
      trail.latest fun held => chainDatum base (chainTxs chain) held.2 := by
    rw [currentReferenceDatum]
    have starts := token.starts
    rw [← followed.tables] at starts
    rw [mint_of_followedFrom starts]
    cases onTrail : trail with
    | nil => rfl
    | cons first rest =>
        have hops := token.hops
        have isTrail := token.linked
        rw [onTrail] at hops isTrail
        exact (followed.followReference_trail isTrail hops none).trans Option.or_none
  rw [cip68Decimals, described, Option.bind_some, datum, latestDecimals, token.outputs]
  by_cases given : ∃ held ∈ earlier ++ trail,
      (chainDecimals base (chainTxs chain) held.2).isSome = true
  · obtain ⟨held, heldMem, gives⟩ := given
    obtain ⟨before, last, after, rfl, lastGives, silent⟩ := token.newest held heldMem gives
    have hasDatum : (chainDatum base (chainTxs chain) last.2).isSome = true := by
      rw [chainDecimals] at lastGives
      cases known : chainDatum base (chainTxs chain) last.2 with
      | none =>
          rw [known] at lastGives
          cases lastGives
      | some datum => rfl
    have noDecimals : ∀ later ∈ after, chainDecimals base (chainTxs chain) later.2 = none := by
      intro later laterMem
      rw [chainDecimals, silent later laterMem]
      rfl
    rw [List.latest_append_cons silent hasDatum, ← List.append_assoc,
      List.latest_append_cons noDecimals lastGives]
    rfl
  · push Not at given
    have noDecimals : ∀ held ∈ earlier ++ trail,
        chainDecimals base (chainTxs chain) held.2 = none := by
      intro held heldMem
      cases known : chainDecimals base (chainTxs chain) held.2 with
      | none => rfl
      | some decimals => exact absurd (known ▸ rfl) (given held heldMem)
    rw [List.latest_eq_none.mpr noDecimals]
    cases known : trail.latest fun held => chainDatum base (chainTxs chain) held.2 with
    | none => rfl
    | some datum =>
        obtain ⟨held, heldMem, isDatum⟩ :=
          List.mem_filterMap.mp (List.mem_of_getLast? known)
        have gives := noDecimals held (List.mem_append_right _ heldMem)
        rw [chainDecimals, isDatum] at gives
        exact gives

end Token

/-! ## Runs -/

/-- A crawler with the asset catalogue. -/
structure CataloguedCrawler where
  crawler : Crawler
  assets : AssetTable

section Runs

variable [Bech32]

/-- One attempt of `persistBlock` with its catalogue part.  `catalogued` is the catalogue once the
units of the block have their rows. -/
def CataloguedCrawler.rollForward (state : CataloguedCrawler) (message : RollForward)
    (leaseOwner : Option LeaseOwner) (now : Time) (catalogued : AssetTable) :
    CataloguedCrawler where
  crawler := state.crawler.rollForward message leaseOwner now
  assets :=
    if message.txs.length ≠ message.block.txCount then state.assets
    else
      match (persistBlockTx state.crawler.indexer state.crawler.db message.block message.txs
          message.epochData message.tip leaseOwner now).2 with
      | none => state.assets
      | some db =>
          let b := message.indexed state.crawler.indexer state.crawler.db
          let prepared := prepareBlock state.crawler.db.crawl b.ledger b.block b.txs
          (applyReferenceDatums db.crawl prepared.txs catalogued).1

/-- The steps of a crawl while the rows of a token exist: blocks add rows for other units and write
decimals, and nothing else touches the catalogue. -/
inductive CatalogueStep (config : CrawlStart) (start : ChainPoint) (base : CrawlStore)
    (unit : AssetUnit) : CataloguedCrawler → CataloguedCrawler → Prop
  | rollForward (state : CataloguedCrawler) (message : RollForward)
      (leaseOwner : Option LeaseOwner) (now : Time) (catalogued : AssetTable)
      (next : FollowedChain start base
        (state.crawler.chain ++ [message.indexed state.crawler.indexer state.crawler.db]))
      (kept : storedDecimals catalogued unit = storedDecimals state.assets unit) :
      CatalogueStep config start base unit state
        (state.rollForward message leaseOwner now catalogued)
  -- rollbacks, restarts and whatever else adds no block
  | noBlock (state : CataloguedCrawler) (crawler : Crawler)
      (step : CrawlStep config start base state.crawler crawler)
      (behind : crawler.chain <+: state.crawler.chain) :
      CatalogueStep config start base unit state ⟨crawler, state.assets⟩

/-- A step that changes the decimals of the chain only by adding a block with an output that gives
decimals. -/
structure DecimalsGiven (coverage : CrawlCoverage) (base : CrawlStore)
    (referenceUnit : AssetUnit) (before after : List IndexedBlock) : Prop where
  delivered : DeliveredChain coverage base after
  answered : latestDecimals base after referenceUnit = latestDecimals base before referenceUnit ∨
    ∃ b, after = before ++ [b] ∧ ∃ t ∈ b.txs, ∃ o ∈ t.outputs, o.holds referenceUnit = true ∧
      (chainDecimals base (chainTxs after) o).isSome = true

/-- A crawl that has not begun, with a token that has no decimals yet. -/
structure DecimalsBegin (coverage : CrawlCoverage) (start : ChainPoint) (base : CrawlStore)
    (unit : AssetUnit) (state : CataloguedCrawler) : Prop where
  crawl : CrawlBegins coverage start base state.crawler
  delivered : DeliveredChain coverage base []
  stored : StoresDecimals state.assets unit none

/-- The stored decimals of a token are those of the chain. -/
structure DecimalsFollow (coverage : CrawlCoverage) (start : ChainPoint) (base : CrawlStore)
    (unit referenceUnit : AssetUnit) (state : CataloguedCrawler) : Prop where
  crawled : Crawled coverage start base state.crawler
  delivered : DeliveredChain coverage base state.crawler.chain
  stored : StoresDecimals state.assets unit
    (latestDecimals base state.crawler.chain referenceUnit)

variable {config : CrawlStart} {coverage : CrawlCoverage} {start : ChainPoint}
  {base : CrawlStore} {unit referenceUnit : AssetUnit}

omit [Bech32] in
/-- The outputs of a chain and those of the next block. -/
theorem latestDecimals_append (chain : List IndexedBlock) (b : IndexedBlock) :
    latestDecimals base (chain ++ [b]) referenceUnit =
      (b.txs.latest fun t => (t.outputs.filter (TxOutputLine.holds referenceUnit)).latest
        (chainDecimals base (chainTxs (chain ++ [b])))).or
      ((referenceOutputs referenceUnit (chainTxs chain)).latest fun held =>
        chainDecimals base (chainTxs (chain ++ [b])) held.2) := by
  have added : referenceOutputs referenceUnit (chainTxs (chain ++ [b])) =
      referenceOutputs referenceUnit (chainTxs chain) ++ referenceOutputs referenceUnit b.txs := by
    rw [chainTxs_append, referenceOutputs, List.flatMap_append]
    refine congrArg _ (congrArg (referenceOutputs referenceUnit) ?_)
    exact List.flatMap_singleton _ _
  rw [latestDecimals, added, List.latest_append]
  refine congrArg (Option.or · _) ?_
  rw [referenceOutputs, List.latest_flatMap]
  exact List.latest_congr fun t _ => List.latest_map ..

/-- A block that is added leaves the decimals of the chain. -/
theorem storesDecimals_added {chain : List IndexedBlock} {b : IndexedBlock}
    {store before : CrawlStore} {assets catalogued : AssetTable}
    (described : cip68ReferenceUnit unit = some referenceUnit)
    (followed : FollowedTables coverage base (chain ++ [b]) store)
    (given : DecimalsGiven coverage base referenceUnit chain (chain ++ [b]))
    (kept : storedDecimals catalogued unit = storedDecimals assets unit)
    (stored : StoresDecimals assets unit (latestDecimals base chain referenceUnit)) :
    StoresDecimals
      (applyReferenceDatums store (prepareBlock before b.ledger b.block b.txs).txs catalogued).1
      unit (latestDecimals base (chain ++ [b]) referenceUnit) := by
  have bMem : ∀ t ∈ b.txs, t ∈ chainTxs (chain ++ [b]) := fun t tMem =>
    mem_chainTxs.mpr ⟨b, List.mem_append_right _ (List.mem_singleton_self b), tMem⟩
  have written := storedDecimals_applyReferenceDatums described store
    (prepareBlock before b.ledger b.block b.txs).txs catalogued
  rw [kept, prepareBlock_map, List.latest_map] at written
  have read : (b.txs.latest ((fun t : Transaction =>
      (t.outputs.filter (TxOutputLine.holds referenceUnit)).latest (datumDecimals store t)) ∘
        prepareTx before b.ledger b.txs)) =
      b.txs.latest fun t => (t.outputs.filter (TxOutputLine.holds referenceUnit)).latest
        (chainDecimals base (chainTxs (chain ++ [b]))) := by
    refine List.latest_congr fun t tMem => List.latest_congr fun o oMem => ?_
    exact followed.datumDecimals_eq (bMem t tMem) (List.mem_filter.mp oMem).1
  rw [read] at written
  have answer : ∀ value, value = latestDecimals base chain referenceUnit →
      (b.txs.latest fun t => (t.outputs.filter (TxOutputLine.holds referenceUnit)).latest
        (chainDecimals base (chainTxs (chain ++ [b])))).or value =
          latestDecimals base (chain ++ [b]) referenceUnit := by
    rintro value rfl
    have appended := @latestDecimals_append _ base referenceUnit chain b
    cases here : b.txs.latest fun t =>
        (t.outputs.filter (TxOutputLine.holds referenceUnit)).latest
          (chainDecimals base (chainTxs (chain ++ [b]))) with
    | some decimals =>
        rw [here, Option.some_or] at appended
        rw [appended, Option.some_or]
    | none =>
        rw [Option.none_or]
        rcases given.answered with same | ⟨c, isAdded, t, tMem, o, oMem, holds, gives⟩
        · exact same.symm
        · cases (List.append_cancel_left isAdded)
          have silent := List.latest_eq_none.mp (List.latest_eq_none.mp here t tMem) o
            (List.mem_filter.mpr ⟨oMem, holds⟩)
          rw [silent] at gives
          cases gives
  refine ⟨?_, ?_⟩
  · rw [prepareBlock_map, written, Ne, List.map_eq_nil_iff]
    exact stored.1
  · rw [prepareBlock_map, written]
    intro value valueMem
    obtain ⟨old, oldMem, rfl⟩ := List.mem_map.mp valueMem
    exact answer old (stored.2 old oldMem)

/-- Every step that meets the condition keeps the decimals on the chain. -/
theorem DecimalsFollow.step (below : BelowStart start base) (configured : config.point = some start)
    (described : cip68ReferenceUnit unit = some referenceUnit) {state next : CataloguedCrawler}
    (follows : DecimalsFollow coverage start base unit referenceUnit state)
    (step : CatalogueStep config start base unit state next)
    (given : DecimalsGiven coverage base referenceUnit state.crawler.chain next.crawler.chain) :
    DecimalsFollow coverage start base unit referenceUnit next := by
  cases step with
  | noBlock crawler step behind =>
      refine ⟨follows.crawled.step below configured step, given.delivered, ?_⟩
      have same : latestDecimals base crawler.chain referenceUnit =
          latestDecimals base state.crawler.chain referenceUnit := by
        rcases given.answered with same | ⟨b, isAdded, -⟩
        · exact same
        · have shorter := behind.length_le
          have longer : crawler.chain.length = state.crawler.chain.length + 1 :=
            (congrArg List.length isAdded).trans List.length_append
          omega
      exact same ▸ follows.stored
  | rollForward message leaseOwner now catalogued next kept =>
      have crawled := @Crawled.rollForward _ coverage start base state.crawler follows.crawled
        message leaseOwner now next
      refine ⟨crawled, given.delivered, ?_⟩
      have tables := crawled.tables
      have isDelivered := given.delivered
      unfold CataloguedCrawler.rollForward Crawler.rollForward at *
      dsimp only at *
      split at given
      · rename_i incomplete
        rw [if_pos incomplete, if_pos incomplete]
        exact follows.stored
      · rename_i complete
        rw [if_neg complete] at tables isDelivered ⊢
        rw [if_neg complete]
        cases committed : (persistBlockTx state.crawler.indexer state.crawler.db message.block
            message.txs message.epochData message.tip leaseOwner now).2 with
        | none => exact follows.stored
        | some db =>
            simp only [committed] at given tables isDelivered ⊢
            exact storesDecimals_added described ⟨isDelivered, next.valid, tables⟩ given kept
              follows.stored

/-- In every run whose steps change the decimals of the chain only by adding a block with an output
that gives decimals, the stored decimals of a token are those of the followed chain; and where the
token is followed, they are the ones that following it finds. -/
theorem decimals_follow_chain (below : BelowStart start base)
    (configured : config.point = some start)
    (described : cip68ReferenceUnit unit = some referenceUnit) {first last : CataloguedCrawler}
    (begins : DecimalsBegin coverage start base unit first)
    (run : Relation.ReflTransGen (fun state next =>
      CatalogueStep config start base unit state next ∧
        DecimalsGiven coverage base referenceUnit state.crawler.chain next.crawler.chain)
      first last) :
    StoresDecimals last.assets unit (latestDecimals base last.crawler.chain referenceUnit) ∧
      ∀ mintTxHash earlier trail,
        FollowedToken coverage base last.crawler.chain referenceUnit mintTxHash earlier trail →
          cip68Decimals last.crawler.db.crawl unit mintTxHash =
            latestDecimals base last.crawler.chain referenceUnit := by
  have follows : DecimalsFollow coverage start base unit referenceUnit last := by
    induction run with
    | refl =>
        have nothing := begins.crawl.nothing
        refine ⟨begins.crawl.crawled, nothing ▸ begins.delivered, ?_⟩
        rw [nothing]
        exact begins.stored
    | tail _ step ih => exact ih.step below configured described step.1 step.2
  refine ⟨follows.stored, fun mintTxHash earlier trail token => ?_⟩
  exact token.cip68Decimals_eq
    ⟨follows.delivered, follows.crawled.followed.valid, follows.crawled.tables⟩ described

end Runs

end Decimals

/-! ### A sample run -/

section Sample

/-- A reader that knows one datum, which gives 6 decimals. -/
@[reducible]
def sampleDatums : DatumReader where
  dataFromCbor cborHex :=
    if cborHex = "d8" then some (.constr 0 [.map [(.bytes DECIMALS_KEY, .int 6)], .int 1])
    else none

attribute [local instance] byronBech32 sampleDatums

def sampleToken : AssetUnit :=
  text "aaaaaaaaaaaaaaaaaaaaaaaaaaaaaaaaaaaaaaaaaaaaaaaaaaaaaaaa0014df10"

def sampleReference : AssetUnit :=
  text "aaaaaaaaaaaaaaaaaaaaaaaaaaaaaaaaaaaaaaaaaaaaaaaaaaaaaaaa000643b0"

theorem sampleReference_nodup : (([⟨sampleReference, 1⟩] : List Amount).map Amount.unit).Nodup :=
  List.nodup_singleton _

/-- The output that holds the reference token with its datum. -/
def referenceOutput : TxOutputLine :=
  ⟨"Ae2", ⟨[⟨sampleReference, 1⟩], sampleReference_nodup⟩, 0, ⟨none, some "d8", none, none, none⟩,
    false⟩

/-- The mint of the reference token. -/
def referenceMint : Transaction :=
  { sampleTx (text "t1") (text "b11") 11 [] [referenceOutput] with
    mint := some [⟨sampleReference, 1⟩] }

def referenceMessage : RollForward := ⟨sampleBlock (text "b11") 11 1, [referenceMint], none, none⟩

theorem sampleSlices_nodup : (([⟨sampleToken, "", none⟩] : List AssetRow).map AssetRow.key).Nodup :=
  List.nodup_singleton _

/-- The sample crawler with a row of the token. -/
def sampleCatalogue : CataloguedCrawler where
  crawler := sampleCrawler
  assets := ⟨[⟨sampleToken, "", none⟩], sampleSlices_nodup⟩

def referenceCrawled : CataloguedCrawler :=
  sampleCatalogue.rollForward referenceMessage none 0 sampleCatalogue.assets

theorem sampleToken_described : cip68ReferenceUnit sampleToken = some sampleReference := by
  decide +kernel

theorem referenceCrawled_stored :
    storedDecimals referenceCrawled.assets sampleToken = [some 6] := by
  decide +kernel

theorem referenceMessage_followed : FollowedChain sampleStart CrawlStore.empty
    (sampleCatalogue.crawler.chain ++
      [referenceMessage.indexed sampleCatalogue.crawler.indexer sampleCatalogue.crawler.db]) := by
  refine ⟨⟨?_, List.pairwise_singleton .., fun b _ => untouched_empty b⟩, ?_, ?_⟩
  · intro b bMem
    cases List.mem_singleton.mp bMem
    constructor <;> simp [referenceMessage, referenceMint, RollForward.indexed, sampleBlock,
      sampleTx, IndexedBlock.slot, IndexedBlock.hash, BlockData.slotOrZero, TX_SEQ_SLOT_FACTOR]
  · intro b bMem
    cases List.mem_singleton.mp bMem
    decide
  · intro b bMem
    cases List.mem_singleton.mp bMem
    decide

theorem sampleStart_below : BelowStart sampleStart CrawlStore.empty :=
  fun _ rowMem => absurd rowMem List.not_mem_nil

theorem referenceCrawled_step : CatalogueStep sampleConfig sampleStart CrawlStore.empty sampleToken
    sampleCatalogue referenceCrawled :=
  CatalogueStep.rollForward sampleCatalogue referenceMessage none 0 sampleCatalogue.assets
    referenceMessage_followed rfl

theorem referenceCrawled_delivered :
    DeliveredChain ⟨true, true⟩ CrawlStore.empty referenceCrawled.crawler.chain where
  keyed := by
    refine ⟨fun table => ?_, trivial⟩
    cases table <;> decide +kernel
  indexes b bMem := by
    cases List.mem_singleton.mp bMem
    exact List.nodup_singleton _
  datums first firstMem := absurd firstMem List.not_mem_nil
  inline t tMem o oMem := by
    cases List.mem_singleton.mp tMem
    cases List.mem_singleton.mp oMem
    exact fun blank => absurd (Option.some.inj blank) (by decide)

theorem referenceCrawled_token :
    FollowedToken ⟨true, true⟩ CrawlStore.empty referenceCrawled.crawler.chain sampleReference none
      [] [(referenceMint, referenceOutput)] where
  outputs := rfl
  linked := by
    have unspent : ∀ t ∈ chainTxs referenceCrawled.crawler.chain, ∀ spent, ¬ t.Consumes spent := by
      intro t tMem spent consumes
      cases List.mem_singleton.mp tMem
      rcases consumes with ⟨i, iMem, -⟩ | ⟨-, i, iMem, -⟩
      · cases iMem
      · cases iMem
    refine ⟨fun held heldMem => ?_, List.IsChain.singleton _, ?_, ?_, ?_⟩
    · cases List.mem_singleton.mp heldMem
      exact ⟨List.mem_singleton_self _, rfl⟩
    · exact fun held _ t tMem _ _ consumes => absurd consumes (unspent t tMem _)
    · exact fun last _ t tMem consumes => absurd consumes (unspent t tMem _)
    · exact fun _ _ row rowMem => absurd rowMem List.not_mem_nil
  starts := by
    have minted : mintRows
        (indexChain ⟨true, true⟩ CrawlStore.empty referenceCrawled.crawler.chain) sampleReference =
          [⟨sampleReference, text "t1", .mint, 1, some 0, some 11⟩] := by
      decide +kernel
    refine Or.inl ⟨_, minted ▸ List.mem_singleton_self _, rfl, fun other otherMem => ?_⟩
    rw [minted] at otherMem
    exact (List.mem_singleton.mp otherMem) ▸ le_rfl
  hops := by decide
  newest _ _ _ := ⟨[], (referenceMint, referenceOutput), [], rfl, by decide +kernel,
    fun _ laterMem => absurd laterMem List.not_mem_nil⟩

theorem decimals_follow_chain_sample :
    StoresDecimals referenceCrawled.assets sampleToken
        (latestDecimals CrawlStore.empty referenceCrawled.crawler.chain sampleReference) ∧
      cip68Decimals referenceCrawled.crawler.db.crawl sampleToken none =
        latestDecimals CrawlStore.empty referenceCrawled.crawler.chain sampleReference := by
  have begins : DecimalsBegin ⟨true, true⟩ sampleStart CrawlStore.empty sampleToken
      sampleCatalogue := by
    refine ⟨⟨rfl, rfl, rfl, rfl, rfl⟩, ⟨trivial, ?_, ?_, ?_⟩, ?_, ?_⟩
    · exact fun b bMem => absurd bMem List.not_mem_nil
    · exact fun first firstMem => absurd firstMem List.not_mem_nil
    · exact fun t tMem => absurd tMem List.not_mem_nil
    · decide +kernel
    · decide +kernel
  have given : DecimalsGiven ⟨true, true⟩ CrawlStore.empty sampleReference
      sampleCatalogue.crawler.chain referenceCrawled.crawler.chain :=
    ⟨referenceCrawled_delivered, Or.inr ⟨_, rfl, referenceMint, List.mem_singleton_self _,
      referenceOutput, List.mem_singleton_self _, by decide +kernel, by decide +kernel⟩⟩
  have run : Relation.ReflTransGen (fun state next =>
      CatalogueStep sampleConfig sampleStart CrawlStore.empty sampleToken state next ∧
        DecimalsGiven ⟨true, true⟩ CrawlStore.empty sampleReference state.crawler.chain
          next.crawler.chain) sampleCatalogue referenceCrawled :=
    Relation.ReflTransGen.single ⟨referenceCrawled_step, given⟩
  obtain ⟨stored, found⟩ := decimals_follow_chain sampleStart_below rfl sampleToken_described
    begins run
  exact ⟨stored, found none _ _ referenceCrawled_token⟩

/-- The decimals of a block outlast its rollback. -/
theorem decimals_outlast_rollback :
    ¬ ∀ last, Relation.ReflTransGen
      (CatalogueStep sampleConfig sampleStart CrawlStore.empty sampleToken) sampleCatalogue last →
        StoresDecimals last.assets sampleToken
          (latestDecimals CrawlStore.empty last.crawler.chain sampleReference) := by
  intro follows
  have rolledBack : CatalogueStep sampleConfig sampleStart CrawlStore.empty sampleToken
      referenceCrawled
      ⟨referenceCrawled.crawler.rollBackward sampleConfig sampleStart none 0,
        referenceCrawled.assets⟩ :=
    CatalogueStep.noBlock _ _ (CrawlStep.rollBackward _ _ _ _ (Or.inl ⟨rfl, rfl⟩)) ⟨_, rfl⟩
  have run := (Relation.ReflTransGen.single referenceCrawled_step).tail rolledBack
  have stored := (follows _ run).2 (some 6)
  rw [referenceCrawled_stored] at stored
  exact absurd (stored (List.mem_singleton_self _)) (Option.some_ne_none _)

end Sample

end Odatano
