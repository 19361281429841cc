import Odatano.LedgerUndo

/-!
# What the running sums must equal

The open outputs of an address or a stake key, the sums over them, and the
agreement of the stored sums with them.  The stake-key sums follow from the
address sums, because every open output is owned by an address row.
-/

namespace Odatano

open LedgerState

namespace LedgerDb

/-! ## Stored sums, a missing row read as zero -/

def totalLovelace (db : LedgerDb) (address : Address) : Int :=
  db.addresses.contribution LedgerAddressRow.totalLovelace address

def utxoCount (db : LedgerDb) (address : Address) : Int :=
  db.addresses.contribution LedgerAddressRow.utxoCount address

def assetQuantity (db : LedgerDb) (address : Address) (unit : AssetUnit) : Int :=
  db.addressAssets.contribution (fun row => row.asset.quantity) (address, unit)

def controlledAmount (db : LedgerDb) (stake : StakeAddress) : Int :=
  db.accounts.contribution LedgerAccountRow.controlledAmount stake

def accountUtxoCount (db : LedgerDb) (stake : StakeAddress) : Int :=
  db.accounts.contribution LedgerAccountRow.utxoCount stake

def addressCount (db : LedgerDb) (stake : StakeAddress) : Int :=
  db.accounts.contribution LedgerAccountRow.addressCount stake

/-! ## Sums over the rows they summarize -/

/-- A quantity summed over the open outputs of an address. -/
def openSum (db : LedgerDb) (address : Address) (quantity : LedgerUtxoRow → Int) : Int :=
  ((db.utxos.select fun row => row.openAt address).map quantity).sum

/-- A quantity summed over the open outputs of a stake key. -/
def openStakeSum (db : LedgerDb) (stake : StakeAddress) (quantity : LedgerUtxoRow → Int) :
    Int :=
  ((db.utxos.select fun row =>
    decide (row.stakeAddress = some stake) && row.spentTxHash.isNone).map quantity).sum

/-- The quantity of an asset an output holds. -/
def holding (db : LedgerDb) (unit : AssetUnit) (row : LedgerUtxoRow) : Int :=
  db.utxoAssets.contribution (fun a => a.asset.quantity) (row.outpoint, unit)

/-- A quantity summed over the address rows of a stake key. -/
def stakeSum (db : LedgerDb) (stake : StakeAddress) (quantity : LedgerAddressRow → Int) :
    Int :=
  db.addresses.sum fun row => if row.stakeAddress = some stake then quantity row else 0

/-- The address rows of a stake key. -/
def addressRowsOf (db : LedgerDb) (stake : StakeAddress) : List LedgerAddressRow :=
  db.addresses.select fun row => decide (row.stakeAddress = some stake)

/-- Every stored sum equals the sum over the open outputs it summarizes. -/
structure SumsAgree (db : LedgerDb) : Prop where
  totalLovelace : ∀ address,
    db.totalLovelace address = db.openSum address LedgerUtxoRow.lovelace
  utxoCount : ∀ address, db.utxoCount address = db.openSum address fun _ => 1
  assetQuantity : ∀ address unit,
    db.assetQuantity address unit = db.openSum address (db.holding unit)
  controlledAmount : ∀ stake,
    db.controlledAmount stake = db.openStakeSum stake LedgerUtxoRow.lovelace
  accountUtxoCount : ∀ stake, db.accountUtxoCount stake = db.openStakeSum stake fun _ => 1
  addressCount : ∀ stake, db.addressCount stake = (db.addressRowsOf stake).length

/-- The sums of an address agree with its open outputs. -/
structure AddressAgrees (db : LedgerDb) (address : Address) : Prop where
  totalLovelace : db.totalLovelace address = db.openSum address LedgerUtxoRow.lovelace
  utxoCount : db.utxoCount address = db.openSum address fun _ => 1
  assetQuantity : ∀ unit,
    db.assetQuantity address unit = db.openSum address (db.holding unit)

/-- The sums of a stake key agree with its address rows. -/
structure AccountAgrees (db : LedgerDb) (stake : StakeAddress) : Prop where
  controlledAmount :
    db.controlledAmount stake = db.stakeSum stake LedgerAddressRow.totalLovelace
  accountUtxoCount :
    db.accountUtxoCount stake = db.stakeSum stake LedgerAddressRow.utxoCount
  addressCount : db.addressCount stake = db.stakeSum stake fun _ => 1

def AddressesAgree (db : LedgerDb) : Prop := ∀ address, db.AddressAgrees address

def AccountsAgree (db : LedgerDb) : Prop := ∀ stake, db.AccountAgrees stake

section WellFormed

variable [Bech32]

/-- The output and asset rows are ones the row builder wrote, some of them
marked as spent since. -/
structure RowsBuilt (db : LedgerDb) : Prop where
  ownerDecoded : ∀ row ∈ db.utxos.rows, row.OwnerDecoded
  unspent : ∀ row ∈ db.utxos.rows, row.spentTxHash = none → row.spentSlot = none
  assetOwned : ∀ a ∈ db.utxoAssets.rows,
    ∃ row ∈ db.utxos.rows, row.outpoint = a.utxo ∧ row.hasAssets = true

/-- The address rows carry the stake key their address decodes to. -/
def StakesDecoded (db : LedgerDb) : Prop :=
  ∀ row ∈ db.addresses.rows,
    row.stakeAddress = (decodeShelleyAddress row.address).stakeAddress

end WellFormed

/-! ## Sums as sums over all rows -/

theorem openSum_eq (db : LedgerDb) (address : Address) (quantity : LedgerUtxoRow → Int) :
    db.openSum address quantity =
      db.utxos.sum fun row => if row.openAt address then quantity row else 0 :=
  Table.sum_select _ _ _

theorem openStakeSum_eq (db : LedgerDb) (stake : StakeAddress)
    (quantity : LedgerUtxoRow → Int) :
    db.openStakeSum stake quantity = db.utxos.sum fun row =>
      if row.stakeAddress = some stake ∧ row.spentTxHash = none then quantity row else 0 := by
  rw [openStakeSum, Table.sum_select]
  apply Table.sum_congr
  intro row _
  simp only [Bool.and_eq_true, decide_eq_true_eq, Option.isNone_iff_eq_none]

theorem stakeSum_eq (db : LedgerDb) (stake : StakeAddress)
    (quantity : LedgerAddressRow → Int) :
    db.stakeSum stake quantity = ((db.addressRowsOf stake).map quantity).sum := by
  rw [addressRowsOf, Table.sum_select, stakeSum]
  simp only [decide_eq_true_eq]

theorem length_addressRowsOf (db : LedgerDb) (stake : StakeAddress) :
    ((db.addressRowsOf stake).length : Int) = db.stakeSum stake fun _ => 1 := by
  rw [stakeSum_eq]
  simp

/-- What the open outputs at an address hold of an asset is the sum over the
asset rows those outputs own. -/
theorem openSum_holding (db : LedgerDb) (address : Address) (unit : AssetUnit) :
    db.openSum address (db.holding unit) = db.utxoAssets.sum fun a =>
      if a.unit = unit ∧ ((db.utxos.find? a.utxo).any fun row => row.openAt address) then
        a.asset.quantity
      else 0 := by
  calc
    db.openSum address (db.holding unit) = db.utxos.sum fun row => db.utxoAssets.sum fun a =>
        if a.utxo = row.outpoint then
          if a.unit = unit ∧ row.openAt address = true then a.asset.quantity else 0
        else 0 := by
      rw [openSum_eq]
      apply Table.sum_congr
      intro row _
      by_cases isOpen : row.openAt address = true
      · rw [if_pos isOpen, holding, Table.contribution_eq_sum]
        apply Table.sum_congr
        intro a _
        simp only [LedgerUtxoAssetRow.key, Prod.mk.injEq, isOpen, and_true, ite_and]
      · simp [isOpen, Table.sum]
    _ = db.utxoAssets.sum fun a => db.utxos.contribution
          (fun row => if a.unit = unit ∧ row.openAt address = true then a.asset.quantity else 0)
          a.utxo :=
      Table.sum_owned db.utxos db.utxoAssets LedgerUtxoAssetRow.utxo _
    _ = _ := by
      apply Table.sum_congr
      intro a _
      cases found : db.utxos.find? a.utxo <;> simp [Table.contribution, found]

/-! ## Stake-key sums from address sums -/

/-- An address with an open output has a row. -/
theorem AddressesAgree.owned {db : LedgerDb} (agree : db.AddressesAgree)
    {row : LedgerUtxoRow} (rowMem : row ∈ db.utxos.rows) (isOpen : row.spentTxHash = none) :
    (db.addresses.find? row.address).isSome := by
  have rowOpen : row ∈ db.utxos.select fun other => other.openAt row.address := by
    simp [rowMem, LedgerUtxoRow.openAt, isOpen]
  have counted : db.openSum row.address (fun _ => 1) ≠ 0 := by
    have nonempty := List.length_pos_of_mem rowOpen
    simp only [openSum, List.map_const', List.sum_replicate]
    simpa using List.ne_nil_of_mem rowOpen
  rw [← (agree row.address).utxoCount] at counted
  cases found : db.addresses.find? row.address with
  | none => simp [LedgerDb.utxoCount, Table.contribution, found] at counted
  | some _ => rfl

variable [Bech32]

/-- Adding up the address sums of a stake key adds up its open outputs. -/
theorem stakeSum_eq_openStakeSum {db : LedgerDb} (built : db.RowsBuilt)
    (decoded : db.StakesDecoded)
    (owned : ∀ row ∈ db.utxos.rows, row.spentTxHash = none →
      (db.addresses.find? row.address).isSome)
    {total : LedgerAddressRow → Int} {quantity : LedgerUtxoRow → Int}
    (agree : ∀ row ∈ db.addresses.rows, total row = db.openSum row.address quantity)
    (stake : StakeAddress) :
    db.stakeSum stake total = db.openStakeSum stake quantity := by
  calc
    db.stakeSum stake total = db.addresses.sum fun owner => db.utxos.sum fun row =>
        if row.address = owner.address then
          if owner.stakeAddress = some stake ∧ row.spentTxHash = none then quantity row else 0
        else 0 := by
      apply Table.sum_congr
      intro owner ownerMem
      by_cases ofStake : owner.stakeAddress = some stake
      · rw [if_pos ofStake, agree owner ownerMem, openSum_eq]
        apply Table.sum_congr
        intro row _
        simp [LedgerUtxoRow.openAt, ofStake, ite_and]
      · simp [ofStake, Table.sum]
    _ = db.utxos.sum fun row => db.addresses.contribution
          (fun owner =>
            if owner.stakeAddress = some stake ∧ row.spentTxHash = none then quantity row else 0)
          row.address :=
      Table.sum_owned db.addresses db.utxos LedgerUtxoRow.address _
    _ = db.openStakeSum stake quantity := by
      rw [openStakeSum_eq]
      apply Table.sum_congr
      intro row rowMem
      by_cases isOpen : row.spentTxHash = none
      · obtain ⟨owner, found⟩ := Option.isSome_iff_exists.mp (owned row rowMem isOpen)
        have sameStake : owner.stakeAddress = row.stakeAddress := by
          rw [decoded owner (Table.mem_of_find? found), Table.key_of_find? found,
            (built.ownerDecoded row rowMem).stakeAddress]
        simp [Table.contribution, found, sameStake]
      · cases found : db.addresses.find? row.address <;>
          simp [Table.contribution, found, isOpen]

/-- Agreement of the address sums and of the account sums is agreement of all
stored sums. -/
theorem SumsAgree.of_addresses_accounts {db : LedgerDb} (built : db.RowsBuilt)
    (decoded : db.StakesDecoded) (addresses : db.AddressesAgree)
    (accounts : db.AccountsAgree) : db.SumsAgree where
  totalLovelace := fun address => (addresses address).totalLovelace
  utxoCount := fun address => (addresses address).utxoCount
  assetQuantity := fun address => (addresses address).assetQuantity
  controlledAmount := by
    intro stake
    rw [(accounts stake).controlledAmount]
    apply stakeSum_eq_openStakeSum built decoded fun row rowMem => addresses.owned rowMem
    intro row rowMem
    rw [← (addresses row.address).totalLovelace, LedgerDb.totalLovelace, Table.contribution,
      Table.find?_of_mem rowMem]
    rfl
  accountUtxoCount := by
    intro stake
    rw [(accounts stake).accountUtxoCount]
    apply stakeSum_eq_openStakeSum built decoded fun row rowMem => addresses.owned rowMem
    intro row rowMem
    rw [← (addresses row.address).utxoCount, LedgerDb.utxoCount, Table.contribution,
      Table.find?_of_mem rowMem]
    rfl
  addressCount := by
    intro stake
    rw [(accounts stake).addressCount, length_addressRowsOf]

/-- The invariant every ledger operation keeps. -/
structure Consistent (db : LedgerDb) : Prop where
  rowsBuilt : db.RowsBuilt
  stakesDecoded : db.StakesDecoded
  addressesAgree : db.AddressesAgree
  accountsAgree : db.AccountsAgree

theorem Consistent.sumsAgree {db : LedgerDb} (consistent : db.Consistent) : db.SumsAgree :=
  SumsAgree.of_addresses_accounts consistent.rowsBuilt consistent.stakesDecoded
    consistent.addressesAgree consistent.accountsAgree

end LedgerDb

end Odatano
