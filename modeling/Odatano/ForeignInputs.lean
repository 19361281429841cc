import Odatano.FundingNeed

/-!
# Foreign forced inputs

Forced inputs at other addresses than the sender's are checked before a general Plutus build.
In the balanced transaction nothing of theirs reaches the change.
-/

namespace Odatano

variable {Contents : Type}

/-- The forced inputs at other addresses than the sender's. -/
def foreignInputs (forced : List UTxO) (senderAddress : String) : List UTxO :=
  forced.filter fun u => decide (u.address.toLower ≠ senderAddress.toLower)

/-- The forced inputs at the sender's address. -/
def senderInputs (forced : List UTxO) (senderAddress : String) : List UTxO :=
  forced.filter fun u => !decide (u.address.toLower ≠ senderAddress.toLower)

theorem held_partition (forced : List UTxO) (senderAddress : String) (asset : Asset) :
    held forced asset =
      held (foreignInputs forced senderAddress) asset +
        held (senderInputs forced senderAddress) asset := by
  induction forced with
  | nil => rfl
  | cons u forced ih =>
      have added (utxos : List UTxO) :
          held (u :: utxos) asset = held [u] asset + held utxos asset := held_append [u] utxos asset
      unfold foreignInputs senderInputs at ih ⊢
      by_cases foreign : u.address.toLower ≠ senderAddress.toLower
      · rw [added forced, ih, List.filter_cons, if_pos (decide_eq_true foreign), List.filter_cons,
          if_neg (by simp [foreign]), added (forced.filter _)]
        omega
      · rw [added forced, ih, List.filter_cons, if_neg (by simpa using foreign), List.filter_cons,
          if_pos (by simpa using foreign), added (forced.filter _)]
        omega

/-- What the foreign inputs bring, each amount under its unit. -/
def broughtAmounts (foreign : List UTxO) : List (AssetUnit × Int) :=
  foreign.flatMap fun u => u.amount.map fun a => (needUnit a, a.quantity)

theorem groupSum_broughtAmounts (foreign : List UTxO) (asset : Asset) :
    groupSum assetOf (broughtAmounts foreign) asset = held foreign asset := by
  have negated := groupSum_spent foreign asset
  have turned (entries : List (AssetUnit × Int)) :
      groupSum assetOf (entries.map fun entry => (entry.1, -entry.2)) asset =
        -groupSum assetOf entries asset := by
    induction entries with
    | nil => rfl
    | cons entry entries ih =>
        simp only [groupSum, List.map_cons, List.sum_cons] at ih ⊢
        rw [ih]
        split <;> omega
  have same : (foreign.flatMap fun u => u.amount.map fun a => (needUnit a, -a.quantity)) =
      (broughtAmounts foreign).map fun entry => (entry.1, -entry.2) := by
    rw [broughtAmounts, List.map_flatMap]
    simp only [List.map_map]
    rfl
  rw [same, turned] at negated
  omega

/-! ## The check -/

section Check

variable (lib : Buildooor Contents) {forced : List UTxO} {req : TxBuildPlutusRequest}

/-- What the check accepts is signed for and spent unit by unit. -/
theorem checkForeignForcedInputs_accepts
    (accepts : checkForeignForcedInputs lib forced req = .ok ()) :
    (∀ u ∈ foreignInputs forced req.senderAddress, ∃ hash,
      lib.paymentKeyHash u.address = some hash ∧
        hash.toLower ∈ req.requiredSigners.map String.toLower) ∧
    ∀ unit ∈ keysOf (broughtAmounts (foreignInputs forced req.senderAddress)),
      keySum (broughtAmounts (foreignInputs forced req.senderAddress)) unit ≤
        keySum (outputAmounts req.outputs) unit := by
  simp only [checkForeignForcedInputs] at accepts
  split at accepts
  · cases accepts
  · rename_i signed
    split at accepts
    · cases accepts
    · rename_i spent
      constructor
      · intro u member
        have unrefused := List.findSome?_eq_none_iff.mp signed u.address
          (mem_distinct.mpr (List.mem_map_of_mem member))
        simp only [foreignAddressRefusal] at unrefused
        split at unrefused
        · cases unrefused
        · rename_i hash isKey
          split at unrefused
          · rename_i listed
            exact ⟨hash, isKey, listed⟩
          · cases unrefused
      · intro unit listed
        have within := List.find?_eq_none.mp spent _ (exists_row_of_mem_keysOf listed)
        rw [decide_eq_true_iff, not_lt] at within
        rw [← getD_get?_sumByKey (outputAmounts req.outputs)]
        exact within

end Check

theorem outputAmounts_nonneg (req : ParsedPlutusRequest) :
    ∀ entry ∈ outputAmounts req.outputs, 0 ≤ entry.2 := by
  intro entry member
  obtain ⟨o, isOutput, listed⟩ := List.mem_flatMap.mp member
  rcases List.mem_cons.mp listed with rfl | asset
  · exact req.lovelace_nonneg o isOutput
  · obtain ⟨a, isAsset, rfl⟩ := List.mem_map.mp asset
    exact req.assets_nonneg o isOutput a isAsset

/-- The outputs carry at least what accepted foreign inputs bring. -/
theorem held_foreignInputs_le (lib : Buildooor Contents) {forced : List UTxO}
    {req : ParsedPlutusRequest}
    (accepts : checkForeignForcedInputs lib forced req.toTxBuildPlutusRequest = .ok ())
    (asset : Asset) :
    held (foreignInputs forced req.senderAddress) asset ≤ req.carried asset := by
  rw [← groupSum_broughtAmounts]
  exact groupSum_le_of_keySum_le (outputAmounts_nonneg req)
    (checkForeignForcedInputs_accepts lib accepts).2 asset

/-! ## The balanced transaction -/

/-- A built transaction, which the builder balances per asset. -/
structure BalancedTx (req : TxBuildPlutusRequest) (scripts forced : List UTxO) where
  /-- The sender's UTxOs that coin selection adds. -/
  selected : List UTxO
  fee : Nat
  change : Asset → Int
  balanced (asset : Asset) :
    held (scripts ++ forced ++ selected) asset + req.minted asset + req.withdrawn asset +
        req.refunds asset =
      req.carried asset + change asset + req.burned asset + req.deposits asset + inAda fee asset

/-- What the sender brings of an asset: inputs of its own, script inputs, mints, withdrawals and
refunded deposits. -/
def BalancedTx.brought {req : TxBuildPlutusRequest} {scripts forced : List UTxO}
    (tx : BalancedTx req scripts forced) (asset : Asset) : Int :=
  held (senderInputs forced req.senderAddress ++ tx.selected) asset + held scripts asset +
    req.minted asset + req.withdrawn asset + req.refunds asset

theorem TxBuildPlutusRequest.burned_nonneg (req : TxBuildPlutusRequest) (asset : Asset) :
    0 ≤ req.burned asset := by
  refine List.sum_nonneg fun value member => ?_
  obtain ⟨entry, listed, rfl⟩ := List.mem_map.mp member
  obtain ⟨m, -, rfl⟩ := List.mem_map.mp listed
  split
  · exact le_max_left 0 _
  · exact le_refl 0

theorem ParsedPlutusRequest.deposits_nonneg_of (req : ParsedPlutusRequest) (asset : Asset) :
    0 ≤ req.deposits asset := by
  unfold TxBuildPlutusRequest.deposits inAda
  split
  · refine List.sum_nonneg fun value member => ?_
    obtain ⟨c, listed, rfl⟩ := List.mem_map.mp member
    split
    · exact req.deposits_nonneg c listed
    · exact le_refl 0
  · exact le_refl 0

/-- In a balanced transaction whose outputs carry the foreign inputs, the change is the sender's. -/
theorem BalancedTx.change_le_brought {req : ParsedPlutusRequest} {scripts forced : List UTxO}
    (tx : BalancedTx req.toTxBuildPlutusRequest scripts forced) {asset : Asset}
    (carries : held (foreignInputs forced req.senderAddress) asset ≤ req.carried asset) :
    tx.change asset ≤ tx.brought asset := by
  have balanced := tx.balanced asset
  have burned := req.burned_nonneg asset
  have deposits := req.deposits_nonneg_of asset
  have fee : 0 ≤ inAda tx.fee asset := by
    unfold inAda
    split
    · exact Int.natCast_nonneg tx.fee
    · exact le_refl 0
  rw [held_append, held_append, held_partition forced req.senderAddress] at balanced
  unfold BalancedTx.brought
  rw [held_append]
  omega

/-! ## Main result -/

/-- Foreign forced inputs never enrich the sender. -/
structure ForeignInputsSafe (lib : Buildooor Contents) (req : ParsedPlutusRequest)
    (forced : List UTxO) : Prop where
  signed (accepts : checkForeignForcedInputs lib forced req.toTxBuildPlutusRequest = .ok ()) :
    ∀ u ∈ forced, u.address.toLower ≠ req.senderAddress.toLower → ∃ hash,
      lib.paymentKeyHash u.address = some hash ∧
        hash.toLower ∈ req.requiredSigners.map String.toLower
  kept (accepts : checkForeignForcedInputs lib forced req.toTxBuildPlutusRequest = .ok ())
    (scripts : List UTxO) (tx : BalancedTx req.toTxBuildPlutusRequest scripts forced)
    (asset : Asset) : tx.change asset ≤ tx.brought asset
  refused (asset : Asset)
    (more : req.carried asset < held (foreignInputs forced req.senderAddress) asset) :
    ∃ error, checkForeignForcedInputs lib forced req.toTxBuildPlutusRequest = .error error

theorem foreignInputs_never_enrich (lib : Buildooor Contents) (req : ParsedPlutusRequest)
    (forced : List UTxO) : ForeignInputsSafe lib req forced where
  signed := by
    intro accepts u member foreign
    exact (checkForeignForcedInputs_accepts lib accepts).1 u
      (List.mem_filter.mpr ⟨member, decide_eq_true foreign⟩)
  kept := by
    intro accepts scripts tx asset
    exact tx.change_le_brought (held_foreignInputs_le lib accepts asset)
  refused := by
    intro asset more
    cases checked : checkForeignForcedInputs lib forced req.toTxBuildPlutusRequest with
    | error error => exact ⟨error, rfl⟩
    | ok => exact absurd (held_foreignInputs_le lib checked asset) (not_le.mpr more)

section Sample

/-- A library that reads every address as a key address of one owner. -/
def ownerBuildooor : Buildooor Unit := { greedyBuildooor with paymentKeyHash := fun _ => some "0A" }

/-- An output of five ada back to the owner, who signs. -/
def ownerReturn : ParsedPlutusRequest where
  senderAddress := "sender"
  requiredSigners := ["0a"]
  scriptInputs := []
  outputs := [⟨5000000, []⟩]
  mintActions := []
  withdrawals := []
  certificates := []
  forceInputs := [⟨"aa", 0⟩]
  protectInputs := []
  referenceInputs := []
  lovelace_nonneg := by decide
  assets_nonneg := by decide
  assets_named := by decide
  mints_named := nofun
  withdrawals_nonneg := withdrawals_nonneg_nil
  deposits_nonneg := deposits_nonneg_nil

def ownerTx : BalancedTx ownerReturn.toTxBuildPlutusRequest [] [adaUtxo "aa" "owner" 5000000] where
  selected := [adaUtxo "bb" "sender" 3000000]
  fee := 200000
  change := inAda 2800000
  balanced := by
    intro asset
    by_cases isAda : asset = .ada
    · rw [isAda]
      decide +kernel
    · have other : ¬assetOf lovelace = asset := fun same => isAda (same.symm.trans assetOf_lovelace)
      simp [held, amountOf, groupSum, TxBuildPlutusRequest.minted, TxBuildPlutusRequest.withdrawn,
        TxBuildPlutusRequest.refunds, TxBuildPlutusRequest.carried, TxBuildPlutusRequest.burned,
        TxBuildPlutusRequest.deposits, inAda, isAda, other, adaUtxo, outputAmounts, ownerReturn]

/-- The owner's five ada go back, and the change stays below the sender's three. -/
theorem foreignInputs_never_enrich_owner :
    checkForeignForcedInputs ownerBuildooor [adaUtxo "aa" "owner" 5000000]
      ownerReturn.toTxBuildPlutusRequest = .ok () ∧ ownerTx.change .ada ≤ ownerTx.brought .ada :=
  ⟨by decide +kernel,
    (foreignInputs_never_enrich ownerBuildooor ownerReturn _).kept (by decide +kernel) [] ownerTx .ada⟩

end Sample

end Odatano
