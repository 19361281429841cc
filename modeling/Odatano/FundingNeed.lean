import Mathlib.Algebra.BigOperators.Group.Finset.Piecewise
import Odatano.GroupedSums
import Odatano.ProtectedInputs
import Odatano.RequestParsers

/-!
# Funding need

What a general Plutus build asks from coin selection, and what a mint build asks for its extra
outputs, against the balance of the transaction per asset.
-/

namespace Odatano

/-- An asset as the library's `Value` tells it from others: a policy and a name in bytes. -/
inductive Asset
  | ada
  | native (policy name : List Nat)
  /-- A unit that names no policy; `Hash28` refuses it. -/
  | unnamed (unit : JsString)
deriving DecidableEq

/-- The asset under a unit in small letters.  The policy has 56 digits, and the name is decoded
up to the first pair that is not hexadecimal. -/
def assetNamed (unit : String) : Asset :=
  if unit = "lovelace" then .ada
  else if ((JsString.ofText unit).take 56).length = 56 ∧
      JsString.IsHex ((JsString.ofText unit).take 56) then
    .native (JsString.hexBytes ((JsString.ofText unit).take 56))
      (JsString.hexBytes ((JsString.ofText unit).drop 56))
  else .unnamed (JsString.ofText unit)

/-- The asset that a unit names, in whatever case its digits are. -/
def assetOf (unit : AssetUnit) : Asset := assetNamed unit.chars.toLower

theorem assetNamed_eq_ada_iff (unit : String) : assetNamed unit = .ada ↔ unit = "lovelace" := by
  unfold assetNamed
  split
  · exact iff_of_true rfl ‹_›
  · split <;> exact iff_of_false Asset.noConfusion ‹_›

theorem assetOf_lovelace : assetOf lovelace = .ada := by decide +kernel

theorem isLovelace_iff (a : Amount) : a.isLovelace = true ↔ assetOf a.unit = .ada := by
  rw [Amount.isLovelace, decide_eq_true_iff, assetOf, assetNamed_eq_ada_iff]

theorem assetOf_needUnit (a : Amount) : assetOf (needUnit a) = assetOf a.unit := by
  unfold needUnit
  split
  · rename_i isAda
    rw [assetOf_lovelace, (isLovelace_iff a).mp isAda]
  · rfl

/-- A general Plutus request as the parsers return it: no amount is negative and no listed asset
is lovelace. -/
structure ParsedPlutusRequest extends TxBuildPlutusRequest where
  lovelace_nonneg : ∀ o ∈ outputs, 0 ≤ o.lovelaceAmount
  assets_nonneg : ∀ o ∈ outputs, ∀ a ∈ o.assets, 0 ≤ a.quantity
  assets_named : ∀ o ∈ outputs, ∀ a ∈ o.assets, a.isLovelace = false
  mints_named : ∀ m ∈ mintActions, m.entry.isLovelace = false
  withdrawals_nonneg : ∀ w ∈ withdrawals, 0 ≤ w.entry
  deposits_nonneg : ∀ c ∈ certificates, 0 ≤ c.entry.deposit

theorem withdrawals_nonneg_nil : ∀ w ∈ ([] : List (ScriptedEntry Int)), 0 ≤ w.entry := nofun

theorem deposits_nonneg_nil :
    ∀ c ∈ ([] : List (ScriptedEntry StakeCertificate)), 0 ≤ c.entry.deposit := nofun

/-! ## Amounts per asset -/

/-- The amount of an asset in a list. -/
def amountOf (amounts : List Amount) (asset : Asset) : Int :=
  groupSum assetOf (amounts.map fun a => (a.unit, a.quantity)) asset

/-- What some UTxOs hold of an asset. -/
def held (utxos : List UTxO) (asset : Asset) : Int := amountOf (utxos.flatMap UTxO.amount) asset

/-- An amount of lovelace, as an amount of an asset. -/
def inAda (amount : Int) (asset : Asset) : Int := if asset = .ada then amount else 0

namespace TxBuildPlutusRequest

variable (req : TxBuildPlutusRequest)

/-- What the outputs carry. -/
def carried (asset : Asset) : Int := groupSum assetOf (outputAmounts req.outputs) asset

def minted (asset : Asset) : Int :=
  groupSum assetOf (req.mintActions.map fun m => (m.entry.unit, max 0 m.entry.quantity)) asset

def burned (asset : Asset) : Int :=
  groupSum assetOf (req.mintActions.map fun m => (m.entry.unit, max 0 (-m.entry.quantity))) asset

def withdrawn (asset : Asset) : Int := inAda (req.withdrawals.map ScriptedEntry.entry).sum asset

/-- The deposits of registrations. -/
def deposits (asset : Asset) : Int :=
  inAda (req.certificates.map fun c =>
    if c.entry.type = .registerStake then c.entry.deposit else 0).sum asset

/-- The deposits that deregistrations give back. -/
def refunds (asset : Asset) : Int :=
  inAda (req.certificates.map fun c =>
    if c.entry.type = .registerStake then 0 else c.entry.deposit).sum asset

end TxBuildPlutusRequest

theorem amountOf_append (first second : List Amount) (asset : Asset) :
    amountOf (first ++ second) asset = amountOf first asset + amountOf second asset := by
  rw [amountOf, List.map_append, groupSum_append]
  rfl

theorem held_append (first second : List UTxO) (asset : Asset) :
    held (first ++ second) asset = held first asset + held second asset := by
  rw [held, List.flatMap_append, amountOf_append]
  rfl

/-- What UTxOs bring is taken off the need. -/
theorem groupSum_spent (utxos : List UTxO) (asset : Asset) :
    groupSum assetOf (utxos.flatMap fun u => u.amount.map fun a => (needUnit a, -a.quantity))
      asset = -held utxos asset := by
  have single (amounts : List Amount) :
      groupSum assetOf (amounts.map fun a => (needUnit a, -a.quantity)) asset =
        -amountOf amounts asset := by
    induction amounts with
    | nil => rfl
    | cons a amounts ih =>
        simp only [groupSum, amountOf, List.map_cons, List.sum_cons, List.map_map] at ih ⊢
        rw [ih, assetOf_needUnit]
        split <;> omega
  induction utxos with
  | nil => rfl
  | cons u utxos ih =>
      rw [List.flatMap_cons, groupSum_append, ih, single, held, held, List.flatMap_cons,
        amountOf_append]
      omega

namespace TxBuildPlutusRequest

variable (req : TxBuildPlutusRequest) (scripts forced : List UTxO)

end TxBuildPlutusRequest

/-! ## The value asked from coin selection -/

/-- What a value holds of an asset. -/
def LedgerValue.quantityOf (value : LedgerValue) (asset : Asset) : Int :=
  if asset = .ada then value.lovelaces else amountOf value.assets asset

namespace TxBuildPlutusRequest

variable (req : TxBuildPlutusRequest) (scripts forced : List UTxO)

/-- What a balanced transaction has left over, for its change. -/
def change (selected : List UTxO) (fee : Int) (asset : Asset) : Int :=
  held (scripts ++ forced ++ selected) asset + req.minted asset + req.withdrawn asset +
    req.refunds asset - req.carried asset - req.burned asset - req.deposits asset - inAda fee asset

end TxBuildPlutusRequest

namespace ParsedPlutusRequest

variable (req : ParsedPlutusRequest) (scripts forced : List UTxO)

end ParsedPlutusRequest

/-! ## Extra outputs of a mint -/

section ExtraFunding

variable (mintActions : List Amount) (extraOutputs : List RequestedOutput)

end ExtraFunding

/-! ## Main result -/

end Odatano
