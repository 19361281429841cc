import Odatano.PatchedDatums
import Odatano.ProtectedInputs
import Odatano.ScriptBuilds

/-!
# Script fees

Whether the fee of a script transaction covers what it finally carries: its bytes with the key
witnesses, the units stamped into it and its reference scripts.
-/

namespace Odatano

open DatumPackages LedgerPackages

/-! ## Prices -/

theorem le_ceilDiv_mul (a : Nat) {b : Nat} (positive : 0 < b) : a ≤ ceilDiv a b * b := by
  have above := Nat.lt_mul_div_succ (a + b - 1) positive
  rw [← ceilDiv, Nat.mul_add, Nat.mul_one, Nat.mul_comm] at above
  omega

theorem ceilDiv_le {a b count : Nat} (positive : 0 < b) (within : a ≤ count * b) :
    ceilDiv a b ≤ count := by
  apply Nat.lt_succ_iff.mp
  apply Nat.div_lt_of_lt_mul
  rw [Nat.mul_comm, Nat.succ_mul]
  omega

/-- What exceeds a quantity, rounded up by itself, pays for the larger one. -/
theorem ceilDiv_le_add {a b whole den : Nat} (positive : 0 < den) (within : whole ≤ a + b) :
    ceilDiv whole den ≤ ceilDiv a den + ceilDiv b den := by
  apply ceilDiv_le positive
  rw [Nat.add_mul]
  have first := le_ceilDiv_mul a positive
  have second := le_ceilDiv_mul b positive
  omega

theorem unitsPrice_le_add (prices : FeePrices) {own excess whole : ExUnits}
    (mem : whole.mem ≤ own.mem + excess.mem) (cpu : whole.cpu ≤ own.cpu + excess.cpu) :
    unitsPrice prices whole ≤ unitsPrice prices own + unitsPrice prices excess := by
  have memPrice := ceilDiv_le_add prices.priceMemory.den_pos
    (Nat.add_mul _ _ prices.priceMemory.num ▸ Nat.mul_le_mul_right prices.priceMemory.num mem)
  have cpuPrice := ceilDiv_le_add prices.priceSteps.den_pos
    (Nat.add_mul _ _ prices.priceSteps.num ▸ Nat.mul_le_mul_right prices.priceSteps.num cpu)
  simp only [unitsPrice]
  omega

/-- The units of redeemers, added up. -/
def localUnits (rdmrs : List BuiltRedeemer) : ExUnits :=
  totalUnits (rdmrs.map BuiltRedeemer.execUnits)

/-- The least fee of a transaction: its size with the key witnesses, its execution units and its
reference scripts. -/
def minimumFee (prices : FeePrices) (tx : BuiltTx) : Nat :=
  prices.txFeePerByte * (tx.bytes.toCbor.length + tx.keyWitnessBytes) + prices.txFeeFixed +
    unitsPrice prices (localUnits tx.redeemers) + tx.referenceScriptFee

/-- Bytes that other units add to redeemers, negative when they are shorter. -/
def unitsGrowth (rdmrs : List BuiltRedeemer) (targets : List ExUnits) : Int :=
  (List.zipWith (fun (r : BuiltRedeemer) (target : ExUnits) =>
    ((cborUIntLength target.mem : Int) - cborUIntLength r.execUnits.mem) +
      ((cborUIntLength target.cpu : Int) - cborUIntLength r.execUnits.cpu)) rdmrs targets).sum

/-- The size the fee floor reckons with is at least the size the units gain. -/
theorem unitsGrowth_le (rdmrs : List BuiltRedeemer) (targets : List ExUnits) :
    unitsGrowth rdmrs targets ≤ exUnitsSizeDelta rdmrs targets := by
  induction rdmrs generalizing targets with
  | nil => exact Int.le_refl 0
  | cons r rdmrs ih =>
      cases targets with
      | nil => exact Int.le_refl 0
      | cons target targets =>
          have rest := ih targets
          simp only [unitsGrowth, exUnitsSizeDelta, List.zipWith_cons_cons, List.sum_cons] at rest ⊢
          omega

/-- Targets are at most the redeemers' own units and what exceeds them. -/
theorem totalUnits_le (rdmrs : List BuiltRedeemer) {targets : List ExUnits}
    (same : targets.length = rdmrs.length) :
    (totalUnits targets).mem ≤ (localUnits rdmrs).mem +
        (totalUnits (List.zipWith excessUnits rdmrs targets)).mem ∧
      (totalUnits targets).cpu ≤ (localUnits rdmrs).cpu +
        (totalUnits (List.zipWith excessUnits rdmrs targets)).cpu := by
  induction rdmrs generalizing targets with
  | nil =>
      cases List.length_eq_zero_iff.mp same
      exact ⟨Nat.le_refl 0, Nat.le_refl 0⟩
  | cons r rdmrs ih =>
      cases targets with
      | nil => cases same
      | cons target targets =>
          have rest := ih (Nat.succ.inj same)
          simp only [totalUnits, localUnits, List.zipWith_cons_cons, List.map_cons, List.sum_cons,
            excessUnits] at rest ⊢
          omega

/-- The price delta pays for stamping the targets into the redeemers they were computed for. -/
theorem unitsPrice_le_exUnitsPriceDelta (prices : FeePrices) (rdmrs : List BuiltRedeemer)
    {targets : List ExUnits} (same : targets.length = rdmrs.length) :
    unitsPrice prices (totalUnits targets) ≤
      unitsPrice prices (localUnits rdmrs) + exUnitsPriceDelta prices rdmrs targets := by
  obtain ⟨mem, cpu⟩ := totalUnits_le rdmrs same
  unfold exUnitsPriceDelta
  dsimp only
  split
  · rename_i nothing
    have free : unitsPrice prices ⟨0, 0⟩ = 0 := by
      simp [unitsPrice, ceilDiv, Nat.div_eq_of_lt (Nat.sub_lt prices.priceMemory.den_pos one_pos),
        Nat.div_eq_of_lt (Nat.sub_lt prices.priceSteps.den_pos one_pos)]
    have paid := @unitsPrice_le_add prices (localUnits rdmrs) ⟨0, 0⟩ (totalUnits targets)
      (nothing.1 ▸ mem) (nothing.2 ▸ cpu)
    omega
  · exact unitsPrice_le_add prices mem cpu

theorem datumsGrowth_eq_ok {growth : Option Int} {bytes : Int}
    (readable : datumsGrowth growth = .ok bytes) : growth.getD 0 = bytes := by
  cases growth with
  | none => cases readable
  | some _ => exact Except.ok.inj readable

theorem length_of_mapM_eq_ok {α β : Type} {f : α → Except String β} {values : List α}
    {results : List β} (mapped : values.mapM f = .ok results) : results.length = values.length := by
  induction values generalizing results with
  | nil =>
      cases mapped
      rfl
  | cons value values ih =>
      rw [List.mapM_cons] at mapped
      obtain ⟨result, -, rest⟩ := bind_eq_ok.mp mapped
      obtain ⟨others, isOthers, same⟩ := bind_eq_ok.mp rest
      cases same
      rw [List.length_cons, List.length_cons, ih isOthers]

theorem zipWith_right {α β : Type} {firsts : List α} {seconds : List β}
    (same : seconds.length = firsts.length) : List.zipWith (fun _ second => second) firsts seconds =
      seconds := by
  induction firsts generalizing seconds with
  | nil => rw [List.length_eq_zero_iff.mp same, List.zipWith_nil_left]
  | cons value firsts ih =>
      cases seconds with
      | nil => cases same
      | cons other seconds => rw [List.zipWith_cons_cons, ih (Nat.succ.inj same)]

/-! ## Builds -/

/-- A script transaction to build: what the packages do and what the caller gave. -/
structure ScriptBuild where
  prices : FeePrices
  languageViews : BuiltTx → Bytes
  /-- Buildooor, which takes a fee to stay at or above. -/
  build : Option Nat → Option Pass
  evaluator : Option (Bytes → EvaluatorAnswer)
  callerDatums : OrderedMap Nat Bytes
  witnessDatums : List Bytes

namespace ScriptBuild

section Main

variable [DatumPackages] [LedgerPackages BuiltTx] (b : ScriptBuild)

def returned : Except String BuiltTx :=
  buildScriptTx b.prices b.languageViews b.build b.evaluator b.callerDatums b.witnessDatums

/-- A build with a fee keeps to it, and to the least fee of what it built. -/
def Settles : Prop :=
  ∀ fee pass, b.build (some fee) = some pass →
    fee ≤ pass.tx.fee ∧ minimumFee b.prices pass.tx ≤ pass.tx.fee

/-- The budgets that the evaluator gives for the first pass. -/
def evaluatedUnits (first : Pass) : Except String (Option EvaluatedUnits) :=
  evaluatedUnitsOf b.evaluator first.tx

/-- The units wanted for the redeemers of a pass, with the budgets of the first one. -/
def targets (first pass : Pass) : List ExUnits :=
  ((b.evaluatedUnits first >>= resolveTargetExUnits pass).toOption).getD []

/-- Bytes that the caller's datums are expected to add. -/
def expectedGrowth : Nat :=
  ((callerDatumsGrowth b.callerDatums).getD 0 + (witnessDatumsGrowth b.witnessDatums).getD 0).toNat

/-- What the second build's fee floor holds beyond the first build's fee. -/
def reserve (first : Pass) : Nat :=
  exUnitsPriceDelta b.prices first.tx.redeemers (b.targets first first) +
    exUnitsSizeDelta first.tx.redeemers (b.targets first first) * b.prices.txFeePerByte +
    b.expectedGrowth * b.prices.txFeePerByte + 10 * b.prices.txFeePerByte

/-- The second pass with its units stamped. -/
def stamped (first second : Pass) : BuiltTx :=
  stampExecUnits b.languageViews second.tx (b.targets first second)

/-- Bytes that the caller's datums really add. -/
def datumGrowth (first second : Pass) : Int :=
  callerGrowth (b.stamped first second).bytes b.callerDatums +
    witnessGrowth ((writeCallerDatums (b.stamped first second).bytes b.callerDatums).toOption.getD
      (b.stamped first second).bytes) b.witnessDatums

/-- Re-encoding a pass with other units changes the units' integers only. -/
def Restamps (first second : Pass) : Prop :=
  ((b.stamped first second).bytes.toCbor.length : Int) =
    second.tx.bytes.toCbor.length + unitsGrowth second.tx.redeemers (b.targets first second)

/-- By how much the least fee rises when the second pass is stamped and given its datums. -/
def stampCost (first second : Pass) : Int :=
  b.prices.txFeePerByte * (unitsGrowth second.tx.redeemers (b.targets first second) +
      b.datumGrowth first second) +
    (unitsPrice b.prices (totalUnits (b.targets first second)) -
      unitsPrice b.prices (localUnits second.tx.redeemers))

/-- The fee floor pays for the second pass as it leaves, or leaving costs nothing. -/
def Reserved (first second : Pass) : Prop :=
  (minimumFee b.prices second.tx : Int) + b.stampCost first second ≤
      first.tx.fee + b.reserve first ∨
    b.stampCost first second ≤ 0

variable {b} {first second : Pass} {tx : BuiltTx}

omit [DatumPackages] in
/-- The units that a pass is resolved to, one for each of its redeemers. -/
theorem targets_eq {units : Option EvaluatedUnits} {pass : Pass} {targets : List ExUnits}
    (evaluated : b.evaluatedUnits first = .ok units)
    (resolved : resolveTargetExUnits pass units = .ok targets) :
    b.targets first pass = targets ∧ targets.length = pass.tx.redeemers.length := by
  refine ⟨?_, length_of_mapM_eq_ok resolved⟩
  rw [ScriptBuild.targets, evaluated]
  change ((resolveTargetExUnits pass units).toOption).getD [] = targets
  rw [resolved]
  rfl

/-- The second build is asked for the first one's fee and the reserve. -/
theorem scriptFeeFloor_eq {units : Option EvaluatedUnits} {floor : Nat}
    (evaluated : b.evaluatedUnits first = .ok units)
    (floors : scriptFeeFloor b.prices first units b.callerDatums b.witnessDatums = .ok floor) :
    floor = first.tx.fee + b.reserve first := by
  obtain ⟨targets, resolved, rest⟩ := bind_eq_ok.mp floors
  obtain ⟨callers, callersRead, rest⟩ := bind_eq_ok.mp rest
  obtain ⟨witnesses, witnessesRead, same⟩ := bind_eq_ok.mp rest
  cases same
  rw [reserve, (targets_eq evaluated resolved).1, expectedGrowth, datumsGrowth_eq_ok callersRead,
    datumsGrowth_eq_ok witnessesRead]
  omega

/-- A script transaction is returned when its second pass is stamped and given its datums. -/
theorem finished_of_returned (built : b.build none = some first)
    (script : first.tx.redeemers ≠ []) (returned : b.returned = .ok tx)
    (rebuilt : b.build (some (first.tx.fee + b.reserve first)) = some second) :
    ∃ units, b.evaluatedUnits first = .ok units ∧
      finishScriptTx b.languageViews second units b.callerDatums b.witnessDatums = .ok tx := by
  unfold ScriptBuild.returned buildScriptTx at returned
  rw [built] at returned
  simp only [if_neg script] at returned
  obtain ⟨units, evaluated, rest⟩ := bind_eq_ok.mp returned
  obtain ⟨floor, floors, rest⟩ := bind_eq_ok.mp rest
  rw [scriptFeeFloor_eq evaluated floors, rebuilt] at rest
  exact ⟨units, evaluated, rest⟩

/-- What a finished transaction is, next to its second pass. -/
theorem finishScriptTx_eq {units : Option EvaluatedUnits}
    (evaluated : b.evaluatedUnits first = .ok units)
    (finished : finishScriptTx b.languageViews second units b.callerDatums b.witnessDatums =
      .ok tx) :
    ∃ written, tx = { b.stamped first second with bytes := written } ∧
      (written.toCbor.length : Int) =
        (b.stamped first second).bytes.toCbor.length + b.datumGrowth first second ∧
      (b.targets first second).length = second.tx.redeemers.length := by
  obtain ⟨targets, resolved, rest⟩ := bind_eq_ok.mp finished
  obtain ⟨isTargets, same⟩ := targets_eq evaluated resolved
  rw [← isTargets] at rest same
  change (writeCallerDatums (b.stamped first second).bytes b.callerDatums >>= _) = _ at rest
  obtain ⟨called, calls, rest⟩ := bind_eq_ok.mp rest
  obtain ⟨written, writes, done⟩ := bind_eq_ok.mp rest
  cases done
  refine ⟨written, rfl, ?_, same⟩
  rw [length_writeWitnessDatums writes, length_writeCallerDatums calls, datumGrowth, calls]
  exact Int.add_assoc _ _ _

omit [DatumPackages] in
/-- The units of stamped redeemers are the targets. -/
theorem localUnits_stamped (same : (b.targets first second).length = second.tx.redeemers.length) :
    localUnits (b.stamped first second).redeemers = totalUnits (b.targets first second) := by
  rw [localUnits, stamped, stampExecUnits]
  dsimp only
  rw [List.map_zipWith]
  exact congrArg totalUnits (zipWith_right same)

/-- The least fee of the returned transaction: that of the second pass and the cost of stamping. -/
theorem minimumFee_returned (built : b.build none = some first) (script : first.tx.redeemers ≠ [])
    (rebuilt : b.build (some (first.tx.fee + b.reserve first)) = some second)
    (restamps : b.Restamps first second) (returned : b.returned = .ok tx) :
    tx.fee = second.tx.fee ∧
      (minimumFee b.prices tx : Int) = minimumFee b.prices second.tx + b.stampCost first second := by
  obtain ⟨units, evaluated, finished⟩ := finished_of_returned built script returned rebuilt
  obtain ⟨written, rfl, length, same⟩ := finishScriptTx_eq evaluated finished
  refine ⟨rfl, ?_⟩
  have total := localUnits_stamped same
  rw [restamps] at length
  have size : (b.prices.txFeePerByte : Int) * written.toCbor.length =
      b.prices.txFeePerByte * second.tx.bytes.toCbor.length +
        b.prices.txFeePerByte * (unitsGrowth second.tx.redeemers (b.targets first second) +
          b.datumGrowth first second) := by
    rw [length, ← Int.mul_add, Int.add_assoc]
  simp only [minimumFee, total, stampCost, Nat.cast_add, Nat.cast_mul]
  have keyWitnesses : (b.stamped first second).keyWitnessBytes = second.tx.keyWitnessBytes := rfl
  have scripts : (b.stamped first second).referenceScriptFee = second.tx.referenceScriptFee := rfl
  rw [keyWitnesses, scripts, Int.mul_add, Int.mul_add, size]
  omega

end Main

end ScriptBuild

section Main

variable [DatumPackages] [LedgerPackages BuiltTx]

open ScriptBuild

/-- The fee covers what the transaction finally carries when the floor reserved for it; with the
least fee that a build may settle on, only then. -/
theorem buildScriptTx_fee_covers (b : ScriptBuild) {first second : Pass} {tx : BuiltTx}
    (settles : b.Settles) (built : b.build none = some first) (script : first.tx.redeemers ≠ [])
    (rebuilt : b.build (some (first.tx.fee + b.reserve first)) = some second)
    (restamps : b.Restamps first second) (returned : b.returned = .ok tx) :
    (b.Reserved first second → minimumFee b.prices tx ≤ tx.fee) ∧
      (second.tx.fee = max (first.tx.fee + b.reserve first) (minimumFee b.prices second.tx) →
        minimumFee b.prices tx ≤ tx.fee → b.Reserved first second) := by
  obtain ⟨fee, least⟩ := minimumFee_returned built script rebuilt restamps returned
  obtain ⟨floor, own⟩ := settles _ _ rebuilt
  constructor
  · intro reserved
    rcases reserved with paid | free <;> omega
  · intro tight covered
    unfold Reserved
    omega

/-- A second pass that evaluates like the first one, grows by no more than the pad and gains no
more from its datums than expected is paid for. -/
theorem reserved_of_same_redeemers (b : ScriptBuild) {first second : Pass}
    (redeemers : second.tx.redeemers = first.tx.redeemers)
    (targets : b.targets first second = b.targets first first)
    (resolved : (b.targets first first).length = first.tx.redeemers.length)
    (least : minimumFee b.prices second.tx ≤ first.tx.fee + 10 * b.prices.txFeePerByte)
    (datums : b.datumGrowth first second ≤ b.expectedGrowth) : b.Reserved first second := by
  left
  have growth := unitsGrowth_le first.tx.redeemers (b.targets first first)
  have price := unitsPrice_le_exUnitsPriceDelta b.prices first.tx.redeemers resolved
  have bytes := Int.mul_le_mul_of_nonneg_left (Int.add_le_add growth datums)
    (Int.natCast_nonneg b.prices.txFeePerByte)
  rw [stampCost, redeemers, targets, reserve, Nat.mul_comm _ b.prices.txFeePerByte,
    Nat.mul_comm b.expectedGrowth]
  push_cast
  rw [Int.mul_add] at bytes
  rw [Int.mul_add] at bytes ⊢
  omega

end Main

section Sample

open CborItem ScriptBuild

attribute [local instance] datumPackages

/-- A transaction with a fee, redeemers of the given units and a hash over the language views. -/
def scriptTxItem (fee : Nat) (units : List ExUnits) (languageViews : Bytes) : CborItem :=
  node ⟨4, some (.ofNat 4)⟩
    [node ⟨5, some (.ofNat 2)⟩
      [uint 2, uint fee, uint 11, .bytes (blake2b_256 languageViews)],
    node ⟨5, some (.ofNat 1)⟩ [uint 5, node ⟨4, some (.ofNat units.length)⟩
      (units.map fun units => node ⟨4, some (.ofNat 4)⟩ [uint 0, uint 0, uint 1,
        node ⟨4, some (.ofNat 2)⟩ [uint units.mem, uint units.cpu]])],
    leaf 7 (.short 21) [], leaf 7 (.short 22) []]

theorem wellFormed_uint_zero : (uint 0).WellFormed := by decide

def scriptTxBytes (fee : Nat) (units : List ExUnits) (languageViews : Bytes) : LedgerBytes :=
  if wellFormed : (scriptTxItem fee units languageViews).WellFormed then ⟨_, wellFormed⟩
  else ⟨uint 0, wellFormed_uint_zero⟩

@[reducible] def ledgerPackages : LedgerPackages BuiltTx where
  txRedeemerTagToString
    | .spend => "Spend"
    | .mint => "Mint"
    | .cert => "Cert"
    | .withdraw => "Withdraw"
    | .voting => "Voting"
    | .proposing => "Proposing"
  restamped tx targets languageViews := scriptTxBytes tx.fee targets languageViews

attribute [local instance] ledgerPackages

theorem ten_thousand_pos : 0 < 10000 := by decide

theorem ten_million_pos : 0 < 10000000 := by decide

def feePrices : FeePrices :=
  ⟨44, 155381, ⟨577, 10000, ten_thousand_pos⟩, ⟨721, 10000000, ten_million_pos⟩⟩

/-- A transaction that spends one script input and pays a fee. -/
def spendingPass (fee : Nat) (units : ExUnits) : Pass where
  tx :=
    { bytes := scriptTxBytes fee [units] [0xa0]
      fee := fee
      redeemers := [⟨.spend, 0, units⟩]
      keyWitnessBytes := 102
      referenceScriptFee := 0 }
  failures := []

/-- A build without an evaluator that settles on the fee it is asked for, or on its least fee. -/
def spendingBuild (floor fee : Nat) (second : ExUnits) : ScriptBuild where
  prices := feePrices
  languageViews _ := [0xa0]
  build asked :=
    if asked = none then some (spendingPass 169132 ⟨100000, 10000000⟩)
    else if asked = some floor then some (spendingPass fee second)
    else none
  evaluator := none
  callerDatums := Table.empty
  witnessDatums := []

theorem spendingBuild_settles {floor fee : Nat} {second : ExUnits} (above : floor ≤ fee)
    (least : minimumFee feePrices (spendingPass fee second).tx ≤ fee) :
    (spendingBuild floor fee second).Settles := by
  intro asked pass built
  simp only [spendingBuild, if_neg (Option.some_ne_none asked)] at built
  split at built
  · rename_i same
    cases built
    exact ⟨Option.some.inj same ▸ above, least⟩
  · cases built

theorem exists_of_isOk {α : Type} {result : Except String α} (isOk : result.isOk = true) :
    ∃ value, result = .ok value := by
  cases result with
  | error message => cases isOk
  | ok value => exact ⟨value, rfl⟩

/-- Both passes evaluate alike. -/
theorem buildScriptTx_fee_covers_sample :
    ∃ tx, (spendingBuild 170525 170525 ⟨100000, 10000000⟩).returned = .ok tx ∧
      minimumFee feePrices tx ≤ tx.fee := by
  obtain ⟨tx, returned⟩ := exists_of_isOk
    (by decide +kernel : (spendingBuild 170525 170525 ⟨100000, 10000000⟩).returned.isOk = true)
  have floor : (spendingPass 169132 ⟨100000, 10000000⟩).tx.fee +
      (spendingBuild 170525 170525 ⟨100000, 10000000⟩).reserve
        (spendingPass 169132 ⟨100000, 10000000⟩) = 170525 := by decide +kernel
  have rebuilt : (spendingBuild 170525 170525 ⟨100000, 10000000⟩).build
      (some ((spendingPass 169132 ⟨100000, 10000000⟩).tx.fee +
        (spendingBuild 170525 170525 ⟨100000, 10000000⟩).reserve
          (spendingPass 169132 ⟨100000, 10000000⟩))) =
      some (spendingPass 170525 ⟨100000, 10000000⟩) := by
    rw [floor]
    rfl
  have restamps : (spendingBuild 170525 170525 ⟨100000, 10000000⟩).Restamps
      (spendingPass 169132 ⟨100000, 10000000⟩) (spendingPass 170525 ⟨100000, 10000000⟩) := by
    unfold ScriptBuild.Restamps
    decide +kernel
  have covers := buildScriptTx_fee_covers (spendingBuild 170525 170525 ⟨100000, 10000000⟩)
    (spendingBuild_settles (Nat.le_refl _) (by decide +kernel)) rfl (List.cons_ne_nil _ _)
    rebuilt restamps returned
  exact ⟨tx, returned, covers.1 (.inl (by decide +kernel))⟩

/-- A second pass that evaluates to more units is stamped with units that nobody paid for. -/
example : ((spendingBuild 170525 740362 ⟨10000000, 10000000⟩).returned.toOption.any fun tx =>
    decide (tx.fee < minimumFee feePrices tx)) = true := by decide +kernel

end Sample

end Odatano
