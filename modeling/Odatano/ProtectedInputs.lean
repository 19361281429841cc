import Odatano.InputSelection

/-!
# Protected inputs

The builders of `srv/blockchain/transaction-building/buildooor-tx.ts`, as far as they
choose the inputs and the collateral of a transaction.  A request names UTxOs that its
build must never spend.
-/

namespace Odatano

/-! ## Requests -/

/-- An output with its lovelace and assets. -/
structure RequestedOutput where
  lovelaceAmount : Int
  assets : List Amount

/-- `TxBuildRequest`, as far as it bears on inputs. -/
structure TxBuildRequest where
  senderAddress : String
  /-- Null when the request leaves it out. -/
  lovelaceAmount : Option Int
  assets : List Amount
  /-- Raise the amount to the recipient output's min-ADA instead of rejecting the request. -/
  ensureMinAda : Bool
  mintActions : List Amount
  extraOutputs : List RequestedOutput
  forceInputs : List OutRef
  protectInputs : List OutRef
  referenceInputs : List OutRef

/-- One script UTxO with an inline validator or the UTxO that carries it. -/
structure ScriptInput where
  ref : OutRef
  referenceScript : Option OutRef

/-- A withdrawal, certificate or mint, with the script it may run. -/
structure ScriptedEntry (α : Type) where
  entry : α
  script : Option Text
  referenceScript : Option OutRef

def ScriptedEntry.scripted {α : Type} (e : ScriptedEntry α) : Bool :=
  e.script.isSome || e.referenceScript.isSome

inductive CertificateType
  | registerStake
  | deregisterStake
deriving DecidableEq

/-- A stake certificate with its deposit, the protocol's unless it names one. -/
structure StakeCertificate where
  type : CertificateType
  deposit : Int

/-- `TxBuildPlutusRequest`, as far as it bears on inputs. -/
structure TxBuildPlutusRequest where
  senderAddress : String
  requiredSigners : List String
  scriptInputs : List ScriptInput
  outputs : List RequestedOutput
  mintActions : List (ScriptedEntry Amount)
  /-- The lovelace withdrawn. -/
  withdrawals : List (ScriptedEntry Int)
  certificates : List (ScriptedEntry StakeCertificate)
  forceInputs : List OutRef
  protectInputs : List OutRef
  referenceInputs : List OutRef

structure TxBuildContext where
  utxos : List UTxO
  referenceInputUtxos : List UTxO

/-- A build of any kind.  Transfers of ada and of several assets are one kind. -/
inductive BuildRequest
  | transfer (req : TxBuildRequest)
  | transactionWithMetadata (req : TxBuildRequest)
  | mint (req : TxBuildRequest)
  | plutusSpend (req : TxBuildRequest) (scriptUtxo : OutRef)
  | plutus (req : TxBuildPlutusRequest)

namespace BuildRequest

/-- UTxOs the build must never spend. -/
def protectInputs : BuildRequest → List OutRef
  | transfer req | transactionWithMetadata req | mint req | plutusSpend req _ => req.protectInputs
  | plutus req => req.protectInputs

/-- The inputs a request names itself. -/
def declaredInputs : BuildRequest → List OutRef
  | transfer req | transactionWithMetadata req | mint req => req.forceInputs
  | plutusSpend req scriptUtxo => scriptUtxo :: req.forceInputs
  | plutus req => req.scriptInputs.map ScriptInput.ref ++ req.forceInputs

end BuildRequest

/-! ## The library -/

structure TxBuildArgs (Contents : Type) where
  inputs : List UTxO
  collaterals : List UTxO
  collateralReturn : Option (String × Int)
  contents : Contents

structure LedgerTx where
  inputs : List OutRef
  collaterals : List OutRef
deriving DecidableEq

/-- Buildooor, and what else of a build does not choose inputs.  It spends the inputs that
it is given, no more, and takes the collaterals that it is given. -/
structure Buildooor (Contents : Type) where
  keepRelevant : LedgerValue → List UTxO → List UTxO
  build : TxBuildArgs Contents → Option Int → Except BuildError LedgerTx
  minimumOutputLovelaces : String → Int → Int
  /-- Min-ADA of the recipient output; `true` sizes it for any amount. -/
  recipientMinimum : TxBuildRequest → LedgerValue → Bool → Int
  /-- Outputs, mints, datums, redeemers and metadata of a request over its inputs. -/
  contents : BuildRequest → List UTxO → Except BuildError Contents
  /-- The fee of a second pass, null when the first one stays. -/
  feeFloor : LedgerTx → Except BuildError (Option Int)
  /-- Key hash of an address, null for a script address. -/
  paymentKeyHash : String → Option String
  keepRelevant_mem : ∀ value pool, ∀ u ∈ keepRelevant value pool, u ∈ pool
  build_inputs : ∀ args fee tx, build args fee = .ok tx →
    ∀ ref, ref ∈ tx.inputs ↔ ref ∈ args.inputs.map UTxO.key
  build_collaterals : ∀ args fee tx, build args fee = .ok tx →
    ∀ ref, ref ∈ tx.collaterals ↔ ref ∈ args.collaterals.map UTxO.key

section Builders

variable {Contents : Type} (lib : Buildooor Contents)

/-- Build, and build again when the fee has to rise. -/
def Buildooor.buildTwice (args : TxBuildArgs Contents) : Except BuildError LedgerTx := do
  let tx ← lib.build args none
  match ← lib.feeFloor tx with
  | none => pure tx
  | some fee => lib.build args (some fee)

/-- Select coins for what is needed, and build with the fixed inputs before them. -/
def Buildooor.buildWith (request : BuildRequest) (fixed : List UTxO) (required : LedgerValue)
    (collateral : Collateral) : Except BuildError LedgerTx := do
  let inputs := fixed ++ lib.keepRelevant required collateral.fundingUtxos
  let contents ← lib.contents request inputs
  lib.buildTwice
    { inputs
      collaterals := collateral.collateralUtxos
      collateralReturn := collateral.collateralReturn
      contents }

/-! ## The builders -/

/-- The recipient's value: at least its min-ADA, raised on request. -/
def recipientValue (req : TxBuildRequest) (amount : Int) : Except BuildError LedgerValue :=
  let value := buildLedgerValue amount req.assets
  let minLovelace := lib.recipientMinimum req value false
  if minLovelace ≤ amount then .ok value
  else if req.ensureMinAda then
    .ok (buildLedgerValue (lib.recipientMinimum req value true) req.assets)
  else
    .error (.transactionValidation ("recipient output needs at least " ++ toString minLovelace ++
      " lovelace (has " ++ toString amount ++ "); raise lovelaceAmount or set ensureMinAda"))

def requiredAmount (req : TxBuildRequest) : Except BuildError Int :=
  match req.lovelaceAmount with
  | some amount => .ok amount
  | none => .error .other

/-- Shared non-script transfer build. -/
def buildSimpleTransfer (request : BuildRequest) (req : TxBuildRequest) (ctx : TxBuildContext)
    (includeRefScriptUtxos : Bool) : Except BuildError LedgerTx :=
  if ctx.utxos = [] then .error .insufficientFunds
  else do
    let amount ← requiredAmount req
    let outputValue ← recipientValue lib req amount
    let partition ← partitionForcedInputs ctx.utxos req.forceInputs
      (referencedKeys ctx.referenceInputUtxos req.referenceInputs) req.protectInputs
      includeRefScriptUtxos
    lib.buildWith request partition.forced outputValue ⟨[], partition.rest, none⟩

/-- The unit of an asset, in small letters. -/
def lowerUnit (a : Amount) : String := a.unit.chars.toLower

/-- Extra outputs need their lovelace plus any asset amount the mints do not cover. -/
def extraOutputsFundingAfterMint (mintActions : List Amount)
    (extraOutputs : List RequestedOutput) : Int × List (String × Int) :=
  let mintedByUnit : OrderedMap String Int :=
    OrderedMap.accumulate lowerUnit (fun _ => 0) (fun a quantity => quantity + a.quantity)
      Table.empty (mintActions.filter fun a => decide (0 < a.quantity))
  let demandByUnit : OrderedMap String Int :=
    OrderedMap.accumulate lowerUnit (fun _ => 0) (fun a quantity => quantity + a.quantity)
      Table.empty (extraOutputs.flatMap RequestedOutput.assets)
  ((extraOutputs.map RequestedOutput.lovelaceAmount).sum,
    (demandByUnit.rows.map fun entry =>
      (entry.1, entry.2 - (OrderedMap.get? mintedByUnit entry.1).getD 0)).filter
        fun entry => decide (0 < entry.2))

/-- Amounts by unit as an asset list; an empty unit is none. -/
def assetAmounts (entries : List (String × Int)) : List Amount :=
  entries.filterMap fun entry =>
    if nonempty : entry.1 ≠ "" then some ⟨⟨entry.1, nonempty⟩, entry.2⟩ else none

def buildMintTransaction (request : BuildRequest) (req : TxBuildRequest) (ctx : TxBuildContext)
    (includeRefScriptUtxos : Bool) : Except BuildError LedgerTx := do
  let amount ← requiredAmount req
  let partition ← partitionForcedInputs ctx.utxos req.forceInputs
    (referencedKeys ctx.referenceInputUtxos req.referenceInputs) req.protectInputs
    includeRefScriptUtxos
  let extra := extraOutputsFundingAfterMint req.mintActions req.extraOutputs
  let required := (buildLedgerValue amount []).add
    (buildLedgerValue extra.1 (assetAmounts extra.2))
  let collateral ← setupCollateral lib.minimumOutputLovelaces partition.rest required.lovelaces
    partition.forced req.senderAddress
  lib.buildWith request partition.forced required collateral

/-- Consume a script UTxO, which pays its part of the outputs. -/
def buildPlutusSpendTransaction (request : BuildRequest) (req : TxBuildRequest)
    (scriptUtxo : OutRef) (ctx : TxBuildContext) (includeRefScriptUtxos : Bool) :
    Except BuildError LedgerTx :=
  match ctx.utxos.find? fun u => decide (u.ref = scriptUtxo) with
  | none =>
      .error (.transactionValidation
        ("Script UTxO " ++ scriptUtxo.text ++ " not found in provided UTxOs"))
  | some script => do
      let senderUtxos := ctx.utxos.filter fun u => decide (u.ref ≠ scriptUtxo)
      -- a forced input that matches the script UTxO is silently ignored
      let partition ← partitionForcedInputs senderUtxos
        (req.forceInputs.filter fun r => decide (r ≠ scriptUtxo))
        (referencedKeys ctx.referenceInputUtxos req.referenceInputs) req.protectInputs
        includeRefScriptUtxos
      let required := req.extraOutputs.foldl
        (fun value extra => value.add (buildLedgerValue extra.lovelaceAmount extra.assets))
        (buildLedgerValue (req.lovelaceAmount.getD MIN_CHANGE_LOVELACE) [])
      let fundingGap := required.lovelaces - script.getLovelace
      let collateral ← setupCollateral lib.minimumOutputLovelaces partition.rest
        (max fundingGap 0) partition.forced req.senderAddress
      lib.buildWith request (script :: partition.forced) required collateral

/-- Each script input with its UTxO; of several with one key the last counts. -/
def scriptUtxos (ctx : TxBuildContext) (scriptInputs : List ScriptInput) :
    Except BuildError (List UTxO) :=
  scriptInputs.zipIdx.mapM fun (si, i) =>
    match (ctx.utxos.filter fun u => decide (u.key = si.ref.key)).getLast? with
    | some u => .ok u
    | none =>
        .error (.transactionValidation ("scriptInputs[" ++ toString i ++ "] " ++ si.ref.key.text ++
          " not found on-chain or already spent"))

/-- Lovelace whatever its spelling, other units as they are. -/
def needUnit (a : Amount) : AssetUnit := if a.isLovelace then lovelace else a.unit

/-- Amounts of lovelace and assets added up by unit. -/
def amountsByUnit (entries : List (AssetUnit × Int)) : OrderedMap AssetUnit Int :=
  OrderedMap.accumulate Prod.fst (fun _ => 0) (fun entry quantity => quantity + entry.2)
    Table.empty entries

def outputAmounts (outputs : List RequestedOutput) : List (AssetUnit × Int) :=
  outputs.flatMap fun o => (lovelace, o.lovelaceAmount) :: o.assets.map fun a => (a.unit, a.quantity)

/-- What the outputs need beyond script inputs, forced inputs, mints and withdrawals. -/
def plutusNeed (req : TxBuildPlutusRequest) (scripts forced : List UTxO) :
    OrderedMap AssetUnit Int :=
  let spent := (scripts ++ forced).flatMap fun u => u.amount.map fun a => (needUnit a, -a.quantity)
  let minted := req.mintActions.map fun m => (m.entry.unit, -m.entry.quantity)
  let withdrawn := req.withdrawals.map fun w => (lovelace, -w.entry)
  -- a registration locks the deposit, a deregistration refunds it
  let deposits := req.certificates.map fun c =>
    (lovelace, if c.entry.type = .registerStake then c.entry.deposit else -c.entry.deposit)
  amountsByUnit (outputAmounts req.outputs ++ spent ++ minted ++ withdrawn ++ deposits)

def needValue (need : OrderedMap AssetUnit Int) : LedgerValue :=
  (need.rows.filter fun entry => decide (0 < entry.2)).foldl
    (fun value entry => value.add
      (if entry.1 = lovelace then buildLedgerValue entry.2 []
      else buildLedgerValue 0 [⟨entry.1, entry.2⟩]))
    (buildLedgerValue 0 [])

/-- Why forced inputs of one address are refused, null when its owner signs. -/
def foreignAddressRefusal (foreign : List UTxO) (signers : List String) (address : String) :
    Option String :=
  let refs := String.intercalate ", "
    ((foreign.filter fun u => decide (u.address = address)).map fun u => u.ref.text)
  match lib.paymentKeyHash address with
  | none =>
      some ("forceInputs " ++ refs ++ " are at the script address " ++ address ++
        "; spend script UTxOs via scriptInputs")
  | some hash =>
      if hash.toLower ∈ signers then none
      else
        some ("forceInputs " ++ refs ++ " belong to " ++ address ++ "; its payment key hash " ++
          hash.toLower ++ " must be in requiredSigners (the owner co-signs)")

/-- A forced input of another key address needs its owner as required signer, and the outputs
must spend all it brings so nothing lands in the sender's change. -/
def checkForeignForcedInputs (forced : List UTxO) (req : TxBuildPlutusRequest) :
    Except BuildError Unit :=
  let foreign := forced.filter fun u => decide (u.address.toLower ≠ req.senderAddress.toLower)
  let signers := req.requiredSigners.map String.toLower
  match (distinct (foreign.map UTxO.address)).findSome?
      (foreignAddressRefusal lib foreign signers) with
  | some message => .error (.transactionValidation message)
  | none =>
      let brought :=
        amountsByUnit (foreign.flatMap fun u => u.amount.map fun a => (needUnit a, a.quantity))
      let spent := amountsByUnit (outputAmounts req.outputs)
      let out (unit : AssetUnit) := (OrderedMap.get? spent unit).getD 0
      match brought.rows.find? fun entry => decide (out entry.1 < entry.2) with
      | some entry =>
          .error (.transactionValidation ("forceInputs of other addresses bring " ++
            toString entry.2 ++ " " ++ entry.1.chars ++ " but the outputs spend only " ++
            toString (out entry.1) ++ "; the difference would go to the sender's change, " ++
            "return it to its owner in outputs"))
      | none => .ok ()

/-- Several script inputs; the outputs keep their order, change comes after them. -/
def buildPlutusTransaction (request : BuildRequest) (req : TxBuildPlutusRequest)
    (ctx : TxBuildContext) (includeRefScriptUtxos : Bool) : Except BuildError LedgerTx := do
  let scriptKeys := req.scriptInputs.map fun si => si.ref.key
  let scripts ← scriptUtxos ctx req.scriptInputs
  let senderUtxos := ctx.utxos.filter fun u => decide (u.key ∉ scriptKeys)
  match (req.protectInputs.map OutRef.key).find? fun k => decide (k ∈ scriptKeys) with
  | some clash =>
      .error (.transactionValidation ("protectInputs " ++ clash.text ++ " is also a script input"))
  | none =>
      let partition ← partitionForcedInputs senderUtxos
        (req.forceInputs.filter fun r => decide (r.key ∉ scriptKeys))
        (referencedKeys ctx.referenceInputUtxos
          (req.referenceInputs ++ req.scriptInputs.filterMap ScriptInput.referenceScript))
        req.protectInputs includeRefScriptUtxos
      checkForeignForcedInputs lib partition.forced req
      let required := needValue (plutusNeed req scripts partition.forced)
      -- collateral only when a Plutus script runs
      let runsScript := !scripts.isEmpty || !req.mintActions.isEmpty ||
        req.withdrawals.any ScriptedEntry.scripted || req.certificates.any ScriptedEntry.scripted
      let collateral ← if runsScript then
          setupCollateral lib.minimumOutputLovelaces partition.rest required.lovelaces
            partition.forced req.senderAddress
        else .ok ⟨[], partition.rest, none⟩
      lib.buildWith request (scripts ++ partition.forced) required collateral

/-- Builds without the sender's reference-script UTxOs first.  When funds are short, builds
again with them in the pool. -/
def withRefScriptFallback (utxos : List UTxO) (build : Bool → Except BuildError LedgerTx) :
    Except BuildError LedgerTx :=
  match build false with
  | .ok tx => .ok tx
  | .error error =>
      if error = .insufficientFunds ∧ utxos.any UTxO.hasRefScript = true then build true
      else .error error

def buildUnsigned (request : BuildRequest) (ctx : TxBuildContext) : Except BuildError LedgerTx :=
  withRefScriptFallback ctx.utxos fun includeRefScriptUtxos =>
    match request with
    | .transfer req => buildSimpleTransfer lib request req ctx includeRefScriptUtxos
    | .transactionWithMetadata req => buildSimpleTransfer lib request req ctx includeRefScriptUtxos
    | .mint req => buildMintTransaction lib request req ctx includeRefScriptUtxos
    | .plutusSpend req scriptUtxo =>
        buildPlutusSpendTransaction lib request req scriptUtxo ctx includeRefScriptUtxos
    | .plutus req => buildPlutusTransaction lib request req ctx includeRefScriptUtxos

end Builders

/-! ## What a build spends -/

theorem bind_eq_ok {ε α β : Type} {x : Except ε α} {f : α → Except ε β} {r : β} :
    (x >>= f) = .ok r ↔ ∃ a, x = .ok a ∧ f a = .ok r := by
  cases x with
  | error e => exact ⟨nofun, fun ⟨_, h, _⟩ => nomatch h⟩
  | ok a => exact ⟨fun h => ⟨a, rfl, h⟩, fun ⟨_, h, found⟩ => Except.ok.inj h ▸ found⟩

/-- What a fallible map over a list returns comes from elements of the list. -/
theorem mem_of_mapM_eq_ok {ε α β : Type} {f : α → Except ε β} {values : List α} {results : List β}
    (mapped : values.mapM f = .ok results) {b : β} (bMem : b ∈ results) :
    ∃ a ∈ values, f a = .ok b := by
  induction values generalizing results with
  | nil =>
      rw [List.mapM_nil] at mapped
      cases mapped
      cases bMem
  | cons a values ih =>
      rw [List.mapM_cons] at mapped
      obtain ⟨first, isFirst, mapped⟩ := bind_eq_ok.mp mapped
      obtain ⟨rest, isRest, mapped⟩ := bind_eq_ok.mp mapped
      cases mapped
      rcases List.mem_cons.mp bMem with rfl | later
      · exact ⟨a, List.mem_cons_self, isFirst⟩
      · obtain ⟨c, cMem, found⟩ := ih isRest later
        exact ⟨c, List.mem_cons_of_mem _ cMem, found⟩

/-- No UTxO of a list is protected. -/
def Unprotected (protectInputs : List OutRef) (utxos : List UTxO) : Prop :=
  ∀ u ∈ utxos, u.key ∉ protectInputs.map OutRef.key

theorem Unprotected.append {protectInputs : List OutRef} {first second : List UTxO}
    (left : Unprotected protectInputs first) (right : Unprotected protectInputs second) :
    Unprotected protectInputs (first ++ second) := fun u uMem =>
  (List.mem_append.mp uMem).elim (left u) (right u)

/-- A transaction neither spends a protected UTxO nor puts one up as collateral. -/
def LedgerTx.Spares (tx : LedgerTx) (protectInputs : List OutRef) : Prop :=
  ∀ ref ∈ protectInputs, ref.key ∉ tx.inputs ∧ ref.key ∉ tx.collaterals

section Builders

variable {Contents : Type} {lib : Buildooor Contents}

theorem Buildooor.buildTwice_eq_ok {args : TxBuildArgs Contents} {tx : LedgerTx}
    (built : lib.buildTwice args = .ok tx) : ∃ fee, lib.build args fee = .ok tx := by
  obtain ⟨first, isFirst, built⟩ := bind_eq_ok.mp built
  obtain ⟨fee, -, built⟩ := bind_eq_ok.mp built
  cases fee with
  | none =>
      cases built
      exact ⟨none, isFirst⟩
  | some fee => exact ⟨some fee, built⟩

/-- A build spends the fixed inputs and coins of the pool. -/
theorem Buildooor.buildWith_eq_ok {request : BuildRequest} {fixed : List UTxO}
    {required : LedgerValue} {collateral : Collateral} {tx : LedgerTx}
    (built : lib.buildWith request fixed required collateral = .ok tx) :
    (∀ u ∈ fixed, u.key ∈ tx.inputs) ∧
      (∀ ref ∈ tx.inputs, ∃ u ∈ fixed ++ collateral.fundingUtxos, u.key = ref) ∧
      ∀ ref ∈ tx.collaterals, ∃ u ∈ collateral.collateralUtxos, u.key = ref := by
  obtain ⟨contents, -, built⟩ := bind_eq_ok.mp built
  obtain ⟨fee, built⟩ := buildTwice_eq_ok built
  have spends := lib.build_inputs _ fee tx built
  refine ⟨fun u uMem => ?_, fun ref refMem => ?_, fun ref refMem => ?_⟩
  · exact (spends u.key).mpr (List.mem_map_of_mem (List.mem_append_left _ uMem))
  · obtain ⟨u, uMem, isRef⟩ := List.mem_map.mp ((spends ref).mp refMem)
    refine ⟨u, ?_, isRef⟩
    rcases List.mem_append.mp uMem with isFixed | selected
    · exact List.mem_append_left _ isFixed
    · exact List.mem_append_right _ (lib.keepRelevant_mem _ _ u selected)
  · obtain ⟨u, uMem, isRef⟩ := List.mem_map.mp ((lib.build_collaterals _ fee tx built ref).mp refMem)
    exact ⟨u, uMem, isRef⟩

/-- Where nothing that goes into a build is protected, the transaction spares what is. -/
theorem Buildooor.spares_of_unprotected {request : BuildRequest} {fixed : List UTxO}
    {required : LedgerValue} {collateral : Collateral} {tx : LedgerTx} {protectInputs : List OutRef}
    (built : lib.buildWith request fixed required collateral = .ok tx)
    (fixedSafe : Unprotected protectInputs fixed)
    (fundingSafe : Unprotected protectInputs collateral.fundingUtxos)
    (collateralSafe : Unprotected protectInputs collateral.collateralUtxos) :
    tx.Spares protectInputs := by
  obtain ⟨-, spends, putsUp⟩ := buildWith_eq_ok built
  intro ref refMem
  have listed : ref.key ∈ protectInputs.map OutRef.key := List.mem_map_of_mem refMem
  constructor
  · intro spent
    obtain ⟨u, uMem, isRef⟩ := spends ref.key spent
    exact fixedSafe.append fundingSafe u uMem (isRef ▸ listed)
  · intro putUp
    obtain ⟨u, uMem, isRef⟩ := putsUp ref.key putUp
    exact collateralSafe u uMem (isRef ▸ listed)

theorem setupCollateral_unprotected {protectInputs : List OutRef} {utxos forced : List UTxO}
    {requiredLovelace : Int} {senderAddress : String} {collateral : Collateral}
    (set : setupCollateral lib.minimumOutputLovelaces utxos requiredLovelace forced senderAddress =
      .ok collateral)
    (poolSafe : Unprotected protectInputs utxos) (forcedSafe : Unprotected protectInputs forced) :
    Unprotected protectInputs collateral.fundingUtxos ∧
      Unprotected protectInputs collateral.collateralUtxos := by
  obtain ⟨collaterals, funding⟩ := setupCollateral_mem set
  exact ⟨fun u uMem => (funding u uMem).elim (poolSafe u) (forcedSafe u),
    fun u uMem => (collaterals u uMem).elim (poolSafe u) (forcedSafe u)⟩

/-- A division of the UTxOs names no protected forced input. -/
theorem forceInputs_unprotected {utxos : List UTxO} {forceInputs referenced protectInputs : List OutRef}
    {includeRefScriptUtxos : Bool} {partition : ForcedPartition}
    (divided : partitionForcedInputs utxos forceInputs referenced protectInputs
      includeRefScriptUtxos = .ok partition) :
    ∀ ref ∈ forceInputs, ref.key ∉ protectInputs.map OutRef.key := by
  intro ref forces isProtected
  obtain ⟨error, refused⟩ := @partitionForcedInputs_refuses utxos forceInputs referenced
    protectInputs includeRefScriptUtxos ref forces isProtected
  rw [refused] at divided
  cases divided

/-! ## Each builder -/

variable {request : BuildRequest} {req : TxBuildRequest} {ctx : TxBuildContext}
  {includeRefScriptUtxos : Bool} {tx : LedgerTx}

/-- A transaction spares what is protected, and its request names none of it as an input. -/
def KeepsProtected (protectInputs declaredInputs : List OutRef) (tx : LedgerTx) : Prop :=
  tx.Spares protectInputs ∧ ∀ ref ∈ declaredInputs, ref.key ∉ protectInputs.map OutRef.key

theorem buildSimpleTransfer_keeps
    (built : buildSimpleTransfer lib request req ctx includeRefScriptUtxos = .ok tx) :
    KeepsProtected req.protectInputs req.forceInputs tx := by
  simp only [buildSimpleTransfer] at built
  split at built
  · cases built
  · obtain ⟨amount, -, built⟩ := bind_eq_ok.mp built
    obtain ⟨outputValue, -, built⟩ := bind_eq_ok.mp built
    obtain ⟨partition, divided, built⟩ := bind_eq_ok.mp built
    obtain ⟨forcedSafe, restSafe⟩ := partitionForcedInputs_unprotected divided
    exact ⟨Buildooor.spares_of_unprotected built forcedSafe restSafe
      (fun _ m => absurd m List.not_mem_nil), forceInputs_unprotected divided⟩

theorem buildMintTransaction_keeps
    (built : buildMintTransaction lib request req ctx includeRefScriptUtxos = .ok tx) :
    KeepsProtected req.protectInputs req.forceInputs tx := by
  obtain ⟨amount, -, built⟩ := bind_eq_ok.mp built
  obtain ⟨partition, divided, built⟩ := bind_eq_ok.mp built
  obtain ⟨collateral, set, built⟩ := bind_eq_ok.mp built
  obtain ⟨forcedSafe, restSafe⟩ := partitionForcedInputs_unprotected divided
  obtain ⟨fundingSafe, collateralSafe⟩ := setupCollateral_unprotected set restSafe forcedSafe
  exact ⟨Buildooor.spares_of_unprotected built forcedSafe fundingSafe collateralSafe,
    forceInputs_unprotected divided⟩

/-- The script UTxO is spent without a look at the protected ones. -/
theorem buildPlutusSpendTransaction_spends {scriptUtxo : OutRef}
    (built : buildPlutusSpendTransaction lib request req scriptUtxo ctx includeRefScriptUtxos =
      .ok tx) : scriptUtxo.key ∈ tx.inputs := by
  simp only [buildPlutusSpendTransaction] at built
  split at built
  · cases built
  · rename_i script found
    obtain ⟨partition, -, built⟩ := bind_eq_ok.mp built
    obtain ⟨collateral, -, built⟩ := bind_eq_ok.mp built
    have isScript : script.ref = scriptUtxo := by simpa using List.find?_some found
    rw [← isScript]
    exact (Buildooor.buildWith_eq_ok built).1 script List.mem_cons_self

theorem buildPlutusSpendTransaction_keeps {scriptUtxo : OutRef}
    (built : buildPlutusSpendTransaction lib request req scriptUtxo ctx includeRefScriptUtxos =
      .ok tx) (apart : scriptUtxo.key ∉ req.protectInputs.map OutRef.key) :
    KeepsProtected req.protectInputs (scriptUtxo :: req.forceInputs) tx := by
  simp only [buildPlutusSpendTransaction] at built
  split at built
  · cases built
  · rename_i script found
    obtain ⟨partition, divided, built⟩ := bind_eq_ok.mp built
    obtain ⟨collateral, set, built⟩ := bind_eq_ok.mp built
    have isScript : script.ref = scriptUtxo := by simpa using List.find?_some found
    obtain ⟨forcedSafe, restSafe⟩ := partitionForcedInputs_unprotected divided
    obtain ⟨fundingSafe, collateralSafe⟩ := setupCollateral_unprotected set restSafe forcedSafe
    constructor
    · refine Buildooor.spares_of_unprotected built (fun u uMem => ?_) fundingSafe collateralSafe
      rcases List.mem_cons.mp uMem with rfl | isForced
      · change u.ref.key ∉ _
        rw [isScript]
        exact apart
      · exact forcedSafe u isForced
    · intro ref declared
      by_cases same : ref = scriptUtxo
      · exact same ▸ apart
      · exact forceInputs_unprotected divided ref (List.mem_filter.mpr
          ⟨(List.mem_cons.mp declared).resolve_left same, decide_eq_true same⟩)

theorem scriptUtxos_mem {scriptInputs : List ScriptInput} {scripts : List UTxO}
    (found : scriptUtxos ctx scriptInputs = .ok scripts) :
    ∀ u ∈ scripts, u.key ∈ scriptInputs.map fun si => si.ref.key := by
  intro u uMem
  obtain ⟨⟨si, i⟩, siMem, found⟩ := mem_of_mapM_eq_ok found uMem
  simp only at found
  split at found
  · rename_i isLast
    cases found
    have sameKey : u.key = si.ref.key :=
      of_decide_eq_true (List.mem_filter.mp (List.mem_of_getLast? isLast)).2
    rw [sameKey]
    exact List.mem_map_of_mem (List.fst_mem_of_mem_zipIdx siMem)
  · cases found

theorem buildPlutusTransaction_keeps {req : TxBuildPlutusRequest}
    (built : buildPlutusTransaction lib request req ctx includeRefScriptUtxos = .ok tx) :
    KeepsProtected req.protectInputs (req.scriptInputs.map ScriptInput.ref ++ req.forceInputs) tx := by
  obtain ⟨scripts, resolved, built⟩ := bind_eq_ok.mp built
  simp only at built
  split at built
  · cases built
  · rename_i noClash
    obtain ⟨partition, divided, built⟩ := bind_eq_ok.mp built
    obtain ⟨-, -, built⟩ := bind_eq_ok.mp built
    obtain ⟨forcedSafe, restSafe⟩ := partitionForcedInputs_unprotected divided
    have scriptSafe : ∀ key ∈ req.scriptInputs.map fun si => si.ref.key,
        key ∉ req.protectInputs.map OutRef.key := fun key isScript isProtected =>
      List.find?_eq_none.mp noClash key isProtected (decide_eq_true isScript)
    have fixedSafe : Unprotected req.protectInputs (scripts ++ partition.forced) :=
      Unprotected.append (fun u uMem => scriptSafe u.key (scriptUtxos_mem resolved u uMem)) forcedSafe
    constructor
    · split at built
      · obtain ⟨collateral, set, built⟩ := bind_eq_ok.mp built
        obtain ⟨fundingSafe, collateralSafe⟩ := setupCollateral_unprotected set restSafe forcedSafe
        exact Buildooor.spares_of_unprotected built fixedSafe fundingSafe collateralSafe
      · exact Buildooor.spares_of_unprotected built fixedSafe restSafe
          fun _ m => absurd m List.not_mem_nil
    · intro ref declared
      by_cases isScript : ref.key ∈ req.scriptInputs.map fun si => si.ref.key
      · exact scriptSafe ref.key isScript
      · rcases List.mem_append.mp declared with named | forces
        · obtain ⟨si, siMem, rfl⟩ := List.mem_map.mp named
          exact absurd (List.mem_map_of_mem siMem) isScript
        · exact forceInputs_unprotected divided ref
            (List.mem_filter.mpr ⟨forces, decide_eq_true isScript⟩)

/-! ## All builders -/

/-- A Plutus spend whose script UTxO is among the protected ones. -/
def ScriptUtxoProtected : BuildRequest → Prop
  | .plutusSpend req scriptUtxo => scriptUtxo.key ∈ req.protectInputs.map OutRef.key
  | _ => False

theorem withRefScriptFallback_eq_ok {utxos : List UTxO} {build : Bool → Except BuildError LedgerTx}
    (built : withRefScriptFallback utxos build = .ok tx) :
    ∃ includeRefScriptUtxos, build includeRefScriptUtxos = .ok tx := by
  simp only [withRefScriptFallback] at built
  split at built
  · rename_i first isFirst
    exact ⟨false, isFirst.trans built⟩
  · split at built
    · exact ⟨true, built⟩
    · cases built

/-- A transaction that is built keeps what is protected, unless a Plutus spend names a
protected script UTxO. -/
theorem buildUnsigned_keeps (built : buildUnsigned lib request ctx = .ok tx)
    (apart : ¬ ScriptUtxoProtected request) :
    KeepsProtected request.protectInputs request.declaredInputs tx := by
  obtain ⟨includeRefScriptUtxos, built⟩ := withRefScriptFallback_eq_ok built
  cases request with
  | transfer req => exact buildSimpleTransfer_keeps built
  | transactionWithMetadata req => exact buildSimpleTransfer_keeps built
  | mint req => exact buildMintTransaction_keeps built
  | plutusSpend req scriptUtxo => exact buildPlutusSpendTransaction_keeps built apart
  | plutus req => exact buildPlutusTransaction_keeps built

theorem spends_scriptUtxo (built : buildUnsigned lib request ctx = .ok tx)
    (named : ScriptUtxoProtected request) :
    ∃ ref ∈ request.protectInputs, ref.key ∈ tx.inputs := by
  obtain ⟨includeRefScriptUtxos, built⟩ := withRefScriptFallback_eq_ok built
  cases request with
  | plutusSpend req scriptUtxo =>
      obtain ⟨ref, refMem, sameKey⟩ := List.mem_map.mp named
      exact ⟨ref, refMem, sameKey ▸ buildPlutusSpendTransaction_spends built⟩
  | _ => cases named

end Builders

/-- No protected output is consumed: no transaction that is built spends one or puts one up
as collateral, and a request that names one as input is refused. -/
def ProtectionHolds {Contents : Type} (lib : Buildooor Contents) (request : BuildRequest)
    (ctx : TxBuildContext) : Prop :=
  (∀ tx, buildUnsigned lib request ctx = .ok tx → tx.Spares request.protectInputs) ∧
    ((∃ ref ∈ request.declaredInputs, ref.key ∈ request.protectInputs.map OutRef.key) →
      ∃ error, buildUnsigned lib request ctx = .error error)

/-- Protection holds of a request unless it is a Plutus spend of a protected script UTxO that
nothing else refuses. -/
theorem protection_iff {Contents : Type} (lib : Buildooor Contents) (request : BuildRequest)
    (ctx : TxBuildContext) :
    ProtectionHolds lib request ctx ↔
      (ScriptUtxoProtected request → ∃ error, buildUnsigned lib request ctx = .error error) := by
  constructor
  · intro holds named
    cases built : buildUnsigned lib request ctx with
    | error error => exact ⟨error, rfl⟩
    | ok tx =>
        obtain ⟨ref, refMem, spent⟩ := spends_scriptUtxo built named
        exact absurd spent (holds.1 tx built ref refMem).1
  · intro refuses
    have keeps {tx : LedgerTx} (built : buildUnsigned lib request ctx = .ok tx) :
        KeepsProtected request.protectInputs request.declaredInputs tx := by
      refine buildUnsigned_keeps built fun named => ?_
      obtain ⟨error, refused⟩ := refuses named
      rw [refused] at built
      cases built
    refine ⟨fun tx built => (keeps built).1, fun ⟨ref, declared, isProtected⟩ => ?_⟩
    cases built : buildUnsigned lib request ctx with
    | error error => exact ⟨error, rfl⟩
    | ok tx => exact absurd isProtected ((keeps built).2 ref declared)

section Sample

/-- A library that takes every coin it is offered and refuses nothing. -/
def greedyBuildooor : Buildooor Unit where
  keepRelevant _ pool := pool
  build args _ := .ok ⟨args.inputs.map UTxO.key, args.collaterals.map UTxO.key⟩
  minimumOutputLovelaces _ _ := 1000000
  recipientMinimum _ _ _ := 1000000
  contents _ _ := .ok ()
  feeFloor _ := .ok none
  paymentKeyHash _ := none
  keepRelevant_mem _ _ _ uMem := uMem
  build_inputs := by
    rintro args fee tx ⟨⟩ ref
    rfl
  build_collaterals := by
    rintro args fee tx ⟨⟩ ref
    rfl

def adaUtxo (txHash address : String) (quantity : Int) : UTxO :=
  ⟨⟨txHash, 0⟩, address, [⟨lovelace, quantity⟩], none, none⟩

/-- A spend of the script UTxO `aa#0`, which the request protects. -/
def protectedSpend : BuildRequest :=
  .plutusSpend
    { senderAddress := "sender"
      lovelaceAmount := some 3000000
      assets := []
      ensureMinAda := false
      mintActions := []
      extraOutputs := []
      forceInputs := []
      protectInputs := [⟨"aa", 0⟩]
      referenceInputs := [] } ⟨"aa", 0⟩

/-- The script UTxO is spent although the request protects it. -/
theorem plutusSpend_consumesProtected :
    ¬ ∀ request ctx, ProtectionHolds greedyBuildooor request ctx := by
  intro holds
  have spares := (holds protectedSpend
    ⟨[adaUtxo "aa" "script" 4000000, adaUtxo "bb" "sender" 9000000], []⟩).1
    ⟨[⟨"aa", 0⟩, ⟨"bb", 0⟩], [⟨"bb", 0⟩]⟩ (by decide +kernel)
  exact (spares ⟨"aa", 0⟩ List.mem_cons_self).1 (by decide +kernel)

end Sample
end Odatano
