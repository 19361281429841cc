import Odatano.ScriptFees
import Odatano.SharedViews

/-!
# Builder parameters

The protocol parameters that the builds of one `BuildooorTxBuilder` share
(`srv/blockchain/transaction-building/buildooor-tx.ts`), while other builds replace them.
-/

namespace Odatano

open DatumPackages LedgerPackages

/-- Protocol parameters as they come with a request. -/
structure LedgerProtocolParameter (Rest : Type) where
  network : Option String
  epoch : Option Int
  rest : Rest

/-- How protocol parameters are mapped for Buildooor, and what a build reads of them. -/
structure ParameterPackages (Rest Mapped Raw : Type) where
  /-- The JSON text of parameters. -/
  stringify : LedgerProtocolParameter Rest → String
  /-- `_mapLedgerParametersToBuildooorParams`. -/
  mapped : LedgerProtocolParameter Rest → Mapped
  /-- The cost-model arrays of parameters as the chain serves them. -/
  rawArrays : LedgerProtocolParameter Rest → Raw
  /-- Whether `new TxBuilder` takes the parameters. -/
  accepts : Mapped → Bool
  feePrices : Mapped → FeePrices
  maxTxSize : Mapped → Nat
  /-- Language views of a transaction; the raw arrays win over the mapped models. -/
  languageViews : Mapped → Raw → BuiltTx → Bytes

/-- The fields that every build of the builder may replace. -/
structure BuilderFields (Mapped Raw : Type) where
  txBuilder : Mapped
  paramsFingerprint : Option String
  rawCostModelArrays : Raw

namespace ParameterPackages

variable {Rest Mapped Raw : Type} (packages : ParameterPackages Rest Mapped Raw)

/-- Stable identity of a parameter set: network and epoch, else the full JSON. -/
def protocolParamsFingerprint (params : LedgerProtocolParameter Rest) : String :=
  match params.network, params.epoch with
  | some network, some epoch =>
      if network = "" then packages.stringify params else network ++ "#" ++ toString epoch
  | _, _ => packages.stringify params

/-- TxBuilder has no setter, so it is rebuilt.  Mapping sets the raw arrays first, and they stay
when no TxBuilder is made. -/
def applyProtocolParameters (params : LedgerProtocolParameter Rest)
    (fields : BuilderFields Mapped Raw) : BuilderFields Mapped Raw :=
  if packages.accepts (packages.mapped params) = true then
    ⟨packages.mapped params, some (packages.protocolParamsFingerprint params),
      packages.rawArrays params⟩
  else { fields with rawCostModelArrays := packages.rawArrays params }

/-- The parameters of a request take the place of others. -/
def ensureCurrentProtocolParameters (given : Option (LedgerProtocolParameter Rest))
    (fields : BuilderFields Mapped Raw) : BuilderFields Mapped Raw :=
  match given with
  | none => fields
  | some params =>
      if fields.paramsFingerprint = some (packages.protocolParamsFingerprint params) then fields
      else packages.applyProtocolParameters params fields

/-- A build goes on when its parameters are in place. -/
def inPlace (given : Option (LedgerProtocolParameter Rest)) (fields : BuilderFields Mapped Raw) :
    Bool :=
  match given with
  | none => true
  | some params => decide
      (fields.paramsFingerprint = some (packages.protocolParamsFingerprint params))

end ParameterPackages

/-! ## Builds that suspend -/

/-- A request for a script transaction. -/
structure ScriptRequest (Rest Mapped : Type) where
  protocolParameters : Option (LedgerProtocolParameter Rest)
  /-- What Buildooor makes of the inputs and outputs chosen for the request. -/
  build : Mapped → Option Nat → Option Pass
  /-- Whether the context brings an evaluator. -/
  evaluates : Bool
  callerDatums : OrderedMap Nat Bytes
  witnessDatums : List Bytes
  /-- Script inputs that carry their validator; null where the size is not checked. -/
  inlineValidators : Option Nat

/-- A build on its way.  An evaluation goes on with the evaluator's answer; what a build of
Buildooor settles with is known when it is called. -/
abbrev ScriptTask (Mapped Raw : Type) :=
  Resumable (BuilderFields Mapped Raw) EvaluatorAnswer (Except String BuiltTx)

section Builds

variable [DatumPackages] [LedgerPackages BuiltTx] {Rest Mapped Raw : Type}
  (packages : ParameterPackages Rest Mapped Raw) (request : ScriptRequest Rest Mapped)

open Resumable

def BuilderFields.feePrices (fields : BuilderFields Mapped Raw) : FeePrices :=
  packages.feePrices fields.txBuilder

def BuilderFields.languageViews (fields : BuilderFields Mapped Raw) : BuiltTx → Bytes :=
  packages.languageViews fields.txBuilder fields.rawCostModelArrays

/-- The general Plutus builder refuses a transaction above the maximum size. -/
def checkSize (fields : BuilderFields Mapped Raw) (tx : BuiltTx) : Except String BuiltTx :=
  match request.inlineValidators with
  | none => .ok tx
  | some inline =>
      if tx.bytes.toCbor.length > packages.maxTxSize fields.txBuilder then
        .error ("transaction is " ++ toString tx.bytes.toCbor.length ++
          " bytes, above the maximum of " ++ toString (packages.maxTxSize fields.txBuilder) ++
          if inline > 0 then
            "; " ++ toString inline ++ " script input(s) carry their validator inline, a " ++
              "referenceScript would move it out of the transaction"
          else "")
      else .ok tx

/-- `_buildWithCallerDatums` between its awaits. -/
def callerDatumsTask (fields : BuilderFields Mapped Raw) : ScriptTask Mapped Raw :=
  match request.build fields.txBuilder none with
  | none => wait fun _ _ => done (.error "Cannot read properties of null")
  | some pass => wait fun fields _ =>
      match datumsGrowth (callerDatumsGrowth request.callerDatums) with
      | .error message => done (.error message)
      | .ok growth =>
          if growth = 0 then
            done (do
              let written ← writeCallerDatums pass.tx.bytes request.callerDatums
              return { pass.tx with bytes := written })
          else
            let fee := pass.tx.fee + (growth.toNat + 10) * (fields.feePrices packages).txFeePerByte
            let raised := request.build fields.txBuilder (some fee)
            wait fun _ _ => done (match raised with
              | none => .error "Cannot read properties of null"
              | some raised => do
                  let written ← writeCallerDatums raised.tx.bytes request.callerDatums
                  return { raised.tx with bytes := written })

/-- From the evaluated budgets on: the fee floor, the second build, the stamp. -/
def secondBuildTask (first : Pass) (evaluatedUnits : Option EvaluatedUnits)
    (fields : BuilderFields Mapped Raw) : ScriptTask Mapped Raw :=
  match scriptFeeFloor (fields.feePrices packages) first evaluatedUnits request.callerDatums
      request.witnessDatums with
  | .error message => done (.error message)
  | .ok feeFloor =>
      let second := request.build fields.txBuilder (some feeFloor)
      wait fun fields _ => done (match second with
        | none => .error "Cannot read properties of null"
        | some second => finishScriptTx (fields.languageViews packages) second evaluatedUnits
            request.callerDatums request.witnessDatums)

/-- `_buildScriptTx` between its awaits. -/
def scriptTask (fields : BuilderFields Mapped Raw) : ScriptTask Mapped Raw :=
  match request.build fields.txBuilder none with
  | none => wait fun _ _ => done (.error ("Buildooor txBuilder.build() returned null; check " ++
      "inputs, datum, and collateral configuration"))
  | some first => wait fun fields _ =>
      if first.tx.redeemers = [] then
        if request.callerDatums.rows = [] then done (.ok first.tx)
        else
          -- the promise it returns settles in a later step than the one it stands for
          (callerDatumsTask packages request fields).awaited fun tx _ => done tx
      else if request.evaluates = true then
        wait fun fields answer =>
          match evaluateExUnitsByRedeemer answer with
          | .error message => done (.error message)
          | .ok evaluatedUnits => secondBuildTask packages request first evaluatedUnits fields
      else secondBuildTask packages request first none fields

/-- A build, after the parameters were put in place. -/
def buildTask (fields : BuilderFields Mapped Raw) : ScriptTask Mapped Raw :=
  if packages.inPlace request.protocolParameters fields = false then
    done (.error "the protocol parameters are invalid")
  else
    (scriptTask packages request fields).awaited fun tx fields =>
      done (tx.bind (checkSize packages request fields))

/-- The build of a request from one parameter set, without suspending. -/
def buildAlone (fields : BuilderFields Mapped Raw) (evaluate : Bytes → EvaluatorAnswer) :
    Except String BuiltTx := do
  let tx ← buildScriptTx (fields.feePrices packages) (fields.languageViews packages)
    (request.build fields.txBuilder) (if request.evaluates = true then some evaluate else none)
    request.callerDatums request.witnessDatums
  checkSize packages request fields tx

variable {packages request} {fields : BuilderFields Mapped Raw} {answers : List EvaluatorAnswer}
  {result : Except String BuiltTx}

omit [LedgerPackages BuiltTx] in
theorem alone_callerDatumsTask
    (ended : (callerDatumsTask packages request fields).alone fields answers = .done result) :
    result = buildWithCallerDatums (fields.feePrices packages) (request.build fields.txBuilder)
      request.callerDatums := by
  unfold callerDatumsTask at ended
  unfold buildWithCallerDatums
  split at ended
  · rename_i nothing
    obtain ⟨answer, rest, ended⟩ := alone_wait_eq_done ended
    rw [alone_done_eq_done ended, nothing]
  · rename_i pass built
    obtain ⟨answer, rest, ended⟩ := alone_wait_eq_done ended
    rw [built]
    dsimp only
    split at ended
    · rename_i message unread
      rw [alone_done_eq_done ended, unread]
      rfl
    · rename_i growth read
      rw [read]
      simp only [bind, Except.bind]
      split at ended
      · rename_i same
        rw [alone_done_eq_done ended, if_pos same]
        cases writeCallerDatums pass.tx.bytes request.callerDatums <;> rfl
      · rename_i longer
        rw [if_neg longer]
        obtain ⟨answer, rest, ended⟩ := alone_wait_eq_done ended
        rw [alone_done_eq_done ended]
        dsimp only
        split
        · rename_i nothing
          rw [nothing]
        · rename_i raised built
          rw [built]
          dsimp only
          cases writeCallerDatums raised.tx.bytes request.callerDatums <;> rfl

theorem alone_secondBuildTask {first : Pass} {units : Option EvaluatedUnits}
    (ended : (secondBuildTask packages request first units fields).alone fields answers =
      .done result) :
    result = (do
      let feeFloor ← scriptFeeFloor (fields.feePrices packages) first units request.callerDatums
        request.witnessDatums
      let some second := request.build fields.txBuilder (some feeFloor)
        | .error "Cannot read properties of null"
      finishScriptTx (fields.languageViews packages) second units request.callerDatums
        request.witnessDatums) := by
  unfold secondBuildTask at ended
  split at ended
  · rename_i message refused
    rw [alone_done_eq_done ended, refused]
    rfl
  · rename_i feeFloor floors
    obtain ⟨answer, rest, ended⟩ := alone_wait_eq_done ended
    rw [alone_done_eq_done ended, floors]
    simp only [bind, Except.bind]
    cases request.build fields.txBuilder (some feeFloor) <;> rfl

theorem alone_scriptTask
    (ended : (scriptTask packages request fields).alone fields answers = .done result) :
    ∃ evaluate, result = buildScriptTx (fields.feePrices packages) (fields.languageViews packages)
      (request.build fields.txBuilder) (if request.evaluates = true then some evaluate else none)
      request.callerDatums request.witnessDatums := by
  unfold scriptTask at ended
  split at ended
  · rename_i nothing
    obtain ⟨answer, rest, ended⟩ := alone_wait_eq_done ended
    refine ⟨fun _ => .failed, ?_⟩
    rw [alone_done_eq_done ended, buildScriptTx, nothing]
    rfl
  · rename_i first built
    obtain ⟨answer, rest, ended⟩ := alone_wait_eq_done ended
    split at ended
    · rename_i unscripted
      refine ⟨fun _ => .failed, ?_⟩
      unfold buildScriptTx
      rw [built]
      simp only [if_pos unscripted]
      split at ended
      · rename_i datumless
        rw [alone_done_eq_done ended, if_pos datumless]
      · rename_i carries
        obtain ⟨tx, early, late, ended, settled⟩ := alone_awaited_eq_done ended
        rw [alone_done_eq_done settled, alone_callerDatumsTask ended, if_neg carries]
    · rename_i scripted
      split at ended
      · rename_i evaluates
        obtain ⟨answer, rest, ended⟩ := alone_wait_eq_done ended
        refine ⟨fun _ => answer, ?_⟩
        unfold buildScriptTx
        rw [built]
        simp only [if_neg scripted, if_pos evaluates, evaluatedUnitsOf]
        split at ended
        · rename_i message refused
          rw [alone_done_eq_done ended, refused]
          rfl
        · rename_i units evaluated
          rw [alone_secondBuildTask ended, evaluated]
          refine congrArg (Except.bind _) (funext fun feeFloor => ?_)
          cases request.build fields.txBuilder (some feeFloor) <;> rfl
      · rename_i unevaluated
        refine ⟨fun _ => .failed, ?_⟩
        unfold buildScriptTx
        rw [built, alone_secondBuildTask ended]
        simp only [if_neg scripted, if_neg unevaluated, evaluatedUnitsOf]
        refine congrArg (Except.bind _) (funext fun feeFloor => ?_)
        cases request.build fields.txBuilder (some feeFloor) <;> rfl

/-- A build that finds the same fields at every step builds from them alone. -/
theorem alone_buildTask (inPlace : packages.inPlace request.protocolParameters fields = true)
    (ended : (buildTask packages request fields).alone fields answers = .done result) :
    ∃ evaluate, result = buildAlone packages request fields evaluate := by
  unfold buildTask at ended
  simp only [inPlace, Bool.true_eq_false, if_false] at ended
  obtain ⟨tx, early, late, built, checked⟩ := alone_awaited_eq_done ended
  obtain ⟨evaluate, same⟩ := alone_scriptTask built
  refine ⟨evaluate, ?_⟩
  rw [alone_done_eq_done checked, same]
  rfl

end Builds

/-! ## Builds among others -/

/-- A request comes, or what a build waits for settles. -/
inductive BuilderEvent (Rest Mapped : Type) where
  | build (request : ScriptRequest Rest Mapped)
  | settle (position : Nat) (answer : EvaluatorAnswer)

section Runs

variable [DatumPackages] [LedgerPackages BuiltTx] {Rest Mapped Raw : Type}
  (packages : ParameterPackages Rest Mapped Raw)

open Resumable

/-- The builds of one builder, in the order of their requests, and the fields they share. -/
abbrev Builds (Rest Mapped Raw : Type) :=
  Shared (ScriptRequest Rest Mapped) (BuilderFields Mapped Raw) EvaluatorAnswer
    (Except String BuiltTx)

def BuilderEvent.event : BuilderEvent Rest Mapped →
    Event (ScriptRequest Rest Mapped) (BuilderFields Mapped Raw) EvaluatorAnswer
      (Except String BuiltTx)
  | build request =>
      .start request (packages.ensureCurrentProtocolParameters request.protocolParameters)
        (buildTask packages request)
  | settle position answer => .answer position answer

/-- Any number of builds, suspended and resumed in any order. -/
def runBuilds (fields : BuilderFields Mapped Raw) (events : List (BuilderEvent Rest Mapped)) :
    Builds Rest Mapped Raw :=
  Shared.run ⟨fields, []⟩ (events.map (BuilderEvent.event packages))

/-- The fields with a parameter set in place. -/
def ParameterPackages.fieldsOf (params : LedgerProtocolParameter Rest) :
    BuilderFields Mapped Raw :=
  ⟨packages.mapped params, some (packages.protocolParamsFingerprint params),
    packages.rawArrays params⟩

/-- Parameter sets that Buildooor takes, of which each fingerprint names one. -/
structure Identified (known : LedgerProtocolParameter Rest → Prop) : Prop where
  accepted : ∀ params, known params → packages.accepts (packages.mapped params) = true
  named : ∀ params other, known params → known other →
    packages.protocolParamsFingerprint params = packages.protocolParamsFingerprint other →
      packages.fieldsOf params = packages.fieldsOf other

/-- A build that started with its own parameters in place, or with those it found when its request
brings none. -/
def StartsWithOwn (known : LedgerProtocolParameter Rest → Prop)
    (party : Party (ScriptRequest Rest Mapped) (BuilderFields Mapped Raw) EvaluatorAnswer
      (Except String BuiltTx)) : Prop :=
  ∃ params, known params ∧ (∀ own, party.label.protocolParameters = some own → params = own) ∧
    party.own = packages.fieldsOf params ∧ party.started = buildTask packages party.label party.own

variable {packages} {known : LedgerProtocolParameter Rest → Prop}

omit [DatumPackages] [LedgerPackages BuiltTx] in
/-- A request finds or puts its own parameters in place. -/
theorem ensureCurrentProtocolParameters_fieldsOf (identified : Identified packages known)
    {held : LedgerProtocolParameter Rest} (isHeld : known held)
    (given : Option (LedgerProtocolParameter Rest)) (isKnown : ∀ own, given = some own → known own) :
    ∃ params, known params ∧ (∀ own, given = some own → params = own) ∧
      packages.ensureCurrentProtocolParameters given (packages.fieldsOf held) =
        packages.fieldsOf params := by
  cases given with
  | none =>
      refine ⟨held, isHeld, ?_, rfl⟩
      intro own absent
      cases absent
  | some own =>
      have ownKnown := isKnown own rfl
      refine ⟨own, ownKnown, fun _ same => Option.some.inj same, ?_⟩
      rw [ParameterPackages.ensureCurrentProtocolParameters]
      split
      · rename_i same
        exact identified.named held own isHeld ownKnown (Option.some.inj same)
      · rw [ParameterPackages.applyProtocolParameters, if_pos (identified.accepted own ownKnown)]
        rfl

omit [DatumPackages] [LedgerPackages BuiltTx] in
/-- Parameters that are in place stay. -/
theorem ensureCurrentProtocolParameters_self (params : LedgerProtocolParameter Rest) :
    packages.ensureCurrentProtocolParameters (some params) (packages.fieldsOf params) =
      packages.fieldsOf params :=
  if_pos rfl

theorem step_startsWithOwn (identified : Identified packages known) {s : Builds Rest Mapped Raw}
    {held : LedgerProtocolParameter Rest} (isHeld : known held)
    (view : s.view = packages.fieldsOf held) (own : ∀ party ∈ s.parties,
      StartsWithOwn packages known party) {event : BuilderEvent Rest Mapped}
    (isKnown : ∀ request, event = .build request → ∀ params,
      request.protocolParameters = some params → known params) :
    (∃ params, known params ∧ (s.step (event.event packages)).view = packages.fieldsOf params) ∧
      ∀ party ∈ (s.step (event.event packages)).parties, StartsWithOwn packages known party := by
  have keeps : ∀ (party : Party (ScriptRequest Rest Mapped) (BuilderFields Mapped Raw)
      EvaluatorAnswer (Except String BuiltTx)) (answer : EvaluatorAnswer),
      StartsWithOwn packages known party →
        StartsWithOwn packages known (party.receive s.view answer) := by
    intro party answer starts
    unfold Party.receive
    split <;> exact starts
  cases event with
  | settle position answer =>
      exact ⟨⟨held, isHeld, view⟩, Shared.forall_step own (fun _ _ _ start => by cases start) keeps⟩
  | build request =>
      obtain ⟨params, paramsKnown, isOwn, fields⟩ := ensureCurrentProtocolParameters_fieldsOf
        identified isHeld request.protocolParameters (isKnown request rfl)
      rw [← view] at fields
      refine ⟨⟨params, paramsKnown, fields⟩, Shared.forall_step own ?_ keeps⟩
      rintro label replace task start
      cases start
      exact ⟨params, paramsKnown, isOwn, fields, rfl⟩

theorem run_startsWithOwn (identified : Identified packages known) {s : Builds Rest Mapped Raw}
    {held : LedgerProtocolParameter Rest} (isHeld : known held)
    (view : s.view = packages.fieldsOf held) (own : ∀ party ∈ s.parties,
      StartsWithOwn packages known party) {events : List (BuilderEvent Rest Mapped)}
    (isKnown : ∀ request, .build request ∈ events → ∀ params,
      request.protocolParameters = some params → known params) :
    ∀ party ∈ (s.run (events.map (BuilderEvent.event packages))).parties,
      StartsWithOwn packages known party := by
  induction events generalizing s held with
  | nil => exact own
  | cons event events ih =>
      obtain ⟨⟨params, paramsKnown, next⟩, later⟩ := step_startsWithOwn identified isHeld view own
        (fun request same => isKnown request (same ▸ List.mem_cons_self))
      exact ih paramsKnown next later fun request member =>
        isKnown request (List.mem_cons_of_mem _ member)

/-- A build that always found the fields it started with is computed from its own parameters. -/
theorem result_of_kept {party : Party (ScriptRequest Rest Mapped) (BuilderFields Mapped Raw)
      EvaluatorAnswer (Except String BuiltTx)}
    (starts : StartsWithOwn packages known party) (follows : party.Follows) (kept : party.Kept)
    {result : Except String BuiltTx} (ended : party.now = .done result) :
    ∃ params evaluate, known params ∧
      (∀ own, party.label.protocolParameters = some own → params = own) ∧
      result = buildAlone packages party.label (packages.fieldsOf params) evaluate := by
  obtain ⟨params, paramsKnown, isOwn, own, started⟩ := starts
  have alone := follows kept
  rw [ended, started, own] at alone
  have inPlace : packages.inPlace party.label.protocolParameters (packages.fieldsOf params) =
      true := by
    cases given : party.label.protocolParameters with
    | none => rfl
    | some mine =>
        rw [isOwn mine given]
        exact decide_eq_true rfl
  obtain ⟨evaluate, same⟩ := alone_buildTask inPlace alone.symm
  exact ⟨params, evaluate, paramsKnown, isOwn, same⟩

/-- Among any other builds, a build that always finds the fields it started with is computed from
its own parameters alone.  Requests with other parameters that come only while no build is under
way disturb none. -/
theorem builds_use_own_parameters (identified : Identified packages known)
    {initial : LedgerProtocolParameter Rest} (isInitial : known initial)
    {events : List (BuilderEvent Rest Mapped)}
    (isKnown : ∀ request, .build request ∈ events → ∀ params,
      request.protocolParameters = some params → known params) :
    (∀ party ∈ (runBuilds packages (packages.fieldsOf initial) events).parties, party.Kept →
      ∀ result, party.now = .done result → ∃ params evaluate, known params ∧
        (∀ own, party.label.protocolParameters = some own → params = own) ∧
        result = buildAlone packages party.label (packages.fieldsOf params) evaluate) ∧
    (Shared.AllSpare ⟨packages.fieldsOf initial, []⟩
        (events.map (BuilderEvent.event packages)) →
      ∀ party ∈ (runBuilds packages (packages.fieldsOf initial) events).parties, party.Kept) := by
  refine ⟨fun party member kept result ended => ?_, fun spare party member => ?_⟩
  · have starts := run_startsWithOwn identified isInitial rfl
      (fun _ none => absurd none List.not_mem_nil) isKnown party member
    have follows := Shared.run_follows (fun _ none => absurd none List.not_mem_nil) party member
    exact result_of_kept starts follows kept ended
  · exact (Shared.run_undisturbed (fun _ none => absurd none List.not_mem_nil) spare party
      member).1

end Runs

section Sample

open Resumable

attribute [local instance] datumPackages ledgerPackages

def previewPackages : ParameterPackages Unit FeePrices Bytes where
  stringify _ := "\x7b\x7d"
  mapped _ := feePrices
  rawArrays _ := [0xa0]
  accepts _ := true
  feePrices := id
  maxTxSize _ := 16384
  languageViews _ raw _ := raw

def previewParameters : LedgerProtocolParameter Unit := ⟨some "preview", some 1200, ()⟩

/-- A script input to spend with these parameters, without an evaluator. -/
def spendRequest : ScriptRequest Unit FeePrices where
  protocolParameters := some previewParameters
  build _ := (spendingBuild 170525 170525 ⟨100000, 10000000⟩).build
  evaluates := false
  callerDatums := Table.empty
  witnessDatums := []
  inlineValidators := none

/-- Two requests of which each waits while the other goes on. -/
def twoSpends : List (BuilderEvent Unit FeePrices) :=
  [.build spendRequest, .build spendRequest, .settle 0 .failed, .settle 1 .failed,
    .settle 0 .failed, .settle 0 .failed]

theorem identified_previewParameters : Identified previewPackages (· = previewParameters) where
  accepted _ _ := rfl
  named params other isParams isOther _ := by rw [isParams, isOther]

theorem allSpare_twoSpends :
    Shared.AllSpare ⟨previewPackages.fieldsOf previewParameters, []⟩
      (twoSpends.map (BuilderEvent.event previewPackages)) := by
  have stays : previewPackages.ensureCurrentProtocolParameters (some previewParameters)
      (previewPackages.fieldsOf previewParameters) =
        previewPackages.fieldsOf previewParameters :=
    ensureCurrentProtocolParameters_self previewParameters
  exact ⟨.inl stays, .inl (congrArg _ stays), trivial, trivial, trivial, trivial, trivial⟩

theorem spendRequest_of_mem_twoSpends {request : ScriptRequest Unit FeePrices}
    (listed : .build request ∈ twoSpends) : request = spendRequest := by
  rcases List.mem_cons.mp listed with first | listed
  · exact BuilderEvent.build.inj first
  · rcases List.mem_cons.mp listed with second | listed
    · exact BuilderEvent.build.inj second
    · simp at listed

theorem builds_use_own_parameters_sample :
    ∃ party ∈ (runBuilds previewPackages (previewPackages.fieldsOf previewParameters)
        twoSpends).parties, ∃ result evaluate, party.now = .done result ∧
      result = buildAlone previewPackages spendRequest
        (previewPackages.fieldsOf previewParameters) evaluate := by
  have ended : ∃ party ∈ (runBuilds previewPackages (previewPackages.fieldsOf previewParameters)
      twoSpends).parties, party.label = spendRequest ∧ party.now.isDone = true := by
    refine ⟨_, List.mem_cons_self, ?_, by decide +kernel⟩
    rw [Party.label_receive, Party.label_receive, Party.label_receive]
    rfl
  obtain ⟨party, member, label, isDone⟩ := ended
  have isKnown : ∀ request, .build request ∈ twoSpends → ∀ params,
      request.protocolParameters = some params → params = previewParameters := by
    intro request listed params given
    rw [spendRequest_of_mem_twoSpends listed] at given
    exact (Option.some.inj given).symm
  obtain ⟨ownResult, spared⟩ := builds_use_own_parameters identified_previewParameters
    (rfl : previewParameters = previewParameters) isKnown
  cases now : party.now with
  | wait resume =>
      rw [now] at isDone
      cases isDone
  | done result =>
      obtain ⟨params, evaluate, isPreview, -, same⟩ := ownResult party member
        (spared allSpare_twoSpends party member) result now
      rw [label, isPreview] at same
      exact ⟨party, member, result, evaluate, now, same⟩

end Sample

end Odatano
