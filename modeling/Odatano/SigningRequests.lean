import Mathlib.Logic.Relation
import Odatano.WalletJobs

/-!
# Signing requests

The life cycle of a signing request: `srv/cardano-sign-service.ts`,
`srv/blockchain/signing/submission-finalizer.ts` and what they persist through
`srv/blockchain/cardano-indexer.ts`, on any number of instances.  A transaction is one
step; the network call runs outside of any, and an instance may crash between two steps.
-/

namespace Odatano

/-! ## Rows and statements -/

inductive SigningStatus
  | pending
  | signed
  | verified
  | submitting
  | submitted
  | failed
  | expired
deriving DecidableEq

structure SigningRequest where
  id : String
  buildId : Option String
  txBodyHash : TxHash
  status : SigningStatus
  expiresAt : Time
  /-- Stored by a deferred submission only. -/
  signedTxCbor : Option SignedTx
  submissionId : Option String
deriving DecidableEq

structure TransactionSubmission where
  id : String
  buildId : String
  signedTxCbor : SignedTx
  txHash : TxHash
deriving DecidableEq

abbrev SigningRequestTable := Table SigningRequest.id

def persistSigningRequest (requests : SigningRequestTable) (signingRequestId buildId : String)
    (txBodyHash : TxHash) (expiresAt : Time) : Option SigningRequestTable :=
  requests.insertAll? [⟨signingRequestId, some buildId, txBodyHash, .pending, expiresAt, none, none⟩]

/-- Expires a pending signing request past its TTL. -/
def checkAndExpireSigningRequest (requests : SigningRequestTable) (signingRequestId : String)
    (now : Time) : SigningRequestTable :=
  requests.update
    (fun request =>
      request.id = signingRequestId ∧ request.status = .pending ∧ request.expiresAt ≤ now)
    (fun request => { request with status := .expired }) fun _ => rfl

/-- The bulk expiry before a read. -/
def expirePendingRequests (requests : SigningRequestTable) (now : Time) : SigningRequestTable :=
  requests.update (fun request => request.status = .pending ∧ request.expiresAt ≤ now)
    (fun request => { request with status := .expired }) fun _ => rfl

/-- The claim of `VerifySignature`, so concurrent verifies cannot both pass. -/
def claimVerification (requests : SigningRequestTable) (signingRequestId : String) (now : Time) :
    SigningRequestTable :=
  requests.update
    (fun request =>
      request.id = signingRequestId ∧ request.status = .pending ∧ now < request.expiresAt)
    (fun request => { request with status := .signed }) fun _ => rfl

def persistSignatureVerification (requests : SigningRequestTable) (signingRequestId : String)
    (isValid : Bool) : SigningRequestTable :=
  requests.update (fun request => request.id = signingRequestId)
    (fun request => { request with status := if isValid then .verified else .failed })
    fun _ => rfl

/-- The claim of `SubmitVerifiedTransaction`; the deferred path also stores the signed
bytes, so that an interrupted submission can be re-driven. -/
def claimSubmission (requests : SigningRequestTable) (signingRequestId : String)
    (fullSignedTxCbor : SignedTx) (deferSubmit : Bool) (now : Time) : SigningRequestTable :=
  requests.update
    (fun request =>
      request.id = signingRequestId ∧
        (request.status = .pending ∨ request.status = .verified) ∧ now < request.expiresAt)
    (fun request =>
      { request with
        status := .submitting
        signedTxCbor := if deferSubmit then some fullSignedTxCbor else request.signedTxCbor })
    fun _ => rfl

/-- After a submit error. -/
def markSigningRequestFailed (requests : SigningRequestTable) (signingRequestId : String) :
    SigningRequestTable :=
  requests.update (fun request => request.id = signingRequestId)
    (fun request => { request with status := .failed }) fun _ => rfl

/-- What `indexVerifiedTransactionSubmission` writes to the signing request. -/
def markSigningRequestSubmitted (requests : SigningRequestTable)
    (signingRequestId submissionId : String) : SigningRequestTable :=
  requests.update (fun request => request.id = signingRequestId)
    (fun request => { request with status := .submitted, submissionId := some submissionId })
    fun _ => rfl

/-- The rows a redrive loads. -/
def interruptedSubmissions (requests : SigningRequestTable) : List SigningRequest :=
  requests.select fun request => request.status = .submitting && request.signedTxCbor.isSome

/-! ## Runs -/

/-- Where `submitAndFinalize` is. -/
inductive SubmitStage
  | sending
  | finalizing
  | markingFailed
deriving DecidableEq

/-- A call of `submitAndFinalize`, or one that is scheduled. -/
structure SubmitCall where
  owner : LeaseOwner
  signingRequestId : String
  buildId : String
  fullSignedTxCbor : SignedTx
  txHash : TxHash
  stage : SubmitStage
deriving DecidableEq

structure SigningState where
  requests : SigningRequestTable
  /-- The `TransactionSubmissions` rows, each with the request it was recorded for. -/
  submissions : List (String × TransactionSubmission)
  calls : List SubmitCall
  /-- Rows that a redrive of an instance loaded and has not come to. -/
  loaded : List (LeaseOwner × SigningRequest)
  /-- Claims for submission, and what the network accepted, newest first. -/
  claims : List String
  accepted : List (String × SignedTx)

def SigningState.start : SigningState := ⟨.empty, [], [], [], [], []⟩

section Steps

variable (allowed : SigningState → String → Prop)

/-- A redrive of a request must be `allowed` when it comes to it. -/
inductive SigningStep : SigningState → SigningState → Prop
  | create (s : SigningState) (signingRequestId buildId : String) (txBodyHash : TxHash)
      (expiresAt : Time) (requests : SigningRequestTable)
      (inserted : persistSigningRequest s.requests signingRequestId buildId txBodyHash expiresAt =
        some requests) : SigningStep s { s with requests }
  | expire (s : SigningState) (signingRequestId : String) (now : Time) :
      SigningStep s
        { s with requests := checkAndExpireSigningRequest s.requests signingRequestId now }
  | expirePending (s : SigningState) (now : Time) :
      SigningStep s { s with requests := expirePendingRequests s.requests now }
  | verify (s : SigningState) (request : SigningRequest) (isValid : Bool) (now : Time)
      (requestMem : request ∈ s.requests.rows) (pending : request.status = .pending)
      (unexpired : now < request.expiresAt) :
      SigningStep s
        { s with
          requests :=
            persistSignatureVerification (claimVerification s.requests request.id now) request.id
              isValid }
  -- an error after the claim that a surrounding transaction swallows
  | verifyThrows (s : SigningState) (signingRequestId : String) (now : Time) :
      SigningStep s { s with requests := claimVerification s.requests signingRequestId now }
  | claim (s : SigningState) (owner : LeaseOwner) (request : SigningRequest) (buildId : String)
      (fullSignedTxCbor : SignedTx) (deferSubmit : Bool) (now : Time)
      (requestMem : request ∈ s.requests.rows) (built : request.buildId = some buildId)
      (claimable : request.status = .pending ∨ request.status = .verified)
      (unexpired : now < request.expiresAt)
      (verified : fullSignedTxCbor.hash = request.txBodyHash) :
      SigningStep s
        { s with
          requests := claimSubmission s.requests request.id fullSignedTxCbor deferSubmit now
          claims := request.id :: s.claims
          calls :=
            ⟨owner, request.id, buildId, fullSignedTxCbor, request.txBodyHash, .sending⟩ :: s.calls }
  | redriveLoad (s : SigningState) (owner : LeaseOwner) :
      SigningStep s
        { s with
          loaded := (interruptedSubmissions s.requests).map (Prod.mk owner) ++ s.loaded }
  -- the verification of the stored bytes throws
  | redriveSkip (s : SigningState) (before after : List (LeaseOwner × SigningRequest))
      (owner : LeaseOwner) (request : SigningRequest)
      (next : s.loaded = before ++ (owner, request) :: after) :
      SigningStep s { s with loaded := before ++ after }
  | redrive (s : SigningState) (before after : List (LeaseOwner × SigningRequest))
      (owner : LeaseOwner) (request : SigningRequest) (signedTxCbor : SignedTx)
      (next : s.loaded = before ++ (owner, request) :: after)
      (stored : request.signedTxCbor = some signedTxCbor)
      (verified : signedTxCbor.hash = request.txBodyHash) (may : allowed s request.id) :
      SigningStep s
        { s with
          loaded := before ++ after
          calls :=
            ⟨owner, request.id, request.buildId.getD "", signedTxCbor, request.txBodyHash,
              .sending⟩ :: s.calls }
  | accept (s : SigningState) (before after : List SubmitCall) (call : SubmitCall)
      (running : s.calls = before ++ call :: after) (sending : call.stage = .sending) :
      SigningStep s
        { s with
          accepted := (call.signingRequestId, call.fullSignedTxCbor) :: s.accepted
          calls := before ++ { call with stage := .finalizing } :: after }
  -- accepted by a backend that the client did not hear
  | acceptUnanswered (s : SigningState) (call : SubmitCall) (running : call ∈ s.calls)
      (sending : call.stage = .sending) :
      SigningStep s
        { s with accepted := (call.signingRequestId, call.fullSignedTxCbor) :: s.accepted }
  | alreadySubmitted (s : SigningState) (before after : List SubmitCall) (call : SubmitCall)
      (running : s.calls = before ++ call :: after) (sending : call.stage = .sending) :
      SigningStep s { s with calls := before ++ { call with stage := .finalizing } :: after }
  | submitError (s : SigningState) (before after : List SubmitCall) (call : SubmitCall)
      (running : s.calls = before ++ call :: after) (sending : call.stage = .sending) :
      SigningStep s { s with calls := before ++ { call with stage := .markingFailed } :: after }
  | finalize (s : SigningState) (before after : List SubmitCall) (call : SubmitCall)
      (submissionId : String) (running : s.calls = before ++ call :: after)
      (finalizing : call.stage = .finalizing) :
      SigningStep s
        { s with
          requests := markSigningRequestSubmitted s.requests call.signingRequestId submissionId
          submissions :=
            (call.signingRequestId,
              ⟨submissionId, call.buildId, call.fullSignedTxCbor, call.txHash⟩) :: s.submissions
          calls := before ++ after }
  | markFailed (s : SigningState) (before after : List SubmitCall) (call : SubmitCall)
      (running : s.calls = before ++ call :: after) (failing : call.stage = .markingFailed) :
      SigningStep s
        { s with
          requests := markSigningRequestFailed s.requests call.signingRequestId
          calls := before ++ after }
  -- the transaction of the outcome fails
  | outcomeUnwritten (s : SigningState) (before after : List SubmitCall) (call : SubmitCall)
      (running : s.calls = before ++ call :: after) :
      SigningStep s { s with calls := before ++ after }
  | crash (s : SigningState) (owner : LeaseOwner) :
      SigningStep s
        { s with
          calls := s.calls.filter fun call => call.owner ≠ owner
          loaded := s.loaded.filter fun entry => entry.1 ≠ owner }

def SigningRun (s s' : SigningState) : Prop :=
  Relation.ReflTransGen (SigningStep allowed) s s'

end Steps

/-! ## The order of the statuses -/

/-- How far a status is; submitted, failed and expired are ends. -/
def SigningStatus.rank : SigningStatus → Nat
  | .pending => 0
  | .signed => 1
  | .verified => 2
  | .submitting => 3
  | .submitted | .failed | .expired => 4

/-- A status moves forward, or stays. -/
def SigningStatus.Forward (before after : SigningStatus) : Prop :=
  before = after ∨ before.rank < after.rank

namespace SigningStatus.Forward

theorem rank_le {before after : SigningStatus} (forward : before.Forward after) :
    before.rank ≤ after.rank := by
  rcases forward with rfl | less
  · exact Nat.le_refl _
  · exact Nat.le_of_lt less

theorem trans {first second third : SigningStatus} (before : first.Forward second)
    (after : second.Forward third) : first.Forward third := by
  rcases before with rfl | less
  · exact after
  · exact .inr (Nat.lt_of_lt_of_le less after.rank_le)

/-- An end stays. -/
theorem submitted_eq {after : SigningStatus} (forward : SigningStatus.Forward .submitted after) :
    after = .submitted := by
  rcases forward with rfl | less
  · rfl
  · cases after <;> exact absurd less (by decide)

end SigningStatus.Forward

namespace SigningRequestTable

/-- Every request is kept, with its hash, and its status moves forward. -/
def Advances (before after : SigningRequestTable) : Prop :=
  ∀ request ∈ before.rows, ∃ later ∈ after.rows, later.id = request.id ∧
    later.txBodyHash = request.txBodyHash ∧ request.status.Forward later.status

/-- The request with an id is stored and as described. -/
def Has (requests : SigningRequestTable) (signingRequestId : String)
    (described : SigningRequest → Prop) : Prop :=
  ∃ request ∈ requests.rows, request.id = signingRequestId ∧ described request

/-- The request with an id is being submitted, with a hash. -/
def Submitting (requests : SigningRequestTable) (signingRequestId : String) (hash : TxHash) :
    Prop :=
  requests.Has signingRequestId fun request =>
    request.status = .submitting ∧ request.txBodyHash = hash

variable {requests requests' requests'' : SigningRequestTable} {signingRequestId : String}

theorem Advances.refl (requests : SigningRequestTable) : requests.Advances requests :=
  fun request requestMem => ⟨request, requestMem, rfl, rfl, .inl rfl⟩

theorem Advances.trans (first : requests.Advances requests')
    (second : requests'.Advances requests'') : requests.Advances requests'' := by
  intro request requestMem
  obtain ⟨later, laterMem, sameId, sameHash, forward⟩ := first request requestMem
  obtain ⟨last, lastMem, lastId, lastHash, onward⟩ := second later laterMem
  exact ⟨last, lastMem, lastId.trans sameId, lastHash.trans sameHash, forward.trans onward⟩

theorem Has.advance {described described' : SigningRequest → Prop}
    (stored : requests.Has signingRequestId described) (advances : requests.Advances requests')
    (keeps : ∀ request later : SigningRequest, later.txBodyHash = request.txBodyHash →
      request.status.Forward later.status → described request → described' later) :
    requests'.Has signingRequestId described' := by
  obtain ⟨request, requestMem, sameId, holds⟩ := stored
  obtain ⟨later, laterMem, laterId, sameHash, forward⟩ := advances request requestMem
  exact ⟨later, laterMem, laterId.trans sameId, keeps request later sameHash forward holds⟩

section Updates

variable {selected : SigningRequest → Bool} {change : SigningRequest → SigningRequest}
  {keepsId : ∀ request, (change request).id = request.id}

theorem Advances.update
    (forward : ∀ request ∈ requests.rows, selected request = true →
      (change request).txBodyHash = request.txBodyHash ∧
        request.status.Forward (change request).status) :
    requests.Advances (requests.update selected change keepsId) := by
  intro request requestMem
  refine ⟨_, List.mem_map_of_mem requestMem, ?_⟩
  by_cases chosen : selected request = true
  · rw [if_pos chosen]
    exact ⟨keepsId request, forward request requestMem chosen⟩
  · rw [if_neg chosen]
    exact ⟨rfl, rfl, .inl rfl⟩

/-- An update leaves a request that it does not select. -/
theorem Submitting.update {hash : TxHash} (submitting : requests.Submitting signingRequestId hash)
    (spared : ∀ request : SigningRequest, request.id = signingRequestId →
      request.status = .submitting → selected request = false) :
    SigningRequestTable.Submitting (requests.update selected change keepsId) signingRequestId
      hash := by
  obtain ⟨request, requestMem, sameId, status, sameHash⟩ := submitting
  have unselected := spared request sameId status
  refine ⟨request, List.mem_map.mpr ⟨request, requestMem, ?_⟩, sameId, status, sameHash⟩
  rw [unselected, if_neg Bool.false_ne_true]

end Updates

end SigningRequestTable

/-! ## The invariant -/

/-- A redriven request is still being submitted, and no other call submits it. -/
def RedrivenAlone (s : SigningState) (signingRequestId : String) : Prop :=
  (∀ call ∈ s.calls, call.signingRequestId ≠ signingRequestId) ∧
    s.requests.Has signingRequestId fun request => request.status = .submitting

structure SigningState.Sound (s : SigningState) : Prop where
  inFlight : ∀ call ∈ s.calls, s.requests.Submitting call.signingRequestId call.txHash ∧
    call.fullSignedTxCbor.hash = call.txHash
  alone : (s.calls.map SubmitCall.signingRequestId).Nodup
  claimed : ∀ signingRequestId ∈ s.claims, s.requests.Has signingRequestId fun request =>
    SigningStatus.submitting.rank ≤ request.status.rank
  claimedOnce : s.claims.Nodup
  recorded : ∀ entry ∈ s.submissions, s.requests.Has entry.1 fun request =>
    request.status = .submitted ∧ request.txBodyHash = entry.2.txHash
  recordedOnce : (s.submissions.map Prod.fst).Nodup
  loaded : ∀ entry ∈ s.loaded, s.requests.Has entry.2.id fun request =>
    request.txBodyHash = entry.2.txBodyHash
  accepted : ∀ entry ∈ s.accepted, s.requests.Has entry.1 fun request =>
    request.txBodyHash = entry.2.hash

namespace SigningState.Sound

variable {s : SigningState}

/-- A change of the requests that moves them forward and leaves those in flight. -/
theorem withRequests (sound : s.Sound) {requests : SigningRequestTable}
    (advances : s.requests.Advances requests)
    (spared : ∀ call ∈ s.calls, s.requests.Submitting call.signingRequestId call.txHash →
      requests.Submitting call.signingRequestId call.txHash) :
    SigningState.Sound { s with requests } where
  inFlight call callMem :=
    ⟨spared call callMem (sound.inFlight call callMem).1, (sound.inFlight call callMem).2⟩
  alone := sound.alone
  claimed id idMem := (sound.claimed id idMem).advance advances
    fun _ _ _ forward far => Nat.le_trans far forward.rank_le
  claimedOnce := sound.claimedOnce
  recorded entry entryMem := by
    refine (sound.recorded entry entryMem).advance advances ?_
    rintro request later sameHash forward ⟨submitted, hash⟩
    exact ⟨(submitted ▸ forward).submitted_eq, sameHash.trans hash⟩
  recordedOnce := sound.recordedOnce
  loaded entry entryMem := (sound.loaded entry entryMem).advance advances
    fun _ _ sameHash _ hash => sameHash.trans hash
  accepted entry entryMem := (sound.accepted entry entryMem).advance advances
    fun _ _ sameHash _ hash => sameHash.trans hash

/-- Calls that end or go on. -/
theorem withCalls (sound : s.Sound) {calls : List SubmitCall}
    (fewer : (calls.map SubmitCall.signingRequestId).Sublist
      (s.calls.map SubmitCall.signingRequestId))
    (known : ∀ call ∈ calls, ∃ stage, { call with stage } ∈ s.calls) :
    SigningState.Sound { s with calls } :=
  { sound with
    inFlight := fun call callMem =>
      (known call callMem).elim fun stage old => sound.inFlight { call with stage } old
    alone := sound.alone.sublist fewer }

theorem restaged (sound : s.Sound) {before after : List SubmitCall} {call : SubmitCall}
    (running : s.calls = before ++ call :: after) (stage : SubmitStage) :
    SigningState.Sound { s with calls := before ++ { call with stage } :: after } := by
  refine sound.withCalls (by simp [running]) fun other otherMem => ?_
  rw [running]
  simp only [List.mem_append, List.mem_cons] at otherMem ⊢
  rcases otherMem with old | rfl | old
  · exact ⟨other.stage, .inl old⟩
  · exact ⟨call.stage, .inr (.inl rfl)⟩
  · exact ⟨other.stage, .inr (.inr old)⟩

theorem ended (sound : s.Sound) {before after : List SubmitCall} {call : SubmitCall}
    (running : s.calls = before ++ call :: after) :
    SigningState.Sound { s with calls := before ++ after } := by
  refine sound.withCalls (by simp [running]) fun other otherMem => ⟨other.stage, ?_⟩
  rw [running]
  simp only [List.mem_append, List.mem_cons] at otherMem ⊢
  exact otherMem.imp_right .inr

theorem accept (sound : s.Sound) {call : SubmitCall} (callMem : call ∈ s.calls) :
    SigningState.Sound
      { s with accepted := (call.signingRequestId, call.fullSignedTxCbor) :: s.accepted } := by
  obtain ⟨⟨request, requestMem, sameId, -, sameHash⟩, hash⟩ := sound.inFlight call callMem
  refine { sound with accepted := fun entry entryMem => ?_ }
  rcases List.mem_cons.mp entryMem with rfl | old
  · exact ⟨request, requestMem, sameId, sameHash.trans hash.symm⟩
  · exact sound.accepted entry old

/-- A call that ends is not among the rest. -/
theorem others (sound : s.Sound) {before after : List SubmitCall} {call : SubmitCall}
    (running : s.calls = before ++ call :: after) {other : SubmitCall}
    (otherMem : other ∈ before ++ after) : other.signingRequestId ≠ call.signingRequestId := by
  intro same
  have nodup := sound.alone
  rw [running, List.map_append, List.map_cons, List.nodup_middle, List.nodup_cons,
    ← List.map_append] at nodup
  exact nodup.1 (List.mem_map.mpr ⟨other, otherMem, same⟩)

/-- The outcome of a call that ends. -/
theorem outcome (sound : s.Sound) {before after : List SubmitCall} {call : SubmitCall}
    (running : s.calls = before ++ call :: after)
    {change : SigningRequest → SigningRequest}
    {keepsId : ∀ request, (change request).id = request.id}
    (keepsHash : ∀ request, (change request).txBodyHash = request.txBodyHash)
    (ends : ∀ request, (change request).status.rank = 4) :
    s.requests.Advances
        (s.requests.update (fun request => request.id = call.signingRequestId) change keepsId) ∧
      SigningState.Sound
        { s with
          requests :=
            s.requests.update (fun request => request.id = call.signingRequestId) change keepsId
          calls := before ++ after } := by
  have callMem : call ∈ s.calls := running ▸ List.mem_append_right _ List.mem_cons_self
  obtain ⟨⟨stored, storedMem, storedId, submitting, -⟩, -⟩ := sound.inFlight call callMem
  have advances : s.requests.Advances
      (s.requests.update (fun request => request.id = call.signingRequestId) change keepsId) := by
    refine .update fun request requestMem chosen => ⟨keepsHash request, .inr ?_⟩
    have same : request = stored := Table.mem_rows_inj requestMem storedMem
      ((of_decide_eq_true chosen).trans storedId.symm)
    rw [ends, same, submitting]
    decide
  refine ⟨advances, (sound.ended running).withRequests advances fun other otherMem held => ?_⟩
  refine held.update fun request sameId _ => decide_eq_false fun same => ?_
  exact sound.others running otherMem (sameId.symm.trans same)

end SigningState.Sound

namespace SigningRequestTable

variable {requests : SigningRequestTable} {signingRequestId : String} {now : Time}

theorem advances_claimVerification :
    requests.Advances (claimVerification requests signingRequestId now) := by
  refine .update fun request _ chosen => ⟨rfl, .inr ?_⟩
  obtain ⟨-, pending, -⟩ := of_decide_eq_true chosen
  rw [pending]
  exact Nat.zero_lt_one

/-- An update of requests that are not being submitted. -/
theorem submitting_update {selected : SigningRequest → Bool}
    {change : SigningRequest → SigningRequest}
    {keepsId : ∀ request, (change request).id = request.id} {id : String} {hash : TxHash}
    (submitting : requests.Submitting id hash)
    (others : ∀ request, selected request = true → request.status ≠ .submitting) :
    SigningRequestTable.Submitting (requests.update selected change keepsId) id hash :=
  submitting.update fun request _ status =>
    Bool.eq_false_iff.mpr fun chosen => others request chosen status

theorem submitting_claimVerification {id : String} {hash : TxHash}
    (submitting : requests.Submitting id hash) :
    (claimVerification requests signingRequestId now).Submitting id hash := by
  refine submitting_update submitting fun request chosen status => ?_
  cases (of_decide_eq_true chosen).2.1.symm.trans status

end SigningRequestTable

section Runs

variable {s s' : SigningState}

open SigningRequestTable

theorem SigningState.Sound.create (sound : s.Sound) {signingRequestId buildId : String}
    {txBodyHash : TxHash} {expiresAt : Time} {requests : SigningRequestTable}
    (inserted : persistSigningRequest s.requests signingRequestId buildId txBodyHash expiresAt =
      some requests) :
    s.requests.Advances requests ∧ SigningState.Sound { s with requests } := by
  have rows := Table.rows_of_insertAll? inserted
  have advances : s.requests.Advances requests := fun request requestMem =>
    ⟨request, rows ▸ List.mem_append_left _ requestMem, rfl, rfl, .inl rfl⟩
  refine ⟨advances, sound.withRequests advances fun call _ held => ?_⟩
  obtain ⟨request, requestMem, described⟩ := held
  exact ⟨request, rows ▸ List.mem_append_left _ requestMem, described⟩

theorem SigningState.Sound.verify (sound : s.Sound) {request : SigningRequest} {isValid : Bool}
    {now : Time} (requestMem : request ∈ s.requests.rows) (pending : request.status = .pending)
    (unexpired : now < request.expiresAt) :
    s.requests.Advances
        (persistSignatureVerification (claimVerification s.requests request.id now) request.id
          isValid) ∧
      SigningState.Sound
        { s with
          requests :=
            persistSignatureVerification (claimVerification s.requests request.id now) request.id
              isValid } := by
  -- the row is signed when the outcome is written by its id
  have signed : ∀ row ∈ (claimVerification s.requests request.id now).rows,
      row.id = request.id → row.status = .signed := by
    intro row rowMem sameId
    obtain ⟨old, oldMem, rfl⟩ := List.mem_map.mp rowMem
    have same : old = request := by
      refine Table.mem_rows_inj oldMem requestMem ?_
      dsimp only at sameId
      split at sameId <;> exact sameId
    subst same
    dsimp only
    rw [if_pos (decide_eq_true ⟨rfl, pending, unexpired⟩)]
  have advances : s.requests.Advances
      (persistSignatureVerification (claimVerification s.requests request.id now) request.id
        isValid) := by
    refine advances_claimVerification.trans (.update fun row rowMem chosen => ⟨rfl, .inr ?_⟩)
    rw [signed row rowMem (of_decide_eq_true chosen)]
    cases isValid <;> simp [SigningStatus.rank]
  refine ⟨advances, sound.withRequests advances fun call callMem held => ?_⟩
  have kept := @submitting_claimVerification s.requests request.id now _ _ held
  obtain ⟨row, rowMem, sameId, submitting, hash⟩ := kept
  have different : row.id ≠ request.id := fun same => by
    cases (signed row rowMem same).symm.trans submitting
  refine ⟨row, List.mem_map.mpr ⟨row, rowMem, ?_⟩, sameId, submitting, hash⟩
  rw [if_neg]
  exact fun chosen => different (of_decide_eq_true chosen)

theorem SigningState.Sound.claim (sound : s.Sound) {owner : LeaseOwner}
    {request : SigningRequest} {buildId : String} {fullSignedTxCbor : SignedTx}
    {deferSubmit : Bool} {now : Time} (requestMem : request ∈ s.requests.rows)
    (claimable : request.status = .pending ∨ request.status = .verified)
    (unexpired : now < request.expiresAt)
    (verified : fullSignedTxCbor.hash = request.txBodyHash) :
    s.requests.Advances (claimSubmission s.requests request.id fullSignedTxCbor deferSubmit now) ∧
      SigningState.Sound
        { s with
          requests := claimSubmission s.requests request.id fullSignedTxCbor deferSubmit now
          claims := request.id :: s.claims
          calls :=
            ⟨owner, request.id, buildId, fullSignedTxCbor, request.txBodyHash, .sending⟩ ::
              s.calls } := by
  have low : request.status.rank < SigningStatus.submitting.rank := by
    rcases claimable with status | status <;> rw [status] <;> decide
  have unclaimed : ∀ described : SigningRequest → Prop, s.requests.Has request.id described →
      described request := by
    rintro described ⟨stored, storedMem, sameId, holds⟩
    exact Table.mem_rows_inj storedMem requestMem sameId ▸ holds
  have advances : s.requests.Advances
      (claimSubmission s.requests request.id fullSignedTxCbor deferSubmit now) := by
    refine .update fun row _ chosen => ⟨rfl, .inr ?_⟩
    obtain ⟨-, status | status, -⟩ := of_decide_eq_true chosen <;>
      simp [status, SigningStatus.rank]
  have kept := sound.withRequests advances fun call _ held => by
    refine submitting_update held fun row chosen status => ?_
    obtain ⟨-, other | other, -⟩ := of_decide_eq_true chosen <;> cases other.symm.trans status
  have claimed : (claimSubmission s.requests request.id fullSignedTxCbor deferSubmit
      now).Submitting request.id request.txBodyHash := by
    refine ⟨_, List.mem_map_of_mem requestMem, ?_⟩
    rw [if_pos (decide_eq_true ⟨rfl, claimable, unexpired⟩)]
    exact ⟨rfl, rfl, rfl⟩
  refine ⟨advances, { kept with inFlight := ?_, alone := ?_, claimed := ?_, claimedOnce := ?_ }⟩
  · intro call callMem
    rcases List.mem_cons.mp callMem with rfl | old
    · exact ⟨claimed, verified⟩
    · exact kept.inFlight call old
  · refine List.nodup_cons.mpr ⟨fun again => ?_, kept.alone⟩
    obtain ⟨call, callMem, sameId⟩ := List.mem_map.mp again
    have submitting := unclaimed _ (sameId ▸ (sound.inFlight call callMem).1)
    rw [submitting.1] at low
    exact Nat.lt_irrefl _ low
  · intro signingRequestId idMem
    rcases List.mem_cons.mp idMem with rfl | old
    · obtain ⟨row, rowMem, sameId, submitting, -⟩ := claimed
      exact ⟨row, rowMem, sameId, submitting ▸ Nat.le_refl _⟩
    · exact kept.claimed signingRequestId old
  · refine List.nodup_cons.mpr ⟨fun again => ?_, kept.claimedOnce⟩
    exact Nat.lt_irrefl _ (Nat.lt_of_lt_of_le low (unclaimed _ (sound.claimed _ again)))

theorem SigningState.Sound.redrive (sound : s.Sound)
    {before after : List (LeaseOwner × SigningRequest)} {owner : LeaseOwner}
    {request : SigningRequest} {signedTxCbor : SignedTx}
    (next : s.loaded = before ++ (owner, request) :: after)
    (verified : signedTxCbor.hash = request.txBodyHash) (may : RedrivenAlone s request.id) :
    SigningState.Sound
      { s with
        loaded := before ++ after
        calls :=
          ⟨owner, request.id, request.buildId.getD "", signedTxCbor, request.txBodyHash,
            .sending⟩ :: s.calls } := by
  obtain ⟨alone, stored, storedMem, storedId, submitting⟩ := may
  have loadedMem : (owner, request) ∈ s.loaded := next ▸ List.mem_append_right _ List.mem_cons_self
  obtain ⟨row, rowMem, sameId, sameHash⟩ := sound.loaded _ loadedMem
  have same : row = stored := Table.mem_rows_inj rowMem storedMem (sameId.trans storedId.symm)
  subst same
  refine { sound with inFlight := ?_, alone := ?_, loaded := ?_ }
  · intro call callMem
    rcases List.mem_cons.mp callMem with rfl | old
    · exact ⟨⟨row, rowMem, sameId, submitting, sameHash⟩, verified⟩
    · exact sound.inFlight call old
  · refine List.nodup_cons.mpr ⟨fun again => ?_, sound.alone⟩
    obtain ⟨call, callMem, callId⟩ := List.mem_map.mp again
    exact alone call callMem callId
  · intro entry entryMem
    refine sound.loaded entry (next ▸ ?_)
    simp only [List.mem_append, List.mem_cons] at entryMem ⊢
    exact entryMem.imp_right .inr

theorem SigningState.Sound.finalize (sound : s.Sound) {before after : List SubmitCall}
    {call : SubmitCall} {submissionId : String} (running : s.calls = before ++ call :: after) :
    s.requests.Advances
        (markSigningRequestSubmitted s.requests call.signingRequestId submissionId) ∧
      SigningState.Sound
        { s with
          requests := markSigningRequestSubmitted s.requests call.signingRequestId submissionId
          submissions :=
            (call.signingRequestId,
              ⟨submissionId, call.buildId, call.fullSignedTxCbor, call.txHash⟩) :: s.submissions
          calls := before ++ after } := by
  have callMem : call ∈ s.calls := running ▸ List.mem_append_right _ List.mem_cons_self
  obtain ⟨stored, storedMem, storedId, submitting, hash⟩ := (sound.inFlight call callMem).1
  obtain ⟨advances, kept⟩ := @SigningState.Sound.outcome s sound before after call running
    (fun request => { request with status := .submitted, submissionId := some submissionId })
    (fun _ => rfl) (fun _ => rfl) fun _ => rfl
  refine ⟨advances, { kept with recorded := ?_, recordedOnce := ?_ }⟩
  · intro entry entryMem
    rcases List.mem_cons.mp entryMem with rfl | old
    · refine ⟨_, List.mem_map_of_mem storedMem, ?_⟩
      rw [if_pos (decide_eq_true storedId)]
      exact ⟨storedId, rfl, hash⟩
    · exact kept.recorded entry old
  · refine List.nodup_cons.mpr ⟨fun again => ?_, kept.recordedOnce⟩
    obtain ⟨entry, entryMem, sameId⟩ := List.mem_map.mp again
    obtain ⟨row, rowMem, rowId, submitted, -⟩ := sound.recorded entry entryMem
    have same : row = stored :=
      Table.mem_rows_inj rowMem storedMem (rowId.trans (sameId.trans storedId.symm))
    cases submitted.symm.trans (same ▸ submitting)

theorem SigningStep.sound (step : SigningStep RedrivenAlone s s') (sound : s.Sound) :
    s.requests.Advances s'.requests ∧ s'.Sound := by
  cases step with
  | create signingRequestId buildId txBodyHash expiresAt requests inserted =>
      exact sound.create inserted
  | expire signingRequestId now =>
      have advances : s.requests.Advances
          (checkAndExpireSigningRequest s.requests signingRequestId now) := by
        refine .update fun row _ chosen => ⟨rfl, .inr ?_⟩
        simp [(of_decide_eq_true chosen).2.1, SigningStatus.rank]
      refine ⟨advances, sound.withRequests advances fun call _ held => ?_⟩
      refine submitting_update held fun row chosen status => ?_
      cases (of_decide_eq_true chosen).2.1.symm.trans status
  | expirePending now =>
      have advances : s.requests.Advances (expirePendingRequests s.requests now) := by
        refine .update fun row _ chosen => ⟨rfl, .inr ?_⟩
        simp [(of_decide_eq_true chosen).1, SigningStatus.rank]
      refine ⟨advances, sound.withRequests advances fun call _ held => ?_⟩
      refine submitting_update held fun row chosen status => ?_
      cases (of_decide_eq_true chosen).1.symm.trans status
  | verify request isValid now requestMem pending unexpired =>
      exact sound.verify requestMem pending unexpired
  | verifyThrows signingRequestId now =>
      exact ⟨advances_claimVerification, sound.withRequests advances_claimVerification
        fun _ _ held => submitting_claimVerification held⟩
  | claim owner request buildId fullSignedTxCbor deferSubmit now requestMem built claimable
      unexpired verified =>
      exact sound.claim requestMem claimable unexpired verified
  | redriveLoad owner =>
      refine ⟨.refl _, { sound with loaded := fun entry entryMem => ?_ }⟩
      rcases List.mem_append.mp entryMem with new | old
      · obtain ⟨request, requestMem, rfl⟩ := List.mem_map.mp new
        exact ⟨request, (Table.mem_select.mp requestMem).1, rfl, rfl⟩
      · exact sound.loaded entry old
  | redriveSkip before after owner request next =>
      refine ⟨.refl _, { sound with loaded := fun entry entryMem => sound.loaded entry ?_ }⟩
      rw [next]
      simp only [List.mem_append, List.mem_cons] at entryMem ⊢
      exact entryMem.imp_right .inr
  | redrive before after owner request signedTxCbor next stored verified may =>
      exact ⟨.refl _, sound.redrive next verified may⟩
  | accept before after call running sending =>
      have callMem : call ∈ s.calls := running ▸ List.mem_append_right _ List.mem_cons_self
      exact ⟨.refl _, (sound.accept callMem).restaged running .finalizing⟩
  | acceptUnanswered call running sending => exact ⟨.refl _, sound.accept running⟩
  | alreadySubmitted before after call running sending =>
      exact ⟨.refl _, sound.restaged running .finalizing⟩
  | submitError before after call running sending =>
      exact ⟨.refl _, sound.restaged running .markingFailed⟩
  | finalize before after call submissionId running finalizing =>
      exact sound.finalize running
  | markFailed before after call running failing =>
      exact sound.outcome running (fun _ => rfl) fun _ => rfl
  | outcomeUnwritten before after call running => exact ⟨.refl _, sound.ended running⟩
  | crash owner =>
      have kept : SigningState.Sound
          { s with calls := s.calls.filter fun call => call.owner ≠ owner } :=
        sound.withCalls (List.filter_sublist.map _) fun call callMem =>
          ⟨call.stage, (List.mem_filter.mp callMem).1⟩
      exact ⟨.refl _, { kept with
        loaded := fun entry entryMem => kept.loaded entry (List.mem_filter.mp entryMem).1 }⟩

theorem SigningState.Sound.start : SigningState.start.Sound where
  inFlight := nofun
  alone := List.nodup_nil
  claimed := nofun
  claimedOnce := List.nodup_nil
  recorded := nofun
  recordedOnce := List.nodup_nil
  loaded := nofun
  accepted := nofun

theorem SigningRun.sound (run : SigningRun RedrivenAlone s s') (sound : s.Sound) :
    s.requests.Advances s'.requests ∧ s'.Sound := by
  induction run with
  | refl => exact ⟨.refl _, sound⟩
  | tail _ step ih =>
      obtain ⟨advances, kept⟩ := step.sound ih.2
      exact ⟨ih.1.trans advances, kept⟩

/-- While a redrive only comes to requests that are still being submitted and that no
call submits, a request moves forward, is claimed once, and is recorded once. -/
theorem signingRequests_lifeCycle (run : SigningRun RedrivenAlone .start s)
    (more : SigningRun RedrivenAlone s s') :
    s.requests.Advances s'.requests ∧
      (∀ request ∈ s.requests.rows, request.status = .submitted →
        s'.requests.Has request.id fun later => later.status = .submitted) ∧
      s'.claims.Nodup ∧
      ∀ entry ∈ s'.accepted, (s'.submissions.map Prod.fst).count entry.1 ≤ 1 ∧
        ∀ submission, (entry.1, submission) ∈ s'.submissions →
          submission.txHash = entry.2.hash := by
  obtain ⟨advances, sound⟩ := more.sound (run.sound .start).2
  refine ⟨advances, ?_, sound.claimedOnce, fun entry entryMem => ⟨?_, ?_⟩⟩
  · intro request requestMem submitted
    obtain ⟨later, laterMem, sameId, -, forward⟩ := advances request requestMem
    exact ⟨later, laterMem, sameId, (submitted ▸ forward).submitted_eq⟩
  · exact List.nodup_iff_count_le_one.mp sound.recordedOnce entry.1
  · intro submission recorded
    obtain ⟨row, rowMem, rowId, -, recordedHash⟩ := sound.recorded _ recorded
    obtain ⟨other, otherMem, otherId, acceptedHash⟩ := sound.accepted entry entryMem
    cases Table.mem_rows_inj rowMem otherMem (rowId.trans otherId.symm)
    exact recordedHash.symm.trans acceptedHash

end Runs

section Samples

def signedBuild : SignedTx := ⟨text "h1", [], none⟩

/-- A request as it was claimed for a deferred submission. -/
def claimedRequest (status : SigningStatus) (submissionId : Option String) : SigningRequest :=
  ⟨"r1", some "b1", text "h1", status, 100, some signedBuild, submissionId⟩

def oneRequest (request : SigningRequest) : SigningRequestTable :=
  ⟨[request], List.nodup_singleton _⟩

def submitCall (owner : LeaseOwner) (stage : SubmitStage) : SubmitCall :=
  ⟨owner, "r1", "b1", signedBuild, text "h1", stage⟩

/-- A deferred submission of one instance, claimed and not yet answered. -/
def deferredSubmission : SigningState :=
  { SigningState.start with
    requests := oneRequest (claimedRequest .submitting none)
    calls := [submitCall "a" .sending]
    claims := ["r1"] }

theorem persistSigningRequest_first :
    persistSigningRequest .empty "r1" "b1" (text "h1") 100 =
      some (oneRequest ⟨"r1", some "b1", text "h1", .pending, 100, none, none⟩) := by
  unfold persistSigningRequest Table.insertAll?
  split
  · rfl
  · rename_i twice
    exact absurd (List.nodup_singleton "r1") twice

theorem deferredSubmission_run {allowed : SigningState → String → Prop} :
    SigningRun allowed .start deferredSubmission := by
  have created : SigningStep allowed .start
      { SigningState.start with
        requests := oneRequest ⟨"r1", some "b1", text "h1", .pending, 100, none, none⟩ } :=
    .create .start "r1" "b1" (text "h1") 100 _ persistSigningRequest_first
  exact .tail (.single created)
    (.claim _ "a" ⟨"r1", some "b1", text "h1", .pending, 100, none, none⟩ "b1" signedBuild true 1
      List.mem_cons_self rfl (.inl rfl) (by decide +kernel) rfl)

def recordedSubmission (id : String) : String × TransactionSubmission :=
  ("r1", ⟨id, "b1", signedBuild, text "h1"⟩)

/-- Accepted and recorded. -/
def submittedRequest : SigningState :=
  { deferredSubmission with
    requests := oneRequest (claimedRequest .submitted (some "s1"))
    submissions := [recordedSubmission "s1"]
    calls := []
    accepted := [("r1", signedBuild)] }

theorem submittedRequest_run {allowed : SigningState → String → Prop} :
    SigningRun allowed deferredSubmission submittedRequest :=
  .tail (.single (.accept _ [] [] (submitCall "a" .sending) rfl rfl))
    (.finalize _ [] [] (submitCall "a" .finalizing) "s1" rfl rfl)

theorem signingRequests_lifeCycle_sample :
    deferredSubmission.requests.Advances submittedRequest.requests ∧
      (submittedRequest.submissions.map Prod.fst).count "r1" ≤ 1 ∧
      text "h1" = signedBuild.hash := by
  obtain ⟨advances, -, -, accepted⟩ :=
    signingRequests_lifeCycle deferredSubmission_run submittedRequest_run
  obtain ⟨once, hash⟩ := accepted ("r1", signedBuild) List.mem_cons_self
  exact ⟨advances, once, hash (recordedSubmission "s1").2 List.mem_cons_self⟩

/-- A second instance booted and re-drives the request while the first call is in
flight; the first is accepted and recorded. -/
def redrivenInFlight (stage : SubmitStage) : SigningState :=
  { submittedRequest with calls := [submitCall "b" stage] }

theorem redrivenInFlight_run :
    SigningRun (fun _ _ => True) .start (redrivenInFlight .sending) := by
  have loaded : SigningStep (fun _ _ => True) deferredSubmission
      { deferredSubmission with loaded := [("b", claimedRequest .submitting none)] } :=
    .redriveLoad _ "b"
  have redriven : SigningStep (fun _ _ => True)
      { deferredSubmission with loaded := [("b", claimedRequest .submitting none)] }
      { deferredSubmission with calls := [submitCall "b" .sending, submitCall "a" .sending] } :=
    .redrive _ [] [] "b" (claimedRequest .submitting none) signedBuild rfl rfl rfl trivial
  exact (((deferredSubmission_run.tail loaded).tail redriven).tail
    (.accept _ [submitCall "b" .sending] [] (submitCall "a" .sending) rfl rfl)).tail
    (.finalize _ [submitCall "b" .sending] [] (submitCall "a" .finalizing) "s1" rfl rfl)

/-- The second call's answer fails a submitted request, or records it again. -/
theorem signingRequests_redrivenInFlight :
    ∃ s failed recorded : SigningState, SigningRun (fun _ _ => True) .start s ∧
      SigningRun (fun _ _ => True) s failed ∧ SigningRun (fun _ _ => True) s recorded ∧
      s.requests.rows.map SigningRequest.status = [.submitted] ∧
      failed.requests.rows.map SigningRequest.status = [.failed] ∧
      ("r1", signedBuild) ∈ recorded.accepted ∧
      (recorded.submissions.map Prod.fst).count "r1" = 2 := by
  refine ⟨redrivenInFlight .sending, _, _, redrivenInFlight_run,
    .tail (.single (.submitError _ [] [] (submitCall "b" .sending) rfl rfl))
      (.markFailed _ [] [] (submitCall "b" .markingFailed) rfl rfl),
    .tail (.single (.alreadySubmitted _ [] [] (submitCall "b" .sending) rfl rfl))
      (.finalize _ [] [] (submitCall "b" .finalizing) "s2" rfl rfl), ?_, ?_, ?_, ?_⟩ <;>
    decide +kernel

end Samples

end Odatano
