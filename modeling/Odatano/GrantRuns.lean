import Odatano.AgentGrants

/-!
# What grants keep, and what a request under one may do

Runs of the grant actions, in which the SELECT and the UPDATE of an update are
separate steps.  The checks of an update see the row its SELECT read, its UPDATE
writes only the given fields.
-/

namespace Odatano

/-! ## The store -/

/-- An update between its SELECT and its UPDATE. -/
structure PendingUpdate where
  grantId : GrantId
  existing : AgentGrant
  patch : GrantPatch
deriving DecidableEq

structure GrantStore where
  grants : Table AgentGrant.ID
  updates : List PendingUpdate

/-- A conditional UPDATE of the active grant with an id, and the rows it matches. -/
def updateActive (grants : Table AgentGrant.ID) (grantId : GrantId)
    (set : AgentGrant → AgentGrant) (keepsId : ∀ row, (set row).ID = row.ID) :
    Table AgentGrant.ID × Nat :=
  (grants.update (fun row => row.ID = grantId ∧ row.isActive = true) set keepsId,
    (grants.select fun row => row.ID = grantId ∧ row.isActive = true).length)

def revokeAgentGrantById (grants : Table AgentGrant.ID) (grantId : GrantId) (now : Time) :
    Table AgentGrant.ID × Nat :=
  updateActive grants grantId (·.revoked now) fun _ => rfl

def rotateAgentGrantToken (grants : Table AgentGrant.ID) (grantId : GrantId)
    (tokenHash : TokenHash) : Table AgentGrant.ID × Nat :=
  updateActive grants grantId (·.rotated tokenHash) fun _ => rfl

/-- The UPDATE of `updateAgentGrant`; no row matched is its second refusal. -/
def writeUpdate (grants : Table AgentGrant.ID) (u : PendingUpdate) : Table AgentGrant.ID × Nat :=
  updateActive grants u.grantId u.patch.apply fun _ => rfl

/-- The columns that enforcement writes. -/
def AgentGrant.spent (jobsUsedToday : Int) (budgetWindow : Option UtcDay)
    (lastUsedAt : Option Time) (grant : AgentGrant) : AgentGrant :=
  { grant with jobsUsedToday, budgetWindow, lastUsedAt }

inductive GrantStep (allowed : GrantStore → PendingUpdate → Prop) : GrantStore → GrantStore → Prop
  | issue (s : GrantStore) (input : IssueAgentGrantInput) (operatorId : String) (ID : GrantId)
      (tokenHash : TokenHash) (now : Time) (row : AgentGrant) (grants : Table AgentGrant.ID)
      (valid : issueAgentGrant input operatorId ID tokenHash now = .ok row)
      (inserted : s.grants.insertAll? [row] = some grants) :
      GrantStep allowed s { s with grants }
  | select (s : GrantStore) (grantId : GrantId) (input : UpdateAgentGrantInput) (now : Time)
      (existing : AgentGrant) (patch : GrantPatch) (found : s.grants.find? grantId = some existing)
      (valid : prepareUpdate (some existing) input now = .ok (some patch)) :
      GrantStep allowed s { s with updates := ⟨grantId, existing, patch⟩ :: s.updates }
  | refuse (s : GrantStore) (grantId : GrantId) (input : UpdateAgentGrantInput) (now : Time)
      (refusal : UpdateRefusal)
      (refused : prepareUpdate (s.grants.find? grantId) input now = .error refusal) :
      GrantStep allowed s s
  | write (grants : Table AgentGrant.ID) (earlier later : List PendingUpdate) (u : PendingUpdate)
      (may : allowed ⟨grants, earlier ++ u :: later⟩ u) :
      GrantStep allowed ⟨grants, earlier ++ u :: later⟩
        ⟨(writeUpdate grants u).1, earlier ++ later⟩
  -- the transaction of an update ends without its UPDATE
  | abandon (grants : Table AgentGrant.ID) (earlier later : List PendingUpdate)
      (u : PendingUpdate) :
      GrantStep allowed ⟨grants, earlier ++ u :: later⟩ ⟨grants, earlier ++ later⟩
  | revoke (s : GrantStore) (grantId : GrantId) (now : Time) :
      GrantStep allowed s { s with grants := (revokeAgentGrantById s.grants grantId now).1 }
  | rotate (s : GrantStore) (grantId : GrantId) (tokenHash : TokenHash) :
      GrantStep allowed s { s with grants := (rotateAgentGrantToken s.grants grantId tokenHash).1 }
  -- the budget statements and `touchLastUsed`
  | spend (s : GrantStore) (grantId : GrantId) (jobsUsedToday : Int)
      (budgetWindow : Option UtcDay) (lastUsedAt : Option Time) :
      GrantStep allowed s
        { s with
          grants := s.grants.update (fun row => row.ID = grantId)
            (AgentGrant.spent jobsUsedToday budgetWindow lastUsedAt) fun _ => rfl }

inductive GrantRun (allowed : GrantStore → PendingUpdate → Prop) (start : GrantStore) :
    GrantStore → Prop
  | refl : GrantRun allowed start start
  | step {s s' : GrantStore} (before : GrantRun allowed start s) (step : GrantStep allowed s s') :
      GrantRun allowed start s'

/-- Of two lists that are checked against each other, an update that writes one
finds the other as its SELECT read it. -/
def Undisturbed (s : GrantStore) (u : PendingUpdate) : Prop :=
  ∀ row, s.grants.find? u.grantId = some row →
    (u.patch.allowedActions.isSome → u.patch.allowedJobKinds = none →
      row.allowedJobKinds = u.existing.allowedJobKinds) ∧
    (u.patch.allowedJobKinds.isSome → u.patch.allowedActions = none →
      row.allowedActions = u.existing.allowedActions)

/-! ## What a grant keeps -/

def AgentGrant.jobKinds (grant : AgentGrant) : List String := grant.allowedJobKinds.getD []

structure AgentGrant.WellFormed (grant : AgentGrant) : Prop where
  nonempty : grant.allowedActions ≠ []
  grantable : ∀ a ∈ grant.allowedActions, a ∈ AGENT_ALLOWLISTABLE_ACTIONS
  wallet : ∀ a ∈ grant.allowedActions, isWalletAction a = true →
    ∃ walletId, grant.walletId = some walletId ∧ walletId ≠ ""
  knownKinds : ∀ k ∈ grant.jobKinds, k ∈ AGENT_JOB_KINDS
  positive : ∀ n, grant.maxJobsPerDay = some n → 1 ≤ n

/-- Job kinds are stored only together with a wallet action. -/
def AgentGrant.KindsNeedWallet (grant : AgentGrant) : Prop :=
  grant.jobKinds ≠ [] → ∃ a ∈ grant.allowedActions, isWalletAction a = true

/-! ## What the checks promise -/

section Checks

variable {fail : String → String → AgentGrantInputError} {wantsWallet : Bool}

theorem checkAllowedActions_ok {input : ListInput} {actions : List String}
    (ok : checkAllowedActions fail input = .ok actions) :
    actions ≠ [] ∧ (∀ a ∈ actions, a ∈ AGENT_ALLOWLISTABLE_ACTIONS) ∧
      ∃ values, input = .list values ∧ actions = distinct values := by
  match input, ok with
  | .list (first :: rest), ok =>
      simp only [checkAllowedActions] at ok
      split at ok
      · cases ok
      · rename_i known
        cases ok
        refine ⟨List.ne_nil_of_mem (mem_distinct.mpr List.mem_cons_self), ?_, _, rfl, rfl⟩
        intro a aMem
        rw [not_not, List.filter_eq_nil_iff] at known
        simpa using known a (mem_distinct.mp aMem)

theorem trimmed_empty : trimmed "" = "" := by decide

theorem nonBlank_eq_some {text : Option String} {kept : String} (some_ : nonBlank text = some kept) :
    kept ≠ "" ∧ ∃ given, text = some given ∧ given ≠ "" := by
  obtain ⟨given, rfl, trimmedGiven⟩ := Option.bind_eq_some_iff.mp some_
  split at trimmedGiven
  · cases trimmedGiven
  · rename_i notBlank
    cases trimmedGiven
    refine ⟨notBlank, given, rfl, ?_⟩
    rintro rfl
    exact notBlank trimmed_empty

theorem checkWalletId_ok {input walletId : Option String}
    (ok : checkWalletId fail wantsWallet input = .ok walletId) (wants : wantsWallet = true) :
    (∃ kept, walletId = some kept ∧ kept ≠ "") ∧ ∃ given, input = some given ∧ given ≠ "" := by
  subst wants
  rw [checkWalletId] at ok
  split at ok
  · cases ok
  · rename_i kept found
    split at ok
    · cases ok
    · cases ok
      obtain ⟨notBlank, given⟩ := nonBlank_eq_some found
      exact ⟨⟨kept, rfl, notBlank⟩, given⟩

theorem checkAllowedJobKinds_ok {input : ListInput} {kinds : List String}
    (ok : checkAllowedJobKinds fail wantsWallet input = .ok kinds) :
    (∀ k ∈ kinds, k ∈ AGENT_JOB_KINDS) ∧ (kinds ≠ [] → wantsWallet = true) ∧
      ∀ values, input = .list values → kinds = distinct values := by
  match input, ok with
  | .missing, ok =>
      cases ok
      exact ⟨nofun, fun nonempty => absurd rfl nonempty, nofun⟩
  | .list values, ok =>
      simp only [checkAllowedJobKinds] at ok
      split at ok
      · cases ok
      · rename_i known
        split at ok
        · cases ok
        · rename_i wanted
          cases ok
          refine ⟨?_, ?_, ?_⟩
          · intro k kMem
            rw [not_not, List.filter_eq_nil_iff] at known
            simpa using known k (mem_distinct.mp kMem)
          · intro nonempty
            by_contra unwanted
            exact wanted ⟨nonempty, Bool.eq_false_iff.mpr unwanted⟩
          · rintro others ⟨⟩
            rfl

theorem checkMaxJobsPerDay_ok {input : NumberInput} {max : Option Int}
    (ok : checkMaxJobsPerDay fail input = .ok max) : ∀ n, max = some n → 1 ≤ n := by
  intro n isMax
  match input, ok with
  | .missing, ok =>
      cases ok
      cases isMax
  | .integer given, ok =>
      simp only [checkMaxJobsPerDay] at ok
      split at ok
      · cases ok
      · cases ok
        cases isMax
        omega

end Checks

/-- What every checked input has. -/
structure NormalizedGrantInput.Checked (input : IssueAgentGrantInput) (n : NormalizedGrantInput) :
    Prop where
  nonempty : n.allowedActions ≠ []
  grantable : ∀ a ∈ n.allowedActions, a ∈ AGENT_ALLOWLISTABLE_ACTIONS
  actions : ∃ values, input.allowedActions = .list values ∧ n.allowedActions = distinct values
  wallet : ∀ a ∈ n.allowedActions, isWalletAction a = true →
    (∃ kept, n.walletId = some kept ∧ kept ≠ "") ∧ ∃ given, input.walletId = some given ∧ given ≠ ""
  knownKinds : ∀ k ∈ n.allowedJobKinds, k ∈ AGENT_JOB_KINDS
  kindsNeedWallet : n.allowedJobKinds ≠ [] → ∃ a ∈ n.allowedActions, isWalletAction a = true
  kinds : ∀ values, input.allowedJobKinds = .list values → n.allowedJobKinds = distinct values
  positive : ∀ max, n.maxJobsPerDay = some max → 1 ≤ max

theorem validateGrantInput_ok {input : IssueAgentGrantInput} {now : Time} {context : String}
    {n : NormalizedGrantInput} (ok : validateGrantInput input now context = .ok n) :
    n.Checked input := by
  simp only [validateGrantInput, bind, Except.bind, pure, Except.pure] at ok
  split at ok
  · cases ok
  rename_i allowedActions actionsOk
  split at ok
  · cases ok
  rename_i walletId walletOk
  split at ok
  · cases ok
  rename_i kinds kindsOk
  split at ok
  · cases ok
  rename_i max maxOk
  split at ok
  · cases ok
  split at ok
  · cases ok
  cases ok
  obtain ⟨nonempty, grantable, actions⟩ := checkAllowedActions_ok actionsOk
  obtain ⟨knownKinds, kindsNeedWallet, sameKinds⟩ := checkAllowedJobKinds_ok kindsOk
  refine ⟨nonempty, grantable, actions, ?_, knownKinds, ?_, sameKinds,
    checkMaxJobsPerDay_ok maxOk⟩
  · intro a aMem isWallet
    exact checkWalletId_ok walletOk (List.any_eq_true.mpr ⟨a, aMem, isWallet⟩)
  · intro nonemptyKinds
    exact List.any_eq_true.mp (kindsNeedWallet nonemptyKinds)

theorem issueAgentGrant_ok {input : IssueAgentGrantInput} {operatorId : String} {ID : GrantId}
    {tokenHash : TokenHash} {now : Time} {row : AgentGrant}
    (ok : issueAgentGrant input operatorId ID tokenHash now = .ok row) :
    row.WellFormed ∧ row.KindsNeedWallet := by
  rw [issueAgentGrant] at ok
  split at ok
  · cases ok
  · simp only [bind, Except.bind, pure, Except.pure] at ok
    split at ok
    · cases ok
    · rename_i n valid
      cases ok
      have checked := validateGrantInput_ok valid
      have sameKinds : (jobKindsColumn n.allowedJobKinds).getD [] = n.allowedJobKinds := by
        rw [jobKindsColumn]
        split
        · rename_i empty
          exact empty.symm
        · rfl
      refine ⟨⟨checked.nonempty, checked.grantable, fun a aMem isWallet =>
        (checked.wallet a aMem isWallet).1, ?_, checked.positive⟩, ?_⟩
      · intro k kMem
        rw [AgentGrant.jobKinds, sameKinds] at kMem
        exact checked.knownKinds k kMem
      · intro nonempty
        rw [AgentGrant.jobKinds, sameKinds] at nonempty
        exact checked.kindsNeedWallet nonempty

/-! ## Updates in flight -/

/-- The row an update read, with its patch, passes the checks. -/
structure PendingUpdate.Sound (u : PendingUpdate) : Prop where
  merged : (u.patch.apply u.existing).WellFormed
  kindsNeedWallet : (u.patch.apply u.existing).KindsNeedWallet

theorem prepareUpdate_ok {existing : AgentGrant} {input : UpdateAgentGrantInput} {now : Time}
    {patch : GrantPatch} (formed : existing.WellFormed)
    (ok : prepareUpdate (some existing) input now = .ok (some patch)) (grantId : GrantId) :
    PendingUpdate.Sound ⟨grantId, existing, patch⟩ := by
  simp only [prepareUpdate] at ok
  split at ok
  · cases ok
  split at ok
  · cases ok
  rename_i n valid
  split at ok
  · cases ok
  cases ok
  have checked := validateGrantInput_ok valid
  have actionsEq : ∀ a, a ∈ ((input.allowedActions.map fun _ => n.allowedActions).getD
      existing.allowedActions) ↔ a ∈ n.allowedActions := by
    intro a
    cases given : input.allowedActions with
    | some => exact Iff.rfl
    | none =>
        obtain ⟨values, sent, kept⟩ := checked.actions
        rw [mergedInput, given] at sent
        cases sent
        rw [kept]
        exact mem_distinct.symm
  have kindsEq : ∀ k, k ∈ (((input.allowedJobKinds.map fun _ =>
      jobKindsColumn n.allowedJobKinds).getD existing.allowedJobKinds).getD []) ↔
        k ∈ n.allowedJobKinds := by
    intro k
    cases given : input.allowedJobKinds with
    | some =>
        rw [Option.map_some, Option.getD_some, jobKindsColumn]
        split
        · rename_i empty
          rw [empty]
          exact Iff.rfl
        · exact Iff.rfl
    | none =>
        rw [checked.kinds _ (by rw [mergedInput, given]; rfl)]
        exact mem_distinct.symm
  refine ⟨⟨?_, fun a aMem => checked.grantable a ((actionsEq a).mp aMem), ?_,
    fun k kMem => checked.knownKinds k ((kindsEq k).mp kMem), ?_⟩, ?_⟩
  · obtain ⟨a, aMem⟩ := List.exists_mem_of_ne_nil _ checked.nonempty
    exact List.ne_nil_of_mem ((actionsEq a).mpr aMem)
  · intro a aMem isWallet
    exact (checked.wallet a ((actionsEq a).mp aMem) isWallet).2
  · intro max isMax
    cases given : input.maxJobsPerDay with
    | some =>
        simp only [GrantPatch.apply, given] at isMax
        exact checked.positive max isMax
    | none =>
        simp only [GrantPatch.apply, given] at isMax
        exact formed.positive max isMax
  · intro nonempty
    obtain ⟨k, kMem⟩ := List.exists_mem_of_ne_nil _ nonempty
    obtain ⟨a, aMem, isWallet⟩ :=
      checked.kindsNeedWallet (List.ne_nil_of_mem ((kindsEq k).mp kMem))
    exact ⟨a, (actionsEq a).mpr aMem, isWallet⟩

/-- Fields come from the patch or stay, so a patch keeps what concerns one field. -/
theorem PendingUpdate.Sound.apply {u : PendingUpdate} (sound : u.Sound) {row : AgentGrant}
    (formed : row.WellFormed) (sameWallet : row.walletId = u.existing.walletId) :
    (u.patch.apply row).WellFormed := by
  obtain ⟨grantId, existing, ⟨label, actions, kinds, max, validUntil⟩⟩ := u
  have merged := sound.merged
  constructor
  · cases actions with
    | none => exact formed.nonempty
    | some => exact merged.nonempty
  · cases actions with
    | none => exact formed.grantable
    | some => exact merged.grantable
  · intro a aMem isWallet
    cases actions with
    | none => exact formed.wallet a aMem isWallet
    | some =>
        obtain ⟨walletId, bound, nonempty⟩ := merged.wallet a aMem isWallet
        exact ⟨walletId, sameWallet.trans bound, nonempty⟩
  · cases kinds with
    | none => exact formed.knownKinds
    | some => exact merged.knownKinds
  · cases max with
    | none => exact formed.positive
    | some => exact merged.positive

/-- A patch of an undisturbed update keeps the relation of the two lists. -/
theorem PendingUpdate.Sound.apply_kindsNeedWallet {u : PendingUpdate} (sound : u.Sound)
    {row : AgentGrant} (needs : row.KindsNeedWallet)
    (sameKinds : u.patch.allowedActions.isSome → u.patch.allowedJobKinds = none →
      row.allowedJobKinds = u.existing.allowedJobKinds)
    (sameActions : u.patch.allowedJobKinds.isSome → u.patch.allowedActions = none →
      row.allowedActions = u.existing.allowedActions) :
    (u.patch.apply row).KindsNeedWallet := by
  obtain ⟨grantId, existing, ⟨label, actions, kinds, max, validUntil⟩⟩ := u
  have merged := sound.kindsNeedWallet
  simp only [AgentGrant.KindsNeedWallet, AgentGrant.jobKinds, GrantPatch.apply] at merged ⊢
  cases actions with
  | none =>
      cases kinds with
      | none => exact needs
      | some =>
          rw [Option.getD_none, Option.getD_some, sameActions rfl rfl]
          exact merged
  | some =>
      cases kinds with
      | none =>
          rw [Option.getD_none, Option.getD_some, sameKinds rfl rfl]
          exact merged
      | some => exact merged

/-! ## Steps -/

/-- What no action changes of a grant; a revoked one stays revoked. -/
structure AgentGrant.Follows (row' row : AgentGrant) : Prop where
  ID : row'.ID = row.ID
  walletId : row'.walletId = row.walletId
  userId : row'.userId = row.userId
  revoked : row.isActive = false → row'.isActive = false

theorem AgentGrant.Follows.refl (row : AgentGrant) : row.Follows row :=
  ⟨rfl, rfl, rfl, id⟩

theorem AgentGrant.Follows.trans {first second third : AgentGrant} (later : third.Follows second)
    (earlier : second.Follows first) : third.Follows first :=
  ⟨later.ID.trans earlier.ID, later.walletId.trans earlier.walletId,
    later.userId.trans earlier.userId, fun inactive => later.revoked (earlier.revoked inactive)⟩

/-- How a step changes the rows: a new one is added, or every row is changed in place. -/
inductive RowsChange (grants grants' : Table AgentGrant.ID) : Prop
  | added (row : AgentGrant) (rows : grants'.rows = grants.rows ++ [row])
      (formed : row.WellFormed) (needs : row.KindsNeedWallet)
  | changed (set : AgentGrant → AgentGrant) (rows : grants'.rows = grants.rows.map set)
      (follows : ∀ row ∈ grants.rows, (set row).Follows row)
      (formed : ∀ row ∈ grants.rows, row.WellFormed → (set row).WellFormed)

structure GrantsSound (s : GrantStore) : Prop where
  rows : ∀ row ∈ s.grants.rows, row.WellFormed
  updates : ∀ u ∈ s.updates, u.Sound ∧
    ∃ row ∈ s.grants.rows, row.ID = u.grantId ∧ row.walletId = u.existing.walletId

theorem GrantsSound.update {s : GrantStore} {u : PendingUpdate} (sound : GrantsSound s)
    (uMem : u ∈ s.updates) {row : AgentGrant} (rowMem : row ∈ s.grants.rows)
    (sameId : row.ID = u.grantId) : row.walletId = u.existing.walletId := by
  obtain ⟨-, read, readMem, readId, readWallet⟩ := sound.updates u uMem
  rw [Table.mem_rows_inj rowMem readMem (sameId.trans readId.symm)]
  exact readWallet

section Changes

variable {grants : Table AgentGrant.ID} {selected : AgentGrant → Bool}
  {set : AgentGrant → AgentGrant}

/-- Changing the selected rows in place. -/
theorem RowsChange.update (keepsId : ∀ row, (set row).ID = row.ID)
    (follows : ∀ row ∈ grants.rows, selected row = true → (set row).Follows row)
    (formed : ∀ row ∈ grants.rows, selected row = true → row.WellFormed → (set row).WellFormed) :
    RowsChange grants (grants.update selected set keepsId) := by
  refine .changed (fun row => if selected row then set row else row) rfl ?_ ?_
  · intro row rowMem
    split
    · exact follows row rowMem ‹_›
    · exact .refl row
  · intro row rowMem was
    split
    · exact formed row rowMem ‹_› was
    · exact was

theorem RowsChange.same (grants : Table AgentGrant.ID) : RowsChange grants grants :=
  .changed id (List.map_id _).symm (fun row _ => .refl row) fun _ _ => id

end Changes

theorem GrantStep.rowsChange {allowed : GrantStore → PendingUpdate → Prop} {s s' : GrantStore}
    (step : GrantStep allowed s s') (sound : GrantsSound s) : RowsChange s.grants s'.grants := by
  cases step with
  | issue _ input operatorId ID tokenHash now row grants valid inserted =>
      obtain ⟨formed, needs⟩ := issueAgentGrant_ok valid
      rw [Table.insertAll?] at inserted
      split at inserted
      · cases inserted
        exact .added row rfl formed needs
      · cases inserted
  | select | refuse | abandon => exact .same _
  | write grants earlier later u may =>
      have uMem : u ∈ earlier ++ u :: later := List.mem_append_right _ List.mem_cons_self
      have keepsId (row : AgentGrant) : (u.patch.apply row).ID = row.ID := rfl
      refine .update keepsId ?_ ?_
      · intro row rowMem selected
        have active := (of_decide_eq_true selected).2
        exact ⟨rfl, rfl, rfl, fun inactive => Bool.noConfusion (active.symm.trans inactive)⟩
      · intro row rowMem selected formed
        exact (sound.updates u uMem).1.apply formed
          (sound.update uMem rowMem (of_decide_eq_true selected).1)
  | revoke _ grantId now =>
      have keepsId (row : AgentGrant) : (row.revoked now).ID = row.ID := rfl
      refine .update keepsId (fun row _ _ => ⟨rfl, rfl, rfl, fun _ => rfl⟩) ?_
      exact fun _ _ _ formed => ⟨formed.1, formed.2, formed.3, formed.4, formed.5⟩
  | rotate _ grantId tokenHash =>
      have keepsId (row : AgentGrant) : (row.rotated tokenHash).ID = row.ID := rfl
      refine .update keepsId (fun row _ _ => ⟨rfl, rfl, rfl, id⟩) ?_
      exact fun _ _ _ formed => ⟨formed.1, formed.2, formed.3, formed.4, formed.5⟩
  | spend _ grantId used window lastUsedAt =>
      have keepsId (row : AgentGrant) : (row.spent used window lastUsedAt).ID = row.ID := rfl
      refine .update keepsId (fun row _ _ => ⟨rfl, rfl, rfl, id⟩) ?_
      exact fun _ _ _ formed => ⟨formed.1, formed.2, formed.3, formed.4, formed.5⟩

/-- Every row is followed by a row. -/
theorem RowsChange.follows {grants grants' : Table AgentGrant.ID}
    (change : RowsChange grants grants') {row : AgentGrant} (rowMem : row ∈ grants.rows) :
    ∃ row' ∈ grants'.rows, row'.Follows row := by
  cases change with
  | added new rows _ _ =>
      exact ⟨row, rows ▸ List.mem_append_left _ rowMem, .refl row⟩
  | changed set rows follows _ =>
      exact ⟨set row, rows ▸ List.mem_map_of_mem rowMem, follows row rowMem⟩

theorem RowsChange.formed {grants grants' : Table AgentGrant.ID}
    (change : RowsChange grants grants') (formed : ∀ row ∈ grants.rows, row.WellFormed) :
    ∀ row ∈ grants'.rows, row.WellFormed := by
  intro row rowMem
  cases change with
  | added new rows newFormed _ =>
      rw [rows] at rowMem
      rcases List.mem_append.mp rowMem with old | added
      · exact formed row old
      · exact List.mem_singleton.mp added ▸ newFormed
  | changed set rows _ keeps =>
      rw [rows] at rowMem
      obtain ⟨old, oldMem, rfl⟩ := List.mem_map.mp rowMem
      exact keeps old oldMem (formed old oldMem)

theorem GrantStep.sound {allowed : GrantStore → PendingUpdate → Prop} {s s' : GrantStore}
    (step : GrantStep allowed s s') (sound : GrantsSound s) : GrantsSound s' := by
  have change := step.rowsChange sound
  -- the updates of the state before still fit the rows after
  have kept : ∀ u ∈ s.updates, u.Sound ∧
      ∃ row ∈ s'.grants.rows, row.ID = u.grantId ∧ row.walletId = u.existing.walletId := by
    intro u uMem
    obtain ⟨uSound, row, rowMem, rowId, rowWallet⟩ := sound.updates u uMem
    obtain ⟨row', row'Mem, follows⟩ := change.follows rowMem
    exact ⟨uSound, row', row'Mem, follows.ID.trans rowId, follows.walletId.trans rowWallet⟩
  refine ⟨change.formed sound.rows, ?_⟩
  cases step with
  | issue | refuse | revoke | rotate | spend => exact kept
  | select _ grantId input now existing patch found valid =>
      intro u uMem
      rcases List.mem_cons.mp uMem with rfl | old
      · have existingMem := Table.mem_of_find? found
        exact ⟨prepareUpdate_ok (sound.rows existing existingMem) valid grantId, existing,
          existingMem, Table.key_of_find? found, rfl⟩
      · exact kept u old
  | write grants earlier later u may =>
      intro other otherMem
      refine kept other ?_
      rcases List.mem_append.mp otherMem with old | old
      · exact List.mem_append_left _ old
      · exact List.mem_append_right _ (List.mem_cons_of_mem _ old)
  | abandon grants earlier later u =>
      intro other otherMem
      refine kept other ?_
      rcases List.mem_append.mp otherMem with old | old
      · exact List.mem_append_left _ old
      · exact List.mem_append_right _ (List.mem_cons_of_mem _ old)

theorem AgentGrant.KindsNeedWallet.of_eq {row row' : AgentGrant} (needs : row.KindsNeedWallet)
    (sameKinds : row'.allowedJobKinds = row.allowedJobKinds)
    (sameActions : row'.allowedActions = row.allowedActions) : row'.KindsNeedWallet := by
  rw [KindsNeedWallet, jobKinds, sameKinds, sameActions]
  exact needs

/-- Changing the selected rows in place keeps the relation when each change does. -/
theorem kindsNeedWallet_update {grants : Table AgentGrant.ID} {selected : AgentGrant → Bool}
    {set : AgentGrant → AgentGrant} (keepsId : ∀ row, (set row).ID = row.ID)
    (needs : ∀ row ∈ grants.rows, row.KindsNeedWallet)
    (keeps : ∀ row ∈ grants.rows, selected row = true → row.KindsNeedWallet →
      (set row).KindsNeedWallet) :
    ∀ row ∈ (grants.update selected set keepsId).rows, row.KindsNeedWallet := by
  intro row rowMem
  obtain ⟨old, oldMem, rfl⟩ := List.mem_map.mp rowMem
  split
  · exact keeps old oldMem ‹_› (needs old oldMem)
  · exact needs old oldMem

theorem GrantStep.kindsNeedWallet {allowed : GrantStore → PendingUpdate → Prop}
    (undisturbed : ∀ s u, allowed s u → Undisturbed s u) {s s' : GrantStore}
    (step : GrantStep allowed s s') (sound : GrantsSound s)
    (needs : ∀ row ∈ s.grants.rows, row.KindsNeedWallet) :
    ∀ row ∈ s'.grants.rows, row.KindsNeedWallet := by
  cases step with
  | issue _ input operatorId ID tokenHash now row grants valid inserted =>
      rw [Table.insertAll?] at inserted
      split at inserted
      · cases inserted
        intro other otherMem
        rcases List.mem_append.mp otherMem with old | added
        · exact needs other old
        · exact List.mem_singleton.mp added ▸ (issueAgentGrant_ok valid).2
      · cases inserted
  | select | refuse | abandon => exact needs
  | write grants earlier later u may =>
      have uMem : u ∈ earlier ++ u :: later := List.mem_append_right _ List.mem_cons_self
      have keepsId (row : AgentGrant) : (u.patch.apply row).ID = row.ID := rfl
      refine kindsNeedWallet_update keepsId needs ?_
      intro row rowMem selected rowNeeds
      have sameId := (of_decide_eq_true selected).1
      have found : grants.find? u.grantId = some row := sameId ▸ Table.find?_of_mem rowMem
      obtain ⟨sameKinds, sameActions⟩ := undisturbed _ u may row found
      exact (sound.updates u uMem).1.apply_kindsNeedWallet rowNeeds sameKinds sameActions
  | revoke _ grantId now =>
      have keepsId (row : AgentGrant) : (row.revoked now).ID = row.ID := rfl
      exact kindsNeedWallet_update keepsId needs fun row _ _ rowNeeds => rowNeeds.of_eq rfl rfl
  | rotate _ grantId tokenHash =>
      have keepsId (row : AgentGrant) : (row.rotated tokenHash).ID = row.ID := rfl
      exact kindsNeedWallet_update keepsId needs fun row _ _ rowNeeds => rowNeeds.of_eq rfl rfl
  | spend _ grantId used window lastUsedAt =>
      have keepsId (row : AgentGrant) : (row.spent used window lastUsedAt).ID = row.ID := rfl
      exact kindsNeedWallet_update keepsId needs fun row _ _ rowNeeds => rowNeeds.of_eq rfl rfl

/-! ## Runs -/

/-- Before the first grant is issued. -/
def GrantStore.empty : GrantStore := ⟨Table.empty, []⟩

section Runs

variable {allowed : GrantStore → PendingUpdate → Prop} {s s' : GrantStore}

theorem GrantRun.sound (run : GrantRun allowed .empty s) : GrantsSound s := by
  induction run with
  | refl => exact ⟨fun _ rowMem => absurd rowMem List.not_mem_nil,
      fun _ uMem => absurd uMem List.not_mem_nil⟩
  | step before step ih => exact step.sound ih

theorem GrantRun.kindsNeedWallet (run : GrantRun allowed .empty s)
    (undisturbed : ∀ s u, allowed s u → Undisturbed s u) :
    ∀ row ∈ s.grants.rows, row.KindsNeedWallet := by
  induction run with
  | refl => exact fun _ rowMem => absurd rowMem List.not_mem_nil
  | step before step ih => exact step.kindsNeedWallet undisturbed before.sound ih

theorem GrantRun.follows (run : GrantRun allowed s s') (sound : GrantsSound s) :
    GrantsSound s' ∧ ∀ row ∈ s.grants.rows, ∃ row' ∈ s'.grants.rows, row'.Follows row := by
  induction run with
  | refl => exact ⟨sound, fun row rowMem => ⟨row, rowMem, .refl row⟩⟩
  | step before step ih =>
      obtain ⟨sound', followed⟩ := ih
      refine ⟨step.sound sound', fun row rowMem => ?_⟩
      obtain ⟨row', row'Mem, follows⟩ := followed row rowMem
      obtain ⟨row'', row''Mem, follows'⟩ := (step.rowsChange sound').follows row'Mem
      exact ⟨row'', row''Mem, follows'.trans follows⟩

end Runs

/-- An UPDATE that matches no row changes nothing. -/
theorem writeUpdate_unmatched {grants : Table AgentGrant.ID} {u : PendingUpdate}
    (unmatched : (writeUpdate grants u).2 = 0) : (writeUpdate grants u).1 = grants := by
  apply Table.ext
  have none_ := List.filter_eq_nil_iff.mp (List.eq_nil_of_length_eq_zero unmatched)
  refine (List.map_congr_left fun row rowMem => ?_).trans (List.map_id _)
  rw [if_neg (none_ row rowMem)]
  rfl

/-! ## Enforcement -/

theorem bindWallet_ok {grant : AgentGrant} {req req' : AgentRequest}
    (ok : bindWallet grant req = .ok req') :
    req'.event = req.event ∧ (req.event = "SubmitWalletJob" → ∀ data, req.data = some data →
      ∃ data', req'.data = some data' ∧ data'.walletId = grant.walletId ∧
        data'.walletId.isSome ∧ (grant.jobKinds ≠ [] → data'.kind.getD "" ∈ grant.jobKinds)) := by
  rw [bindWallet] at ok
  split at ok
  · rename_i noWallet
    cases ok
    refine ⟨rfl, fun isSubmit => ?_⟩
    rw [isSubmit] at noWallet
    exact absurd noWallet (by decide)
  split at ok
  · cases ok
  rename_i walletId bound
  have stored : grant.walletId = some walletId := (Option.filter_eq_some_iff.mp bound).1
  split at ok
  · rename_i noData
    cases ok
    exact ⟨rfl, fun _ data given => absurd (noData.symm.trans given) nofun⟩
  rename_i data given
  split at ok
  · split at ok
    · cases ok
    simp only at ok
    split at ok
    · cases ok
    rename_i allowedKind
    cases ok
    refine ⟨rfl, fun _ _ _ => ⟨_, rfl, stored.symm, rfl, fun nonempty => ?_⟩⟩
    by_contra notAllowed
    exact allowedKind ⟨nonempty, notAllowed⟩
  · rename_i notSubmit
    cases ok
    exact ⟨rfl, fun isSubmit => absurd isSubmit notSubmit⟩

/-- What the hook lets pass. -/
theorem enforceAgentGrant_ok {grant : AgentGrant} {now : Time} {consumed : Bool}
    {req req' : AgentRequest} (ok : enforceAgentGrant grant now consumed req = .ok req') :
    req'.event = req.event ∧
      (req.event ∈ AGENT_ALWAYS_ALLOWED_EVENTS ∨ req.event ∈ grant.allowedActions) ∧
      (req.event = "SubmitWalletJob" → ∀ data, req.data = some data →
        ∃ data', req'.data = some data' ∧ data'.walletId = grant.walletId ∧
          data'.walletId.isSome ∧
          (grant.jobKinds ≠ [] → data'.kind.getD "" ∈ grant.jobKinds)) := by
  rw [enforceAgentGrant] at ok
  split at ok
  · cases ok
  split at ok
  · cases ok
  split at ok
  · rename_i alwaysAllowed
    split at ok
    · cases ok
    · cases ok
      refine ⟨rfl, Or.inl alwaysAllowed, fun isSubmit => ?_⟩
      rw [isSubmit] at alwaysAllowed
      exact absurd alwaysAllowed (by decide)
  split at ok
  · cases ok
  rename_i listed
  simp only [bind, Except.bind, pure, Except.pure] at ok
  split at ok
  · cases ok
  rename_i bound boundOk
  have passed : req' = bound := by
    split at ok
    · cases ok
      rfl
    · split at ok
      · cases ok
        rfl
      · cases ok
  subst passed
  obtain ⟨sameEvent, wallet⟩ := bindWallet_ok boundOk
  exact ⟨sameEvent, Or.inr (not_not.mp listed), wallet⟩

/-- What grants keep over every run of the grant actions, and what the hook lets
pass under one.  The relation of job kinds and wallet actions is kept where
updates are undisturbed. -/
theorem agentGrants_confined {allowed : GrantStore → PendingUpdate → Prop} {s s' : GrantStore}
    (before : GrantRun allowed .empty s) (after : GrantRun allowed s s') :
    (∀ row ∈ s.grants.rows, row.WellFormed) ∧
      ((∀ s u, allowed s u → Undisturbed s u) →
        ∀ row ∈ s.grants.rows, row.KindsNeedWallet) ∧
      (∀ row ∈ s.grants.rows, ∀ row' ∈ s'.grants.rows, row'.ID = row.ID → row'.Follows row) ∧
      (∀ u, (writeUpdate s.grants u).2 = 0 → (writeUpdate s.grants u).1 = s.grants) ∧
      ∀ grant ∈ s.grants.rows, ∀ now consumed req req',
        enforceAgentGrant grant now consumed req = .ok req' →
        req'.event = req.event ∧
          (req.event ∈ AGENT_ALWAYS_ALLOWED_EVENTS ∨ req.event ∈ grant.allowedActions) ∧
          (req.event = "SubmitWalletJob" → ∀ data, req.data = some data →
            ∃ data', req'.data = some data' ∧ data'.walletId = grant.walletId ∧
              data'.walletId.isSome ∧
              (grant.jobKinds ≠ [] → data'.kind.getD "" ∈ grant.jobKinds)) := by
  refine ⟨before.sound.rows, before.kindsNeedWallet, ?_, fun u => writeUpdate_unmatched,
    fun grant _ now consumed req req' => enforceAgentGrant_ok⟩
  intro row rowMem row' row'Mem sameId
  obtain ⟨next, nextMem, follows⟩ := (after.follows before.sound).2 row rowMem
  rw [Table.mem_rows_inj row'Mem nextMem (sameId.trans follows.ID.symm)]
  exact follows

/-! A grant for wallet jobs, and two updates that are each valid. -/

def walletGrantInput : IssueAgentGrantInput :=
  ⟨.list ["SubmitWalletJob", "CancelJob"], some "w", .missing, .missing, .missing, none⟩

def walletGrant : AgentGrant where
  ID := "g"
  userId := "operator"
  agentLabel := none
  tokenHash := "h"
  allowedActions := ["SubmitWalletJob", "CancelJob"]
  walletId := some "w"
  allowedJobKinds := none
  maxJobsPerDay := none
  jobsUsedToday := 0
  budgetWindow := none
  validUntil := none
  isActive := true
  revokedAt := none
  createdAt := 0
  lastUsedAt := none

def walletGrants : Table AgentGrant.ID := ⟨[walletGrant], by decide⟩

/-- Takes the wallet actions away. -/
def toSubmitOnly : UpdateAgentGrantInput :=
  ⟨none, some (.list ["SubmitTransaction"]), none, none, none⟩

/-- Restricts the job kinds. -/
def toMintOnly : UpdateAgentGrantInput := ⟨none, none, some (.list ["mint"]), none, none⟩

theorem walletGrants_issued (allowed : GrantStore → PendingUpdate → Prop) :
    GrantRun allowed .empty ⟨walletGrants, []⟩ :=
  .step .refl (.issue _ walletGrantInput "operator" "g" "h" 0 walletGrant _
    (by decide +kernel) (by rfl))

theorem agentGrants_confined_sample :
    walletGrant.WellFormed ∧ walletGrant.KindsNeedWallet ∧
      (walletGrant.revoked 5).Follows walletGrant := by
  have revoked : GrantRun Undisturbed ⟨walletGrants, []⟩
      ⟨(revokeAgentGrantById walletGrants "g" 5).1, []⟩ := .step .refl (.revoke _ "g" 5)
  have confined := agentGrants_confined (walletGrants_issued Undisturbed) revoked
  have stored : walletGrant ∈ walletGrants.rows := List.mem_singleton_self _
  exact ⟨confined.1 _ stored, confined.2.1 (fun _ _ undisturbed => undisturbed) _ stored,
    confined.2.2.1 _ stored (walletGrant.revoked 5) (List.mem_singleton_self _) rfl⟩

/-- The two updates together leave job kinds on a grant without a wallet action,
and `CancelJob` passes with a wallet of the client's choice. -/
theorem agentGrants_notConfined :
    (∃ s, GrantRun (fun _ _ => True) .empty s ∧
        ∃ row ∈ s.grants.rows, ¬ row.KindsNeedWallet) ∧
      ∃ s, GrantRun (fun _ _ => True) .empty s ∧ ∃ grant ∈ s.grants.rows, ∃ req req',
        enforceAgentGrant grant 0 true req = .ok req' ∧ isWalletAction req'.event = true ∧
          req'.data.bind RequestData.walletId ≠ grant.walletId := by
  constructor
  · refine ⟨_, .step (.step (.step (.step (walletGrants_issued _)
      (.select _ "g" toSubmitOnly 1 walletGrant
        ⟨none, some ["SubmitTransaction"], none, none, none⟩ (by rfl) (by decide +kernel)))
      (.select _ "g" toMintOnly 1 walletGrant ⟨none, none, some (some ["mint"]), none, none⟩
        (by rfl) (by decide +kernel)))
      (.write _ [] _ _ trivial))
      (.write _ [] _ _ trivial), ?_⟩
    refine ⟨{ walletGrant with
        allowedActions := ["SubmitTransaction"], allowedJobKinds := some ["mint"] },
      List.mem_singleton_self _, ?_⟩
    intro needs
    obtain ⟨a, aMem, isWallet⟩ := needs (by decide)
    cases List.mem_singleton.mp aMem
    exact absurd isWallet (by decide)
  · exact ⟨_, walletGrants_issued _, walletGrant, List.mem_singleton_self _,
      ⟨"CancelJob", some ⟨some "other", none, none⟩⟩,
      ⟨"CancelJob", some ⟨some "other", none, none⟩⟩, by decide +kernel, by decide, by decide⟩

end Odatano
