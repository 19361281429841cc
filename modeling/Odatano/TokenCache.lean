import Odatano.AgentGrants
import Odatano.OrderedMap

/-!
# The token cache

One process with the cache on: lookups of tokens against grant actions whose
writes become visible at the commit of the request transaction, after the
handler has dropped the cache entry.  A row lock only restricts these runs.
-/

namespace Odatano

/-! ## The cache -/

structure CachedToken where
  grant : AgentGrant
  expires : Time
deriving DecidableEq

inductive TokenResolution
  | ok (grant : AgentGrant)
  | refused (status : Nat)
deriving DecidableEq

def TOKEN_CACHE_MAX : Nat := 10000

structure TokenCache where
  entries : OrderedMap TokenHash CachedToken
  hashOfGrant : OrderedMap GrantId TokenHash
  generation : Nat

/-- Drops the cached resolution of a grant. -/
def TokenCache.invalidateTokenCache (cache : TokenCache) (grantId : GrantId) : TokenCache :=
  match OrderedMap.get? cache.hashOfGrant grantId with
  | some hash =>
      { entries := Table.delete cache.entries fun entry => entry.1 = hash
        hashOfGrant := Table.delete cache.hashOfGrant fun entry => entry.1 = grantId
        generation := cache.generation + 1 }
  | none => { cache with generation := cache.generation + 1 }

/-- Bounded against a flood of distinct tokens. -/
def TokenCache.makeRoom (cache : TokenCache) : TokenCache :=
  if TOKEN_CACHE_MAX ≤ cache.entries.rows.length then
    { cache with entries := Table.empty, hashOfGrant := Table.empty }
  else cache

def TokenCache.rememberToken (cache : TokenCache) (hash : TokenHash) (grant : AgentGrant)
    (expires : Time) : TokenCache :=
  { cache.makeRoom with
    entries := OrderedMap.set cache.makeRoom.entries hash ⟨grant, expires⟩
    hashOfGrant := OrderedMap.set cache.makeRoom.hashOfGrant grant.ID hash }

def resolutionOf (grant : AgentGrant) (now : Time) : TokenResolution :=
  if grant.isExpired now then .refused 410 else .ok grant

/-- The part of `resolveAgentToken` before its SELECT: an answer from the cache. -/
def TokenCache.resolve (cache : TokenCache) (hash : TokenHash) (now : Time) :
    Option TokenResolution × TokenCache :=
  match OrderedMap.get? cache.entries hash with
  | none => (none, cache)
  | some hit =>
      if now < hit.expires then (some (resolutionOf hit.grant now), cache)
      else
        (none, { cache with entries := Table.delete cache.entries fun entry => entry.1 = hash })

/-- The part after the SELECT; a row is not remembered when an invalidation ran
since the lookup started. -/
def TokenCache.answer (cache : TokenCache) (hash : TokenHash) (generation : Nat)
    (row : Option AgentGrant) (now ttl : Time) : TokenResolution × TokenCache :=
  match row with
  | none => (.refused 401, cache)
  | some grant =>
      if grant.isExpired now then (.refused 410, cache)
      else (.ok grant,
        if generation = cache.generation then cache.rememberToken hash grant (now + ttl)
        else cache)

/-! ## Lookups and actions -/

/-- Where a lookup stands; it keeps the generation it read when it started. -/
inductive LookupStage
  | reading (generation : Nat)
  | read (generation : Nat) (row : Option AgentGrant)
  | answered (resolution : TokenResolution)
deriving DecidableEq

/-- A `resolveAgentToken` call, with what was true of its token since it started:
the hashes committed actions had taken away, the active rows it could see, and
whether there was a moment without one. -/
structure TokenLookup where
  hash : TokenHash
  stage : LookupStage
  dead : List TokenHash
  visible : List AgentGrant
  lapsed : Bool
deriving DecidableEq

inductive GrantChange
  | revoke (now : Time)
  | rotate (tokenHash : TokenHash)
  | update (patch : GrantPatch)
deriving DecidableEq

/-- An action whose transaction is open, and whether its handler has dropped the
cache entry. -/
structure OpenAction where
  grantId : GrantId
  change : GrantChange
  invalidated : Bool
deriving DecidableEq

def GrantChange.apply : GrantChange → AgentGrant → AgentGrant
  | .revoke now, grant => grant.revoked now
  | .rotate tokenHash, grant => grant.rotated tokenHash
  | .update patch, grant => patch.apply grant

theorem GrantChange.apply_ID (change : GrantChange) (grant : AgentGrant) :
    (change.apply grant).ID = grant.ID := by
  cases change <;> rfl

/-- Whether the change takes the grant's token away. -/
def GrantChange.endsToken : GrantChange → Bool
  | .update _ => false
  | _ => true

/-- The hash a change brings in. -/
def GrantChange.newHash : GrantChange → Option TokenHash
  | .rotate tokenHash => some tokenHash
  | _ => none

structure TokenState where
  grants : Table AgentGrant.ID
  cache : TokenCache
  now : Time
  lookups : List TokenLookup
  actions : List OpenAction
  /-- Hashes of the tokens that committed actions took away. -/
  dead : List TokenHash
  /-- Hashes of all tokens that ever were a grant's. -/
  used : List TokenHash

/-- The row a SELECT by hash finds. -/
def activeGrant (grants : Table AgentGrant.ID) (hash : TokenHash) : Option AgentGrant :=
  grants.rows.find? fun row => decide (row.tokenHash = hash ∧ row.isActive = true)

def commitChange (grants : Table AgentGrant.ID) (a : OpenAction) : Table AgentGrant.ID :=
  grants.update (fun row => row.ID = a.grantId ∧ row.isActive = true) a.change.apply
    a.change.apply_ID

/-- The tokens a commit takes away. -/
def endedTokens (grants : Table AgentGrant.ID) (a : OpenAction) : List TokenHash :=
  if a.change.endsToken then
    ((grants.find? a.grantId).filter (·.isActive)).toList.map AgentGrant.tokenHash
  else []

/-- What a lookup in flight can see from now on. -/
def TokenLookup.observe (grants : Table AgentGrant.ID) (l : TokenLookup) : TokenLookup :=
  { l with
    visible := (activeGrant grants l.hash).toList ++ l.visible
    lapsed := l.lapsed || (activeGrant grants l.hash).isNone }

/-- A lookup as it starts. -/
def TokenState.lookup (s : TokenState) (hash : TokenHash) (stage : LookupStage) : TokenLookup where
  hash
  stage
  dead := s.dead
  visible := (activeGrant s.grants hash).toList
  lapsed := (activeGrant s.grants hash).isNone

inductive TokenStep (allowed : TokenState → TokenLookup → Prop) (ttl : Time) :
    TokenState → TokenState → Prop
  | clock (s : TokenState) (later : Time) (onward : s.now ≤ later) :
      TokenStep allowed ttl s { s with now := later }
  | issue (s : TokenState) (row : AgentGrant) (grants : Table AgentGrant.ID)
      (fresh : row.tokenHash ∉ s.used) (inserted : s.grants.insertAll? [row] = some grants) :
      TokenStep allowed ttl s
        { s with
          grants, used := row.tokenHash :: s.used
          lookups := s.lookups.map (TokenLookup.observe grants) }
  | write (s : TokenState) (grantId : GrantId) (change : GrantChange) :
      TokenStep allowed ttl s { s with actions := ⟨grantId, change, false⟩ :: s.actions }
  | invalidate (s : TokenState) (earlier later : List OpenAction) (a : OpenAction)
      (isOpen : s.actions = earlier ++ a :: later) :
      TokenStep allowed ttl s
        { s with
          cache := s.cache.invalidateTokenCache a.grantId
          actions := earlier ++ { a with invalidated := true } :: later }
  | commit (s : TokenState) (earlier later : List OpenAction) (a : OpenAction)
      (isOpen : s.actions = earlier ++ a :: later) (invalidated : a.invalidated = true)
      (fresh : ∀ hash, a.change.newHash = some hash → hash ∉ s.used) :
      TokenStep allowed ttl s
        { s with
          grants := commitChange s.grants a
          actions := earlier ++ later
          dead := endedTokens s.grants a ++ s.dead
          used := a.change.newHash.toList ++ s.used
          lookups := s.lookups.map (TokenLookup.observe (commitChange s.grants a)) }
  | rollback (s : TokenState) (earlier later : List OpenAction) (a : OpenAction)
      (isOpen : s.actions = earlier ++ a :: later) :
      TokenStep allowed ttl s { s with actions := earlier ++ later }
  -- the budget statements and `touchLastUsed`
  | spend (s : TokenState) (grantId : GrantId) (jobsUsedToday : Int)
      (budgetWindow : Option UtcDay) (lastUsedAt : Option Time) :
      TokenStep allowed ttl s
        { s with
          grants := s.grants.update (fun row => row.ID = grantId)
            (fun row => { row with jobsUsedToday, budgetWindow, lastUsedAt }) fun _ => rfl }
  | hit (s : TokenState) (hash : TokenHash) (resolution : TokenResolution)
      (cached : (s.cache.resolve hash s.now).1 = some resolution) :
      TokenStep allowed ttl s
        { s with lookups := s.lookup hash (.answered resolution) :: s.lookups }
  | miss (s : TokenState) (hash : TokenHash) (cache : TokenCache)
      (cached : s.cache.resolve hash s.now = (none, cache)) :
      TokenStep allowed ttl s
        { s with
          cache
          lookups := s.lookup hash (.reading cache.generation) :: s.lookups }
  | select (s : TokenState) (earlier later : List TokenLookup) (l : TokenLookup)
      (generation : Nat) (inFlight : s.lookups = earlier ++ l :: later)
      (stage : l.stage = .reading generation) (may : allowed s l) :
      TokenStep allowed ttl s
        { s with
          lookups :=
            earlier ++ { l with stage := .read generation (activeGrant s.grants l.hash) } ::
              later }
  | answer (s : TokenState) (earlier later : List TokenLookup) (l : TokenLookup)
      (generation : Nat) (row : Option AgentGrant) (inFlight : s.lookups = earlier ++ l :: later)
      (stage : l.stage = .read generation row) :
      TokenStep allowed ttl s
        { s with
          cache := (s.cache.answer l.hash generation row s.now ttl).2
          lookups :=
            earlier ++
              { l with
                stage := .answered (s.cache.answer l.hash generation row s.now ttl).1 } ::
              later }

inductive TokenRun (allowed : TokenState → TokenLookup → Prop) (ttl : Time) : TokenState → Prop
  | start (now : Time) :
      TokenRun allowed ttl ⟨Table.empty, ⟨Table.empty, Table.empty, 0⟩, now, [], [], [], []⟩
  | step {s s' : TokenState} (before : TokenRun allowed ttl s)
      (step : TokenStep allowed ttl s s') : TokenRun allowed ttl s'

/-- A lookup that started after an action's invalidation does not read the grant
before that action's transaction ends. -/
def ReadsCommitted (s : TokenState) (l : TokenLookup) : Prop :=
  l.stage = .reading s.cache.generation →
    ∀ row, activeGrant s.grants l.hash = some row →
      ∀ a ∈ s.actions, a.invalidated = true → a.grantId ≠ row.ID

/-! ## The invariant -/

/-- A grant without the columns that enforcement writes. -/
def AgentGrant.settings (grant : AgentGrant) : AgentGrant :=
  { grant with jobsUsedToday := 0, budgetWindow := none, lastUsedAt := none }

theorem AgentGrant.ID_of_settings {first second : AgentGrant}
    (same : first.settings = second.settings) : first.ID = second.ID :=
  (AgentGrant.mk.inj same).1

theorem AgentGrant.isExpired_of_settings {first second : AgentGrant}
    (same : first.settings = second.settings) (now : Time) :
    first.isExpired now = second.isExpired now := by
  have validUntil : first.settings.validUntil = second.settings.validUntil :=
    congrArg AgentGrant.validUntil same
  exact congrArg (fun until_ => Option.any (fun u => decide (u < now)) until_) validUntil

/-- What is expired stays expired. -/
theorem AgentGrant.isExpired_mono {grant : AgentGrant} {now later : Time} (onward : now ≤ later)
    (expired : grant.isExpired now = true) : grant.isExpired later = true := by
  rw [AgentGrant.isExpired] at expired ⊢
  cases isUntil : grant.validUntil with
  | none =>
      rw [isUntil] at expired
      cases expired
  | some validUntil =>
      rw [isUntil, Option.any_some] at expired
      rw [Option.any_some]
      exact decide_eq_true (lt_of_lt_of_le (of_decide_eq_true expired) onward)

/-- The table still holds the row under its hash, and no open action has dropped
its cache entry. -/
structure TokenState.Current (s : TokenState) (hash : TokenHash) (grant : AgentGrant) : Prop where
  stored : ∃ row ∈ s.grants.rows, row.isActive = true ∧ row.tokenHash = hash ∧
    row.settings = grant.settings
  undisturbed : ∀ a ∈ s.actions, a.invalidated = true → a.grantId ≠ grant.ID

/-- Whether a lookup could see the row. -/
def TokenLookup.Saw (l : TokenLookup) (grant : AgentGrant) : Prop :=
  ∃ row ∈ l.visible, row.settings = grant.settings

structure TokenLookup.Sound (s : TokenState) (l : TokenLookup) : Prop where
  started : ∀ generation, l.stage = .reading generation → generation ≤ s.cache.generation
  read : ∀ generation row, l.stage = .read generation (some row) →
    generation ≤ s.cache.generation ∧ l.Saw row ∧
      (generation = s.cache.generation → s.Current l.hash row)
  absent : ∀ generation, l.stage = .read generation none → l.lapsed = true
  answered : ∀ grant, l.stage = .answered (.ok grant) → l.Saw grant
  refused : ∀ status, l.stage = .answered (.refused status) → l.lapsed = true ∨
    status = 410 ∧ ∃ row ∈ l.visible, row.isExpired s.now = true
  lapses : activeGrant s.grants l.hash = none → l.lapsed = true
  seen : ∀ row ∈ s.grants.rows, row.tokenHash = l.hash → row.isActive = true → l.Saw row
  dead : l.dead ⊆ s.dead
  nothing : l.hash ∈ l.dead → l.visible = []

structure TokenState.Sound (s : TokenState) : Prop where
  hashes : ∀ row ∈ s.grants.rows, ∀ row' ∈ s.grants.rows, row'.tokenHash = row.tokenHash →
    row' = row
  used : ∀ row ∈ s.grants.rows, row.tokenHash ∈ s.used
  dead : ∀ hash ∈ s.dead, hash ∈ s.used ∧
    ∀ row ∈ s.grants.rows, row.tokenHash = hash → row.isActive = false
  entries : ∀ hash entry, OrderedMap.get? s.cache.entries hash = some entry →
    s.Current hash entry.grant ∧ OrderedMap.get? s.cache.hashOfGrant entry.grant.ID = some hash
  lookups : ∀ l ∈ s.lookups, l.Sound s

/-! ## Rows -/

theorem activeGrant_eq_some {grants : Table AgentGrant.ID} {hash : TokenHash} {row : AgentGrant}
    (found : activeGrant grants hash = some row) :
    row ∈ grants.rows ∧ row.tokenHash = hash ∧ row.isActive = true := by
  rw [activeGrant] at found
  have selected := List.find?_some found
  exact ⟨List.mem_of_find?_eq_some found, of_decide_eq_true selected⟩

theorem inactive_of_activeGrant {grants : Table AgentGrant.ID} {hash : TokenHash}
    (none : activeGrant grants hash = none) :
    ∀ row ∈ grants.rows, row.tokenHash = hash → row.isActive = false := by
  intro row rowMem sameHash
  have missing := List.find?_eq_none.mp none row rowMem
  exact Bool.eq_false_iff.mpr fun active => missing (decide_eq_true ⟨sameHash, active⟩)

theorem activeGrant_eq_none {grants : Table AgentGrant.ID} {hash : TokenHash}
    (inactive : ∀ row ∈ grants.rows, row.tokenHash = hash → row.isActive = false) :
    activeGrant grants hash = none := by
  refine List.find?_eq_none.mpr fun row rowMem found => ?_
  obtain ⟨sameHash, active⟩ := of_decide_eq_true found
  exact absurd ((inactive row rowMem sameHash).symm.trans active) Bool.false_ne_true

/-- With unique hashes a SELECT finds the active row. -/
theorem activeGrant_of_mem {grants : Table AgentGrant.ID} {row : AgentGrant}
    (hashes : ∀ row ∈ grants.rows, ∀ row' ∈ grants.rows, row'.tokenHash = row.tokenHash →
      row' = row)
    (rowMem : row ∈ grants.rows) (active : row.isActive = true) :
    activeGrant grants row.tokenHash = some row := by
  cases found : activeGrant grants row.tokenHash with
  | none =>
      have missing := List.find?_eq_none.mp found row rowMem
      exact absurd (decide_eq_true ⟨rfl, active⟩) missing
  | some other =>
      obtain ⟨otherMem, sameHash, -⟩ := activeGrant_eq_some found
      rw [hashes row rowMem other otherMem sameHash]

/-- A row of the table after a commit: one the action does not concern, or the
changed row. -/
theorem mem_commitChange {grants : Table AgentGrant.ID} {a : OpenAction} {row : AgentGrant}
    (rowMem : row ∈ (commitChange grants a).rows) :
    row ∈ grants.rows ∧ (row.ID = a.grantId → row.isActive = false) ∨
      ∃ old ∈ grants.rows, old.ID = a.grantId ∧ old.isActive = true ∧ row = a.change.apply old := by
  obtain ⟨old, oldMem, rfl⟩ := List.mem_map.mp rowMem
  by_cases selected : old.ID = a.grantId ∧ old.isActive = true
  · rw [if_pos (decide_eq_true selected)]
    exact Or.inr ⟨old, oldMem, selected.1, selected.2, rfl⟩
  · rw [if_neg (fun found => selected (of_decide_eq_true found))]
    refine Or.inl ⟨oldMem, fun sameId => ?_⟩
    exact Bool.eq_false_iff.mpr fun active => selected ⟨sameId, active⟩

theorem mem_commitChange_of_ne {grants : Table AgentGrant.ID} {a : OpenAction} {row : AgentGrant}
    (rowMem : row ∈ grants.rows) (other : a.grantId ≠ row.ID) :
    row ∈ (commitChange grants a).rows := by
  refine List.mem_map.mpr ⟨row, rowMem, if_neg fun found => ?_⟩
  exact other (of_decide_eq_true found).1.symm

/-- The hash of a changed row is the old one or the one the change brings in. -/
theorem GrantChange.apply_tokenHash (change : GrantChange) (grant : AgentGrant) :
    (change.apply grant).tokenHash = grant.tokenHash ∨
      change.newHash = some (change.apply grant).tokenHash := by
  cases change with
  | revoke now => exact Or.inl rfl
  | rotate tokenHash => exact Or.inr rfl
  | update patch => exact Or.inl rfl

theorem mem_endedTokens {grants : Table AgentGrant.ID} {a : OpenAction} {hash : TokenHash}
    (ended : hash ∈ endedTokens grants a) :
    a.change.endsToken = true ∧ ∃ row ∈ grants.rows, row.ID = a.grantId ∧
      row.isActive = true ∧ row.tokenHash = hash := by
  rw [endedTokens] at ended
  split at ended
  · rename_i ends
    obtain ⟨row, isRow, rfl⟩ := List.mem_map.mp ended
    obtain ⟨found, active⟩ := Option.filter_eq_some_iff.mp (Option.mem_toList.mp isRow)
    exact ⟨ends, row, Table.mem_of_find? found, Table.key_of_find? found, active, rfl⟩
  · exact absurd ended List.not_mem_nil

/-! ## Steps -/

section Keeping

variable {s s' : TokenState}

/-- What is current stays current when the rows that no dropped action concerns
keep their hash and settings, and no action drops a cache entry. -/
theorem TokenState.Current.keep {hash : TokenHash} {grant : AgentGrant}
    (current : s.Current hash grant)
    (rows : ∀ row ∈ s.grants.rows, row.isActive = true →
      (∀ a ∈ s.actions, a.invalidated = true → a.grantId ≠ row.ID) →
      ∃ row' ∈ s'.grants.rows, row'.isActive = true ∧ row'.tokenHash = row.tokenHash ∧
        row'.settings = row.settings)
    (actions : ∀ a ∈ s'.actions, a.invalidated = true → a ∈ s.actions) :
    s'.Current hash grant := by
  obtain ⟨row, rowMem, active, sameHash, sameSettings⟩ := current.stored
  have sameId := AgentGrant.ID_of_settings sameSettings
  obtain ⟨row', row'Mem, active', sameHash', sameSettings'⟩ := rows row rowMem active
    fun a aMem dropped => sameId ▸ current.undisturbed a aMem dropped
  exact ⟨⟨row', row'Mem, active', sameHash'.trans sameHash, sameSettings'.trans sameSettings⟩,
    fun a aMem dropped => current.undisturbed a (actions a aMem dropped) dropped⟩

/-- A lookup that a step leaves alone. -/
theorem TokenLookup.Sound.keep {l : TokenLookup} (sound : l.Sound s)
    (generation : s.cache.generation ≤ s'.cache.generation)
    (current : s.cache.generation = s'.cache.generation → ∀ grant, s.Current l.hash grant →
      s'.Current l.hash grant)
    (rows : ∀ row' ∈ s'.grants.rows, row'.isActive = true → ∃ row ∈ s.grants.rows,
      row.tokenHash = row'.tokenHash ∧ row.isActive = true ∧ row.settings = row'.settings)
    (gone : activeGrant s'.grants l.hash = none → activeGrant s.grants l.hash = none)
    (dead : s.dead ⊆ s'.dead) (onward : s.now ≤ s'.now) : l.Sound s' := by
  refine ⟨fun started stage => Nat.le_trans (sound.started started stage) generation, ?_,
    sound.absent, sound.answered,
    fun status stage => (sound.refused status stage).imp_right fun ⟨isExpired, row, rowMem, expired⟩ =>
      ⟨isExpired, row, rowMem, AgentGrant.isExpired_mono onward expired⟩,
    fun none => sound.lapses (gone none), ?_, fun hash hashMem => dead (sound.dead hashMem),
    sound.nothing⟩
  · intro started row stage
    obtain ⟨atMost, saw, whenSame⟩ := sound.read started row stage
    refine ⟨Nat.le_trans atMost generation, saw, fun same => ?_⟩
    have unchanged : s.cache.generation = s'.cache.generation :=
      Nat.le_antisymm generation (same ▸ atMost)
    exact current unchanged row (whenSame (same.trans unchanged.symm))
  · intro row' row'Mem sameHash active
    obtain ⟨row, rowMem, rowHash, rowActive, settings⟩ := rows row' row'Mem active
    obtain ⟨seen, seenMem, seenSettings⟩ :=
      sound.seen row rowMem (rowHash.trans sameHash) rowActive
    exact ⟨seen, seenMem, seenSettings.trans settings⟩

/-- A lookup in flight when the table changes. -/
theorem TokenLookup.Sound.observed {l : TokenLookup} (sound : l.Sound s)
    (sameCache : s'.cache = s.cache)
    (current : ∀ grant, s.Current l.hash grant → s'.Current l.hash grant)
    (hashes : ∀ row ∈ s'.grants.rows, ∀ row' ∈ s'.grants.rows, row'.tokenHash = row.tokenHash →
      row' = row)
    (dead : s.dead ⊆ s'.dead) (onward : s.now ≤ s'.now)
    (inactive : ∀ hash ∈ s'.dead, ∀ row ∈ s'.grants.rows, row.tokenHash = hash →
      row.isActive = false) : (l.observe s'.grants).Sound s' := by
  have more : ∀ grant, l.Saw grant → (l.observe s'.grants).Saw grant := by
    rintro grant ⟨row, rowMem, same⟩
    exact ⟨row, List.mem_append_right _ rowMem, same⟩
  have lapsed : l.lapsed = true → (l.observe s'.grants).lapsed = true :=
    fun was => Bool.or_eq_true_iff.mpr (.inl was)
  refine ⟨fun started stage => sameCache ▸ sound.started started stage, ?_,
    fun generation stage => lapsed (sound.absent generation stage),
    fun grant stage => more grant (sound.answered grant stage), ?_,
    fun none => Bool.or_eq_true_iff.mpr (.inr (Option.isNone_iff_eq_none.mpr none)), ?_,
    fun hash hashMem => dead (sound.dead hashMem), ?_⟩
  · intro started row stage
    obtain ⟨atMost, saw, whenSame⟩ := sound.read started row stage
    exact ⟨sameCache ▸ atMost, more row saw,
      fun same => current row (whenSame (sameCache ▸ same))⟩
  · intro status stage
    refine (sound.refused status stage).imp lapsed fun ⟨isExpired, row, rowMem, expired⟩ => ?_
    exact ⟨isExpired, row, List.mem_append_right _ rowMem, AgentGrant.isExpired_mono onward expired⟩
  · intro row rowMem sameHash active
    have found := activeGrant_of_mem hashes rowMem active
    have ofToken : row.tokenHash = l.hash := sameHash
    refine ⟨row, List.mem_append_left _ ?_, rfl⟩
    rw [← ofToken, found]
    exact List.mem_singleton_self row
  · intro isDead
    have gone := activeGrant_eq_none (inactive l.hash (dead (sound.dead isDead)))
    change (activeGrant s'.grants l.hash).toList ++ l.visible = []
    rw [gone, sound.nothing isDead]
    rfl

end Keeping

theorem TokenState.Sound.started {s : TokenState} (sound : s.Sound) {hash : TokenHash}
    {stage : LookupStage}
    (reading : ∀ generation, stage = .reading generation → generation ≤ s.cache.generation)
    (notRead : ∀ generation row, stage ≠ .read generation row)
    (answered : ∀ grant, stage = .answered (.ok grant) → s.Current hash grant)
    (refused : ∀ status, stage = .answered (.refused status) → status = 410 ∧
      ∃ grant, s.Current hash grant ∧ grant.isExpired s.now = true) :
    (s.lookup hash stage).Sound s := by
  have seen : ∀ row ∈ s.grants.rows, row.tokenHash = hash → row.isActive = true →
      (s.lookup hash stage).Saw row := by
    rintro row rowMem rfl active
    have found := activeGrant_of_mem sound.hashes rowMem active
    exact ⟨row, Option.mem_toList.mpr found, rfl⟩
  refine ⟨reading, fun generation row isRead => absurd isRead (notRead generation _),
    fun generation isRead => absurd isRead (notRead generation _), ?_, ?_,
    Option.isNone_iff_eq_none.mpr, seen, List.Subset.refl _, ?_⟩
  · intro grant isAnswer
    obtain ⟨row, rowMem, active, sameHash, settings⟩ := (answered grant isAnswer).stored
    obtain ⟨visible, visibleMem, same⟩ := seen row rowMem sameHash active
    exact ⟨visible, visibleMem, same.trans settings⟩
  · intro status isAnswer
    obtain ⟨isExpired, grant, current, expired⟩ := refused status isAnswer
    obtain ⟨row, rowMem, active, sameHash, settings⟩ := current.stored
    obtain ⟨visible, visibleMem, same⟩ := seen row rowMem sameHash active
    refine .inr ⟨isExpired, visible, visibleMem, ?_⟩
    exact (AgentGrant.isExpired_of_settings (same.trans settings) s.now).trans expired
  · intro isDead
    have gone := activeGrant_eq_none (sound.dead hash isDead).2
    exact congrArg Option.toList gone

/-- The cache entries after an invalidation are those of other grants. -/
theorem TokenState.Sound.invalidate_entries {s : TokenState} (sound : s.Sound)
    {grantId : GrantId} {hash : TokenHash} {entry : CachedToken}
    (found : OrderedMap.get? (s.cache.invalidateTokenCache grantId).entries hash = some entry) :
    entry.grant.ID ≠ grantId ∧ OrderedMap.get? s.cache.entries hash = some entry ∧
      OrderedMap.get? (s.cache.invalidateTokenCache grantId).hashOfGrant entry.grant.ID =
        some hash := by
  rw [TokenCache.invalidateTokenCache] at found ⊢
  cases known : OrderedMap.get? s.cache.hashOfGrant grantId with
  | none =>
      rw [known] at found
      have stored := (sound.entries hash entry found).2
      refine ⟨?_, found, stored⟩
      rintro rfl
      rw [known] at stored
      cases stored
  | some dropped =>
      rw [known] at found
      simp only [OrderedMap.get?_delete] at found ⊢
      split at found
      · cases found
      · rename_i different
        have stored := (sound.entries hash entry found).2
        have otherGrant : grantId ≠ entry.grant.ID := by
          rintro rfl
          rw [known] at stored
          exact different (Option.some.inj stored)
        rw [if_neg otherGrant]
        exact ⟨Ne.symm otherGrant, found, stored⟩

/-- Remembering a current row keeps the cache to current rows. -/
theorem TokenState.Sound.remember_entries {s : TokenState} (sound : s.Sound) {hash : TokenHash}
    {grant : AgentGrant} (current : s.Current hash grant) {expires : Time} {hash' : TokenHash}
    {entry : CachedToken}
    (found : OrderedMap.get? (s.cache.rememberToken hash grant expires).entries hash' =
      some entry) :
    s.Current hash' entry.grant ∧
      OrderedMap.get? (s.cache.rememberToken hash grant expires).hashOfGrant entry.grant.ID =
        some hash' := by
  have room : ∀ h e, OrderedMap.get? s.cache.makeRoom.entries h = some e →
      s.Current h e.grant ∧
        OrderedMap.get? s.cache.makeRoom.hashOfGrant e.grant.ID = some h := by
    intro h e stored
    rw [TokenCache.makeRoom] at stored ⊢
    split at stored
    · cases stored
    · rename_i roomy
      rw [if_neg roomy]
      exact sound.entries h e stored
  simp only [TokenCache.rememberToken, OrderedMap.get?_set] at found ⊢
  split at found
  · rename_i same
    cases found
    rw [if_pos rfl]
    exact ⟨same ▸ current, congrArg some same⟩
  · rename_i different
    obtain ⟨wasCurrent, wasKnown⟩ := room hash' entry found
    have otherGrant : grant.ID ≠ entry.grant.ID := by
      intro sameId
      obtain ⟨row, rowMem, -, rowHash, rowSettings⟩ := current.stored
      obtain ⟨row', row'Mem, -, row'Hash, row'Settings⟩ := wasCurrent.stored
      have sameRow : row = row' := Table.mem_rows_inj rowMem row'Mem
        ((AgentGrant.ID_of_settings rowSettings).trans
          (sameId.trans (AgentGrant.ID_of_settings row'Settings).symm))
      exact different (rowHash.symm.trans (sameRow ▸ row'Hash))
    rw [if_neg otherGrant]
    exact ⟨wasCurrent, wasKnown⟩

/-- Steps that touch neither rows nor cache, and drop no cache entry. -/
theorem TokenState.Sound.sameRows {s s' : TokenState} (sound : s.Sound)
    (grants : s'.grants = s.grants) (cache : s'.cache = s.cache) (dead : s'.dead = s.dead)
    (used : s'.used = s.used) (lookups : s'.lookups = s.lookups)
    (actions : ∀ a ∈ s'.actions, a.invalidated = true → a ∈ s.actions)
    (onward : s.now ≤ s'.now) : s'.Sound := by
  have current : ∀ hash grant, s.Current hash grant → s'.Current hash grant :=
    fun hash grant was => was.keep
      (fun row rowMem active _ => ⟨row, grants ▸ rowMem, active, rfl, rfl⟩) actions
  refine ⟨grants ▸ sound.hashes, grants ▸ used ▸ sound.used, ?_, ?_, ?_⟩
  · rw [dead, used, grants]
    exact sound.dead
  · rw [cache]
    intro hash entry found
    exact ⟨current hash _ (sound.entries hash entry found).1,
      (sound.entries hash entry found).2⟩
  · intro l lMem
    refine (sound.lookups l (lookups ▸ lMem)).keep (Nat.le_of_eq (congrArg _ cache.symm))
      (fun _ => current l.hash) ?_ (fun none => grants ▸ none) (dead ▸ List.Subset.refl _) onward
    intro row rowMem active
    exact ⟨row, grants ▸ rowMem, rfl, active, rfl⟩

/-- Steps that change the table under the lookups in flight. -/
theorem TokenState.Sound.newRows {s s' : TokenState} (sound : s.Sound)
    (cache : s'.cache = s.cache)
    (lookups : s'.lookups = s.lookups.map (TokenLookup.observe s'.grants))
    (actions : ∀ a ∈ s'.actions, a.invalidated = true → a ∈ s.actions)
    (rows : ∀ row ∈ s.grants.rows, row.isActive = true →
      (∀ a ∈ s.actions, a.invalidated = true → a.grantId ≠ row.ID) →
      ∃ row' ∈ s'.grants.rows, row'.isActive = true ∧ row'.tokenHash = row.tokenHash ∧
        row'.settings = row.settings)
    (hashes : ∀ row ∈ s'.grants.rows, ∀ row' ∈ s'.grants.rows, row'.tokenHash = row.tokenHash →
      row' = row)
    (used : ∀ row ∈ s'.grants.rows, row.tokenHash ∈ s'.used)
    (subset : s.dead ⊆ s'.dead) (onward : s.now ≤ s'.now)
    (dead : ∀ hash ∈ s'.dead, hash ∈ s'.used ∧
      ∀ row ∈ s'.grants.rows, row.tokenHash = hash → row.isActive = false) : s'.Sound := by
  have current : ∀ hash grant, s.Current hash grant → s'.Current hash grant :=
    fun hash grant was => was.keep rows actions
  refine ⟨hashes, used, dead, ?_, ?_⟩
  · rw [cache]
    intro hash entry found
    exact ⟨current hash _ (sound.entries hash entry found).1,
      (sound.entries hash entry found).2⟩
  · intro observed observedMem
    rw [lookups] at observedMem
    obtain ⟨l, lMem, rfl⟩ := List.mem_map.mp observedMem
    exact (sound.lookups l lMem).observed cache (current l.hash) hashes subset onward
      fun hash hashMem => (dead hash hashMem).2

theorem TokenState.Sound.commit {s : TokenState} (sound : s.Sound) {earlier later : List OpenAction}
    {a : OpenAction} (isOpen : s.actions = earlier ++ a :: later) (dropped : a.invalidated = true)
    (fresh : ∀ hash, a.change.newHash = some hash → hash ∉ s.used) :
    TokenState.Sound { s with
      grants := commitChange s.grants a
      actions := earlier ++ later
      dead := endedTokens s.grants a ++ s.dead
      used := a.change.newHash.toList ++ s.used
      lookups := s.lookups.map (TokenLookup.observe (commitChange s.grants a)) } := by
  have aMem : a ∈ s.actions := isOpen ▸ List.mem_append_right _ List.mem_cons_self
  -- a changed row keeps its hash or gets one that nobody has
  have newHash : ∀ row, (a.change.apply row).tokenHash ≠ row.tokenHash →
      (a.change.apply row).tokenHash ∉ s.used := fun row different =>
    fresh _ ((a.change.apply_tokenHash row).resolve_left different)
  -- and that is no other row's hash
  have apart : ∀ row ∈ s.grants.rows, (row.ID = a.grantId → row.isActive = false) →
      ∀ old ∈ s.grants.rows, old.ID = a.grantId → old.isActive = true →
        (a.change.apply old).tokenHash ≠ row.tokenHash := by
    intro row rowMem gone old oldMem oldId active same
    by_cases kept : (a.change.apply old).tokenHash = old.tokenHash
    · have sameRow : old = row := sound.hashes row rowMem old oldMem (kept.symm.trans same)
      have inactive := gone (sameRow ▸ oldId)
      rw [← sameRow, active] at inactive
      cases inactive
    · exact newHash old kept (same ▸ sound.used row rowMem)
  refine sound.newRows rfl rfl ?_ ?_ ?_ ?_ (List.subset_append_right _ _) (le_refl s.now) ?_
  · intro other otherMem _
    rw [isOpen]
    exact ((List.sublist_cons_self a later).append_left earlier).subset otherMem
  · intro row rowMem active apart
    exact ⟨row, mem_commitChange_of_ne rowMem (apart a aMem dropped), active, rfl, rfl⟩
  · intro row rowMem row' row'Mem sameHash
    rcases mem_commitChange rowMem with ⟨old, gone⟩ | ⟨old, oldMem, oldId, active, rfl⟩
    · rcases mem_commitChange row'Mem with ⟨old', -⟩ | ⟨old', old'Mem, old'Id, active', rfl⟩
      · exact sound.hashes row old row' old' sameHash
      · exact absurd sameHash (apart row old gone old' old'Mem old'Id active')
    · rcases mem_commitChange row'Mem with ⟨old', gone'⟩ | ⟨old', old'Mem, old'Id, -, rfl⟩
      · exact absurd sameHash.symm (apart row' old' gone' old oldMem oldId active)
      · rw [Table.mem_rows_inj old'Mem oldMem (old'Id.trans oldId.symm)]
  · intro row rowMem
    rcases mem_commitChange rowMem with ⟨old, -⟩ | ⟨old, oldMem, -, -, rfl⟩
    · exact List.mem_append_right _ (sound.used row old)
    · rcases a.change.apply_tokenHash old with same | brought
      · rw [same]
        exact List.mem_append_right _ (sound.used old oldMem)
      · exact List.mem_append_left _ (Option.mem_toList.mpr brought)
  · intro hash hashMem
    rcases List.mem_append.mp hashMem with ended | old
    · obtain ⟨ends, row, rowMem, rowId, active, rfl⟩ := mem_endedTokens ended
      refine ⟨List.mem_append_right _ (sound.used row rowMem), ?_⟩
      intro row' row'Mem sameHash
      rcases mem_commitChange row'Mem with ⟨old', gone'⟩ | ⟨old', old'Mem, old'Id, -, rfl⟩
      · exact gone' (sound.hashes row rowMem row' old' sameHash ▸ rowId)
      · cases Table.mem_rows_inj old'Mem rowMem (old'Id.trans rowId.symm)
        cases change : a.change with
        | revoke now => rfl
        | rotate tokenHash =>
            rw [change] at sameHash fresh
            have isOld : tokenHash = row.tokenHash := sameHash
            exact absurd (isOld ▸ sound.used row rowMem) (fresh tokenHash rfl)
        | update patch =>
            rw [change] at ends
            cases ends
    · obtain ⟨isUsed, inactive⟩ := sound.dead hash old
      refine ⟨List.mem_append_right _ isUsed, ?_⟩
      intro row rowMem sameHash
      rcases mem_commitChange rowMem with ⟨was, -⟩ | ⟨was, wasMem, -, active, rfl⟩
      · exact inactive row was sameHash
      · by_cases kept : (a.change.apply was).tokenHash = was.tokenHash
        · exact absurd (active.symm.trans (inactive was wasMem (kept.symm.trans sameHash))) nofun
        · exact absurd (sameHash ▸ isUsed) (newHash was kept)

/-- Steps that change the lookups, and perhaps the cache, but no row or action. -/
theorem TokenState.Sound.newLookups {s s' : TokenState} (sound : s.Sound)
    (grants : s'.grants = s.grants) (actions : s'.actions = s.actions) (dead : s'.dead = s.dead)
    (used : s'.used = s.used) (generation : s'.cache.generation = s.cache.generation)
    (entries : ∀ hash entry, OrderedMap.get? s'.cache.entries hash = some entry →
      s.Current hash entry.grant ∧
        OrderedMap.get? s'.cache.hashOfGrant entry.grant.ID = some hash)
    (lookups : ∀ l ∈ s'.lookups, l.Sound s) (now : s'.now = s.now) : s'.Sound := by
  have current : ∀ hash grant, s.Current hash grant → s'.Current hash grant :=
    fun hash grant was => was.keep
      (fun row rowMem active _ => ⟨row, grants ▸ rowMem, active, rfl, rfl⟩)
      (fun a aMem _ => actions ▸ aMem)
  refine ⟨grants ▸ sound.hashes, grants ▸ used ▸ sound.used, ?_, ?_, ?_⟩
  · rw [dead, used, grants]
    exact sound.dead
  · intro hash entry found
    exact ⟨current hash _ (entries hash entry found).1, (entries hash entry found).2⟩
  · intro l lMem
    refine (lookups l lMem).keep (Nat.le_of_eq generation.symm) (fun _ => current l.hash) ?_
      (fun none => grants ▸ none) (dead ▸ List.Subset.refl _) now.ge
    intro row rowMem active
    exact ⟨row, grants ▸ rowMem, rfl, active, rfl⟩

theorem mem_replace {α : Type*} {property : α → Prop} {earlier later : List α} {old new : α}
    (all : ∀ x ∈ earlier ++ old :: later, property x) (holds : property new) :
    ∀ x ∈ earlier ++ new :: later, property x := by
  intro x xMem
  rcases List.mem_append.mp xMem with before | after
  · exact all x (List.mem_append_left _ before)
  · rcases List.mem_cons.mp after with rfl | after
    · exact holds
    · exact all x (List.mem_append_right _ (List.mem_cons_of_mem _ after))

theorem TokenState.Sound.issue {s : TokenState} (sound : s.Sound) {row : AgentGrant}
    {grants : Table AgentGrant.ID} (fresh : row.tokenHash ∉ s.used)
    (rows : grants.rows = s.grants.rows ++ [row]) :
    TokenState.Sound { s with
      grants, used := row.tokenHash :: s.used
      lookups := s.lookups.map (TokenLookup.observe grants) } := by
  have mem : ∀ other ∈ grants.rows, other ∈ s.grants.rows ∨ other = row := fun other otherMem =>
    (List.mem_append.mp (rows ▸ otherMem)).imp_right List.mem_singleton.mp
  have apart : ∀ other ∈ s.grants.rows, other.tokenHash ≠ row.tokenHash :=
    fun other otherMem same => fresh (same ▸ sound.used other otherMem)
  refine sound.newRows rfl rfl (fun _ aMem _ => aMem) ?_ ?_ ?_ (List.Subset.refl _)
    (le_refl s.now) ?_
  · intro other otherMem active _
    exact ⟨other, rows ▸ List.mem_append_left _ otherMem, active, rfl, rfl⟩
  · intro first firstMem second secondMem same
    rcases mem first firstMem with old | rfl
    · rcases mem second secondMem with old' | rfl
      · exact sound.hashes first old second old' same
      · exact absurd same.symm (apart first old)
    · rcases mem second secondMem with old' | rfl
      · exact absurd same (apart second old')
      · rfl
  · intro other otherMem
    rcases mem other otherMem with old | rfl
    · exact List.mem_cons_of_mem _ (sound.used other old)
    · exact List.mem_cons_self
  · intro hash hashMem
    obtain ⟨isUsed, inactive⟩ := sound.dead hash hashMem
    refine ⟨List.mem_cons_of_mem _ isUsed, fun other otherMem same => ?_⟩
    rcases mem other otherMem with old | rfl
    · exact inactive other old same
    · exact absurd (same ▸ isUsed) fresh

theorem TokenState.Sound.invalidate {s : TokenState} (sound : s.Sound)
    {earlier later : List OpenAction} {a : OpenAction} (isOpen : s.actions = earlier ++ a :: later) :
    TokenState.Sound { s with
      cache := s.cache.invalidateTokenCache a.grantId
      actions := earlier ++ { a with invalidated := true } :: later } := by
  have bumped : (s.cache.invalidateTokenCache a.grantId).generation = s.cache.generation + 1 := by
    rw [TokenCache.invalidateTokenCache]
    split <;> rfl
  refine ⟨sound.hashes, sound.used, sound.dead, ?_, ?_⟩
  · intro hash entry found
    obtain ⟨otherGrant, stored, known⟩ := sound.invalidate_entries found
    obtain ⟨current, -⟩ := sound.entries hash entry stored
    refine ⟨⟨current.stored, ?_⟩, known⟩
    have before := current.undisturbed
    rw [isOpen] at before
    exact mem_replace before fun _ => Ne.symm otherGrant
  · intro l lMem
    refine (sound.lookups l lMem).keep ?_ ?_ ?_ (fun none => none) (List.Subset.refl _)
      (le_refl s.now)
    · exact bumped ▸ Nat.le_succ _
    · intro same
      exact absurd (same.trans bumped) (Nat.ne_of_lt (Nat.lt_succ_self _))
    · exact fun row rowMem active => ⟨row, rowMem, rfl, active, rfl⟩

theorem TokenState.Sound.spend {s : TokenState} (sound : s.Sound) {set : AgentGrant → AgentGrant}
    {selected : AgentGrant → Bool} (keepsId : ∀ row, (set row).ID = row.ID)
    (keeps : ∀ row, (set row).tokenHash = row.tokenHash ∧ (set row).isActive = row.isActive ∧
      (set row).settings = row.settings) :
    TokenState.Sound { s with grants := s.grants.update selected set keepsId } := by
  have mem : ∀ row' ∈ (s.grants.update selected set keepsId).rows, ∃ row ∈ s.grants.rows,
      row'.ID = row.ID ∧ row'.tokenHash = row.tokenHash ∧ row'.isActive = row.isActive ∧
        row'.settings = row.settings := by
    intro row' row'Mem
    obtain ⟨row, rowMem, rfl⟩ := List.mem_map.mp row'Mem
    refine ⟨row, rowMem, ?_⟩
    split
    · exact ⟨keepsId row, keeps row⟩
    · exact ⟨rfl, rfl, rfl, rfl⟩
  have kept : ∀ row ∈ s.grants.rows, ∃ row' ∈ (s.grants.update selected set keepsId).rows,
      row'.tokenHash = row.tokenHash ∧ row'.isActive = row.isActive ∧
        row'.settings = row.settings := by
    intro row rowMem
    refine ⟨_, List.mem_map_of_mem rowMem, ?_⟩
    split
    · exact keeps row
    · exact ⟨rfl, rfl, rfl⟩
  have current : ∀ hash grant, s.Current hash grant →
      TokenState.Current { s with grants := s.grants.update selected set keepsId } hash grant :=
    fun hash grant was => was.keep
      (fun row rowMem active _ => by
        obtain ⟨row', row'Mem, sameHash, sameActive, settings⟩ := kept row rowMem
        exact ⟨row', row'Mem, sameActive.trans active, sameHash, settings⟩)
      fun _ aMem _ => aMem
  refine ⟨?_, ?_, ?_, ?_, ?_⟩
  · intro first firstMem second secondMem same
    obtain ⟨row, rowMem, rowId, rowHash, -⟩ := mem first firstMem
    obtain ⟨row', row'Mem, row'Id, row'Hash, -⟩ := mem second secondMem
    have sameRow := sound.hashes row rowMem row' row'Mem
      (row'Hash.symm.trans (same.trans rowHash))
    exact Table.mem_rows_inj secondMem firstMem (row'Id.trans (sameRow ▸ rowId.symm))
  · intro row' row'Mem
    obtain ⟨row, rowMem, -, sameHash, -⟩ := mem row' row'Mem
    exact sameHash ▸ sound.used row rowMem
  · intro hash hashMem
    obtain ⟨isUsed, inactive⟩ := sound.dead hash hashMem
    refine ⟨isUsed, fun row' row'Mem same => ?_⟩
    obtain ⟨row, rowMem, -, sameHash, sameActive, -⟩ := mem row' row'Mem
    exact sameActive.trans (inactive row rowMem (sameHash.symm.trans same))
  · intro hash entry found
    exact ⟨current hash _ (sound.entries hash entry found).1,
      (sound.entries hash entry found).2⟩
  · intro l lMem
    refine (sound.lookups l lMem).keep (Nat.le_refl _) (fun _ => current l.hash) ?_ ?_
      (List.Subset.refl _) (le_refl s.now)
    · intro row' row'Mem active
      obtain ⟨row, rowMem, -, sameHash, sameActive, settings⟩ := mem row' row'Mem
      exact ⟨row, rowMem, sameHash.symm, sameActive.symm.trans active, settings.symm⟩
    · intro none
      refine activeGrant_eq_none fun row rowMem sameHash => ?_
      obtain ⟨row', row'Mem, hash', sameActive, -⟩ := kept row rowMem
      exact sameActive.symm.trans (inactive_of_activeGrant none row' row'Mem (hash'.trans sameHash))

theorem resolutionOf_eq_refused {grant : AgentGrant} {now : Time} {status : Nat}
    (refused : resolutionOf grant now = .refused status) :
    status = 410 ∧ grant.isExpired now = true := by
  rw [resolutionOf] at refused
  split at refused
  · rename_i expired
    cases refused
    exact ⟨rfl, expired⟩
  · cases refused

theorem resolutionOf_eq_ok {grant answer : AgentGrant} {now : Time}
    (ok : resolutionOf grant now = .ok answer) : answer = grant := by
  rw [resolutionOf] at ok
  split at ok
  · cases ok
  · cases ok
    rfl

/-- What the cache part of a lookup does: an answer is a cached row's, and
without one entries are at most dropped. -/
theorem TokenCache.resolve_spec (cache : TokenCache) (hash : TokenHash) (now : Time) :
    (∀ grant, (cache.resolve hash now).1 = some (.ok grant) →
      ∃ entry, OrderedMap.get? cache.entries hash = some entry ∧ grant = entry.grant) ∧
      (∀ status, (cache.resolve hash now).1 = some (.refused status) → status = 410 ∧
        ∃ entry, OrderedMap.get? cache.entries hash = some entry ∧
          entry.grant.isExpired now = true) ∧
      (cache.resolve hash now).2.generation = cache.generation ∧
      ∀ hash' entry, OrderedMap.get? (cache.resolve hash now).2.entries hash' = some entry →
        OrderedMap.get? cache.entries hash' = some entry ∧
          (cache.resolve hash now).2.hashOfGrant = cache.hashOfGrant := by
  rw [resolve]
  cases found : OrderedMap.get? cache.entries hash with
  | none =>
      exact ⟨fun _ hit => (by cases hit), fun _ hit => (by cases hit), rfl,
        fun hash' entry stored => ⟨stored, rfl⟩⟩
  | some hit =>
      simp only
      split
      · refine ⟨?_, ?_, rfl, fun hash' entry stored => ⟨stored, rfl⟩⟩
        · intro grant isAnswer
          exact ⟨hit, rfl, resolutionOf_eq_ok (Option.some.inj isAnswer)⟩
        · intro status isAnswer
          obtain ⟨isExpired, expired⟩ := resolutionOf_eq_refused (Option.some.inj isAnswer)
          exact ⟨isExpired, hit, rfl, expired⟩
      · refine ⟨fun _ hit => (by cases hit), fun _ hit => (by cases hit), rfl,
          fun hash' entry stored => ?_⟩
        rw [OrderedMap.get?_delete] at stored
        split at stored
        · cases stored
        · exact ⟨stored, rfl⟩

/-- What the part after the SELECT does: the answer is the row's, and the cache remembers at most
that row, when no invalidation ran meanwhile. -/
theorem TokenCache.answer_spec (cache : TokenCache) (hash : TokenHash) (generation : Nat)
    (row : Option AgentGrant) (now ttl : Time) :
    (∀ grant, (cache.answer hash generation row now ttl).1 = .ok grant → row = some grant) ∧
      (∀ status, (cache.answer hash generation row now ttl).1 = .refused status →
        row = none ∨ status = 410 ∧ ∃ grant, row = some grant ∧ grant.isExpired now = true) ∧
      ((cache.answer hash generation row now ttl).2 = cache ∨
        ∃ grant expires, row = some grant ∧ generation = cache.generation ∧
          (cache.answer hash generation row now ttl).2 =
            cache.rememberToken hash grant expires) := by
  cases row with
  | none => exact ⟨fun _ isOk => (by cases isOk), fun _ _ => .inl rfl, .inl rfl⟩
  | some grant =>
      simp only [answer]
      split
      · rename_i expired
        refine ⟨fun _ isOk => (by cases isOk), fun status refused => ?_, .inl rfl⟩
        cases refused
        exact .inr ⟨rfl, grant, rfl, expired⟩
      · refine ⟨fun answer isOk => ?_, fun _ refused => (by cases refused), ?_⟩
        · cases isOk
          rfl
        · split
          · rename_i same
            exact .inr ⟨grant, _, rfl, same, rfl⟩
          · exact .inl rfl

theorem TokenCache.rememberToken_generation (cache : TokenCache) (hash : TokenHash)
    (grant : AgentGrant) (expires : Time) :
    (cache.rememberToken hash grant expires).generation = cache.generation := by
  change cache.makeRoom.generation = cache.generation
  rw [makeRoom]
  split <;> rfl

/-! One lemma for each step of a lookup. -/

theorem TokenState.Sound.hit {s : TokenState} (sound : s.Sound) {hash : TokenHash}
    {resolution : TokenResolution} (cached : (s.cache.resolve hash s.now).1 = some resolution) :
    TokenState.Sound { s with
      lookups := s.lookup hash (.answered resolution) :: s.lookups } := by
  obtain ⟨answers, refuses, -⟩ := s.cache.resolve_spec hash s.now
  refine sound.newLookups rfl rfl rfl rfl rfl sound.entries ?_ rfl
  intro l lMem
  rcases List.mem_cons.mp lMem with rfl | old
  · refine sound.started (fun _ reading => LookupStage.noConfusion reading)
      (fun _ _ read => LookupStage.noConfusion read) ?_ ?_
    · intro grant isAnswer
      cases isAnswer
      obtain ⟨entry, found, rfl⟩ := answers grant cached
      exact (sound.entries hash entry found).1
    · intro status isAnswer
      cases isAnswer
      obtain ⟨isExpired, entry, found, expired⟩ := refuses status cached
      exact ⟨isExpired, entry.grant, (sound.entries hash entry found).1, expired⟩
  · exact sound.lookups l old

theorem TokenState.Sound.miss {s : TokenState} (sound : s.Sound) {hash : TokenHash}
    {cache : TokenCache} (cached : s.cache.resolve hash s.now = (none, cache)) :
    TokenState.Sound { s with
      cache
      lookups := s.lookup hash (.reading cache.generation) :: s.lookups } := by
  obtain ⟨-, -, generation, entries⟩ := s.cache.resolve_spec hash s.now
  rw [cached] at generation entries
  refine sound.newLookups rfl rfl rfl rfl generation ?_ ?_ rfl
  · intro hash' entry found
    obtain ⟨stored, sameHashes⟩ := entries hash' entry found
    obtain ⟨current, known⟩ := sound.entries hash' entry stored
    exact ⟨current, (congrArg (OrderedMap.get? · _) sameHashes).trans known⟩
  · intro l lMem
    rcases List.mem_cons.mp lMem with rfl | old
    · refine sound.started ?_ (fun _ _ read => LookupStage.noConfusion read)
        (fun _ answered => LookupStage.noConfusion answered)
        fun _ answered => LookupStage.noConfusion answered
      rintro _ ⟨⟩
      exact Nat.le_of_eq generation
    · exact sound.lookups l old

/-- A SELECT that finds no grant under an open action. -/
theorem TokenState.Sound.select {s : TokenState} (sound : s.Sound) {earlier later : List TokenLookup}
    {l : TokenLookup} {generation : Nat} (inFlight : s.lookups = earlier ++ l :: later)
    (stage : l.stage = .reading generation) (committed : ReadsCommitted s l) :
    TokenState.Sound { s with
      lookups :=
        earlier ++ { l with stage := .read generation (activeGrant s.grants l.hash) } ::
          later } := by
  have was := sound.lookups l (inFlight ▸ List.mem_append_right _ List.mem_cons_self)
  have others := sound.lookups
  rw [inFlight] at others
  refine sound.newLookups rfl rfl rfl rfl rfl sound.entries (mem_replace others ?_) rfl
  refine ⟨fun _ reading => LookupStage.noConfusion reading, ?_, ?_,
    fun _ answered => LookupStage.noConfusion answered,
    fun _ answered => LookupStage.noConfusion answered, was.lapses,
    was.seen, was.dead, was.nothing⟩
  · intro started row isRead
    obtain ⟨rfl, found⟩ := LookupStage.read.inj isRead
    obtain ⟨rowMem, sameHash, active⟩ := activeGrant_eq_some found
    refine ⟨was.started generation stage, was.seen row rowMem sameHash active, ?_⟩
    rintro rfl
    exact ⟨⟨row, rowMem, active, sameHash, rfl⟩, committed stage row found⟩
  · intro started isRead
    exact was.lapses (LookupStage.read.inj isRead).2

theorem TokenState.Sound.answer {s : TokenState} (sound : s.Sound) {earlier later : List TokenLookup}
    {l : TokenLookup} {generation : Nat} {row : Option AgentGrant}
    (inFlight : s.lookups = earlier ++ l :: later) (stage : l.stage = .read generation row)
    (ttl : Time) :
    TokenState.Sound { s with
      cache := (s.cache.answer l.hash generation row s.now ttl).2
      lookups :=
        earlier ++
          { l with stage := .answered (s.cache.answer l.hash generation row s.now ttl).1 } ::
          later } := by
  have was := sound.lookups l (inFlight ▸ List.mem_append_right _ List.mem_cons_self)
  have others := sound.lookups
  rw [inFlight] at others
  obtain ⟨answers, refuses, remembers⟩ := s.cache.answer_spec l.hash generation row s.now ttl
  refine sound.newLookups rfl rfl rfl rfl ?_ ?_ (mem_replace others ?_) rfl
  · rcases remembers with same | ⟨grant, expires, -, -, remembered⟩
    · exact congrArg TokenCache.generation same
    · exact (congrArg TokenCache.generation remembered).trans
        (s.cache.rememberToken_generation l.hash grant expires)
  · rcases remembers with same | ⟨grant, expires, rfl, since, remembered⟩
    · rw [same]
      exact sound.entries
    · -- what is remembered was read since the last invalidation, so it is current
      rw [remembered]
      exact fun hash entry => sound.remember_entries
        ((was.read generation grant stage).2.2 since)
  · refine ⟨fun _ reading => LookupStage.noConfusion reading,
      fun _ _ read => LookupStage.noConfusion read,
      fun _ read => LookupStage.noConfusion read, ?_, ?_, was.lapses, was.seen,
      was.dead, was.nothing⟩
    · intro grant isAnswer
      obtain rfl := answers grant (LookupStage.answered.inj isAnswer)
      exact (was.read generation grant stage).2.1
    · intro status isAnswer
      rcases refuses status (LookupStage.answered.inj isAnswer) with
        rfl | ⟨isExpired, grant, rfl, expired⟩
      · exact .inl (was.absent generation stage)
      · obtain ⟨seen, seenMem, same⟩ := (was.read generation grant stage).2.1
        refine .inr ⟨isExpired, seen, seenMem, ?_⟩
        exact (AgentGrant.isExpired_of_settings same s.now).trans expired

theorem TokenStep.sound {allowed : TokenState → TokenLookup → Prop} {ttl : Time}
    (committed : ∀ s l, allowed s l → ReadsCommitted s l) {s s' : TokenState}
    (step : TokenStep allowed ttl s s') (sound : s.Sound) : s'.Sound := by
  cases step with
  | clock later onward =>
      exact sound.sameRows rfl rfl rfl rfl rfl (fun _ aMem _ => aMem) onward
  | issue row grants fresh inserted =>
      rw [Table.insertAll?] at inserted
      split at inserted
      · cases inserted
        exact sound.issue fresh rfl
      · cases inserted
  | write grantId change =>
      refine sound.sameRows rfl rfl rfl rfl rfl ?_ (le_refl s.now)
      intro a aMem dropped
      rcases List.mem_cons.mp aMem with rfl | old
      · cases dropped
      · exact old
  | invalidate earlier later a isOpen => exact sound.invalidate isOpen
  | commit earlier later a isOpen invalidated fresh => exact sound.commit isOpen invalidated fresh
  | rollback earlier later a isOpen =>
      refine sound.sameRows rfl rfl rfl rfl rfl (fun other otherMem _ => ?_) (le_refl s.now)
      rw [isOpen]
      exact ((List.sublist_cons_self a later).append_left earlier).subset otherMem
  | spend grantId jobsUsedToday budgetWindow lastUsedAt =>
      exact sound.spend _ fun row => ⟨rfl, rfl, rfl⟩
  | hit hash resolution cached => exact sound.hit cached
  | miss hash cache cached => exact sound.miss cached
  | select earlier later l generation inFlight stage may =>
      exact sound.select inFlight stage (committed s l may)
  | answer earlier later l generation row inFlight stage => exact sound.answer inFlight stage ttl

/-! ## Runs -/

theorem TokenRun.sound {allowed : TokenState → TokenLookup → Prop} {ttl : Time}
    (committed : ∀ s l, allowed s l → ReadsCommitted s l) {s : TokenState}
    (run : TokenRun allowed ttl s) : s.Sound := by
  induction run with
  | start now =>
      exact ⟨fun _ rowMem => absurd rowMem List.not_mem_nil,
        fun _ rowMem => absurd rowMem List.not_mem_nil,
        fun _ hashMem => absurd hashMem List.not_mem_nil, fun _ _ found => (nomatch found),
        fun _ lMem => absurd lMem List.not_mem_nil⟩
  | step before step ih => exact step.sound committed ih

/-- What a lookup may be answered. -/
structure TokenLookup.Fair (s : TokenState) (l : TokenLookup) (resolution : TokenResolution) :
    Prop where
  /-- Its token was taken away before it started: it is refused. -/
  dead : l.hash ∈ l.dead → ∃ status, resolution = .refused status
  /-- It is let in with the settings of a row that was active under its token since it started. -/
  current : ∀ grant, resolution = .ok grant → ∃ row ∈ l.visible, row.settings = grant.settings
  /-- It is let in when such a row was there all the time, unless one of them is expired. -/
  alive : l.lapsed = false → (∃ grant, resolution = .ok grant) ∨
    resolution = .refused 410 ∧ ∃ row ∈ l.visible, row.isExpired s.now = true

/-- Where lookups read committed rows only, one that starts after its token was
taken away is refused, and one whose token is a grant's from its start on is let
in with the settings of that grant. -/
theorem endedToken_refused {ttl : Time} {s : TokenState} (run : TokenRun ReadsCommitted ttl s)
    {l : TokenLookup} (lMem : l ∈ s.lookups) {resolution : TokenResolution}
    (answered : l.stage = .answered resolution) : l.Fair s resolution := by
  have sound := (run.sound fun _ _ may => may).lookups l lMem
  refine ⟨fun isDead => ?_, ?_, fun never => ?_⟩
  · cases resolution with
    | refused status => exact ⟨status, rfl⟩
    | ok grant =>
        obtain ⟨row, rowMem, -⟩ := sound.answered grant answered
        rw [sound.nothing isDead] at rowMem
        exact absurd rowMem List.not_mem_nil
  · rintro grant rfl
    exact sound.answered grant answered
  · cases resolution with
    | ok grant => exact .inl ⟨grant, rfl⟩
    | refused status =>
        rcases sound.refused status answered with lapsed | ⟨rfl, expired⟩
        · exact absurd (never.symm.trans lapsed) Bool.false_ne_true
        · exact .inr ⟨rfl, expired⟩

/-! One grant, and lookups of its token. -/

def tokenGrant : AgentGrant where
  ID := "g"
  userId := "operator"
  agentLabel := none
  tokenHash := "h"
  allowedActions := ["SubmitTransaction"]
  walletId := none
  allowedJobKinds := none
  maxJobsPerDay := none
  jobsUsedToday := 0
  budgetWindow := none
  validUntil := none
  isActive := true
  revokedAt := none
  createdAt := 0
  lastUsedAt := none

def tokenGrants : Table AgentGrant.ID := ⟨[tokenGrant], by decide⟩

/-- A cache that remembers the grant. -/
def tokenCached (generation : Nat) : TokenCache :=
  ⟨⟨[("h", ⟨tokenGrant, 30⟩)], List.nodup_singleton _⟩, ⟨[("g", "h")], List.nodup_singleton _⟩,
    generation⟩

/-- A lookup of the token, which could see the grant. -/
def tokenLookup (stage : LookupStage) : TokenLookup := ⟨"h", stage, [], [tokenGrant], false⟩

def rotatedGrants : Table AgentGrant.ID := ⟨[tokenGrant.rotated "k"], by decide⟩

/-- The grant once its token was rotated, with lookups. -/
def rotatedState (lookups : List TokenLookup) : TokenState where
  grants := rotatedGrants
  cache := ⟨Table.empty, Table.empty, 1⟩
  now := 0
  lookups
  actions := []
  dead := ["h"]
  used := ["k", "h"]

/-- A lookup of the old token. -/
def oldLookup (stage : LookupStage) : TokenLookup := (rotatedState []).lookup "h" stage

/-- A lookup of the new token. -/
def newLookup (stage : LookupStage) : TokenLookup := (rotatedState []).lookup "k" stage

/-- The token is rotated, and then both tokens are looked up. -/
theorem rotatedState_run : TokenRun ReadsCommitted 30
    (rotatedState [newLookup (.read 1 (some (tokenGrant.rotated "k"))),
      oldLookup (.read 1 none)]) := by
  have rotated : TokenRun ReadsCommitted 30 (rotatedState []) :=
    .step (.step (.step (.step (.start 0)
      (.issue _ tokenGrant tokenGrants List.not_mem_nil rfl))
      (.write _ "g" (.rotate "k")))
      (.invalidate _ [] [] ⟨"g", .rotate "k", false⟩ rfl))
      (.commit _ [] [] ⟨"g", .rotate "k", true⟩ rfl rfl fun hash isNew => by
        obtain rfl := Option.some.inj isNew
        decide)
  have old : TokenRun ReadsCommitted 30 (rotatedState [oldLookup (.read 1 none)]) :=
    .step (.step rotated (.miss _ "h" ⟨Table.empty, Table.empty, 1⟩ rfl))
      (.select _ [] [] (oldLookup (.reading 1)) 1 rfl rfl
        fun _ _ _ _ aMem => absurd aMem List.not_mem_nil)
  exact .step (.step old (.miss _ "k" ⟨Table.empty, Table.empty, 1⟩ rfl))
    (.select _ [] _ (newLookup (.reading 1)) 1 rfl rfl
      fun _ _ _ _ aMem => absurd aMem List.not_mem_nil)

/-- The old token is refused and the new one is let in. -/
theorem endedToken_refused_sample : ∃ s, TokenRun ReadsCommitted 30 s ∧
    ∃ old ∈ s.lookups, ∃ new ∈ s.lookups, old.hash = "h" ∧ new.hash = "k" ∧
      old.Fair s (.refused 401) ∧ new.Fair s (.ok (tokenGrant.rotated "k")) := by
  have refused := rotatedState_run.step
    (.answer _ [newLookup (.read 1 (some (tokenGrant.rotated "k")))] [] (oldLookup (.read 1 none)) 1
      none rfl rfl)
  have run := refused.step
    (.answer _ [] [oldLookup (.answered (.refused 401))]
      (newLookup (.read 1 (some (tokenGrant.rotated "k")))) 1 (some (tokenGrant.rotated "k")) rfl
      rfl)
  refine ⟨_, run, _, List.mem_cons_of_mem _ List.mem_cons_self, _, List.mem_cons_self, rfl, rfl,
    ?_, ?_⟩
  · exact endedToken_refused run (List.mem_cons_of_mem _ List.mem_cons_self) rfl
  · exact endedToken_refused run List.mem_cons_self rfl

/-- A lookup between the invalidation and the commit of a revoke puts the grant
back into the cache, and one that starts after the commit is let in. -/
theorem endedToken_accepted :
    ∃ s, TokenRun (fun _ _ => True) 30 s ∧ ∃ l ∈ s.lookups,
      l.hash ∈ l.dead ∧ l.stage = .answered (.ok tokenGrant) := by
  have read : TokenRun (fun _ _ => True) 30
      ⟨tokenGrants, ⟨Table.empty, Table.empty, 1⟩, 0, [tokenLookup (.read 1 (some tokenGrant))],
        [⟨"g", .revoke 0, true⟩], [], ["h"]⟩ :=
    .step (.step (.step (.step (.step (.start 0)
      (.issue _ tokenGrant tokenGrants List.not_mem_nil rfl))
      (.write _ "g" (.revoke 0)))
      (.invalidate _ [] [] ⟨"g", .revoke 0, false⟩ rfl))
      (.miss _ "h" ⟨Table.empty, Table.empty, 1⟩ rfl))
      (.select _ [] [] (tokenLookup (.reading 1)) 1 rfl rfl trivial)
  have cached : TokenRun (fun _ _ => True) 30
      ⟨tokenGrants, tokenCached 1, 0, [tokenLookup (.answered (.ok tokenGrant))],
        [⟨"g", .revoke 0, true⟩], [], ["h"]⟩ :=
    .step read
      (.answer _ [] [] (tokenLookup (.read 1 (some tokenGrant))) 1 (some tokenGrant) rfl rfl)
  exact ⟨_, .step (.step cached (.commit _ [] [] ⟨"g", .revoke 0, true⟩ rfl rfl nofun))
    (.hit _ "h" (.ok tokenGrant) rfl), _, List.mem_cons_self, List.mem_singleton_self "h", rfl⟩

end Odatano
