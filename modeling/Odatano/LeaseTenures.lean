import Odatano.LeaseFences

/-!
# Writes in the order of tenures

A crawler or an import transaction commits in the tenure in which its fence passed, and
the transactions of one tenure all precede those of the next.
-/

namespace Odatano

open RowTransactions

section Statements

variable {Tables : Type} {owner : LeaseOwner} {row row' : SyncState} {own : Option SyncState}
  {fence : Fence}

/-- What a transaction leaves of the lease if it is no grant. -/
structure NoGrant (row row' : SyncState) : Prop where
  owner : row'.leaseOwner = row.leaseOwner ∨ row'.leaseOwner = none
  desired : row'.desiredRunning = true → row.desiredRunning = true

namespace NoGrant

theorem refl (row : SyncState) : NoGrant row row := ⟨.inl rfl, id⟩

theorem trans {row₁ row₂ row₃ : SyncState} (first : NoGrant row₁ row₂)
    (second : NoGrant row₂ row₃) : NoGrant row₁ row₃ where
  owner := by
    rcases second.owner with kept | released
    · rw [kept]
      exact first.owner
    · exact .inr released
  desired wanted := first.desired (second.desired wanted)

theorem of_eq (owner : row'.leaseOwner = row.leaseOwner)
    (desired : row'.desiredRunning = row.desiredRunning) : NoGrant row row' :=
  ⟨.inl owner, fun wanted => desired ▸ wanted⟩

/-- Only a grant names a new owner. -/
theorem named (noGrant : NoGrant row row') (names : row'.leaseOwner = some owner) :
    row.leaseOwner = some owner := by
  rcases noGrant.owner with kept | released
  · rw [← kept]
    exact names
  · rw [released] at names
    cases names

end NoGrant

/-- The lease columns a statement of a write keeps. -/
structure SameLease (row row' : SyncState) : Prop where
  owner : row'.leaseOwner = row.leaseOwner
  desired : row'.desiredRunning = row.desiredRunning

theorem SameLease.trans {row₁ row₂ row₃ : SyncState} (first : SameLease row₁ row₂)
    (second : SameLease row₂ row₃) : SameLease row₁ row₃ :=
  ⟨second.owner.trans first.owner, second.desired.trans first.desired⟩

theorem SameLease.noGrant (same : SameLease row row') : NoGrant row row' :=
  .of_eq same.owner same.desired

/-! ## Fences -/

/-- A fence that only the owner of the lease passes. -/
structure Fence.Guards (fence : Fence) (owner : LeaseOwner) : Prop where
  owned : ∀ row, fence.matched row = true → row.leaseOwner = some owner
  keeps : ∀ row, fence.matched row = true → SameLease row (fence.set row)
  held : ∀ row, fence.held row = true → fence.matched row = true
  stable : ∀ row row', NoGrant row row' → fence.matched row' = true → fence.matched row = true

/-- The read-back of a crawler sees its own name and no pause. -/
theorem leaseDeadlineReached_owned {expected : Time}
    (held : row.leaseDeadlineReached owner expected = true) :
    row.leaseOwner = some owner ∧ row.desiredRunning = true := by
  simp only [SyncState.leaseDeadlineReached, SyncState.importLeaseHeld, Bool.and_eq_true,
    decide_eq_true_eq] at held
  exact ⟨held.2.1, held.1⟩

theorem importLeaseHeld_owned {expected : Time}
    (held : row.importLeaseHeld owner expected = true) : row.leaseOwner = some owner := by
  simp only [SyncState.importLeaseHeld, Bool.and_eq_true, decide_eq_true_eq] at held
  exact held.1

/-- The guard by owner and intent. -/
theorem guards_of_crawlerGuard (guard : fence.matched = fun row =>
      decide (row.leaseOwner = some owner ∧ row.desiredRunning = true))
    (keeps : ∀ row, fence.matched row = true → SameLease row (fence.set row))
    (held : ∀ row, fence.held row = true →
      row.leaseOwner = some owner ∧ row.desiredRunning = true) :
    fence.Guards owner where
  owned row hit := by
    rw [guard] at hit
    exact (of_decide_eq_true hit).1
  keeps := keeps
  held row passed := by
    rw [guard]
    exact decide_eq_true (held row passed)
  stable row row' noGrant hit := by
    rw [guard] at hit ⊢
    have matched := of_decide_eq_true hit
    exact decide_eq_true ⟨noGrant.named matched.1, noGrant.desired matched.2⟩

theorem renewCrawlerFence_guards (owner : LeaseOwner) (now : Time) :
    (renewCrawlerFence owner now).Guards owner := by
  apply guards_of_crawlerGuard rfl
  · intro row hit
    have matched := of_decide_eq_true hit
    constructor <;> simp [renewCrawlerFence, SyncState.renewCrawlerLease, matched]
  · exact fun row held => leaseDeadlineReached_owned held

theorem advanceCursorFence_guards (owner : LeaseOwner) (block : ChainPoint)
    (tip : Option ChainPoint) (status : CrawlSyncStatus) (utxoAppliedSlot : Option Nat)
    (now : Time) :
    (advanceCursorFence owner block tip status utxoAppliedSlot now).Guards owner := by
  apply guards_of_crawlerGuard rfl
  · intro row hit
    have matched := of_decide_eq_true hit
    constructor <;>
      simp [advanceCursorFence, SyncState.advanceCursor, SyncState.cursorAt, matched]
  · exact fun row held => leaseDeadlineReached_owned held

theorem renewImportFence_guards (owner : LeaseOwner) (now : Time) :
    (renewImportFence owner now).Guards owner where
  owned row hit := of_decide_eq_true hit
  keeps row hit := by
    have matched : row.leaseOwner = some owner := of_decide_eq_true hit
    constructor <;> simp [renewImportFence, SyncState.renewImportLease, matched]
  held row passed := decide_eq_true (importLeaseHeld_owned passed)
  stable row row' noGrant hit := decide_eq_true (noGrant.named (of_decide_eq_true hit))

/-- Every transaction that writes contains a fence. -/
theorem WriteTx.fence_guards (tx : WriteTx Tables) (owner : LeaseOwner) :
    (tx.fence owner).Guards owner := by
  cases tx with
  | persistBlock indexBlockFull block tip status utxoAppliedSlot now =>
    exact advanceCursorFence_guards owner block tip status utxoAppliedSlot now
  | handleReorg now rollBack => exact renewCrawlerFence_guards owner now
  | writeTx now fn => exact renewImportFence_guards owner now
  | writeTxLeaseLast fn now => exact renewImportFence_guards owner now

/-- The row an acquisition leaves. -/
structure Granted (owner : LeaseOwner) (row row' : SyncState) : Prop where
  owner : row'.leaseOwner = some owner
  desired : row'.desiredRunning = row.desiredRunning
  cursor : row'.cursor = row.cursor

/-- A fence that takes the lease. -/
structure Fence.Takes (fence : Fence) (owner : LeaseOwner) : Prop where
  takes : ∀ row, fence.matched row = true → Granted owner row (fence.set row)
  held : ∀ row, fence.held row = true → row.leaseOwner = some owner

theorem takeCrawlerFence_takes (owner : LeaseOwner) (seen : SyncState) (now : Time) :
    (takeCrawlerFence owner seen now).Takes owner where
  takes row hit := by
    have matched : row.leaseOwner = seen.leaseOwner ∧
        row.desiredRunning = seen.desiredRunning := of_decide_eq_true hit
    constructor <;>
      simp [takeCrawlerFence, SyncState.takeCrawlerLease, SyncState.cursor, matched]
  held row passed := (leaseDeadlineReached_owned passed).1

theorem takeImportFence_takes (owner : LeaseOwner) (seen : SyncState) (now : Time) :
    (takeImportFence owner seen now).Takes owner where
  takes row hit := by
    have matched : row.leaseOwner = seen.leaseOwner := of_decide_eq_true hit
    constructor <;>
      simp [takeImportFence, SyncState.takeImportLease, SyncState.cursor, matched]
  held row passed := importLeaseHeld_owned passed

/-! ## Statements beside a fence -/

/-- A statement beside a fence keeps the lease columns. -/
theorem BodyStatement.sameLease {body : BodyStatement Tables} {matched : SyncState → Bool}
    {set : SyncState → SyncState} (update : body.statement = .update matched set)
    (row : SyncState) : SameLease row (set row) := by
  cases body with
  | tables write => cases update
  | setUtxoSetState change =>
    cases update
    exact ⟨rfl, rfl⟩
  | resetCursorTo slot hash height =>
    cases update
    exact ⟨rfl, rfl⟩

theorem BodyStatement.statement_ne_check (body : BodyStatement Tables)
    (passes : SyncState → Bool) : body.statement ≠ .check passes := by
  cases body <;> exact fun same => nomatch same

/-- A statement of a transaction that neither grants nor writes. -/
def KeepsLease : Statement SyncState Tables → Prop
  | .write _ => False
  | .update matched set =>
      ∀ row, matched row = true → NoGrant row (set row) ∧ (set row).cursor = row.cursor
  | .check _ => True

theorem Fence.statements_keepsLease (guards : fence.Guards owner)
    (cursor : ∀ row, (fence.set row).cursor = row.cursor) :
    ∀ statement ∈ (fence.statements : List (Statement SyncState Tables)),
      KeepsLease statement := by
  intro statement mem
  rcases List.mem_cons.mp mem with rfl | mem
  · exact fun row hit => ⟨(guards.keeps row hit).noGrant, cursor row⟩
  · rw [List.mem_singleton.mp mem]
    trivial

theorem renewCrawlerFence_cursor (owner : LeaseOwner) (now : Time) (row : SyncState) :
    ((renewCrawlerFence owner now).set row).cursor = row.cursor := by
  by_cases hit : row.leaseOwner = some owner ∧ row.desiredRunning = true <;>
    simp [renewCrawlerFence, SyncState.renewCrawlerLease, SyncState.cursor, hit]

theorem renewImportFence_cursor (owner : LeaseOwner) (now : Time) (row : SyncState) :
    ((renewImportFence owner now).set row).cursor = row.cursor := by
  by_cases hit : row.leaseOwner = some owner <;>
    simp [renewImportFence, SyncState.renewImportLease, SyncState.cursor, hit]

/-- An update of the row without a guard that names nobody. -/
private theorem keepsLease_singleton {matched : SyncState → Bool} {set : SyncState → SyncState}
    (keeps : ∀ row, matched row = true → NoGrant row (set row) ∧ (set row).cursor = row.cursor) :
    ∀ statement ∈ ([.update matched set] : List (Statement SyncState Tables)),
      KeepsLease statement := by
  intro statement mem
  rw [List.mem_singleton.mp mem]
  exact keeps

theorem RowTx.keepsLease (tx : RowTx) (owner : LeaseOwner) :
    ∀ statement ∈ (tx.program owner : List (Statement SyncState Tables)),
      KeepsLease statement := by
  have crawler (now : Time) : ∀ statement ∈
      ((renewCrawlerFence owner now).statements : List (Statement SyncState Tables)),
      KeepsLease statement :=
    Fence.statements_keepsLease (renewCrawlerFence_guards owner now)
      (renewCrawlerFence_cursor owner now)
  have importer (now : Time) : ∀ statement ∈
      ((renewImportFence owner now).statements : List (Statement SyncState Tables)),
      KeepsLease statement :=
    Fence.statements_keepsLease (renewImportFence_guards owner now)
      (renewImportFence_cursor owner now)
  cases tx with
  | renewCrawlerLease now => exact crawler now
  | renewImportLease now => exact importer now
  | releaseCrawlerLease status latch =>
    refine keepsLease_singleton fun row hit => ?_
    have matched : row.leaseOwner = some owner := of_decide_eq_true hit
    refine ⟨⟨.inr ?_, ?_⟩, ?_⟩ <;>
      simp [SyncState.releaseCrawlerLease, SyncState.cursor, matched]
  | releaseImportLease =>
    refine keepsLease_singleton fun row hit => ?_
    have matched : row.leaseOwner = some owner := of_decide_eq_true hit
    refine ⟨⟨.inr ?_, ?_⟩, ?_⟩ <;>
      simp [SyncState.releaseImportLease, SyncState.cursor, matched]
  | setSyncStatus now status =>
    refine List.forall_mem_append.mpr ⟨crawler now, keepsLease_singleton fun row _ => ?_⟩
    exact ⟨.of_eq rfl rfl, rfl⟩
  | recordError now =>
    refine List.forall_mem_append.mpr ⟨crawler now, keepsLease_singleton fun row _ => ?_⟩
    exact ⟨.of_eq rfl rfl, rfl⟩
  | markInvalid now error =>
    refine List.forall_mem_append.mpr ⟨importer now, keepsLease_singleton fun row _ => ?_⟩
    exact ⟨.of_eq rfl rfl, rfl⟩
  | setUtxoSetInvalid error =>
    exact keepsLease_singleton fun row _ => ⟨.of_eq rfl rfl, rfl⟩
  | latchPoisonBlock => exact keepsLease_singleton fun row _ => ⟨⟨.inl rfl, nofun⟩, rfl⟩
  | pauseCluster => exact keepsLease_singleton fun row _ => ⟨⟨.inl rfl, nofun⟩, rfl⟩

end Statements

/-! ## Open transactions -/

section Facts

variable {Tables : Type} {owner : LeaseOwner} {row row' : SyncState} {own : Option SyncState}
  {t : RowTransactions.Transaction SyncState Tables (LeaseTx Tables)}

/-- No fence is still ahead of the transaction. -/
def NoChecks (rest : List (Statement SyncState Tables)) : Prop :=
  ∀ passes, .check passes ∉ rest

/-- An open acquisition: until it commits the row does not name its owner. -/
structure Acquiring (fence : Fence) (owner : LeaseOwner) (row : SyncState)
    (own : Option SyncState) (rest : List (Statement SyncState Tables)) : Prop where
  notYet : row.leaseOwner ≠ some owner
  version : ∀ v ∈ own, Granted owner row v
  stage : (own = none ∧ rest = fence.statements) ∨ rest = [.check fence.held] ∨
    (own.isSome = true ∧ rest = [])

/-- How far a transaction with a fence has come. -/
inductive WriteStage (fence : Fence) (after : List (BodyStatement Tables)) (owner : LeaseOwner)
    (row : SyncState) (own : Option SyncState) (rest : List (Statement SyncState Tables)) : Prop
  | before (body : List (BodyStatement Tables))
      (rest_eq : rest = body.map BodyStatement.statement ++ fence.statements ++
        after.map BodyStatement.statement)
  /-- An update that missed leaves the lease lost. -/
  | checking (rest_eq : rest = .check fence.held :: after.map BodyStatement.statement)
      (missed : own = none → fence.matched row = false)
  | past (body : List (BodyStatement Tables)) (rest_eq : rest = body.map BodyStatement.statement)
      (locked : own.isSome = true) (named : row.leaseOwner = some owner)

structure Writing (fence : Fence) (after : List (BodyStatement Tables)) (owner : LeaseOwner)
    (row : SyncState) (own : Option SyncState) (rest : List (Statement SyncState Tables)) :
    Prop where
  version : ∀ v ∈ own, SameLease row v
  stage : WriteStage fence after owner row own rest

structure Bookkeeping (row : SyncState) (own : Option SyncState)
    (rest : List (Statement SyncState Tables)) : Prop where
  version : ∀ v ∈ own, NoGrant row v ∧ v.cursor = row.cursor
  keeps : ∀ statement ∈ rest, KeepsLease statement

/-- What holds of an open transaction between any two statements. -/
def TxFact (row : SyncState) (own : Option SyncState)
    (t : RowTransactions.Transaction SyncState Tables (LeaseTx Tables)) : Prop :=
  match t.label.kind with
  | .acquireCrawler seen now =>
      Acquiring (takeCrawlerFence t.label.owner seen now) t.label.owner row own t.rest ∧
        t.writes = id
  | .acquireImport seen now =>
      Acquiring (takeImportFence t.label.owner seen now) t.label.owner row own t.rest ∧
        t.writes = id
  | .write tx => Writing (tx.fence t.label.owner) tx.after t.label.owner row own t.rest
  | .row _ => Bookkeeping row own t.rest ∧ t.writes = id

/-! ### One statement -/

variable {fence : Fence} {after : List (BodyStatement Tables)}
  {rest rest' : List (Statement SyncState Tables)}

namespace Acquiring

theorem write {set : Tables → Tables} (fact : Acquiring fence owner row own rest)
    (next : rest = .write set :: rest') : False := by
  rcases fact.stage with ⟨-, whole⟩ | checking | ⟨-, done⟩
  · exact nomatch whole.symm.trans next
  · exact nomatch checking.symm.trans next
  · exact nomatch done.symm.trans next

theorem update {matched : SyncState → Bool} {set : SyncState → SyncState}
    (fact : Acquiring fence owner row own rest) (next : rest = .update matched set :: rest') :
    own = none ∧ matched = fence.matched ∧ set = fence.set ∧ rest' = [.check fence.held] := by
  rcases fact.stage with ⟨fresh, whole⟩ | checking | ⟨-, done⟩
  · cases whole.symm.trans next
    exact ⟨fresh, rfl, rfl, rfl⟩
  · exact nomatch checking.symm.trans next
  · exact nomatch done.symm.trans next

theorem check {passes : SyncState → Bool} (fact : Acquiring fence owner row own rest)
    (next : rest = .check passes :: rest') : passes = fence.held ∧ rest' = [] := by
  rcases fact.stage with ⟨-, whole⟩ | checking | ⟨-, done⟩
  · exact nomatch whole.symm.trans next
  · cases checking.symm.trans next
    exact ⟨rfl, rfl⟩
  · exact nomatch done.symm.trans next

end Acquiring

/-- A fact about an acquisition is kept by each of its statements. -/
theorem kept_of_acquiring (takes : fence.Takes owner)
    (is : ∀ (row : SyncState) (own : Option SyncState)
        (u : RowTransactions.Transaction SyncState Tables (LeaseTx Tables)),
      u.label = t.label →
        (TxFact row own u ↔ Acquiring fence owner row own u.rest ∧ u.writes = id))
    (fact : TxFact row own t) : Store.Kept TxFact t row own := by
  obtain ⟨acquiring, writes⟩ := (is row own t rfl).mp fact
  constructor
  · exact fun set rest next => (acquiring.write next).elim
  · intro matched set rest next hits
    obtain ⟨rfl, rfl, rfl, rfl⟩ := acquiring.update next
    refine Iff.mpr (is _ _ _ ?_) ⟨⟨acquiring.notYet, ?_, .inr (.inl rfl)⟩, writes⟩
    · rfl
    · intro v versionIs
      cases versionIs
      exact takes.takes row hits
  · intro matched set rest next misses
    obtain ⟨rfl, rfl, rfl, rfl⟩ := acquiring.update next
    refine Iff.mpr (is _ _ _ ?_)
      ⟨⟨acquiring.notYet, acquiring.version, .inr (.inl rfl)⟩, writes⟩
    rfl
  · intro passes rest next passed
    obtain ⟨rfl, rfl⟩ := acquiring.check next
    refine Iff.mpr (is _ _ _ ?_)
      ⟨⟨acquiring.notYet, acquiring.version, .inr (.inr ⟨?_, rfl⟩)⟩, writes⟩
    · rfl
    -- an update that missed cannot be read back
    · cases own with
      | none => exact absurd (takes.held row passed) acquiring.notYet
      | some v => rfl

namespace Writing

/-- The row a write sees names the owner the committed row names. -/
theorem view (fact : Writing fence after owner row own rest) :
    SameLease row (own.getD row) := by
  cases own with
  | none => exact ⟨rfl, rfl⟩
  | some v => exact fact.version v rfl

theorem write {set : Tables → Tables} (fact : Writing fence after owner row own rest)
    (next : rest = .write set :: rest') : Writing fence after owner row own rest' := by
  refine ⟨fact.version, ?_⟩
  cases fact.stage with
  | before body rest_eq =>
    cases body with
    | nil => exact nomatch rest_eq.symm.trans next
    | cons statement body => exact .before body (List.cons.inj (next.symm.trans rest_eq)).2
  | checking rest_eq missed => exact nomatch rest_eq.symm.trans next
  | past body rest_eq locked named =>
    cases body with
    | nil => exact nomatch rest_eq.symm.trans next
    | cons statement body =>
      exact .past body (List.cons.inj (next.symm.trans rest_eq)).2 locked named

theorem hit {matched : SyncState → Bool} {set : SyncState → SyncState}
    (guards : fence.Guards owner) (fact : Writing fence after owner row own rest)
    (next : rest = .update matched set :: rest') (hits : matched (own.getD row) = true) :
    Writing fence after owner row (some (set (own.getD row))) rest' := by
  have ofBody {statement : BodyStatement Tables}
      (same : statement.statement = .update matched set) :
      ∀ v ∈ some (set (own.getD row)), SameLease row v := by
    intro v versionIs
    cases versionIs
    exact fact.view.trans (statement.sameLease same _)
  cases fact.stage with
  | before body rest_eq =>
    cases body with
    | nil =>
      cases rest_eq.symm.trans next
      refine ⟨fun v versionIs => ?_, .checking rfl nofun⟩
      cases versionIs
      exact fact.view.trans (guards.keeps _ hits)
    | cons statement body =>
      obtain ⟨same, rest_eq⟩ := List.cons.inj (next.symm.trans rest_eq)
      exact ⟨ofBody same.symm, .before body rest_eq⟩
  | checking rest_eq missed => exact nomatch rest_eq.symm.trans next
  | past body rest_eq locked named =>
    cases body with
    | nil => exact nomatch rest_eq.symm.trans next
    | cons statement body =>
      obtain ⟨same, rest_eq⟩ := List.cons.inj (next.symm.trans rest_eq)
      exact ⟨ofBody same.symm, .past body rest_eq rfl named⟩

theorem miss {matched : SyncState → Bool} {set : SyncState → SyncState}
    (fact : Writing fence after owner row own rest)
    (next : rest = .update matched set :: rest') (misses : matched (own.getD row) = false) :
    Writing fence after owner row own rest' := by
  refine ⟨fact.version, ?_⟩
  cases fact.stage with
  | before body rest_eq =>
    cases body with
    | nil =>
      cases rest_eq.symm.trans next
      refine .checking rfl fun fresh => ?_
      rw [fresh] at misses
      exact misses
    | cons statement body => exact .before body (List.cons.inj (next.symm.trans rest_eq)).2
  | checking rest_eq missed => exact nomatch rest_eq.symm.trans next
  | past body rest_eq locked named =>
    cases body with
    | nil => exact nomatch rest_eq.symm.trans next
    | cons statement body =>
      exact .past body (List.cons.inj (next.symm.trans rest_eq)).2 locked named

/-- A read-back passes only on a row the transaction has locked under its own name. -/
theorem pass {passes : SyncState → Bool} (guards : fence.Guards owner)
    (fact : Writing fence after owner row own rest)
    (next : rest = .check passes :: rest') (passed : passes (own.getD row) = true) :
    Writing fence after owner row own rest' := by
  refine ⟨fact.version, ?_⟩
  cases fact.stage with
  | before body rest_eq =>
    cases body with
    | nil => exact nomatch rest_eq.symm.trans next
    | cons statement body =>
      have same := (List.cons.inj (next.symm.trans rest_eq)).1
      exact absurd same.symm (statement.statement_ne_check passes)
  | checking rest_eq missed =>
    cases rest_eq.symm.trans next
    have matched := guards.held _ passed
    refine .past after rfl ?_ (fact.view.owner.symm.trans (guards.owned _ matched))
    cases own with
    | none =>
      have lost := missed rfl
      rw [Option.getD_none] at matched
      rw [matched] at lost
      cases lost
    | some v => rfl
  | past body rest_eq locked named =>
    cases body with
    | nil => exact nomatch rest_eq.symm.trans next
    | cons statement body =>
      have same := (List.cons.inj (next.symm.trans rest_eq)).1
      exact absurd same.symm (statement.statement_ne_check passes)

/-- Past its fence a transaction locks the row, and the row names its owner. -/
theorem past (fact : Writing fence after owner row own rest) (noChecks : NoChecks rest) :
    own.isSome = true ∧ row.leaseOwner = some owner := by
  cases fact.stage with
  | before body rest_eq =>
    refine absurd ?_ (noChecks fence.held)
    rw [rest_eq, Fence.statements]
    simp
  | checking rest_eq missed =>
    refine absurd ?_ (noChecks fence.held)
    rw [rest_eq]
    exact List.mem_cons_self
  | past body rest_eq locked named => exact ⟨locked, named⟩

/-- What other transactions commit meanwhile. -/
theorem rely (guards : fence.Guards owner) (fact : Writing fence after owner row none rest)
    (others : NoGrant row row' ∨ row'.leaseOwner ≠ some owner) :
    Writing fence after owner row' none rest := by
  refine ⟨fun v mem => absurd mem (Option.not_mem_none v), ?_⟩
  cases fact.stage with
  | before body rest_eq => exact .before body rest_eq
  | checking rest_eq missed =>
    refine .checking rest_eq fun _ => ?_
    rw [Bool.eq_false_iff]
    intro matched
    rcases others with noGrant | taken
    · have before := guards.stable row row' noGrant matched
      rw [missed rfl] at before
      cases before
    · exact taken (guards.owned row' matched)
  | past body rest_eq locked named => cases locked

end Writing

/-- Every statement keeps the facts about its own transaction. -/
theorem TxFact.kept (fact : TxFact row own t) : Store.Kept TxFact t row own := by
  obtain ⟨⟨owner, kind⟩, rest, writes⟩ := t
  cases kind with
  | acquireCrawler seen now =>
    refine kept_of_acquiring (takeCrawlerFence_takes owner seen now) ?_ fact
    rintro row own ⟨label, rest, writes⟩ rfl
    exact Iff.rfl
  | acquireImport seen now =>
    refine kept_of_acquiring (takeImportFence_takes owner seen now) ?_ fact
    rintro row own ⟨label, rest, writes⟩ rfl
    exact Iff.rfl
  | write tx =>
    have writing : Writing (tx.fence owner) tx.after owner row own rest := fact
    have guards := tx.fence_guards owner
    exact
      { write := fun set rest next => writing.write next
        hit := fun matched set rest next hits => writing.hit guards next hits
        miss := fun matched set rest next misses => writing.miss next misses
        pass := fun passes rest next passed => writing.pass guards next passed }
  | row tx =>
    obtain ⟨bookkeeping, noWrites⟩ :
      Bookkeeping row own rest ∧ writes = id := fact
    have tail {statement : Statement SyncState Tables}
        {rest' : List (Statement SyncState Tables)} (next : rest = statement :: rest') :
        ∀ statement ∈ rest', KeepsLease statement := fun other mem =>
      bookkeeping.keeps other (next ▸ List.mem_cons_of_mem _ mem)
    have head {statement : Statement SyncState Tables}
        {rest' : List (Statement SyncState Tables)} (next : rest = statement :: rest') :
        KeepsLease statement := bookkeeping.keeps statement (next ▸ List.mem_cons_self)
    constructor
    · exact fun set rest' next => (head next).elim
    · intro matched set rest' next hits
      refine ⟨⟨fun v versionIs => ?_, tail next⟩, noWrites⟩
      cases versionIs
      obtain ⟨noGrant, cursor⟩ := head next _ hits
      cases own with
      | none => exact ⟨noGrant, cursor⟩
      | some v =>
        obtain ⟨before, beforeCursor⟩ := bookkeeping.version v rfl
        exact ⟨before.trans noGrant, cursor.trans beforeCursor⟩
    · exact fun matched set rest' next misses =>
        ⟨⟨bookkeeping.version, tail next⟩, noWrites⟩
    · exact fun passes rest' next passed => ⟨⟨bookkeeping.version, tail next⟩, noWrites⟩

/-- What the others commit keeps the facts about a transaction without the lock: they
grant nothing, or they grant the lease to another owner. -/
theorem TxFact.rely (fact : TxFact row none t)
    (others : NoGrant row row' ∨ row'.leaseOwner ≠ some t.label.owner) :
    TxFact row' none t := by
  obtain ⟨⟨owner, kind⟩, rest, writes⟩ := t
  have acquiring {fence : Fence} (before : Acquiring fence owner row none rest) :
      Acquiring fence owner row' none rest := by
    refine ⟨?_, fun v mem => absurd mem (Option.not_mem_none v), before.stage⟩
    rcases others with noGrant | taken
    · exact fun named => before.notYet (noGrant.named named)
    · exact taken
  cases kind with
  | acquireCrawler seen now => exact ⟨acquiring fact.1, fact.2⟩
  | acquireImport seen now => exact ⟨acquiring fact.1, fact.2⟩
  | write tx =>
    have writing : Writing (tx.fence owner) tx.after owner row none rest := fact
    exact writing.rely (tx.fence_guards owner) others
  | row tx =>
    exact ⟨⟨fun v mem => absurd mem (Option.not_mem_none v), fact.1.keeps⟩, fact.2⟩

end Facts

/-! ## Runs -/

section Runs

variable {Tables : Type} {s : LeaseRun Tables}
  {t : RowTransactions.Transaction SyncState Tables (LeaseTx Tables)} {row : SyncState}
  {own : Option SyncState}

/-- An identifier is granted the lease once, and only an owner that was granted it
writes. -/
structure LeaseRun.Named (s : LeaseRun Tables) : Prop where
  once : s.tenures.Nodup
  known : ∀ owner ∈ s.tenures, owner ∈ s.started
  acquiring : ∀ i t, s.store.opened i = some t → t.label.Acquires →
    t.label.owner ∈ s.started ∧ t.label.owner ∉ s.tenures
  alone : ∀ i j t u, s.store.opened i = some t → s.store.opened j = some u →
    t.label.Acquires → u.label.Acquires → t.label.owner = u.label.owner → i = j
  granted : ∀ i t tx, s.store.opened i = some t → t.label.kind = .write tx →
    t.label.owner ∈ s.tenures

/-- What every run keeps. -/
structure LeaseRun.Fenced (origin : SyncState) (tables : Tables) (s : LeaseRun Tables) :
    Prop where
  named : s.Named
  each : s.store.Each TxFact
  locked : s.store.LockedOpen
  holder : ∀ owner, s.store.row.leaseOwner = some owner → s.tenures.getLast? = some owner
  /-- A transaction past its fence is in the tenure in which it passed. -/
  checked : ∀ i t tx, s.store.opened i = some t → t.label.kind = .write tx →
    NoChecks t.rest → s.checkedIn i = s.currentTenure
  logged : ∀ e ∈ s.log, ∃ k, e.checkedIn = some (k, e.owner) ∧
    e.committedIn = some (k, e.owner) ∧ s.tenures[k]? = some e.owner
  ordered : s.log.Pairwise fun earlier later =>
    ∀ k ∈ earlier.committedIn, ∀ l ∈ later.committedIn, k.1 ≤ l.1
  tables_eq : s.store.tables = s.log.foldl (fun before e => e.writes before) tables
  cursor_eq : s.store.row.cursor =
    ((s.log.getLast?).map CommittedTx.cursor).getD origin.cursor

namespace LeaseRun

/-! ### Identifiers -/

theorem Named.within {s' : LeaseRun Tables} (named : s.Named)
    (within : s'.store.Within s.store) (tenures : s'.tenures = s.tenures)
    (started : s'.started = s.started) : s'.Named where
  once := tenures ▸ named.once
  known := by
    rw [tenures, started]
    exact named.known
  acquiring i u opened acquires := by
    obtain ⟨v, before, label⟩ := within i u opened
    rw [tenures, started, ← label]
    exact named.acquiring i v before (label ▸ acquires)
  alone i j u₁ u₂ opened₁ opened₂ acquires₁ acquires₂ same := by
    obtain ⟨v₁, before₁, label₁⟩ := within i u₁ opened₁
    obtain ⟨v₂, before₂, label₂⟩ := within j u₂ opened₂
    exact named.alone i j v₁ v₂ before₁ before₂ (label₁ ▸ acquires₁) (label₂ ▸ acquires₂)
      (by rw [label₁, label₂, same])
  granted i u tx opened writes := by
    obtain ⟨v, before, label⟩ := within i u opened
    rw [tenures, ← label]
    exact named.granted i v tx before (label ▸ writes)

/-- A transaction begins. -/
theorem Named.begin {s' : LeaseRun Tables} {i : Nat} (named : s.Named)
    (store : s'.store = s.store.proceed i t) (tenures : s'.tenures = s.tenures)
    (started : ∀ owner ∈ s.started, owner ∈ s'.started)
    (acquires : t.label.Acquires → t.label.owner ∈ s'.started ∧ t.label.owner ∉ s.started)
    (granted : ∀ tx, t.label.kind = .write tx → t.label.owner ∈ s.tenures) : s'.Named := by
  have cases (j : Nat) (u : RowTransactions.Transaction SyncState Tables (LeaseTx Tables))
      (opened : s'.store.opened j = some u) :
      (j = i ∧ u = t) ∨ (j ≠ i ∧ s.store.opened j = some u) := by
    rw [store] at opened
    by_cases same : j = i
    · subst same
      rw [Store.opened_proceed_self] at opened
      cases opened
      exact .inl ⟨rfl, rfl⟩
    · rw [Store.opened_proceed_of_ne same] at opened
      exact .inr ⟨same, opened⟩
  constructor
  · exact tenures ▸ named.once
  · intro owner mem
    rw [tenures] at mem
    exact started owner (named.known owner mem)
  · intro j u opened isAcquire
    rw [tenures]
    rcases cases j u opened with ⟨-, rfl⟩ | ⟨-, before⟩
    · exact ⟨(acquires isAcquire).1, fun mem => (acquires isAcquire).2 (named.known _ mem)⟩
    · obtain ⟨known, notYet⟩ := named.acquiring j u before isAcquire
      exact ⟨started _ known, notYet⟩
  · intro j k u₁ u₂ opened₁ opened₂ acquires₁ acquires₂ same
    rcases cases j u₁ opened₁ with ⟨rfl, rfl⟩ | ⟨-, before₁⟩ <;>
      rcases cases k u₂ opened₂ with ⟨rfl, rfl⟩ | ⟨-, before₂⟩
    · rfl
    · exact absurd (same ▸ (named.acquiring k u₂ before₂ acquires₂).1) (acquires acquires₁).2
    · exact absurd (same ▸ (named.acquiring j u₁ before₁ acquires₁).1) (acquires acquires₂).2
    · exact named.alone j k u₁ u₂ before₁ before₂ acquires₁ acquires₂ same
  · intro j u tx opened writes
    rw [tenures]
    rcases cases j u opened with ⟨-, rfl⟩ | ⟨-, before⟩
    · exact granted tx writes
    · exact named.granted j u tx before writes

/-- A grant ends the acquisition it belongs to. -/
theorem Named.grant {s' : LeaseRun Tables} {i : Nat} (named : s.Named)
    (opened : s.store.opened i = some t) (acquires : t.label.Acquires)
    (store : s'.store = s.store.commit i t)
    (tenures : s'.tenures = s.tenures ++ [t.label.owner]) (started : s'.started = s.started) :
    s'.Named := by
  obtain ⟨known, notYet⟩ := named.acquiring i t opened acquires
  have cases (j : Nat) (u : RowTransactions.Transaction SyncState Tables (LeaseTx Tables))
      (after : s'.store.opened j = some u) : j ≠ i ∧ s.store.opened j = some u := by
    rw [store, Store.opened_commit] at after
    by_cases same : j = i
    · subst same
      rw [Store.opened_close_self] at after
      cases after
    · rw [Store.opened_close_of_ne same] at after
      exact ⟨same, after⟩
  constructor
  · rw [tenures, List.nodup_append]
    refine ⟨named.once, List.nodup_singleton _, ?_⟩
    intro owner mem other otherMem same
    rw [List.mem_singleton.mp otherMem] at same
    exact notYet (same ▸ mem)
  · intro owner mem
    rw [tenures] at mem
    rw [started]
    rcases List.mem_append.mp mem with before | new
    · exact named.known owner before
    · exact List.mem_singleton.mp new ▸ known
  · intro j u after isAcquire
    obtain ⟨other, before⟩ := cases j u after
    obtain ⟨otherKnown, otherNotYet⟩ := named.acquiring j u before isAcquire
    rw [tenures, started]
    refine ⟨otherKnown, fun mem => ?_⟩
    rcases List.mem_append.mp mem with granted | new
    · exact otherNotYet granted
    · exact other (named.alone j i u t before opened isAcquire acquires (List.mem_singleton.mp new))
  · intro j k u₁ u₂ after₁ after₂ acquires₁ acquires₂ same
    exact named.alone j k u₁ u₂ (cases j u₁ after₁).2 (cases k u₂ after₂).2 acquires₁ acquires₂
      same
  · intro j u tx after writes
    rw [tenures]
    exact List.mem_append_left _ (named.granted j u tx (cases j u after).2 writes)

/-! ### Commits -/

/-- A finished acquisition has taken the lease. -/
theorem granted_of_finished (fact : TxFact row own t) (acquires : t.label.Acquires)
    (finished : t.rest = []) :
    (∃ v, own = some v ∧ Granted t.label.owner row v) ∧ t.writes = id := by
  obtain ⟨⟨owner, kind⟩, rest, writes⟩ := t
  have taken {fence : Fence} (acquiring : Acquiring fence owner row own rest) :
      ∃ v, own = some v ∧ Granted owner row v := by
    rcases acquiring.stage with ⟨-, whole⟩ | checking | ⟨locked, -⟩
    · exact nomatch whole.symm.trans finished
    · exact nomatch checking.symm.trans finished
    · obtain ⟨v, ownIs⟩ := Option.isSome_iff_exists.mp locked
      exact ⟨v, ownIs, acquiring.version v ownIs⟩
  cases kind with
  | acquireCrawler seen now => exact ⟨taken fact.1, fact.2⟩
  | acquireImport seen now => exact ⟨taken fact.1, fact.2⟩
  | write tx => exact acquires.elim
  | row tx => exact acquires.elim

theorem writing_of_fact {tx : WriteTx Tables} (fact : TxFact row own t)
    (writes : t.label.kind = .write tx) :
    Writing (tx.fence t.label.owner) tx.after t.label.owner row own t.rest := by
  obtain ⟨⟨owner, kind⟩, rest, writes'⟩ := t
  cases writes
  exact fact

theorem bookkeeping_of_fact {tx : RowTx} (fact : TxFact row own t)
    (isRow : t.label.kind = .row tx) : Bookkeeping row own t.rest ∧ t.writes = id := by
  obtain ⟨⟨owner, kind⟩, rest, writes'⟩ := t
  cases isRow
  exact fact

/-! ### Steps -/

variable {origin : SyncState} {tables : Tables} {s' : LeaseRun Tables} {i : Nat}

theorem fenced_start (network : String) (start : Option ChainPoint) (tables : Tables) :
    (LeaseRun.start network start tables).Fenced (SyncState.initial network start) tables where
  named :=
    { once := List.nodup_nil
      known := fun _ mem => absurd mem List.not_mem_nil
      acquiring := fun _ _ opened => nomatch opened
      alone := fun _ _ _ _ opened => nomatch opened
      granted := fun _ _ _ opened => nomatch opened }
  each := fun _ _ opened => nomatch opened
  locked := fun _ _ => rfl
  holder := fun _ named => nomatch named
  checked := fun _ _ _ opened => nomatch opened
  logged := fun _ mem => absurd mem List.not_mem_nil
  ordered := List.Pairwise.nil
  tables_eq := rfl
  cursor_eq := rfl

/-- A transaction begins with its fence ahead. -/
theorem Fenced.begin (fenced : s.Fenced origin tables) (named : s'.Named)
    (store : s'.store = s.store.proceed i t) (fact : TxFact s.store.row (s.store.own i) t)
    (fenceAhead : ∀ tx, t.label.kind = .write tx → ¬NoChecks t.rest)
    (tenures : s'.tenures = s.tenures) (checkedIn : s'.checkedIn = s.checkedIn)
    (log : s'.log = s.log) : s'.Fenced origin tables where
  named := named
  each := store ▸ fenced.each.proceed fact
  locked := store ▸ fenced.locked.proceed
  holder := by
    rw [store, tenures]
    exact fenced.holder
  checked j u tx opened writes past := by
    rw [checkedIn, LeaseRun.currentTenure, store, tenures]
    rw [store] at opened
    by_cases same : j = i
    · subst same
      rw [Store.opened_proceed_self] at opened
      cases opened
      exact absurd past (fenceAhead tx writes)
    · rw [Store.opened_proceed_of_ne same] at opened
      exact fenced.checked j u tx opened writes past
  logged := by
    rw [log, tenures]
    exact fenced.logged
  ordered := log ▸ fenced.ordered
  tables_eq := by
    rw [log, store]
    exact fenced.tables_eq
  cursor_eq := by
    rw [log, store]
    exact fenced.cursor_eq

theorem Fenced.statement {store : Store SyncState Tables (LeaseTx Tables)}
    (fenced : s.Fenced origin tables) (opened : s.store.opened i = some t)
    (runs : s.store.Runs i t store) :
    ({ s with store, checkedIn := s.noteCheck i t.rest } : LeaseRun Tables).Fenced origin
      tables where
  named := fenced.named.within (runs.within opened) rfl rfl
  each := fenced.each.runs (fenced.each i t opened).kept runs
  locked := fenced.locked.runs runs
  holder := by
    change ∀ owner, store.row.leaseOwner = some owner → _
    rw [runs.row_eq]
    exact fenced.holder
  checked j u tx openedAfter writes past := by
    obtain ⟨statement, t', next, label, after⟩ := runs.next
    have sameTenure :
        ({ s with store, checkedIn := s.noteCheck i t.rest } : LeaseRun Tables).currentTenure =
          s.currentTenure := by
      rw [LeaseRun.currentTenure, LeaseRun.currentTenure, runs.row_eq]
    rw [sameTenure]
    change store.opened j = some u at openedAfter
    rw [after] at openedAfter
    change s.noteCheck i t.rest j = s.currentTenure
    by_cases same : j = i
    · subst same
      rw [Function.update_self] at openedAfter
      cases openedAfter
      rw [label] at writes
      have unread (noCheck : ∀ passes, statement ≠ .check passes) :
          s.checkedIn j = s.currentTenure := by
        refine fenced.checked j t tx opened writes ?_
        intro passes mem
        rw [next] at mem
        rcases List.mem_cons.mp mem with isHead | inTail
        · exact noCheck passes isHead.symm
        · exact past passes inTail
      rw [next]
      cases statement with
      | write set => exact unread nofun
      | update matched set => exact unread nofun
      | check passes => exact Function.update_self ..
    · rw [Function.update_of_ne same] at openedAfter
      have kept : s.noteCheck i t.rest j = s.checkedIn j := by
        rw [next]
        cases statement with
        | write set => rfl
        | update matched set => rfl
        | check passes => exact Function.update_of_ne same ..
      rw [kept]
      exact fenced.checked j u tx openedAfter writes past
  logged := fenced.logged
  ordered := fenced.ordered
  tables_eq := by
    change store.tables = _
    rw [runs.tables_eq]
    exact fenced.tables_eq
  cursor_eq := by
    change store.row.cursor = _
    rw [runs.row_eq]
    exact fenced.cursor_eq

theorem Fenced.rollBack (fenced : s.Fenced origin tables) :
    ({ s with store := s.store.close i } : LeaseRun Tables).Fenced origin tables where
  named := fenced.named.within Store.within_close rfl rfl
  each := fenced.each.close
  locked := fenced.locked.close
  holder := fenced.holder
  checked j u tx opened writes past := by
    by_cases same : j = i
    · subst same
      exact absurd (Store.opened_close_self.symm.trans opened) nofun
    · exact fenced.checked j u tx ((Store.opened_close_of_ne same).symm.trans opened) writes past
  logged := fenced.logged
  ordered := fenced.ordered
  tables_eq := fenced.tables_eq
  cursor_eq := fenced.cursor_eq

/-- A transaction past its fence holds the lock, so that no other commits the row. -/
theorem Fenced.past_alone {j : Nat}
    {u : RowTransactions.Transaction SyncState Tables (LeaseTx Tables)} {tx : WriteTx Tables}
    (fenced : s.Fenced origin tables) (opened : s.store.opened j = some u)
    (writes : u.label.kind = .write tx) (past : NoChecks u.rest) (other : j ≠ i) :
    s.store.own i = none := by
  have locked := ((writing_of_fact (fenced.each j u opened) writes).past past).1
  obtain ⟨v, mine⟩ := Option.isSome_iff_exists.mp locked
  exact Store.free_of_own mine i (Ne.symm other)

/-- The fences of the others after a commit that leaves the tenure to them. -/
theorem Fenced.checked_commit (fenced : s.Fenced origin tables)
    (store : s'.store = s.store.commit i t) (checkedIn : s'.checkedIn = s.checkedIn)
    (tenures : s.store.own i = none → s'.tenures = s.tenures) :
    ∀ j u tx, s'.store.opened j = some u → u.label.kind = .write tx → NoChecks u.rest →
      s'.checkedIn j = s'.currentTenure := by
  intro j u tx opened writes past
  rw [store, Store.opened_commit] at opened
  by_cases same : j = i
  · subst same
    rw [Store.opened_close_self] at opened
    cases opened
  · rw [Store.opened_close_of_ne same] at opened
    have notMine := fenced.past_alone opened writes past same
    rw [checkedIn, LeaseRun.currentTenure, tenures notMine, store]
    change _ = ((s.store.view i).leaseOwner).map _
    rw [Store.view_of_own_none notMine]
    exact fenced.checked j u tx opened writes past

theorem Fenced.grant (fenced : s.Fenced origin tables) (opened : s.store.opened i = some t)
    (acquires : t.label.Acquires) (finished : t.rest = []) :
    ({ s with store := s.store.commit i t, tenures := s.tenures ++ [t.label.owner] } :
      LeaseRun Tables).Fenced origin tables := by
  obtain ⟨⟨v, mine, granted⟩, noWrites⟩ :=
    granted_of_finished (fenced.each i t opened) acquires finished
  have view := Store.view_of_own mine
  obtain ⟨-, notYet⟩ := fenced.named.acquiring i t opened acquires
  refine
    { named := fenced.named.grant opened acquires rfl rfl rfl
      each := ?_
      locked := fenced.locked.commit
      holder := ?_
      checked := ?_
      logged := ?_
      ordered := fenced.ordered
      tables_eq := ?_
      cursor_eq := ?_ }
  · refine fenced.each.commit fun j u other openedOther _ fact => ?_
    rw [view]
    cases kind : u.label.kind with
    | row tx =>
      obtain ⟨bookkeeping, writes⟩ := bookkeeping_of_fact fact kind
      obtain ⟨⟨owner, otherKind⟩, rest, otherWrites⟩ := u
      cases kind
      exact ⟨⟨fun v mem => absurd mem (Option.not_mem_none v), bookkeeping.keeps⟩, writes⟩
    | write tx =>
      refine fact.rely (.inr fun named => ?_)
      have same : t.label.owner = u.label.owner :=
        Option.some.inj (granted.owner.symm.trans named)
      exact notYet (same ▸ fenced.named.granted j u tx openedOther kind)
    | acquireCrawler seen now =>
      refine fact.rely (.inr fun named => other ?_)
      have same : t.label.owner = u.label.owner :=
        Option.some.inj (granted.owner.symm.trans named)
      refine fenced.named.alone j i u t openedOther opened ?_ acquires same.symm
      rw [LeaseTx.Acquires, kind]
      trivial
    | acquireImport seen now =>
      refine fact.rely (.inr fun named => other ?_)
      have same : t.label.owner = u.label.owner :=
        Option.some.inj (granted.owner.symm.trans named)
      refine fenced.named.alone j i u t openedOther opened ?_ acquires same.symm
      rw [LeaseTx.Acquires, kind]
      trivial
  · intro owner named
    change (s.store.view i).leaseOwner = some owner at named
    rw [view, granted.owner] at named
    rw [List.getLast?_concat]
    exact named
  · refine fenced.checked_commit rfl rfl fun notMine => ?_
    rw [mine] at notMine
    cases notMine
  · intro e mem
    obtain ⟨k, checked, committed, owner⟩ := fenced.logged e mem
    refine ⟨k, checked, committed, ?_⟩
    rw [List.getElem?_append_left (List.getElem?_eq_some_iff.mp owner).1]
    exact owner
  · change t.writes s.store.tables = _
    rw [noWrites]
    exact fenced.tables_eq
  · change (s.store.view i).cursor = _
    rw [view, granted.cursor]
    exact fenced.cursor_eq

theorem Fenced.commitWrite {tx : WriteTx Tables} (fenced : s.Fenced origin tables)
    (opened : s.store.opened i = some t) (writes : t.label.kind = .write tx)
    (finished : t.rest = []) :
    ({ s with
      store := s.store.commit i t
      log := s.log ++
        [⟨t.label.owner, t.writes, (s.store.view i).cursor, s.checkedIn i,
          s.currentTenure⟩] } : LeaseRun Tables).Fenced origin tables := by
  have writing := writing_of_fact (fenced.each i t opened) writes
  have noChecks : NoChecks t.rest := by
    intro passes mem
    rw [finished] at mem
    exact absurd mem List.not_mem_nil
  obtain ⟨locked, named⟩ := writing.past noChecks
  have same : SameLease s.store.row (s.store.view i) := writing.view
  have checked := fenced.checked i t tx opened writes noChecks
  have last := fenced.holder _ named
  have tenureIs : s.currentTenure = some (s.tenures.length - 1, t.label.owner) := by
    rw [LeaseRun.currentTenure, named]
    rfl
  refine
    { named := fenced.named.within Store.within_commit rfl rfl
      each := ?_
      locked := fenced.locked.commit
      holder := ?_
      checked := fenced.checked_commit rfl rfl fun _ => rfl
      logged := ?_
      ordered := ?_
      tables_eq := ?_
      cursor_eq := ?_ }
  · exact fenced.each.commit fun j u other openedOther _ fact =>
      fact.rely (.inl same.noGrant)
  · intro owner names
    change (s.store.view i).leaseOwner = some owner at names
    rw [same.owner] at names
    exact fenced.holder owner names
  · refine List.forall_mem_append.mpr ⟨fenced.logged, fun e mem => ?_⟩
    rw [List.mem_singleton.mp mem]
    refine ⟨s.tenures.length - 1, checked.trans tenureIs, tenureIs, ?_⟩
    rw [← List.getLast?_eq_getElem?]
    exact last
  · refine List.pairwise_append.mpr ⟨fenced.ordered, List.pairwise_singleton _ _, ?_⟩
    intro e mem new newMem k committed l newCommitted
    rw [List.mem_singleton.mp newMem, tenureIs] at newCommitted
    obtain ⟨k', -, committed', owner⟩ := fenced.logged e mem
    cases committed'.symm.trans committed
    cases newCommitted
    have inside := (List.getElem?_eq_some_iff.mp owner).1
    change k' ≤ s.tenures.length - 1
    omega
  · change t.writes s.store.tables = _
    rw [List.foldl_append, ← fenced.tables_eq]
    rfl
  · change (s.store.view i).cursor = _
    rw [List.getLast?_concat]
    rfl

theorem Fenced.commitRow {tx : RowTx} (fenced : s.Fenced origin tables)
    (opened : s.store.opened i = some t) (isRow : t.label.kind = .row tx) :
    ({ s with store := s.store.commit i t } : LeaseRun Tables).Fenced origin tables := by
  obtain ⟨bookkeeping, noWrites⟩ := bookkeeping_of_fact (fenced.each i t opened) isRow
  have kept : NoGrant s.store.row (s.store.view i) ∧
      (s.store.view i).cursor = s.store.row.cursor := by
    unfold Store.view
    cases mine : s.store.own i with
    | none => exact ⟨.refl _, rfl⟩
    | some v => exact bookkeeping.version v mine
  refine
    { named := fenced.named.within Store.within_commit rfl rfl
      each := ?_
      locked := fenced.locked.commit
      holder := ?_
      checked := fenced.checked_commit rfl rfl fun _ => rfl
      logged := fenced.logged
      ordered := fenced.ordered
      tables_eq := ?_
      cursor_eq := ?_ }
  · exact fenced.each.commit fun j u other openedOther _ fact => fact.rely (.inl kept.1)
  · exact fun owner names => fenced.holder owner (kept.1.named names)
  · change t.writes s.store.tables = _
    rw [noWrites]
    exact fenced.tables_eq
  · change (s.store.view i).cursor = _
    rw [kept.2]
    exact fenced.cursor_eq

/-- A fresh identifier is not the holder's. -/
theorem Fenced.acquiring_first {fence : Fence} {owner : LeaseOwner}
    (fenced : s.Fenced origin tables) (unused : s.store.opened i = none)
    (new : owner ∉ s.started) :
    Acquiring fence owner s.store.row (s.store.own i)
      (fence.statements : List (Statement SyncState Tables)) := by
  have fresh := fenced.locked i unused
  refine ⟨fun names => ?_, fun v mem => ?_, .inl ⟨fresh, rfl⟩⟩
  · have last := fenced.holder owner names
    exact new (fenced.named.known owner (List.mem_of_getLast? last))
  · exact absurd (fresh ▸ mem) (Option.not_mem_none v)

/-- Every step of any instance keeps the fences. -/
theorem Fenced.step (fenced : s.Fenced origin tables) (step : LeaseStep s s') :
    s'.Fenced origin tables := by
  cases step with
  | tick now later =>
    exact ⟨fenced.named.within (fun j u opened => ⟨u, opened, rfl⟩) rfl rfl, fenced.each,
      fenced.locked, fenced.holder, fenced.checked, fenced.logged, fenced.ordered,
      fenced.tables_eq, fenced.cursor_eq⟩
  | acquireCrawler i owner now unused new later wanted free =>
    refine fenced.begin (fenced.named.begin rfl rfl
      (fun _ mem => List.mem_cons_of_mem owner mem)
      (fun _ => ⟨List.mem_cons_self, new⟩) nofun) rfl ?_ nofun rfl rfl rfl
    exact ⟨fenced.acquiring_first unused new, rfl⟩
  | acquireImport i owner now unused new later free =>
    refine fenced.begin (fenced.named.begin rfl rfl
      (fun _ mem => List.mem_cons_of_mem owner mem)
      (fun _ => ⟨List.mem_cons_self, new⟩) nofun) rfl ?_ nofun rfl rfl rfl
    exact ⟨fenced.acquiring_first unused new, rfl⟩
  | beginWrite i owner tx unused granted =>
    refine fenced.begin (fenced.named.begin rfl rfl (fun _ mem => mem)
      (fun acquires => acquires.elim) fun _ _ => granted) rfl ?_ ?_ rfl rfl rfl
    · exact ⟨fun v mem => absurd (fenced.locked i unused ▸ mem) (Option.not_mem_none v),
        .before tx.before rfl⟩
    · intro _ _ noChecks
      refine noChecks (tx.fence owner).held ?_
      simp [LeaseTx.opened, RowTransactions.Transaction.of, TxKind.program, Fence.statements]
  | beginRow i owner tx unused =>
    refine fenced.begin (fenced.named.begin rfl rfl (fun _ mem => mem)
      (fun acquires => acquires.elim) nofun) rfl ?_ nofun rfl rfl rfl
    exact ⟨⟨fun v mem => absurd (fenced.locked i unused ▸ mem) (Option.not_mem_none v),
      tx.keepsLease owner⟩, rfl⟩
  | statement i t store opened runs => exact fenced.statement opened runs
  | rollBack i => exact fenced.rollBack
  | grant i t opened acquires finished => exact fenced.grant opened acquires finished
  | commitWrite i t tx opened writes finished => exact fenced.commitWrite opened writes finished
  | commitRow i t tx opened writes finished => exact fenced.commitRow opened writes

/-- Every run keeps the fences. -/
theorem fenced_of_run {network : String} {start : Option ChainPoint}
    (run : Relation.ReflTransGen LeaseStep (LeaseRun.start network start tables) s) :
    s.Fenced (SyncState.initial network start) tables := by
  induction run with
  | refl => exact fenced_start network start tables
  | tail _ step ih => exact ih.step step

/-- A successor that has written keeps its predecessors silent. -/
theorem Fenced.silent (fenced : s.Fenced origin tables)
    {before between after : List (CommittedTx Tables)} {former successor e : CommittedTx Tables}
    (log : s.log = before ++ former :: between ++ successor :: after)
    (succeeded : former.owner ≠ successor.owner) (mem : e ∈ after) :
    e.owner ≠ former.owner := by
  intro again
  have formerMem : former ∈ s.log := by
    rw [log]
    simp
  have successorMem : successor ∈ s.log := by
    rw [log]
    simp
  have eMem : e ∈ s.log := by
    rw [log]
    simp [mem]
  obtain ⟨k, -, formerIn, formerOwner⟩ := fenced.logged former formerMem
  obtain ⟨l, -, successorIn, successorOwner⟩ := fenced.logged successor successorMem
  obtain ⟨m, -, eIn, eOwner⟩ := fenced.logged e eMem
  have ordered := fenced.ordered
  rw [log, List.pairwise_append] at ordered
  have first : k ≤ l :=
    ordered.2.2 former (by simp) successor List.mem_cons_self _ formerIn _ successorIn
  have second : l ≤ m :=
    (List.pairwise_cons.mp ordered.2.1).1 e mem _ successorIn _ eIn
  -- one tenure for each owner
  have sameTenure : m = k := by
    have inside := (List.getElem?_eq_some_iff.mp eOwner).1
    refine (List.getElem?_inj inside fenced.named.once).mp ?_
    rw [eOwner, formerOwner, again]
  have middle : l = k := by omega
  subst middle
  exact succeeded (Option.some.inj (formerOwner.symm.trans successorOwner))

end LeaseRun

/-- Blocks, rollbacks and import writes commit under the lease their fence has found, in
the order of the tenures; a former holder is silent once its successor has written, and
nothing else writes the tables or the cursor. -/
theorem committed_inTenureOrder (network : String) (start : Option ChainPoint) (tables : Tables)
    {s : LeaseRun Tables}
    (run : Relation.ReflTransGen LeaseStep (LeaseRun.start network start tables) s) :
    (∀ e ∈ s.log, ∃ k, e.checkedIn = some (k, e.owner) ∧ e.committedIn = some (k, e.owner) ∧
      s.tenures[k]? = some e.owner) ∧
    (s.log.Pairwise fun earlier later =>
      ∀ k ∈ earlier.committedIn, ∀ l ∈ later.committedIn, k.1 ≤ l.1) ∧
    (∀ before former between successor after,
      s.log = before ++ former :: between ++ successor :: after →
      former.owner ≠ successor.owner → ∀ e ∈ after, e.owner ≠ former.owner) ∧
    s.store.tables = s.log.foldl (fun before e => e.writes before) tables ∧
    s.store.row.cursor =
      ((s.log.getLast?).map CommittedTx.cursor).getD (SyncState.initial network start).cursor := by
  have fenced := LeaseRun.fenced_of_run run
  refine ⟨fenced.logged, fenced.ordered, ?_, fenced.tables_eq, fenced.cursor_eq⟩
  intro before former between successor after log succeeded e mem
  exact fenced.silent log succeeded mem

/-- A crawler writes a block, its lease runs out, and an import writes a page. -/
theorem committed_inTenureOrder_takeover :
    ∃ s : LeaseRun (List String),
      Relation.ReflTransGen LeaseStep (LeaseRun.start "preview" none []) s ∧
      s.log.map CommittedTx.owner = ["7:a", "import:8:b"] ∧ s.store.tables = ["block", "page"] ∧
      ∀ e ∈ s.log, ∃ k, e.checkedIn = some (k, e.owner) ∧
        e.committedIn = some (k, e.owner) ∧ s.tenures[k]? = some e.owner := by
  have asked : Relation.ReflTransGen LeaseStep
      (LeaseRun.start "preview" none ([] : List String)) _ :=
    .single (.acquireCrawler _ 0 "7:a" 0 rfl List.not_mem_nil (Nat.le_refl 0) rfl rfl)
  have updated := asked.tail
    (.statement _ 0 _ _ rfl (.hit _ _ _ rfl (fun _ _ => rfl) (by decide)))
  have checked := updated.tail (.statement _ 0 _ _ rfl (.pass _ _ rfl (by decide)))
  have granted := checked.tail (.grant _ 0 _ rfl trivial rfl)
  -- the block
  have begun := granted.tail (.beginWrite _ 1 "7:a"
    (.persistBlock [.tables (· ++ ["block"])] ⟨5, text "b", none⟩ none .syncing none 9) rfl
    (by decide))
  have indexed := begun.tail (.statement _ 1 _ _ rfl (.write _ _ rfl))
  have advanced := indexed.tail
    (.statement _ 1 _ _ rfl (.hit _ _ _ rfl (fun _ _ => rfl) (by decide)))
  have fenced := advanced.tail (.statement _ 1 _ _ rfl (.pass _ _ rfl (by decide)))
  have persisted := fenced.tail (.commitWrite _ 1 _ _ rfl rfl rfl)
  -- the import after the lease ran out
  have seen := persisted.tail
    (.acquireImport _ 2 "import:8:b" 15010 rfl (by decide) (Nat.zero_le 15010) (by decide))
  have taken := seen.tail
    (.statement _ 2 _ _ rfl (.hit _ _ _ rfl (fun _ _ => rfl) (by decide)))
  have held := taken.tail (.statement _ 2 _ _ rfl (.pass _ _ rfl (by decide)))
  have acquired := held.tail (.grant _ 2 _ rfl trivial rfl)
  have opened := acquired.tail (.beginWrite _ 3 "import:8:b"
    (.writeTx 15020 [.tables (· ++ ["page"])]) rfl (by decide))
  have renewed := opened.tail
    (.statement _ 3 _ _ rfl (.hit _ _ _ rfl (fun _ _ => rfl) (by decide)))
  have passed := renewed.tail (.statement _ 3 _ _ rfl (.pass _ _ rfl (by decide)))
  have loaded := passed.tail (.statement _ 3 _ _ rfl (.write _ _ rfl))
  have run := loaded.tail (.commitWrite _ 3 _ _ rfl rfl rfl)
  exact ⟨_, run, rfl, rfl, (committed_inTenureOrder "preview" none [] run).1⟩

end Runs

end Odatano
