import Odatano.IndexPlaceholders
import Mathlib.Data.Finset.Max
import Mathlib.Order.Lattice.Nat

/-!
# Placeholders and ledger positions

The ledger keeps the inputs, reference inputs and withdrawals of a transaction as sorted sets.  A
resolved placeholder is the rank of its item in one of them.
-/

namespace Odatano

/-! ## Ledger order -/

/-- A hash of 32 bytes, written in lower case, and an index of 16 bits. -/
structure InputRef.Valid (ref : InputRef) : Prop where
  hex : ref.txHash.IsHex
  bytes : ref.txHash.length = 64
  lower : ref.txHash.toLowerCase = ref.txHash
  short : ref.outputIndex < 65536

/-- A hash of 28 bytes. -/
structure WithdrawalEntry.Valid (entry : WithdrawalEntry) : Prop where
  hex : entry.credentials.IsHex
  bytes : entry.credentials.length = 56

/-- Inputs and reference inputs are ordered by hash and index. -/
def InputRef.place (ref : InputRef) : List Nat ×ₗ Nat :=
  toLex (ref.txHash.hexBytes, ref.outputIndex)

def WithdrawalEntry.hash (entry : WithdrawalEntry) : List Nat := entry.credentialHash.hexBytes

/-- Withdrawals are ordered with scripts before keys, then by hash. -/
def WithdrawalEntry.place (entry : WithdrawalEntry) : Bool ×ₗ List Nat :=
  toLex (!entry.isScript, entry.hash)

theorem bufferCompare_isLE (a b : List Nat) : (bufferCompare a b).isLE = decide (a ≤ b) := by
  unfold bufferCompare
  split
  · rename_i less
    simp [less.le]
  · split
    · rename_i more
      simp [more]
    · rename_i notLess notMore
      simp [le_of_not_gt notMore]

theorem compareInputs_isLE (a b : InputRef) :
    (compareInputs a b).isLE = true ↔ a.place ≤ b.place := by
  rw [InputRef.place, InputRef.place, Prod.Lex.toLex_le_toLex, compareInputs]
  rcases lt_trichotomy a.txHash.hexBytes b.txHash.hexBytes with less | same | more
  · simp [bufferCompare, less]
  · simp [bufferCompare, same, Nat.isLE_compare]
  · simp [bufferCompare, more, more.not_gt, more.ne']

theorem compareWithdrawals_isLE (a b : WithdrawalEntry) :
    (compareWithdrawals a b).isLE = true ↔ a.place ≤ b.place := by
  rw [WithdrawalEntry.place, WithdrawalEntry.place, Prod.Lex.toLex_le_toLex, compareWithdrawals]
  cases isFirst : a.isScript <;> cases isSecond : b.isScript <;>
    simp [bufferCompare_isLE, WithdrawalEntry.hash]

theorem sortInputsLikeBuildooor_eq (refs : List InputRef) :
    sortInputsLikeBuildooor refs = sortByKey InputRef.place refs := by
  have same (a b : InputRef) : (compareInputs a b).isLE = decide (a.place ≤ b.place) := by
    rw [Bool.eq_iff_iff, compareInputs_isLE, decide_eq_true_iff]
  simp only [sortInputsLikeBuildooor, sortByKey, same]

theorem sortWithdrawalsLikeLedger_eq (entries : List WithdrawalEntry) :
    sortWithdrawalsLikeLedger entries = sortByKey WithdrawalEntry.place entries := by
  have same (a b : WithdrawalEntry) :
      (compareWithdrawals a b).isLE = decide (a.place ≤ b.place) := by
    rw [Bool.eq_iff_iff, compareWithdrawals_isLE, decide_eq_true_iff]
  simp only [sortWithdrawalsLikeLedger, sortByKey, same]

/-- Both orders of references are the same, also where hashes are written in different cases. -/
theorem compareOutRef_eq_compareInputs {a b : InputRef} (hex : a.txHash.IsHex)
    (hex' : b.txHash.IsHex) (bytes : a.txHash.length = 64) (bytes' : b.txHash.length = 64) :
    compareOutRef a b = compareInputs a b := by
  have whole : Even a.txHash.length := by rw [bytes]; decide
  have whole' : Even b.txHash.length := by rw [bytes']; decide
  simp only [compareOutRef, compareInputs, bufferCompare,
    ← JsString.hexBytes_lt_iff hex hex' whole whole',
    ← JsString.hexBytes_lt_iff hex' hex whole' whole]
  split
  · rfl
  · split <;> rfl

/-! ## The sets of a transaction -/

/-- The inputs of a transaction by where they come from, its reference inputs and its withdrawals.
The last two are absent where a build has no placeholders for them. -/
structure TransactionSets where
  scriptUtxoRefs : List InputRef
  forcedUtxos : List InputRef
  fundingRefs : List InputRef
  referenceInputs : Option (List InputRef)
  withdrawals : Option (List WithdrawalEntry)
  inputs_valid : ∀ ref ∈ scriptUtxoRefs ++ forcedUtxos ++ fundingRefs, ref.Valid
  inputs_nodup : (scriptUtxoRefs ++ forcedUtxos ++ fundingRefs).Nodup
  referenceInputs_valid : ∀ refs ∈ referenceInputs, ∀ ref ∈ refs, ref.Valid
  referenceInputs_nodup : ∀ refs ∈ referenceInputs, refs.Nodup
  withdrawals_valid : ∀ entries ∈ withdrawals, ∀ entry ∈ entries, entry.Valid
  withdrawals_nodup : ∀ entries ∈ withdrawals, (entries.map WithdrawalEntry.place).Nodup

def TransactionSets.inputs (tx : TransactionSets) : List InputRef :=
  tx.scriptUtxoRefs ++ tx.forcedUtxos ++ tx.fundingRefs

/-- The lists against which a build resolves its placeholders. -/
def TransactionSets.resolveCtx (tx : TransactionSets) : Except PlaceholderError ResolveContext := do
  let sortedReferenceInputs := tx.referenceInputs.map sortInputsLikeBuildooor
  let sortedInputs := computeSortedInputs tx.scriptUtxoRefs tx.forcedUtxos tx.fundingRefs
  match tx.withdrawals with
  | none => return ⟨sortedInputs, sortedReferenceInputs, none⟩
  | some entries => do
      let sortedWithdrawals ← ledgerWithdrawalOrder entries
      return ⟨sortedInputs, sortedReferenceInputs, some sortedWithdrawals⟩

/-- The reference that a hash of either case and a decimal index name. -/
def InputRef.Named (ref : InputRef) (txHash outputIndex : JsString) : Prop :=
  ref.txHash = txHash.toLowerCase ∧ ref.outputIndex = outputIndex.digitsValue

/-- The position of an item that a placeholder names, in the order of the ledger. -/
def TransactionSets.Position (tx : TransactionSets) : Placeholder → Nat → Prop
  | .input txHash outputIndex, position =>
      ∃ ref ∈ tx.inputs, ref.Named txHash outputIndex ∧
        position = rankOf InputRef.place tx.inputs ref.place
  | .referenceInput txHash outputIndex, position =>
      ∃ refs ∈ tx.referenceInputs, ∃ ref ∈ refs, ref.Named txHash outputIndex ∧
        position = rankOf InputRef.place refs ref.place
  | .withdrawal credentialHash, position =>
      ∃ entries ∈ tx.withdrawals, ∃ entry ∈ entries,
        entry.credentialHash = credentialHash.toLowerCase ∧
          position = rankOf WithdrawalEntry.place entries entry.place

theorem InputRef.Valid.eq_of_place {ref other : InputRef} (valid : ref.Valid) (valid' : other.Valid)
    (same : ref.place = other.place) : ref = other := by
  have parts := Prod.mk.inj (toLex.injective same)
  have whole : Even ref.txHash.length := by rw [valid.bytes]; decide
  have whole' : Even other.txHash.length := by rw [valid'.bytes]; decide
  have sameHash := (JsString.hexBytes_eq_iff valid.hex valid'.hex whole whole').mp parts.1
  rw [valid.lower, valid'.lower] at sameHash
  cases ref
  cases other
  simp_all

theorem refIndex?_eq_some_iff {refs : List InputRef} (valid : ∀ ref ∈ refs, ref.Valid)
    (txHash outputIndex : JsString) (position : Nat) :
    refIndex? (sortInputsLikeBuildooor refs) txHash outputIndex = some position ↔
      ∃ ref ∈ refs, ref.Named txHash outputIndex ∧
        position = rankOf InputRef.place refs ref.place := by
  rw [sortInputsLikeBuildooor_eq, refIndex?]
  have named : ∀ ref ∈ refs, ((decide (ref.txHash = txHash.toLowerCase) &&
      decide (Binary64.ofInt ref.outputIndex = Binary64.nearest outputIndex.digitsValue 1)) = true ↔
        ref.Named txHash outputIndex) := by
    intro ref listed
    have short : ref.outputIndex < 2 ^ 53 := (valid ref listed).short.trans (by decide)
    rw [Bool.and_eq_true, decide_eq_true_iff, decide_eq_true_iff, eq_comm (a := Binary64.ofInt _),
      Binary64.nearest_eq_ofInt_iff short, InputRef.Named, eq_comm (a := ref.outputIndex)]
  have atRank : ∀ ref ∈ refs, ref.Named txHash outputIndex →
      (sortByKey InputRef.place refs).findIdx? (fun ref =>
        decide (ref.txHash = txHash.toLowerCase) &&
          decide (Binary64.ofInt ref.outputIndex = Binary64.nearest outputIndex.digitsValue 1)) =
        some (rankOf InputRef.place refs ref.place) := by
    intro ref listed isNamed
    rw [findIdx?_eq_rankOf_of_unique InputRef.place (sortByKey_ascending _ refs)
      ((mem_sortByKey _).mpr listed), rankOf_of_perm _ (sortByKey_perm _ refs)]
    intro other member
    have member := (mem_sortByKey _).mp member
    rw [named other member]
    constructor
    · intro isOther
      rw [InputRef.place, InputRef.place, isOther.1, isOther.2, isNamed.1, isNamed.2]
    · intro same
      rw [(valid other member).eq_of_place (valid ref listed) same]
      exact isNamed
  constructor
  · intro found
    have present := Option.isSome_of_eq_some found
    rw [List.findIdx?_isSome, List.any_eq_true] at present
    obtain ⟨ref, member, isNamed⟩ := present
    have member := (mem_sortByKey _).mp member
    have isNamed := (named ref member).mp isNamed
    rw [atRank ref member isNamed] at found
    exact ⟨ref, member, isNamed, (Option.some.inj found).symm⟩
  · rintro ⟨ref, member, isNamed, rfl⟩
    exact atRank ref member isNamed

/-! ## Withdrawals -/

section Withdrawals

variable {entries : List WithdrawalEntry}

theorem WithdrawalEntry.Valid.hash_eq_iff {entry other : WithdrawalEntry} (valid : entry.Valid)
    (valid' : other.Valid) :
    entry.hash = other.hash ↔ entry.credentialHash = other.credentialHash := by
  have whole : Even entry.credentialHash.length := by
    rw [credentialHash, JsString.length_toLowerCase, valid.bytes]
    decide
  have whole' : Even other.credentialHash.length := by
    rw [credentialHash, JsString.length_toLowerCase, valid'.bytes]
    decide
  have lower (e : WithdrawalEntry) : e.credentialHash.toLowerCase = e.credentialHash :=
    JsString.toLowerCase_toLowerCase _
  rw [hash, hash, @JsString.hexBytes_eq_iff entry.credentialHash other.credentialHash
    ((JsString.isHex_toLowerCase _).mpr valid.hex)
    ((JsString.isHex_toLowerCase _).mpr valid'.hex) whole whole', lower, lower]

theorem WithdrawalEntry.hash_eq_of_place {entry other : WithdrawalEntry}
    (same : entry.place = other.place) : entry.hash = other.hash :=
  (Prod.mk.inj (toLex.injective same)).2

/-- The withdrawal that `indexOf` of a hash finds in the order of the ledger. -/
structure FirstWithHash (entries : List WithdrawalEntry) (credentialHash : JsString)
    (first : WithdrawalEntry) : Prop where
  listed : first ∈ entries
  named : first.credentialHash = credentialHash
  least : ∀ other ∈ entries, other.credentialHash = credentialHash → first.place ≤ other.place

theorem exists_firstWithHash {entry : WithdrawalEntry} (listed : entry ∈ entries) :
    ∃ first, FirstWithHash entries entry.credentialHash first := by
  obtain ⟨first, member, least⟩ := Finset.exists_min_image
    (entries.toFinset.filter fun other => other.credentialHash = entry.credentialHash)
    WithdrawalEntry.place ⟨entry, by simp [listed]⟩
  rw [Finset.mem_filter, List.mem_toFinset] at member
  exact ⟨first, member.1, member.2, fun other otherListed named =>
    least other (by simp [otherListed, named])⟩

/-- The hashes in ledger order. -/
def ledgerHashes (entries : List WithdrawalEntry) : List JsString :=
  (sortWithdrawalsLikeLedger entries).map WithdrawalEntry.credentialHash

theorem idxOf?_ledgerHashes (valid : ∀ entry ∈ entries, entry.Valid) {credentialHash : JsString}
    {first : WithdrawalEntry} (isFirst : FirstWithHash entries credentialHash first) :
    (ledgerHashes entries).idxOf? credentialHash =
      some (rankOf WithdrawalEntry.place entries first.place) := by
  rw [ledgerHashes, sortWithdrawalsLikeLedger_eq, List.idxOf?, List.findIdx?_map,
    findIdx?_eq_rankOf WithdrawalEntry.place (sortByKey_ascending _ entries)
      ((mem_sortByKey _).mpr isFirst.listed), rankOf_of_perm _ (sortByKey_perm _ entries)]
  · intro other member named
    exact isFirst.least other ((mem_sortByKey _).mp member) (beq_iff_eq.mp named)
  · intro other member same
    have member := (mem_sortByKey _).mp member
    have sameHash := ((valid other member).hash_eq_iff (valid first isFirst.listed)).mp
      (WithdrawalEntry.hash_eq_of_place same)
    exact beq_iff_eq.mpr (sameHash.trans isFirst.named)

/-- The hashes in the order of the library. -/
def hashOrder (entries : List WithdrawalEntry) : List JsString :=
  (entries.map WithdrawalEntry.credentialHash).mergeSort fun a b =>
    (bufferCompare a.hexBytes b.hexBytes).isLE

theorem idxOf?_hashOrder (valid : ∀ entry ∈ entries, entry.Valid) {entry : WithdrawalEntry}
    (listed : entry ∈ entries) :
    (hashOrder entries).idxOf? entry.credentialHash =
      some (rankOf WithdrawalEntry.hash entries entry.hash) := by
  have sorted : hashOrder entries =
      sortByKey JsString.hexBytes (entries.map WithdrawalEntry.credentialHash) := by
    simp only [hashOrder, sortByKey, bufferCompare_isLE]
  have member : entry.credentialHash ∈ entries.map WithdrawalEntry.credentialHash :=
    List.mem_map_of_mem listed
  rw [sorted, List.idxOf?, findIdx?_eq_rankOf_of_unique JsString.hexBytes
    (sortByKey_ascending _ _) ((mem_sortByKey _).mpr member),
    rankOf_of_perm _ (sortByKey_perm _ _), rankOf, rankOf, List.countP_map]
  · rfl
  · intro other otherMember
    obtain ⟨e, eListed, rfl⟩ := List.mem_map.mp ((mem_sortByKey _).mp otherMember)
    rw [beq_iff_eq]
    exact ((valid e eListed).hash_eq_iff (valid entry listed)).symm

/-- A scripted withdrawal has another rank among the hashes than in the ledger. -/
def Misplaced (entries : List WithdrawalEntry) : Prop :=
  ∃ entry ∈ entries, entry.scripted = true ∧
    ∃ first, FirstWithHash entries entry.credentialHash first ∧
      rankOf WithdrawalEntry.place entries first.place ≠
        rankOf WithdrawalEntry.hash entries entry.hash

theorem idxOf_of_idxOf? {items : List JsString} {item : JsString} {position : Nat}
    (found : items.idxOf? item = some position) : items.idxOf item = position :=
  (List.findIdx?_eq_some_iff_findIdx_eq.mp found).2

/-- A build is refused exactly where a scripted withdrawal is misplaced. -/
theorem ledgerWithdrawalOrder_cases (valid : ∀ entry ∈ entries, entry.Valid) :
    (Misplaced entries ∧ ∃ e, ledgerWithdrawalOrder entries = .error e) ∨
      (¬Misplaced entries ∧ ledgerWithdrawalOrder entries = .ok (ledgerHashes entries)) := by
  have numbered {entry first : WithdrawalEntry} (listed : entry ∈ entries)
      (isFirst : FirstWithHash entries entry.credentialHash first) :
      (ledgerHashes entries).idxOf entry.credentialHash ≠
          (hashOrder entries).idxOf entry.credentialHash ↔
        rankOf WithdrawalEntry.place entries first.place ≠
          rankOf WithdrawalEntry.hash entries entry.hash := by
    rw [idxOf_of_idxOf? (idxOf?_ledgerHashes valid isFirst),
      idxOf_of_idxOf? (idxOf?_hashOrder valid listed)]
  simp only [ledgerWithdrawalOrder]
  split
  · rename_i e found
    refine .inl ⟨?_, _, rfl⟩
    have listed := List.mem_of_find?_eq_some found
    have differs := List.find?_some found
    rw [Bool.and_eq_true, decide_eq_true_iff] at differs
    obtain ⟨first, isFirst⟩ := exists_firstWithHash listed
    exact ⟨e, listed, differs.1, first, isFirst, (numbered listed isFirst).mp differs.2⟩
  · rename_i absent
    refine .inr ⟨?_, rfl⟩
    rintro ⟨entry, listed, isScripted, first, isFirst, differs⟩
    have refused := List.find?_eq_none.mp absent entry listed
    rw [Bool.and_eq_true, decide_eq_true_iff] at refused
    exact refused ⟨isScripted, (numbered listed isFirst).mpr differs⟩

/-- An order in which the library may number the withdrawals: it looks at the hashes only. -/
structure LibraryOrder (entries order : List WithdrawalEntry) : Prop where
  perm : order.Perm entries
  ascending : order.Pairwise fun first second => first.hash ≤ second.hash

/-- The library gives each scripted withdrawal its position in the ledger. -/
def NumbersLikeLedger (entries : List WithdrawalEntry) : Prop :=
  ∀ order, LibraryOrder entries order → ∀ entry ∈ entries, entry.scripted = true →
    order.idxOf? entry = some (rankOf WithdrawalEntry.place entries entry.place)

/-- No scripted withdrawal has the hash of another withdrawal. -/
def ScriptedApart (entries : List WithdrawalEntry) : Prop :=
  ∀ entry ∈ entries, entry.scripted = true → ∀ other ∈ entries,
    other.credentialHash = entry.credentialHash → other = entry

/-- Hashes first, and for equal hashes the kind of credential. -/
def tiePlace (keysFirst : Bool) (entry : WithdrawalEntry) : List Nat ×ₗ Bool :=
  toLex (entry.hash, entry.isScript == keysFirst)

theorem libraryOrder_tiePlace (keysFirst : Bool) :
    LibraryOrder entries (sortByKey (tiePlace keysFirst) entries) := by
  refine ⟨sortByKey_perm _ _, (sortByKey_ascending _ entries).imp fun le => ?_⟩
  rcases Prod.Lex.toLex_le_toLex.mp le with less | ⟨same, -⟩
  · exact less.le
  · exact same.le

theorem eq_of_place (apart : (entries.map WithdrawalEntry.place).Nodup)
    {entry other : WithdrawalEntry} (listed : entry ∈ entries) (otherListed : other ∈ entries)
    (same : other.place = entry.place) : other = entry :=
  List.inj_on_of_nodup_map apart otherListed listed same

theorem idxOf?_of_place {κ : Type} [LinearOrder κ] {key : WithdrawalEntry → κ}
    {order : List WithdrawalEntry} {entry : WithdrawalEntry} (perm : order.Perm entries)
    (ascending : order.Pairwise fun first second => key first ≤ key second)
    (listed : entry ∈ entries) (unique : ∀ other ∈ entries, key other = key entry → other = entry) :
    order.idxOf? entry = some (rankOf key entries (key entry)) := by
  rw [List.idxOf?, findIdx?_eq_rankOf_of_unique key ascending (perm.mem_iff.mpr listed),
    rankOf_of_perm _ perm]
  intro other member
  rw [beq_iff_eq]
  exact ⟨fun same => same ▸ rfl, unique other (perm.mem_iff.mp member)⟩

/-- Two withdrawals with one hash can stand in either order. -/
theorem rankOf_tiePlace_lt {entry other : WithdrawalEntry} (otherListed : other ∈ entries)
    (sameHash : other.hash = entry.hash) (differ : other.isScript ≠ entry.isScript) :
    rankOf (tiePlace !entry.isScript) entries (tiePlace (!entry.isScript) entry) <
      rankOf (tiePlace entry.isScript) entries (tiePlace entry.isScript entry) := by
  refine countP_lt_of_mem ?_ otherListed ?_ ?_
  · intro item member smaller
    rw [decide_eq_true_iff, tiePlace, tiePlace, Prod.Lex.toLex_lt_toLex] at smaller ⊢
    rcases smaller with less | ⟨-, flags⟩
    · exact .inl less
    · exact absurd flags (by simp)
  · rw [decide_eq_false_iff_not, tiePlace, tiePlace, Prod.Lex.toLex_lt_toLex]
    simp [sameHash]
  · rw [decide_eq_true_iff, tiePlace, tiePlace, Prod.Lex.toLex_lt_toLex]
    refine .inr ⟨sameHash, ?_⟩
    rw [beq_eq_false_iff_ne.mpr differ, beq_self_eq_true]
    exact Bool.false_lt_true

theorem numbersLikeLedger_iff (valid : ∀ entry ∈ entries, entry.Valid)
    (apart : (entries.map WithdrawalEntry.place).Nodup) (placed : ¬Misplaced entries) :
    NumbersLikeLedger entries ↔ ScriptedApart entries := by
  constructor
  · intro numbers entry listed isScripted other otherListed named
    by_contra differ
    have sameHash := ((valid other otherListed).hash_eq_iff (valid entry listed)).mpr named
    have kinds : other.isScript ≠ entry.isScript := by
      intro same
      refine differ (eq_of_place apart listed otherListed ?_)
      rw [WithdrawalEntry.place, WithdrawalEntry.place, same, sameHash]
    have unique (keysFirst : Bool) : ∀ item ∈ entries,
        tiePlace keysFirst item = tiePlace keysFirst entry → item = entry := by
      intro item member same
      obtain ⟨sameHash, sameKind⟩ := Prod.mk.inj (toLex.injective same)
      refine eq_of_place apart listed member ?_
      rw [WithdrawalEntry.place, WithdrawalEntry.place, sameHash]
      revert sameKind
      cases item.isScript <;> cases entry.isScript <;> cases keysFirst <;> simp
    have rank (keysFirst : Bool) :
        rankOf (tiePlace keysFirst) entries (tiePlace keysFirst entry) =
          rankOf WithdrawalEntry.place entries entry.place := by
      have numbered := numbers _ (libraryOrder_tiePlace keysFirst) entry listed isScripted
      rw [idxOf?_of_place (sortByKey_perm _ _) (sortByKey_ascending _ _) listed
        (unique keysFirst)] at numbered
      exact Option.some.inj numbered
    have less := rankOf_tiePlace_lt otherListed sameHash kinds
    rw [rank, rank] at less
    exact lt_irrefl _ less
  · intro scriptedApart order isOrder entry listed isScripted
    have own := scriptedApart entry listed isScripted
    rw [idxOf?_of_place isOrder.perm isOrder.ascending listed fun other otherListed same =>
      own other otherListed (((valid other otherListed).hash_eq_iff (valid entry listed)).mp same)]
    obtain ⟨first, isFirst⟩ := exists_firstWithHash listed
    have isEntry := own first isFirst.listed isFirst.named
    by_contra differs
    refine placed ⟨entry, listed, isScripted, first, isFirst, ?_⟩
    rw [isEntry]
    exact fun same => differs (congrArg some same.symm)

end Withdrawals

end Odatano
