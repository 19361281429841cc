import Odatano.InputSelection

/-!
# Forced inputs and collateral of a build

What `_partitionForcedInputs` and `_setupCollateral` of
`srv/blockchain/transaction-building/buildooor-tx.ts` leave to coin selection and
which output they put up as collateral.
-/

namespace Odatano

/-! ## Dividing the outputs -/

/-- Forced inputs and the pool, without what is referenced or protected. -/
structure DividedInputs (utxos : List UTxO) (forceInputs referenced protectInputs : List OutRef)
    (partition : ForcedPartition) : Prop where
  allowed : ∀ ref ∈ forceInputs,
    ref.key ∉ referenced ∧ ref.key ∉ protectInputs.map OutRef.key
  forced : ∀ u, u ∈ partition.forced ↔ u ∈ utxos ∧ u.key ∈ forceInputs.map OutRef.key
  fromUtxos : ∀ u ∈ partition.rest, u ∈ utxos
  disjoint : ∀ u ∈ partition.forced, u ∉ partition.rest
  notForced : ∀ u ∈ partition.rest, u.key ∉ forceInputs.map OutRef.key
  notReferenced : ∀ u ∈ partition.rest, u.key ∉ referenced
  notProtected : ∀ u ∈ partition.rest, u.key ∉ protectInputs.map OutRef.key

section Divide

variable {utxos : List UTxO} {forceInputs referenced protectInputs : List OutRef}
  {includeRefScriptUtxos : Bool}

theorem partitionForcedInputs_divided {partition : ForcedPartition}
    (divided : partitionForcedInputs utxos forceInputs referenced protectInputs
      includeRefScriptUtxos = .ok partition) :
    DividedInputs utxos forceInputs referenced protectInputs partition := by
  have unprotected := (partitionForcedInputs_unprotected divided).2
  simp only [partitionForcedInputs] at divided
  split at divided
  · rename_i nothing
    obtain ⟨noneForced, noneReferenced, -⟩ := nothing
    subst noneForced noneReferenced
    cases divided
    exact
      { allowed := by simp
        forced := by simp
        fromUtxos := fun _ uMem => uMem
        disjoint := by simp
        notForced := by simp
        notReferenced := by simp
        notProtected := unprotected }
  · split at divided
    · cases divided
    · rename_i unreferenced
      split at divided
      · cases divided
      · rename_i notProtected
        cases divided
        have allowed {ref : OutRef} (refMem : ref ∈ forceInputs) :
            ref.key ∉ referenced ∧ ref.key ∉ protectInputs.map OutRef.key := by
          have listed := mem_distinct.mpr (List.mem_map_of_mem (f := OutRef.key) refMem)
          exact ⟨by simpa using List.find?_eq_none.mp unreferenced ref.key listed,
            by simpa using List.find?_eq_none.mp notProtected ref.key listed⟩
        have kept {u : UTxO} (uMem : u ∈ utxos.filter fun u =>
            decide (u.key ∉ distinct (forceInputs.map OutRef.key)) && decide (u.key ∉ referenced) &&
              decide (u.key ∉ protectInputs.map OutRef.key) &&
                !(!includeRefScriptUtxos && u.hasRefScript)) :
            u ∈ utxos ∧ u.key ∉ forceInputs.map OutRef.key ∧ u.key ∉ referenced := by
          obtain ⟨listed, apart⟩ := List.mem_filter.mp uMem
          simp only [Bool.and_eq_true, decide_eq_true_eq, mem_distinct] at apart
          exact ⟨listed, apart.1.1.1, apart.1.1.2⟩
        have isForced {u : UTxO} : u ∈ utxos.filter (fun u =>
            decide (u.key ∈ distinct (forceInputs.map OutRef.key))) ↔
              u ∈ utxos ∧ u.key ∈ forceInputs.map OutRef.key := by
          rw [List.mem_filter, decide_eq_true_eq, mem_distinct]
        exact
          { allowed := fun _ refMem => allowed refMem
            forced := fun _ => isForced
            fromUtxos := fun _ uMem => (kept uMem).1
            disjoint := fun _ uMem inRest => (kept inRest).2.1 (isForced.mp uMem).2
            notForced := fun _ uMem => (kept uMem).2.1
            notReferenced := fun _ uMem => (kept uMem).2.2
            notProtected := unprotected }

/-- Only a forced input that is referenced or protected is refused. -/
theorem partitionForcedInputs_refused {error : BuildError}
    (refused : partitionForcedInputs utxos forceInputs referenced protectInputs
      includeRefScriptUtxos = .error error) :
    ∃ ref ∈ forceInputs, ref.key ∈ referenced ∨ ref.key ∈ protectInputs.map OutRef.key := by
  have requested {k : OutRef} (found : k ∈ distinct (forceInputs.map OutRef.key)) :
      ∃ ref ∈ forceInputs, ref.key = k := List.mem_map.mp (mem_distinct.mp found)
  simp only [partitionForcedInputs] at refused
  split at refused
  · cases refused
  · split at refused
    · rename_i clash found
      obtain ⟨ref, refMem, same⟩ := requested (List.mem_of_find?_eq_some found)
      have referencedToo := List.find?_some found
      rw [decide_eq_true_eq] at referencedToo
      exact ⟨ref, refMem, Or.inl (same ▸ referencedToo)⟩
    · split at refused
      · rename_i clash found
        obtain ⟨ref, refMem, same⟩ := requested (List.mem_of_find?_eq_some found)
        have protectedToo := List.find?_some found
        rw [decide_eq_true_eq] at protectedToo
        exact ⟨ref, refMem, Or.inr (same ▸ protectedToo)⟩
      · cases refused

end Divide

/-! ## Choosing the collateral -/

/-- An ADA-only output without a reference script. -/
structure UTxO.AdaOnly (u : UTxO) : Prop where
  amount : ∀ a ∈ u.amount, a.isLovelace = true ∨ a.quantity = 0
  scriptRef : u.scriptRef = none
  scriptRefCbor : u.scriptRefCbor = none

theorem UTxO.isCollateralCandidate_iff {u : UTxO} : u.isCollateralCandidate = true ↔ u.AdaOnly := by
  simp only [isCollateralCandidate, Bool.and_eq_true, List.all_eq_true, Bool.or_eq_true,
    decide_eq_true_eq, Option.isNone_iff_eq_none]
  exact ⟨fun ⟨⟨amount, scriptRef⟩, scriptRefCbor⟩ => ⟨amount, scriptRef, scriptRefCbor⟩,
    fun adaOnly => ⟨⟨adaOnly.amount, adaOnly.scriptRef⟩, adaOnly.scriptRefCbor⟩⟩

/-- An ADA-only output that reaches the collateral floor. -/
def UTxO.ReachesFloor (u : UTxO) : Prop := u.AdaOnly ∧ COLLATERAL_LOVELACE ≤ u.getLovelace

/-- The forced inputs of the sender that reach the floor. -/
def ForcedCollateral (forced : List UTxO) (senderAddress : String) (u : UTxO) : Prop :=
  u ∈ forced ∧ u.address.toLower = senderAddress.toLower ∧ u.ReachesFloor

/-- The smallest output of the pool that reaches the floor, else a forced input of the
sender that does, else the largest of the pool. -/
structure ChosenCollateral (rest forcedInputs : List UTxO) (senderAddress : String)
    (chosen : UTxO) : Prop where
  adaOnly : chosen.AdaOnly
  smallest : (∃ u ∈ rest, u.ReachesFloor) → chosen ∈ rest ∧ chosen.ReachesFloor ∧
    ∀ u ∈ rest, u.ReachesFloor → chosen.getLovelace ≤ u.getLovelace
  forced : (¬ ∃ u ∈ rest, u.ReachesFloor) → (∃ u, ForcedCollateral forcedInputs senderAddress u) →
    ForcedCollateral forcedInputs senderAddress chosen
  largest : (¬ ∃ u ∈ rest, u.ReachesFloor) → (¬ ∃ u, ForcedCollateral forcedInputs senderAddress u) →
    chosen ∈ rest ∧ ∀ u ∈ rest, u.AdaOnly → u.getLovelace ≤ chosen.getLovelace

/-- Outputs by lovelace, the smallest first. -/
def sortedByLovelace (utxos : List UTxO) : List UTxO :=
  utxos.mergeSort fun a b => decide (a.getLovelace ≤ b.getLovelace)

theorem pairwise_sortedByLovelace (utxos : List UTxO) :
    (sortedByLovelace utxos).Pairwise fun a b => a.getLovelace ≤ b.getLovelace := by
  have sorted := @List.pairwise_mergeSort UTxO
    (fun a b => decide (a.getLovelace ≤ b.getLovelace))
    (fun a b c first second => by
      simp only [decide_eq_true_eq] at first second ⊢
      exact Int.le_trans first second)
    (fun a b => by
      simp only [Bool.or_eq_true, decide_eq_true_eq]
      exact Int.le_total a.getLovelace b.getLovelace) utxos
  exact sorted.imp fun ordered => of_decide_eq_true ordered

/-- The first hit in a sorted list is the smallest. -/
theorem le_of_find?_sorted {list : List UTxO} {selected : UTxO → Bool} {u other : UTxO}
    (sorted : list.Pairwise fun a b => a.getLovelace ≤ b.getLovelace)
    (found : list.find? selected = some u) (otherMem : other ∈ list)
    (isSelected : selected other = true) : u.getLovelace ≤ other.getLovelace := by
  obtain ⟨-, before, after, rfl, earlier⟩ := List.find?_eq_some_iff_append.mp found
  rcases List.mem_append.mp otherMem with inBefore | inAfter
  · have rejected := earlier other inBefore
    rw [isSelected] at rejected
    cases rejected
  · rcases List.mem_cons.mp inAfter with rfl | later
    · exact Int.le_refl _
    · exact List.rel_of_pairwise_cons (List.pairwise_append.mp sorted).2.1 later

/-- The last of a sorted list is the largest. -/
theorem le_of_getLast?_sorted {list : List UTxO} {u other : UTxO}
    (sorted : list.Pairwise fun a b => a.getLovelace ≤ b.getLovelace)
    (last : list.getLast? = some u) (otherMem : other ∈ list) :
    other.getLovelace ≤ u.getLovelace := by
  obtain ⟨before, rfl⟩ := List.getLast?_eq_some_iff.mp last
  rcases List.mem_append.mp otherMem with earlier | isLast
  · exact (List.pairwise_append.mp sorted).2.2 other earlier u (List.mem_singleton_self u)
  · exact (List.mem_singleton.mp isLast) ▸ Int.le_refl _

theorem mem_sortedByLovelace {utxos : List UTxO} {u : UTxO} :
    u ∈ sortedByLovelace utxos ↔ u ∈ utxos := List.mem_mergeSort

/-- What the choice of `_setupCollateral` amounts to. -/
theorem chosenCollateral {rest forcedInputs : List UTxO} {senderAddress : String}
    {chosen : UTxO} (isChosen :
      (((if (sortedByLovelace (rest.filter UTxO.isCollateralCandidate)).any
            fun u => decide (COLLATERAL_LOVELACE ≤ u.getLovelace) then none
          else (sortedByLovelace (forcedInputs.filter fun u =>
            decide (u.address.toLower = senderAddress.toLower) && u.isCollateralCandidate &&
              decide (COLLATERAL_LOVELACE ≤ u.getLovelace))).head?).or
        ((sortedByLovelace (rest.filter UTxO.isCollateralCandidate)).find? fun u =>
          decide (COLLATERAL_LOVELACE ≤ u.getLovelace))).or
        (sortedByLovelace (rest.filter UTxO.isCollateralCandidate)).getLast?) = some chosen) :
    ChosenCollateral rest forcedInputs senderAddress chosen := by
  have candidates {u : UTxO} : u ∈ sortedByLovelace (rest.filter UTxO.isCollateralCandidate) ↔
      u ∈ rest ∧ u.AdaOnly := by
    rw [mem_sortedByLovelace, List.mem_filter, UTxO.isCollateralCandidate_iff]
  have sorted := pairwise_sortedByLovelace (rest.filter UTxO.isCollateralCandidate)
  generalize sortedByLovelace (rest.filter UTxO.isCollateralCandidate) = pool at *
  have reaches : (pool.any fun u => decide (COLLATERAL_LOVELACE ≤ u.getLovelace)) = true ↔
      ∃ u ∈ rest, u.ReachesFloor := by
    simp only [List.any_eq_true, decide_eq_true_eq, candidates, UTxO.ReachesFloor, and_assoc]
  have eligible {u : UTxO} : u ∈ sortedByLovelace (forcedInputs.filter fun u =>
      decide (u.address.toLower = senderAddress.toLower) && u.isCollateralCandidate &&
        decide (COLLATERAL_LOVELACE ≤ u.getLovelace)) ↔
        ForcedCollateral forcedInputs senderAddress u := by
    simp only [mem_sortedByLovelace, List.mem_filter, Bool.and_eq_true, decide_eq_true_eq,
      UTxO.isCollateralCandidate_iff, ForcedCollateral, UTxO.ReachesFloor, and_assoc]
  by_cases someReaches : ∃ u ∈ rest, u.ReachesFloor
  · rw [if_pos (reaches.mpr someReaches), Option.none_or] at isChosen
    obtain ⟨u, uMem, uReaches⟩ := someReaches
    have found : ∃ hit, (pool.find? fun u => decide (COLLATERAL_LOVELACE ≤ u.getLovelace)) =
        some hit := by
      rw [← Option.isSome_iff_exists, List.find?_isSome]
      exact ⟨u, candidates.mpr ⟨uMem, uReaches.1⟩, decide_eq_true uReaches.2⟩
    obtain ⟨hit, found⟩ := found
    rw [found, Option.some_or] at isChosen
    cases isChosen
    obtain ⟨hitMem, adaOnly⟩ := candidates.mp (List.mem_of_find?_eq_some found)
    have floor := List.find?_some found
    rw [decide_eq_true_eq] at floor
    exact
      { adaOnly
        smallest := fun _ => ⟨hitMem, ⟨adaOnly, floor⟩, fun other otherMem otherReaches =>
          le_of_find?_sorted sorted found (candidates.mpr ⟨otherMem, otherReaches.1⟩)
            (decide_eq_true otherReaches.2)⟩
        forced := fun none => absurd ⟨u, uMem, uReaches⟩ none
        largest := fun none => absurd ⟨u, uMem, uReaches⟩ none }
  · rw [if_neg fun any => someReaches (reaches.mp any)] at isChosen
    have noHit : (pool.find? fun u => decide (COLLATERAL_LOVELACE ≤ u.getLovelace)) = none := by
      rw [List.find?_eq_none]
      intro u uMem floor
      obtain ⟨inRest, adaOnly⟩ := candidates.mp uMem
      exact someReaches ⟨u, inRest, adaOnly, of_decide_eq_true floor⟩
    rw [noHit, Option.or_none] at isChosen
    rcases Option.or_eq_some_iff.mp isChosen with isForced | ⟨noForced, last⟩
    · have eligibleChosen := eligible.mp (List.mem_of_head? isForced)
      exact
        { adaOnly := eligibleChosen.2.2.1
          smallest := fun some => absurd some someReaches
          forced := fun _ _ => eligibleChosen
          largest := fun _ none => absurd ⟨chosen, eligibleChosen⟩ none }
    · obtain ⟨inRest, adaOnly⟩ := candidates.mp (List.mem_of_getLast? last)
      rw [List.head?_eq_none_iff] at noForced
      exact
        { adaOnly
          smallest := fun some => absurd some someReaches
          forced := fun _ ⟨u, isEligible⟩ =>
            absurd (noForced ▸ eligible.mpr isEligible) List.not_mem_nil
          largest := fun _ _ => ⟨inRest, fun other otherMem otherAdaOnly =>
            le_of_getLast?_sorted sorted last (candidates.mpr ⟨otherMem, otherAdaOnly⟩)⟩ }

/-! ## Funding and risk -/

/-- The lovelace the collateral return gives back. -/
def Collateral.returned (collateral : Collateral) : Int :=
  (collateral.collateralReturn.map Prod.snd).getD 0

/-- The lovelace lost when the script phase fails. -/
def Collateral.atRisk (collateral : Collateral) : Int :=
  (collateral.collateralUtxos.map UTxO.getLovelace).sum - collateral.returned

/-- The outputs of the pool that are not the collateral. -/
def othersThan (chosen : UTxO) (rest : List UTxO) : List UTxO :=
  rest.filter fun u => decide (u ≠ chosen)

/-- Can what exceeds the collateral floor form an output of its own? -/
def ExcessFormsOutput (minimumOutputLovelaces : String → Int → Int) (chosen : UTxO) : Prop :=
  COLLATERAL_LOVELACE < chosen.getLovelace ∧
    minimumOutputLovelaces chosen.address (chosen.getLovelace - COLLATERAL_LOVELACE) ≤
      chosen.getLovelace - COLLATERAL_LOVELACE

/-- What the collateral returns and what is left to fund the transaction. -/
structure SettledCollateral (minimumOutputLovelaces : String → Int → Int)
    (rest forcedInputs : List UTxO) (requiredLovelace : Int) (chosen : UTxO)
    (collateral : Collateral) : Prop where
  single : collateral.collateralUtxos = [chosen]
  conserved : collateral.returned + collateral.atRisk = chosen.getLovelace
  returned : ExcessFormsOutput minimumOutputLovelaces chosen →
    collateral.collateralReturn = some (chosen.address, chosen.getLovelace - COLLATERAL_LOVELACE) ∧
      collateral.atRisk = COLLATERAL_LOVELACE
  kept : ¬ ExcessFormsOutput minimumOutputLovelaces chosen → collateral.collateralReturn = none
  noneForced : ∀ u ∈ collateral.fundingUtxos, u ∉ forcedInputs
  others : ∀ u, u ≠ chosen → (u ∈ collateral.fundingUtxos ↔ u ∈ rest)
  leftOut : chosen ∉ collateral.fundingUtxos ↔ chosen ∈ forcedInputs ∨
    requiredLovelace + FEE_BUFFER_LOVELACE + MIN_CHANGE_LOVELACE ≤
      ((othersThan chosen rest).map UTxO.getLovelace).sum

section Settle

variable {minimumOutputLovelaces : String → Int → Int} {rest forcedInputs : List UTxO}
  {requiredLovelace : Int} {senderAddress : String} {collateral : Collateral}

theorem setupCollateral_settled
    (refs : ∀ u ∈ rest, ∀ v, v ∈ rest ∨ v ∈ forcedInputs → u.ref = v.ref → u = v)
    (disjoint : ∀ u ∈ forcedInputs, u ∉ rest)
    (set : setupCollateral minimumOutputLovelaces rest requiredLovelace forcedInputs senderAddress =
      .ok collateral) :
    ∃ chosen, ChosenCollateral rest forcedInputs senderAddress chosen ∧
      SettledCollateral minimumOutputLovelaces rest forcedInputs requiredLovelace chosen
        collateral := by
  simp only [setupCollateral] at set
  split at set
  · cases set
  · rename_i chosen isChosen
    cases set
    have choice : ChosenCollateral rest forcedInputs senderAddress chosen :=
      chosenCollateral isChosen
    refine ⟨chosen, choice, ?_⟩
    generalize pickedEq : (if (((rest.filter UTxO.isCollateralCandidate).mergeSort fun a b =>
        decide (a.getLovelace ≤ b.getLovelace)).any
          fun u => decide (COLLATERAL_LOVELACE ≤ u.getLovelace)) = true then none
      else ((forcedInputs.filter fun u =>
        decide (u.address.toLower = senderAddress.toLower) && u.isCollateralCandidate &&
          decide (COLLATERAL_LOVELACE ≤ u.getLovelace)).mergeSort fun a b =>
            decide (a.getLovelace ≤ b.getLovelace)).head?) = picked at isChosen
    have origin : (picked = some chosen ∧ chosen ∈ forcedInputs) ∨
        (picked = none ∧ chosen ∈ rest) := by
      cases picked with
      | some u =>
          rw [Option.some_or, Option.some_or] at isChosen
          cases isChosen
          rw [Option.ite_none_left_eq_some] at pickedEq
          have sortedMem := List.mem_mergeSort.mp (List.mem_of_head? pickedEq.2)
          exact Or.inl ⟨rfl, (List.mem_filter.mp sortedMem).1⟩
      | none =>
          rw [Option.none_or] at isChosen
          have fromPool {u : UTxO} (sortedMem : u ∈ (rest.filter UTxO.isCollateralCandidate).mergeSort
              fun a b => decide (a.getLovelace ≤ b.getLovelace)) : u ∈ rest :=
            (List.mem_filter.mp (List.mem_mergeSort.mp sortedMem)).1
          rcases Option.or_eq_some_iff.mp isChosen with found | ⟨-, last⟩
          · exact Or.inr ⟨rfl, fromPool (List.mem_of_find?_eq_some found)⟩
          · exact Or.inr ⟨rfl, fromPool (List.mem_of_getLast? last)⟩
    have others : (rest.filter fun u => decide (u.ref ≠ chosen.ref)) = othersThan chosen rest := by
      refine List.filter_congr fun u uMem => ?_
      have same : u.ref ≠ chosen.ref ↔ u ≠ chosen :=
        not_congr ⟨refs u uMem chosen (origin.symm.imp And.right And.right), congrArg UTxO.ref⟩
      exact decide_eq_decide.mpr same
    rw [others]
    have notThere : chosen ∉ othersThan chosen rest := fun chosenMem =>
      of_decide_eq_true (List.mem_filter.mp chosenMem).2 rfl
    have mem_others {u : UTxO} (different : u ≠ chosen) : u ∈ othersThan chosen rest ↔ u ∈ rest := by
      rw [othersThan, List.mem_filter, decide_eq_true_eq]
      exact and_iff_left different
    have fromRest {u : UTxO} (uMem : u ∈ othersThan chosen rest) : u ∈ rest :=
      (List.mem_filter.mp uMem).1
    have excess : 0 < chosen.getLovelace - COLLATERAL_LOVELACE ∧
        minimumOutputLovelaces chosen.address (chosen.getLovelace - COLLATERAL_LOVELACE) ≤
          chosen.getLovelace - COLLATERAL_LOVELACE ↔
            ExcessFormsOutput minimumOutputLovelaces chosen := by
      rw [Int.sub_pos]
      exact Iff.rfl
    refine
      { single := rfl
        conserved := by
          simp only [Collateral.atRisk, List.map_cons, List.map_nil, List.sum_singleton]
          omega
        returned := fun forms => ?_
        kept := fun whole => if_neg fun forms => whole (excess.mp forms)
        noneForced := fun u uMem => ?_
        others := fun u different => ?_
        leftOut := ?_ }
    · have formed := excess.mpr forms
      refine ⟨if_pos formed, ?_⟩
      simp only [Collateral.atRisk, Collateral.returned, if_pos formed, List.map_cons,
        List.map_nil, List.sum_singleton, Option.map_some, Option.getD_some]
      omega
    · simp only at uMem
      split at uMem
      · exact fun isForced => disjoint u isForced (fromRest uMem)
      · rename_i offered
        rcases List.mem_append.mp uMem with other | isChosen
        · exact fun isForced => disjoint u isForced (fromRest other)
        · cases List.mem_singleton.mp isChosen
          rcases origin with ⟨isForced, -⟩ | ⟨-, inRest⟩
          · exact absurd (Or.inl (isForced ▸ rfl)) offered
          · exact fun isForced => disjoint chosen isForced inRest
    · simp only
      split
      · exact mem_others different
      · rw [List.mem_append, mem_others different, List.mem_singleton]
        exact or_iff_left different
    · rcases origin with ⟨isForced, forcedMem⟩ | ⟨notForced, inRest⟩
      · rw [if_pos (Or.inl (isForced ▸ rfl))]
        exact iff_of_true notThere (Or.inl forcedMem)
      · have unforced : chosen ∉ forcedInputs := fun isForced => disjoint chosen isForced inRest
        rw [notForced]
        split
        · rename_i covers
          exact iff_of_true notThere (Or.inr (covers.resolve_left (by simp)))
        · rename_i short
          refine iff_of_false (fun left => left ?_) ?_
          · exact List.mem_append_right _ (List.mem_singleton_self chosen)
          · rintro (isForced | covers)
            · exact unforced isForced
            · exact short (Or.inr covers)

/-- Only a wallet without an ADA-only output is refused. -/
theorem setupCollateral_refused {error : BuildError}
    (refused : setupCollateral minimumOutputLovelaces rest requiredLovelace forcedInputs
      senderAddress = .error error) :
    (∀ u ∈ rest, ¬ u.AdaOnly) ∧ ∀ u, ¬ ForcedCollateral forcedInputs senderAddress u := by
  simp only [setupCollateral] at refused
  split at refused
  · rename_i none
    simp only [Option.or_eq_none_iff, List.getLast?_eq_none_iff] at none
    obtain ⟨⟨noForced, -⟩, empty⟩ := none
    refine ⟨fun u uMem adaOnly => ?_, ?_⟩
    · have candidate : u ∈ sortedByLovelace (rest.filter UTxO.isCollateralCandidate) :=
        mem_sortedByLovelace.mpr
          (List.mem_filter.mpr ⟨uMem, UTxO.isCollateralCandidate_iff.mpr adaOnly⟩)
      rw [sortedByLovelace, empty] at candidate
      cases candidate
    · rintro u ⟨uMem, sender, adaOnly, floor⟩
      rw [empty, if_neg (by simp), List.head?_eq_none_iff] at noForced
      have eligible : u ∈ sortedByLovelace (forcedInputs.filter fun u =>
          decide (u.address.toLower = senderAddress.toLower) && u.isCollateralCandidate &&
            decide (COLLATERAL_LOVELACE ≤ u.getLovelace)) := by
        refine mem_sortedByLovelace.mpr (List.mem_filter.mpr ⟨uMem, ?_⟩)
        simp only [Bool.and_eq_true, decide_eq_true_eq, UTxO.isCollateralCandidate_iff]
        exact ⟨⟨sender, adaOnly⟩, floor⟩
      rw [sortedByLovelace, noForced] at eligible
      cases eligible
  · cases refused

end Settle

/-- Dividing the outputs refuses exactly a forced input that is also referenced or protected
and else leaves the forced inputs and a pool apart from them.  The collateral is the smallest
output of the pool that reaches the floor, else a forced input of the sender that does, else
the largest; its excess is returned where it forms an output, and it funds the transaction
unless it is forced or the other outputs suffice. -/
theorem collateral_partitioned (minimumOutputLovelaces : String → Int → Int)
    (utxos : List UTxO) (distinctRefs : (utxos.map UTxO.key).Nodup)
    (forceInputs referenced protectInputs : List OutRef) (includeRefScriptUtxos : Bool)
    (requiredLovelace : Int) (senderAddress : String) :
    match partitionForcedInputs utxos forceInputs referenced protectInputs
        includeRefScriptUtxos with
    | .error _ =>
        ∃ ref ∈ forceInputs, ref.key ∈ referenced ∨ ref.key ∈ protectInputs.map OutRef.key
    | .ok partition =>
        DividedInputs utxos forceInputs referenced protectInputs partition ∧
          match setupCollateral minimumOutputLovelaces partition.rest requiredLovelace
              partition.forced senderAddress with
          | .error _ => (∀ u ∈ partition.rest, ¬ u.AdaOnly) ∧
              ∀ u, ¬ ForcedCollateral partition.forced senderAddress u
          | .ok collateral => ∃ chosen,
              ChosenCollateral partition.rest partition.forced senderAddress chosen ∧
                SettledCollateral minimumOutputLovelaces partition.rest partition.forced
                  requiredLovelace chosen collateral := by
  split
  · rename_i refused
    exact partitionForcedInputs_refused refused
  · rename_i partition divided
    have parts := partitionForcedInputs_divided divided
    refine ⟨parts, ?_⟩
    split
    · rename_i refused
      exact setupCollateral_refused refused
    · rename_i collateral set
      refine setupCollateral_settled (fun u uMem v vMem sameRef => ?_) parts.disjoint set
      have vListed : v ∈ utxos :=
        vMem.elim (parts.fromUtxos v) fun isForced => ((parts.forced v).mp isForced).1
      exact List.inj_on_of_nodup_map distinctRefs (parts.fromUtxos u uMem) vListed
        (congrArg OutRef.key sameRef)

/-! ### A sample wallet -/

/-- A forced ADA-only input of the sender and an output with a token. -/
def sampleForced : UTxO := ⟨⟨"aa", 0⟩, "addr1", [⟨lovelace, 6000000⟩], none, none⟩

def sampleTokens : UTxO :=
  ⟨⟨"bb", 1⟩, "addr1", [⟨lovelace, 3000000⟩, ⟨text "token", 5⟩], none, none⟩

theorem collateral_partitioned_sample :
    ∃ collateral chosen, ChosenCollateral [sampleTokens] [sampleForced] "addr1" chosen ∧
      SettledCollateral (fun _ _ => 1000000) [sampleTokens] [sampleForced] 10000000 chosen
        collateral := by
  have partitioned := collateral_partitioned (fun _ _ => 1000000) [sampleForced, sampleTokens]
    (by decide +kernel) [⟨"AA", 0⟩] [] [] false 10000000 "addr1"
  have divided : partitionForcedInputs [sampleForced, sampleTokens] [⟨"AA", 0⟩] [] [] false =
      .ok ⟨[sampleForced], [sampleTokens]⟩ := by decide +kernel
  have set : setupCollateral (fun _ _ => 1000000) [sampleTokens] 10000000 [sampleForced] "addr1" =
      .ok ⟨[sampleForced], [sampleTokens], some ("addr1", 1000000)⟩ := by decide +kernel
  rw [divided] at partitioned
  simp only [set] at partitioned
  exact ⟨_, partitioned.2⟩

/-- A forced collateral stays out of the funding also when the other outputs fall short. -/
theorem collateral_leftOut_uncovered :
    ∃ partition collateral,
      partitionForcedInputs [sampleForced, sampleTokens] [⟨"AA", 0⟩] [] [] false = .ok partition ∧
        setupCollateral (fun _ _ => 1000000) partition.rest 10000000 partition.forced "addr1" =
            .ok collateral ∧
          collateral.collateralUtxos = [sampleForced] ∧
            ¬ (sampleForced ∉ collateral.fundingUtxos ↔
              10000000 + FEE_BUFFER_LOVELACE + MIN_CHANGE_LOVELACE ≤
                ((othersThan sampleForced partition.rest).map UTxO.getLovelace).sum) :=
  ⟨⟨[sampleForced], [sampleTokens]⟩, ⟨[sampleForced], [sampleTokens], some ("addr1", 1000000)⟩,
    by decide +kernel, by decide +kernel, rfl, by decide +kernel⟩

end Odatano
