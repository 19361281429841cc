import Odatano.PlaceholderRanks
import Odatano.ServedRows

/-!
# The ledger view of a transaction

`ledgerInputOrder` and `ledgerView` of `srv/utils/mappers.ts`, through which every backend passes
what it is told about a transaction.  The sources order the inputs differently, and some of them
report what the ledger did not apply.
-/

namespace Odatano

/-! ## Input order -/

/-- The output that an input refers to, as it is compared. -/
def TxInputLine.ref (input : TxInputLine) : InputRef :=
  ⟨JsString.ofText input.txHash.chars, input.outputIndex⟩

/-- Regular inputs come first, then collateral, then reference inputs. -/
def TxInputLine.rank (input : TxInputLine) : Nat :=
  if input.isReference then 2 else if input.isCollateral then 1 else 0

/-- `rank(a) - rank(b) || compareOutRef(a, b)`. -/
def compareInputLines (a b : TxInputLine) : Ordering :=
  match compare a.rank b.rank with
  | .eq => compareOutRef a.ref b.ref
  | cmp => cmp

def ledgerInputOrder (inputs : List TxInputLine) : List TxInputLine :=
  inputs.mergeSort fun a b => (compareInputLines a b).isLE

/-- The transaction as the ledger applied it.  Unknown validity keeps what the source reported. -/
def ledgerView (t : Transaction) : Transaction :=
  let inputs := ledgerInputOrder t.inputs
  match t.spendsCollaterals with
  | none => { t with inputs }
  | some failed =>
      { t with
        inputs := if failed then inputs.filter fun i => i.isCollateral || i.isReference else inputs
        outputs := t.outputs.filter fun o => if failed then o.isCollateral else !o.isCollateral
        mint := if failed then none else t.mint }

/-- Where an input stands in the order. -/
def TxInputLine.place (input : TxInputLine) : Nat ×ₗ JsString ×ₗ Nat :=
  toLex (input.rank, toLex (input.ref.txHash.toLowerCase, input.ref.outputIndex))

theorem compareOutRef_isLE (a b : InputRef) :
    (compareOutRef a b).isLE = true ↔
      toLex (a.txHash.toLowerCase, a.outputIndex) ≤
        toLex (b.txHash.toLowerCase, b.outputIndex) := by
  rw [Prod.Lex.toLex_le_toLex, compareOutRef]
  rcases lt_trichotomy a.txHash.toLowerCase b.txHash.toLowerCase with less | same | more
  · simp [less]
  · simp [same, Nat.isLE_compare]
  · simp [more, more.not_gt, more.ne']

theorem compareInputLines_isLE (a b : TxInputLine) :
    (compareInputLines a b).isLE = true ↔ a.place ≤ b.place := by
  rw [TxInputLine.place, TxInputLine.place, Prod.Lex.toLex_le_toLex, compareInputLines]
  rcases lt_trichotomy a.rank b.rank with less | same | more
  · simp [Nat.compare_eq_lt.mpr less, less]
  · simp [same, compareOutRef_isLE]
  · simp [Nat.compare_eq_gt.mpr more, more.not_gt, more.ne']

theorem ledgerInputOrder_eq (inputs : List TxInputLine) :
    ledgerInputOrder inputs = sortByKey TxInputLine.place inputs := by
  have same (a b : TxInputLine) : (compareInputLines a b).isLE = decide (a.place ≤ b.place) := by
    rw [Bool.eq_iff_iff, compareInputLines_isLE, decide_eq_true_iff]
  simp only [ledgerInputOrder, sortByKey, same]

/-! ## What the ledger applies -/

/-- After a phase-2 failure only collateral and reference inputs remain. -/
def appliedInput (spendsCollaterals : Option Bool) (input : TxInputLine) : Bool :=
  match spendsCollaterals with
  | some true => input.isCollateral || input.isReference
  | _ => true

/-- The collateral return is an output of a failed transaction only, and its only one. -/
def appliedOutput (spendsCollaterals : Option Bool) (output : TxOutputLine) : Bool :=
  match spendsCollaterals with
  | some failed => if failed then output.isCollateral else !output.isCollateral
  | none => true

/-- A transaction as a source reports it: every class of its inputs is a set of references, a failed
script has collateral, and every other transaction spends something. -/
structure Transaction.Reported (t : Transaction) : Prop where
  refs : ∀ input ∈ t.inputs, input.ref.txHash.IsHex ∧ input.ref.txHash.length = 64
  distinct : (t.inputs.map TxInputLine.place).Nodup
  collateral : t.spendsCollaterals = some true → ∃ input ∈ t.inputs, input.isCollateral = true
  spends : t.spendsCollaterals = some false →
    ∃ input ∈ t.inputs, input.isCollateral = false ∧ input.isReference = false

/-- Another source reports the same transaction, compared by some columns of its lines.  It may
order the inputs differently and tell less or more of what the ledger did not apply. -/
structure SameTransaction {α β : Type} (line : TxInputLine → α) (made : TxOutputLine → β)
    (t u : Transaction) : Prop where
  validity : u.spendsCollaterals = t.spendsCollaterals
  inputs : ((u.inputs.filter (appliedInput t.spendsCollaterals)).map line).Perm
    ((t.inputs.filter (appliedInput t.spendsCollaterals)).map line)
  outputs : (u.outputs.filter (appliedOutput t.spendsCollaterals)).map made =
    (t.outputs.filter (appliedOutput t.spendsCollaterals)).map made
  mint : t.spendsCollaterals ≠ some true → u.mint = t.mint

/-- The view keeps what the ledger applied. -/
theorem ledgerView_eq (t : Transaction) :
    ledgerView t = { t with
      inputs := (sortByKey TxInputLine.place t.inputs).filter (appliedInput t.spendsCollaterals)
      outputs := t.outputs.filter (appliedOutput t.spendsCollaterals)
      mint := if t.spendsCollaterals = some true then none else t.mint } := by
  rw [ledgerView, ledgerInputOrder_eq]
  cases validity : t.spendsCollaterals with
  | none =>
      have inputs : (sortByKey TxInputLine.place t.inputs).filter (appliedInput none) =
          sortByKey TxInputLine.place t.inputs := List.filter_eq_self.mpr fun _ _ => rfl
      have outputs : t.outputs.filter (appliedOutput none) = t.outputs :=
        List.filter_eq_self.mpr fun _ _ => rfl
      rw [inputs, outputs]
      rfl
  | some failed =>
      cases failed with
      | true => rfl
      | false =>
          have inputs : (sortByKey TxInputLine.place t.inputs).filter (appliedInput (some false)) =
              sortByKey TxInputLine.place t.inputs := List.filter_eq_self.mpr fun _ _ => rfl
          rw [inputs]
          rfl

@[simp] theorem spendsCollaterals_ledgerView (t : Transaction) :
    (ledgerView t).spendsCollaterals = t.spendsCollaterals := by
  rw [ledgerView_eq]

theorem inputs_ledgerView (t : Transaction) :
    (ledgerView t).inputs =
      (sortByKey TxInputLine.place t.inputs).filter (appliedInput t.spendsCollaterals) := by
  rw [ledgerView_eq]

theorem outputs_ledgerView (t : Transaction) :
    (ledgerView t).outputs = t.outputs.filter (appliedOutput t.spendsCollaterals) := by
  rw [ledgerView_eq]

theorem mem_inputs_ledgerView {t : Transaction} {input : TxInputLine} :
    input ∈ (ledgerView t).inputs ↔
      input ∈ t.inputs ∧ appliedInput t.spendsCollaterals input = true := by
  rw [inputs_ledgerView, List.mem_filter, mem_sortByKey]

section View

variable {t u : Transaction}

theorem Transaction.Reported.distinct_applied (reported : t.Reported) :
    ((t.inputs.filter (appliedInput t.spendsCollaterals)).map TxInputLine.place).Nodup :=
  reported.distinct.sublist (List.filter_sublist.map _)

theorem ascending_inputs_ledgerView (t : Transaction) :
    (ledgerView t).inputs.Pairwise fun a b => a.place ≤ b.place :=
  inputs_ledgerView t ▸ (sortByKey_ascending _ _).filter _

theorem perm_inputs_ledgerView (t : Transaction) :
    (ledgerView t).inputs.Perm (t.inputs.filter (appliedInput t.spendsCollaterals)) :=
  inputs_ledgerView t ▸ (sortByKey_perm _ _).filter _

theorem Transaction.Reported.distinct_ledgerView (reported : t.Reported) :
    ((ledgerView t).inputs.map TxInputLine.place).Nodup :=
  ((perm_inputs_ledgerView t).map _).nodup_iff.mpr reported.distinct_applied

/-! ## One view for every source -/

/-- The inputs of the view do not depend on the source. -/
theorem map_inputs_ledgerView {α β : Type} {line : TxInputLine → α} {made : TxOutputLine → β}
    (determined : ∀ a b, line a = line b → a.place = b.place) (reported : t.Reported)
    (same : SameTransaction line made t u) :
    (ledgerView u).inputs.map line = (ledgerView t).inputs.map line := by
  refine map_eq_of_perm_map TxInputLine.place determined reported.distinct_ledgerView
    (ascending_inputs_ledgerView t) (ascending_inputs_ledgerView u)
    (((perm_inputs_ledgerView u).map line).trans ?_)
  rw [same.validity]
  exact same.inputs.trans ((perm_inputs_ledgerView t).map line).symm

theorem map_outputs_ledgerView {α β : Type} {line : TxInputLine → α} {made : TxOutputLine → β}
    (same : SameTransaction line made t u) :
    (ledgerView u).outputs.map made = (ledgerView t).outputs.map made := by
  rw [outputs_ledgerView, outputs_ledgerView, same.validity]
  exact same.outputs

theorem mint_ledgerView {α β : Type} {line : TxInputLine → α} {made : TxOutputLine → β}
    (same : SameTransaction line made t u) : (ledgerView u).mint = (ledgerView t).mint := by
  rw [ledgerView_eq, ledgerView_eq, same.validity]
  by_cases failed : t.spendsCollaterals = some true
  · exact (if_pos failed).trans (if_pos failed).symm
  · exact ((if_neg failed).trans (same.mint failed)).trans (if_neg failed).symm

/-- The view is its own view. -/
theorem ledgerView_ledgerView (reported : t.Reported) :
    ledgerView (ledgerView t) = ledgerView t := by
  have inputs : (ledgerView (ledgerView t)).inputs = (ledgerView t).inputs := by
    rw [inputs_ledgerView, spendsCollaterals_ledgerView, ← sortByKey_unique _
      reported.distinct_ledgerView (List.Perm.refl _) (ascending_inputs_ledgerView t)]
    exact List.filter_eq_self.mpr fun _ member => (mem_inputs_ledgerView.mp member).2
  have outputs : (ledgerView (ledgerView t)).outputs = (ledgerView t).outputs := by
    rw [outputs_ledgerView, spendsCollaterals_ledgerView, outputs_ledgerView, List.filter_filter]
    simp only [Bool.and_self]
  have mint : (ledgerView (ledgerView t)).mint = (ledgerView t).mint := by
    rw [ledgerView_eq (ledgerView t), spendsCollaterals_ledgerView, ledgerView_eq]
    by_cases failed : t.spendsCollaterals = some true
    · exact (if_pos failed).trans (if_pos failed).symm
    · exact if_neg failed
  have kept : ledgerView (ledgerView t) = { ledgerView t with
      inputs := (ledgerView (ledgerView t)).inputs
      outputs := (ledgerView (ledgerView t)).outputs
      mint := (ledgerView (ledgerView t)).mint } := by
    rw [ledgerView_eq (ledgerView t)]
  rw [kept, inputs, outputs, mint]

/-! ## Flags -/

/-- Whether the script failed can be told from the inputs of the view. -/
theorem failsPhase2_ledgerView (reported : t.Reported) {failed : Bool}
    (known : t.spendsCollaterals = some failed) :
    failsPhase2 (ledgerView t).inputs = (ledgerView t).phase2Failed := by
  rw [Transaction.phase2Failed, spendsCollaterals_ledgerView, known, Option.getD_some]
  cases failed with
  | true =>
      obtain ⟨input, inputMem, isCollateral⟩ := reported.collateral known
      have kept : appliedInput t.spendsCollaterals input = true := by
        rw [known, appliedInput, isCollateral, Bool.true_or]
      have collateral : ((ledgerView t).inputs.any fun i => i.isCollateral) = true :=
        List.any_eq_true.mpr ⟨input, mem_inputs_ledgerView.mpr ⟨inputMem, kept⟩, isCollateral⟩
      have noRegular : ((ledgerView t).inputs.any fun i => !i.isCollateral && !i.isReference) =
          false := by
        refine List.any_eq_false.mpr fun i iMem regular => ?_
        have applied := (mem_inputs_ledgerView.mp iMem).2
        rw [known, appliedInput] at applied
        rw [← Bool.not_or, applied] at regular
        cases regular
      rw [failsPhase2, collateral, noRegular]
      rfl
  | false =>
      obtain ⟨input, inputMem, noCollateral, noReference⟩ := reported.spends known
      have kept : appliedInput t.spendsCollaterals input = true := by
        rw [known]
        rfl
      have regular : ((ledgerView t).inputs.any fun i => !i.isCollateral && !i.isReference) =
          true := by
        refine List.any_eq_true.mpr ⟨input, mem_inputs_ledgerView.mpr ⟨inputMem, kept⟩, ?_⟩
        rw [noCollateral, noReference]
        rfl
      rw [failsPhase2, regular, Bool.not_true, Bool.and_false]

/-- The outputs of the view are those of a failed transaction, or of one that succeeded. -/
theorem made_ledgerView {failed : Bool} (known : t.spendsCollaterals = some failed) :
    ∀ o ∈ (ledgerView t).outputs, o.isCollateral = (ledgerView t).phase2Failed := by
  intro o oMem
  rw [outputs_ledgerView, known] at oMem
  have applied := (List.mem_filter.mp oMem).2
  rw [Transaction.phase2Failed, spendsCollaterals_ledgerView, known, Option.getD_some]
  cases failed with
  | true => exact applied
  | false => exact (Bool.not_eq_true' _).mp applied

/-! ## Positions -/

theorem rank_cases (input : TxInputLine) : input.rank = 0 ∨ input.rank = 1 ∨ input.rank = 2 := by
  rw [TxInputLine.rank]
  split
  · exact .inr (.inr rfl)
  · split
    · exact .inr (.inl rfl)
    · exact .inl rfl

/-- The inputs of one class. -/
def inputsOfRank (inputs : List TxInputLine) (rank : Nat) : List TxInputLine :=
  inputs.filter fun i => decide (i.rank = rank)

theorem perm_inputsOfRank (inputs : List TxInputLine) :
    ([0, 1, 2].flatMap (inputsOfRank inputs)).Perm inputs := by
  have counted (input : TxInputLine) (rank : Nat) : (inputsOfRank inputs rank).count input =
      if input.rank = rank then inputs.count input else 0 := by
    split
    · rename_i ofRank
      exact List.count_filter (decide_eq_true ofRank)
    · rename_i other
      refine List.count_eq_zero.mpr fun member => other ?_
      exact of_decide_eq_true (List.mem_filter.mp member).2
  refine List.perm_iff_count.mpr fun input => ?_
  simp only [List.flatMap_cons, List.flatMap_nil, List.append_nil, List.count_append, counted]
  rcases rank_cases input with rank | rank | rank <;> simp [rank]

/-- The input order is that of the classes, one after another. -/
theorem sortByKey_place {inputs : List TxInputLine}
    (distinct : (inputs.map TxInputLine.place).Nodup) :
    sortByKey TxInputLine.place inputs =
      [0, 1, 2].flatMap fun rank => sortByKey TxInputLine.place (inputsOfRank inputs rank) := by
  refine (sortByKey_unique _ distinct ?_ ?_).symm
  · refine (List.Perm.flatMap_left _ fun rank _ => ?_).trans (perm_inputsOfRank inputs)
    exact sortByKey_perm _ _
  · refine List.pairwise_flatMap.mpr ⟨fun rank _ => sortByKey_ascending _ _, ?_⟩
    have ascending : [0, 1, 2].Pairwise (· < ·) := by decide
    refine ascending.imp fun less a aMem b bMem => ?_
    have ofRank := of_decide_eq_true (List.mem_filter.mp ((mem_sortByKey _).mp aMem)).2
    have ofRank' := of_decide_eq_true (List.mem_filter.mp ((mem_sortByKey _).mp bMem)).2
    refine Prod.Lex.toLex_le_toLex.mpr (.inl ?_)
    omega

/-- Within a class the inputs come as the ledger sorts their references. -/
theorem refs_sortByKey {inputs : List TxInputLine} (rank : Nat)
    (ofRank : ∀ input ∈ inputs, input.rank = rank)
    (refs : ∀ input ∈ inputs, input.ref.txHash.IsHex ∧ input.ref.txHash.length = 64) :
    (sortByKey TxInputLine.place inputs).map TxInputLine.ref =
      sortInputsLikeBuildooor (inputs.map TxInputLine.ref) := by
  rw [← ledgerInputOrder_eq]
  refine List.map_mergeSort fun a aMem b bMem => ?_
  rw [← compareOutRef_eq_compareInputs (refs a aMem).1 (refs b bMem).1 (refs a aMem).2
    (refs b bMem).2, compareInputLines, ofRank a aMem, ofRank b bMem, Nat.compare_eq_eq.mpr rfl]

/-- Every class of the view is numbered like the set of the ledger. -/
theorem refs_ledgerView (reported : t.Reported) :
    (ledgerView t).inputs.map TxInputLine.ref = [0, 1, 2].flatMap fun rank =>
      sortInputsLikeBuildooor ((inputsOfRank
        (t.inputs.filter (appliedInput t.spendsCollaterals)) rank).map TxInputLine.ref) := by
  rw [inputs_ledgerView, sortByKey_filter _ reported.distinct,
    sortByKey_place reported.distinct_applied, List.map_flatMap]
  refine List.flatMap_congr fun rank _ =>
    refs_sortByKey rank (fun input member => ?_) fun input member => ?_
  · exact of_decide_eq_true (List.mem_filter.mp member).2
  · exact reported.refs input (List.mem_filter.mp (List.mem_filter.mp member).1).1

/-! ## The view -/

/-- A transaction as the ledger applied it. -/
structure IsLedgerView (t view : Transaction) : Prop where
  /-- Every source that reports the transaction gives this view of it. -/
  same : ∀ {α β : Type} (line : TxInputLine → α) (made : TxOutputLine → β) (u : Transaction),
    (∀ a b, line a = line b → a.place = b.place) → SameTransaction line made t u →
      (ledgerView u).inputs.map line = view.inputs.map line ∧
        (ledgerView u).outputs.map made = view.outputs.map made ∧ (ledgerView u).mint = view.mint
  /-- The view is its own view. -/
  again : ledgerView view = view
  /-- The inputs are numbered class by class, and in each class as the ledger numbers its set. -/
  refs : view.inputs.map TxInputLine.ref = [0, 1, 2].flatMap fun rank =>
    sortInputsLikeBuildooor ((inputsOfRank
      (t.inputs.filter (appliedInput t.spendsCollaterals)) rank).map TxInputLine.ref)
  /-- The inputs tell whether the script failed. -/
  phase2 : t.spendsCollaterals.isSome → failsPhase2 view.inputs = t.phase2Failed
  /-- The collateral return is the output of a failed transaction, and of no other. -/
  made : t.spendsCollaterals.isSome → ∀ o ∈ view.outputs, o.isCollateral = t.phase2Failed

/-- Whichever source reports a transaction, and whatever it tells beside what the ledger applied,
the backends deliver the same inputs, outputs and mint, and number the inputs like the ledger. -/
theorem ledgerView_reported (reported : t.Reported) : IsLedgerView t (ledgerView t) where
  same _ _ _ determined same := ⟨map_inputs_ledgerView determined reported same,
    map_outputs_ledgerView same, mint_ledgerView same⟩
  again := ledgerView_ledgerView reported
  refs := refs_ledgerView reported
  phase2 validity := by
    obtain ⟨failed, known⟩ := Option.isSome_iff_exists.mp validity
    rw [failsPhase2_ledgerView reported known, Transaction.phase2Failed,
      spendsCollaterals_ledgerView, Transaction.phase2Failed]
  made validity := by
    obtain ⟨failed, known⟩ := Option.isSome_iff_exists.mp validity
    intro o oMem
    rw [made_ledgerView known o oMem, Transaction.phase2Failed, spendsCollaterals_ledgerView,
      Transaction.phase2Failed]

/-- A delivered transaction can be served, as far as that depends on its flags. -/
theorem servable_ledgerView (reported : t.Reported) (validity : t.spendsCollaterals.isSome)
    (height : t.blockHeight.isSome) (time : t.blockTime.isSome)
    (labels : ∀ label ∈ t.metadata.getD [], ∀ id, metadataIdFor label.label = some id →
      metadataIdFor (.text label.label.toText) = some id)
    (labelled : t.metadata.getD [] ≠ [] → mapTransactionMetadata (t.metadata.getD []) ≠ [])
    (outputs : (t.outputs.map TxOutputLine.outputIndex).Nodup) : (ledgerView t).Servable := by
  obtain ⟨failed, known⟩ := Option.isSome_iff_exists.mp validity
  refine ⟨?_, ?_, failsPhase2_ledgerView reported known, made_ledgerView known, ?_, ?_, ?_⟩
  · rw [ledgerView_eq]
    exact height
  · rw [ledgerView_eq]
    exact time
  · rw [ledgerView_eq]
    exact labels
  · rw [ledgerView_eq]
    exact labelled
  · rw [outputs_ledgerView]
    exact outputs.sublist (List.filter_sublist.map _)

end View

section Sample

/-- The hash of a spent transaction. -/
def spentHash : TxHash where
  chars := String.ofList (List.replicate 64 'c')
  chars_ne empty := by simpa using congrArg String.toList empty

theorem ofText_replicate (count : Nat) :
    JsString.ofText (String.ofList (List.replicate count 'c')) =
      List.replicate count (Fin.ofNat 65536 99) := by
  rw [JsString.ofText, String.toList_ofList]
  induction count with
  | zero => rfl
  | succ count ih =>
      rw [List.replicate_succ, List.flatMap_cons, ih, List.replicate_succ]
      rfl

theorem ofText_spentHash :
    JsString.ofText spentHash.chars = List.replicate 64 (Fin.ofNat 65536 99) :=
  ofText_replicate 64

theorem isHex_spentHash : (JsString.ofText spentHash.chars).IsHex := by
  intro unit unitMem
  rw [ofText_spentHash] at unitMem
  obtain rfl := List.eq_of_mem_replicate unitMem
  exact ⟨12, by decide⟩

def reportedLine (outputIndex : Nat) (isCollateral isReference : Bool) : TxInputLine :=
  ⟨"", [], spentHash, outputIndex, ⟨none, none, none, none, none⟩, isCollateral, isReference⟩

/-- A failed transaction with its declared inputs, outputs and mint. -/
def declaredReport : Transaction :=
  { sampleTx (text "a") (text "block") 1 []
      [sampleOutput, { sampleOutput with outputIndex := 1, isCollateral := true }] with
    spendsCollaterals := some true
    mint := some [⟨text "token", 3⟩]
    inputs := [reportedLine 0 false true, reportedLine 2 false false, reportedLine 1 true false] }

/-- The same transaction from a source that resolves it and reports what the ledger applied. -/
def appliedReport : Transaction :=
  { declaredReport with
    mint := none
    inputs := [{ reportedLine 1 true false with address := "Ae2" }, reportedLine 0 false true]
    outputs := [{ sampleOutput with outputIndex := 1, isCollateral := true }] }

theorem declaredReport_reported : declaredReport.Reported where
  refs := by
    have length : (JsString.ofText spentHash.chars).length = 64 := by
      rw [ofText_spentHash, List.length_replicate]
    intro input inputMem
    rcases List.mem_cons.mp inputMem with rfl | inputMem
    · exact ⟨isHex_spentHash, length⟩
    · rcases List.mem_pair.mp inputMem with rfl | rfl <;> exact ⟨isHex_spentHash, length⟩
  distinct := by
    have ranks : (declaredReport.inputs.map TxInputLine.rank).Nodup := by decide
    refine List.Nodup.of_map (fun place => (ofLex place).1) ?_
    rw [List.map_map]
    exact ranks
  collateral _ := ⟨reportedLine 1 true false, by decide, rfl⟩
  spends succeeded := by cases succeeded

/-- Both sources deliver the collateral, the reference input and the collateral return. -/
theorem ledgerView_reported_sample :
    (ledgerView appliedReport).inputs.map TxInputLine.place =
        (ledgerView declaredReport).inputs.map TxInputLine.place ∧
      (ledgerView appliedReport).outputs = (ledgerView declaredReport).outputs ∧
        failsPhase2 (ledgerView declaredReport).inputs = true := by
  have view := ledgerView_reported declaredReport_reported
  have same : SameTransaction TxInputLine.place id declaredReport appliedReport :=
    ⟨rfl, List.Perm.swap _ _ _, rfl, fun applied => absurd rfl applied⟩
  obtain ⟨inputs, outputs, -⟩ := view.same _ _ _ (fun _ _ equal => equal) same
  rw [List.map_id, List.map_id] at outputs
  exact ⟨inputs, outputs, view.phase2 rfl⟩

end Sample

end Odatano
