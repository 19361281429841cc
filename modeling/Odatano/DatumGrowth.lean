import Odatano.WitnessDatums

/-!
# What written datums add

By how many bytes a transaction grows when the caller's datums take the place of the ones that
Buildooor encoded.
-/

namespace CborItem

def items : CborItem → List CborItem
  | leaf _ _ _ => []
  | node _ items => items

namespace Located

/-- The item stands at its offset among some bytes. -/
def StandsIn (located : Located) (bytes : Bytes) : Prop :=
  located.item.WellFormed ∧ ∃ before after,
    bytes = before ++ located.item.encode ++ after ∧ before.length = located.start

variable {located : Located} {bytes : Bytes}

theorem StandsIn.stop_le (stands : located.StandsIn bytes) : located.stop ≤ bytes.length := by
  obtain ⟨-, before, after, rfl, start⟩ := stands
  rw [stop, ← start, List.length_append, List.length_append]
  omega

theorem standsIn_listFrom {items : List CborItem} (wellFormed : AllWellFormed items)
    (before after : Bytes) (member : located ∈ listFrom before.length items) :
    located.StandsIn (before ++ encodeItems items ++ after) := by
  induction items generalizing before with
  | nil => cases member
  | cons item items ih =>
      have split : before ++ encodeItems (item :: items) ++ after =
          before ++ item.encode ++ encodeItems items ++ after := by
        rw [encodeItems]
        simp only [List.append_assoc]
      rcases List.mem_cons.mp member with rfl | later
      · refine ⟨wellFormed.1, before, encodeItems items ++ after, ?_, rfl⟩
        rw [split, List.append_assoc]
      · rw [split]
        refine ih wellFormed.2 (before ++ item.encode) ?_
        rw [List.length_append]
        exact later

/-- The items of a node stand where it stands. -/
theorem StandsIn.children (stands : located.StandsIn bytes) {child : Located}
    (member : child ∈ located.children) : child.StandsIn bytes := by
  obtain ⟨item, start⟩ := located
  cases item with
  | leaf major argument content => cases member
  | node head items =>
      obtain ⟨wellFormed, before, after, rfl, rfl⟩ := stands
      have split : before ++ (node head items).encode ++ after =
          (before ++ head.encode) ++ encodeItems items ++
            ((if head.count.isNone then [0xff] else []) ++ after) := by
        rw [encode]
        simp only [List.append_assoc]
      rw [split]
      refine standsIn_listFrom wellFormed.2 _ _ ?_
      rw [List.length_append]
      exact member

theorem mem_of_mem_pairs {α : Type} {items : List α} {pair : α × α} (member : pair ∈ pairs items) :
    pair.1 ∈ items ∧ pair.2 ∈ items := by
  induction items using pairs.induct with
  | case1 k v items ih =>
      rcases List.mem_cons.mp member with rfl | later
      · exact ⟨List.mem_cons_self, List.mem_cons_of_mem _ List.mem_cons_self⟩
      · exact ⟨List.mem_cons_of_mem _ (List.mem_cons_of_mem _ (ih later).1),
          List.mem_cons_of_mem _ (List.mem_cons_of_mem _ (ih later).2)⟩
  | case2 items short =>
      cases items with
      | nil => cases member
      | cons k items =>
          cases items with
          | nil => cases member
          | cons v items => exact absurd rfl (short k v items)

/-- The value of a map entry stands where the map stands. -/
theorem StandsIn.entryOf (stands : located.StandsIn bytes) {key : Nat} {entry : Located × Located}
    (found : located.entryOf key = some entry) : entry.2.StandsIn bytes :=
  stands.children (mem_of_mem_pairs (List.mem_of_find?_eq_some found)).2

/-- What stands under tags stands where they stand. -/
theorem StandsIn.untag {start : Nat} {item : CborItem} (stands : (mk item start).StandsIn bytes) :
    (Located.untag start item).StandsIn bytes := by
  induction start, item using Located.untag.induct with
  | case1 start head item isTag ih =>
      rw [Located.untag, if_pos isTag]
      exact ih (stands.children (List.mem_singleton_self _))
  | case2 start head item other =>
      rw [Located.untag, if_neg other]
      exact stands
  | case3 start item other =>
      rw [Located.untag]
      · exact stands
      · exact other

end Located

end CborItem

namespace Odatano

open CborItem DatumPackages

/-- Both parts of a transaction stand in its bytes. -/
theorem standsIn_part {root : CborItem} (wellFormed : root.WellFormed) {index : Nat}
    {part : Located} (found : LedgerBytes.part? root index = some part) :
    part.StandsIn root.encode := by
  have whole : (Located.mk root 0).StandsIn root.encode :=
    ⟨wellFormed, [], [], (List.append_nil _).symm, rfl⟩
  exact whole.children (List.mem_of_getElem? found)

section Growth

variable [DatumPackages]

/-! ## Inline datums -/

/-- Bytes an output gains when its datum is written, negative when it shrinks. -/
def writtenGrowth (outputs : List Located) (row : Nat × Bytes) : Int :=
  match outputs[row.1]?.bind fun out => (inlineDatum? out).bind dataFromCbor with
  | some data => (inlineDatumEntry row.2).length - (inlineDatumEntry (dataToCbor data)).length
  | none => 0

theorem length_writeCallerDatum {outputs : List Located} {bytes written : Bytes}
    {row : Nat × Bytes} (writes : writeCallerDatum outputs bytes row.1 row.2 = .ok written) :
    (written.length : Int) = bytes.length + writtenGrowth outputs row := by
  unfold writeCallerDatum at writes
  split at writes
  · cases writes
  · rename_i out data held
    obtain ⟨found, isOut, datum⟩ := Option.bind_eq_some_iff.mp held
    obtain ⟨read, reads, same⟩ := Option.map_eq_some_iff.mp datum
    obtain ⟨rfl, rfl⟩ := Prod.mk.inj same
    have growth : writtenGrowth outputs row = ((inlineDatumEntry row.2).length : Int) -
        (inlineDatumEntry (dataToCbor read)).length := by
      rw [writtenGrowth, isOut, Option.bind_some, reads]
    dsimp only at writes
    split at writes
    · cases writes
    · rename_i offset place
      cases writes
      obtain ⟨-, stands, -⟩ := List.firstOccurrence_eq_some_iff.mp place
      have short := stands.length_le
      have entry : 0 < (inlineDatumEntry (dataToCbor read)).length := by
        simp [inlineDatumEntry]
      rw [subarray, List.length_drop, List.length_drop, List.length_take] at short
      rw [growth]
      simp only [List.length_append, List.length_take, List.length_drop]
      omega

theorem length_foldlM_writeCallerDatum {outputs : List Located} {rows : List (Nat × Bytes)}
    {bytes written : Bytes}
    (writes : rows.foldlM (fun bytes row => writeCallerDatum outputs bytes row.1 row.2) bytes =
      .ok written) :
    (written.length : Int) = bytes.length + (rows.map (writtenGrowth outputs)).sum := by
  induction rows generalizing bytes with
  | nil =>
      cases writes
      simp
  | cons row rows ih =>
      rw [List.foldlM_cons] at writes
      cases first : writeCallerDatum outputs bytes row.1 row.2 with
      | error message =>
          rw [first] at writes
          cases writes
      | ok next =>
          rw [first] at writes
          rw [ih writes, length_writeCallerDatum first, List.map_cons, List.sum_cons]
          omega

/-- Bytes the transaction gains from the caller's inline datums. -/
def callerGrowth (tx : LedgerBytes) (datums : OrderedMap Nat Bytes) : Int :=
  (datums.rows.map (writtenGrowth tx.outputs)).sum

theorem length_writeCallerDatums {tx written : LedgerBytes} {datums : OrderedMap Nat Bytes}
    (writes : writeCallerDatums tx datums = .ok written) :
    (written.toCbor.length : Int) = tx.toCbor.length + callerGrowth tx datums := by
  unfold writeCallerDatums at writes
  split at writes
  · rename_i nothing
    cases writes
    rw [callerGrowth, nothing]
    simp
  · dsimp only at writes
    cases folded : (datums.rows.mergeSort fun first second =>
        decide (second.1 ≤ first.1)).foldlM
          (fun bytes row => writeCallerDatum tx.outputs bytes row.1 row.2) tx.toCbor with
    | error message =>
        rw [folded] at writes
        cases writes
    | ok bytes =>
        rw [folded] at writes
        have sorted := ((List.mergeSort_perm datums.rows fun first second =>
          decide (second.1 ≤ first.1)).map (writtenGrowth tx.outputs)).sum_eq
        have bytesEq := fromCbor_eq_ok_iff.mp writes
        rw [callerGrowth, ← sorted, ← length_foldlM_writeCallerDatum folded, bytesEq]
        rfl

/-! ## Witness datums -/

/-- The datum list of a transaction's witness set. -/
def witnessList (tx : LedgerBytes) : Option Located :=
  (((LedgerBytes.part? tx.root 1).bind fun witnesses => witnesses.entryOf 4).map
    fun entry => Located.untag entry.2.start entry.2.item).filter fun list => list.item.isArray

/-- The datums of a transaction's witness set. -/
def witnessItems (tx : LedgerBytes) : List CborItem :=
  ((witnessList tx).map fun list => list.item.items).getD []

/-- Bytes that items gain when they are replaced. -/
def replacedGrowth (wanted : OrderedMap Bytes Bytes) (items : List CborItem) : Int :=
  (items.map fun item =>
    ((replacement wanted item.encode).length : Int) - item.encode.length).sum

/-- Bytes the transaction gains from the caller's witness datums, negative when it shrinks. -/
def witnessGrowth (tx : LedgerBytes) (datums : List Bytes) : Int :=
  replacedGrowth ((wantedDatums datums).getD Table.empty) (witnessItems tx)

theorem length_scriptDataHashOf {bytes languageViews hash : Bytes}
    (hashes : scriptDataHashOf bytes languageViews = .ok hash) : hash.length = 32 := by
  unfold scriptDataHashOf at hashes
  split at hashes
  · cases hashes
  · dsimp only at hashes
    split at hashes
    · cases hashes
      exact length_blake2b_256 _
    · split at hashes
      · cases hashes
      · cases hashes
        exact length_blake2b_256 _

omit [DatumPackages] in
theorem length_replacements (wanted : OrderedMap Bytes Bytes) (items : List CborItem) :
    ((items.flatMap fun item => replacement wanted item.encode).length : Int) =
      (encodeItems items).length + replacedGrowth wanted items := by
  induction items with
  | nil => rfl
  | cons item items ih =>
      rw [replacedGrowth] at ih ⊢
      rw [List.flatMap_cons, List.length_append, List.map_cons, List.sum_cons, encodeItems,
        List.length_append]
      push_cast
      omega

omit [DatumPackages] in
/-- Bytes with a rebuilt list are longer by what its items gain. -/
theorem length_rebuilt {bytes : Bytes} {list : Located} (stands : list.StandsIn bytes)
    (isArray : list.item.isArray = true) (wanted : OrderedMap Bytes Bytes) :
    ((bytes.take list.start ++ rebuildDatums bytes list wanted ++
      bytes.drop list.stop).length : Int) =
        bytes.length + replacedGrowth wanted list.item.items := by
  obtain ⟨item, start⟩ := list
  obtain ⟨wellFormed, before, after, rfl, rfl⟩ := stands
  cases item with
  | leaf major argument content => cases isArray
  | node head items =>
      obtain ⟨major, count⟩ := head
      have isMajor : major = 4 := of_decide_eq_true isArray
      subst isMajor
      have built : ((node ⟨4, count⟩ items).encode.length : Int) =
          (CborHead.encode ⟨4, count⟩).length + (encodeItems items).length +
            (if count.isNone then [0xff] else [] : Bytes).length := by
        rw [encode]
        simp only [List.length_append, Nat.cast_add]
      have front : (before ++ (node ⟨4, count⟩ items).encode ++ after).take before.length =
          before := by
        rw [List.append_assoc, List.take_left]
      have back : (before ++ (node ⟨4, count⟩ items).encode ++ after).drop
          (Located.mk (node ⟨4, count⟩ items) before.length).stop = after := by
        rw [Located.stop, ← List.length_append, List.drop_left]
      have length := length_replacements wanted items
      rw [back]
      dsimp only
      rw [front, rebuildDatums_eq wanted wellFormed.2 before after]
      simp only [List.length_append, CborItem.items] at built length ⊢
      omega

omit [DatumPackages] in
/-- A hash that takes the last bytes of an entry leaves the length. -/
theorem length_hashed {bytes hash : Bytes} {last : Nat} (isHash : hash.length = 32)
    (long : ¬ last < 32) (within : last ≤ bytes.length) :
    (bytes.take (last - 32) ++ hash ++ bytes.drop (last - 32 + hash.length)).length =
      bytes.length := by
  simp only [List.length_append, List.length_take, List.length_drop, isHash]
  omega

theorem length_writeWitnessDatums {tx written : LedgerBytes} {datums : List Bytes}
    {languageViews : Bytes} (writes : writeWitnessDatums tx datums languageViews = .ok written) :
    (written.toCbor.length : Int) = tx.toCbor.length + witnessGrowth tx datums := by
  unfold writeWitnessDatums at writes
  split at writes
  · cases writes
  · rename_i wanted collected
    have isWanted : (wantedDatums datums).getD Table.empty = wanted := by
      rw [collected]
      rfl
    split at writes
    · rename_i nothing
      cases writes
      have unchanged : ∀ item ∈ witnessItems tx,
          ((replacement wanted item.encode).length : Int) - item.encode.length = 0 := by
        intro item _
        have none : OrderedMap.get? wanted item.encode = none :=
          Option.eq_none_iff_forall_ne_some.mpr fun datum found =>
            absurd (nothing ▸ OrderedMap.get?_eq_some_iff.mp found) List.not_mem_nil
        rw [replacement, none]
        exact Int.sub_self _
      rw [witnessGrowth, isWanted, replacedGrowth, List.map_congr_left unchanged]
      simp
    · dsimp only at writes
      split at writes
      · cases writes
      · rename_i list found
        obtain ⟨isList, isArray⟩ := Option.filter_eq_some_iff.mp found
        obtain ⟨entry, isEntry, rfl⟩ := Option.map_eq_some_iff.mp isList
        obtain ⟨witnesses, isPart, inMap⟩ := Option.bind_eq_some_iff.mp isEntry
        have stands : (Located.untag entry.2.start entry.2.item).StandsIn tx.toCbor :=
          ((standsIn_part tx.wellFormed isPart).entryOf inMap).untag
        have growth : witnessGrowth tx datums = replacedGrowth wanted
            (Located.untag entry.2.start entry.2.item).item.items := by
          rw [witnessGrowth, isWanted, witnessItems, witnessList, found]
          rfl
        rw [growth]
        rw [← length_rebuilt stands isArray wanted]
        generalize tx.toCbor.take (Located.untag entry.2.start entry.2.item).start ++
          rebuildDatums tx.toCbor (Located.untag entry.2.start entry.2.item) wanted ++
            tx.toCbor.drop (Located.untag entry.2.start entry.2.item).stop = bytes at writes ⊢
        split at writes
        · cases writes
        · rename_i hashEntry hashFound
          obtain ⟨body, isBody, inBody⟩ := Option.bind_eq_some_iff.mp hashFound
          obtain ⟨root, parsed, bodyPart⟩ := Option.bind_eq_some_iff.mp isBody
          obtain ⟨rootWellFormed, rootBytes⟩ := wellFormed_of_parse parsed
          have stands := (standsIn_part rootWellFormed bodyPart).entryOf inBody
          have within := stands.stop_le
          rw [← Located.endOf_eq_stop stands.1, rootBytes] at within
          cases hashes : scriptDataHashOf bytes languageViews with
          | error message =>
              rw [hashes] at writes
              cases writes
          | ok hash =>
              rw [hashes] at writes
              change (if hashEntry.2.endOf < 32 then _ else _) = _ at writes
              split at writes
              · cases writes
              · rename_i long
                have final := congrArg List.length (fromCbor_eq_ok_iff.mp writes)
                rw [length_hashed (length_scriptDataHashOf hashes) long within] at final
                exact congrArg Nat.cast final.symm

end Growth

end Odatano
