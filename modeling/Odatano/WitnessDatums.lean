import Odatano.PatchedDatums

/-!
# Witness datums

What `writeWitnessDatums` makes of a transaction that Buildooor built, against the datums that the
script inputs need.
-/

namespace Odatano

open CborItem DatumPackages

/-! ## Layout -/

/-- An item under tags. -/
def tagged (tags : List CborArgument) (item : CborItem) : CborItem :=
  tags.foldr (fun argument item => node ⟨6, some argument⟩ [item]) item

def encodeTags (tags : List CborArgument) : Bytes :=
  tags.flatMap fun argument => CborHead.encode ⟨6, some argument⟩

theorem encodeTags_cons (argument : CborArgument) (tags : List CborArgument) :
    encodeTags (argument :: tags) = CborHead.encode ⟨6, some argument⟩ ++ encodeTags tags :=
  List.flatMap_cons

theorem encode_tagged (tags : List CborArgument) (item : CborItem) :
    (tagged tags item).encode = encodeTags tags ++ item.encode := by
  induction tags with
  | nil => rfl
  | cons argument tags ih =>
      have unfolded : tagged (argument :: tags) item =
          node ⟨6, some argument⟩ [tagged tags item] := rfl
      rw [unfolded, encodeTags_cons, List.append_assoc, ← ih]
      simp [encode, encodeItems]

theorem untag_tagged (tags : List CborArgument) {item : CborItem} (isArray : item.isArray = true)
    (start : Nat) : Located.untag start (tagged tags item) =
      ⟨item, start + (encodeTags tags).length⟩ := by
  induction tags generalizing start with
  | nil =>
      cases item with
      | leaf major argument content => cases isArray
      | node head items =>
          have isList : head.major = 4 := of_decide_eq_true isArray
          have noTag : ¬head.major = 6 := by
            rw [isList]
            decide
          cases items with
          | nil => rfl
          | cons first items =>
              cases items with
              | nil => exact if_neg noTag
              | cons second items => rfl
  | cons argument tags ih =>
      have unfolded : tagged (argument :: tags) item =
          node ⟨6, some argument⟩ [tagged tags item] := rfl
      rw [unfolded, Located.untag, if_pos rfl, ih, encodeTags_cons, List.length_append,
        Nat.add_assoc]

theorem wellFormed_tagged (tags : List CborArgument) {item : CborItem} :
    (tagged tags item).WellFormed ↔ item.WellFormed := by
  induction tags with
  | nil => rfl
  | cons argument tags ih =>
      have unfolded : tagged (argument :: tags) item =
          node ⟨6, some argument⟩ [tagged tags item] := rfl
      have isTag : IsNode ⟨6, some argument⟩ 1 := ⟨Or.inr (Or.inr rfl), rfl⟩
      rw [unfolded, ← ih]
      exact ⟨fun wellFormed => wellFormed.2.1, fun wellFormed => ⟨isTag, wellFormed, trivial⟩⟩

theorem tagged_inj {tags : List CborArgument} {first second : CborItem}
    (same : tagged tags first = tagged tags second) : first = second := by
  induction tags with
  | nil => exact same
  | cons argument tags ih =>
      have inner : node ⟨6, some argument⟩ [tagged tags first] =
          node ⟨6, some argument⟩ [tagged tags second] := same
      simp only [node.injEq, List.cons.injEq, and_true, true_and] at inner
      exact ih inner

/-- A transaction with witness datums in the layout that Buildooor writes. -/
structure WitnessLayout where
  rootHead : CborHead
  bodyHead : CborHead
  /-- Entries of the body before its scriptDataHash. -/
  bodyBefore : List CborItem
  scriptDataHash : Bytes
  bodyAfter : List CborItem
  witnessHead : CborHead
  /-- Entries of the witness set before its datums. -/
  before : List CborItem
  tags : List CborArgument
  count : Option CborArgument
  datums : List CborItem
  after : List CborItem
  rest : List CborItem
  bodyEven : bodyBefore.length % 2 = 0
  noHash : ∀ pair ∈ pairs bodyBefore, pair.1.isUInt 11 = false
  even : before.length % 2 = 0
  noDatums : ∀ pair ∈ pairs before, pair.1.isUInt 4 = false

namespace WitnessLayout

variable (tx : WitnessLayout)

def body : CborItem :=
  node tx.bodyHead (tx.bodyBefore ++ uint 11 :: .bytes tx.scriptDataHash :: tx.bodyAfter)

def datumList : CborItem := node ⟨4, tx.count⟩ tx.datums

def witnesses : CborItem :=
  node tx.witnessHead (tx.before ++ uint 4 :: tagged tx.tags tx.datumList :: tx.after)

def root : CborItem := node tx.rootHead (tx.body :: tx.witnesses :: tx.rest)

/-- The same transaction with other datums. -/
def withDatums (datums : List CborItem) : WitnessLayout := { tx with datums }

/-- The same transaction with another scriptDataHash. -/
def withHash (scriptDataHash : Bytes) : WitnessLayout := { tx with scriptDataHash }

/-- The bytes before the datum list. -/
def front : Bytes :=
  tx.rootHead.encode ++ tx.body.encode ++ tx.witnessHead.encode ++ encodeItems tx.before ++
    (uint 4).encode ++ encodeTags tx.tags

/-- The bytes after the datum list. -/
def back : Bytes :=
  encodeItems tx.after ++ (if tx.witnessHead.count.isNone then [0xff] else []) ++
    encodeItems tx.rest ++ if tx.rootHead.count.isNone then [0xff] else []

theorem encode_root : tx.root.encode = tx.front ++ tx.datumList.encode ++ tx.back := by
  simp only [root, witnesses, encode, encodeItems_append, encodeItems, encode_tagged, front, back,
    List.append_assoc]

/-- The bytes before the scriptDataHash. -/
def hashFront : Bytes :=
  tx.rootHead.encode ++ tx.bodyHead.encode ++ encodeItems tx.bodyBefore ++ (uint 11).encode ++
    CborHead.encode ⟨2, some (.ofNat tx.scriptDataHash.length)⟩

/-- The bytes after the scriptDataHash. -/
def hashBack : Bytes :=
  encodeItems tx.bodyAfter ++ (if tx.bodyHead.count.isNone then [0xff] else []) ++
    tx.witnesses.encode ++ encodeItems tx.rest ++ if tx.rootHead.count.isNone then [0xff] else []

theorem encode_root_hash : tx.root.encode = tx.hashFront ++ tx.scriptDataHash ++ tx.hashBack := by
  simp only [root, body, CborItem.bytes, encode, encodeItems_append, encodeItems, hashFront,
    hashBack, List.append_assoc]

theorem part?_body : LedgerBytes.part? tx.root 0 = some ⟨tx.body, tx.rootHead.encode.length⟩ := by
  simp only [LedgerBytes.part?, root, Located.children, Located.listFrom, Nat.zero_add,
    List.getElem?_cons_zero]

theorem part?_witnesses : LedgerBytes.part? tx.root 1 =
    some ⟨tx.witnesses, tx.rootHead.encode.length + tx.body.encode.length⟩ := by
  simp only [LedgerBytes.part?, root, Located.children, Located.listFrom, Nat.zero_add,
    List.getElem?_cons_succ, List.getElem?_cons_zero]

theorem wellFormed_withDatums {tx : WitnessLayout} (wellFormed : tx.root.WellFormed)
    {datums : List CborItem} (sameSize : datums.length = tx.datums.length)
    (areWellFormed : ∀ datum ∈ datums, datum.WellFormed) :
    (tx.withDatums datums).root.WellFormed := by
  obtain ⟨isRoot, isBody, ⟨isSet, parts⟩, others⟩ := wellFormed
  obtain ⟨areBefore, isKey, isList, areAfter⟩ := allWellFormed_append.mp parts
  have isCounted := ((wellFormed_tagged tx.tags).mp isList).1
  refine ⟨isRoot, isBody, ⟨?_, allWellFormed_append.mpr ⟨areBefore, isKey,
    (wellFormed_tagged tx.tags).mpr ⟨?_, (allWellFormed_iff _).mpr areWellFormed⟩, areAfter⟩⟩,
    others⟩
  · simp only [List.length_append, List.length_cons] at isSet ⊢
    exact isSet
  · exact (congrArg (IsNode ⟨4, tx.count⟩) sameSize).mpr isCounted

theorem wellFormed_withHash {tx : WitnessLayout} (wellFormed : tx.root.WellFormed)
    {scriptDataHash : Bytes} (short : scriptDataHash.length < 2 ^ 64) :
    (tx.withHash scriptDataHash).root.WellFormed := by
  obtain ⟨isRoot, ⟨isBody, parts⟩, others⟩ := wellFormed
  obtain ⟨areBefore, isKey, -, areAfter⟩ := allWellFormed_append.mp parts
  refine ⟨isRoot, ⟨?_, allWellFormed_append.mpr ⟨areBefore, isKey, wellFormed_bytes short,
    areAfter⟩⟩, others⟩
  simp only [List.length_append, List.length_cons] at isBody ⊢
  exact isBody

theorem wellFormed_datums {tx : WitnessLayout} (wellFormed : tx.root.WellFormed) :
    tx.datumList.WellFormed := by
  obtain ⟨-, -, ⟨-, parts⟩, -⟩ := wellFormed
  obtain ⟨-, -, isList, -⟩ := allWellFormed_append.mp parts
  exact (wellFormed_tagged tx.tags).mp isList

theorem wellFormed_hash {tx : WitnessLayout} (wellFormed : tx.root.WellFormed) :
    (CborItem.bytes tx.scriptDataHash).WellFormed := by
  obtain ⟨-, ⟨-, parts⟩, -⟩ := wellFormed
  exact (allWellFormed_append.mp parts).2.2.1

/-- A transaction tells its datums. -/
theorem datums_inj {tx : WitnessLayout} {first second : List CborItem} {hash other : Bytes}
    (same : ((tx.withDatums first).withHash hash).root =
      ((tx.withDatums second).withHash other).root) : first = second := by
  simp only [WitnessLayout.root, node.injEq, List.cons.injEq] at same
  have sets := same.2.2.1
  simp only [WitnessLayout.witnesses, node.injEq] at sets
  have entries := List.append_cancel_left sets.2
  simp only [List.cons.injEq] at entries
  have lists := tagged_inj entries.2.1
  simp only [WitnessLayout.datumList, node.injEq] at lists
  exact lists.2

end WitnessLayout

/-! ## Rebuilding the list -/

section Rebuilding

variable (wanted : OrderedMap Bytes Bytes)

/-- The bytes that take the place of a datum. -/
def replacement (own : Bytes) : Bytes := (OrderedMap.get? wanted own).getD own

/-- Items that stand one after another are replaced one after another. -/
theorem foldl_replacement (before after parts : Bytes) {items : List CborItem}
    (wellFormed : AllWellFormed items) :
    (Located.listFrom before.length items).foldl (fun (parts, start) item =>
        (parts ++ (OrderedMap.get? wanted
          (subarray (before ++ encodeItems items ++ after) start item.endOf)).getD
            (subarray (before ++ encodeItems items ++ after) start item.endOf), item.endOf))
        (parts, before.length) =
      (parts ++ items.flatMap fun item => replacement wanted item.encode,
        before.length + (encodeItems items).length) := by
  induction items generalizing before parts with
  | nil => simp [Located.listFrom, encodeItems]
  | cons item items ih =>
      have isItem : (Located.mk item before.length).endOf = before.length + item.encode.length :=
        Located.endOf_eq_stop wellFormed.1
      have bytes : before ++ encodeItems (item :: items) ++ after =
          before ++ item.encode ++ encodeItems items ++ after := by
        rw [encodeItems]
        simp only [List.append_assoc]
      have own : subarray (before ++ item.encode ++ encodeItems items ++ after) before.length
          (before.length + item.encode.length) = item.encode := by
        rw [List.append_assoc (before ++ item.encode)]
        exact subarray_middle before item.encode _
      have later := ih (before ++ item.encode) (parts ++ replacement wanted item.encode)
        wellFormed.2
      rw [List.length_append] at later
      simp only [Located.listFrom, List.foldl_cons, isItem, bytes, own]
      refine later.trans ?_
      simp [encodeItems, Nat.add_assoc]

/-- The rebuilt list holds a replacement for each of its items. -/
theorem rebuildDatums_eq {count : Option CborArgument} {items : List CborItem}
    (wellFormed : AllWellFormed items) (front back : Bytes) :
    rebuildDatums (front ++ (node ⟨4, count⟩ items).encode ++ back)
        ⟨node ⟨4, count⟩ items, front.length⟩ wanted =
      CborHead.encode ⟨4, count⟩ ++ (items.flatMap fun item => replacement wanted item.encode) ++
        if count.isNone then [0xff] else [] := by
  generalize breakBytes : (if count.isNone then [0xff] else [] : Bytes) = last
  have bytes : front ++ (node ⟨4, count⟩ items).encode ++ back =
      front ++ CborHead.encode ⟨4, count⟩ ++ encodeItems items ++ (last ++ back) := by
    rw [encode, ← breakBytes]
    simp only [List.append_assoc]
  have first : headLength ((front ++ (node ⟨4, count⟩ items).encode ++ back).getD front.length 0) =
      (CborHead.encode ⟨4, count⟩).length := by
    rw [← headLength_encode ⟨4, count⟩ (encodeItems items ++ (last ++ back)), bytes]
    simp only [List.append_assoc, List.getD_eq_getElem?_getD, List.getElem?_append_right
      (Nat.le_refl _), Nat.sub_self]
  have start : subarray (front ++ (node ⟨4, count⟩ items).encode ++ back) front.length
      (front.length + (CborHead.encode ⟨4, count⟩).length) = CborHead.encode ⟨4, count⟩ := by
    rw [bytes, List.append_assoc (front ++ _)]
    exact subarray_middle front _ _
  have stop : (Located.mk (node ⟨4, count⟩ items) front.length).stop =
      front.length + (CborHead.encode ⟨4, count⟩).length + (encodeItems items).length +
        last.length := by
    rw [Located.stop, encode, breakBytes]
    simp only [List.length_append]
    omega
  have rebuilt := foldl_replacement wanted (front ++ CborHead.encode ⟨4, count⟩) (last ++ back)
    (CborHead.encode ⟨4, count⟩) wellFormed
  rw [List.length_append, ← bytes] at rebuilt
  have tail : subarray (front ++ (node ⟨4, count⟩ items).encode ++ back)
      (front.length + (CborHead.encode ⟨4, count⟩).length + (encodeItems items).length)
      (front.length + (CborHead.encode ⟨4, count⟩).length + (encodeItems items).length +
        last.length) = last := by
    rw [bytes, ← List.append_assoc, ← List.length_append, ← List.length_append]
    exact subarray_middle _ last back
  simp only [rebuildDatums, first, start, Located.children, rebuilt, stop, tail]

end Rebuilding

/-! ## The hash over redeemers, datums and language views -/

section Hashing

variable [DatumPackages]

/-- The scriptDataHash of a layout is made over its redeemers and its datums as they stand. -/
def WitnessLayout.hashOver (tx : WitnessLayout) (languageViews : Bytes) : Bytes :=
  let datumBytes := (tagged tx.tags tx.datumList).encode
  match Located.valueOf 5 tx.witnesses with
  | some redeemers => blake2b_256 (redeemers.encode ++ datumBytes ++ languageViews)
  | none => blake2b_256 ([0xa0] ++ datumBytes ++ [0xa0])

omit [DatumPackages] in
theorem WitnessLayout.valueOf_datums (tx : WitnessLayout) :
    Located.valueOf 4 tx.witnesses = some (tagged tx.tags tx.datumList) := by
  have earlier : (pairs tx.before).find? (fun pair => pair.1.isUInt 4) = none := by
    rw [List.find?_eq_none]
    intro pair member
    rw [tx.noDatums pair member]
    exact Bool.false_ne_true
  have isKey : (uint 4).isUInt 4 = true := rfl
  rw [witnesses, Located.valueOf, pairs_append tx.even, List.find?_append, earlier, Option.none_or,
    pairs, List.find?_cons, isKey]
  rfl

theorem WitnessLayout.scriptDataHashOf_eq {tx : WitnessLayout} (wellFormed : tx.root.WellFormed)
    (languageViews : Bytes) :
    scriptDataHashOf tx.root.encode languageViews = .ok (tx.hashOver languageViews) := by
  have isSet : tx.witnesses.WellFormed := wellFormed.2.2.1
  have bytes : tx.root.encode = tx.rootHead.encode ++ tx.body.encode ++ tx.witnesses.encode ++
      (encodeItems tx.rest ++ if tx.rootHead.count.isNone then [0xff] else []) := by
    simp only [root, encode, encodeItems, List.append_assoc]
  have value (key : Nat) := valueBytes_entryOf isSet key (tx.rootHead.encode ++ tx.body.encode)
    (encodeItems tx.rest ++ if tx.rootHead.count.isNone then [0xff] else [])
  rw [← bytes, List.length_append] at value
  have datums := value 4
  rw [tx.valueOf_datums, Option.map_some] at datums
  have redeemers := value 5
  have present : ((Located.mk tx.witnesses
      (tx.rootHead.encode.length + tx.body.encode.length)).entryOf 4).isNone = false := by
    rw [← Option.isNone_map (f := valueBytes tx.root.encode), datums]
    rfl
  simp only [scriptDataHashOf, parse_encode wellFormed, Option.bind_some, tx.part?_witnesses,
    datums, Option.getD_some, present, hashOver]
  split
  · rename_i found
    rw [found, Option.map_some] at redeemers
    obtain ⟨item, isItem, same⟩ := Option.map_eq_some_iff.mp redeemers.symm
    simp only [isItem, same]
  · rename_i nothing
    rw [nothing, Option.map_none] at redeemers
    rw [Option.map_eq_none_iff.mp redeemers.symm]
    rfl

end Hashing

/-! ## The datums that are put back -/

section Wanted

variable [DatumPackages]

/-- The last of the caller's datums that Buildooor would write as `built`, but that has other
bytes. -/
def lastForeign (datums : List Bytes) (built : Bytes) : Option Bytes :=
  (datums.filter fun datum =>
    decide ((dataFromCbor datum).map dataToCbor = some built ∧ built ≠ datum)).getLast?

theorem foldlM_wanted (datums : List Bytes) (readable : ∀ datum ∈ datums,
    (dataFromCbor datum).isSome) (start : OrderedMap Bytes Bytes) :
    ∃ wanted, datums.foldlM (fun wanted datum => (dataFromCbor datum).map fun data =>
        if dataToCbor data ≠ datum then OrderedMap.set wanted (dataToCbor data) datum else wanted)
        start = some wanted ∧
      ∀ built, OrderedMap.get? wanted built =
        (lastForeign datums built).or (OrderedMap.get? start built) := by
  induction datums generalizing start with
  | nil => exact ⟨start, rfl, fun built => rfl⟩
  | cons datum datums ih =>
      obtain ⟨data, reads⟩ := Option.isSome_iff_exists.mp (readable datum (List.mem_cons_self ..))
      obtain ⟨wanted, folded, values⟩ := ih (fun other member =>
        readable other (List.mem_cons_of_mem _ member))
        (if dataToCbor data ≠ datum then OrderedMap.set start (dataToCbor data) datum else start)
      refine ⟨wanted, ?_, fun built => ?_⟩
      · rw [List.foldlM_cons, reads]
        exact folded
      · rw [values]
        unfold lastForeign
        by_cases foreign : dataToCbor data = built ∧ built ≠ datum
        · obtain ⟨rfl, differs⟩ := foreign
          have chosen : decide ((dataFromCbor datum).map dataToCbor = some (dataToCbor data) ∧
              dataToCbor data ≠ datum) = true := by
            rw [reads]
            exact decide_eq_true ⟨rfl, differs⟩
          rw [if_pos differs, OrderedMap.get?_set, if_pos rfl, List.filter_cons, if_pos chosen,
            List.getLast?_cons, Option.some_or]
          cases (datums.filter _).getLast? <;> rfl
        · have skipped : ¬decide ((dataFromCbor datum).map dataToCbor = some built ∧
              built ≠ datum) = true := by
            rw [reads, decide_eq_true_iff, Option.map_some, Option.some.injEq]
            exact foreign
          have kept : OrderedMap.get? (if dataToCbor data ≠ datum then
              OrderedMap.set start (dataToCbor data) datum else start) built =
              OrderedMap.get? start built := by
            split
            · rename_i differs
              rw [OrderedMap.get?_set, if_neg]
              rintro rfl
              exact foreign ⟨rfl, differs⟩
            · rfl
          rw [kept, List.filter_cons, if_neg skipped]

theorem eq_of_lastForeign {datums : List Bytes} {built datum : Bytes}
    (found : lastForeign datums built = some datum) :
    datum ∈ datums ∧ (dataFromCbor datum).map dataToCbor = some built := by
  have member := List.mem_filter.mp (List.mem_of_getLast? found)
  exact ⟨member.1, (of_decide_eq_true member.2).1⟩

/-- The item that takes the place of a datum. -/
def putBack (datums : List Bytes) (item : CborItem) : CborItem :=
  (((lastForeign datums item.encode).bind parse)).getD item

theorem encode_putBack (datums : List Bytes) (item : CborItem) :
    (putBack datums item).encode = (lastForeign datums item.encode).getD item.encode := by
  rw [putBack]
  cases found : lastForeign datums item.encode with
  | none => rfl
  | some datum =>
      obtain ⟨data, reads, -⟩ := Option.map_eq_some_iff.mp (eq_of_lastForeign found).2
      obtain ⟨other, parsed⟩ := Option.isSome_iff_exists.mp (isCbor_of_data datum data reads)
      rw [Option.bind_some, parsed]
      exact (wellFormed_of_parse parsed).2

theorem wellFormed_putBack {datums : List Bytes} {item : CborItem} (wellFormed : item.WellFormed) :
    (putBack datums item).WellFormed := by
  rw [putBack]
  cases found : (lastForeign datums item.encode).bind parse with
  | none => exact wellFormed
  | some other =>
      obtain ⟨datum, -, parsed⟩ := Option.bind_eq_some_iff.mp found
      exact (wellFormed_of_parse parsed).1

end Wanted

/-! ## Writing -/

section Writing

variable [DatumPackages] {tx : WitnessLayout} {datums : List Bytes} {languageViews : Bytes}

/-- The layout with the caller's datums put back and the hash made again. -/
def WitnessLayout.written (tx : WitnessLayout) (datums : List Bytes) (languageViews : Bytes) :
    WitnessLayout :=
  (tx.withDatums (tx.datums.map (putBack datums))).withHash
    ((tx.withDatums (tx.datums.map (putBack datums))).hashOver languageViews)

theorem WitnessLayout.length_hashOver (tx : WitnessLayout) (languageViews : Bytes) :
    (tx.hashOver languageViews).length = 32 := by
  simp only [hashOver]
  split <;> exact length_blake2b_256 _

theorem WitnessLayout.wellFormed_putBack (wellFormed : tx.root.WellFormed) :
    (tx.withDatums (tx.datums.map (putBack datums))).root.WellFormed := by
  refine WitnessLayout.wellFormed_withDatums wellFormed (List.length_map ..) ?_
  intro datum member
  obtain ⟨item, isDatum, rfl⟩ := List.mem_map.mp member
  exact Odatano.wellFormed_putBack ((allWellFormed_iff _).mp
    (WitnessLayout.wellFormed_datums wellFormed).2 item isDatum)

theorem WitnessLayout.wellFormed_written (wellFormed : tx.root.WellFormed) :
    (tx.written datums languageViews).root.WellFormed := by
  refine WitnessLayout.wellFormed_withHash (WitnessLayout.wellFormed_putBack wellFormed) ?_
  rw [WitnessLayout.length_hashOver]
  decide

omit [DatumPackages] in
/-- The bytes with another hash of the same length. -/
theorem WitnessLayout.encode_withHash (tx : WitnessLayout) {scriptDataHash : Bytes}
    (sameLength : scriptDataHash.length = tx.scriptDataHash.length) :
    (tx.withHash scriptDataHash).root.encode = tx.hashFront ++ scriptDataHash ++ tx.hashBack := by
  have heads : (tx.withHash scriptDataHash).hashFront = tx.hashFront := by
    simp only [hashFront, withHash, sameLength]
  rw [(tx.withHash scriptDataHash).encode_root_hash, heads]
  rfl

omit [DatumPackages] in
/-- The datum list is found where it stands. -/
theorem WitnessLayout.datumList_found (tx : WitnessLayout) :
    (((LedgerBytes.part? tx.root 1).bind fun witnesses => witnesses.entryOf 4).map
        fun entry => Located.untag entry.2.start entry.2.item).filter
          (fun list => list.item.isArray) =
      some ⟨tx.datumList, tx.front.length⟩ := by
  have entry := @Located.entryOf_node tx.witnessHead tx.before tx.after (uint 4)
    (tagged tx.tags tx.datumList) 4 (tx.rootHead.encode.length + tx.body.encode.length) tx.even rfl
    tx.noDatums
  have isArray : tx.datumList.isArray = true := rfl
  rw [tx.part?_witnesses, Option.bind_some, witnesses, entry, Option.map_some,
    untag_tagged tx.tags isArray, Option.filter_some, if_pos isArray]
  simp only [front, List.length_append]

omit [DatumPackages] in
/-- The hash is found at the end of its entry. -/
theorem WitnessLayout.hash_found (wellFormed : tx.root.WellFormed)
    (isHash : tx.scriptDataHash.length = 32) :
    ∃ entry, ((LedgerBytes.part? tx.root 0).bind fun body => body.entryOf 11) = some entry ∧
      32 ≤ entry.2.endOf ∧ entry.2.endOf - 32 = tx.hashFront.length := by
  have entry := @Located.entryOf_node tx.bodyHead tx.bodyBefore tx.bodyAfter (uint 11)
    (.bytes tx.scriptDataHash) 11 tx.rootHead.encode.length tx.bodyEven rfl tx.noHash
  refine ⟨_, (congrArg (Option.bind · _) tx.part?_body).trans entry, ?_⟩
  rw [Located.endOf_eq_stop (WitnessLayout.wellFormed_hash wellFormed), Located.stop]
  simp only [hashFront, CborItem.bytes, encode, List.length_append, isHash]
  exact ⟨by omega, by omega⟩

/-- The list is rebuilt within the bytes of the transaction. -/
theorem WitnessLayout.rebuilt_eq {wanted : OrderedMap Bytes Bytes}
    (values : ∀ built, OrderedMap.get? wanted built = lastForeign datums built)
    (wellFormed : tx.root.WellFormed) :
    tx.root.encode.take tx.front.length ++
        rebuildDatums tx.root.encode ⟨tx.datumList, tx.front.length⟩ wanted ++
        tx.root.encode.drop (Located.mk tx.datumList tx.front.length).stop =
      (tx.withDatums (tx.datums.map (putBack datums))).root.encode := by
  have list : rebuildDatums tx.root.encode ⟨tx.datumList, tx.front.length⟩ wanted =
      CborHead.encode ⟨4, tx.count⟩ ++
        (tx.datums.flatMap fun item => replacement wanted item.encode) ++
          if tx.count.isNone then [0xff] else [] := by
    rw [tx.encode_root]
    exact rebuildDatums_eq wanted (WitnessLayout.wellFormed_datums wellFormed).2 tx.front tx.back
  have items : encodeItems (tx.datums.map (putBack datums)) =
      tx.datums.flatMap fun item => replacement wanted item.encode := by
    rw [encodeItems_eq, List.flatMap_map]
    refine List.flatMap_congr fun item _ => ?_
    rw [encode_putBack, replacement, values]
  have rebuilt : (tx.withDatums (tx.datums.map (putBack datums))).root.encode =
      tx.front ++ rebuildDatums tx.root.encode ⟨tx.datumList, tx.front.length⟩ wanted ++
        tx.back := by
    rw [encode_root, list, ← items]
    rfl
  rw [rebuilt]
  congr 1
  · rw [tx.encode_root, List.append_assoc, List.take_left]
  · rw [tx.encode_root, Located.stop, ← List.length_append, List.drop_left]

theorem writeWitnessDatums_eq (wellFormed : tx.root.WellFormed)
    (isHash : tx.scriptDataHash.length = 32)
    (readable : ∀ datum ∈ datums, (dataFromCbor datum).isSome)
    (hashed : scriptDataHashOf tx.root.encode languageViews = .ok tx.scriptDataHash) :
    writeWitnessDatums ⟨tx.root, wellFormed⟩ datums languageViews =
      .ok ⟨(tx.written datums languageViews).root, WitnessLayout.wellFormed_written wellFormed⟩ := by
  obtain ⟨wanted, folded, values⟩ := foldlM_wanted datums readable Table.empty
  simp only [OrderedMap.get?_empty, Option.or_none] at values
  have collected : wantedDatums datums = some wanted := folded
  simp only [writeWitnessDatums, collected]
  split
  · rename_i nothing
    have none (built : Bytes) : lastForeign datums built = none := by
      rw [← values]
      exact Option.eq_none_iff_forall_ne_some.mpr fun datum found =>
        absurd (nothing ▸ OrderedMap.get?_eq_some_iff.mp found) List.not_mem_nil
    have unchanged : tx.datums.map (putBack datums) = tx.datums := by
      refine (List.map_congr_left fun item _ => ?_).trans (List.map_id _)
      rw [putBack, none]
      rfl
    have ownHash : tx.hashOver languageViews = tx.scriptDataHash := by
      rw [WitnessLayout.scriptDataHashOf_eq wellFormed] at hashed
      exact Except.ok.inj hashed
    have same : tx.written datums languageViews = tx := by
      rw [WitnessLayout.written, unchanged]
      exact congrArg tx.withHash ownHash
    simp only [same]
  · rename_i something
    have isBuilt := @WitnessLayout.wellFormed_putBack _ tx datums wellFormed
    obtain ⟨entry, found, long, place⟩ := WitnessLayout.hash_found isBuilt isHash
    have rebuilt := WitnessLayout.rebuilt_eq values wellFormed
    have newHash := WitnessLayout.scriptDataHashOf_eq isBuilt languageViews
    have length := (tx.withDatums (tx.datums.map (putBack datums))).length_hashOver languageViews
    have spliced : (tx.written datums languageViews).root.encode = _ :=
      (tx.withDatums (tx.datums.map (putBack datums))).encode_withHash (length.trans isHash.symm)
    have front : (tx.withDatums (tx.datums.map (putBack datums))).root.encode.take
        (tx.withDatums (tx.datums.map (putBack datums))).hashFront.length =
        (tx.withDatums (tx.datums.map (putBack datums))).hashFront := by
      rw [WitnessLayout.encode_root_hash, List.append_assoc, List.take_left]
    have back : (tx.withDatums (tx.datums.map (putBack datums))).root.encode.drop
        ((tx.withDatums (tx.datums.map (putBack datums))).hashFront.length + 32) =
        (tx.withDatums (tx.datums.map (putBack datums))).hashBack := by
      rw [WitnessLayout.encode_root_hash, ← isHash]
      exact (congrArg (List.drop · _) (List.length_append ..).symm).trans (List.drop_left ..)
    have list : LedgerBytes.toCbor ⟨tx.root, wellFormed⟩ = tx.root.encode := rfl
    simp only [list, tx.datumList_found, rebuilt, parse_encode isBuilt, Option.bind_some, found,
      newHash, place, front]
    refine (if_neg (Nat.not_lt.mpr long)).trans ?_
    refine fromCbor_eq_ok_iff.mpr (Eq.trans ?_ spliced.symm)
    rw [length, back]

end Writing

/-! ## Datums that script inputs need -/

section Main

variable [DatumPackages]

/-- A UTxO as far as its datum goes. -/
structure DatumLock where
  ref : String
  datumHash : Option String
  inlineDatum : Bool

/-- `_checkWitnessDatum`: the ledger finds a witness datum by the hash of its bytes, so it must match
the UTxO's datum hash.  Inline-datum UTxOs need no witness datum. -/
def checkWitnessDatum (utxo : DatumLock) (datum : Bytes) (field hint : String) :
    Except String Unit :=
  match utxo.datumHash with
  | none => .ok ()
  | some locked =>
      if utxo.inlineDatum then .ok ()
      else if datumHashOf datum ≠ locked.toLower then
        .error (field ++ " hashes to " ++ datumHashOf datum ++ ", but " ++ utxo.ref ++
          " is locked with datum hash " ++ locked ++ hint)
      else .ok ()

/-- The datum of a script input, given as CBOR or as JSON. -/
structure ScriptDatum where
  utxo : DatumLock
  data : PlutusData
  /-- The caller's bytes, null for JSON. -/
  cbor : Option Bytes
  field : String
  hint : String
  reads : ∀ bytes, cbor = some bytes → dataFromCbor bytes = some data
  readsBuilt : dataFromCbor (dataToCbor data) = some data
  checked : checkWitnessDatum utxo (cbor.getD (dataToCbor data)) field hint = .ok ()

namespace ScriptDatum

/-- The bytes that the input's datum was checked with. -/
def needed (input : ScriptDatum) : Bytes := input.cbor.getD (dataToCbor input.data)

/-- The UTxO is locked by a datum hash. -/
def hashLocked (input : ScriptDatum) : Prop :=
  input.utxo.datumHash.isSome = true ∧ input.utxo.inlineDatum = false

end ScriptDatum

/-- A transaction that Buildooor built for script inputs with datums, with units stamped and hashed
once. -/
structure WitnessRequest where
  tx : WitnessLayout
  wellFormed : tx.root.WellFormed
  inputs : List ScriptDatum
  languageViews : Bytes
  /-- Buildooor carries the datum of each input that is locked by a hash, in its own encoding. -/
  carried : ∀ input ∈ inputs, input.hashLocked →
    dataToCbor input.data ∈ tx.datums.map CborItem.encode
  built : ∀ item ∈ tx.datums, ∃ data, dataToCbor data = item.encode ∧
    dataFromCbor item.encode = some data
  hashed : scriptDataHashOf tx.root.encode languageViews = .ok tx.scriptDataHash

namespace WitnessRequest

variable (request : WitnessRequest)

/-- The caller's datums in the order of the inputs. -/
def datums : List Bytes := request.inputs.filterMap ScriptDatum.cbor

theorem readable : ∀ datum ∈ request.datums, (dataFromCbor datum).isSome := by
  intro datum member
  obtain ⟨input, -, given⟩ := List.mem_filterMap.mp member
  rw [input.reads datum given]
  rfl

theorem length_scriptDataHash : request.tx.scriptDataHash.length = 32 := by
  have same := request.hashed
  rw [WitnessLayout.scriptDataHashOf_eq request.wellFormed] at same
  rw [← Except.ok.inj same, WitnessLayout.length_hashOver]

/-- Among the caller's datums of its value, an input's own datum is the last one that is not in
Buildooor's encoding; if it is in that encoding itself, there is none. -/
def OwnDatumLast (input : ScriptDatum) : Prop :=
  (lastForeign request.datums (dataToCbor input.data)).getD (dataToCbor input.data) = input.needed

/-- The transaction carries what its script inputs need. -/
structure KeepsDatums (tx : LedgerBytes) (datums : List CborItem) (scriptDataHash : Bytes) : Prop where
  /-- Nothing but the datums and the hash differs. -/
  frame : tx.root = ((request.tx.withDatums datums).withHash scriptDataHash).root
  kept : ∀ input ∈ request.inputs, input.hashLocked → input.needed ∈ datums.map CborItem.encode
  /-- The datums that Buildooor had are there with their values. -/
  values : List.Forall₂ (fun before after => dataFromCbor after.encode = dataFromCbor before.encode)
    request.tx.datums datums
  hashed : scriptDataHashOf tx.toCbor request.languageViews = .ok scriptDataHash

def KeepsWitnessDatums : Prop :=
  ∃ tx datums scriptDataHash,
    writeWitnessDatums ⟨request.tx.root, request.wellFormed⟩ request.datums
      request.languageViews = .ok tx ∧ request.KeepsDatums tx datums scriptDataHash

/-- Buildooor's encoding of an input's datum tells the value of what the input needs. -/
theorem built_needed (input : ScriptDatum) :
    (dataFromCbor input.needed).map dataToCbor = some (dataToCbor input.data) := by
  unfold ScriptDatum.needed
  cases given : input.cbor with
  | none => rw [Option.getD_none, input.readsBuilt, Option.map_some]
  | some bytes => rw [Option.getD_some, input.reads bytes given, Option.map_some]

/-- An input's datum is carried exactly if it is the last of its value. -/
theorem needed_mem_iff {input : ScriptDatum} (member : input ∈ request.inputs)
    (locked : input.hashLocked) :
    input.needed ∈ (request.tx.datums.map (putBack request.datums)).map CborItem.encode ↔
      request.OwnDatumLast input := by
  have isBuilt := built_needed input
  constructor
  · intro carried
    obtain ⟨other, isOther, same⟩ := List.mem_map.mp carried
    obtain ⟨item, isItem, rfl⟩ := List.mem_map.mp isOther
    rw [encode_putBack] at same
    have own : item.encode = dataToCbor input.data := by
      cases found : lastForeign request.datums item.encode with
      | none =>
          rw [found, Option.getD_none] at same
          obtain ⟨data, writes, reads⟩ := request.built item isItem
          rw [← same, reads, Option.map_some, writes] at isBuilt
          exact Option.some.inj isBuilt
      | some datum =>
          rw [found, Option.getD_some] at same
          have built := (eq_of_lastForeign found).2
          rw [same, isBuilt] at built
          exact (Option.some.inj built).symm
    rw [OwnDatumLast, ← own]
    exact same
  · intro last
    obtain ⟨item, isItem, same⟩ := List.mem_map.mp (request.carried input member locked)
    refine List.mem_map.mpr ⟨_, List.mem_map_of_mem isItem, ?_⟩
    rw [encode_putBack, same]
    exact last

/-- Putting bytes back keeps the values. -/
theorem values_putBack : List.Forall₂
    (fun before after => dataFromCbor (CborItem.encode after) = dataFromCbor (CborItem.encode before))
    request.tx.datums (request.tx.datums.map (putBack request.datums)) := by
  rw [List.forall₂_map_right_iff, List.forall₂_same]
  intro item isItem
  rw [encode_putBack]
  cases found : lastForeign request.datums item.encode with
  | none => rfl
  | some datum =>
      obtain ⟨isDatum, built⟩ := eq_of_lastForeign found
      obtain ⟨input, -, given⟩ := List.mem_filterMap.mp isDatum
      rw [input.reads datum given, Option.map_some, Option.some.injEq] at built
      rw [Option.getD_some, input.reads datum given, ← built, input.readsBuilt]

/-- What the script inputs find is the datum list with the caller's bytes put back. -/
theorem kept_putBack (keeps : request.KeepsWitnessDatums) {input : ScriptDatum}
    (member : input ∈ request.inputs) (locked : input.hashLocked) :
    input.needed ∈ (request.tx.datums.map (putBack request.datums)).map CborItem.encode := by
  obtain ⟨tx, datums, scriptDataHash, written, kept⟩ := keeps
  rw [writeWitnessDatums_eq request.wellFormed request.length_scriptDataHash request.readable
    request.hashed] at written
  cases written
  have same := WitnessLayout.datums_inj kept.frame
  rw [same]
  exact kept.kept input member locked

end WitnessRequest

/-- Every script input finds the datum that it needs, nothing else changes and the hash is right,
exactly where each input's datum is the last of its value among the caller's. -/
theorem writeWitnessDatums_keeps_iff (request : WitnessRequest) :
    request.KeepsWitnessDatums ↔
      ∀ input ∈ request.inputs, input.hashLocked → request.OwnDatumLast input := by
  have result := writeWitnessDatums_eq request.wellFormed request.length_scriptDataHash
    request.readable request.hashed
  constructor
  · intro keeps input member locked
    exact (request.needed_mem_iff member locked).mp (request.kept_putBack keeps member locked)
  · intro last
    refine ⟨_, _, _, result, ⟨rfl, fun input member locked => ?_, request.values_putBack, ?_⟩⟩
    · exact (request.needed_mem_iff member locked).mpr (last input member locked)
    · exact WitnessLayout.scriptDataHashOf_eq (WitnessLayout.wellFormed_written request.wellFormed)
        request.languageViews

end Main

section Sample

/-- A UTxO locked by the hash of a datum. -/
def hashLock (ref : String) (datum : Bytes) : DatumLock :=
  ⟨ref, some (@datumHashOf datumPackages datum), false⟩

/-- One input's datum 1 is given in its long form, another one's in its short form. -/
@[reducible] def spellingInputs : List (@ScriptDatum datumPackages) :=
  [@ScriptDatum.mk datumPackages (hashLock "aa#0" [0x18, 0x01]) (.int 1) (some [0x18, 0x01])
      "scriptInputs[0].datumCbor" "" (fun bytes given => by cases given; rfl) rfl
      (by decide +kernel),
    @ScriptDatum.mk datumPackages (hashLock "bb#0" [0x01]) (.int 1) (some [0x01])
      "scriptInputs[1].datumCbor" "" (fun bytes given => by cases given; rfl) rfl
      (by decide +kernel)]

/-- The transaction before its hash is set. -/
def spellingLayout : WitnessLayout where
  rootHead := ⟨4, some (.ofNat 4)⟩
  bodyHead := ⟨5, some (.ofNat 2)⟩
  bodyBefore := [uint 0, node ⟨4, some (.ofNat 0)⟩ []]
  scriptDataHash := List.replicate 32 0
  bodyAfter := []
  witnessHead := ⟨5, some (.ofNat 2)⟩
  before := []
  tags := []
  count := some (.ofNat 1)
  datums := [uint 1]
  after := [uint 5, node ⟨4, some (.ofNat 0)⟩ []]
  rest := [leaf 7 (.short 21) [], leaf 7 (.short 22) []]
  bodyEven := rfl
  noHash := by decide
  even := rfl
  noDatums := nofun

def spellingTx : WitnessLayout :=
  spellingLayout.withHash (@WitnessLayout.hashOver datumPackages spellingLayout [])

@[reducible] def spellingRequest : @WitnessRequest datumPackages :=
  have wellFormed : spellingTx.root.WellFormed := by decide +kernel
  @WitnessRequest.mk datumPackages spellingTx wellFormed spellingInputs []
    (fun input _ _ => List.mem_singleton_self [0x01])
    (fun item member => by
      cases List.mem_singleton.mp member
      exact ⟨.int 1, by decide, rfl⟩)
    (@WitnessLayout.scriptDataHashOf_eq datumPackages _ wellFormed [])

/-- The short form is overwritten by the long form. -/
theorem writeWitnessDatums_loses_short_form :
    ¬∀ request, @WitnessRequest.KeepsWitnessDatums datumPackages request := by
  intro keeps
  have kept := @WitnessRequest.kept_putBack datumPackages spellingRequest (keeps spellingRequest) _
    (List.mem_cons_of_mem _ (List.mem_singleton_self _)) ⟨rfl, rfl⟩
  exact absurd kept (by decide +kernel)

end Sample

end Odatano
