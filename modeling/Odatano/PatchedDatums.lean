import Odatano.CborOffsets

/-!
# Patched datums

What `writeCallerDatums` makes of a transaction that Buildooor encoded, against the transaction
with the caller's bytes in the place of the listed datums and of nothing else.
-/

namespace Odatano

open CborItem DatumPackages

/-! ## Outputs with a datum -/

/-- `[1, #6.24(datum)]`. -/
def inlineDatumItem (datum : Bytes) : CborItem :=
  node ⟨4, some (.ofNat 2)⟩ [uint 1, tag 24 (.bytes datum)]

theorem inlineDatumEntry_eq (datum : Bytes) :
    inlineDatumEntry datum = (uint 2).encode ++ (inlineDatumItem datum).encode := by
  have key : (uint 2).encode = [0x02] := by decide
  have list : CborHead.encode ⟨4, some (.ofNat 2)⟩ = [0x82] := by decide
  have kind : (uint 1).encode = [0x01] := by decide
  have counted : (some (CborArgument.ofNat 2)).isNone = false := rfl
  simp only [inlineDatumEntry, inlineDatumItem, encode, encodeItems, key, list, kind, counted,
    List.append_nil, Bool.false_eq_true, if_false, List.cons_append, List.nil_append]

theorem wellFormed_bytes {content : Bytes} (short : content.length < 2 ^ 64) :
    (CborItem.bytes content).WellFormed :=
  Or.inr ⟨Or.inl rfl, (CborArgument.value_ofNat short).symm⟩

theorem wellFormed_tag {n : Nat} {item : CborItem} (wellFormed : item.WellFormed) :
    (tag n item).WellFormed :=
  ⟨⟨Or.inr (Or.inr rfl), rfl⟩, wellFormed, trivial⟩

theorem wellFormed_inlineDatumItem {datum : Bytes} (short : datum.length < 2 ^ 64) :
    (inlineDatumItem datum).WellFormed :=
  ⟨⟨Or.inl rfl, rfl⟩, Or.inl ⟨Or.inl rfl, rfl⟩, wellFormed_tag (wellFormed_bytes short), trivial⟩

/-- Of two datum entries none begins the other. -/
theorem inlineDatumEntry_begins {first second : Bytes} (isFirst : first.length < 2 ^ 64)
    (isSecond : second.length < 2 ^ 64)
    (begins : inlineDatumEntry first <+: inlineDatumEntry second) : first = second := by
  have tags := (List.prefix_append_right_inj [0x02, 0x82, 0x01]).mp begins
  have same := eq_of_encode_begins (wellFormed_tag (wellFormed_bytes isFirst))
    (wellFormed_tag (wellFormed_bytes isSecond)) tags
  simp only [tag, CborItem.bytes, node.injEq, List.cons.injEq, leaf.injEq] at same
  exact same.2.1.2.2

/-- An output that carries an inline datum, as Buildooor encodes it. -/
structure DatumOutput where
  head : CborHead
  /-- Address and value. -/
  before : List CborItem
  content : Bytes
  /-- The reference script. -/
  after : List CborItem
  isMap : head.major = 5
  even : before.length % 2 = 0
  noDatum : ∀ pair ∈ pairs before, pair.1.isUInt 2 = false

namespace DatumOutput

def item (o : DatumOutput) : CborItem :=
  node o.head (o.before ++ uint 2 :: inlineDatumItem o.content :: o.after)

/-- The output with other bytes of the datum. -/
def write (o : DatumOutput) (datum : Bytes) : DatumOutput := { o with content := datum }

/-- The bytes before the datum's entry. -/
def front (o : DatumOutput) : Bytes := o.head.encode ++ encodeItems o.before

/-- The bytes after the datum's entry. -/
def back (o : DatumOutput) : Bytes :=
  encodeItems o.after ++ if o.head.count.isNone then [0xff] else []

theorem encode_item (o : DatumOutput) :
    o.item.encode = o.front ++ inlineDatumEntry o.content ++ o.back := by
  simp only [item, encode, encodeItems_append, encodeItems, inlineDatumEntry_eq, front, back,
    List.append_assoc]

theorem encode_write (o : DatumOutput) (datum : Bytes) :
    (o.write datum).item.encode = o.front ++ inlineDatumEntry datum ++ o.back :=
  (o.write datum).encode_item

theorem inlineDatum?_item (o : DatumOutput) (start : Nat) :
    inlineDatum? ⟨o.item, start⟩ = some o.content := by
  rw [inlineDatum?, item, Located.entryOf_node o.even rfl o.noDatum]
  rfl

theorem wellFormed_write {o : DatumOutput} {datum : Bytes} (short : datum.length < 2 ^ 64)
    (wellFormed : o.item.WellFormed) : (o.write datum).item.WellFormed := by
  obtain ⟨isNode, items⟩ := wellFormed
  obtain ⟨areBefore, isKey, -, areAfter⟩ := allWellFormed_append.mp items
  refine ⟨?_, allWellFormed_append.mpr ⟨areBefore, isKey, wellFormed_inlineDatumItem short,
    areAfter⟩⟩
  simp only [List.length_append, List.length_cons] at isNode ⊢
  exact isNode

end DatumOutput

/-- Where the search for the built datum ends: at the datum itself, or nothing changes. -/
def FoundAtDatum (o : DatumOutput) (datum : Bytes) : Prop :=
  indexOf (inlineDatumEntry o.content) o.item.encode = some o.front.length ∨ datum = o.content

/-- Replacing the built datum where it is found writes the output exactly if it is found at the
datum or nothing changes. -/
theorem DatumOutput.replace_eq_iff {o : DatumOutput} {datum : Bytes} {offset : Nat}
    (short : o.content.length < 2 ^ 64) (isShort : datum.length < 2 ^ 64)
    (found : indexOf (inlineDatumEntry o.content) o.item.encode = some offset) :
    o.item.encode.take offset ++ inlineDatumEntry datum ++
        o.item.encode.drop (offset + (inlineDatumEntry o.content).length) =
      (o.write datum).item.encode ↔ FoundAtDatum o datum := by
  have code : inlineDatumEntry o.content <+: inlineDatumEntry datum ∨
      inlineDatumEntry datum <+: inlineDatumEntry o.content →
        inlineDatumEntry o.content = inlineDatumEntry datum := by
    rintro (begins | begins)
    · rw [inlineDatumEntry_begins short isShort begins]
    · rw [inlineDatumEntry_begins isShort short begins]
  have same : inlineDatumEntry o.content = inlineDatumEntry datum ↔ datum = o.content :=
    ⟨fun same => (inlineDatumEntry_begins short isShort (same ▸ List.prefix_refl _)).symm,
      fun same => by rw [same]⟩
  rw [FoundAtDatum, found, Option.some.injEq, ← same, o.encode_write]
  rw [indexOf, o.encode_item] at found
  rw [o.encode_item]
  exact List.replace_first_eq_iff found code

/-! ## The transaction -/

/-- An output of a built transaction. -/
inductive BuiltOutput
  | plain (item : CborItem)
  | datum (o : DatumOutput)

namespace BuiltOutput

def item : BuiltOutput → CborItem
  | plain item => item
  | datum o => o.item

/-- The output with other bytes of its datum. -/
def write (bytes : Bytes) : BuiltOutput → BuiltOutput
  | plain item => plain item
  | datum o => datum (o.write bytes)

end BuiltOutput

/-- The outputs with the listed datums and nothing else written. -/
def writeListed (outputs : List BuiltOutput) (rows : List (Nat × Bytes)) : List BuiltOutput :=
  rows.foldl (fun outputs row => outputs.modify row.1 (BuiltOutput.write row.2)) outputs

def encodeOutputs (outputs : List BuiltOutput) : Bytes := encodeItems (outputs.map BuiltOutput.item)

@[simp] theorem encodeOutputs_append (first second : List BuiltOutput) :
    encodeOutputs (first ++ second) = encodeOutputs first ++ encodeOutputs second := by
  rw [encodeOutputs, List.map_append, encodeItems_append]
  rfl

theorem encodeOutputs_cons (o : BuiltOutput) (outputs : List BuiltOutput) :
    encodeOutputs (o :: outputs) = o.item.encode ++ encodeOutputs outputs := by
  rw [encodeOutputs, List.map_cons, encodeItems]
  rfl

theorem length_writeListed (outputs : List BuiltOutput) (rows : List (Nat × Bytes)) :
    (writeListed outputs rows).length = outputs.length := by
  induction rows generalizing outputs with
  | nil => rfl
  | cons row rows ih => rw [writeListed, List.foldl_cons, ← writeListed, ih, List.length_modify]

/-- Datums of the first outputs do not touch the later ones. -/
theorem writeListed_append {rows : List (Nat × Bytes)} {first second : List BuiltOutput}
    (below : ∀ row ∈ rows, row.1 < first.length) :
    writeListed (first ++ second) rows = writeListed first rows ++ second := by
  induction rows generalizing first with
  | nil => rfl
  | cons row rows ih =>
      have isBelow := below row (List.mem_cons_self ..)
      have moved : (first ++ second).modify row.1 (BuiltOutput.write row.2) =
          first.modify row.1 (BuiltOutput.write row.2) ++ second := by
        refine List.ext_getElem? fun index => ?_
        rw [List.getElem?_modify]
        by_cases inside : index < first.length
        · rw [List.getElem?_append_left inside,
            List.getElem?_append_left (by rwa [List.length_modify]), List.getElem?_modify]
        · have apart : row.1 ≠ index := fun same => inside (same ▸ isBelow)
          rw [List.getElem?_append_right (Nat.le_of_not_lt inside),
            List.getElem?_append_right (by rw [List.length_modify]; exact Nat.le_of_not_lt inside),
            List.length_modify]
          simp [apart]
      rw [writeListed, List.foldl_cons, ← writeListed, moved, ih fun other member => by
        rw [List.length_modify]
        exact below other (List.mem_cons_of_mem _ member)]
      rfl

/-! ## Writing one datum after another -/

section Writing

variable [DatumPackages] {outputs : List BuiltOutput}

/-- A caller datum whose value Buildooor encoded at the output that the datum is listed for. -/
structure ListedDatum (outputs : List BuiltOutput) (row : Nat × Bytes) where
  output : DatumOutput
  data : PlutusData
  atIndex : outputs[row.1]? = some (.datum output)
  reads : dataFromCbor output.content = some data
  encoded : dataToCbor data = output.content
  sameValue : dataFromCbor row.2 = some data
  /-- A buffer's length is a safe integer. -/
  short : output.content.length < 2 ^ 53
  isShort : row.2.length < 2 ^ 53

theorem split_at {row : Nat × Bytes} (listed : ListedDatum outputs row) {bound : Nat}
    (below : row.1 < bound) :
    outputs.take bound = outputs.take row.1 ++ .datum listed.output ::
      (outputs.take bound).drop (row.1 + 1) := by
  have found : (outputs.take bound)[row.1]? = some (.datum listed.output) := by
    rw [List.getElem?_take_of_lt below, listed.atIndex]
  obtain ⟨inside, same⟩ := List.getElem?_eq_some_iff.mp found
  have whole := List.take_append_drop row.1 (outputs.take bound)
  rw [List.take_take, Nat.min_eq_left below.le, List.drop_eq_getElem_cons inside, same] at whole
  exact whole.symm

/-- The datum written at its place. -/
theorem modify_take {row : Nat × Bytes} (listed : ListedDatum outputs row) {bound : Nat}
    (below : row.1 < bound) :
    (outputs.take bound).modify row.1 (BuiltOutput.write row.2) =
      outputs.take row.1 ++ .datum (listed.output.write row.2) ::
        (outputs.take bound).drop (row.1 + 1) := by
  have found : (outputs.take bound)[row.1]? = some (.datum listed.output) := by
    rw [List.getElem?_take_of_lt below, listed.atIndex]
  obtain ⟨inside, same⟩ := List.getElem?_eq_some_iff.mp found
  rw [List.modify_eq_take_cons_drop inside, same, List.take_take, Nat.min_eq_left below.le]
  rfl

omit [DatumPackages] in
/-- What is found for the built datum lies within its output. -/
theorem found_within {o : DatumOutput} {offset : Nat}
    (found : indexOf (inlineDatumEntry o.content) o.item.encode = some offset) :
    offset + (inlineDatumEntry o.content).length ≤ o.item.encode.length := by
  obtain ⟨inside, stands, -⟩ := List.firstOccurrence_eq_some_iff.mp found
  have shorter := stands.length_le
  rw [List.length_drop] at shorter
  omega

/-- One datum is written in the bytes of its output. -/
theorem writeCallerDatum_eq {row : Nat × Bytes} (listed : ListedDatum outputs row) {bound : Nat}
    (below : row.1 < bound) (front back : Bytes) :
    ∃ offset, indexOf (inlineDatumEntry listed.output.content) listed.output.item.encode =
        some offset ∧
      writeCallerDatum (Located.listFrom front.length (outputs.map BuiltOutput.item))
        (front ++ encodeOutputs (outputs.take bound) ++ back) row.1 row.2 =
        .ok (front ++ encodeOutputs (outputs.take row.1) ++
          (listed.output.item.encode.take offset ++ inlineDatumEntry row.2 ++
            listed.output.item.encode.drop
              (offset + (inlineDatumEntry listed.output.content).length) ++
            (encodeOutputs ((outputs.take bound).drop (row.1 + 1)) ++ back))) := by
  obtain ⟨offset, -, found⟩ := @List.exists_firstOccurrence UInt8 _
    (inlineDatumEntry listed.output.content) listed.output.front listed.output.back
  rw [← listed.output.encode_item] at found
  refine ⟨offset, found, ?_⟩
  have atItem : (outputs.map BuiltOutput.item)[row.1]? = some listed.output.item := by
    rw [List.getElem?_map, listed.atIndex]
    rfl
  have located := @Located.getElem?_listFrom front.length _ _ _ atItem
  rw [← List.map_take, ← encodeOutputs, ← List.length_append] at located
  have bytes : front ++ encodeOutputs (outputs.take bound) ++ back =
      front ++ encodeOutputs (outputs.take row.1) ++ listed.output.item.encode ++
        (encodeOutputs ((outputs.take bound).drop (row.1 + 1)) ++ back) := by
    rw [split_at listed below, encodeOutputs_append, encodeOutputs_cons]
    simp only [List.append_assoc, BuiltOutput.item, ← split_at listed below]
  have isFound : indexOf (inlineDatumEntry listed.output.content) listed.output.item.encode =
      some offset := found
  rw [bytes]
  simp only [writeCallerDatum, located, Option.bind_some, DatumOutput.inlineDatum?_item,
    listed.reads, Option.map_some, listed.encoded, Located.stop, subarray_middle, isFound]
  rw [splice_middle (found_within isFound), List.append_assoc]

/-- Written from the last output to the first, the datums stand as listed exactly if each is found
at its own place. -/
theorem foldlM_writeCallerDatum {rows : List (Nat × Bytes)}
    (descending : rows.Pairwise fun first second => second.1 < first.1)
    (listed : ∀ row ∈ rows, ListedDatum outputs row) {bound : Nat}
    (below : ∀ row ∈ rows, row.1 < bound) (front back : Bytes) :
    ∃ bytes, rows.foldlM (fun bytes row =>
        writeCallerDatum (Located.listFrom front.length (outputs.map BuiltOutput.item)) bytes row.1
          row.2) (front ++ encodeOutputs (outputs.take bound) ++ back) = .ok bytes ∧
      ∀ other, other.length = back.length →
        (bytes = front ++ encodeOutputs (writeListed (outputs.take bound) rows) ++ other ↔
          back = other ∧ ∀ row, (member : row ∈ rows) →
            FoundAtDatum (listed row member).output row.2) := by
  induction rows generalizing bound back with
  | nil =>
      refine ⟨_, rfl, fun other _ => ?_⟩
      simp [writeListed]
  | cons row rows ih =>
      have rowMem : row ∈ row :: rows := List.mem_cons_self ..
      have isBelow := below row rowMem
      obtain ⟨offset, found, written⟩ := writeCallerDatum_eq (listed row rowMem) isBelow front back
      obtain ⟨earlier, later⟩ := List.pairwise_cons.mp descending
      obtain ⟨bytes, run, meets⟩ := ih later
        (fun other member => listed other (List.mem_cons_of_mem _ member)) earlier
        ((listed row rowMem).output.item.encode.take offset ++ inlineDatumEntry row.2 ++
          (listed row rowMem).output.item.encode.drop
            (offset + (inlineDatumEntry (listed row rowMem).output.content).length) ++
          (encodeOutputs ((outputs.take bound).drop (row.1 + 1)) ++ back))
      refine ⟨bytes, ?_, fun other sameLength => ?_⟩
      · rw [List.foldlM_cons, written]
        exact run
      · have placed : writeListed (outputs.take bound) (row :: rows) =
            writeListed (outputs.take row.1) rows ++
              .datum ((listed row rowMem).output.write row.2) ::
                (outputs.take bound).drop (row.1 + 1) := by
          have inside : (outputs.take row.1).length = row.1 := by
            obtain ⟨isInside, -⟩ := List.getElem?_eq_some_iff.mp (listed row rowMem).atIndex
            rw [List.length_take, Nat.min_eq_left isInside.le]
          rw [writeListed, List.foldl_cons, modify_take (listed row rowMem) isBelow, ← writeListed,
            writeListed_append]
          intro other member
          rw [inside]
          exact earlier other member
        have within := found_within found
        have sizes : ((listed row rowMem).output.item.encode.take offset ++
            inlineDatumEntry row.2 ++ (listed row rowMem).output.item.encode.drop
              (offset + (inlineDatumEntry (listed row rowMem).output.content).length)).length =
            ((listed row rowMem).output.write row.2).item.encode.length := by
          have whole := congrArg List.length (listed row rowMem).output.encode_item
          rw [DatumOutput.encode_write]
          simp only [List.length_append, List.length_take, List.length_drop] at whole within ⊢
          omega
        have each := DatumOutput.replace_eq_iff
          ((listed row rowMem).short.trans (by decide)) ((listed row rowMem).isShort.trans (by decide))
          found
        have target : front ++ encodeOutputs (writeListed (outputs.take bound) (row :: rows)) ++
            other = front ++ encodeOutputs (writeListed (outputs.take row.1) rows) ++
              (((listed row rowMem).output.write row.2).item.encode ++
                (encodeOutputs ((outputs.take bound).drop (row.1 + 1)) ++ other)) := by
          rw [placed, encodeOutputs_append, encodeOutputs_cons]
          simp only [List.append_assoc, BuiltOutput.item]
        have lengths := sizes
        simp only [List.length_append] at lengths
        rw [target, meets _ (by simp only [List.length_append]; omega)]
        constructor
        · rintro ⟨same, others⟩
          obtain ⟨own, rest⟩ := List.append_inj same sizes
          refine ⟨List.append_cancel_left rest, fun other member => ?_⟩
          rcases List.mem_cons.mp member with rfl | later
          · exact each.mp own
          · exact others other later
        · rintro ⟨same, others⟩
          refine ⟨?_, fun other member => others other (List.mem_cons_of_mem _ member)⟩
          rw [same, each.mpr (others row rowMem)]

end Writing

/-! ## Transactions -/

/-- A transaction in the layout that Buildooor writes: a body with its outputs, then the rest. -/
structure TxLayout where
  rootHead : CborHead
  bodyHead : CborHead
  /-- Entries before the outputs. -/
  before : List CborItem
  outputsHead : CborHead
  outputs : List BuiltOutput
  /-- Entries after the outputs. -/
  after : List CborItem
  /-- Witness set, validity and auxiliary data. -/
  rest : List CborItem
  even : before.length % 2 = 0
  noOutputs : ∀ pair ∈ pairs before, pair.1.isUInt 1 = false

namespace TxLayout

variable (tx : TxLayout)

def outputList : CborItem := node tx.outputsHead (tx.outputs.map BuiltOutput.item)

def body : CborItem := node tx.bodyHead (tx.before ++ uint 1 :: tx.outputList :: tx.after)

def root : CborItem := node tx.rootHead (tx.body :: tx.rest)

/-- The bytes before the outputs. -/
def front : Bytes :=
  tx.rootHead.encode ++ tx.bodyHead.encode ++ encodeItems tx.before ++ (uint 1).encode ++
    tx.outputsHead.encode

/-- The bytes after the outputs. -/
def back : Bytes :=
  (if tx.outputsHead.count.isNone then [0xff] else []) ++ encodeItems tx.after ++
    (if tx.bodyHead.count.isNone then [0xff] else []) ++ encodeItems tx.rest ++
    if tx.rootHead.count.isNone then [0xff] else []

theorem encode_root : tx.root.encode = tx.front ++ encodeOutputs tx.outputs ++ tx.back := by
  simp only [root, body, outputList, encode, encodeItems_append, encodeItems, front, back,
    encodeOutputs, List.append_assoc]

/-- The transaction with other outputs. -/
def withOutputs (outputs : List BuiltOutput) : TxLayout := { tx with outputs }

/-- The outputs are read at the offsets of their bytes. -/
theorem outputs_eq (wellFormed : tx.root.WellFormed) :
    LedgerBytes.outputs ⟨tx.root, wellFormed⟩ =
      Located.listFrom tx.front.length (tx.outputs.map BuiltOutput.item) := by
  have entry := @Located.entryOf_node tx.bodyHead tx.before tx.after (uint 1) tx.outputList 1
    tx.rootHead.encode.length tx.even rfl tx.noOutputs
  have first : LedgerBytes.part? tx.root 0 = some ⟨tx.body, tx.rootHead.encode.length⟩ := by
    simp only [LedgerBytes.part?, root, Located.children, Located.listFrom, Nat.zero_add,
      List.getElem?_cons_zero]
  rw [body] at first
  simp only [LedgerBytes.outputs, first, Option.bind_some, entry, Option.map_some,
    Option.getD_some]
  simp only [outputList, Located.children, front, List.length_append]

theorem wellFormed_writeListed {outputs : List BuiltOutput} {rows : List (Nat × Bytes)}
    (short : ∀ row ∈ rows, row.2.length < 2 ^ 53)
    (wellFormed : ∀ o ∈ outputs, o.item.WellFormed) :
    ∀ o ∈ writeListed outputs rows, o.item.WellFormed := by
  induction rows generalizing outputs with
  | nil => exact wellFormed
  | cons row rows ih =>
      rw [writeListed, List.foldl_cons, ← writeListed]
      refine ih (fun other member => short other (List.mem_cons_of_mem _ member)) ?_
      intro o member
      obtain ⟨index, found⟩ := List.mem_iff_getElem?.mp member
      rw [List.getElem?_modify, Option.map_eq_map, Option.map_eq_some_iff] at found
      obtain ⟨old, isOld, rfl⟩ := found
      have isItem := wellFormed old (List.mem_of_getElem? isOld)
      split
      · cases old with
        | plain item => exact isItem
        | datum o =>
            have isShort := short row (List.mem_cons_self ..)
            exact DatumOutput.wellFormed_write (isShort.trans (by decide)) isItem
      · exact isItem

theorem wellFormed_withOutputs {tx : TxLayout} (wellFormed : tx.root.WellFormed)
    {outputs : List BuiltOutput} (sameSize : outputs.length = tx.outputs.length)
    (areWellFormed : ∀ o ∈ outputs, o.item.WellFormed) :
    (tx.withOutputs outputs).root.WellFormed := by
  obtain ⟨isRoot, ⟨isBody, parts⟩, isRest⟩ := wellFormed
  obtain ⟨areBefore, isKey, ⟨isList, -⟩, areAfter⟩ := allWellFormed_append.mp parts
  refine ⟨isRoot, ⟨?_, allWellFormed_append.mpr ⟨areBefore, isKey, ⟨?_, ?_⟩, areAfter⟩⟩, isRest⟩
  · simp only [List.length_append, List.length_cons] at isBody ⊢
    exact isBody
  · rw [List.length_map] at isList ⊢
    exact (congrArg (IsNode tx.outputsHead) sameSize).mpr isList
  · rw [allWellFormed_iff]
    intro item member
    obtain ⟨o, isOutput, rfl⟩ := List.mem_map.mp member
    exact areWellFormed o isOutput

theorem wellFormed_outputs {tx : TxLayout} (wellFormed : tx.root.WellFormed) :
    ∀ o ∈ tx.outputs, o.item.WellFormed := by
  obtain ⟨-, ⟨-, parts⟩, -⟩ := wellFormed
  obtain ⟨-, -, ⟨-, items⟩, -⟩ := allWellFormed_append.mp parts
  intro o member
  exact (allWellFormed_iff _).mp items o.item (List.mem_map_of_mem member)

end TxLayout

/-- A transaction is read from its bytes only. -/
theorem fromCbor_eq_ok_iff {bytes : Bytes} {tx : LedgerBytes} :
    LedgerBytes.fromCbor bytes = .ok tx ↔ bytes = tx.root.encode := by
  unfold LedgerBytes.fromCbor
  constructor
  · intro read
    split at read
    · rename_i root parsed
      cases read
      exact (wellFormed_of_parse parsed).2.symm
    · cases read
  · rintro rfl
    split
    · rename_i root parsed
      rw [parse_encode tx.wellFormed] at parsed
      cases parsed
      rfl
    · rename_i nothing
      rw [parse_encode tx.wellFormed] at nothing
      cases nothing

/-! ## Main result -/

section Main

variable [DatumPackages]

/-- Caller datums for outputs of a built transaction whose values Buildooor encoded there. -/
structure DatumRequest where
  tx : TxLayout
  wellFormed : tx.root.WellFormed
  datums : OrderedMap Nat Bytes
  listed : ∀ row ∈ datums.rows, ListedDatum tx.outputs row

namespace DatumRequest

variable (request : DatumRequest)

def built : LedgerBytes := ⟨request.tx.root, request.wellFormed⟩

/-- The transaction with the caller's bytes at each listed output and nothing else changed. -/
def written : LedgerBytes :=
  ⟨(request.tx.withOutputs (writeListed request.tx.outputs request.datums.rows)).root,
    TxLayout.wellFormed_withOutputs request.wellFormed (length_writeListed _ _)
      (TxLayout.wellFormed_writeListed (fun row member => (request.listed row member).isShort)
        (TxLayout.wellFormed_outputs request.wellFormed))⟩

/-- The listed datums in the order in which they are written. -/
def sortedRows : List (Nat × Bytes) :=
  request.datums.rows.mergeSort fun first second => decide (second.1 ≤ first.1)

theorem sortedRows_perm : request.sortedRows.Perm request.datums.rows := List.mergeSort_perm _ _

theorem sortedRows_descending :
    request.sortedRows.Pairwise fun first second => second.1 < first.1 := by
  have sorted : request.sortedRows.Pairwise fun first second =>
      decide (second.1 ≤ first.1) = true := by
    refine List.pairwise_mergeSort (fun first second third atMost below => ?_)
      (fun first second => ?_) request.datums.rows
    · exact decide_eq_true (Nat.le_trans (of_decide_eq_true below) (of_decide_eq_true atMost))
    · rcases Nat.le_total second.1 first.1 with less | more
      · simp [less]
      · simp [more]
  have distinct : request.sortedRows.Pairwise fun first second => first.1 ≠ second.1 := by
    have keys := (request.sortedRows_perm.map Prod.fst).nodup_iff.mpr request.datums.keys_nodup
    exact List.pairwise_map.mp keys
  refine (sorted.and distinct).imp ?_
  rintro first second ⟨atMost, apart⟩
  exact Nat.lt_of_le_of_ne (of_decide_eq_true atMost) apart.symm

/-- The order in which distinct outputs are written does not matter. -/
theorem writeListed_sortedRows (outputs : List BuiltOutput) :
    writeListed outputs request.sortedRows = writeListed outputs request.datums.rows := by
  refine request.sortedRows_perm.foldl_eq' (fun first isFirst second isSecond outputs => ?_) outputs
  by_cases same : first.1 = second.1
  · have keys := (request.sortedRows_perm.map Prod.fst).nodup_iff.mpr request.datums.keys_nodup
    rw [List.inj_on_of_nodup_map keys isFirst isSecond same]
  · exact List.modify_modify_ne _ _ outputs same

/-- The patched bytes are those of the written transaction exactly if each datum is found at its
own place. -/
theorem writeCallerDatums_eq_written_iff :
    writeCallerDatums request.built request.datums = .ok request.written ↔
      ∀ row, (member : row ∈ request.datums.rows) →
        FoundAtDatum (request.listed row member).output row.2 := by
  have inSorted {row : Nat × Bytes} : row ∈ request.sortedRows ↔ row ∈ request.datums.rows :=
    request.sortedRows_perm.mem_iff
  obtain ⟨bytes, run, meets⟩ := foldlM_writeCallerDatum request.sortedRows_descending
    (fun row member => request.listed row (inSorted.mp member))
    (fun row member =>
      (List.getElem?_eq_some_iff.mp (request.listed row (inSorted.mp member)).atIndex).1)
    request.tx.front request.tx.back
  have whole := meets request.tx.back rfl
  rw [List.take_length] at run
  rw [List.take_length, request.writeListed_sortedRows] at whole
  have target : request.written.root.encode = request.tx.front ++
      encodeOutputs (writeListed request.tx.outputs request.datums.rows) ++ request.tx.back :=
    TxLayout.encode_root _
  have places : bytes = request.written.root.encode ↔ ∀ row, (member : row ∈ request.datums.rows) →
      FoundAtDatum (request.listed row member).output row.2 := by
    rw [target, whole]
    exact ⟨fun found row member => found.2 row (inSorted.mpr member),
      fun found => ⟨rfl, fun row member => found row (inSorted.mp member)⟩⟩
  rw [← places]
  by_cases nothing : request.datums.rows = []
  · have unchanged : request.written = request.built := by
      simp only [written, built, nothing, writeListed, List.foldl_nil]
      rfl
    have holds := places.mpr fun row member => absurd (nothing ▸ member) List.not_mem_nil
    simp only [writeCallerDatums, if_pos nothing, unchanged, true_iff]
    rw [holds, unchanged]
  · have outputs : request.built.outputs =
        Located.listFrom request.tx.front.length (request.tx.outputs.map BuiltOutput.item) :=
      request.tx.outputs_eq request.wellFormed
    have start : request.built.toCbor =
        request.tx.front ++ encodeOutputs request.tx.outputs ++ request.tx.back :=
      request.tx.encode_root
    have steps : writeCallerDatums request.built request.datums = LedgerBytes.fromCbor bytes := by
      rw [writeCallerDatums, if_neg nothing, outputs, start]
      change (request.sortedRows.foldlM _ _ >>= LedgerBytes.fromCbor) = _
      rw [run]
      rfl
    rw [steps, fromCbor_eq_ok_iff]

end DatumRequest

/-- Only the listed datums change: the transaction returned is the one with the caller's bytes at
each listed output, and it is written out and hashed with these bytes. -/
structure WritesOnlyListed (request : DatumRequest) : Prop where
  returns : ∃ tx, writeCallerDatums request.built request.datums = .ok tx ∧
    tx.root = request.written.root ∧ tx.toCbor = request.written.toCbor ∧
      tx.hash = request.written.hash

theorem writesOnlyListed_iff_written (request : DatumRequest) :
    WritesOnlyListed request ↔
      writeCallerDatums request.built request.datums = .ok request.written := by
  constructor
  · rintro ⟨tx, written, sameRoot, -, -⟩
    obtain ⟨root, wellFormed⟩ := tx
    cases sameRoot
    exact written
  · intro written
    exact ⟨request.written, written, rfl, rfl, rfl⟩

/-- `writeCallerDatums` changes only the listed datums exactly where the bytes that Buildooor wrote
for each of them do not occur earlier in its output, unless the caller's bytes are the same. -/
theorem writeCallerDatums_writes_only_listed_iff (request : DatumRequest) :
    WritesOnlyListed request ↔ ∀ row, (member : row ∈ request.datums.rows) →
      FoundAtDatum (request.listed row member).output row.2 :=
  (writesOnlyListed_iff_written request).trans request.writeCallerDatums_eq_written_iff

end Main

section Sample

/-- Packages that read the integer 1 from its short and its long form and write the short one; a
hash is the first bytes. -/
@[reducible] def datumPackages : DatumPackages where
  dataFromCbor bytes := if bytes = [0x01] ∨ bytes = [0x18, 0x01] then some (.int 1) else none
  dataToCbor _ := [0x01]
  blake2b_256 bytes := (bytes ++ List.replicate 32 0).take 32
  isCbor_of_data bytes _ reads := by
    split at reads
    · rename_i listed
      rcases listed with rfl | rfl <;> decide +kernel
    · cases reads
  length_blake2b_256 bytes := by simp

/-- An output with the datum 1 and a token whose name is the bytes of such a datum's entry. -/
def tokenOutput : DatumOutput where
  head := ⟨5, some (.ofNat 3)⟩
  before := [uint 0, .bytes (0x61 :: List.replicate 28 0xaa), uint 1,
    node ⟨4, some (.ofNat 2)⟩ [uint 2000000,
      node ⟨5, some (.ofNat 1)⟩ [.bytes (List.replicate 28 0xbb),
        node ⟨5, some (.ofNat 1)⟩ [.bytes (inlineDatumEntry [0x01]), uint 5]]]]
  content := [0x01]
  after := []
  isMap := rfl
  even := rfl
  noDatum := by decide

/-- A transaction with this output. -/
def tokenTx : TxLayout where
  rootHead := ⟨4, some (.ofNat 4)⟩
  bodyHead := ⟨5, some (.ofNat 3)⟩
  before := [uint 0, node ⟨4, some (.ofNat 1)⟩
    [node ⟨4, some (.ofNat 2)⟩ [.bytes (List.replicate 32 0xcc), uint 0]]]
  outputsHead := ⟨4, some (.ofNat 1)⟩
  outputs := [.datum tokenOutput]
  after := [uint 2, uint 170000]
  rest := [node ⟨5, some (.ofNat 0)⟩ [], leaf 7 (.short 21) [], leaf 7 (.short 22) []]
  even := rfl
  noOutputs := by decide

/-- The caller's datum is the integer 1 in its long form. -/
@[reducible] def tokenDatumRequest : @DatumRequest datumPackages :=
  @DatumRequest.mk datumPackages tokenTx (by decide +kernel) ⟨[(0, [0x18, 0x01])], by decide⟩
    fun row member =>
      have same : row = (0, [0x18, 0x01]) := List.mem_singleton.mp member
      @ListedDatum.mk datumPackages _ _ tokenOutput (.int 1) (by rw [same]; rfl) rfl rfl
        (by rw [same]; rfl) (by decide) (by rw [same]; decide)

/-- The caller's bytes are written into the token's name. -/
theorem writeCallerDatums_hits_asset_name :
    ¬∀ request, @WritesOnlyListed datumPackages request := by
  intro writes
  have written := (@writesOnlyListed_iff_written datumPackages _).mp (writes tokenDatumRequest)
  have found := (@DatumRequest.writeCallerDatums_eq_written_iff datumPackages _).mp written _
    (List.mem_singleton_self (0, [0x18, 0x01]))
  rcases found with atDatum | same
  · exact absurd atDatum (by decide +kernel)
  · exact absurd same (by decide)

end Sample

end Odatano
