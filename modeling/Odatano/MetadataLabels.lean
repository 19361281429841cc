import Odatano.MetadataMapping

/-!
# Metadata labels

When the metadata mapping of `srv/blockchain/transaction-building/buildooor-tx.ts` keeps every
label and every value.  Labels become JavaScript numbers, and these the names of properties.
-/

namespace Odatano

/-- Rows written into an empty table are all there exactly if their keys are distinct. -/
theorem length_upsertAll_empty_iff {κ ρ : Type*} [DecidableEq κ] {key : ρ → κ} (rows : List ρ) :
    ((Table.empty : Table key).upsertAll rows).rows.length = rows.length ↔
      (rows.map key).Nodup := by
  constructor
  · intro sameLength
    have written : ((Table.empty : Table key).upsertAll rows).rows.map key ⊆ rows.map key := by
      intro k kMem
      obtain ⟨row, rowMem, rfl⟩ := List.mem_map.mp kMem
      rcases Table.mem_upsertAll rowMem with older | listed
      · cases older
      · exact List.mem_map_of_mem listed
    have kept : rows.map key ⊆ ((Table.empty : Table key).upsertAll rows).rows.map key := by
      intro k kMem
      by_contra absent
      have notFound : ((Table.empty : Table key).upsertAll rows).find? k = none := by
        refine Table.find?_eq_none_iff.mpr fun row rowMem isKey => absent ?_
        rw [← isKey]
        exact List.mem_map_of_mem rowMem
      rw [Table.find?_upsertAll_last, Table.find?_empty, Option.or_none,
        List.getLast?_eq_none_iff, List.filter_eq_nil_iff] at notFound
      obtain ⟨row, rowMem, isKey⟩ := List.mem_map.mp kMem
      exact notFound row rowMem (decide_eq_true isKey)
    have once := Table.keys_nodup ((Table.empty : Table key).upsertAll rows)
    have sub := List.subperm_of_subset once written
    have perm := sub.perm_of_length_le (by rw [List.length_map, List.length_map, sameLength])
    exact perm.nodup_iff.mp once
  · intro once
    rw [Table.rows_upsertAll_of_new _ once fun _ _ => List.not_mem_nil]
    rfl

section Mapping

variable [TxMetadataLibrary] {fields : List (JsString × Json JsString)}

/-- The entry of one label. -/
def EntryOf (field : JsString × Json JsString) (entry : JsString × TxMetadatum) : Prop :=
  JsString.isDigits field.1 = true ∧ entry.1 = labelKey field.1 ∧
    jsonToTxMetadatum field.2 field.1 = .ok entry.2

/-- The labels are assigned one after another. -/
theorem foldlM_setLabel {before after : OrderedMap JsString TxMetadatum} :
    fields.foldlM setLabel before = .ok after ↔
      ∃ entries, List.Forall₂ EntryOf fields entries ∧ after = before.upsertAll entries := by
  induction fields generalizing before with
  | nil =>
      constructor
      · intro assigned
        cases assigned
        exact ⟨[], .nil, rfl⟩
      · rintro ⟨entries, each, rfl⟩
        cases each
        rfl
  | cons field fields ih =>
      rw [List.foldlM_cons]
      constructor
      · intro assigned
        cases first : setLabel before field with
        | error e =>
            rw [first] at assigned
            cases assigned
        | ok next =>
            rw [first] at assigned
            obtain ⟨entries, each, rfl⟩ := ih.mp assigned
            unfold setLabel at first
            split at first
            · rename_i digits
              cases mapped : jsonToTxMetadatum field.2 field.1 with
              | error e =>
                  rw [mapped] at first
                  cases first
              | ok datum =>
                  rw [mapped] at first
                  cases first
                  exact ⟨(labelKey field.1, datum) :: entries,
                    .cons ⟨digits, rfl, mapped⟩ each, rfl⟩
            · cases first
      · rintro ⟨entries, each, rfl⟩
        cases each with
        | cons isEntry each =>
            rename_i entry entries
            obtain ⟨digits, isKey, mapped⟩ := isEntry
            have first : setLabel before field = .ok (before.upsert entry) := by
              unfold setLabel
              rw [if_pos digits, mapped]
              change Except.ok (before.upsert (labelKey field.1, entry.2)) = _
              rw [← isKey]
            rw [first]
            exact ih.mpr ⟨entries, each, rfl⟩

/-- Nothing of the metadata is refused. -/
def Accepted (fields : List (JsString × Json JsString)) : Prop :=
  ∀ field ∈ fields, JsString.isDigits field.1 = true ∧ Acceptable field.2 ∧
    TxMetadataLibrary.takesLabel (labelKey field.1) = true

theorem keys_of_entries {entries : List (JsString × TxMetadatum)}
    (each : List.Forall₂ EntryOf fields entries) :
    entries.map Prod.fst = fields.map fun field => labelKey field.1 := by
  induction each with
  | nil => rfl
  | cons isEntry _ ih => rw [List.map_cons, List.map_cons, ih, isEntry.2.1]

theorem exists_entries (taken : ∀ field ∈ fields, JsString.isDigits field.1 = true ∧ Acceptable field.2) :
    ∃ entries, List.Forall₂ EntryOf fields entries := by
  induction fields with
  | nil => exact ⟨[], .nil⟩
  | cons field fields ih =>
      obtain ⟨entries, each⟩ := ih fun f fMem => taken f (List.mem_cons_of_mem _ fMem)
      obtain ⟨digits, acceptable⟩ := taken field (List.mem_cons_self ..)
      obtain ⟨datum, mapped⟩ := (acceptable_iff field.2 field.1).mp acceptable
      exact ⟨(labelKey field.1, datum) :: entries, .cons ⟨digits, rfl, mapped⟩ each⟩

omit [TxMetadataLibrary] in
theorem mem_keys_upsertAll_empty {entries : List (JsString × TxMetadatum)} {label : JsString} :
    label ∈ OrderedMap.keys (Table.empty.upsertAll entries) ↔ label ∈ entries.map Prod.fst := by
  rw [OrderedMap.mem_keys_iff, OrderedMap.get?, Option.isSome_map,
    Table.find?_upsertAll_last, Table.find?_empty, Option.or_none, List.getLast?_isSome,
    ne_eq, List.filter_eq_nil_iff]
  simp

/-- What the mapping returns: the entries of the labels, assigned in turn. -/
theorem mapOdatanoMetadata_eq_ok {metadata : OrderedMap JsString TxMetadatum} :
    mapOdatanoMetadataToLedgerMetadata (.object fields) = .ok metadata ↔
      ∃ entries, List.Forall₂ EntryOf fields entries ∧ metadata = Table.empty.upsertAll entries ∧
        ∀ field ∈ fields, TxMetadataLibrary.takesLabel (labelKey field.1) = true := by
  have unfolded : mapOdatanoMetadataToLedgerMetadata (.object fields) =
      (fields.foldlM setLabel Table.empty).bind fun metadata =>
        if (OrderedMap.keys metadata).all TxMetadataLibrary.takesLabel then .ok metadata
        else .error .library := rfl
  rw [unfolded]
  have labels : ∀ {entries}, List.Forall₂ EntryOf fields entries →
      ((OrderedMap.keys (Table.empty.upsertAll entries)).all TxMetadataLibrary.takesLabel = true ↔
        ∀ field ∈ fields, TxMetadataLibrary.takesLabel (labelKey field.1) = true) := by
    intro entries each
    simp only [List.all_eq_true, mem_keys_upsertAll_empty, keys_of_entries each,
      List.forall_mem_map]
  constructor
  · intro mapped
    cases assigned : fields.foldlM setLabel Table.empty with
    | error e =>
        rw [assigned] at mapped
        cases mapped
    | ok built =>
        rw [assigned] at mapped
        obtain ⟨entries, each, rfl⟩ := foldlM_setLabel.mp assigned
        simp only [Except.bind] at mapped
        split at mapped
        · rename_i taken
          cases mapped
          exact ⟨entries, each, rfl, (labels each).mp taken⟩
        · cases mapped
  · rintro ⟨entries, each, rfl, taken⟩
    rw [foldlM_setLabel.mpr ⟨entries, each, rfl⟩]
    simp only [Except.bind]
    rw [if_pos ((labels each).mpr taken)]

/-! ## Nothing lost -/

/-- One entry for each label, under a key that writes the label's number, with the value. -/
structure MapsAll (fields : List (JsString × Json JsString))
    (metadata : OrderedMap JsString TxMetadatum) : Prop where
  one : metadata.rows.length = fields.length
  entry : ∀ field ∈ fields, ∃ entry ∈ metadata.rows,
    JsString.digits? entry.1 = some (JsString.digitsValue field.1) ∧ Mirrors field.2 entry.2

/-- The mapping refuses the metadata or maps all of it. -/
def LosesNothing (fields : List (JsString × Json JsString))
    (mapped : Except MetadataError (OrderedMap JsString TxMetadatum)) : Prop :=
  ∀ metadata, mapped = .ok metadata → MapsAll fields metadata

/-- JavaScript writes the label's number as it stands: of the naturals read as the same double it
is the one that is written, and it is below `10 ^ 21`. -/
def WrittenAsRead (label : JsString) : Prop :=
  JsString.digits? (labelKey label) = some (JsString.digitsValue label)

/-- Labels that are written as they are read, all different, and integers in the range of the
ledger. -/
structure Preservable (fields : List (JsString × Json JsString)) : Prop where
  written : ∀ field ∈ fields, WrittenAsRead field.1
  apart : (fields.map fun field => JsString.digitsValue field.1).Nodup
  range : ∀ field ∈ fields, ∀ n ∈ integersOf field.2, InLedgerRange n

/-- The label `2 ^ 55` is written as another number, which is written as itself. -/
example : labelKey (JsString.ofText "36028797018963968") = JsString.ofText "36028797018963970" ∧
    labelKey (JsString.ofText "36028797018963970") = JsString.ofText "36028797018963970" := by
  decide +kernel

omit [TxMetadataLibrary] in
/-- A key that writes a label's number is the label's own key. -/
theorem labelKey_eq_of_writes {label other : JsString}
    (writes : JsString.digits? (labelKey other) = some (JsString.digitsValue label)) :
    labelKey label = labelKey other := by
  have same : labelNumber label = labelNumber other := Binary64.nearest_of_naturalText writes
  rw [labelKey, same, labelKey]

omit [TxMetadataLibrary] in
theorem Preservable.keys (kept : Preservable fields) :
    (fields.map fun field => labelKey field.1).Nodup := by
  have read : (fields.map fun field => labelKey field.1).map JsString.digits? =
      (fields.map fun field => JsString.digitsValue field.1).map some := by
    rw [List.map_map, List.map_map]
    refine List.map_congr_left fun field fieldMem => ?_
    rw [Function.comp_apply, Function.comp_apply]
    exact kept.written field fieldMem
  have once := kept.apart.map (Option.some_injective Nat)
  rw [← read] at once
  exact once.of_map

theorem exists_entryOf {entries : List (JsString × TxMetadatum)}
    (each : List.Forall₂ EntryOf fields entries) {field : JsString × Json JsString}
    (fieldMem : field ∈ fields) : ∃ entry ∈ entries, EntryOf field entry := by
  obtain ⟨i, inside, rfl⟩ := List.getElem_of_mem fieldMem
  have inEntries : i < entries.length := each.length_eq ▸ inside
  exact ⟨entries[i], List.getElem_mem inEntries, each.get inside inEntries⟩

theorem mapsAll_of_preservable {entries : List (JsString × TxMetadatum)}
    (each : List.Forall₂ EntryOf fields entries) (kept : Preservable fields) :
    MapsAll fields (Table.empty.upsertAll entries) := by
  have keys := kept.keys
  rw [← keys_of_entries each] at keys
  refine ⟨?_, ?_⟩
  · rw [(length_upsertAll_empty_iff entries).mpr keys, each.length_eq]
  · intro field fieldMem
    obtain ⟨entry, entryMem, digits, isKey, mapped⟩ := exists_entryOf each fieldMem
    have found := Table.find?_upsertAll_of_mem Table.empty keys entryMem
    refine ⟨entry, (Table.find?_eq_some_iff.mp found).1, ?_,
      (mirrors_iff mapped).mpr (kept.range field fieldMem)⟩
    rw [isKey]
    exact kept.written field fieldMem

theorem preservable_of_mapsAll {entries : List (JsString × TxMetadatum)}
    (each : List.Forall₂ EntryOf fields entries)
    (mapsAll : MapsAll fields (Table.empty.upsertAll entries)) : Preservable fields := by
  have keys := mapsAll.one
  rw [each.length_eq, length_upsertAll_empty_iff, keys_of_entries each] at keys
  -- a label's entry is under its own key
  have stored : ∀ field ∈ fields,
      ∃ entry ∈ ((Table.empty : OrderedMap JsString TxMetadatum).upsertAll entries).rows,
        entry.1 = labelKey field.1 ∧ WrittenAsRead field.1 ∧ Mirrors field.2 entry.2 := by
    intro field fieldMem
    obtain ⟨entry, entryMem, writes, mirrors⟩ := mapsAll.entry field fieldMem
    have isKey : entry.1 ∈ OrderedMap.keys (Table.empty.upsertAll entries) :=
      List.mem_map_of_mem entryMem
    rw [mem_keys_upsertAll_empty, keys_of_entries each] at isKey
    obtain ⟨other, -, isOther⟩ := List.mem_map.mp isKey
    rw [← isOther] at writes
    have own := labelKey_eq_of_writes writes
    refine ⟨entry, entryMem, isOther.symm.trans own.symm, ?_, mirrors⟩
    rw [WrittenAsRead, own]
    exact writes
  refine ⟨fun field fieldMem => ?_, ?_, ?_⟩
  · obtain ⟨entry, -, -, written, -⟩ := stored field fieldMem
    exact written
  · -- two labels of one number would have one key
    have numbers : (fields.map fun field => labelKey field.1) =
        (fields.map fun field => JsString.digitsValue field.1).map fun value =>
          Binary64.naturalText (Binary64.nearest value 1) := by
      rw [List.map_map]
      rfl
    rw [numbers] at keys
    exact keys.of_map
  · intro field fieldMem
    obtain ⟨entry, entryMem, isKey, -, mirrors⟩ := stored field fieldMem
    obtain ⟨own, ownMem, digits, isOwn, mapped⟩ := exists_entryOf each fieldMem
    rw [← keys_of_entries each] at keys
    have found := Table.find?_upsertAll_of_mem Table.empty keys ownMem
    have listed := Table.find?_eq_some_iff.mpr ⟨entryMem, isKey.trans isOwn.symm⟩
    rw [found, Option.some_inj] at listed
    rw [← listed] at mirrors
    exact (mirrors_iff mapped).mp mirrors

/-- The mapping loses nothing exactly if the metadata is refused or its labels are different and
written as they are read, and its integers in range. -/
theorem mapOdatanoMetadata_losesNothing_iff (fields : List (JsString × Json JsString)) :
    LosesNothing fields (mapOdatanoMetadataToLedgerMetadata (.object fields)) ↔
      (Accepted fields → Preservable fields) := by
  constructor
  · intro losesNothing accepted
    obtain ⟨entries, each⟩ := exists_entries fun field fieldMem =>
      ⟨(accepted field fieldMem).1, (accepted field fieldMem).2.1⟩
    refine preservable_of_mapsAll each (losesNothing _ ?_)
    exact mapOdatanoMetadata_eq_ok.mpr
      ⟨entries, each, rfl, fun field fieldMem => (accepted field fieldMem).2.2⟩
  · intro preservable metadata mapped
    obtain ⟨entries, each, rfl, taken⟩ := mapOdatanoMetadata_eq_ok.mp mapped
    refine mapsAll_of_preservable each (preservable fun field fieldMem => ?_)
    obtain ⟨entry, -, digits, -, isMapped⟩ := exists_entryOf each fieldMem
    exact ⟨digits, (acceptable_iff _ _).mpr ⟨_, isMapped⟩, taken field fieldMem⟩

end Mapping

/-! ## Two labels of one number -/

/-- A library that checks nothing. -/
@[reducible] def uncheckedMetadata : TxMetadataLibrary := ⟨fun _ => true, fun _ => true⟩

/-- `{"1": 5, "01": 6}`. -/
def paddedLabels : List (JsString × Json JsString) :=
  [(JsString.ofText "1", .number (.ofInt 5)), (JsString.ofText "01", .number (.ofInt 6))]

/-- The second label replaces the first. -/
theorem mapOdatanoMetadata_loses :
    ¬LosesNothing paddedLabels
      (@mapOdatanoMetadataToLedgerMetadata uncheckedMetadata (.object paddedLabels)) := by
  intro losesNothing
  have rows : (@mapOdatanoMetadataToLedgerMetadata uncheckedMetadata (.object paddedLabels)).map
      (fun metadata => metadata.rows.length) = .ok 1 := by decide +kernel
  cases mapped : @mapOdatanoMetadataToLedgerMetadata uncheckedMetadata (.object paddedLabels) with
  | error e =>
      rw [mapped] at rows
      cases rows
  | ok metadata =>
      rw [mapped] at rows
      have isOne : metadata.rows.length = 1 := Except.ok.inj rows
      have one := (losesNothing metadata mapped).one
      rw [isOne] at one
      exact absurd one (by decide)

end Odatano
