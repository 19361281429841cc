import Odatano.WellFormedRequests

/-!
# Well-formed outputs

What `parseOutputList` takes, and when the parsers of a request return well-formed values only.
-/

namespace Odatano

section Outputs

variable [RequestPackages]

open RequestPackages

/-! ## The fields of an output -/

/-- The value of an optional key: it is missing, or what it holds is read. -/
def ReadsOptional {α : Type} (entry : Json JsString) (key : String)
    (Reads : Json JsString → α → Prop) : Option α → Prop
  | none => entry.present? key = none
  | some out => ∃ value, entry.present? key = some value ∧ Reads value out

structure ReadsOutput (fieldName : OutputListField) (entry : Json JsString)
    (out : ParsedExtraOutput) : Prop where
  address : entryText entry "address" = some out.address
  valid : isValidBech32Address out.address = .ok true
  lovelaceAmount : entryText entry "lovelaceAmount" = some out.lovelaceAmount
  amount : isAmount out.lovelaceAmount = true
  assets : ReadsOptional entry "assets" (fun value assets => ∃ items, value = .array items ∧
    List.Forall₂ ReadsAsset items assets) out.assets
  inlineDatum : ReadsOptional entry "inlineDatumJson" (fun value datum => ∃ text,
    value = .string text ∧ ReadsJson text PLUTUS_DATA_MAX_DEPTH datum) out.inlineDatum
  inlineDatumCbor : ReadsOptional entry "inlineDatumCbor" (fun value hex =>
    fieldName = .outputsJson ∧ out.inlineDatum = none ∧ ∃ text, value = .string text ∧
      isValidCbor text = true ∧ DecodesAsData text ∧ hex = text.toLowerCase) out.inlineDatumCbor
  datumHash : ReadsOptional entry "datumHash" (fun value hash =>
    fieldName = .outputsJson ∧ out.inlineDatum = none ∧ out.inlineDatumCbor = none ∧ ∃ text,
      value = .string text ∧ isDatumHash text = true ∧ hash = text.toLowerCase) out.datumHash
  referenceScript : ReadsOptional entry "referenceScriptHex" (fun value script =>
    value = .string script ∧ isValidCbor script = true) out.referenceScript

omit [RequestPackages] in
theorem parseOutputAssets_eq_ok_iff {path : String} {entry : Json JsString}
    {assets : Option (List ParsedAsset)} :
    parseOutputAssets path entry = .ok assets ↔
      ReadsOptional entry "assets" (fun value assets => ∃ items, value = .array items ∧
        List.Forall₂ ReadsAsset items assets) assets := by
  have each := parseEach_eq_ok_iff
    (fun i => parseAsset_eq_ok_iff (entryPath (path ++ ".assets") i)) 0
  unfold parseOutputAssets
  cases given : entry.present? "assets" with
  | none =>
      cases assets with
      | none => exact iff_of_true rfl given
      | some assets => exact iff_of_false nofun (by simp [ReadsOptional, given])
  | some value =>
      cases assets with
      | none =>
          refine iff_of_false ?_ (by simp [ReadsOptional, given])
          cases value with
          | array items =>
              intro parsed
              obtain ⟨outs, -, wrapped⟩ := bind_eq_ok_iff.mp parsed
              cases wrapped
          | _ => nofun
      | some assets =>
          cases value with
          | array items =>
              refine bind_eq_ok_iff.trans ?_
              constructor
              · rintro ⟨outs, parsed, wrapped⟩
                cases wrapped
                exact ⟨_, given, items, rfl, (each items _).mp parsed⟩
              · rintro ⟨value, isValue, items', rfl, reads⟩
                cases given.symm.trans isValue
                exact ⟨assets, (each items assets).mpr reads, rfl⟩
          | _ =>
              refine iff_of_false nofun ?_
              rintro ⟨value, isValue, items, rfl, -⟩
              cases given.symm.trans isValue

theorem parseInlineDatum_eq_ok_iff {path : String} {entry : Json JsString}
    {datum : Option (Json JsString)} :
    parseInlineDatum path entry = .ok datum ↔
      ReadsOptional entry "inlineDatumJson" (fun value datum => ∃ text, value = .string text ∧
        ReadsJson text PLUTUS_DATA_MAX_DEPTH datum) datum := by
  unfold parseInlineDatum
  cases given : entry.present? "inlineDatumJson" with
  | none =>
      cases datum with
      | none => exact iff_of_true rfl given
      | some datum => exact iff_of_false nofun (by simp [ReadsOptional, given])
  | some value =>
      cases datum with
      | none =>
          refine iff_of_false ?_ (by simp [ReadsOptional, given])
          cases value with
          | string text =>
              intro parsed
              obtain ⟨outs, -, wrapped⟩ := bind_eq_ok_iff.mp parsed
              cases wrapped
          | _ => nofun
      | some datum =>
          cases value with
          | string text =>
              refine bind_eq_ok_iff.trans ?_
              constructor
              · rintro ⟨out, parsed, wrapped⟩
                cases wrapped
                exact ⟨_, given, text, rfl, validateJsonWithLimits_eq_ok_iff.mp parsed⟩
              · rintro ⟨value, isValue, text', rfl, reads⟩
                cases given.symm.trans isValue
                exact ⟨datum, validateJsonWithLimits_eq_ok_iff.mpr reads, rfl⟩
          | _ =>
              refine iff_of_false nofun ?_
              rintro ⟨value, isValue, text, rfl, -⟩
              cases given.symm.trans isValue

theorem parseInlineDatumCbor_eq_ok_iff {fieldName : OutputListField} {path : String}
    {entry : Json JsString} {inlineDatum : Option (Json JsString)} {cbor : Option JsString} :
    parseInlineDatumCbor fieldName path entry inlineDatum = .ok cbor ↔
      ReadsOptional entry "inlineDatumCbor" (fun value hex => fieldName = .outputsJson ∧
        inlineDatum = none ∧ ∃ text, value = .string text ∧ isValidCbor text = true ∧
          DecodesAsData text ∧ hex = text.toLowerCase) cbor := by
  unfold parseInlineDatumCbor
  cases given : entry.present? "inlineDatumCbor" with
  | none =>
      cases cbor with
      | none => exact iff_of_true rfl given
      | some hex => exact iff_of_false nofun (by simp [ReadsOptional, given])
  | some value =>
      simp only
      split
      · rename_i other
        refine iff_of_false nofun ?_
        cases cbor with
        | none => simp [ReadsOptional, given]
        | some hex =>
            rintro ⟨-, -, isOutputs, -⟩
            exact other isOutputs
      split
      · rename_i taken
        refine iff_of_false nofun ?_
        cases cbor with
        | none => simp [ReadsOptional, given]
        | some hex =>
            rintro ⟨-, -, -, free, -⟩
            rw [free] at taken
            cases taken
      rename_i isOutputs free
      have isOutputs : fieldName = .outputsJson := Decidable.not_not.mp isOutputs
      have free : inlineDatum = none := by simpa using free
      refine bind_eq_ok_iff.trans ?_
      constructor
      · rintro ⟨hex, parsed, wrapped⟩
        cases wrapped
        obtain ⟨text, isText, valid, decodes, same⟩ := parsePlutusCbor_eq_ok_iff.mp parsed
        cases isText
        exact ⟨_, given, isOutputs, free, text, rfl, valid, decodes, same⟩
      · cases cbor with
        | none => simp [ReadsOptional, given]
        | some hex =>
            rintro ⟨value', isValue, -, -, text, rfl, valid, decodes, same⟩
            cases given.symm.trans isValue
            exact ⟨hex, parsePlutusCbor_eq_ok_iff.mpr ⟨text, rfl, valid, decodes, same⟩, rfl⟩

omit [RequestPackages] in
theorem parseDatumHash_eq_ok_iff {fieldName : OutputListField} {path : String}
    {entry : Json JsString} {inlineDatum : Option (Json JsString)}
    {inlineDatumCbor datumHash : Option JsString} :
    parseDatumHash fieldName path entry inlineDatum inlineDatumCbor = .ok datumHash ↔
      ReadsOptional entry "datumHash" (fun value hash => fieldName = .outputsJson ∧
        inlineDatum = none ∧ inlineDatumCbor = none ∧ ∃ text, value = .string text ∧
          isDatumHash text = true ∧ hash = text.toLowerCase) datumHash := by
  unfold parseDatumHash
  cases given : entry.present? "datumHash" with
  | none =>
      cases datumHash with
      | none => exact iff_of_true rfl given
      | some hash => exact iff_of_false nofun (by simp [ReadsOptional, given])
  | some value =>
      simp only
      split
      · rename_i other
        refine iff_of_false nofun ?_
        cases datumHash with
        | none => simp [ReadsOptional, given]
        | some hash =>
            rintro ⟨-, -, isOutputs, -⟩
            exact other isOutputs
      rename_i isOutputs
      have isOutputs : fieldName = .outputsJson := Decidable.not_not.mp isOutputs
      split
      · rename_i noHash
        refine iff_of_false nofun ?_
        cases datumHash with
        | none => simp [ReadsOptional, given]
        | some hash =>
            rintro ⟨value', isValue, -, -, -, text, rfl, valid, -⟩
            cases given.symm.trans isValue
            have invalid := filter_text_eq_none_iff.mp noHash text rfl
            rw [valid] at invalid
            cases invalid
      rename_i text isText
      obtain ⟨textGiven, valid⟩ := Option.filter_eq_some_iff.mp isText
      have isString : value = .string text := by
        cases value with
        | string other => exact congrArg Json.string (Option.some.inj textGiven)
        | _ => cases textGiven
      subst isString
      split
      · rename_i taken
        refine iff_of_false nofun ?_
        cases datumHash with
        | none => simp [ReadsOptional, given]
        | some hash =>
            rintro ⟨-, -, -, free, freeCbor, -⟩
            rw [free, freeCbor] at taken
            cases taken
      rename_i free
      have free : inlineDatum = none ∧ inlineDatumCbor = none := by simpa using free
      constructor
      · rintro ⟨⟩
        exact ⟨_, given, isOutputs, free.1, free.2, text, rfl, valid, rfl⟩
      · cases datumHash with
        | none => simp [ReadsOptional, given]
        | some hash =>
            rintro ⟨value, isValue, -, -, -, text', rfl, -, rfl⟩
            cases given.symm.trans isValue
            rfl

omit [RequestPackages] in
theorem parseReferenceScript_eq_ok_iff {path : String} {entry : Json JsString}
    {referenceScript : Option JsString} :
    parseReferenceScript path entry = .ok referenceScript ↔
      ReadsOptional entry "referenceScriptHex" (fun value script => value = .string script ∧
        isValidCbor script = true) referenceScript := by
  unfold parseReferenceScript
  cases given : entry.present? "referenceScriptHex" with
  | none =>
      cases referenceScript with
      | none => exact iff_of_true rfl given
      | some script => exact iff_of_false nofun (by simp [ReadsOptional, given])
  | some value =>
      simp only
      split
      · rename_i noScript
        refine iff_of_false nofun ?_
        cases referenceScript with
        | none => simp [ReadsOptional, given]
        | some script =>
            rintro ⟨value', isValue, rfl, valid⟩
            cases given.symm.trans isValue
            have invalid := filter_text_eq_none_iff.mp noScript script rfl
            rw [valid] at invalid
            cases invalid
      rename_i text isText
      obtain ⟨textGiven, valid⟩ := Option.filter_eq_some_iff.mp isText
      have isString : value = .string text := by
        cases value with
        | string other => exact congrArg Json.string (Option.some.inj textGiven)
        | _ => cases textGiven
      subst isString
      constructor
      · rintro ⟨⟩
        exact ⟨_, given, rfl, valid⟩
      · cases referenceScript with
        | none => simp [ReadsOptional, given]
        | some script =>
            rintro ⟨value, isValue, rfl, -⟩
            cases given.symm.trans isValue
            rfl

omit [RequestPackages] in
theorem parseOutputAssets_ne_thrown (path : String) (entry : Json JsString) :
    parseOutputAssets path entry ≠ .error .thrown := by
  unfold parseOutputAssets
  split
  · nofun
  · rename_i items given
    intro thrown
    rcases bind_eq_thrown_iff.mp thrown with each | ⟨_, -, wrapped⟩
    · obtain ⟨before, item, after, -, -, throws⟩ := (parseEach_eq_thrown_iff
        (fun i => parseAsset_eq_ok_iff (entryPath (path ++ ".assets") i))
        (fun i item => iff_of_false (parseAsset_ne_thrown _ item) id) 0 items).mp each
      exact throws
    · cases wrapped
  · nofun

theorem parseInlineDatum_ne_thrown (path : String) (entry : Json JsString) :
    parseInlineDatum path entry ≠ .error .thrown := by
  unfold parseInlineDatum
  split
  · nofun
  · rename_i text given
    intro thrown
    rcases bind_eq_thrown_iff.mp thrown with read | ⟨_, -, wrapped⟩
    · exact validateJsonWithLimits_ne_thrown _ _ _ read
    · cases wrapped
  · nofun

theorem parseInlineDatumCbor_ne_thrown (fieldName : OutputListField) (path : String)
    (entry : Json JsString) (inlineDatum : Option (Json JsString)) :
    parseInlineDatumCbor fieldName path entry inlineDatum ≠ .error .thrown := by
  unfold parseInlineDatumCbor
  split
  · nofun
  split
  · nofun
  split
  · nofun
  intro thrown
  rcases bind_eq_thrown_iff.mp thrown with read | ⟨_, -, wrapped⟩
  · exact parsePlutusCbor_ne_thrown _ _ read
  · cases wrapped

omit [RequestPackages] in
theorem parseDatumHash_ne_thrown (fieldName : OutputListField) (path : String)
    (entry : Json JsString) (inlineDatum : Option (Json JsString))
    (inlineDatumCbor : Option JsString) :
    parseDatumHash fieldName path entry inlineDatum inlineDatumCbor ≠ .error .thrown := by
  unfold parseDatumHash
  repeat' split
  all_goals nofun

omit [RequestPackages] in
theorem parseReferenceScript_ne_thrown (path : String) (entry : Json JsString) :
    parseReferenceScript path entry ≠ .error .thrown := by
  unfold parseReferenceScript
  repeat' split
  all_goals nofun

/-! ## Outputs -/

/-- The padding of the address is not checked before it is converted. -/
def AddressThrows (entry : Json JsString) : Prop :=
  ∃ address, entryText entry "address" = some address ∧
    isValidBech32Address address = .error .thrown

theorem parseOutput_eq_ok_iff (fieldName : OutputListField) (path : String)
    (entry : Json JsString) (out : ParsedExtraOutput) :
    parseOutput fieldName path entry = .ok out ↔ ReadsOutput fieldName entry out := by
  simp only [parseOutput]
  split
  · rename_i noObject
    refine iff_of_false nofun fun reads => ?_
    rw [isObject_of_entryText reads.address] at noObject
    cases noObject
  split
  · rename_i noAddress
    exact iff_of_false nofun fun reads => by
      cases noAddress.symm.trans reads.address
  rename_i address isAddress
  constructor
  · intro parsed
    obtain ⟨valid, isValid, parsed⟩ := bind_eq_ok_iff.mp parsed
    cases valid with
    | false => cases parsed
    | true =>
        simp only [Bool.not_true, Bool.false_eq_true, if_false] at parsed
        split at parsed
        · cases parsed
        · rename_i lovelaceAmount isLovelace
          obtain ⟨given, amount⟩ := Option.filter_eq_some_iff.mp isLovelace
          obtain ⟨assets, readAssets, parsed⟩ := bind_eq_ok_iff.mp parsed
          obtain ⟨inlineDatum, readDatum, parsed⟩ := bind_eq_ok_iff.mp parsed
          obtain ⟨inlineDatumCbor, readCbor, parsed⟩ := bind_eq_ok_iff.mp parsed
          obtain ⟨datumHash, readHash, parsed⟩ := bind_eq_ok_iff.mp parsed
          obtain ⟨referenceScript, readScript, parsed⟩ := bind_eq_ok_iff.mp parsed
          cases parsed
          exact
            { address := isAddress
              valid := isValid
              lovelaceAmount := given
              amount := amount
              assets := parseOutputAssets_eq_ok_iff.mp readAssets
              inlineDatum := parseInlineDatum_eq_ok_iff.mp readDatum
              inlineDatumCbor := parseInlineDatumCbor_eq_ok_iff.mp readCbor
              datumHash := parseDatumHash_eq_ok_iff.mp readHash
              referenceScript := parseReferenceScript_eq_ok_iff.mp readScript }
  · intro reads
    have sameAddress : out.address = address :=
      Option.some.inj (reads.address.symm.trans isAddress)
    have valid := reads.valid
    rw [sameAddress] at valid
    refine bind_eq_ok_iff.mpr ⟨true, valid, ?_⟩
    have isLovelace := Option.filter_eq_some_iff.mpr ⟨reads.lovelaceAmount, reads.amount⟩
    simp only [Bool.not_true, Bool.false_eq_true, if_false, isLovelace]
    refine bind_eq_ok_iff.mpr ⟨_, parseOutputAssets_eq_ok_iff.mpr reads.assets, ?_⟩
    refine bind_eq_ok_iff.mpr ⟨_, parseInlineDatum_eq_ok_iff.mpr reads.inlineDatum, ?_⟩
    refine bind_eq_ok_iff.mpr ⟨_, parseInlineDatumCbor_eq_ok_iff.mpr reads.inlineDatumCbor, ?_⟩
    refine bind_eq_ok_iff.mpr ⟨_, parseDatumHash_eq_ok_iff.mpr reads.datumHash, ?_⟩
    refine bind_eq_ok_iff.mpr ⟨_, parseReferenceScript_eq_ok_iff.mpr reads.referenceScript, ?_⟩
    rw [← sameAddress]
    rfl

theorem parseOutput_eq_thrown_iff (fieldName : OutputListField) (path : String)
    (entry : Json JsString) :
    parseOutput fieldName path entry = .error .thrown ↔ AddressThrows entry := by
  simp only [parseOutput]
  split
  · rename_i noObject
    refine iff_of_false nofun ?_
    rintro ⟨address, given, -⟩
    rw [isObject_of_entryText given] at noObject
    cases noObject
  split
  · rename_i noAddress
    refine iff_of_false nofun ?_
    rintro ⟨address, given, -⟩
    cases noAddress.symm.trans given
  rename_i address isAddress
  constructor
  · intro thrown
    rcases bind_eq_thrown_iff.mp thrown with throws | ⟨valid, -, thrown⟩
    · exact ⟨address, isAddress, throws⟩
    · exfalso
      split at thrown
      · cases thrown
      split at thrown
      · cases thrown
      rcases bind_eq_thrown_iff.mp thrown with fails | ⟨assets, -, thrown⟩
      · exact parseOutputAssets_ne_thrown _ _ fails
      rcases bind_eq_thrown_iff.mp thrown with fails | ⟨inlineDatum, -, thrown⟩
      · exact parseInlineDatum_ne_thrown _ _ fails
      rcases bind_eq_thrown_iff.mp thrown with fails | ⟨inlineDatumCbor, -, thrown⟩
      · exact parseInlineDatumCbor_ne_thrown _ _ _ _ fails
      rcases bind_eq_thrown_iff.mp thrown with fails | ⟨datumHash, -, thrown⟩
      · exact parseDatumHash_ne_thrown _ _ _ _ _ fails
      rcases bind_eq_thrown_iff.mp thrown with fails | ⟨referenceScript, -, thrown⟩
      · exact parseReferenceScript_ne_thrown _ _ fails
      · cases thrown
  · rintro ⟨other, given, throws⟩
    cases Option.some.inj (given.symm.trans isAddress)
    exact bind_eq_thrown_iff.mpr (.inl throws)

/-- The format of a returned output. -/
structure OutputFormat (out : ParsedExtraOutput) : Prop where
  address : ParsesAsBech32 out.address
  lovelaceAmount : AmountFormat out.lovelaceAmount
  assets : ∀ asset ∈ out.assets.getD [], AssetFormat asset
  inlineDatumCbor : ∀ hex ∈ out.inlineDatumCbor, HexFormat hex
  datumHash : ∀ hash ∈ out.datumHash, HexFormat hash ∧ hash.length = 64
  referenceScript : ∀ script ∈ out.referenceScript, HexFormat script
  oneDatum : ¬(out.inlineDatum.isSome ∧ out.inlineDatumCbor.isSome) ∧
    ¬(out.inlineDatum.isSome ∧ out.datumHash.isSome) ∧
    ¬(out.inlineDatumCbor.isSome ∧ out.datumHash.isSome)

/-- The texts have no blanks around them and no amount is zero. -/
structure PlainOutput (entry : Json JsString) : Prop where
  address : ∀ text, entryText entry "address" = some text → trim text = text
  lovelaceAmount : ∀ text, entryText entry "lovelaceAmount" = some text →
    JsString.digitsValue text ≠ 0
  assets : ∀ items, entry.present? "assets" = some (.array items) →
    ∀ item ∈ items, PlainAsset item
  inlineDatumCbor : ∀ text, entry.present? "inlineDatumCbor" = some (.string text) →
    trim text = text
  referenceScript : ∀ text, entry.present? "referenceScriptHex" = some (.string text) →
    trim text = text

/-- An entry with the fields of an output of the list, each in its format. -/
structure AdmissibleOutput (fieldName : OutputListField) (entry : Json JsString) : Prop where
  address : ∃ address, entryText entry "address" = some address ∧ AddressFormat address
  lovelaceAmount : ∃ amount, entryText entry "lovelaceAmount" = some amount ∧ AmountFormat amount
  assets : ∀ value, entry.present? "assets" = some value →
    ∃ items, value = .array items ∧ ∀ item ∈ items, AdmissibleAsset item
  inlineDatum : ∀ value, entry.present? "inlineDatumJson" = some value →
    ∃ text datum, value = .string text ∧ ReadsJson text PLUTUS_DATA_MAX_DEPTH datum
  inlineDatumCbor : ∀ value, entry.present? "inlineDatumCbor" = some value →
    fieldName = .outputsJson ∧ entry.present? "inlineDatumJson" = none ∧
      AdmissibleCbor (some value)
  datumHash : ∀ value, entry.present? "datumHash" = some value →
    fieldName = .outputsJson ∧ entry.present? "inlineDatumJson" = none ∧
      entry.present? "inlineDatumCbor" = none ∧
      ∃ text, value = .string text ∧ HexFormat text ∧ text.length = 64
  referenceScript : ∀ value, entry.present? "referenceScriptHex" = some value →
    ∃ text, value = .string text ∧ HexFormat text

omit [RequestPackages] in
/-- Something is read from an optional key if its value can be read. -/
theorem exists_readsOptional {α : Type} {entry : Json JsString} {key : String}
    {Reads : Json JsString → α → Prop}
    (each : ∀ value, entry.present? key = some value → ∃ out, Reads value out) :
    ∃ out, ReadsOptional entry key Reads out ∧ (entry.present? key = none → out = none) := by
  cases given : entry.present? key with
  | none => exact ⟨none, given, fun _ => rfl⟩
  | some value =>
      obtain ⟨out, reads⟩ := each value given
      exact ⟨some out, ⟨value, given, reads⟩, nofun⟩

theorem exists_readsOutput {fieldName : OutputListField} {entry : Json JsString}
    (admissible : AdmissibleOutput fieldName entry) : ∃ out, ReadsOutput fieldName entry out := by
  obtain ⟨address, addressGiven, addressFormat⟩ := admissible.address
  obtain ⟨amount, amountGiven, amountFormat⟩ := admissible.lovelaceAmount
  have readAssets : ∃ assets, ReadsOptional entry "assets" (fun value assets => ∃ items,
      value = .array items ∧ List.Forall₂ ReadsAsset items assets) assets ∧
        (entry.present? "assets" = none → assets = none) := by
    refine exists_readsOptional fun value given => ?_
    obtain ⟨items, rfl, entries⟩ := admissible.assets value given
    obtain ⟨assets, reads⟩ := exists_forall₂ fun item member =>
      exists_readsAsset (entries item member)
    exact ⟨assets, items, rfl, reads⟩
  have readDatum : ∃ datum, ReadsOptional entry "inlineDatumJson" (fun value datum => ∃ text,
      value = .string text ∧ ReadsJson text PLUTUS_DATA_MAX_DEPTH datum) datum ∧
        (entry.present? "inlineDatumJson" = none → datum = none) := by
    refine exists_readsOptional fun value given => ?_
    obtain ⟨text, datum, rfl, reads⟩ := admissible.inlineDatum value given
    exact ⟨datum, text, rfl, reads⟩
  obtain ⟨assets, readAssets, -⟩ := readAssets
  obtain ⟨datum, readDatum, noDatum⟩ := readDatum
  have readCbor : ∃ cbor, ReadsOptional entry "inlineDatumCbor" (fun value hex =>
      fieldName = .outputsJson ∧ datum = none ∧ ∃ text, value = .string text ∧
        isValidCbor text = true ∧ DecodesAsData text ∧ hex = text.toLowerCase) cbor ∧
        (entry.present? "inlineDatumCbor" = none → cbor = none) := by
    refine exists_readsOptional fun value given => ?_
    obtain ⟨isOutputs, free, text, isText, format, decodes⟩ :=
      admissible.inlineDatumCbor value given
    exact ⟨_, isOutputs, noDatum free, text, Option.some.inj isText,
      ((hexFormat_iff text).mp format).1, decodes, rfl⟩
  obtain ⟨cbor, readCbor, noCbor⟩ := readCbor
  have readHash : ∃ hash, ReadsOptional entry "datumHash" (fun value hash =>
      fieldName = .outputsJson ∧ datum = none ∧ cbor = none ∧ ∃ text, value = .string text ∧
        isDatumHash text = true ∧ hash = text.toLowerCase) hash ∧
        (entry.present? "datumHash" = none → hash = none) := by
    refine exists_readsOptional fun value given => ?_
    obtain ⟨isOutputs, free, freeCbor, text, rfl, format, length⟩ := admissible.datumHash value given
    have valid : isDatumHash text = true := by
      rw [isDatumHash, Bool.and_eq_true, decide_eq_true_iff, List.all_eq_true]
      exact ⟨length, format.hex⟩
    exact ⟨_, isOutputs, noDatum free, noCbor freeCbor, text, rfl, valid, rfl⟩
  have readScript : ∃ script, ReadsOptional entry "referenceScriptHex" (fun value script =>
      value = .string script ∧ isValidCbor script = true) script ∧
        (entry.present? "referenceScriptHex" = none → script = none) := by
    refine exists_readsOptional fun value given => ?_
    obtain ⟨text, rfl, format⟩ := admissible.referenceScript value given
    exact ⟨text, rfl, ((hexFormat_iff text).mp format).1⟩
  obtain ⟨hash, readHash, -⟩ := readHash
  obtain ⟨script, readScript, -⟩ := readScript
  exact ⟨⟨address, amount, assets, datum, hash, cbor, script⟩,
    { address := addressGiven
      valid := addressFormat.valid
      lovelaceAmount := amountGiven
      amount := ((amountFormat_iff amount).mp amountFormat).1
      assets := readAssets
      inlineDatum := readDatum
      inlineDatumCbor := readCbor
      datumHash := readHash
      referenceScript := readScript }⟩

theorem ReadsOutput.assets_iff {fieldName : OutputListField} {entry : Json JsString}
    {out : ParsedExtraOutput} (reads : ReadsOutput fieldName entry out) :
    (∀ asset ∈ out.assets.getD [], AssetFormat asset) ↔
      ∀ items, entry.present? "assets" = some (.array items) → ∀ item ∈ items, PlainAsset item := by
  have readAssets := reads.assets
  cases given : out.assets with
  | none =>
      rw [given] at readAssets
      refine iff_of_true nofun fun items present => ?_
      cases readAssets.symm.trans present
  | some assets =>
      rw [given] at readAssets
      obtain ⟨value, present, items, rfl, all⟩ := readAssets
      refine (forall_mem_iff_of_forall₂ (fun _ _ reads => reads.format_iff) all).trans ?_
      constructor
      · intro plain others same
        cases present.symm.trans same
        exact plain
      · intro plain
        exact plain items present

/-- A returned output is well formed if the entry is plain. -/
theorem ReadsOutput.format_iff {fieldName : OutputListField} {entry : Json JsString}
    {out : ParsedExtraOutput} (reads : ReadsOutput fieldName entry out) :
    OutputFormat out ↔ PlainOutput entry := by
  constructor
  · intro format
    refine ⟨fun text given => ?_, fun text given => ?_, reads.assets_iff.mp format.assets,
      fun text given => ?_, fun text given => ?_⟩
    · cases Option.some.inj (reads.address.symm.trans given)
      exact (parsesAsBech32_iff reads.valid).mp format.address
    · cases Option.some.inj (reads.lovelaceAmount.symm.trans given)
      exact format.lovelaceAmount.2
    · have readCbor := reads.inlineDatumCbor
      cases cbor : out.inlineDatumCbor with
      | none =>
          rw [cbor] at readCbor
          cases readCbor.symm.trans given
      | some hex =>
          rw [cbor] at readCbor
          obtain ⟨value, present, -, -, text', rfl, -, -, rfl⟩ := readCbor
          cases present.symm.trans given
          have hexFormat := format.inlineDatumCbor _ cbor
          exact ((hexFormat_iff text).mp ((hexFormat_toLowerCase text).mp hexFormat)).2
    · have readScript := reads.referenceScript
      cases script : out.referenceScript with
      | none =>
          rw [script] at readScript
          cases readScript.symm.trans given
      | some hex =>
          rw [script] at readScript
          obtain ⟨value, present, rfl, -⟩ := readScript
          cases present.symm.trans given
          exact ((hexFormat_iff text).mp (format.referenceScript _ script)).2
  · intro plain
    have readCbor := reads.inlineDatumCbor
    have readHash := reads.datumHash
    refine
      { address := (parsesAsBech32_iff reads.valid).mpr (plain.address _ reads.address)
        lovelaceAmount := (amountFormat_iff _).mpr
          ⟨reads.amount, plain.lovelaceAmount _ reads.lovelaceAmount⟩
        assets := reads.assets_iff.mpr plain.assets
        inlineDatumCbor := fun hex cbor => ?_
        datumHash := fun hash isHash => ?_
        referenceScript := fun script isScript => ?_
        oneDatum := ?_ }
    · rw [Option.mem_def.mp cbor] at readCbor
      obtain ⟨value, present, -, -, text, rfl, valid, -, rfl⟩ := readCbor
      exact (hexFormat_toLowerCase text).mpr
        ((hexFormat_iff text).mpr ⟨valid, plain.inlineDatumCbor text present⟩)
    · rw [Option.mem_def.mp isHash] at readHash
      obtain ⟨value, -, -, -, -, text, rfl, valid, rfl⟩ := readHash
      refine ⟨(hexFormat_toLowerCase text).mpr (hexFormat_of_isDatumHash valid), ?_⟩
      rw [isDatumHash, Bool.and_eq_true, decide_eq_true_iff] at valid
      rw [JsString.length_toLowerCase, valid.1]
    · have readScript := reads.referenceScript
      rw [Option.mem_def.mp isScript] at readScript
      obtain ⟨value, present, rfl, valid⟩ := readScript
      exact (hexFormat_iff script).mpr ⟨valid, plain.referenceScript script present⟩
    · refine ⟨?_, ?_, ?_⟩
      · rintro ⟨datum, cbor⟩
        obtain ⟨hex, isHex⟩ := Option.isSome_iff_exists.mp cbor
        rw [isHex] at readCbor
        obtain ⟨-, -, -, free, -⟩ := readCbor
        rw [free] at datum
        cases datum
      · rintro ⟨datum, hash⟩
        obtain ⟨text, isText⟩ := Option.isSome_iff_exists.mp hash
        rw [isText] at readHash
        obtain ⟨-, -, -, free, -⟩ := readHash
        rw [free] at datum
        cases datum
      · rintro ⟨cbor, hash⟩
        obtain ⟨text, isText⟩ := Option.isSome_iff_exists.mp hash
        rw [isText] at readHash
        obtain ⟨-, -, -, -, free, -⟩ := readHash
        rw [free] at cbor
        cases cbor

/-! ## The parsers -/

/-- The limit of a list of outputs. -/
def ShortOutputList (items : List (Json JsString)) : Prop := items.length ≤ MAX_EXTRA_OUTPUTS

theorem parseOutputList_wellFormed_iff (json : Option JsString) (fieldName : OutputListField) :
    ReturnsWellFormed (parseOutputList json fieldName)
        (fun outputs => ∀ out ∈ outputs.getD [], OutputFormat out)
        (AdmissibleList (givenJson json) ShortOutputList (AdmissibleOutput fieldName)) ↔
      PlainList (givenJson json) ShortOutputList (ReadsOutput fieldName) AddressThrows
        PlainOutput := by
  have parser : ParsesList (parseOutputList json fieldName) (givenJson json) ShortOutputList
      (ReadsOutput fieldName) AddressThrows := by
    refine parsesList_of_parseEach
      (fun i => parseOutput_eq_ok_iff fieldName (entryPath fieldName.listName i))
      (fun i => parseOutput_eq_thrown_iff fieldName (entryPath fieldName.listName i))
      (fun items short => ?_) (fun items long => ?_) rfl
    · obtain ⟨wrap, isWrap, unwraps⟩ := map_of_empty
        (fun i => parseOutput fieldName (entryPath fieldName.listName i)) items
      refine ⟨wrap, ?_, unwraps⟩
      rw [if_neg (Nat.not_lt.mpr short)]
      exact isWrap
    · have nonempty : items ≠ [] := by
        rintro rfl
        exact long (Nat.zero_le _)
      refine ⟨fieldName.listName ++ "Json" ++ " exceeds maximum of " ++
        toString MAX_EXTRA_OUTPUTS ++ " entries", ?_⟩
      rw [if_neg nonempty, if_pos (Nat.lt_of_not_le long)]
  exact parser.wellFormed_iff (fun _ _ reads => reads.format_iff) fun _ => exists_readsOutput

/-- The four parsers return well-formed values or report an error where no text has blanks around
it, no amount is zero and no address throws. -/
theorem requestParsers_wellFormed_iff (value : Option (Json JsString))
    (refsJson assetsJson outputsJson : Option JsString) (cborField assetsField : String)
    (refsField : RefListField) (outputsField : OutputListField) :
    (ReturnsWellFormed (parsePlutusCbor value cborField) HexFormat (AdmissibleCbor value) ∧
        ReturnsWellFormed (parseUtxoRefArray refsJson refsField)
          (fun refs => ∀ ref ∈ refs.getD [], UtxoRefFormat ref)
          (AdmissibleList (givenJson refsJson) (fun _ => True) AdmissibleUtxoRef) ∧
        ReturnsWellFormed (parseAssetsArray assetsJson assetsField)
          (fun assets => ∀ asset ∈ assets.getD [], AssetFormat asset)
          (AdmissibleList (givenJson assetsJson) (fun _ => True) AdmissibleAsset) ∧
        ReturnsWellFormed (parseOutputList outputsJson outputsField)
          (fun outputs => ∀ out ∈ outputs.getD [], OutputFormat out)
          (AdmissibleList (givenJson outputsJson) ShortOutputList
            (AdmissibleOutput outputsField))) ↔
      CborTrimmed value ∧
        PlainList (givenJson assetsJson) (fun _ => True) ReadsAsset (fun _ => False) PlainAsset ∧
        PlainList (givenJson outputsJson) ShortOutputList (ReadsOutput outputsField) AddressThrows
          PlainOutput := by
  rw [parsePlutusCbor_wellFormed_iff, parseAssetsArray_wellFormed_iff,
    parseOutputList_wellFormed_iff]
  have refs := parseUtxoRefArray_wellFormed refsJson refsField
  constructor
  · rintro ⟨cbor, -, assets, outputs⟩
    exact ⟨cbor, assets, outputs⟩
  · rintro ⟨cbor, assets, outputs⟩
    exact ⟨cbor, refs, assets, outputs⟩

end Outputs

/-! ## Where they do not -/

/-- A policy id. -/
def samplePolicy : JsString := List.replicate 56 97

/-- `[{"unit":" ..","quantity":"00"}]` with a blank before the unit. -/
def laxAssetsText : JsString :=
  JsString.ofText "[\x7b\"unit\":\" " ++ samplePolicy ++ JsString.ofText "\",\"quantity\":\"00\"\x7d]"

def laxAssets : List (Json JsString) :=
  [.object [(JsString.ofText "unit", .string (32 :: samplePolicy)),
    (JsString.ofText "quantity", .string (JsString.ofText "00"))]]

/-- `JSON.parse` of that text. -/
@[reducible] def laxPackages : RequestPackages where
  parseJson text := if text = laxAssetsText then some (.array laxAssets) else none
  bech32Decode _ := none
  bech32FromWords _ := none
  dataFromCbor _ := .error "Unexpected end of input"
  activeNetwork := some .mainnet
  decode_visible := nofun

/-- The unit is returned with its blank and the quantity is zero. -/
theorem parseAssetsArray_lax :
    ¬ReturnsWellFormed (@parseAssetsArray laxPackages (some laxAssetsText) "assetsJson")
      (fun assets => ∀ asset ∈ assets.getD [], AssetFormat asset)
      (@AdmissibleList laxPackages (givenJson (some laxAssetsText)) (fun _ => True)
        AdmissibleAsset) := by
  intro returns
  have plain := (@parseAssetsArray_wellFormed_iff laxPackages _ _).mp returns
  have given : givenJson (some laxAssetsText) = some laxAssetsText := by decide +kernel
  have reads : @ReadsJson laxPackages laxAssetsText MAX_DEPTH (.array laxAssets) :=
    @ReadsJson.mk laxPackages _ _ _ (by decide +kernel) (if_pos rfl)
      ((checkJsonComplexity_eq_none_iff _ _ _).mp (by decide +kernel))
  have taken : ∀ item ∈ laxAssets, ∃ asset, ReadsAsset item asset := by
    intro item member
    cases List.mem_singleton.mp member
    exact ⟨⟨32 :: samplePolicy, JsString.ofText "00"⟩, by decide +kernel, by decide +kernel,
      by decide +kernel, by decide +kernel⟩
  have format := (plain _ _ given reads trivial).2 taken _ (List.mem_singleton_self _)
  exact absurd (format.quantity (JsString.ofText "00") (by decide +kernel)) (by decide +kernel)

end Odatano
