import Odatano.ParsedRequests

/-!
# Well-formed requests

Each request parser returns well-formed values, or reports an error, unless a text has blanks
around it, an amount is zero or an address has bad padding.
-/

namespace Odatano

/-- The text of a key. -/
abbrev entryText (entry : Json JsString) (key : String) : Option JsString :=
  (entry.field? key).bind Json.text?

theorem isObject_of_entryText {entry : Json JsString} {key : String} {text : JsString}
    (given : entryText entry key = some text) : entry.isObject = true := by
  cases entry with
  | object fields => rfl
  | array items => rfl
  | _ => simp [entryText, Json.field?] at given

section Formats

variable [RequestPackages]

open RequestPackages

/-- A parser returns values of a format or a validation error, and takes all admissible input. -/
structure ReturnsWellFormed {α : Type} (result : Except RequestError α) (Format : α → Prop)
    (Admissible : Prop) : Prop where
  reported : result ≠ .error .thrown
  wellFormed : ∀ value, result = .ok value → Format value
  complete : Admissible → ∃ value, result = .ok value

/-! ## Addresses -/

def ParsesAsBech32 (address : JsString) : Prop :=
  ∃ hrp words bytes, bech32Decode address = some (hrp, words) ∧
    bech32FromWords words = some bytes

/-- An address of the active network, with 29 to 57 bytes. -/
def AddressFormat (address : JsString) : Prop :=
  ∃ network hrp words bytes, activeNetwork = some network ∧
    isNetworkAddress network address = true ∧ bech32Decode address = some (hrp, words) ∧
    (hrp = JsString.ofText "addr" ∨ hrp = JsString.ofText "addr_test") ∧
    bech32FromWords words = some bytes ∧ 29 ≤ bytes.length ∧ bytes.length ≤ 57

theorem AddressFormat.trim_eq {address : JsString} (format : AddressFormat address) :
    trim address = address := by
  obtain ⟨network, hrp, words, bytes, -, -, decoded, -⟩ := format
  exact trim_eq_self (decode_visible decoded)

theorem addressFormat_of_valid {address : JsString}
    (valid : isValidBech32Address address = .ok true) : AddressFormat (trim address) := by
  unfold isValidBech32Address at valid
  split at valid
  · rename_i addr network isTrimmed isActive
    obtain ⟨rfl, -⟩ := safeTrimString_eq_some_iff.mp isTrimmed
    split at valid
    · rename_i isNetwork
      split at valid
      · cases valid
      · rename_i hrp words decoded
        split at valid
        · rename_i isHrp
          split at valid
          · cases valid
          · rename_i bytes converted
            have sizes := of_decide_eq_true (Except.ok.inj valid)
            exact ⟨network, hrp, words, bytes, isActive, isNetwork, decoded, isHrp, converted,
              sizes.1, sizes.2⟩
        · cases valid
    · cases valid
  · cases valid

theorem AddressFormat.valid {address : JsString} (format : AddressFormat address) :
    isValidBech32Address address = .ok true := by
  have same := format.trim_eq
  obtain ⟨network, hrp, words, bytes, isActive, isNetwork, decoded, isHrp, converted, least,
    most⟩ := format
  have nonempty : address ≠ [] := by
    rintro rfl
    revert isNetwork
    cases network <;> decide
  have trimmed := safeTrimString_eq_some_iff.mpr ⟨same, nonempty⟩
  simp only [isValidBech32Address, trimmed, isActive, isNetwork, if_true, decoded, if_pos isHrp,
    converted, least, most, and_self, decide_true]

/-- A taken address parses as bech32 if it has no blanks around it. -/
theorem parsesAsBech32_iff {address : JsString} (valid : isValidBech32Address address = .ok true) :
    ParsesAsBech32 address ↔ trim address = address := by
  constructor
  · rintro ⟨hrp, words, bytes, decoded, -⟩
    exact trim_eq_self (decode_visible decoded)
  · intro same
    obtain ⟨network, hrp, words, bytes, -, -, decoded, -, converted, -⟩ :=
      addressFormat_of_valid valid
    rw [same] at decoded
    exact ⟨hrp, words, bytes, decoded, converted⟩

/-! ## Arrays -/

/-- A text that is JSON within the limits. -/
structure ReadsJson (text : JsString) (maxDepth : Nat) (value : Json JsString) : Prop where
  size : text.length ≤ MAX_JSON_SIZE
  parsed : parseJson text = some value
  limits : WithinLimits maxDepth (valuesIn 0 value)

theorem validateJsonWithLimits_eq_ok_iff {text : JsString} {fieldName : String} {maxDepth : Nat}
    {value : Json JsString} :
    validateJsonWithLimits text fieldName maxDepth = .ok value ↔
      ReadsJson text maxDepth value := by
  unfold validateJsonWithLimits
  split
  · rename_i long
    exact iff_of_false nofun fun reads => absurd reads.size (Nat.not_le.mpr long)
  · rename_i short
    have short := Nat.le_of_not_lt short
    split
    · rename_i invalid
      refine iff_of_false nofun fun reads => ?_
      have parsed := reads.parsed
      rw [invalid] at parsed
      cases parsed
    · rename_i parsed isParsed
      split
      · rename_i message complex
        refine iff_of_false nofun fun reads => ?_
        have same := reads.parsed
        rw [isParsed] at same
        cases same
        rw [(checkJsonComplexity_eq_none_iff _ _ _).mpr reads.limits] at complex
        cases complex
      · rename_i simple
        rw [Except.ok.injEq]
        constructor
        · rintro rfl
          exact ⟨short, isParsed, (checkJsonComplexity_eq_none_iff _ _ _).mp simple⟩
        · intro reads
          have same := reads.parsed
          rw [isParsed] at same
          exact Option.some.inj same

theorem validateJsonWithLimits_ne_thrown (text : JsString) (fieldName : String) (maxDepth : Nat) :
    validateJsonWithLimits text fieldName maxDepth ≠ .error .thrown := by
  unfold validateJsonWithLimits
  repeat' split
  all_goals nofun

theorem parseJsonArray_eq_ok_iff {text : JsString} {fieldName : String}
    {items : List (Json JsString)} :
    parseJsonArray text fieldName = .ok items ↔ ReadsJson text MAX_DEPTH (.array items) := by
  rw [← @validateJsonWithLimits_eq_ok_iff _ text fieldName, parseJsonArray]
  cases validateJsonWithLimits text fieldName MAX_DEPTH with
  | error e => exact iff_of_false nofun nofun
  | ok value =>
      cases value with
      | array others =>
          constructor
          · intro same
            cases Except.ok.inj same
            rfl
          · intro same
            cases Except.ok.inj same
            rfl
      | _ => exact iff_of_false nofun nofun

theorem parseJsonArray_ne_thrown (text : JsString) (fieldName : String) :
    parseJsonArray text fieldName ≠ .error .thrown := by
  have never := validateJsonWithLimits_ne_thrown text fieldName MAX_DEPTH
  rw [parseJsonArray]
  cases read : validateJsonWithLimits text fieldName MAX_DEPTH with
  | error e =>
      intro same
      cases Except.error.inj same
      exact never read
  | ok value => cases value <;> nofun

/-! ## PlutusData -/

/-- A text that the CBOR decoder takes. -/
def DecodesAsData (text : JsString) : Prop := ∃ decoded, dataFromCbor text = .ok decoded

theorem parsePlutusCbor_eq_ok_iff {value : Option (Json JsString)} {field : String}
    {hex : JsString} :
    parsePlutusCbor value field = .ok hex ↔ ∃ text, value = some (.string text) ∧
      isValidCbor text = true ∧ DecodesAsData text ∧ hex = text.toLowerCase := by
  have given (text : JsString) :
      value.bind Json.text? = some text ↔ value = some (.string text) := by
    cases value with
    | none => simp
    | some value => cases value <;> simp [Json.text?]
  unfold parsePlutusCbor
  split
  · rename_i absent
    refine iff_of_false nofun ?_
    rintro ⟨text, isGiven, -⟩
    rw [(given text).mpr isGiven] at absent
    cases absent
  · rename_i text isText
    have only {other : JsString} (isGiven : value = some (.string other)) : other = text := by
      have same := (given other).mpr isGiven
      rw [isText] at same
      exact (Option.some.inj same).symm
    split
    · rename_i invalid
      refine iff_of_false nofun ?_
      rintro ⟨other, isGiven, valid, -⟩
      rw [only isGiven] at valid
      rw [valid] at invalid
      cases invalid
    · rename_i valid
      have valid : isValidCbor text = true := by simpa using valid
      split
      · rename_i message fails
        refine iff_of_false nofun ?_
        rintro ⟨other, isGiven, -, ⟨decoded, decodes⟩, -⟩
        rw [only isGiven, fails] at decodes
        cases decodes
      · rename_i decoded decodes
        rw [Except.ok.injEq]
        constructor
        · rintro rfl
          exact ⟨text, (given text).mp isText, valid, ⟨decoded, decodes⟩, rfl⟩
        · rintro ⟨other, isGiven, -, -, rfl⟩
          rw [only isGiven]

theorem parsePlutusCbor_ne_thrown (value : Option (Json JsString)) (field : String) :
    parsePlutusCbor value field ≠ .error .thrown := by
  unfold parsePlutusCbor
  repeat' split
  all_goals nofun

/-- The value is the hexadecimal text of plutus data. -/
def AdmissibleCbor (value : Option (Json JsString)) : Prop :=
  ∃ text, value = some (.string text) ∧ HexFormat text ∧ DecodesAsData text

/-- A text that is taken has no blanks around it. -/
def CborTrimmed (value : Option (Json JsString)) : Prop :=
  ∀ text, value = some (.string text) → isValidCbor text = true → DecodesAsData text →
    trim text = text

theorem parsePlutusCbor_wellFormed_iff (value : Option (Json JsString)) (field : String) :
    ReturnsWellFormed (parsePlutusCbor value field) HexFormat (AdmissibleCbor value) ↔
      CborTrimmed value := by
  constructor
  · intro returns text given valid decodes
    have format := returns.wellFormed _
      (parsePlutusCbor_eq_ok_iff.mpr ⟨text, given, valid, decodes, rfl⟩)
    exact ((hexFormat_iff text).mp ((hexFormat_toLowerCase text).mp format)).2
  · intro trimmed
    refine ⟨parsePlutusCbor_ne_thrown value field, fun hex parsed => ?_, ?_⟩
    · obtain ⟨text, given, valid, decodes, rfl⟩ := parsePlutusCbor_eq_ok_iff.mp parsed
      exact (hexFormat_toLowerCase text).mpr
        ((hexFormat_iff text).mpr ⟨valid, trimmed text given valid decodes⟩)
    · rintro ⟨text, given, format, decodes⟩
      exact ⟨_, parsePlutusCbor_eq_ok_iff.mpr
        ⟨text, given, ((hexFormat_iff text).mp format).1, decodes, rfl⟩⟩

/-! ## Lists -/

/-- What a parser of a JSON list does: it reads the entries of a given array, `limit` is a further
limit of the list. -/
structure ParsesList {α : Type} (result : Except RequestError (Option (List α)))
    (given : Option JsString) (limit : List (Json JsString) → Prop)
    (Reads : Json JsString → α → Prop) (Throws : Json JsString → Prop) : Prop where
  absent : given = none → result = .ok none
  reads : ∀ value, result = .ok value → given = none ∧ value = none ∨
    ∃ text items, given = some text ∧ ReadsJson text MAX_DEPTH (.array items) ∧ limit items ∧
      List.Forall₂ Reads items (value.getD [])
  parsed : ∀ text items outs, given = some text → ReadsJson text MAX_DEPTH (.array items) →
    limit items → List.Forall₂ Reads items outs →
      ∃ value, result = .ok value ∧ value.getD [] = outs
  thrown : result = .error .thrown ↔ ∃ text items, given = some text ∧
    ReadsJson text MAX_DEPTH (.array items) ∧ limit items ∧
      ∃ before entry after, items = before ++ entry :: after ∧
        (∀ taken ∈ before, ∃ out, Reads taken out) ∧ Throws entry

/-- A missing list, or a list within the limits of entries of a kind. -/
def AdmissibleList (given : Option JsString) (limit : List (Json JsString) → Prop)
    (AdmissibleEntry : Json JsString → Prop) : Prop :=
  ∀ text, given = some text → ∃ items, ReadsJson text MAX_DEPTH (.array items) ∧ limit items ∧
    ∀ item ∈ items, AdmissibleEntry item

/-- No entry of a given list throws after entries that are taken, and if all entries are taken,
then all are plain. -/
def PlainList {α : Type} (given : Option JsString) (limit : List (Json JsString) → Prop)
    (Reads : Json JsString → α → Prop) (Throws PlainEntry : Json JsString → Prop) : Prop :=
  ∀ text items, given = some text → ReadsJson text MAX_DEPTH (.array items) → limit items →
    (∀ before entry after, items = before ++ entry :: after →
      (∀ taken ∈ before, ∃ out, Reads taken out) → ¬Throws entry) ∧
    ((∀ item ∈ items, ∃ out, Reads item out) → ∀ item ∈ items, PlainEntry item)

omit [RequestPackages] in
theorem exists_forall₂ {α : Type} {Reads : Json JsString → α → Prop}
    {items : List (Json JsString)} (each : ∀ item ∈ items, ∃ out, Reads item out) :
    ∃ outs, List.Forall₂ Reads items outs := by
  induction items with
  | nil => exact ⟨[], .nil⟩
  | cons item items ih =>
      obtain ⟨out, first⟩ := each item (List.mem_cons_self ..)
      obtain ⟨outs, rest⟩ := ih fun other member => each other (List.mem_cons_of_mem _ member)
      exact ⟨out :: outs, .cons first rest⟩

omit [RequestPackages] in
theorem forall_mem_iff_of_forall₂ {α : Type} {Reads : Json JsString → α → Prop}
    {Format : α → Prop} {Plain : Json JsString → Prop} {items : List (Json JsString)}
    {outs : List α} (same : ∀ entry out, Reads entry out → (Format out ↔ Plain entry))
    (reads : List.Forall₂ Reads items outs) :
    (∀ out ∈ outs, Format out) ↔ ∀ item ∈ items, Plain item := by
  induction reads with
  | nil => exact iff_of_true nofun nofun
  | cons first rest ih =>
      rw [List.forall_mem_cons, List.forall_mem_cons, ih, same _ _ first]

omit [RequestPackages] in
theorem exists_of_forall₂ {α : Type} {Reads : Json JsString → α → Prop}
    {items : List (Json JsString)} {outs : List α} (reads : List.Forall₂ Reads items outs) :
    ∀ item ∈ items, ∃ out, Reads item out := by
  induction reads with
  | nil => nofun
  | cons first rest ih => exact List.forall_mem_cons.mpr ⟨⟨_, first⟩, ih⟩

theorem ParsesList.wellFormed_iff {α : Type} {result : Except RequestError (Option (List α))}
    {given : Option JsString} {limit : List (Json JsString) → Prop}
    {Reads : Json JsString → α → Prop} {Throws Plain Admissible : Json JsString → Prop}
    {Format : α → Prop} (parser : ParsesList result given limit Reads Throws)
    (same : ∀ entry out, Reads entry out → (Format out ↔ Plain entry))
    (taken : ∀ entry, Admissible entry → ∃ out, Reads entry out) :
    ReturnsWellFormed result (fun value => ∀ out ∈ value.getD [], Format out)
        (AdmissibleList given limit Admissible) ↔
      PlainList given limit Reads Throws Plain := by
  constructor
  · intro returns text items isGiven reads within
    refine ⟨fun before entry after split earlier throws => ?_, fun each => ?_⟩
    · exact returns.reported (parser.thrown.mpr
        ⟨text, items, isGiven, reads, within, before, entry, after, split, earlier, throws⟩)
    · obtain ⟨outs, all⟩ := exists_forall₂ each
      obtain ⟨value, parsed, rfl⟩ := parser.parsed text items outs isGiven reads within all
      exact (forall_mem_iff_of_forall₂ same all).mp (returns.wellFormed value parsed)
  · intro plain
    refine ⟨fun thrown => ?_, fun value parsed => ?_, fun admissible => ?_⟩
    · obtain ⟨text, items, isGiven, reads, within, before, entry, after, split, earlier, throws⟩ :=
        parser.thrown.mp thrown
      exact (plain text items isGiven reads within).1 before entry after split earlier throws
    · rcases parser.reads value parsed with ⟨-, rfl⟩ | ⟨text, items, isGiven, reads, within, all⟩
      · nofun
      · exact (forall_mem_iff_of_forall₂ same all).mpr
          ((plain text items isGiven reads within).2 (exists_of_forall₂ all))
    · cases isGiven : given with
      | none => exact ⟨none, parser.absent isGiven⟩
      | some text =>
          obtain ⟨items, reads, within, entries⟩ := admissible text isGiven
          obtain ⟨outs, all⟩ := exists_forall₂ fun item member => taken item (entries item member)
          obtain ⟨value, parsed, -⟩ := parser.parsed text items outs isGiven reads within all
          exact ⟨value, parsed⟩

omit [RequestPackages] in
theorem bind_eq_ok_iff {α β : Type} {first : Except RequestError α}
    {next : α → Except RequestError β} {result : β} :
    (do let value ← first; next value) = .ok result ↔
      ∃ value, first = .ok value ∧ next value = .ok result := by
  cases first with
  | error e => exact iff_of_false nofun nofun
  | ok value =>
      refine ⟨fun later => ⟨value, rfl, later⟩, ?_⟩
      rintro ⟨other, same, later⟩
      cases same
      exact later

omit [RequestPackages] in
theorem bind_eq_thrown_iff {α β : Type} {first : Except RequestError α}
    {next : α → Except RequestError β} :
    (do let value ← first; next value) = .error .thrown ↔
      first = .error .thrown ∨ ∃ value, first = .ok value ∧ next value = .error .thrown := by
  cases first with
  | error e =>
      constructor
      · intro same
        cases Except.error.inj same
        exact .inl rfl
      · rintro (same | ⟨value, same, -⟩)
        · cases same
          rfl
        · cases same
  | ok value =>
      constructor
      · intro later
        exact .inr ⟨value, rfl, later⟩
      · rintro (same | ⟨other, same, later⟩)
        · cases same
        · cases same
          exact later

/-- A parser of a list reads the array, checks the items and parses each of them. -/
theorem parsesList_of_parseEach {α : Type} {parse : Nat → Json JsString → Except RequestError α}
    {Reads : Json JsString → α → Prop} {Throws : Json JsString → Prop}
    (parses : ∀ i entry out, parse i entry = .ok out ↔ Reads entry out)
    (throws : ∀ i entry, parse i entry = .error .thrown ↔ Throws entry)
    {limit : List (Json JsString) → Prop} {json : Option JsString} {fieldName : String}
    {finish : List (Json JsString) → Except RequestError (Option (List α))}
    (finish_of_limit : ∀ items, limit items → ∃ wrap : List α → Option (List α),
      finish items = (parseEach parse 0 items).map wrap ∧
        ∀ outs, parseEach parse 0 items = .ok outs → (wrap outs).getD [] = outs)
    (finish_of_not_limit : ∀ items, ¬limit items → ∃ message, finish items = .error (.invalid message))
    {result : Except RequestError (Option (List α))}
    (isResult : result = match givenJson json with
      | none => .ok none
      | some text => do
          let items ← parseJsonArray text fieldName
          finish items) :
    ParsesList result (givenJson json) limit Reads Throws := by
  have each_ok := parseEach_eq_ok_iff parses 0
  have each_thrown := parseEach_eq_thrown_iff parses throws 0
  subst isResult
  cases given : givenJson json with
  | none => exact ⟨fun _ => rfl, fun value same => .inl ⟨rfl, (Except.ok.inj same).symm⟩, nofun,
      iff_of_false nofun nofun⟩
  | some text =>
      refine ⟨nofun, fun value parsed => .inr ?_, fun text' items outs isGiven reads within all => ?_,
        ?_⟩
      · obtain ⟨items, read, finished⟩ := bind_eq_ok_iff.mp parsed
        by_cases within : limit items
        · obtain ⟨wrap, isWrap, unwraps⟩ := finish_of_limit items within
          rw [isWrap] at finished
          cases each : parseEach parse 0 items with
          | error e =>
              rw [each] at finished
              cases finished
          | ok outs =>
              rw [each] at finished
              cases finished
              exact ⟨text, items, rfl, parseJsonArray_eq_ok_iff.mp read, within,
                (unwraps outs each).symm ▸ (each_ok items outs).mp each⟩
        · obtain ⟨message, refused⟩ := finish_of_not_limit items within
          rw [refused] at finished
          cases finished
      · cases isGiven
        obtain ⟨wrap, isWrap, unwraps⟩ := finish_of_limit items within
        have each := (each_ok items outs).mpr all
        refine ⟨wrap outs, bind_eq_ok_iff.mpr ⟨items, parseJsonArray_eq_ok_iff.mpr reads, ?_⟩,
          unwraps outs each⟩
        rw [isWrap, each]
        rfl
      · refine bind_eq_thrown_iff.trans ?_
        constructor
        · rintro (thrown | ⟨items, read, thrown⟩)
          · exact absurd thrown (parseJsonArray_ne_thrown text fieldName)
          · by_cases within : limit items
            · obtain ⟨wrap, isWrap, -⟩ := finish_of_limit items within
              rw [isWrap] at thrown
              refine ⟨text, items, rfl, parseJsonArray_eq_ok_iff.mp read, within,
                (each_thrown items).mp ?_⟩
              cases each : parseEach parse 0 items with
              | error e =>
                  rw [each] at thrown
                  cases thrown
                  rfl
              | ok outs =>
                  rw [each] at thrown
                  cases thrown
            · obtain ⟨message, refused⟩ := finish_of_not_limit items within
              rw [refused] at thrown
              cases thrown
        · rintro ⟨text', items, isGiven, reads, within, split⟩
          cases isGiven
          obtain ⟨wrap, isWrap, -⟩ := finish_of_limit items within
          refine .inr ⟨items, parseJsonArray_eq_ok_iff.mpr reads, ?_⟩
          rw [isWrap, (each_thrown items).mpr split]
          rfl

/-! ## UTxO references -/

omit [RequestPackages] in
theorem filter_text_eq_none_iff {text : Option JsString} {valid : JsString → Bool} :
    text.filter valid = none ↔ ∀ str, text = some str → valid str = false := by
  cases text with
  | none => simp
  | some str => simp [Option.filter]

/-- An entry with a hash of 64 digits and a natural index. -/
structure ReadsUtxoRef (entry : Json JsString) (ref : ParsedUtxoRef) : Prop where
  txHash : entryText entry "txHash" = some ref.txHash
  hash : isTxHash ref.txHash = true
  outputIndex : entry.field? "outputIndex" = some (.number ref.outputIndex)
  natural : ∃ index : Nat, ref.outputIndex = .ofInt index

omit [RequestPackages] in
theorem parseUtxoRef_eq_ok_iff (entryName : String) (entry : Json JsString) (ref : ParsedUtxoRef) :
    parseUtxoRef entryName entry = .ok ref ↔ ReadsUtxoRef entry ref := by
  simp only [parseUtxoRef]
  split
  · rename_i noObject
    refine iff_of_false nofun fun reads => ?_
    rw [isObject_of_entryText reads.txHash] at noObject
    cases noObject
  split
  · rename_i noHash
    refine iff_of_false nofun fun reads => ?_
    have invalid := filter_text_eq_none_iff.mp noHash _ reads.txHash
    rw [reads.hash] at invalid
    cases invalid
  rename_i txHash isText
  obtain ⟨given, valid⟩ := Option.filter_eq_some_iff.mp isText
  have sameHash {other : ParsedUtxoRef} (reads : ReadsUtxoRef entry other) :
      other.txHash = txHash := Option.some.inj (reads.txHash.symm.trans given)
  split
  · rename_i idx isIndex
    have sameIndex {other : ParsedUtxoRef} (reads : ReadsUtxoRef entry other) :
        other.outputIndex = idx := by
      have same := reads.outputIndex.symm.trans isIndex
      cases same
      rfl
    split
    · rename_i index isInteger
      split
      · rename_i negative
        refine iff_of_false nofun fun reads => ?_
        obtain ⟨natural, isNatural⟩ := reads.natural
        rw [← sameIndex reads, isNatural, Binary64.integer?_ofInt] at isInteger
        cases isInteger
        omega
      · rename_i nonnegative
        have isIdx := Binary64.eq_ofInt_of_integer? isInteger
        constructor
        · rintro ⟨⟩
          exact ⟨given, valid, isIndex, index.toNat, by
            rw [isIdx, Int.toNat_of_nonneg (Int.not_lt.mp nonnegative)]⟩
        · intro reads
          rw [← sameHash reads, ← sameIndex reads]
    · rename_i noInteger
      refine iff_of_false nofun fun reads => ?_
      obtain ⟨natural, isNatural⟩ := reads.natural
      rw [← sameIndex reads, isNatural, Binary64.integer?_ofInt] at noInteger
      cases noInteger
  · rename_i noNumber
    exact iff_of_false nofun fun reads => noNumber _ reads.outputIndex

omit [RequestPackages] in
theorem parseUtxoRef_ne_thrown (entryName : String) (entry : Json JsString) :
    parseUtxoRef entryName entry ≠ .error .thrown := by
  simp only [parseUtxoRef]
  repeat' split
  all_goals nofun

/-- A hash of 64 digits, and a natural index. -/
def UtxoRefFormat (ref : ParsedUtxoRef) : Prop :=
  HexFormat ref.txHash ∧ isTxHash ref.txHash = true ∧
    ∃ index : Nat, ref.outputIndex = .ofInt index

/-- An entry that holds such a reference. -/
def AdmissibleUtxoRef (entry : Json JsString) : Prop :=
  ∃ (txHash : JsString) (index : Nat), entryText entry "txHash" = some txHash ∧
    isTxHash txHash = true ∧ entry.field? "outputIndex" = some (.number (.ofInt index))

omit [RequestPackages] in
/-- An empty array is a missing list. -/
theorem map_of_empty {α : Type} (parse : Nat → Json JsString → Except RequestError α)
    (items : List (Json JsString)) :
    ∃ wrap : List α → Option (List α),
      (if items = [] then .ok none else do
          let outs ← parseEach parse 0 items
          return some outs) = (parseEach parse 0 items).map wrap ∧
        ∀ outs, parseEach parse 0 items = .ok outs → (wrap outs).getD [] = outs := by
  by_cases empty : items = []
  · subst empty
    exact ⟨fun _ => none, rfl, fun outs parsed => Except.ok.inj parsed⟩
  · refine ⟨some, ?_, fun _ _ => rfl⟩
    rw [if_neg empty]
    cases parseEach parse 0 items <;> rfl

theorem parseUtxoRefArray_parsesList (json : Option JsString) (fieldName : RefListField) :
    ParsesList (parseUtxoRefArray json fieldName) (givenJson json) (fun _ => True) ReadsUtxoRef
      fun _ => False :=
  parsesList_of_parseEach (fun _ => parseUtxoRef_eq_ok_iff fieldName.entryName)
    (fun _ entry => iff_of_false (parseUtxoRef_ne_thrown fieldName.entryName entry) id)
    (fun items _ => map_of_empty _ items) (fun _ within => absurd trivial within) rfl

theorem parseUtxoRefArray_wellFormed (json : Option JsString) (fieldName : RefListField) :
    ReturnsWellFormed (parseUtxoRefArray json fieldName)
      (fun refs => ∀ ref ∈ refs.getD [], UtxoRefFormat ref)
      (AdmissibleList (givenJson json) (fun _ => True) AdmissibleUtxoRef) := by
  have same (entry : Json JsString) (ref : ParsedUtxoRef) (reads : ReadsUtxoRef entry ref) :
      UtxoRefFormat ref ↔ True :=
    iff_of_true ⟨hexFormat_of_isTxHash reads.hash, reads.hash, reads.natural⟩ trivial
  refine ((parseUtxoRefArray_parsesList json fieldName).wellFormed_iff same ?_).mpr ?_
  · rintro entry ⟨txHash, index, given, hash, isIndex⟩
    exact ⟨⟨txHash, .ofInt index⟩, given, hash, isIndex, index, rfl⟩
  · exact fun text items _ _ _ => ⟨fun _ _ _ _ _ => id, fun _ _ _ => trivial⟩

/-! ## Assets -/

/-- An entry whose texts the checks of units and quantities take. -/
structure ReadsAsset (entry : Json JsString) (asset : ParsedAsset) : Prop where
  unit : entryText entry "unit" = some asset.unit
  valid : isAssetUnit asset.unit = true
  quantity : entryText entry "quantity" = some asset.quantity
  amount : isAmount asset.quantity = true

omit [RequestPackages] in
theorem parseAsset_eq_ok_iff (path : String) (entry : Json JsString) (asset : ParsedAsset) :
    parseAsset path entry = .ok asset ↔ ReadsAsset entry asset := by
  unfold parseAsset
  split
  · rename_i noObject
    refine iff_of_false nofun fun reads => ?_
    rw [isObject_of_entryText reads.unit] at noObject
    cases noObject
  split
  · rename_i noUnit
    refine iff_of_false nofun fun reads => ?_
    have invalid := filter_text_eq_none_iff.mp noUnit _ reads.unit
    rw [reads.valid, Bool.and_true, decide_eq_false_iff_not] at invalid
    exact invalid (toLowerCase_ne_lovelace reads.valid)
  rename_i unit isUnit
  obtain ⟨unitGiven, valid⟩ := Option.filter_eq_some_iff.mp isUnit
  have valid := (Bool.and_eq_true _ _).mp valid |>.2
  split
  · rename_i noQuantity
    refine iff_of_false nofun fun reads => ?_
    have invalid := filter_text_eq_none_iff.mp noQuantity _ reads.quantity
    rw [reads.amount] at invalid
    cases invalid
  rename_i quantity isQuantity
  obtain ⟨quantityGiven, amount⟩ := Option.filter_eq_some_iff.mp isQuantity
  constructor
  · rintro ⟨⟩
    exact ⟨unitGiven, valid, quantityGiven, amount⟩
  · intro reads
    cases asset
    cases Option.some.inj (reads.unit.symm.trans unitGiven)
    cases Option.some.inj (reads.quantity.symm.trans quantityGiven)
    rfl

omit [RequestPackages] in
theorem parseAsset_ne_thrown (path : String) (entry : Json JsString) :
    parseAsset path entry ≠ .error .thrown := by
  unfold parseAsset
  repeat' split
  all_goals nofun

structure AssetFormat (asset : ParsedAsset) : Prop where
  unit : UnitFormat asset.unit
  quantity : AmountFormat asset.quantity

/-- The unit has no blanks around it and the quantity is not zero. -/
structure PlainAsset (entry : Json JsString) : Prop where
  unit : ∀ text, entryText entry "unit" = some text → trim text = text
  quantity : ∀ text, entryText entry "quantity" = some text → JsString.digitsValue text ≠ 0

/-- An entry that holds an asset. -/
def AdmissibleAsset (entry : Json JsString) : Prop :=
  ∃ unit quantity, entryText entry "unit" = some unit ∧ UnitFormat unit ∧
    entryText entry "quantity" = some quantity ∧ AmountFormat quantity

omit [RequestPackages] in
theorem ReadsAsset.format_iff {entry : Json JsString} {asset : ParsedAsset}
    (reads : ReadsAsset entry asset) : AssetFormat asset ↔ PlainAsset entry := by
  constructor
  · intro format
    refine ⟨fun text given => ?_, fun text given => ?_⟩
    · cases Option.some.inj (reads.unit.symm.trans given)
      exact ((unitFormat_iff _).mp format.unit).2
    · cases Option.some.inj (reads.quantity.symm.trans given)
      exact format.quantity.2
  · intro plain
    exact ⟨(unitFormat_iff _).mpr ⟨reads.valid, plain.unit _ reads.unit⟩,
      (amountFormat_iff _).mpr ⟨reads.amount, plain.quantity _ reads.quantity⟩⟩

omit [RequestPackages] in
theorem exists_readsAsset {entry : Json JsString} (admissible : AdmissibleAsset entry) :
    ∃ asset, ReadsAsset entry asset := by
  obtain ⟨unit, quantity, unitGiven, unitFormat, quantityGiven, amount⟩ := admissible
  exact ⟨⟨unit, quantity⟩, unitGiven, ((unitFormat_iff _).mp unitFormat).1, quantityGiven,
    ((amountFormat_iff _).mp amount).1⟩

theorem parseAssetsArray_wellFormed_iff (assetsJson : Option JsString) (fieldName : String) :
    ReturnsWellFormed (parseAssetsArray assetsJson fieldName)
        (fun assets => ∀ asset ∈ assets.getD [], AssetFormat asset)
        (AdmissibleList (givenJson assetsJson) (fun _ => True) AdmissibleAsset) ↔
      PlainList (givenJson assetsJson) (fun _ => True) ReadsAsset (fun _ => False) PlainAsset := by
  have parser : ParsesList (parseAssetsArray assetsJson fieldName) (givenJson assetsJson)
      (fun _ => True) ReadsAsset fun _ => False :=
    parsesList_of_parseEach (fun i => parseAsset_eq_ok_iff (entryPath fieldName i))
      (fun i entry => iff_of_false (parseAsset_ne_thrown (entryPath fieldName i) entry) id)
      (fun items _ => ⟨some, rfl, fun _ _ => rfl⟩) (fun _ within => absurd trivial within) rfl
  exact parser.wellFormed_iff (fun _ _ reads => reads.format_iff) fun _ => exists_readsAsset

end Formats

end Odatano
