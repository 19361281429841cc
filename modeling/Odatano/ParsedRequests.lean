import Odatano.RequestParsers

/-!
# Parsed requests

The formats of the values that the request parsers return, and when they return only such values.
-/

namespace Odatano

/-! ## Trimmed texts -/

theorem isBlank_of_visible {unit : CodeUnit} (visible : 33 ≤ unit.val ∧ unit.val ≤ 126) :
    isBlank unit = false := by
  unfold isBlank
  simp only [Bool.or_eq_false_iff, decide_eq_false_iff_not]
  refine ⟨⟨by omega, by omega⟩, fun listed => ?_⟩
  simp only [List.mem_cons, List.not_mem_nil, or_false] at listed
  omega

theorem visible_of_isHexUnit {unit : CodeUnit} (hex : isHexUnit unit = true) :
    33 ≤ unit.val ∧ unit.val ≤ 126 := by
  unfold isHexUnit isLowerHex at hex
  grind

theorem isHexUnit_lowerUnit (unit : CodeUnit) :
    isHexUnit (JsString.lowerUnit unit) = isHexUnit unit := by
  unfold isHexUnit isLowerHex JsString.lowerUnit
  grind [Fin.ofNat]

theorem trim_eq_self {str : JsString} (visible : ∀ unit ∈ str, 33 ≤ unit.val ∧ unit.val ≤ 126) :
    trim str = str := by
  have drop : str.dropWhile isBlank = str := by
    rw [List.dropWhile_eq_self_iff]
    intro nonempty
    rw [isBlank_of_visible (visible _ (List.getElem_mem nonempty))]
    exact Bool.false_ne_true
  rw [trim, drop, List.rdropWhile_eq_self_iff]
  intro nonempty
  rw [isBlank_of_visible (visible _ (List.getLast_mem nonempty))]
  exact Bool.false_ne_true

theorem length_trim_le (str : JsString) : (trim str).length ≤ str.length :=
  (List.rdropWhile_prefix _ _).length_le.trans (List.dropWhile_suffix _).length_le

theorem safeTrimString_eq_some_iff {str trimmed : JsString} :
    safeTrimString str = some trimmed ↔ trim str = trimmed ∧ trimmed ≠ [] := by
  simp only [safeTrimString]
  split
  · rename_i empty
    rw [empty]
    constructor
    · nofun
    · rintro ⟨rfl, nonempty⟩
      exact absurd rfl nonempty
  · rename_i nonempty
    rw [Option.some.injEq]
    exact ⟨fun same => ⟨same, same ▸ nonempty⟩, fun same => same.1⟩

/-! ## Formats -/

/-- A decimal string of a positive integer. -/
def AmountFormat (str : JsString) : Prop :=
  JsString.isDigits str = true ∧ JsString.digitsValue str ≠ 0

/-- Policy id plus asset name in lower case. -/
def UnitFormat (str : JsString) : Prop := ASSET_UNIT_REGEX str = true

/-- Even-length hexadecimal. -/
structure HexFormat (str : JsString) : Prop where
  nonempty : str ≠ []
  hex : ∀ unit ∈ str, isHexUnit unit = true
  even : str.length % 2 = 0

theorem amountFormat_iff (str : JsString) :
    AmountFormat str ↔ isAmount str = true ∧ JsString.digitsValue str ≠ 0 := by
  unfold AmountFormat isAmount
  rw [Bool.and_eq_true, decide_eq_true_iff]
  constructor
  · rintro ⟨digits, positive⟩
    refine ⟨⟨digits, ?_⟩, positive⟩
    rintro rfl
    exact positive (by decide)
  · rintro ⟨⟨digits, -⟩, positive⟩
    exact ⟨digits, positive⟩

theorem UnitFormat.hex {str : JsString} (format : UnitFormat str) :
    ∀ unit ∈ str, isHexUnit unit = true := by
  intro unit member
  have lower := (Bool.and_eq_true _ _).mp format
  rw [isHexUnit, List.all_eq_true.mp lower.2 unit member, Bool.true_or]

theorem unitFormat_iff (str : JsString) :
    UnitFormat str ↔ isAssetUnit str = true ∧ trim str = str := by
  constructor
  · intro format
    have same : trim str = str :=
      trim_eq_self fun unit member => visible_of_isHexUnit (format.hex unit member)
    exact ⟨by rw [isAssetUnit, same]; exact format, same⟩
  · rintro ⟨valid, same⟩
    rw [isAssetUnit, same] at valid
    exact valid

/-- No valid unit is `lovelace`. -/
theorem toLowerCase_ne_lovelace {str : JsString} (valid : isAssetUnit str = true) :
    str.toLowerCase ≠ JsString.ofText "lovelace" := by
  intro same
  have long := ((Bool.and_eq_true _ _).mp valid).1
  rw [decide_eq_true_iff] at long
  have short := congrArg List.length same
  rw [JsString.length_toLowerCase] at short
  have eight : (JsString.ofText "lovelace").length = 8 := by decide
  have trimmed := length_trim_le str
  omega

theorem isValidCbor_iff (str : JsString) : isValidCbor str = true ↔ HexFormat (trim str) := by
  unfold isValidCbor
  cases trimmed : safeTrimString str with
  | none =>
      refine iff_of_false Bool.false_ne_true fun format => ?_
      have present := safeTrimString_eq_some_iff.mpr ⟨rfl, format.nonempty⟩
      rw [trimmed] at present
      cases present
  | some cbor =>
      obtain ⟨rfl, nonempty⟩ := safeTrimString_eq_some_iff.mp trimmed
      simp only [Bool.and_eq_true, List.all_eq_true, decide_eq_true_iff]
      exact ⟨fun valid => ⟨nonempty, valid.1, valid.2⟩, fun format => ⟨format.hex, format.even⟩⟩

theorem hexFormat_iff (str : JsString) :
    HexFormat str ↔ isValidCbor str = true ∧ trim str = str := by
  rw [isValidCbor_iff]
  constructor
  · intro format
    have same : trim str = str :=
      trim_eq_self fun unit member => visible_of_isHexUnit (format.hex unit member)
    exact ⟨same.symm ▸ format, same⟩
  · rintro ⟨format, same⟩
    exact same ▸ format

theorem hexFormat_toLowerCase (str : JsString) : HexFormat str.toLowerCase ↔ HexFormat str := by
  have units : (∀ unit ∈ str.toLowerCase, isHexUnit unit = true) ↔
      ∀ unit ∈ str, isHexUnit unit = true := by
    simp [JsString.toLowerCase, isHexUnit_lowerUnit]
  have empty : str.toLowerCase ≠ [] ↔ str ≠ [] := by simp [JsString.toLowerCase]
  have length := JsString.length_toLowerCase str
  constructor
  · intro format
    exact ⟨empty.mp format.nonempty, units.mp format.hex, length ▸ format.even⟩
  · intro format
    exact ⟨empty.mpr format.nonempty, units.mpr format.hex, length.symm ▸ format.even⟩

theorem hexFormat_of_isDatumHash {str : JsString} (valid : isDatumHash str = true) :
    HexFormat str := by
  rw [isDatumHash, Bool.and_eq_true, decide_eq_true_iff, List.all_eq_true] at valid
  refine ⟨?_, valid.2, by rw [valid.1]⟩
  rintro rfl
  cases valid.1

theorem hexFormat_of_isTxHash {str : JsString} (valid : isTxHash str = true) : HexFormat str := by
  rw [isTxHash, Bool.and_eq_true, decide_eq_true_iff, List.all_eq_true] at valid
  refine ⟨?_, fun unit member => ?_, by rw [valid.1]⟩
  · rintro rfl
    cases valid.1
  · rw [isHexUnit, valid.2 unit member, Bool.true_or]

/-! ## Limits -/

mutual

/-- The values in a value, with their depths. -/
def valuesIn (depth : Nat) : Json JsString → List (Nat × Json JsString)
  | .array items => (depth, .array items) :: valuesInItems (depth + 1) items
  | .object fields => (depth, .object fields) :: valuesInFields (depth + 1) fields
  | leaf => [(depth, leaf)]

def valuesInItems (depth : Nat) : List (Json JsString) → List (Nat × Json JsString)
  | [] => []
  | item :: items => valuesIn depth item ++ valuesInItems depth items

def valuesInFields (depth : Nat) :
    List (JsString × Json JsString) → List (Nat × Json JsString)
  | [] => []
  | (_, value) :: fields => valuesIn depth value ++ valuesInFields depth fields

end

/-- Strings, arrays and objects that are not too long. -/
def Small : Json JsString → Prop
  | .string str => str.length ≤ MAX_STRING_LENGTH
  | .array items => items.length ≤ MAX_ARRAY_LENGTH
  | .object fields => fields.length ≤ MAX_KEYS
  | _ => True

def WithinLimits (maxDepth : Nat) (values : List (Nat × Json JsString)) : Prop :=
  ∀ inside ∈ values, inside.1 ≤ maxDepth ∧ Small inside.2

theorem withinLimits_cons {maxDepth : Nat} {inside : Nat × Json JsString}
    {values : List (Nat × Json JsString)} :
    WithinLimits maxDepth (inside :: values) ↔
      (inside.1 ≤ maxDepth ∧ Small inside.2) ∧ WithinLimits maxDepth values :=
  List.forall_mem_cons

theorem withinLimits_append {maxDepth : Nat} {first second : List (Nat × Json JsString)} :
    WithinLimits maxDepth (first ++ second) ↔
      WithinLimits maxDepth first ∧ WithinLimits maxDepth second :=
  List.forall_mem_append

theorem or_eq_none_iff {first second : Option String} :
    first.or second = none ↔ first = none ∧ second = none := by
  cases first <;> simp

mutual

theorem checkJsonComplexity_eq_none_iff (value : Json JsString) (depth maxDepth : Nat) :
    checkJsonComplexity value depth maxDepth = none ↔
      WithinLimits maxDepth (valuesIn depth value) := by
  unfold checkJsonComplexity
  split
  · rename_i deep
    refine iff_of_false (by simp) fun within => ?_
    have top : ∃ inside ∈ valuesIn depth value, inside.1 = depth := by
      cases value <;> exact ⟨_, List.mem_cons_self .., rfl⟩
    obtain ⟨inside, member, isDepth⟩ := top
    have shallow := (within inside member).1
    omega
  · rename_i shallow
    have shallow := Nat.le_of_not_lt shallow
    match value with
    | .null | .bool _ | .number _ =>
        simp [valuesIn, WithinLimits, Small, shallow]
    | .string str =>
        simp [valuesIn, WithinLimits, Small, shallow]
    | .array items =>
        have inner := checkItems_eq_none_iff items (depth + 1) maxDepth
        rw [valuesIn, withinLimits_cons, ← inner]
        rcases Nat.lt_or_ge MAX_ARRAY_LENGTH items.length with long | short
        · simp [Small, long, Nat.not_le.mpr long]
        · simp [Small, shallow, short, Nat.not_lt.mpr short]
    | .object fields =>
        have inner := checkFields_eq_none_iff fields (depth + 1) maxDepth
        rw [valuesIn, withinLimits_cons, ← inner]
        rcases Nat.lt_or_ge MAX_KEYS fields.length with long | short
        · simp [Small, long, Nat.not_le.mpr long]
        · simp [Small, shallow, short, Nat.not_lt.mpr short]

theorem checkItems_eq_none_iff (items : List (Json JsString)) (depth maxDepth : Nat) :
    checkItems items depth maxDepth = none ↔
      WithinLimits maxDepth (valuesInItems depth items) := by
  match items with
  | [] => simp [checkItems, valuesInItems, WithinLimits]
  | item :: items =>
      rw [checkItems, valuesInItems, withinLimits_append, or_eq_none_iff,
        checkJsonComplexity_eq_none_iff item, checkItems_eq_none_iff items]

theorem checkFields_eq_none_iff (fields : List (JsString × Json JsString)) (depth maxDepth : Nat) :
    checkFields fields depth maxDepth = none ↔
      WithinLimits maxDepth (valuesInFields depth fields) := by
  match fields with
  | [] => simp [checkFields, valuesInFields, WithinLimits]
  | (key, value) :: fields =>
      rw [checkFields, valuesInFields, withinLimits_append, or_eq_none_iff,
        checkJsonComplexity_eq_none_iff value, checkFields_eq_none_iff fields]

end

/-! ## Lists -/

section Lists

variable {α : Type} {parse : Nat → Json JsString → Except RequestError α}

/-- The entries are parsed if each of them is. -/
theorem parseEach_eq_ok_iff {Reads : Json JsString → α → Prop}
    (parses : ∀ i entry out, parse i entry = .ok out ↔ Reads entry out) (i : Nat)
    (entries : List (Json JsString)) (outs : List α) :
    parseEach parse i entries = .ok outs ↔ List.Forall₂ Reads entries outs := by
  induction entries generalizing i outs with
  | nil =>
      rw [parseEach, Except.ok.injEq, List.forall₂_nil_left_iff]
      exact eq_comm
  | cons entry entries ih =>
      rw [List.forall₂_cons_left_iff, parseEach]
      cases first : parse i entry with
      | error e =>
          refine iff_of_false nofun ?_
          rintro ⟨out, rest, reads, -⟩
          rw [(parses i entry out).mpr reads] at first
          cases first
      | ok out =>
          cases later : parseEach parse (i + 1) entries with
          | error e =>
              refine iff_of_false nofun ?_
              rintro ⟨_, rest, -, reads, -⟩
              rw [(ih (i + 1) rest).mpr reads] at later
              cases later
          | ok rest =>
              constructor
              · intro same
                exact ⟨out, rest, (parses i entry out).mp first, (ih _ _).mp later,
                  (Except.ok.inj same).symm⟩
              · rintro ⟨other, others, reads, readsRest, rfl⟩
                rw [(parses i entry other).mpr reads] at first
                rw [(ih _ _).mpr readsRest] at later
                cases first
                cases later
                rfl

/-- An exception is thrown at the first entry that throws, if all entries before it are taken. -/
theorem parseEach_eq_thrown_iff {Reads : Json JsString → α → Prop} {Throws : Json JsString → Prop}
    (parses : ∀ i entry out, parse i entry = .ok out ↔ Reads entry out)
    (throws : ∀ i entry, parse i entry = .error .thrown ↔ Throws entry) (i : Nat)
    (entries : List (Json JsString)) :
    parseEach parse i entries = .error .thrown ↔
      ∃ before entry after, entries = before ++ entry :: after ∧
        (∀ taken ∈ before, ∃ out, Reads taken out) ∧ Throws entry := by
  induction entries generalizing i with
  | nil =>
      refine iff_of_false nofun ?_
      rintro ⟨before, entry, after, split, -⟩
      exact absurd split.symm (by simp)
  | cons entry entries ih =>
      rw [parseEach]
      cases first : parse i entry with
      | error e =>
          constructor
          · intro same
            cases Except.error.inj same
            exact ⟨[], entry, entries, rfl, nofun, (throws i entry).mp first⟩
          · rintro ⟨before, other, after, split, taken, fails⟩
            cases before with
            | nil =>
                cases split
                rw [(throws i entry).mpr fails] at first
                cases first
                rfl
            | cons head before =>
                cases split
                obtain ⟨out, reads⟩ := taken entry (List.mem_cons_self ..)
                rw [(parses i entry out).mpr reads] at first
                cases first
      | ok out =>
          have rest : (do
              let rest ← parseEach parse (i + 1) entries
              return out :: rest : Except RequestError (List α)) = .error .thrown ↔
              parseEach parse (i + 1) entries = .error .thrown := by
            cases parseEach parse (i + 1) entries with
            | error e => exact Iff.rfl
            | ok rest => exact iff_of_false nofun nofun
          refine rest.trans ((ih (i + 1)).trans ?_)
          constructor
          · rintro ⟨before, other, after, rfl, taken, fails⟩
            refine ⟨entry :: before, other, after, rfl, ?_, fails⟩
            exact List.forall_mem_cons.mpr ⟨⟨out, (parses i entry out).mp first⟩, taken⟩
          · rintro ⟨before, other, after, split, taken, fails⟩
            cases before with
            | nil =>
                cases split
                rw [(throws i entry).mpr fails] at first
                cases first
            | cons head before =>
                cases split
                exact ⟨before, other, after, rfl,
                  fun earlier member => taken earlier (List.mem_cons_of_mem _ member), fails⟩

end Lists

end Odatano
