import Odatano.PlutusDataJson

/-!
# Plutus data through JSON and back

When `jsonToPlutusData` of `srv/utils/tx-build-helper.ts` gives back what `plutusDataToJson` of
`srv/cbor/plutus-data-json.ts` wrote, and when it builds the numbers that a JSON text has.
-/

namespace Odatano

/-! ## Decimal texts -/

theorem decimalText?_of_digits {chars : String} {digits : List Char} {negative : Bool} {n : Nat}
    (written : chars.toList = if negative then '-' :: digits else digits)
    (isNumber : digits = Nat.toDigits 10 n) :
    decimalText? chars = some (if negative then -(n : Int) else n) := by
  have nonempty : digits ≠ [] := by
    rw [isNumber]
    exact Nat.toDigits_ne_nil
  have each : digits.all Char.isDigit = true := by
    rw [isNumber, List.all_eq_true]
    exact fun c cMem => Nat.isDigit_of_mem_toDigits (by decide) (by decide) cMem
  have value : Nat.ofDigitChars 10 digits 0 = n := by
    rw [isNumber]
    exact Nat.ofDigitChars_toDigits (by decide) (by decide)
  unfold decimalText?
  rw [written]
  cases negative with
  | true => simp [nonempty, each, value]
  | false =>
      simp only [Bool.false_eq_true, if_false]
      split
      · exact absurd each (by simp)
      · simp [nonempty, each, value]

theorem decimalText?_toString (i : Int) : decimalText? (toString i) = some i := by
  cases i with
  | ofNat n =>
      have written : (toString (Int.ofNat n)).toList = Nat.toDigits 10 n := Nat.toList_repr
      exact @decimalText?_of_digits _ _ false n written rfl
  | negSucc n =>
      have written : (toString (Int.negSucc n)).toList = '-' :: Nat.toDigits 10 (n + 1) := by
        change ("-" ++ Nat.repr (n + 1)).toList = _
        rw [String.toList_append, Nat.toList_repr]
        rfl
      exact @decimalText?_of_digits _ _ true (n + 1) written rfl

/-! ## Written data -/

mutual

/-- The detailed JSON of a value. -/
def detailed : PlutusData → DetailedJson Binary64
  | .constr constr fields => .constr true false (Binary64.nearest constr 1) (detailedItems fields)
  | .int i =>
      if -MAX_SAFE_INTEGER ≤ i ∧ i ≤ MAX_SAFE_INTEGER then .number (.ofInt i)
      else .decimal (toString i) i (decimalText?_toString i)
  | .bytes bytes => .bytes (toHex bytes)
  | .list list => .list (detailedItems list)
  | .map map => .map (detailedEntries map)

def detailedItems : List PlutusData → List (DetailedJson Binary64)
  | [] => []
  | data :: list => detailed data :: detailedItems list

def detailedEntries :
    List (PlutusData × PlutusData) → List (Bool × DetailedJson Binary64 × DetailedJson Binary64)
  | [] => []
  | (fst, snd) :: map => (false, detailed fst, detailed snd) :: detailedEntries map

end

mutual

theorem toJson_detailed : ∀ data : PlutusData, (detailed data).toJson = plutusDataToJson data
  | .constr constr fields => by
      simp [detailed, DetailedJson.toJson, plutusDataToJson, itemsJson_detailed fields]
  | .int i => by
      rw [detailed, plutusDataToJson]
      split <;> rfl
  | .bytes bytes => rfl
  | .list list => by
      simp [detailed, DetailedJson.toJson, plutusDataToJson, itemsJson_detailed list]
  | .map map => by
      simp [detailed, DetailedJson.toJson, plutusDataToJson, entriesJson_detailed map]

theorem itemsJson_detailed :
    ∀ list : List PlutusData, itemsJson (detailedItems list) = itemsToJson list
  | [] => rfl
  | data :: list => by
      rw [detailedItems, itemsJson, itemsToJson, toJson_detailed data, itemsJson_detailed list]

theorem entriesJson_detailed :
    ∀ map : List (PlutusData × PlutusData),
      entriesJson (detailedEntries map) = entriesToJson map
  | [] => rfl
  | (fst, snd) :: map => by
      rw [detailedEntries, entriesJson, entriesToJson, toJson_detailed fst, toJson_detailed snd,
        entriesJson_detailed map]
      rfl

end

mutual

/-- The constructor indexes of a value. -/
def indexesOf : PlutusData → List Nat
  | .constr constr fields => constr :: indexesOfItems fields
  | .list list => indexesOfItems list
  | .map map => indexesOfEntries map
  | _ => []

def indexesOfItems : List PlutusData → List Nat
  | [] => []
  | data :: list => indexesOf data ++ indexesOfItems list

def indexesOfEntries : List (PlutusData × PlutusData) → List Nat
  | [] => []
  | (fst, snd) :: map => (indexesOf fst ++ indexesOf snd) ++ indexesOfEntries map

end

/-- A natural that `Number` keeps. -/
def ReadsExactly (n : Nat) : Prop := Binary64.nearest n 1 = .ofInt n

section Build

variable [DetailedSchema]

mutual

/-- The data comes back exactly if its constructor indexes are doubles. -/
theorem build_detailed_iff :
    ∀ data : PlutusData, (detailed data).build = some data ↔ ∀ n ∈ indexesOf data, ReadsExactly n
  | .constr constr fields => by
      have inner := buildItems_detailed_iff fields
      rw [detailed, DetailedJson.build, indexesOf, List.forall_mem_cons, ← inner]
      constructor
      · intro built
        obtain ⟨i, isInteger, built⟩ := Option.bind_eq_some_iff.mp built
        split at built
        · rename_i natural
          obtain ⟨list, isList, same⟩ := Option.map_eq_some_iff.mp built
          rw [PlutusData.constr.injEq] at same
          obtain ⟨isIndex, rfl⟩ := same
          refine ⟨?_, isList⟩
          have isNat : i = (constr : Int) := by omega
          rw [isNat] at isInteger
          exact Binary64.eq_ofInt_of_integer? isInteger
        · cases built
      · rintro ⟨exact_, isList⟩
        rw [exact_, Binary64.integer?_ofInt, Option.bind_some, if_pos (Int.natCast_nonneg constr),
          isList, Option.map_some, Int.toNat_natCast]
  | .int i => by
      rw [detailed]
      split <;> simp [DetailedJson.build, indexesOf]
  | .bytes bytes => by
      simp [detailed, DetailedJson.build, indexesOf, DetailedSchema.bytes_toHex]
  | .list list => by
      rw [detailed, DetailedJson.build, indexesOf, ← buildItems_detailed_iff list]
      simp
  | .map map => by
      rw [detailed, DetailedJson.build, indexesOf, ← buildEntries_detailed_iff map]
      simp

theorem buildItems_detailed_iff :
    ∀ list : List PlutusData,
      buildItems (detailedItems list) = some list ↔ ∀ n ∈ indexesOfItems list, ReadsExactly n
  | [] => by simp [detailedItems, buildItems, indexesOfItems]
  | data :: list => by
      rw [detailedItems, buildItems, indexesOfItems, List.forall_mem_append,
        ← build_detailed_iff data, ← buildItems_detailed_iff list]
      cases (detailed data).build with
      | none => simp
      | some first => cases buildItems (detailedItems list) <;> simp

theorem buildEntries_detailed_iff :
    ∀ map : List (PlutusData × PlutusData),
      buildEntries (detailedEntries map) = some map ↔ ∀ n ∈ indexesOfEntries map, ReadsExactly n
  | [] => by simp [detailedEntries, buildEntries, indexesOfEntries]
  | (fst, snd) :: map => by
      rw [detailedEntries, buildEntries, indexesOfEntries, List.forall_mem_append,
        List.forall_mem_append, ← build_detailed_iff fst, ← build_detailed_iff snd,
        ← buildEntries_detailed_iff map]
      cases (detailed fst).build with
      | none => simp
      | some first =>
          cases (detailed snd).build with
          | none => simp
          | some second => cases buildEntries (detailedEntries map) <;> simp

end

end Build

/-! ## Numbers of a JSON text -/

/-- A number as JSON writes it: its sign, digits and power of ten. -/
structure JsonNumber where
  negative : Bool
  digits : Nat
  exponent : Int

namespace JsonNumber

/-- The absolute value as a ratio. -/
def num (n : JsonNumber) : Nat := n.digits * 10 ^ n.exponent.toNat

def den (n : JsonNumber) : Nat := 10 ^ (-n.exponent).toNat

/-- The integer that is written, if it is one. -/
def value? (n : JsonNumber) : Option Int :=
  if n.den ∣ n.num then
    some (if n.negative then -((n.num / n.den : Nat) : Int) else ((n.num / n.den : Nat) : Int))
  else none

/-- What `JSON.parse` reads. -/
def parse (n : JsonNumber) : Binary64 :=
  match Binary64.nearest n.num n.den, n.negative with
  | .finite units, true => .finite (-units)
  | .infinite _, negative => .infinite negative
  | number, false => number

end JsonNumber

mutual

/-- What `JSON.parse` makes of a text in the detailed schema. -/
def DetailedJson.parse : DetailedJson JsonNumber → DetailedJson Binary64
  | .constr byCli fieldsFirst index fields =>
      .constr byCli fieldsFirst index.parse (parseItems fields)
  | .number value => .number value.parse
  | .decimal chars value reads => .decimal chars value reads
  | .bytes chars => .bytes chars
  | .list items => .list (parseItems items)
  | .map entries => .map (parseEntries entries)

def parseItems : List (DetailedJson JsonNumber) → List (DetailedJson Binary64)
  | [] => []
  | item :: items => item.parse :: parseItems items

def parseEntries : List (Bool × DetailedJson JsonNumber × DetailedJson JsonNumber) →
    List (Bool × DetailedJson Binary64 × DetailedJson Binary64)
  | [] => []
  | (valueFirst, k, v) :: entries => (valueFirst, k.parse, v.parse) :: parseEntries entries

end

mutual

/-- The constructor indexes and integers that a text has, none for a fraction. -/
def DetailedJson.written : DetailedJson JsonNumber → List (Option Int)
  | .constr _ _ index fields => index.value? :: writtenItems fields
  | .number value => [value.value?]
  | .decimal _ value _ => [some value]
  | .bytes _ => []
  | .list items => writtenItems items
  | .map entries => writtenEntries entries

def writtenItems : List (DetailedJson JsonNumber) → List (Option Int)
  | [] => []
  | item :: items => item.written ++ writtenItems items

def writtenEntries :
    List (Bool × DetailedJson JsonNumber × DetailedJson JsonNumber) → List (Option Int)
  | [] => []
  | (_, k, v) :: entries => (k.written ++ v.written) ++ writtenEntries entries

end

mutual

/-- The constructor indexes and integers of a value. -/
def numbersOf : PlutusData → List Int
  | .constr constr fields => (constr : Int) :: numbersOfItems fields
  | .int i => [i]
  | .bytes _ => []
  | .list list => numbersOfItems list
  | .map map => numbersOfEntries map

def numbersOfItems : List PlutusData → List Int
  | [] => []
  | data :: list => numbersOf data ++ numbersOfItems list

def numbersOfEntries : List (PlutusData × PlutusData) → List Int
  | [] => []
  | (fst, snd) :: map => (numbersOf fst ++ numbersOf snd) ++ numbersOfEntries map

end

mutual

/-- The numbers that a text writes as JSON numbers. -/
def DetailedJson.tokens : DetailedJson JsonNumber → List JsonNumber
  | .constr _ _ index fields => index :: tokensOfItems fields
  | .number value => [value]
  | .list items => tokensOfItems items
  | .map entries => tokensOfEntries entries
  | _ => []

def tokensOfItems : List (DetailedJson JsonNumber) → List JsonNumber
  | [] => []
  | item :: items => item.tokens ++ tokensOfItems items

def tokensOfEntries :
    List (Bool × DetailedJson JsonNumber × DetailedJson JsonNumber) → List JsonNumber
  | [] => []
  | (_, k, v) :: entries => (k.tokens ++ v.tokens) ++ tokensOfEntries entries

end

/-- A number that `JSON.parse` keeps. -/
def JsonNumber.Exact (n : JsonNumber) : Prop := n.parse.integer? = n.value?

/-- Lists of integers that agree in their first parts and in their second ones. -/
theorem map_some_append_iff {a b : List Int} {c d : List (Option Int)}
    (sameLength : a.length = c.length) :
    (a ++ b).map some = c ++ d ↔ a.map some = c ∧ b.map some = d := by
  rw [List.map_append]
  exact ⟨fun same => List.append_inj same (by rw [List.length_map, sameLength]),
    fun ⟨first, second⟩ => by rw [first, second]⟩

section Written

variable [DetailedSchema]

mutual

theorem length_written : ∀ {json : DetailedJson JsonNumber} {data : PlutusData},
    json.parse.build = some data → (numbersOf data).length = json.written.length
  | .constr byCli fieldsFirst index fields, data, built => by
      rw [DetailedJson.parse, DetailedJson.build] at built
      obtain ⟨i, -, built⟩ := Option.bind_eq_some_iff.mp built
      split at built
      · obtain ⟨list, isList, rfl⟩ := Option.map_eq_some_iff.mp built
        rw [numbersOf, DetailedJson.written, List.length_cons, List.length_cons,
          length_writtenItems isList]
      · cases built
  | .number value, data, built => by
      obtain ⟨i, -, rfl⟩ := Option.map_eq_some_iff.mp built
      rfl
  | .decimal chars value reads, data, built => by
      cases built
      rfl
  | .bytes chars, data, built => by
      obtain ⟨bytes, rfl⟩ := DetailedSchema.bytes_only built
      rfl
  | .list items, data, built => by
      obtain ⟨list, isList, rfl⟩ := Option.map_eq_some_iff.mp built
      exact length_writtenItems isList
  | .map entries, data, built => by
      obtain ⟨map, isMap, rfl⟩ := Option.map_eq_some_iff.mp built
      exact length_writtenEntries isMap

theorem length_writtenItems : ∀ {items : List (DetailedJson JsonNumber)} {list : List PlutusData},
    buildItems (parseItems items) = some list →
      (numbersOfItems list).length = (writtenItems items).length
  | [], list, built => by
      cases built
      rfl
  | item :: items, list, built => by
      rw [parseItems, buildItems] at built
      obtain ⟨data, isData, built⟩ := Option.bind_eq_some_iff.mp built
      obtain ⟨rest, isRest, rfl⟩ := Option.map_eq_some_iff.mp built
      rw [numbersOfItems, writtenItems, List.length_append, List.length_append,
        length_written isData, length_writtenItems isRest]

theorem length_writtenEntries :
    ∀ {entries : List (Bool × DetailedJson JsonNumber × DetailedJson JsonNumber)}
      {map : List (PlutusData × PlutusData)}, buildEntries (parseEntries entries) = some map →
        (numbersOfEntries map).length = (writtenEntries entries).length
  | [], map, built => by
      cases built
      rfl
  | (valueFirst, k, v) :: entries, map, built => by
      rw [parseEntries, buildEntries] at built
      obtain ⟨entry, isEntry, built⟩ := Option.bind_eq_some_iff.mp built
      obtain ⟨fst, isFst, isEntry⟩ := Option.bind_eq_some_iff.mp isEntry
      obtain ⟨snd, isSnd, rfl⟩ := Option.map_eq_some_iff.mp isEntry
      obtain ⟨rest, isRest, rfl⟩ := Option.map_eq_some_iff.mp built
      simp only [numbersOfEntries, writtenEntries, List.length_append, length_written isFst,
        length_written isSnd, length_writtenEntries isRest]

end

mutual

/-- The numbers built are the written ones exactly if `JSON.parse` keeps each of them. -/
theorem numbersOf_eq_written_iff : ∀ {json : DetailedJson JsonNumber} {data : PlutusData},
    json.parse.build = some data →
      ((numbersOf data).map some = json.written ↔ ∀ n ∈ json.tokens, n.Exact)
  | .constr byCli fieldsFirst index fields, data, built => by
      rw [DetailedJson.parse, DetailedJson.build] at built
      obtain ⟨i, isInteger, built⟩ := Option.bind_eq_some_iff.mp built
      split at built
      · rename_i natural
        obtain ⟨list, isList, rfl⟩ := Option.map_eq_some_iff.mp built
        rw [numbersOf, DetailedJson.written, DetailedJson.tokens, List.map_cons, List.cons.injEq,
          List.forall_mem_cons, numbersOfItems_eq_written_iff isList, JsonNumber.Exact, isInteger,
          Int.toNat_of_nonneg natural]
      · cases built
  | .number value, data, built => by
      obtain ⟨i, isInteger, rfl⟩ := Option.map_eq_some_iff.mp built
      simp [numbersOf, DetailedJson.written, DetailedJson.tokens, JsonNumber.Exact, isInteger]
  | .decimal chars value reads, data, built => by
      cases built
      simp [numbersOf, DetailedJson.written, DetailedJson.tokens]
  | .bytes chars, data, built => by
      obtain ⟨bytes, rfl⟩ := DetailedSchema.bytes_only built
      simp [numbersOf, DetailedJson.written, DetailedJson.tokens]
  | .list items, data, built => by
      obtain ⟨list, isList, rfl⟩ := Option.map_eq_some_iff.mp built
      exact numbersOfItems_eq_written_iff isList
  | .map entries, data, built => by
      obtain ⟨map, isMap, rfl⟩ := Option.map_eq_some_iff.mp built
      exact numbersOfEntries_eq_written_iff isMap

theorem numbersOfItems_eq_written_iff :
    ∀ {items : List (DetailedJson JsonNumber)} {list : List PlutusData},
      buildItems (parseItems items) = some list →
        ((numbersOfItems list).map some = writtenItems items ↔
          ∀ n ∈ tokensOfItems items, n.Exact)
  | [], list, built => by
      cases built
      simp [numbersOfItems, writtenItems, tokensOfItems]
  | item :: items, list, built => by
      rw [parseItems, buildItems] at built
      obtain ⟨data, isData, built⟩ := Option.bind_eq_some_iff.mp built
      obtain ⟨rest, isRest, rfl⟩ := Option.map_eq_some_iff.mp built
      rw [numbersOfItems, writtenItems, tokensOfItems, map_some_append_iff (length_written isData),
        List.forall_mem_append, numbersOf_eq_written_iff isData,
        numbersOfItems_eq_written_iff isRest]

theorem numbersOfEntries_eq_written_iff :
    ∀ {entries : List (Bool × DetailedJson JsonNumber × DetailedJson JsonNumber)}
      {map : List (PlutusData × PlutusData)}, buildEntries (parseEntries entries) = some map →
        ((numbersOfEntries map).map some = writtenEntries entries ↔
          ∀ n ∈ tokensOfEntries entries, n.Exact)
  | [], map, built => by
      cases built
      simp [numbersOfEntries, writtenEntries, tokensOfEntries]
  | (valueFirst, k, v) :: entries, map, built => by
      rw [parseEntries, buildEntries] at built
      obtain ⟨entry, isEntry, built⟩ := Option.bind_eq_some_iff.mp built
      obtain ⟨fst, isFst, isEntry⟩ := Option.bind_eq_some_iff.mp isEntry
      obtain ⟨snd, isSnd, rfl⟩ := Option.map_eq_some_iff.mp isEntry
      obtain ⟨rest, isRest, rfl⟩ := Option.map_eq_some_iff.mp built
      have firstLength : (numbersOf fst ++ numbersOf snd).length =
          (k.written ++ v.written).length := by
        rw [List.length_append, List.length_append, length_written isFst, length_written isSnd]
      rw [numbersOfEntries, writtenEntries, tokensOfEntries, map_some_append_iff firstLength,
        map_some_append_iff (length_written isFst), List.forall_mem_append,
        List.forall_mem_append, numbersOf_eq_written_iff isFst, numbersOf_eq_written_iff isSnd,
        numbersOfEntries_eq_written_iff isRest]

end

mutual

/-- JSON without fractions and negative constructor indexes, whose bytes the library reads. -/
def Readable : DetailedJson JsonNumber → Prop
  | .constr _ _ index fields =>
      (∃ i, index.parse.integer? = some i ∧ 0 ≤ i) ∧ ReadableItems fields
  | .number value => ∃ i, value.parse.integer? = some i
  | .decimal _ _ _ => True
  | .bytes chars =>
      ∃ data, DetailedSchema.dataFromJson (.object [("bytes", .string chars)]) = some data
  | .list items => ReadableItems items
  | .map entries => ReadableEntries entries

def ReadableItems : List (DetailedJson JsonNumber) → Prop
  | [] => True
  | item :: items => Readable item ∧ ReadableItems items

def ReadableEntries : List (Bool × DetailedJson JsonNumber × DetailedJson JsonNumber) → Prop
  | [] => True
  | (_, k, v) :: entries => (Readable k ∧ Readable v) ∧ ReadableEntries entries

end

mutual

theorem readable_iff :
    ∀ json : DetailedJson JsonNumber, Readable json ↔ ∃ data, json.parse.build = some data
  | .constr byCli fieldsFirst index fields => by
      rw [Readable, readableItems_iff fields, DetailedJson.parse, DetailedJson.build]
      constructor
      · rintro ⟨⟨i, isInteger, natural⟩, list, isList⟩
        exact ⟨.constr i.toNat list, by
          rw [isInteger, Option.bind_some, if_pos natural, isList, Option.map_some]⟩
      · rintro ⟨data, built⟩
        obtain ⟨i, isInteger, built⟩ := Option.bind_eq_some_iff.mp built
        split at built
        · rename_i natural
          obtain ⟨list, isList, -⟩ := Option.map_eq_some_iff.mp built
          exact ⟨⟨i, isInteger, natural⟩, list, isList⟩
        · cases built
  | .number value => by
      rw [Readable, DetailedJson.parse, DetailedJson.build]
      cases value.parse.integer? <;> simp
  | .decimal chars value reads => by simp [Readable, DetailedJson.parse, DetailedJson.build]
  | .bytes chars => by rw [Readable, DetailedJson.parse, DetailedJson.build]
  | .list items => by
      rw [Readable, readableItems_iff items, DetailedJson.parse, DetailedJson.build]
      cases buildItems (parseItems items) <;> simp
  | .map entries => by
      rw [Readable, readableEntries_iff entries, DetailedJson.parse, DetailedJson.build]
      cases buildEntries (parseEntries entries) <;> simp

theorem readableItems_iff :
    ∀ items : List (DetailedJson JsonNumber),
      ReadableItems items ↔ ∃ list, buildItems (parseItems items) = some list
  | [] => by simp [ReadableItems, parseItems, buildItems]
  | item :: items => by
      rw [ReadableItems, readable_iff item, readableItems_iff items, parseItems, buildItems]
      cases item.parse.build with
      | none => simp
      | some data => cases buildItems (parseItems items) <;> simp

theorem readableEntries_iff :
    ∀ entries : List (Bool × DetailedJson JsonNumber × DetailedJson JsonNumber),
      ReadableEntries entries ↔ ∃ map, buildEntries (parseEntries entries) = some map
  | [] => by simp [ReadableEntries, parseEntries, buildEntries]
  | (valueFirst, k, v) :: entries => by
      rw [ReadableEntries, readable_iff k, readable_iff v, readableEntries_iff entries,
        parseEntries, buildEntries]
      cases k.parse.build with
      | none => simp
      | some fst =>
          cases v.parse.build with
          | none => simp
          | some snd => cases buildEntries (parseEntries entries) <;> simp

end

/-! ## There and back -/

/-- The JSON of a value is read as the value. -/
def RoundTrips (data : PlutusData) : Prop := jsonToPlutusData (plutusDataToJson data) = .ok data

/-- A JSON text is refused or read with the constructor indexes and integers it has. -/
def BuildsAsWritten (json : DetailedJson JsonNumber) : Prop :=
  ∀ data, jsonToPlutusData json.parse.toJson = .ok data → (numbersOf data).map some = json.written

/-- A value comes back exactly if its constructor indexes are doubles, and a text is read as
written exactly if it is refused or `JSON.parse` keeps its numbers. -/
theorem plutusData_json_iff :
    (∀ data, RoundTrips data ↔ ∀ n ∈ indexesOf data, ReadsExactly n) ∧
      ∀ json, BuildsAsWritten json ↔ (Readable json → ∀ n ∈ json.tokens, n.Exact) := by
  constructor
  · intro data
    rw [RoundTrips, ← toJson_detailed, jsonToPlutusData_toJson, ← build_detailed_iff]
    cases (detailed data).build <;> simp
  · intro json
    unfold BuildsAsWritten
    rw [jsonToPlutusData_toJson, readable_iff]
    cases built : json.parse.build with
    | none => simp
    | some data => simp [numbersOf_eq_written_iff built]

end Written

/-! ## A large constructor index -/

def hexValue? (char : Char) : Option Nat :=
  (List.range 16).find? fun value => decide (hexDigit value = char)

def hexBytesOf? : List Char → Option (List UInt8)
  | [] => some []
  | high :: low :: rest =>
      match hexValue? high, hexValue? low, hexBytesOf? rest with
      | some h, some l, some bytes => some (UInt8.ofNat (16 * h + l) :: bytes)
      | _, _, _ => none
  | _ => none

theorem hexBytesOf?_toHex (bytes : List UInt8) :
    hexBytesOf? (toHex bytes).toList = some bytes := by
  have digits : ∀ value : Fin 16, hexValue? (hexDigit value) = some value.val := by decide
  rw [toHex, String.toList_ofList]
  induction bytes with
  | nil => rfl
  | cons byte bytes ih =>
      have bound : byte.toNat < 256 := byte.toNat_lt
      have high := digits ⟨byte.toNat / 16, by omega⟩
      have low := digits ⟨byte.toNat % 16, by omega⟩
      simp only [List.flatMap_cons, List.cons_append, List.nil_append, hexBytesOf?] at ih ⊢
      rw [high, low, ih]
      simp only
      rw [Nat.div_add_mod, UInt8.ofNat_toNat]

mutual

/-- The detailed schema, read as it is. -/
def schemaData : Json String → Option PlutusData
  | .object [(key, .number n)] => if key = "int" then n.integer?.map .int else none
  | .object [(key, .string chars)] =>
      if key = "int" then (decimalText? chars).map .int
      else if key = "bytes" then (hexBytesOf? chars.toList).map .bytes
      else none
  | .object [(key, .array items)] =>
      if key = "list" then (schemaItems items).map .list
      else if key = "map" then (schemaEntries items).map .map
      else none
  | .object [(key, .number n), (other, .array items)] =>
      if key = "constr" ∧ other = "fields" then
        n.integer?.bind fun i => if 0 ≤ i then (schemaItems items).map (.constr i.toNat) else none
      else none
  | _ => none

def schemaItems : List (Json String) → Option (List PlutusData)
  | [] => some []
  | item :: items => (schemaData item).bind fun data => (schemaItems items).map (data :: ·)

def schemaEntries : List (Json String) → Option (List (PlutusData × PlutusData))
  | [] => some []
  | .object [(key, k), (other, v)] :: entries =>
      if key = "k" ∧ other = "v" then
        ((schemaData k).bind fun fst => (schemaData v).map fun snd => (fst, snd)).bind fun entry =>
          (schemaEntries entries).map (entry :: ·)
      else none
  | _ => none

end

theorem schemaItems_eq (items : List (Json String)) :
    schemaItems items = items.mapM schemaData := by
  induction items with
  | nil => rfl
  | cons item items ih =>
      rw [schemaItems, List.mapM_cons, ih]
      cases schemaData item with
      | none => rfl
      | some data => cases items.mapM schemaData <;> rfl

theorem schemaEntries_eq (entries : List (Json String × Json String)) :
    schemaEntries (entries.map fun entry => .object [("k", entry.1), ("v", entry.2)]) =
      entries.mapM fun entry =>
        (schemaData entry.1).bind fun k => (schemaData entry.2).map fun v => (k, v) := by
  induction entries with
  | nil => rfl
  | cons entry entries ih =>
      rw [List.map_cons, schemaEntries, if_pos ⟨rfl, rfl⟩, List.mapM_cons, ih]
      cases schemaData entry.1 with
      | none => rfl
      | some fst =>
          cases schemaData entry.2 with
          | none => rfl
          | some snd =>
              simp only [Option.bind_some, Option.map_some, Option.bind_eq_bind]
              cases entries.mapM fun entry =>
                (schemaData entry.1).bind fun k => (schemaData entry.2).map fun v => (k, v) <;> rfl

@[reducible] def detailedSchema : DetailedSchema where
  dataFromJson := schemaData
  int_number n := by rw [schemaData, if_pos rfl]
  int_text reads := by rw [schemaData, if_pos rfl, reads, Option.map_some]
  bytes_toHex bytes := by
    rw [schemaData, if_neg (by decide), if_pos rfl, hexBytesOf?_toHex, Option.map_some]
  bytes_only read := by
    rw [schemaData, if_neg (by decide), if_pos rfl] at read
    obtain ⟨bytes, -, rfl⟩ := Option.map_eq_some_iff.mp read
    exact ⟨bytes, rfl⟩
  list items := by rw [schemaData, if_pos rfl, schemaItems_eq]
  map entries := by rw [schemaData, if_neg (by decide), if_pos rfl, schemaEntries_eq]
  constr n items := by rw [schemaData, if_pos ⟨rfl, rfl⟩, schemaItems_eq]

/-- The constructor index `2 ^ 53 + 1` comes back as `2 ^ 53`. -/
theorem plutusData_json_rounds :
    ¬((∀ data, @RoundTrips detailedSchema data) ∧
      ∀ json, @BuildsAsWritten detailedSchema json) := by
  rintro ⟨roundTrips, -⟩
  have back := roundTrips (.constr 9007199254740993 [])
  have read : ((@jsonToPlutusData detailedSchema
      (plutusDataToJson (.constr 9007199254740993 []))).toOption.map numbersOf) =
        some [9007199254740992] := by decide +kernel
  rw [back] at read
  exact absurd read (by decide)

end Odatano
