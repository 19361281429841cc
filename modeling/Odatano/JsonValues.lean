import Odatano.Binary64Numbers

/-!
# JSON values and JavaScript strings

What `JSON.parse` returns.  A string is its UTF-16 code units, of which two may be one code point.
-/

/-- A JSON value with strings `σ`; the fields of an object are in the order of its keys. -/
inductive Json (σ : Type) where
  | null
  | bool (value : Bool)
  | number (value : Binary64)
  | string (value : σ)
  | array (items : List (Json σ))
  | object (fields : List (σ × Json σ))

/-! ## Strings -/

/-- A UTF-16 code unit. -/
abbrev CodeUnit := Fin 65536

instance CodeUnit.neZero : NeZero 65536 := ⟨by decide⟩

abbrev JsString := List CodeUnit

/-- Characters that `trim` removes and `parseInt` skips. -/
def isJsWhitespace (c : Char) : Bool :=
  [0x9, 0xA, 0xB, 0xC, 0xD, 0x20, 0xA0, 0x1680, 0x2028, 0x2029, 0x202F, 0x205F, 0x3000,
    0xFEFF].contains c.toNat || (0x2000 ≤ c.toNat && c.toNat ≤ 0x200A)

namespace JsString

/-- The code units of a text. -/
def ofText (chars : String) : JsString :=
  chars.toList.flatMap fun char =>
    if char.toNat < 0x10000 then [Fin.ofNat 65536 char.toNat]
    else
      [Fin.ofNat 65536 (0xd800 + (char.toNat - 0x10000) / 0x400),
        Fin.ofNat 65536 (0xdc00 + (char.toNat - 0x10000) % 0x400)]

def isHighSurrogate (unit : CodeUnit) : Bool := decide (0xd800 ≤ unit.val ∧ unit.val < 0xdc00)

def isLowSurrogate (unit : CodeUnit) : Bool := decide (0xdc00 ≤ unit.val ∧ unit.val < 0xe000)

/-- `for (const ch of str)`: a high surrogate before a low one is one code point. -/
def codePoints : JsString → List JsString
  | [] => []
  | [unit] => [[unit]]
  | first :: second :: rest =>
      if isHighSurrogate first && isLowSurrogate second then
        [first, second] :: codePoints rest
      else [first] :: codePoints (second :: rest)

/-- `Buffer.byteLength` of one code point; a lone surrogate is written as `U+FFFD`. -/
def pointBytes : JsString → Nat
  | [unit] => if unit.val < 0x80 then 1 else if unit.val < 0x800 then 2 else 3
  | _ => 4

/-- `Buffer.byteLength(str, 'utf8')`. -/
def utf8Bytes (str : JsString) : Nat := ((codePoints str).map pointBytes).sum

/-- `/^\d+$/`. -/
def isDigits (str : JsString) : Bool :=
  decide (str ≠ []) && str.all fun unit => decide (48 ≤ unit.val ∧ unit.val ≤ 57)

/-- The number that digits write. -/
def digitsValue (str : JsString) : Nat :=
  str.foldl (fun value unit => 10 * value + (unit.val - 48)) 0

theorem pointBytes_le (point : JsString) : pointBytes point ≤ 4 := by
  unfold pointBytes
  split
  · split
    · decide
    · split <;> decide
  · exact Nat.le_refl 4

@[simp] theorem flatten_codePoints (str : JsString) : (codePoints str).flatten = str := by
  fun_induction codePoints str with
  | case1 => rfl
  | case2 unit => rfl
  | case3 first second rest pair ih => simp [ih]
  | case4 first second rest pair ih => simp [ih]

theorem ne_nil_of_mem_codePoints {str point : JsString} (listed : point ∈ codePoints str) :
    point ≠ [] := by
  fun_induction codePoints str with
  | case1 => cases listed
  | case2 unit =>
      rw [List.mem_singleton] at listed
      exact listed ▸ List.cons_ne_nil _ _
  | case3 first second rest pair ih =>
      rcases List.mem_cons.mp listed with rfl | later
      · exact List.cons_ne_nil _ _
      · exact ih later
  | case4 first second rest pair ih =>
      rcases List.mem_cons.mp listed with rfl | later
      · exact List.cons_ne_nil _ _
      · exact ih later

/-- A string may be cut between its code points. -/
theorem codePoints_flatten_of_append {str : JsString} {first second : List JsString}
    (cut : codePoints str = first ++ second) :
    codePoints first.flatten = first ∧ codePoints second.flatten = second := by
  fun_induction codePoints str generalizing first with
  | case1 =>
      obtain ⟨rfl, rfl⟩ := List.append_eq_nil_iff.mp cut.symm
      exact ⟨rfl, rfl⟩
  | case2 unit =>
      rcases List.singleton_eq_append_iff.mp cut with ⟨rfl, rfl⟩ | ⟨rfl, rfl⟩
      · exact ⟨rfl, rfl⟩
      · exact ⟨rfl, rfl⟩
  | case3 high low rest pair ih =>
      cases first with
      | nil =>
          refine ⟨rfl, ?_⟩
          rw [← List.nil_append second, ← cut, List.flatten_cons, flatten_codePoints]
          simp only [List.cons_append, List.nil_append, codePoints, pair, if_true]
      | cons point first =>
          rw [List.cons_append, List.cons.injEq] at cut
          obtain ⟨rfl, cut⟩ := cut
          obtain ⟨ihFirst, ihSecond⟩ := ih cut
          refine ⟨?_, ihSecond⟩
          simp only [List.flatten_cons, List.cons_append, List.nil_append, codePoints, pair,
            if_true, ihFirst]
  | case4 unit next rest apart ih =>
      cases first with
      | nil =>
          refine ⟨rfl, ?_⟩
          rw [← List.nil_append second, ← cut, List.flatten_cons, flatten_codePoints]
          simp only [List.cons_append, List.nil_append, codePoints, apart, Bool.false_eq_true,
            if_false]
      | cons point first =>
          rw [List.cons_append, List.cons.injEq] at cut
          obtain ⟨rfl, cut⟩ := cut
          obtain ⟨ihFirst, ihSecond⟩ := ih cut
          refine ⟨?_, ihSecond⟩
          -- what follows the unit is the next one or nothing
          cases first with
          | nil => rfl
          | cons following first =>
              have starts : (following :: first).flatten.head? = some next := by
                have whole := congrArg List.flatten cut
                rw [flatten_codePoints, List.flatten_append] at whole
                have nonempty : following ≠ [] := ne_nil_of_mem_codePoints (by
                  rw [cut]
                  exact List.mem_cons_self ..)
                cases following with
                | nil => exact absurd rfl nonempty
                | cons unit' following =>
                    rw [List.flatten_cons, List.cons_append, List.cons_append,
                      List.cons.injEq] at whole
                    rw [List.flatten_cons, List.cons_append, List.head?_cons, whole.1]
              obtain ⟨tail, isNext⟩ : ∃ tail, (following :: first).flatten = next :: tail := by
                cases flat : (following :: first).flatten with
                | nil =>
                    rw [flat] at starts
                    cases starts
                | cons head tail =>
                    rw [flat] at starts
                    exact ⟨tail, by rw [Option.some.inj starts]⟩
              rw [List.flatten_cons, isNext, List.cons_append, List.nil_append, codePoints,
                if_neg apart, ← isNext, ihFirst]

end JsString

/-! ## Access -/

namespace Json

/-- The value of a key; only objects have named ones. -/
def field? (entry : Json JsString) (key : String) : Option (Json JsString) :=
  match entry with
  | .object fields =>
      (fields.find? fun field => decide (field.1 = JsString.ofText key)).map Prod.snd
  | _ => none

/-- The value of a key that is neither missing nor null. -/
def present? (entry : Json JsString) (key : String) : Option (Json JsString) :=
  match entry.field? key with
  | some .null => none
  | value => value

/-- `typeof value === 'string'`. -/
def text? : Json JsString → Option JsString
  | .string str => some str
  | _ => none

/-- `typeof value === 'object'`, and not null. -/
def isObject : Json JsString → Bool
  | .array _ | .object _ => true
  | _ => false

end Json
