import Odatano.HexStrings

/-!
# JSON texts

`JSON.parse` in two stages: a text is split into tokens, and the tokens are read as a tree.  What
a tree means is left to whoever builds values from it.
-/

namespace JsonText

/-! ## Characters -/

def quote : CodeUnit := 34

def backslash : CodeUnit := 92

def minus : CodeUnit := 45

def isDigit (unit : CodeUnit) : Bool := decide (48 ≤ unit.val ∧ unit.val ≤ 57)

def isSpace (unit : CodeUnit) : Bool :=
  decide (unit = 32 ∨ unit = 9 ∨ unit = 10 ∨ unit = 13)

/-- The characters that a number may contain. -/
def isNumberUnit (unit : CodeUnit) : Bool :=
  isDigit unit || decide (unit = minus ∨ unit = 43 ∨ unit = 46 ∨ unit = 101 ∨ unit = 69)

/-- The characters an escape stands for, apart from `\u`. -/
def simpleEscape? (unit : CodeUnit) : Option CodeUnit :=
  if unit = quote ∨ unit = backslash ∨ unit = 47 then some unit
  else if unit = 98 then some 8
  else if unit = 102 then some 12
  else if unit = 110 then some 10
  else if unit = 114 then some 13
  else if unit = 116 then some 9
  else none

/-- The character of four hexadecimal digits. -/
def unicodeEscape? (a b c d : CodeUnit) : Option CodeUnit := do
  let a ← JsString.hexDigit? a
  let b ← JsString.hexDigit? b
  let c ← JsString.hexDigit? c
  let d ← JsString.hexDigit? d
  return Fin.ofNat 65536 (((a * 16 + b) * 16 + c) * 16 + d)

/-! ## Scanning numbers -/

/-- The characters of an optional fraction, and what follows. -/
def scanFraction : JsString → JsString × JsString
  | unit :: rest =>
      if unit = 46 ∧ rest.takeWhile isDigit ≠ [] then
        (unit :: rest.takeWhile isDigit, rest.dropWhile isDigit)
      else ([], unit :: rest)
  | [] => ([], [])

/-- An optional sign. -/
def scanSign : JsString → JsString × JsString
  | unit :: rest => if unit = minus ∨ unit = 43 then ([unit], rest) else ([], unit :: rest)
  | [] => ([], [])

/-- The characters of an optional exponent, and what follows. -/
def scanExponent : JsString → JsString × JsString
  | unit :: rest =>
      let signed := scanSign rest
      if (unit = 101 ∨ unit = 69) ∧ signed.2.takeWhile isDigit ≠ [] then
        (unit :: signed.1 ++ signed.2.takeWhile isDigit, signed.2.dropWhile isDigit)
      else ([], unit :: rest)
  | [] => ([], [])

/-- Digits with an optional fraction and exponent. -/
def scanUnsigned (text : JsString) : Option (JsString × JsString) :=
  if text.takeWhile isDigit = [] then none
  else
    let fraction := scanFraction (text.dropWhile isDigit)
    let exponent := scanExponent fraction.2
    some (text.takeWhile isDigit ++ fraction.1 ++ exponent.1, exponent.2)

/-- A number with an optional minus sign. -/
def scanNumber : JsString → Option (JsString × JsString)
  | unit :: rest =>
      if unit = minus then (scanUnsigned rest).map fun found => (unit :: found.1, found.2)
      else scanUnsigned (unit :: rest)
  | [] => none

/-- Digits after an optional minus sign, and nothing else. -/
def isInteger (raw : JsString) : Bool :=
  match raw with
  | unit :: rest => if unit = minus then JsString.isDigits rest else JsString.isDigits raw
  | [] => false

/-- The whole digits do not start with a zero that another digit follows. -/
def noLeadingZero : JsString → Bool
  | unit :: rest =>
      let digits := (if unit = minus then rest else unit :: rest).takeWhile isDigit
      decide (digits.length ≤ 1 ∨ digits.head? ≠ some 48)
  | [] => true

/-- The grammar of a number, for a whole run of characters. -/
def isNumber (run : JsString) : Bool :=
  decide (scanNumber run = some (run, [])) && noLeadingZero run

/-! ## Tokens -/

inductive Token
  | beginObject
  | endObject
  | beginArray
  | endArray
  | colon
  | comma
  | null
  | bool (value : Bool)
  | string (value : JsString)
  | number (raw : JsString)
deriving DecidableEq

/-- A string after its opening quote, and what follows its closing quote. -/
def lexString : JsString → Option (JsString × JsString)
  | [] => none
  | unit :: rest =>
      if unit = quote then some ([], rest)
      else if unit = backslash then
        match rest with
        | [] => none
        | escape :: rest =>
            if escape = 117 then
              match rest with
              | a :: b :: c :: d :: rest =>
                  match unicodeEscape? a b c d with
                  | some value => (lexString rest).map fun found => (value :: found.1, found.2)
                  | none => none
              | _ => none
            else
              match simpleEscape? escape with
              | some value => (lexString rest).map fun found => (value :: found.1, found.2)
              | none => none
      else if unit.val < 0x20 then none
      else (lexString rest).map fun found => (unit :: found.1, found.2)

def punctuation? (unit : CodeUnit) : Option Token :=
  if unit = 123 then some .beginObject
  else if unit = 125 then some .endObject
  else if unit = 91 then some .beginArray
  else if unit = 93 then some .endArray
  else if unit = 58 then some .colon
  else if unit = 44 then some .comma
  else none

/-- The words of the grammar. -/
def words : List (JsString × Token) :=
  [([110, 117, 108, 108], .null), ([116, 114, 117, 101], .bool true),
    ([102, 97, 108, 115, 101], .bool false)]

/-- What follows a word. -/
def stripWord (word text : JsString) : Option JsString :=
  if word.isPrefixOf text then some (text.drop word.length) else none

def lexWord (text : JsString) : Option (Token × JsString) :=
  words.findSome? fun word => (stripWord word.1 text).map fun rest => (word.2, rest)

/-- The token a text begins with.  A run of number characters is one number: no value follows
another one without something between them. -/
def lexToken (unit : CodeUnit) (rest : JsString) : Option (Token × JsString) :=
  match punctuation? unit with
  | some token => some (token, rest)
  | none =>
      if unit = quote then (lexString rest).map fun found => (.string found.1, found.2)
      else if isNumberUnit unit then
        let run := (unit :: rest).takeWhile isNumberUnit
        if isNumber run then some (.number run, (unit :: rest).dropWhile isNumberUnit) else none
      else lexWord (unit :: rest)

/-- The characters of a string after its opening quote, closing quote included, and what they
write. -/
inductive StringBody : JsString → JsString → Prop
  | close : StringBody [quote] []
  | unicode {a b c d value : CodeUnit} {raw rest : JsString}
      (isEscape : unicodeEscape? a b c d = some value) (body : StringBody raw rest) :
      StringBody (backslash :: 117 :: a :: b :: c :: d :: raw) (value :: rest)
  | escape {unit value : CodeUnit} {raw rest : JsString} (simple : unit ≠ 117)
      (isEscape : simpleEscape? unit = some value) (body : StringBody raw rest) :
      StringBody (backslash :: unit :: raw) (value :: rest)
  | plain {unit : CodeUnit} {raw rest : JsString} (noQuote : unit ≠ quote)
      (noBackslash : unit ≠ backslash) (noControl : ¬unit.val < 0x20)
      (body : StringBody raw rest) : StringBody (unit :: raw) (unit :: rest)

theorem lexString_of_body {raw value : JsString} (body : StringBody raw value) (rest : JsString) :
    lexString (raw ++ rest) = some (value, rest) := by
  have differ : backslash ≠ quote := by decide
  induction body with
  | close =>
      rw [List.singleton_append, lexString.eq_def]
      exact if_pos rfl
  | unicode isEscape _ ih =>
      rw [lexString.eq_def]
      simp [differ, isEscape, ih]
  | escape simple isEscape _ ih =>
      rw [lexString.eq_def]
      simp [differ, simple, isEscape, ih]
  | plain noQuote noBackslash noControl _ ih =>
      rw [lexString.eq_def]
      simp [noQuote, noBackslash, noControl, ih]

theorem exists_body {text value rest : JsString} (found : lexString text = some (value, rest)) :
    ∃ raw, StringBody raw value ∧ text = raw ++ rest := by
  fun_induction lexString text generalizing value with
  | case2 =>
      cases found
      exact ⟨[quote], .close, rfl⟩
  | case4 a b c d text unit isEscape _ ih =>
      obtain ⟨⟨inner, after⟩, isInner, same⟩ := Option.map_eq_some_iff.mp found
      cases same
      obtain ⟨raw, body, rfl⟩ := ih isInner
      exact ⟨_, .unicode isEscape body, rfl⟩
  | case7 unit text simple value isEscape _ ih =>
      obtain ⟨⟨inner, after⟩, isInner, same⟩ := Option.map_eq_some_iff.mp found
      cases same
      obtain ⟨raw, body, rfl⟩ := ih isInner
      exact ⟨_, .escape simple isEscape body, rfl⟩
  | case10 unit text noQuote noBackslash noControl ih =>
      obtain ⟨⟨inner, after⟩, isInner, same⟩ := Option.map_eq_some_iff.mp found
      cases same
      obtain ⟨raw, body, rfl⟩ := ih isInner
      exact ⟨_, .plain noQuote noBackslash noControl body, rfl⟩
  | _ => cases found

theorem stripWord_eq_some_iff {word text rest : JsString} :
    stripWord word text = some rest ↔ text = word ++ rest := by
  rw [stripWord]
  constructor
  · intro found
    split at found
    · rename_i begins
      obtain ⟨after, rfl⟩ := List.isPrefixOf_iff_prefix.mp begins
      rw [List.drop_left, Option.some.injEq] at found
      rw [found]
    · cases found
  · rintro rfl
    rw [if_pos (List.isPrefixOf_iff_prefix.mpr (List.prefix_append word rest)), List.drop_left]

theorem lexWord_eq_some {text rest : JsString} {token : Token}
    (found : lexWord text = some (token, rest)) : ∃ word, (word, token) ∈ words ∧
      text = word ++ rest := by
  obtain ⟨⟨word, token⟩, member, isWord⟩ := List.exists_of_findSome?_eq_some found
  obtain ⟨rest, isRest, same⟩ := Option.map_eq_some_iff.mp isWord
  cases same
  exact ⟨word, member, stripWord_eq_some_iff.mp isRest⟩

/-- What follows a token is an end of the text. -/
theorem length_of_lexToken {unit : CodeUnit} {text rest : JsString} {token : Token}
    (found : lexToken unit text = some (token, rest)) : rest.length ≤ text.length := by
  unfold lexToken at found
  split at found
  · cases found
    exact le_rfl
  · split at found
    · obtain ⟨⟨value, after⟩, isString, same⟩ := Option.map_eq_some_iff.mp found
      cases same
      obtain ⟨raw, -, rfl⟩ := exists_body isString
      rw [List.length_append]
      exact Nat.le_add_left _ _
    · split at found
      · rename_i isRun
        dsimp only at found
        split at found
        · cases found
          rw [List.dropWhile_cons_of_pos isRun]
          exact (List.dropWhile_suffix _).length_le
        · cases found
      · obtain ⟨word, member, isText⟩ := lexWord_eq_some found
        have whole := congrArg List.length isText
        have wordy : 1 ≤ word.length := by
          revert member
          simp only [words, List.mem_cons, Prod.mk.injEq, List.not_mem_nil, or_false]
          rintro (⟨rfl, -⟩ | ⟨rfl, -⟩ | ⟨rfl, -⟩) <;> decide
        rw [List.length_append, List.length_cons] at whole
        omega

/-- The tokens of a text. -/
def lex : JsString → Option (List Token)
  | [] => some []
  | unit :: rest =>
      if isSpace unit then lex rest
      else
        match _found : lexToken unit rest with
        | some (token, after) => (lex after).map fun tokens => token :: tokens
        | none => none
termination_by text => text.length
decreasing_by
  · exact Nat.lt_succ_self _
  · exact Nat.lt_succ_of_le (length_of_lexToken _found)

/-! ## Trees -/

/-- A text as the grammar reads it: numbers keep their characters, objects their members. -/
inductive Tree
  | null
  | bool (value : Bool)
  | string (value : JsString)
  | number (raw : JsString)
  | array (items : List Tree)
  | object (members : List (JsString × Tree))

section Read

variable (readValue : List Token → Option (Tree × List Token))

/-- Items up to the closing bracket; so many at most. -/
def readItems : Nat → List Token → Option (List Tree × List Token)
  | 0, _ => none
  | fuel + 1, tokens => do
      let (item, rest) ← readValue tokens
      match rest with
      | .comma :: rest => do
          let (items, rest) ← readItems fuel rest
          return (item :: items, rest)
      | .endArray :: rest => return ([item], rest)
      | _ => none

/-- Members up to the closing brace; so many at most. -/
def readMembers : Nat → List Token → Option (List (JsString × Tree) × List Token)
  | 0, _ => none
  | fuel + 1, .string key :: .colon :: tokens => do
      let (value, rest) ← readValue tokens
      match rest with
      | .comma :: rest => do
          let (members, rest) ← readMembers fuel rest
          return ((key, value) :: members, rest)
      | .endObject :: rest => return ([(key, value)], rest)
      | _ => none
  | _ + 1, _ => none

end Read

/-- A value and what follows it; nested so deep at most. -/
def readValue : Nat → List Token → Option (Tree × List Token)
  | 0, _ => none
  | fuel + 1, tokens =>
      match tokens with
      | .null :: rest => some (.null, rest)
      | .bool value :: rest => some (.bool value, rest)
      | .string value :: rest => some (.string value, rest)
      | .number raw :: rest => some (.number raw, rest)
      | .beginArray :: .endArray :: rest => some (.array [], rest)
      | .beginArray :: rest =>
          (readItems (readValue fuel) fuel rest).map fun found => (.array found.1, found.2)
      | .beginObject :: .endObject :: rest => some (.object [], rest)
      | .beginObject :: rest =>
          (readMembers (readValue fuel) fuel rest).map fun found => (.object found.1, found.2)
      | _ => none

/-! ### Depth -/

/-- What `read` reads, `read'` reads too when it takes at most `bound` tokens. -/
def ReadsWithin (read read' : List Token → Option (Tree × List Token)) (bound : Nat) : Prop :=
  ∀ tokens tree rest, read tokens = some (tree, rest) → rest.length < tokens.length ∧
    (tokens.length ≤ bound + rest.length → read' tokens = some (tree, rest))

section Depth

variable {read read' : List Token → Option (Tree × List Token)} {bound fuel : Nat}

theorem readItems_enough (reads : ReadsWithin read read' bound) {tokens rest : List Token}
    {items : List Tree} (found : readItems read fuel tokens = some (items, rest)) :
    rest.length < tokens.length ∧
      ∀ fuel', tokens.length ≤ fuel' + rest.length → tokens.length ≤ bound + rest.length →
        readItems read' fuel' tokens = some (items, rest) := by
  induction fuel generalizing tokens items with
  | zero => cases found
  | succ fuel ih =>
      rw [readItems] at found
      obtain ⟨⟨item, after⟩, isItem, isRest⟩ := Option.bind_eq_some_iff.mp found
      obtain ⟨shorter, same⟩ := reads tokens item after isItem
      dsimp only at isRest
      split at isRest
      · rename_i others
        obtain ⟨⟨following, last⟩, isOthers, equal⟩ := Option.bind_eq_some_iff.mp isRest
        cases equal
        obtain ⟨less, enough⟩ := ih isOthers
        rw [List.length_cons] at shorter same
        refine ⟨by omega, fun fuel' fits within => ?_⟩
        cases fuel' with
        | zero => omega
        | succ fuel' =>
            simp only [readItems, same (by omega), enough fuel' (by omega) (by omega),
              Option.bind_eq_bind, Option.bind_some, Option.pure_def]
      · cases isRest
        rw [List.length_cons] at shorter same
        refine ⟨by omega, fun fuel' fits within => ?_⟩
        cases fuel' with
        | zero => omega
        | succ fuel' =>
            simp only [readItems, same (by omega), Option.bind_eq_bind, Option.bind_some,
              Option.pure_def]
      · cases isRest

theorem readMembers_enough (reads : ReadsWithin read read' bound) {tokens rest : List Token}
    {members : List (JsString × Tree)}
    (found : readMembers read fuel tokens = some (members, rest)) :
    rest.length < tokens.length ∧
      ∀ fuel', tokens.length ≤ fuel' + rest.length → tokens.length ≤ bound + rest.length →
        readMembers read' fuel' tokens = some (members, rest) := by
  fun_induction readMembers read fuel tokens generalizing members with
  | case1 => cases found
  | case2 fuel key tokens ih =>
      obtain ⟨⟨value, after⟩, isValue, isRest⟩ := Option.bind_eq_some_iff.mp found
      obtain ⟨shorter, same⟩ := reads tokens value after isValue
      simp only [List.length_cons]
      dsimp only at isRest
      split at isRest
      · rename_i others
        obtain ⟨⟨following, last⟩, isOthers, equal⟩ := Option.bind_eq_some_iff.mp isRest
        cases equal
        obtain ⟨less, enough⟩ := ih _ isOthers
        rw [List.length_cons] at shorter same
        refine ⟨by omega, fun fuel' fits within => ?_⟩
        cases fuel' with
        | zero => omega
        | succ fuel' =>
            simp only [readMembers, same (by omega), enough fuel' (by omega) (by omega),
              Option.bind_eq_bind, Option.bind_some, Option.pure_def]
      · cases isRest
        rw [List.length_cons] at shorter same
        refine ⟨by omega, fun fuel' fits within => ?_⟩
        cases fuel' with
        | zero => omega
        | succ fuel' =>
            simp only [readMembers, same (by omega), Option.bind_eq_bind, Option.bind_some,
              Option.pure_def]
      · cases isRest
  | case3 => cases found

theorem scalar_enough {token : Token} {tree : Tree} {rest : List Token}
    (reads : ∀ fuel, readValue (fuel + 1) (token :: rest) = some (tree, rest)) :
    rest.length < (token :: rest).length ∧ ∀ fuel', (token :: rest).length ≤ fuel' + rest.length →
      readValue fuel' (token :: rest) = some (tree, rest) := by
  refine ⟨Nat.lt_succ_self _, fun fuel' fits => ?_⟩
  rw [List.length_cons] at fits
  cases fuel' with
  | zero => omega
  | succ fuel' => exact reads fuel'

/-- As deep as it takes tokens is deep enough for a value. -/
theorem readValue_enough (fuel : Nat) : ∀ tokens tree rest,
    readValue fuel tokens = some (tree, rest) → rest.length < tokens.length ∧
      ∀ fuel', tokens.length ≤ fuel' + rest.length → readValue fuel' tokens = some (tree, rest) := by
  induction fuel with
  | zero =>
      intro tokens tree rest found
      cases found
  | succ fuel ih =>
      intro tokens tree rest found
      have reads (fuel' : Nat) : ReadsWithin (readValue fuel) (readValue fuel') fuel' :=
        fun tokens tree rest found =>
          ⟨(ih tokens tree rest found).1, (ih tokens tree rest found).2 fuel'⟩
      unfold readValue at found
      split at found
      · cases found
        exact scalar_enough (fun _ => rfl)
      · cases found
        exact scalar_enough (fun _ => rfl)
      · cases found
        exact scalar_enough (fun _ => rfl)
      · cases found
        exact scalar_enough (fun _ => rfl)
      · cases found
        refine ⟨by simp only [List.length_cons]; omega, fun fuel' fits => ?_⟩
        cases fuel' with
        | zero => simp only [List.length_cons] at fits; omega
        | succ fuel' => rfl
      · rename_i others noEnd
        obtain ⟨⟨items, after⟩, isItems, same⟩ := Option.map_eq_some_iff.mp found
        cases same
        have less := (readItems_enough (reads 0) isItems).1
        rw [List.length_cons]
        dsimp only
        refine ⟨by omega, fun fuel' fits => ?_⟩
        cases fuel' with
        | zero => omega
        | succ fuel' =>
            have enough := (readItems_enough (reads fuel') isItems).2 fuel'
            rw [readValue, enough (by omega) (by omega), Option.map_some]
            exact noEnd
      · cases found
        refine ⟨by simp only [List.length_cons]; omega, fun fuel' fits => ?_⟩
        cases fuel' with
        | zero => simp only [List.length_cons] at fits; omega
        | succ fuel' => rfl
      · rename_i others noEnd
        obtain ⟨⟨members, after⟩, isMembers, same⟩ := Option.map_eq_some_iff.mp found
        cases same
        have less := (readMembers_enough (reads 0) isMembers).1
        rw [List.length_cons]
        dsimp only
        refine ⟨by omega, fun fuel' fits => ?_⟩
        cases fuel' with
        | zero => omega
        | succ fuel' =>
            have enough := (readMembers_enough (reads fuel') isMembers).2 fuel'
            rw [readValue, enough (by omega) (by omega), Option.map_some]
            exact noEnd
      · cases found

end Depth

/-- The tree of a whole text; nothing of it is nested deeper than it has tokens. -/
def parseTree (text : JsString) : Option Tree :=
  (lex text).bind fun tokens =>
    match readValue tokens.length tokens with
    | some (tree, []) => some tree
    | _ => none

/-! ## Values -/

/-- What a reader makes of the parts of a text. -/
structure Builder (V : Type) where
  null : V
  bool : Bool → V
  string : JsString → V
  /-- From the characters of the number. -/
  number : JsString → V
  array : List V → V
  /-- From the members in the order of the text. -/
  object : List (JsString × V) → V

variable {V : Type} (builder : Builder V)

namespace Tree

mutual

/-- The value of a tree. -/
def value : Tree → V
  | null => builder.null
  | bool value => builder.bool value
  | string value => builder.string value
  | number raw => builder.number raw
  | array items => builder.array (values items)
  | object members => builder.object (memberValues members)

def values : List Tree → List V
  | [] => []
  | item :: items => value item :: values items

def memberValues : List (JsString × Tree) → List (JsString × V)
  | [] => []
  | (key, member) :: members => (key, value member) :: memberValues members

end

end Tree

/-- `JSON.parse`. -/
def parse (text : JsString) : Option V := (parseTree text).map fun tree => tree.value builder

end JsonText
