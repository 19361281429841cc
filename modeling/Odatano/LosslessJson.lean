import Odatano.JsonTexts

/-!
# Lossless JSON

`parseJsonLossless` of `srv/blockchain/crawler/utxo-set-import.ts` quotes the integers of a text
before `JSON.parse` reads it.
-/

/-! ## Scanning a number in front of other text -/

namespace JsonText

/-- Text that does not go on with a number character. -/
def EndsNumber (text : JsString) : Prop := ∀ unit ∈ text.head?, isNumberUnit unit = false

theorem EndsNumber.not_digit {text : JsString} (ends : EndsNumber text) :
    ∀ unit ∈ text.head?, isDigit unit = false := by
  intro unit first
  have none := ends unit first
  rw [isNumberUnit, Bool.or_eq_false_iff] at none
  exact none.1

theorem takeWhile_digits {text after : JsString} (ends : EndsNumber after) :
    (text ++ after).takeWhile isDigit = text.takeWhile isDigit := by
  induction text with
  | nil =>
      cases after with
      | nil => rfl
      | cons unit after =>
          exact List.takeWhile_cons_of_neg (Bool.eq_false_iff.mp (ends.not_digit unit rfl))
  | cons unit text ih =>
      rw [List.cons_append, List.takeWhile_cons, List.takeWhile_cons, ih]

theorem dropWhile_digits {text after : JsString} (ends : EndsNumber after) :
    (text ++ after).dropWhile isDigit = text.dropWhile isDigit ++ after := by
  induction text with
  | nil =>
      cases after with
      | nil => rfl
      | cons unit after =>
          exact List.dropWhile_cons_of_neg (Bool.eq_false_iff.mp (ends.not_digit unit rfl))
  | cons unit text ih =>
      rw [List.cons_append, List.dropWhile_cons, List.dropWhile_cons, ih]
      split <;> rfl

theorem scanFraction_append {text after : JsString} (ends : EndsNumber after) :
    scanFraction (text ++ after) = ((scanFraction text).1, (scanFraction text).2 ++ after) := by
  cases text with
  | nil =>
      cases after with
      | nil => rfl
      | cons unit after =>
          have noDot : unit ≠ 46 := by
            rintro rfl
            exact absurd (ends 46 rfl) (by decide)
          simp [scanFraction, noDot]
  | cons unit text =>
      rw [List.cons_append, scanFraction, scanFraction, takeWhile_digits ends,
        dropWhile_digits ends]
      split <;> rfl

theorem scanSign_append {text after : JsString} (ends : EndsNumber after) :
    scanSign (text ++ after) = ((scanSign text).1, (scanSign text).2 ++ after) := by
  cases text with
  | nil =>
      cases after with
      | nil => rfl
      | cons unit after =>
          have noSign : ¬(unit = minus ∨ unit = 43) := by
            rintro (rfl | rfl)
            · exact absurd (ends minus rfl) (by decide)
            · exact absurd (ends 43 rfl) (by decide)
          simp [scanSign, noSign]
  | cons unit text =>
      rw [List.cons_append, scanSign, scanSign]
      split <;> rfl

theorem scanExponent_append {text after : JsString} (ends : EndsNumber after) :
    scanExponent (text ++ after) = ((scanExponent text).1, (scanExponent text).2 ++ after) := by
  cases text with
  | nil =>
      cases after with
      | nil => rfl
      | cons unit after =>
          have noMark : ¬(unit = 101 ∨ unit = 69) := by
            rintro (rfl | rfl)
            · exact absurd (ends 101 rfl) (by decide)
            · exact absurd (ends 69 rfl) (by decide)
          simp [scanExponent, noMark]
  | cons unit text =>
      rw [List.cons_append, scanExponent, scanExponent, scanSign_append ends]
      dsimp only
      rw [takeWhile_digits ends, dropWhile_digits ends]
      split <;> rfl

theorem scanUnsigned_append {text after raw rest : JsString} (ends : EndsNumber after)
    (found : scanUnsigned text = some (raw, rest)) :
    scanUnsigned (text ++ after) = some (raw, rest ++ after) := by
  unfold scanUnsigned at found ⊢
  rw [takeWhile_digits ends]
  split at found
  · cases found
  · rename_i digits
    dsimp only at found
    cases found
    rw [if_neg digits, dropWhile_digits ends, scanFraction_append ends]
    dsimp only
    rw [scanExponent_append ends]

/-- A number is scanned the same way in front of text that ends it. -/
theorem scanNumber_append {text after raw rest : JsString} (ends : EndsNumber after)
    (found : scanNumber text = some (raw, rest)) :
    scanNumber (text ++ after) = some (raw, rest ++ after) := by
  cases text with
  | nil => cases found
  | cons unit text =>
      rw [scanNumber] at found
      rw [List.cons_append, scanNumber]
      split at found
      · rename_i isMinus
        obtain ⟨⟨digits, tail⟩, isUnsigned, same⟩ := Option.map_eq_some_iff.mp found
        cases same
        rw [if_pos isMinus, scanUnsigned_append ends isUnsigned, Option.map_some]
      · rename_i noMinus
        rw [if_neg noMinus, ← List.cons_append, scanUnsigned_append ends found]

/-! ### A scan splits its text -/

theorem scanFraction_split (text : JsString) :
    (scanFraction text).1 ++ (scanFraction text).2 = text := by
  cases text with
  | nil => rfl
  | cons unit text =>
      rw [scanFraction]
      split
      · exact congrArg (unit :: ·) List.takeWhile_append_dropWhile
      · rfl

theorem scanSign_split (text : JsString) : (scanSign text).1 ++ (scanSign text).2 = text := by
  cases text with
  | nil => rfl
  | cons unit text =>
      rw [scanSign]
      split <;> rfl

theorem scanExponent_split (text : JsString) :
    (scanExponent text).1 ++ (scanExponent text).2 = text := by
  cases text with
  | nil => rfl
  | cons unit text =>
      rw [scanExponent]
      split
      · rw [List.cons_append, List.cons_append, List.append_assoc,
          List.takeWhile_append_dropWhile, scanSign_split]
      · rfl

theorem scanUnsigned_split {text raw rest : JsString}
    (found : scanUnsigned text = some (raw, rest)) :
    text = raw ++ rest ∧ raw.head? = text.head? ∧ ∃ unit ∈ raw.head?, isDigit unit = true := by
  unfold scanUnsigned at found
  split at found
  · cases found
  · rename_i digits
    dsimp only at found
    cases found
    cases text with
    | nil => exact absurd rfl digits
    | cons unit text =>
        by_cases isUnit : isDigit unit = true
        · rw [List.append_assoc, List.append_assoc, scanExponent_split, scanFraction_split,
            List.takeWhile_append_dropWhile, List.takeWhile_cons_of_pos isUnit]
          exact ⟨rfl, rfl, unit, rfl, isUnit⟩
        · exact absurd (List.takeWhile_cons_of_neg isUnit) digits

theorem scanNumber_split {text raw rest : JsString} (found : scanNumber text = some (raw, rest)) :
    text = raw ++ rest ∧ ∃ unit ∈ raw.head?, unit = minus ∨ isDigit unit = true := by
  cases text with
  | nil => cases found
  | cons unit text =>
      rw [scanNumber] at found
      split at found
      · rename_i isMinus
        obtain ⟨⟨digits, tail⟩, isUnsigned, same⟩ := Option.map_eq_some_iff.mp found
        cases same
        rw [(scanUnsigned_split isUnsigned).1]
        exact ⟨rfl, unit, rfl, Or.inl isMinus⟩
      · obtain ⟨split, -, first, isFirst, digit⟩ := scanUnsigned_split found
        exact ⟨split, first, isFirst, Or.inr digit⟩

/-- No number begins with another character. -/
theorem scanNumber_of_plain {unit : CodeUnit} (rest : JsString) (noMinus : unit ≠ minus)
    (noDigit : isDigit unit = false) : scanNumber (unit :: rest) = none := by
  rw [scanNumber, if_neg noMinus, scanUnsigned,
    if_pos (List.takeWhile_cons_of_neg (Bool.eq_false_iff.mp noDigit))]

/-! ## Tokens in front of other text -/

theorem lex_cons (unit : CodeUnit) (rest : JsString) :
    lex (unit :: rest) =
      if isSpace unit then lex rest
      else (lexToken unit rest).bind fun found =>
        (lex found.2).map fun tokens => found.1 :: tokens := by
  rw [lex]
  split
  · rfl
  · split
    · rename_i found
      rw [found, Option.bind_some]
    · rename_i none
      rw [none, Option.bind_none]

theorem takeWhile_number {run after : JsString} (isRun : ∀ unit ∈ run, isNumberUnit unit = true)
    (ends : EndsNumber after) :
    (run ++ after).takeWhile isNumberUnit = run ∧ (run ++ after).dropWhile isNumberUnit = after := by
  have stops : after.takeWhile isNumberUnit = [] ∧ after.dropWhile isNumberUnit = after := by
    cases after with
    | nil => exact ⟨rfl, rfl⟩
    | cons unit after =>
        have none := Bool.eq_false_iff.mp (ends unit rfl)
        exact ⟨List.takeWhile_cons_of_neg none, List.dropWhile_cons_of_neg none⟩
  rw [List.takeWhile_append_of_pos isRun, List.dropWhile_append_of_pos isRun, stops.1, stops.2,
    List.append_nil]
  exact ⟨rfl, rfl⟩

/-! ### The four kinds of tokens -/

theorem lexToken_cases {unit : CodeUnit} {text after : JsString} {token : Token}
    (found : lexToken unit text = some (token, after)) :
    (punctuation? unit = some token ∧ text = after) ∨
      (unit = quote ∧ ∃ raw value, StringBody raw value ∧ text = raw ++ after ∧
        token = .string value) ∨
      (∃ run, isNumber run = true ∧ (∀ other ∈ run, isNumberUnit other = true) ∧
        EndsNumber after ∧ unit :: text = run ++ after ∧ token = .number run) ∨
      ∃ word, (word, token) ∈ words ∧ unit :: text = word ++ after := by
  unfold lexToken at found
  split at found
  · rename_i isPunctuation
    cases found
    exact Or.inl ⟨isPunctuation, rfl⟩
  · split at found
    · rename_i isQuote
      obtain ⟨⟨value, rest⟩, isString, same⟩ := Option.map_eq_some_iff.mp found
      cases same
      obtain ⟨raw, body, whole⟩ := exists_body isString
      exact Or.inr (Or.inl ⟨isQuote, raw, value, body, whole, rfl⟩)
    · split at found
      · dsimp only at found
        split at found
        · rename_i isRun
          cases found
          refine Or.inr (Or.inr (Or.inl ⟨_, isRun, ?_, ?_, ?_, rfl⟩))
          · exact List.all_eq_true.mp List.all_takeWhile
          · intro other first
            have stops := List.head?_dropWhile_not isNumberUnit (unit :: text)
            rw [Option.mem_def.mp first] at stops
            simpa using stops
          · exact List.takeWhile_append_dropWhile.symm
        · cases found
      · exact Or.inr (Or.inr (Or.inr (lexWord_eq_some found)))

theorem lexToken_punctuation {unit : CodeUnit} {token : Token}
    (found : punctuation? unit = some token) (rest : JsString) :
    lexToken unit rest = some (token, rest) := by
  simp only [lexToken, found]

theorem lexToken_string {raw value : JsString} (body : StringBody raw value) (rest : JsString) :
    lexToken quote (raw ++ rest) = some (.string value, rest) := by
  have noPunctuation : punctuation? quote = none := rfl
  simp only [lexToken, noPunctuation, if_true, lexString_of_body body, Option.map_some]

theorem begins_number {unit : CodeUnit} (number : isNumberUnit unit = true) :
    punctuation? unit = none ∧ unit ≠ quote ∧ isSpace unit = false := by
  unfold isNumberUnit isDigit at number
  simp only [Bool.or_eq_true, decide_eq_true_eq] at number
  rcases number with ⟨low, high⟩ | rfl | rfl | rfl | rfl | rfl
  · have differ (other : CodeUnit) (outside : other.val < 48 ∨ 57 < other.val) : unit ≠ other := by
      rintro rfl
      omega
    refine ⟨?_, differ quote (by decide), ?_⟩
    · rw [punctuation?, if_neg (differ 123 (by decide)), if_neg (differ 125 (by decide)),
        if_neg (differ 91 (by decide)), if_neg (differ 93 (by decide)),
        if_neg (differ 58 (by decide)), if_neg (differ 44 (by decide))]
    · rw [isSpace, decide_eq_false_iff_not]
      rintro (isUnit | isUnit | isUnit | isUnit)
      all_goals exact absurd isUnit (differ _ (by decide))
  all_goals exact ⟨rfl, by decide, rfl⟩

theorem lexToken_number {unit : CodeUnit} {rest run after : JsString}
    (whole : isNumber run = true) (plain : ∀ other ∈ run, isNumberUnit other = true)
    (ends : EndsNumber after) (split : unit :: rest = run ++ after) :
    isSpace unit = false ∧ lexToken unit rest = some (.number run, after) := by
  cases run with
  | nil => cases whole
  | cons first run =>
      rw [List.cons_append, List.cons.injEq] at split
      obtain ⟨rfl, rfl⟩ := split
      have number := plain unit List.mem_cons_self
      obtain ⟨noPunctuation, noQuote, noSpace⟩ := begins_number number
      have taken := takeWhile_number plain ends
      rw [List.cons_append] at taken
      simp only [lexToken, noPunctuation, noQuote, if_false, number, if_true, taken.1, taken.2,
        whole]
      exact ⟨noSpace, trivial⟩

theorem lexToken_word {unit : CodeUnit} {rest word : JsString} {token : Token}
    (member : (word, token) ∈ words) (after : JsString) (split : unit :: rest = word ++ after) :
    isSpace unit = false ∧ lexToken unit rest = some (token, after) := by
  simp only [words, List.mem_cons, Prod.mk.injEq, List.not_mem_nil, or_false] at member
  rcases member with ⟨rfl, rfl⟩ | ⟨rfl, rfl⟩ | ⟨rfl, rfl⟩
  all_goals
    rw [List.cons_append, List.cons.injEq] at split
    obtain ⟨rfl, rfl⟩ := split
    exact ⟨rfl, rfl⟩

end JsonText

namespace Odatano

open JsonText

/-! ## The rewritten text -/

/-- What `.` does not match. -/
def isLineTerminator (unit : CodeUnit) : Bool :=
  decide (unit = 10 ∨ unit = 13 ∨ unit = 0x2028 ∨ unit = 0x2029)

/-- `(?:[^"\\]|\\.)*"` after an opening quote: the match and what follows it. -/
def matchString : JsString → Option (JsString × JsString)
  | [] => none
  | unit :: rest =>
      if unit = quote then some ([unit], rest)
      else if unit = backslash then
        match rest with
        | [] => none
        | escaped :: rest =>
            if isLineTerminator escaped then none
            else (matchString rest).map fun found => (unit :: escaped :: found.1, found.2)
      else (matchString rest).map fun found => (unit :: found.1, found.2)

/-- The match of the expression at the start of a text. -/
def matchLiteral : JsString → Option (JsString × JsString)
  | unit :: rest =>
      if unit = quote then (matchString rest).map fun found => (unit :: found.1, found.2)
      else scanNumber (unit :: rest)
  | [] => none

/-- What a match is replaced by. -/
def replaceLiteral (literal : JsString) : JsString :=
  if literal.head? = some quote ∨ isInteger literal = false then literal
  else quote :: literal ++ [quote]

theorem replaceLiteral_quote (raw : JsString) : replaceLiteral (quote :: raw) = quote :: raw :=
  if_pos (Or.inl rfl)

theorem matchString_split {text raw rest : JsString} (found : matchString text = some (raw, rest)) :
    text = raw ++ rest := by
  fun_induction matchString text generalizing raw with
  | case2 =>
      cases found
      rfl
  | case5 escaped text _ _ ih =>
      obtain ⟨⟨inner, after⟩, isInner, same⟩ := Option.map_eq_some_iff.mp found
      cases same
      rw [ih isInner]
      rfl
  | case6 unit text _ _ ih =>
      obtain ⟨⟨inner, after⟩, isInner, same⟩ := Option.map_eq_some_iff.mp found
      cases same
      rw [ih isInner]
      rfl
  | _ => cases found

/-- A match takes at least one character. -/
theorem length_of_matchLiteral {unit : CodeUnit} {text literal rest : JsString}
    (found : matchLiteral (unit :: text) = some (literal, rest)) : rest.length ≤ text.length := by
  rw [matchLiteral] at found
  split at found
  · obtain ⟨⟨raw, after⟩, isString, same⟩ := Option.map_eq_some_iff.mp found
    cases same
    rw [matchString_split isString, List.length_append]
    exact Nat.le_add_left _ _
  · obtain ⟨split, first, isFirst, -⟩ := scanNumber_split found
    cases literal with
    | nil => cases isFirst
    | cons first literal =>
        rw [List.cons_append, List.cons.injEq] at split
        rw [split.2, List.length_append]
        exact Nat.le_add_left _ _

/-- The text with every integer quoted. -/
def rewriteIntegers : JsString → JsString
  | [] => []
  | unit :: rest =>
      match _found : matchLiteral (unit :: rest) with
      | some (literal, after) => replaceLiteral literal ++ rewriteIntegers after
      | none => unit :: rewriteIntegers rest
termination_by text => text.length
decreasing_by
  · exact Nat.lt_succ_of_le (length_of_matchLiteral _found)
  · exact Nat.lt_succ_self _

/-- `JSON.parse` that quotes integer literals first. -/
def parseJsonLossless {V : Type} (builder : Builder V) (text : JsString) : Option V :=
  parse builder (rewriteIntegers text)

theorem rewriteIntegers_match {text literal after : JsString}
    (found : matchLiteral text = some (literal, after)) :
    rewriteIntegers text = replaceLiteral literal ++ rewriteIntegers after := by
  cases text with
  | nil => cases found
  | cons unit text =>
      rw [rewriteIntegers]
      split
      · rename_i found'
        rw [found] at found'
        cases found'
        rfl
      · rename_i none
        rw [found] at none
        cases none

/-- A character at which nothing matches. -/
def Plain (unit : CodeUnit) : Prop :=
  unit ≠ quote ∧ unit ≠ minus ∧ isDigit unit = false

instance (unit : CodeUnit) : Decidable (Plain unit) :=
  inferInstanceAs (Decidable (_ ∧ _ ∧ _))

theorem rewriteIntegers_plain {unit : CodeUnit} (plain : Plain unit) (rest : JsString) :
    rewriteIntegers (unit :: rest) = unit :: rewriteIntegers rest := by
  have noMatch : matchLiteral (unit :: rest) = none := by
    rw [matchLiteral, if_neg plain.1, scanNumber_of_plain rest plain.2.1 plain.2.2]
  rw [rewriteIntegers]
  split
  · rename_i found
    rw [noMatch] at found
    cases found
  · rfl

theorem rewriteIntegers_append {word : JsString} (plain : ∀ unit ∈ word, Plain unit)
    (rest : JsString) : rewriteIntegers (word ++ rest) = word ++ rewriteIntegers rest := by
  induction word with
  | nil => rfl
  | cons unit word ih =>
      rw [List.cons_append, rewriteIntegers_plain (plain unit List.mem_cons_self),
        ih fun other member => plain other (List.mem_cons_of_mem _ member), List.cons_append]

/-- What ends a number still ends it in the rewritten text. -/
theorem endsNumber_rewriteIntegers {text : JsString} (ends : EndsNumber text) :
    EndsNumber (rewriteIntegers text) := by
  cases text with
  | nil =>
      rw [rewriteIntegers]
      exact ends
  | cons unit text =>
      have noNumber := ends unit rfl
      have noMinus : unit ≠ minus := by
        rintro rfl
        exact absurd noNumber (by decide)
      by_cases isQuote : unit = quote
      · cases found : matchLiteral (unit :: text) with
        | none =>
            rw [rewriteIntegers]
            split
            · rename_i found'
              rw [found] at found'
              cases found'
            · exact ends
        | some split =>
            obtain ⟨literal, after⟩ := split
            rw [rewriteIntegers_match found]
            rw [matchLiteral, if_pos isQuote] at found
            obtain ⟨⟨raw, rest⟩, -, same⟩ := Option.map_eq_some_iff.mp found
            cases same
            rw [isQuote, replaceLiteral_quote]
            rintro _ ⟨⟩
            rfl
      · rw [rewriteIntegers_plain ⟨isQuote, noMinus, ends.not_digit unit rfl⟩]
        exact ends

/-! ## The rewritten tokens -/

/-- An integer becomes the string of its characters. -/
def quoteInteger : Token → Token
  | .number raw => if isInteger raw then .string raw else .number raw
  | token => token

theorem matchString_plain {unit : CodeUnit} (noQuote : unit ≠ quote)
    (noBackslash : unit ≠ backslash) (rest : JsString) :
    matchString (unit :: rest) =
      (matchString rest).map fun found => (unit :: found.1, found.2) := by
  rw [matchString.eq_def]
  simp only [noQuote, noBackslash, if_false]

theorem matchString_escape {escaped : CodeUnit} (inLine : isLineTerminator escaped = false)
    (rest : JsString) :
    matchString (backslash :: escaped :: rest) =
      (matchString rest).map fun found => (backslash :: escaped :: found.1, found.2) := by
  have differ : backslash ≠ quote := by decide
  rw [matchString.eq_def]
  simp [differ, inLine]

theorem plain_of_hexDigit {unit : CodeUnit} {value : Nat}
    (isDigit : JsString.hexDigit? unit = some value) : unit ≠ quote ∧ unit ≠ backslash := by
  constructor <;>
  · rintro rfl
    cases isDigit

theorem inLine_of_escape {unit value : CodeUnit} (isEscape : simpleEscape? unit = some value) :
    isLineTerminator unit = false := by
  rw [isLineTerminator, decide_eq_false_iff_not]
  rintro (rfl | rfl | rfl | rfl) <;> cases isEscape

theorem plain_of_unicodeEscape {a b c d value : CodeUnit}
    (isEscape : unicodeEscape? a b c d = some value) :
    ∀ unit ∈ [a, b, c, d], unit ≠ quote ∧ unit ≠ backslash := by
  unfold unicodeEscape? at isEscape
  obtain ⟨first, isFirst, isEscape⟩ := Option.bind_eq_some_iff.mp isEscape
  obtain ⟨second, isSecond, isEscape⟩ := Option.bind_eq_some_iff.mp isEscape
  obtain ⟨third, isThird, isEscape⟩ := Option.bind_eq_some_iff.mp isEscape
  obtain ⟨fourth, isFourth, -⟩ := Option.bind_eq_some_iff.mp isEscape
  intro unit member
  simp only [List.mem_cons, List.not_mem_nil, or_false] at member
  rcases member with rfl | rfl | rfl | rfl
  · exact plain_of_hexDigit isFirst
  · exact plain_of_hexDigit isSecond
  · exact plain_of_hexDigit isThird
  · exact plain_of_hexDigit isFourth

/-- The expression takes a string exactly to its closing quote. -/
theorem matchString_of_body {raw value : JsString} (body : StringBody raw value)
    (rest : JsString) : matchString (raw ++ rest) = some (raw, rest) := by
  induction body with
  | close =>
      rw [List.singleton_append, matchString.eq_def]
      exact if_pos rfl
  | @unicode a b c d value raw _ isEscape _ ih =>
      have plain := plain_of_unicodeEscape isEscape
      simp only [List.forall_mem_cons, List.not_mem_nil, false_implies, implies_true,
        and_true] at plain
      obtain ⟨first, second, third, fourth⟩ := plain
      have inLine : isLineTerminator 117 = false := by decide
      simp only [List.cons_append, matchString_escape inLine, matchString_plain first.1 first.2,
        matchString_plain second.1 second.2, matchString_plain third.1 third.2,
        matchString_plain fourth.1 fourth.2, ih, Option.map_some]
  | @escape unit value raw _ _ isEscape _ ih =>
      simp only [List.cons_append, matchString_escape (inLine_of_escape isEscape), ih,
        Option.map_some]
  | @plain unit raw _ noQuote noBackslash _ _ ih =>
      simp only [List.cons_append, matchString_plain noQuote noBackslash, ih, Option.map_some]

theorem rewriteIntegers_string {raw value : JsString} (body : StringBody raw value)
    (rest : JsString) :
    rewriteIntegers (quote :: (raw ++ rest)) = quote :: (raw ++ rewriteIntegers rest) := by
  have found : matchLiteral (quote :: (raw ++ rest)) = some (quote :: raw, rest) := by
    rw [matchLiteral, if_pos rfl, matchString_of_body body, Option.map_some]
  rw [rewriteIntegers_match found, replaceLiteral_quote, List.cons_append]

/-- A run of number characters without an escape writes itself. -/
theorem body_of_plain {raw : JsString} (plain : ∀ unit ∈ raw, isNumberUnit unit = true) :
    StringBody (raw ++ [quote]) raw := by
  induction raw with
  | nil => exact .close
  | cons unit raw ih =>
      have isNumber := plain unit List.mem_cons_self
      refine .plain ?_ ?_ ?_ (ih fun other member => plain other (List.mem_cons_of_mem _ member))
      · rintro rfl
        exact absurd isNumber (by decide)
      · rintro rfl
        exact absurd isNumber (by decide)
      · intro control
        revert isNumber
        unfold isNumberUnit isDigit
        simp only [Bool.or_eq_true, decide_eq_true_eq]
        rintro (⟨low, -⟩ | rfl | rfl | rfl | rfl | rfl)
        · omega
        all_goals exact absurd control (by decide)

theorem rewriteIntegers_number {run after : JsString} (whole : isNumber run = true)
    (ends : EndsNumber after) :
    rewriteIntegers (run ++ after) = replaceLiteral run ++ rewriteIntegers after := by
  rw [isNumber, Bool.and_eq_true, decide_eq_true_eq] at whole
  have found := scanNumber_append ends whole.1
  rw [List.nil_append] at found
  obtain ⟨-, first, isFirst, begins⟩ := scanNumber_split whole.1
  cases run with
  | nil => cases isFirst
  | cons unit run =>
      rw [List.head?_cons, Option.mem_def, Option.some.injEq] at isFirst
      subst isFirst
      have noQuote : unit ≠ quote := by
        rintro rfl
        exact absurd begins (by decide)
      refine rewriteIntegers_match ?_
      rw [List.cons_append] at found ⊢
      rw [matchLiteral, if_neg noQuote, found]

/-- A character that the tokens begin with, besides quotes and numbers. -/
theorem plain_of_punctuation {unit : CodeUnit} {token : Token}
    (found : punctuation? unit = some token) :
    Plain unit ∧ quoteInteger token = token := by
  unfold punctuation? at found
  split_ifs at found with a b c d e f
  all_goals
    cases found
    subst unit
    exact ⟨by decide, rfl⟩

theorem plain_of_word {word : JsString} {token : Token} (member : (word, token) ∈ words) :
    (∀ unit ∈ word, Plain unit) ∧ quoteInteger token = token := by
  simp only [words, List.mem_cons, Prod.mk.injEq, List.not_mem_nil, or_false] at member
  rcases member with ⟨rfl, rfl⟩ | ⟨rfl, rfl⟩ | ⟨rfl, rfl⟩
  all_goals
    simp only [List.forall_mem_cons, List.not_mem_nil, false_implies, implies_true, and_true]
    exact ⟨by decide, rfl⟩

/-- What a token of the text is in the rewritten text. -/
theorem lexToken_rewriteIntegers {unit : CodeUnit} {text after : JsString} {token : Token}
    (noSpace : isSpace unit = false) (found : lexToken unit text = some (token, after)) :
    ∃ first rest, rewriteIntegers (unit :: text) = first :: rest ∧ isSpace first = false ∧
      lexToken first rest = some (quoteInteger token, rewriteIntegers after) := by
  rcases lexToken_cases found with ⟨isPunctuation, rfl⟩ | ⟨rfl, raw, value, body, rfl, rfl⟩ |
    ⟨run, whole, number, ends, split, rfl⟩ | ⟨word, member, split⟩
  · obtain ⟨plain, same⟩ := plain_of_punctuation isPunctuation
    rw [same]
    exact ⟨unit, rewriteIntegers text, rewriteIntegers_plain plain text, noSpace,
      lexToken_punctuation isPunctuation _⟩
  · exact ⟨quote, raw ++ rewriteIntegers after, rewriteIntegers_string body after, noSpace,
      lexToken_string body _⟩
  · rw [split, rewriteIntegers_number whole ends]
    cases integer : isInteger run with
    | true =>
        have noQuote : ¬(run.head? = some quote ∨ isInteger run = false) := by
          rw [integer]
          rintro (isQuote | none)
          · cases run with
            | nil => cases isQuote
            | cons first run =>
                cases isQuote
                exact absurd (number quote List.mem_cons_self) (by decide)
          · cases none
        refine ⟨quote, (run ++ [quote]) ++ rewriteIntegers after, ?_, rfl, ?_⟩
        · rw [replaceLiteral, if_neg noQuote, List.cons_append, List.cons_append]
        · rw [lexToken_string (body_of_plain number), quoteInteger, if_pos integer]
    | false =>
        rw [replaceLiteral, if_pos (Or.inr integer), quoteInteger, integer]
        cases run with
        | nil => cases whole
        | cons first run =>
            obtain ⟨noSpace, isToken⟩ := lexToken_number whole number
              (endsNumber_rewriteIntegers ends) List.cons_append
            exact ⟨first, run ++ rewriteIntegers after, List.cons_append, noSpace, isToken⟩
  · obtain ⟨plain, same⟩ := plain_of_word member
    rw [split, rewriteIntegers_append plain, same]
    cases word with
    | nil => simp [words] at member
    | cons first word =>
        obtain ⟨noSpace, isToken⟩ := lexToken_word member (rewriteIntegers after)
          List.cons_append
        exact ⟨first, word ++ rewriteIntegers after, List.cons_append, noSpace, isToken⟩

/-- The rewritten text has the tokens of the text, with the integers as strings. -/
theorem lex_rewriteIntegers {text : JsString} {tokens : List Token}
    (found : lex text = some tokens) :
    lex (rewriteIntegers text) = some (tokens.map quoteInteger) := by
  fun_induction lex text generalizing tokens with
  | case1 =>
      cases found
      rw [rewriteIntegers, lex, List.map_nil]
  | case2 unit text space ih =>
      have plain : Plain unit := by
        rw [isSpace, decide_eq_true_eq] at space
        rcases space with rfl | rfl | rfl | rfl <;> decide
      rw [rewriteIntegers_plain plain, lex, if_pos space]
      exact ih found
  | case3 unit text noSpace token after isToken ih =>
      obtain ⟨others, isOthers, same⟩ := Option.map_eq_some_iff.mp found
      obtain ⟨first, rest, isText, noSpace', isToken'⟩ :=
        lexToken_rewriteIntegers (Bool.eq_false_iff.mpr noSpace) isToken
      rw [isText, lex_cons, noSpace', if_neg Bool.false_ne_true, isToken', Option.bind_some,
        ih isOthers, Option.map_some, ← same, List.map_cons]
  | case4 => cases found

/-! ## The rewritten tree -/

end Odatano

namespace JsonText

namespace Tree

mutual

/-- The tree with its integers as strings. -/
def lossless : Tree → Tree
  | null => null
  | bool value => bool value
  | string value => string value
  | number raw => if isInteger raw then string raw else number raw
  | array items => array (losslessItems items)
  | object members => object (losslessMembers members)

def losslessItems : List Tree → List Tree
  | [] => []
  | item :: items => lossless item :: losslessItems items

def losslessMembers : List (JsString × Tree) → List (JsString × Tree)
  | [] => []
  | (key, member) :: members => (key, lossless member) :: losslessMembers members

end

end Tree

/-- `builder`, with the integers as strings. -/
def Builder.lossless {V : Type} (builder : Builder V) : Builder V :=
  { builder with number := fun raw =>
      if isInteger raw then builder.string raw else builder.number raw }

namespace Tree

variable {V : Type} (builder : Builder V)

mutual

theorem value_lossless (tree : Tree) : value builder tree.lossless = value builder.lossless tree := by
  cases tree with
  | null => rfl
  | bool => rfl
  | string => rfl
  | number raw =>
      have same : builder.lossless.number raw =
          if isInteger raw then builder.string raw else builder.number raw := rfl
      rw [lossless, value, same]
      split <;> rfl
  | array items =>
      rw [lossless, value, value, values_lossless items]
      rfl
  | object members =>
      rw [lossless, value, value, memberValues_lossless members]
      rfl

theorem values_lossless (items : List Tree) :
    values builder (losslessItems items) = values builder.lossless items := by
  cases items with
  | nil => rfl
  | cons item items =>
      rw [losslessItems, values, values, value_lossless item, values_lossless items]

theorem memberValues_lossless (members : List (JsString × Tree)) :
    memberValues builder (losslessMembers members) = memberValues builder.lossless members := by
  cases members with
  | nil => rfl
  | cons member members =>
      obtain ⟨key, member⟩ := member
      rw [losslessMembers, memberValues, memberValues, value_lossless member,
        memberValues_lossless members]

end

end Tree

/-! ## Reading the rewritten tokens -/

open Odatano (quoteInteger)

/-- What `read` reads, it reads losslessly from the rewritten tokens. -/
def ReadsLossless (read : List Token → Option (Tree × List Token)) : Prop :=
  ∀ tokens tree rest, read tokens = some (tree, rest) →
    read (tokens.map quoteInteger) = some (tree.lossless, rest.map quoteInteger)

variable {read : List Token → Option (Tree × List Token)}

theorem readItems_lossless (reads : ReadsLossless read) {fuel : Nat} {tokens rest : List Token}
    {items : List Tree} (found : readItems read fuel tokens = some (items, rest)) :
    readItems read fuel (tokens.map quoteInteger) =
      some (Tree.losslessItems items, rest.map quoteInteger) := by
  induction fuel generalizing tokens items with
  | zero => cases found
  | succ fuel ih =>
      rw [readItems] at found ⊢
      obtain ⟨⟨item, after⟩, isItem, isRest⟩ := Option.bind_eq_some_iff.mp found
      rw [reads tokens item after isItem]
      dsimp only at isRest
      split at isRest
      · obtain ⟨⟨others, last⟩, isOthers, same⟩ := Option.bind_eq_some_iff.mp isRest
        cases same
        simp [quoteInteger, ih isOthers, Tree.losslessItems]
      · cases isRest
        simp [quoteInteger, Tree.losslessItems]
      · cases isRest

theorem readMembers_lossless (reads : ReadsLossless read) {fuel : Nat} {tokens rest : List Token}
    {members : List (JsString × Tree)}
    (found : readMembers read fuel tokens = some (members, rest)) :
    readMembers read fuel (tokens.map quoteInteger) =
      some (Tree.losslessMembers members, rest.map quoteInteger) := by
  fun_induction readMembers read fuel tokens generalizing members with
  | case1 => cases found
  | case2 fuel key tokens ih =>
      obtain ⟨⟨value, after⟩, isValue, isRest⟩ := Option.bind_eq_some_iff.mp found
      have isValue' := reads tokens value after isValue
      simp only [List.map_cons, quoteInteger, readMembers, isValue']
      dsimp only at isRest
      split at isRest
      · obtain ⟨⟨others, last⟩, isOthers, same⟩ := Option.bind_eq_some_iff.mp isRest
        cases same
        simp [quoteInteger, ih _ isOthers, Tree.losslessMembers]
      · cases isRest
        simp [quoteInteger, Tree.losslessMembers]
      · cases isRest
  | case3 => cases found

theorem endArray_of_quoteInteger {token : Token} (isEnd : quoteInteger token = .endArray) :
    token = .endArray := by
  cases token with
  | number raw =>
      rw [quoteInteger] at isEnd
      split at isEnd <;> cases isEnd
  | _ => exact isEnd

theorem endObject_of_quoteInteger {token : Token} (isEnd : quoteInteger token = .endObject) :
    token = .endObject := by
  cases token with
  | number raw =>
      rw [quoteInteger] at isEnd
      split at isEnd <;> cases isEnd
  | _ => exact isEnd

theorem readValue_lossless (fuel : Nat) : ReadsLossless (readValue fuel) := by
  induction fuel with
  | zero =>
      intro tokens tree rest found
      cases found
  | succ fuel ih =>
      intro tokens tree rest found
      unfold readValue at found
      split at found
      · cases found
        rfl
      · cases found
        rfl
      · cases found
        rfl
      · rename_i raw rest
        cases found
        rw [List.map_cons, quoteInteger, Tree.lossless]
        split <;> rfl
      · cases found
        rfl
      · rename_i others noEnd
        obtain ⟨⟨items, after⟩, isItems, same⟩ := Option.map_eq_some_iff.mp found
        cases same
        rw [List.map_cons, quoteInteger, readValue, readItems_lossless ih isItems, Option.map_some,
          Tree.lossless]
        · intro after begins
          obtain ⟨token, others, rfl, isEnd, -⟩ := List.map_eq_cons_iff.mp begins
          rw [endArray_of_quoteInteger isEnd] at noEnd
          exact noEnd others rfl
        · exact fun _ => Token.noConfusion
      · cases found
        rfl
      · rename_i others noEnd
        obtain ⟨⟨members, after⟩, isMembers, same⟩ := Option.map_eq_some_iff.mp found
        cases same
        rw [List.map_cons, quoteInteger, readValue, readMembers_lossless ih isMembers,
          Option.map_some, Tree.lossless]
        · intro after begins
          obtain ⟨token, others, rfl, isEnd, -⟩ := List.map_eq_cons_iff.mp begins
          rw [endObject_of_quoteInteger isEnd] at noEnd
          exact noEnd others rfl
        · exact fun _ => Token.noConfusion
      · cases found

end JsonText

namespace Odatano

open JsonText

/-- A text of the grammar: some depth is enough to read it. -/
structure ValidJson where
  text : JsString
  tree : Tree
  parsed : ∃ tokens depth, lex text = some tokens ∧ readValue depth tokens = some (tree, [])

theorem parseTree_of_read {text : JsString} {tokens : List Token} {tree : Tree} {depth : Nat}
    (isTokens : lex text = some tokens) (isTree : readValue depth tokens = some (tree, [])) :
    parseTree text = some tree := by
  have enough := (readValue_enough depth _ _ _ isTree).2 tokens.length le_rfl
  rw [parseTree, isTokens, Option.bind_some, enough]

/-- Every text of the grammar parses, and the lossless parser gives the value of the same text with
the characters of each integer in place of its number. -/
theorem parseJsonLossless_valid {V : Type} (builder : Builder V) (json : ValidJson) :
    parse builder json.text = some (json.tree.value builder) ∧
      parseJsonLossless builder json.text = some (json.tree.value builder.lossless) := by
  obtain ⟨tokens, depth, isTokens, isTree⟩ := json.parsed
  have isTree' := readValue_lossless depth _ _ _ isTree
  rw [parseJsonLossless, parse, parse, parseTree_of_read isTokens isTree,
    parseTree_of_read (lex_rewriteIntegers isTokens) isTree', Option.map_some, Option.map_some,
    Tree.value_lossless]
  exact ⟨rfl, rfl⟩

end Odatano
