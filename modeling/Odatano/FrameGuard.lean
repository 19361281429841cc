import Mathlib.Data.List.TakeWhile
import Odatano.JsonValues
import Odatano.QuotedNumbers

/-!
# Frame guard

`srv/blockchain/backends/ogmios-frame-guard.ts`: a chain-sync frame that the client's parser cannot
read is parsed by `JSON.parse`, with the integers that a double would round as strings.
-/

namespace Odatano

open JsonText

/-! ## Safe integers -/

/-- `Number.isSafeInteger`. -/
def isSafeInteger (number : Binary64) : Bool :=
  match number.integer? with
  | some value => decide (value.natAbs < 2 ^ 53)
  | none => false

/-- `-number`. -/
def negative : Binary64 → Binary64
  | .finite units => .finite (-units)
  | .infinite sign => .infinite (!sign)

/-- `Number` of an integer literal. -/
def literalNumber (literal : JsString) : Binary64 :=
  if literal.head? = some minus then negative (.nearest (JsString.digitsValue literal.tail) 1)
  else .nearest (JsString.digitsValue literal) 1

/-- The digits of `Number.MAX_SAFE_INTEGER`. -/
def SAFE_DIGITS : Nat := 16

/-! ## Widening -/

/-- Where the scan stands: outside strings with the character before, in a string, or in one after a
backslash. -/
inductive ScanState
  | outside (prev : Option CodeUnit)
  | inString
  | escaped

/-- The characters after which a number literal may start. -/
def isStructural (prev : Option CodeUnit) : Bool :=
  decide (prev = some 58 ∨ prev = some 44 ∨ prev = some 91 ∨ prev = some 32 ∨ prev = some 10 ∨
    prev = some 9 ∨ prev = some 13)

/-- An integer literal, quoted when it is beyond 2^53. -/
def widenLiteral (literal : JsString) (digits : Nat) : JsString :=
  if SAFE_DIGITS ≤ digits ∧ isSafeInteger (literalNumber literal) = false then
    quote :: literal ++ [quote]
  else literal

/-- Quote integers beyond 2^53 so that `JSON.parse` cannot round them.  One pass, no recursion over
the nesting. -/
def widenFrom : ScanState → JsString → JsString
  | _, [] => []
  | .escaped, unit :: rest => unit :: widenFrom .inString rest
  | .inString, unit :: rest =>
      unit :: widenFrom (if unit = backslash then .escaped
        else if unit = quote then .outside (some quote) else .inString) rest
  | .outside prev, unit :: rest =>
      if unit = quote then unit :: widenFrom .inString rest
      else if (unit ≠ minus ∧ isDigit unit = false) ∨ isStructural prev = false then
        unit :: widenFrom (.outside (some unit)) rest
      else
        let literal := unit :: rest.takeWhile isDigit
        let digits := if unit = minus then literal.length - 1 else literal.length
        if digits = 0 then unit :: widenFrom (.outside (some unit)) rest
        else
          match _found : rest.dropWhile isDigit with
          | [] => widenLiteral literal digits
          | after :: others =>
              -- a fraction or exponent means it was never an exact integer
              if after = 46 ∨ after = 101 ∨ after = 69 then
                literal ++ after :: widenFrom (.outside (some after)) others
              else widenLiteral literal digits ++
                widenFrom (.outside literal.getLast?) (after :: others)
termination_by _ text => text.length
decreasing_by
  all_goals
    have shorter := (List.dropWhile_suffix (l := rest) isDigit).length_le
    simp_all
    try omega

def widenBigIntegers (text : JsString) : JsString := widenFrom (.outside none) text

/-! ## Which literals are quoted -/

/-- The digits of an integer literal. -/
def literalDigits (literal : JsString) : JsString :=
  if literal.head? = some minus then literal.tail else literal

/-- An integer that a double may round. -/
def beyondSafe (literal : JsString) : Bool :=
  isInteger literal && decide (2 ^ 53 ≤ JsString.digitsValue (literalDigits literal))

theorem isSafeInteger_negative (number : Binary64) :
    isSafeInteger (negative number) = isSafeInteger number := by
  cases number with
  | infinite sign => rfl
  | finite units =>
      have same : -units % (Binary64.unitsPerOne : Int) = 0 ↔
          units % (Binary64.unitsPerOne : Int) = 0 := by
        rw [← Int.dvd_iff_emod_eq_zero, ← Int.dvd_iff_emod_eq_zero, Int.dvd_neg]
      simp only [isSafeInteger, negative, Binary64.integer?]
      by_cases whole : units % (Binary64.unitsPerOne : Int) = 0
      · rw [if_pos whole, if_pos (same.mpr whole),
          Int.neg_ediv_of_dvd (Int.dvd_of_emod_eq_zero whole)]
        simp only [Int.natAbs_neg]
      · rw [if_neg whole, if_neg fun negated => whole (same.mp negated)]

theorem nearest_nonneg {num den : Nat} {units : Int}
    (finite : Binary64.nearest num den = .finite units) : 0 ≤ units := by
  unfold Binary64.nearest at finite
  dsimp only at finite
  split_ifs at finite <;>
  · cases finite
    exact Int.natCast_nonneg _

theorem isSafeInteger_iff {number : Binary64} :
    isSafeInteger number = true ↔ ∃ value, number = .ofInt value ∧ value.natAbs < 2 ^ 53 := by
  rw [isSafeInteger]
  constructor
  · intro safe
    split at safe
    · rename_i value isValue
      exact ⟨value, Binary64.eq_ofInt_of_integer? isValue, of_decide_eq_true safe⟩
    · cases safe
  · rintro ⟨value, rfl, small⟩
    rw [Binary64.integer?_ofInt]
    exact decide_eq_true small

/-- The double nearest to a natural is a safe integer below 2^53 only. -/
theorem isSafeInteger_nearest_iff (value : Nat) :
    isSafeInteger (.nearest value 1) = true ↔ value < 2 ^ 53 := by
  rw [isSafeInteger_iff]
  constructor
  · rintro ⟨read, same, small⟩
    have nonneg : 0 ≤ read := by
      by_contra below
      have sign := Int.mul_neg_of_neg_of_pos (Int.not_le.mp below)
        (Int.natCast_pos.mpr Binary64.unitsPerOne_pos)
      exact absurd sign (Int.not_lt.mpr (nearest_nonneg same))
    obtain ⟨natural, rfl⟩ := Int.eq_ofNat_of_zero_le nonneg
    rw [Int.natAbs_natCast] at small
    exact (Binary64.nearest_eq_ofInt_iff small).mp same ▸ small
  · intro small
    exact ⟨value, Binary64.nearest_natCast small, small⟩

theorem foldl_digits_lt {digits : JsString} (isDigits : ∀ unit ∈ digits, isDigit unit = true)
    (value : Nat) :
    digits.foldl (fun value unit => 10 * value + (unit.val - 48)) value <
      (value + 1) * 10 ^ digits.length := by
  induction digits generalizing value with
  | nil => simp
  | cons unit digits ih =>
      have first := isDigits unit List.mem_cons_self
      rw [isDigit, decide_eq_true_eq] at first
      have step : 10 * value + (unit.val - 48) + 1 ≤ (value + 1) * 10 := by omega
      rw [List.foldl_cons, List.length_cons, Nat.pow_succ']
      refine Nat.lt_of_lt_of_le
        (ih (fun other member => isDigits other (List.mem_cons_of_mem _ member)) _) ?_
      rw [← Nat.mul_assoc]
      exact Nat.mul_le_mul_right _ step

/-- A literal is quoted when it is beyond 2^53. -/
theorem widenLiteral_eq {literal : JsString} (integer : isInteger literal = true) :
    widenLiteral literal (literalDigits literal).length =
      if beyondSafe literal = true then quote :: literal ++ [quote] else literal := by
  have digits : ∀ unit ∈ literalDigits literal, isDigit unit = true := by
    cases literal with
    | nil => cases integer
    | cons unit rest =>
        rw [isInteger] at integer
        unfold literalDigits
        by_cases isMinus : unit = minus
        · rw [if_pos isMinus, JsString.isDigits, Bool.and_eq_true] at integer
          rw [List.head?_cons, if_pos (congrArg some isMinus)]
          exact List.all_eq_true.mp integer.2
        · rw [if_neg isMinus, JsString.isDigits, Bool.and_eq_true] at integer
          rw [List.head?_cons, if_neg fun same => isMinus (Option.some.inj same)]
          exact List.all_eq_true.mp integer.2
  have safe : isSafeInteger (literalNumber literal) = true ↔
      JsString.digitsValue (literalDigits literal) < 2 ^ 53 := by
    unfold literalNumber literalDigits
    split
    · rw [isSafeInteger_negative, isSafeInteger_nearest_iff]
    · rw [isSafeInteger_nearest_iff]
  have short := foldl_digits_lt digits 0
  rw [← JsString.digitsValue, Nat.zero_add, Nat.one_mul] at short
  have same : (SAFE_DIGITS ≤ (literalDigits literal).length ∧
      isSafeInteger (literalNumber literal) = false) ↔ beyondSafe literal = true := by
    rw [← Bool.not_eq_true, safe, beyondSafe, integer, Bool.true_and, decide_eq_true_eq, Nat.not_lt]
    refine ⟨And.right, fun beyond => ⟨?_, beyond⟩⟩
    by_contra few
    have bound : (10 : Nat) ^ (literalDigits literal).length ≤ 10 ^ 15 :=
      Nat.pow_le_pow_right (by decide) (Nat.le_of_lt_succ (Nat.not_le.mp few))
    omega
  rw [widenLiteral]
  simp only [same]

/-! ## The widened text -/

/-- Any other character is passed on. -/
theorem widenFrom_plain {unit : CodeUnit} (plain : Plain unit) (prev : Option CodeUnit)
    (rest : JsString) :
    widenFrom (.outside prev) (unit :: rest) = unit :: widenFrom (.outside (some unit)) rest := by
  rw [widenFrom, if_neg plain.1, if_pos (Or.inl ⟨plain.2.1, plain.2.2⟩)]

/-- No number starts after a character that is not structural. -/
theorem widenFrom_unplaced {unit : CodeUnit} {prev : Option CodeUnit} (noQuote : unit ≠ quote)
    (unplaced : isStructural prev = false) (rest : JsString) :
    widenFrom (.outside prev) (unit :: rest) = unit :: widenFrom (.outside (some unit)) rest := by
  rw [widenFrom, if_neg noQuote, if_pos (Or.inr unplaced)]

theorem widenFrom_quote (prev : Option CodeUnit) (rest : JsString) :
    widenFrom (.outside prev) (quote :: rest) = quote :: widenFrom .inString rest := by
  rw [widenFrom, if_pos rfl]

theorem widenFrom_string_plain {unit : CodeUnit} (noQuote : unit ≠ quote)
    (noBackslash : unit ≠ backslash) (rest : JsString) :
    widenFrom .inString (unit :: rest) = unit :: widenFrom .inString rest := by
  rw [widenFrom, if_neg noBackslash, if_neg noQuote]

theorem widenFrom_escape (escaped : CodeUnit) (rest : JsString) :
    widenFrom .inString (backslash :: escaped :: rest) =
      backslash :: escaped :: widenFrom .inString rest := by
  rw [widenFrom, if_pos rfl, widenFrom]

/-- A string is passed on up to its closing quote. -/
theorem widenFrom_body {raw value : JsString} (body : StringBody raw value) (rest : JsString) :
    widenFrom .inString (raw ++ rest) = raw ++ widenFrom (.outside (some quote)) rest := by
  induction body with
  | close =>
      have differ : quote ≠ backslash := by decide
      rw [List.singleton_append, widenFrom, if_neg differ, if_pos rfl, List.singleton_append]
  | @unicode a b c d value raw _ isEscape _ ih =>
      have plain := plain_of_unicodeEscape isEscape
      simp only [List.forall_mem_cons, List.not_mem_nil, false_implies, implies_true,
        and_true] at plain
      obtain ⟨first, second, third, fourth⟩ := plain
      simp only [List.cons_append, widenFrom_escape, widenFrom_string_plain first.1 first.2,
        widenFrom_string_plain second.1 second.2, widenFrom_string_plain third.1 third.2,
        widenFrom_string_plain fourth.1 fourth.2, ih]
  | @escape unit value raw _ _ isEscape _ ih =>
      simp only [List.cons_append, widenFrom_escape, ih]
  | @plain unit raw _ noQuote noBackslash _ _ ih =>
      simp only [List.cons_append, widenFrom_string_plain noQuote noBackslash, ih]

theorem widenFrom_word {word : JsString} (plain : ∀ unit ∈ word, Plain unit)
    (prev : Option CodeUnit) (rest : JsString) :
    ∃ prev', widenFrom (.outside prev) (word ++ rest) = word ++ widenFrom (.outside prev') rest := by
  induction word generalizing prev with
  | nil => exact ⟨prev, rfl⟩
  | cons unit word ih =>
      obtain ⟨prev', later⟩ := ih (fun other member => plain other (List.mem_cons_of_mem _ member))
        (some unit)
      refine ⟨prev', ?_⟩
      rw [List.cons_append, widenFrom_plain (plain unit List.mem_cons_self), later,
        List.cons_append]

theorem unplaced_of_number {unit : CodeUnit} (number : isNumberUnit unit = true) :
    unit ≠ quote ∧ isStructural (some unit) = false := by
  obtain ⟨noPunctuation, noQuote, noSpace⟩ := begins_number number
  refine ⟨noQuote, ?_⟩
  rw [isStructural, decide_eq_false_iff_not]
  simp only [Option.some.injEq]
  rintro (rfl | rfl | rfl | rfl | rfl | rfl | rfl)
  · cases noPunctuation
  · cases noPunctuation
  · cases noPunctuation
  all_goals cases noSpace

/-- After a number has begun, its characters are passed on. -/
theorem widenFrom_run {run : JsString} (number : ∀ unit ∈ run, isNumberUnit unit = true)
    {prev : Option CodeUnit} (unplaced : isStructural prev = false) (rest : JsString) :
    ∃ prev', widenFrom (.outside prev) (run ++ rest) = run ++ widenFrom (.outside prev') rest := by
  induction run generalizing prev with
  | nil => exact ⟨prev, rfl⟩
  | cons unit run ih =>
      obtain ⟨noQuote, later⟩ := unplaced_of_number (number unit List.mem_cons_self)
      obtain ⟨prev', rest'⟩ := ih (fun other member => number other (List.mem_cons_of_mem _ member))
        later
      refine ⟨prev', ?_⟩
      rw [List.cons_append, widenFrom_unplaced noQuote unplaced, rest', List.cons_append]

/-- What ends a number still ends it in the widened text. -/
theorem endsNumber_widenFrom {text : JsString} (ends : EndsNumber text) (prev : Option CodeUnit) :
    EndsNumber (widenFrom (.outside prev) text) := by
  cases text with
  | nil =>
      rw [widenFrom]
      exact ends
  | cons unit text =>
      by_cases isQuote : unit = quote
      · subst isQuote
        rw [widenFrom_quote]
        exact ends
      · have noMinus : unit ≠ minus := by
          rintro rfl
          exact absurd (ends minus rfl) (by decide)
        rw [widenFrom_plain ⟨isQuote, noMinus, ends.not_digit unit rfl⟩]
        exact ends

/-- After the digits of a number come a fraction, an exponent or nothing. -/
theorem head_after_digits {text : JsString} (found : scanUnsigned text = some (text, [])) :
    text.takeWhile isDigit ≠ [] ∧
      ∀ unit ∈ (text.dropWhile isDigit).head?, unit = 46 ∨ unit = 101 ∨ unit = 69 := by
  unfold scanUnsigned at found
  split at found
  · cases found
  · rename_i digits
    refine ⟨digits, ?_⟩
    intro unit first
    obtain ⟨rest, isRest⟩ := List.head?_eq_some_iff.mp (Option.mem_def.mp first)
    rw [isRest] at found
    have last := congrArg Prod.snd (Option.some.inj found)
    dsimp only at last
    by_contra other
    rw [not_or] at other
    have noFraction : scanFraction (unit :: rest) = ([], unit :: rest) := by
      rw [scanFraction, if_neg fun both => other.1 both.1]
    have noExponent : scanExponent (unit :: rest) = ([], unit :: rest) := by
      rw [scanExponent, if_neg fun both => other.2 both.1]
    rw [noFraction, noExponent] at last
    cases last

/-- How a number begins: a sign or a digit, whole digits, and what may follow them. -/
theorem begins_of_number {unit : CodeUnit} {rest : JsString}
    (whole : isNumber (unit :: rest) = true) :
    (unit = minus ∨ isDigit unit = true) ∧
      (unit = minus → rest.takeWhile isDigit ≠ []) ∧
      (∀ other ∈ (rest.dropWhile isDigit).head?, other = 46 ∨ other = 101 ∨ other = 69) ∧
      (rest.dropWhile isDigit = [] ↔ isInteger (unit :: rest) = true) := by
  rw [isNumber, Bool.and_eq_true, decide_eq_true_eq] at whole
  have scanned := whole.1
  rw [scanNumber] at scanned
  have digits : ∀ text : JsString, text.dropWhile isDigit = [] ↔
      (text.all fun unit => decide (48 ≤ unit.val ∧ unit.val ≤ 57)) = true := by
    intro text
    rw [List.dropWhile_eq_nil_iff, List.all_eq_true]
    rfl
  split at scanned
  · rename_i isMinus
    obtain ⟨⟨taken, tail⟩, isUnsigned, same⟩ := Option.map_eq_some_iff.mp scanned
    cases same
    obtain ⟨some, follows⟩ := head_after_digits isUnsigned
    refine ⟨.inl isMinus, fun _ => some, follows, ?_⟩
    have filled : taken ≠ [] := by
      rintro rfl
      exact some rfl
    rw [digits, isInteger, if_pos isMinus, JsString.isDigits, decide_eq_true filled,
      Bool.true_and]
  · rename_i noMinus
    obtain ⟨some, follows⟩ := head_after_digits scanned
    have digit : isDigit unit = true := by
      by_contra none
      exact some (List.takeWhile_cons_of_neg none)
    rw [List.dropWhile_cons_of_pos digit] at follows
    refine ⟨.inr digit, fun isMinus => absurd isMinus noMinus, follows, ?_⟩
    rw [← List.dropWhile_cons_of_pos digit, digits, isInteger, if_neg noMinus, JsString.isDigits,
      decide_eq_true (List.cons_ne_nil _ _), Bool.true_and]

/-- A number after a structural character is passed on, or quoted when it is beyond 2^53. -/
theorem widenFrom_number {run after : JsString} (whole : isNumber run = true)
    (number : ∀ unit ∈ run, isNumberUnit unit = true) (ends : EndsNumber after)
    {prev : Option CodeUnit} (placed : isStructural prev = true) :
    ∃ prev', widenFrom (.outside prev) (run ++ after) =
      (if beyondSafe run = true then quote :: run ++ [quote] else run) ++
        widenFrom (.outside prev') after := by
  cases run with
  | nil => cases whole
  | cons unit rest =>
      obtain ⟨begins, signed, follows, integer⟩ := begins_of_number whole
      obtain ⟨noQuote, -⟩ := unplaced_of_number (number unit List.mem_cons_self)
      have goesOn : ¬((unit ≠ minus ∧ isDigit unit = false) ∨ isStructural prev = false) := by
        rw [placed]
        rcases begins with isMinus | digit
        · simp [isMinus]
        · simp [digit]
      have some : (if unit = minus then (unit :: rest.takeWhile isDigit).length - 1
          else (unit :: rest.takeWhile isDigit).length) ≠ 0 := by
        split
        · rename_i isMinus
          exact fun none => signed isMinus (List.length_eq_zero_iff.mp none)
        · exact Nat.succ_ne_zero _
      rw [List.cons_append, widenFrom, if_neg noQuote, if_neg goesOn]
      dsimp only
      rw [takeWhile_digits ends, if_neg some, dropWhile_digits ends]
      cases rest' : rest.dropWhile isDigit with
      | nil =>
          have isRun : rest.takeWhile isDigit = rest := by
            rw [← List.append_nil (rest.takeWhile isDigit), ← rest',
              List.takeWhile_append_dropWhile]
          have quoted := widenLiteral_eq (integer.mp rest')
          have length : (literalDigits (unit :: rest)).length =
              if unit = minus then (unit :: rest).length - 1 else (unit :: rest).length := by
            rw [literalDigits, List.head?_cons]
            simp only [Option.some.injEq]
            split <;> rfl
          rw [length] at quoted
          rw [isRun, quoted, List.nil_append]
          cases after with
          | nil =>
              refine ⟨none, ?_⟩
              rw [widenFrom, List.append_nil]
          | cons next after =>
              have noFraction : ¬(next = 46 ∨ next = 101 ∨ next = 69) := by
                rintro (rfl | rfl | rfl) <;> exact absurd (ends _ rfl) (by decide)
              exact ⟨_, if_neg noFraction⟩
      | cons next others =>
          have fraction := follows next (by rw [rest']; rfl)
          have whole : unit :: rest = (unit :: rest.takeWhile isDigit) ++ next :: others := by
            rw [← rest', List.cons_append, List.takeWhile_append_dropWhile]
          have noInteger : beyondSafe (unit :: rest) = false := by
            rw [beyondSafe, Bool.and_eq_false_iff]
            refine Or.inl (Bool.eq_false_iff.mpr fun isInteger => ?_)
            rw [integer.mpr isInteger] at rest'
            cases rest'
          have later : ∀ other ∈ next :: others, isNumberUnit other = true := by
            intro other member
            refine number other ?_
            rw [whole]
            exact List.mem_append_right _ member
          obtain ⟨prev', passes⟩ := widenFrom_run
            (fun other member => later other (List.mem_cons_of_mem _ member))
            (unplaced_of_number (later next List.mem_cons_self)).2 after
          refine ⟨prev', ?_⟩
          rw [List.cons_append]
          dsimp only
          rw [if_pos fraction, passes, noInteger, if_neg Bool.false_ne_true]
          conv_rhs => rw [whole]
          simp only [List.append_assoc, List.cons_append]

/-! ## The widened tokens -/

theorem structural_of_punctuation {unit : CodeUnit} {token : Token}
    (found : punctuation? unit = some token) :
    Plain unit ∧ token.quoting beyondSafe = token ∧
      (token.separates = true → isStructural (some unit) = true) := by
  unfold punctuation? at found
  split_ifs at found with a b c d e f
  all_goals
    cases found
    subst unit
    exact ⟨by decide, rfl, by decide⟩

theorem quoting_of_word {word : JsString} {token : Token} (member : (word, token) ∈ words) :
    token.quoting beyondSafe = token ∧ token.separates = false := by
  simp only [words, List.mem_cons, Prod.mk.injEq, List.not_mem_nil, or_false] at member
  rcases member with ⟨-, rfl⟩ | ⟨-, rfl⟩ | ⟨-, rfl⟩ <;> exact ⟨rfl, rfl⟩

/-- What a token of the text is in the widened text. -/
theorem lexToken_widenFrom {unit : CodeUnit} {text after : JsString} {token : Token}
    {prev : Option CodeUnit} (noSpace : isSpace unit = false)
    (found : lexToken unit text = some (token, after))
    (placed : ∀ raw, token = .number raw → isStructural prev = true) :
    ∃ first rest prev', widenFrom (.outside prev) (unit :: text) = first :: rest ∧
      isSpace first = false ∧
      lexToken first rest = some (token.quoting beyondSafe, widenFrom (.outside prev') after) ∧
      (token.separates = true → isStructural prev' = true) := by
  rcases lexToken_cases found with ⟨isPunctuation, rfl⟩ | ⟨rfl, raw, value, body, rfl, rfl⟩ |
    ⟨run, whole, number, ends, split, rfl⟩ | ⟨word, member, split⟩
  · obtain ⟨plain, same, separates⟩ := structural_of_punctuation isPunctuation
    rw [same]
    exact ⟨unit, _, some unit, widenFrom_plain plain prev text, noSpace,
      lexToken_punctuation isPunctuation _, separates⟩
  · refine ⟨quote, raw ++ widenFrom (.outside (some quote)) after, some quote, ?_, noSpace,
      lexToken_string body _, ?_⟩
    · rw [widenFrom_quote, widenFrom_body body]
    · intro none
      cases none
  · obtain ⟨prev', widened⟩ := widenFrom_number whole number ends (placed run rfl)
    rw [split, widened, Token.quoting]
    have noSeparator : Token.separates (.number run) = true → isStructural prev' = true := by
      intro none
      cases none
    cases beyond : beyondSafe run with
    | true =>
        refine ⟨quote, (run ++ [quote]) ++ widenFrom (.outside prev') after, prev', ?_, rfl, ?_,
          noSeparator⟩
        · rw [if_pos rfl, List.cons_append, List.cons_append]
        · rw [lexToken_string (body_of_plain number), if_pos rfl]
    | false =>
        rw [if_neg Bool.false_ne_true, if_neg Bool.false_ne_true]
        cases run with
        | nil => cases whole
        | cons first run =>
            obtain ⟨noSpace, isToken⟩ := lexToken_number whole number
              (endsNumber_widenFrom ends prev') List.cons_append
            exact ⟨first, run ++ widenFrom (.outside prev') after, prev', List.cons_append,
              noSpace, isToken, noSeparator⟩
  · obtain ⟨plain, -⟩ := plain_of_word member
    obtain ⟨same, noSeparator⟩ := quoting_of_word member
    obtain ⟨prev', widened⟩ := widenFrom_word plain prev after
    rw [split, widened, same, noSeparator]
    cases word with
    | nil => simp [words] at member
    | cons first word =>
        obtain ⟨noSpace, isToken⟩ := lexToken_word member (widenFrom (.outside prev') after)
          List.cons_append
        exact ⟨first, word ++ widenFrom (.outside prev') after, prev', List.cons_append, noSpace,
          isToken, fun none => by cases none⟩

/-- The widened text has the tokens of the text, with the integers beyond 2^53 as strings. -/
theorem lex_widenFrom {text : JsString} {tokens : List Token} {allowed : Bool}
    {prev : Option CodeUnit} (found : lex text = some tokens)
    (placed : numbersPlaced allowed tokens) (follows : allowed = true → isStructural prev = true) :
    lex (widenFrom (.outside prev) text) = some (tokens.map (Token.quoting beyondSafe)) := by
  fun_induction lex text generalizing tokens allowed prev with
  | case1 =>
      cases found
      rw [widenFrom, lex, List.map_nil]
  | case2 unit text space ih =>
      have units := space
      rw [isSpace, decide_eq_true_eq] at units
      have plain : Plain unit := by
        rcases units with rfl | rfl | rfl | rfl <;> decide
      have structural : isStructural (some unit) = true := by
        rcases units with rfl | rfl | rfl | rfl <;> decide
      rw [widenFrom_plain plain, lex, if_pos space]
      exact ih found placed fun _ => structural
  | case3 unit text noSpace token after isToken ih =>
      obtain ⟨others, isOthers, rfl⟩ := Option.map_eq_some_iff.mp found
      obtain ⟨isPlaced, later⟩ := placed
      obtain ⟨first, rest, prev', isText, noSpace', isToken', separates⟩ :=
        lexToken_widenFrom (Bool.eq_false_iff.mpr noSpace) isToken
          fun raw isNumber => follows (isPlaced raw isNumber)
      rw [isText, lex_cons, noSpace', if_neg Bool.false_ne_true, isToken', Option.bind_some,
        ih isOthers later separates, Option.map_some, List.map_cons]
  | case4 => cases found

/-! ## Guarded frames -/

/-- What the client's parser makes of a frame. -/
inductive ClientParse (V : Type)
  | parsed (value : V)
  /-- The nesting overflowed the stack. -/
  | rangeError
  | syntaxError

/-- What the wrapped parser does: it returns a value, it reports an unparseable frame and returns an
empty object, or it throws. -/
inductive FrameOutcome (V : Type)
  | returned (value : V)
  | reported
  | thrown

/-- A genuine syntax error stays one; a frame too deep for the client is parsed without it. -/
def guardedParse {V : Type} (builder : Builder V) (original : JsString → ClientParse V)
    (raw : JsString) : FrameOutcome V :=
  match original raw with
  | .parsed value => .returned value
  | .syntaxError => .thrown
  | .rangeError =>
      match parse builder (widenBigIntegers raw) with
      | some value => .returned value
      | none => .reported

/-- A text that begins with no number. -/
def BeginsNoNumber (text : JsString) : Prop :=
  ∀ unit ∈ text.head?, unit ≠ minus ∧ isDigit unit = false

theorem begins_of_lexToken_number {unit : CodeUnit} {text after raw : JsString}
    (found : lexToken unit text = some (.number raw, after)) :
    unit = minus ∨ isDigit unit = true := by
  rcases lexToken_cases found with ⟨isPunctuation, -⟩ | ⟨-, _, _, _, _, same⟩ |
    ⟨run, whole, -, -, split, -⟩ | ⟨word, member, -⟩
  · unfold punctuation? at isPunctuation
    split_ifs at isPunctuation <;> cases isPunctuation
  · cases same
  · cases run with
    | nil => cases whole
    | cons first run =>
        rw [List.cons_append, List.cons.injEq] at split
        rw [split.1]
        exact (begins_of_number whole).1
  · simp [words] at member

/-- The widened frame has the tokens of the frame, with the integers beyond 2^53 as strings. -/
theorem lex_widenBigIntegers {text : JsString} {tokens : List Token}
    (found : lex text = some tokens) (placed : numbersPlaced true tokens)
    (begins : BeginsNoNumber text) :
    lex (widenBigIntegers text) = some (tokens.map (Token.quoting beyondSafe)) := by
  cases text with
  | nil =>
      rw [lex] at found
      cases found
      rw [widenBigIntegers, widenFrom, lex, List.map_nil]
  | cons unit text =>
      obtain ⟨noMinus, noDigit⟩ := begins unit rfl
      by_cases space : isSpace unit = true
      · rw [lex_cons, if_pos space] at found
        rw [isSpace, decide_eq_true_eq] at space
        have plain : Plain unit := by
          rcases space with rfl | rfl | rfl | rfl <;> decide
        have structural : isStructural (some unit) = true := by
          rcases space with rfl | rfl | rfl | rfl <;> decide
        have isSpace : isSpace unit = true := by
          rcases space with rfl | rfl | rfl | rfl <;> decide
        rw [widenBigIntegers, widenFrom_plain plain, lex_cons, if_pos isSpace]
        exact lex_widenFrom found placed fun _ => structural
      · have text := found
        have first : numbersPlaced false tokens → lex (widenFrom (.outside none) (unit :: _)) =
            some (tokens.map (Token.quoting beyondSafe)) := fun placed =>
          lex_widenFrom text placed fun none => by cases none
        refine first ?_
        rw [lex_cons, if_neg space] at found
        obtain ⟨⟨token, after⟩, isToken, others⟩ := Option.bind_eq_some_iff.mp found
        obtain ⟨rest, -, rfl⟩ := Option.map_eq_some_iff.mp others
        refine ⟨?_, placed.2⟩
        rintro raw rfl
        rcases begins_of_lexToken_number isToken with isMinus | digit
        · exact absurd isMinus noMinus
        · rw [noDigit] at digit
          cases digit

/-- A number of a widened frame that is an integer is read exactly. -/
theorem literalNumber_exact {raw : JsString} (integer : isInteger raw = true)
    (safe : beyondSafe raw = false) : ∃ value, literalNumber raw = .ofInt value ∧
      value.natAbs = JsString.digitsValue (literalDigits raw) := by
  rw [beyondSafe, integer, Bool.true_and, decide_eq_false_iff_not, Nat.not_le] at safe
  unfold literalNumber literalDigits at *
  split
  · rename_i isMinus
    rw [if_pos isMinus] at safe
    refine ⟨-(JsString.digitsValue raw.tail : Int), ?_, by rw [Int.natAbs_neg, Int.natAbs_natCast]⟩
    rw [Binary64.nearest_natCast safe]
    simp only [negative, Binary64.ofInt, Int.neg_mul]
  · rename_i noMinus
    rw [if_neg noMinus] at safe
    exact ⟨_, Binary64.nearest_natCast safe, Int.natAbs_natCast _⟩

/-- A frame too deep for the client's parser is returned with its integers beyond 2^53 as the strings
of their digits; every integer left as a number is read exactly. -/
theorem guardedParse_tooDeep {V : Type} (builder : Builder V) (json : ValidJson)
    (begins : BeginsNoNumber json.text) {original : JsString → ClientParse V}
    (tooDeep : original json.text = .rangeError) :
    guardedParse builder original json.text =
        .returned ((json.tree.quoting beyondSafe).value builder) ∧
      ∀ raw ∈ (json.tree.quoting beyondSafe).numbers, isInteger raw = true →
        ∃ value, literalNumber raw = .ofInt value ∧
          value.natAbs = JsString.digitsValue (literalDigits raw) := by
  obtain ⟨tokens, depth, isTokens, isTree⟩ := json.parsed
  have placed := readValue_places depth tokens json.tree [] isTree trivial
  have widened := lex_widenBigIntegers isTokens placed begins
  have tree := @readValue_quoted beyondSafe depth tokens json.tree [] isTree
  refine ⟨?_, fun raw member integer =>
    literalNumber_exact integer (Tree.numbers_quoting beyondSafe json.tree raw member)⟩
  simp only [guardedParse, tooDeep]
  rw [parse, parseTree_of_read widened tree, Option.map_some]

section Sample

/-- The tree itself. -/
def treeBuilder : Builder Tree where
  null := .null
  bool := .bool
  string := .string
  number := .number
  array := .array
  object := .object

/-- The digits of 2^53 + 1, which no double is. -/
def bigDigits : JsString := [57, 48, 48, 55, 49, 57, 57, 50, 53, 52, 55, 52, 48, 57, 57, 51]

theorem beyondSafe_bigDigits : beyondSafe bigDigits = true := by decide +kernel

/-- A value inside so many arrays. -/
def nested : Nat → Tree → Tree
  | 0, tree => tree
  | levels + 1, tree => .array [nested levels tree]

theorem quoting_nested (quoted : JsString → Bool) (levels : Nat) (tree : Tree) :
    (nested levels tree).quoting quoted = nested levels (tree.quoting quoted) := by
  induction levels with
  | zero => rfl
  | succ levels ih =>
      rw [nested, Tree.quoting, Tree.quotingItems, Tree.quotingItems, ih]
      rfl

theorem value_nested (levels : Nat) (tree : Tree) :
    (nested levels tree).value treeBuilder = nested levels (tree.value treeBuilder) := by
  induction levels with
  | zero => rfl
  | succ levels ih =>
      rw [nested, Tree.value, Tree.values, Tree.values, ih]
      rfl

/-- This integer inside twelve arrays. -/
def deepFrame : ValidJson where
  text := List.replicate 12 91 ++ bigDigits ++ List.replicate 12 93
  tree := nested 12 (.number bigDigits)
  parsed := by
    refine ⟨List.replicate 12 .beginArray ++ .number bigDigits :: List.replicate 12 .endArray, 25,
      ?_, rfl⟩
    decide +kernel

/-- How many brackets are open at once. -/
def nestingOf (text : JsString) : Nat :=
  (text.foldl (fun (levels : Nat × Nat) unit =>
    if unit = 91 ∨ unit = 123 then (levels.1 + 1, max levels.2 (levels.1 + 1))
    else if unit = 93 ∨ unit = 125 then (levels.1 - 1, levels.2)
    else levels) (0, 0)).2

/-- A parser with a stack for so many levels. -/
def stackParse (levels : Nat) (raw : JsString) : ClientParse Tree :=
  if levels < nestingOf raw then .rangeError
  else
    match parse treeBuilder raw with
    | some value => .parsed value
    | none => .syntaxError

theorem guardedParse_tooDeep_sample :
    guardedParse treeBuilder (stackParse 10) deepFrame.text =
      .returned (nested 12 (.string bigDigits)) := by
  have begins : BeginsNoNumber deepFrame.text := by
    rintro _ ⟨⟩
    decide
  have tooDeep : stackParse 10 deepFrame.text = .rangeError := if_pos (by decide +kernel)
  have returned := (@guardedParse_tooDeep _ treeBuilder deepFrame begins _ tooDeep).1
  have widened : (deepFrame.tree.quoting beyondSafe).value treeBuilder =
      nested 12 (.string bigDigits) := by
    rw [deepFrame, quoting_nested, value_nested, Tree.quoting, if_pos beyondSafe_bigDigits]
    rfl
  rw [widened] at returned
  exact returned

end Sample

end Odatano
