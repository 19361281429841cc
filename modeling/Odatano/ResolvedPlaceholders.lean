import Odatano.PlaceholderRanks

/-!
# Resolved placeholders

What `resolveIndexPlaceholders` does to a whole JSON value, and when every placeholder in it means
a ledger position.
-/

namespace Odatano

/-! ## Placeholders in a value -/

/-- The placeholder that a field holds. -/
def fieldPlaceholder? (key : JsString) : Json JsString → Option Placeholder
  | .string text => if key = JsString.ofText "int" then placeholder? text else none
  | _ => none

theorem eq_string_of_placeholder {key : JsString} {value : Json JsString}
    {placeholder : Placeholder} (holds : fieldPlaceholder? key value = some placeholder) :
    ∃ text, value = .string text ∧ key = JsString.ofText "int" ∧
      placeholder? text = some placeholder := by
  unfold fieldPlaceholder? at holds
  split at holds
  · rename_i text
    split at holds
    · rename_i isInt
      exact ⟨text, rfl, isInt, holds⟩
    · cases holds
  · cases holds

mutual

def placeholdersIn : Json JsString → List Placeholder
  | .array items => itemPlaceholders items
  | .object fields => fieldPlaceholders fields
  | _ => []

def itemPlaceholders : List (Json JsString) → List Placeholder
  | [] => []
  | item :: items => placeholdersIn item ++ itemPlaceholders items

def fieldPlaceholders : List (JsString × Json JsString) → List Placeholder
  | [] => []
  | (key, value) :: fields =>
      (match fieldPlaceholder? key value with
        | some placeholder => [placeholder]
        | none => placeholdersIn value) ++ fieldPlaceholders fields

end

mutual

/-- How deep the values lie inside each other; a placeholder is not entered. -/
def nesting : Json JsString → Nat
  | .array items => itemNesting items
  | .object fields => fieldNesting fields
  | _ => 0

def itemNesting : List (Json JsString) → Nat
  | [] => 0
  | item :: items => max (nesting item + 1) (itemNesting items)

def fieldNesting : List (JsString × Json JsString) → Nat
  | [] => 0
  | (key, value) :: fields =>
      match fieldPlaceholder? key value with
      | some _ => fieldNesting fields
      | none => max (nesting value + 1) (fieldNesting fields)

end

mutual

/-- Put positions in place of placeholders and keep the rest. -/
def withPositions (positions : Placeholder → Nat) : Json JsString → Json JsString
  | .array items => .array (itemsWithPositions positions items)
  | .object fields => .object (fieldsWithPositions positions fields)
  | leaf => leaf

def itemsWithPositions (positions : Placeholder → Nat) : List (Json JsString) → List (Json JsString)
  | [] => []
  | item :: items => withPositions positions item :: itemsWithPositions positions items

def fieldsWithPositions (positions : Placeholder → Nat) :
    List (JsString × Json JsString) → List (JsString × Json JsString)
  | [] => []
  | (key, value) :: fields =>
      (key, match fieldPlaceholder? key value with
        | some placeholder => .number (.ofInt (positions placeholder))
        | none => withPositions positions value) :: fieldsWithPositions positions fields

end

mutual

/-- An object of the value has the key `__proto__`. -/
def hasProto : Json JsString → Bool
  | .array items => itemsHaveProto items
  | .object fields => fieldsHaveProto fields
  | _ => false

def itemsHaveProto : List (Json JsString) → Bool
  | [] => false
  | item :: items => hasProto item || itemsHaveProto items

def fieldsHaveProto : List (JsString × Json JsString) → Bool
  | [] => false
  | (key, value) :: fields =>
      decide (key = JsString.ofText "__proto__") || hasProto value || fieldsHaveProto fields

end

mutual

/-- The value without those keys. -/
def withoutProto : Json JsString → Json JsString
  | .array items => .array (itemsWithoutProto items)
  | .object fields => .object (fieldsWithoutProto fields)
  | leaf => leaf

def itemsWithoutProto : List (Json JsString) → List (Json JsString)
  | [] => []
  | item :: items => withoutProto item :: itemsWithoutProto items

def fieldsWithoutProto :
    List (JsString × Json JsString) → List (JsString × Json JsString)
  | [] => []
  | (key, value) :: fields => withField key (withoutProto value) (fieldsWithoutProto fields)

end

/-! ## Keys -/

mutual

theorem withoutProto_eq (node : Json JsString) (plain : hasProto node = false) :
    withoutProto node = node := by
  match node with
  | .array items => rw [withoutProto, itemsWithoutProto_eq items plain]
  | .object fields => rw [withoutProto, fieldsWithoutProto_eq fields plain]
  | .null | .bool _ | .number _ | .string _ => rfl

theorem itemsWithoutProto_eq (items : List (Json JsString))
    (plain : itemsHaveProto items = false) : itemsWithoutProto items = items := by
  match items with
  | [] => rfl
  | item :: items =>
      rw [itemsHaveProto, Bool.or_eq_false_iff] at plain
      rw [itemsWithoutProto, withoutProto_eq item plain.1, itemsWithoutProto_eq items plain.2]

theorem fieldsWithoutProto_eq (fields : List (JsString × Json JsString))
    (plain : fieldsHaveProto fields = false) : fieldsWithoutProto fields = fields := by
  match fields with
  | [] => rfl
  | (key, value) :: fields =>
      rw [fieldsHaveProto, Bool.or_eq_false_iff, Bool.or_eq_false_iff,
        decide_eq_false_iff_not] at plain
      rw [fieldsWithoutProto, withField, if_neg plain.1.1, withoutProto_eq value plain.1.2,
        fieldsWithoutProto_eq fields plain.2]

end

mutual

theorem hasProto_withoutProto (node : Json JsString) : hasProto (withoutProto node) = false := by
  match node with
  | .array items => rw [withoutProto, hasProto, itemsHaveProto_withoutProto items]
  | .object fields => rw [withoutProto, hasProto, fieldsHaveProto_withoutProto fields]
  | .null | .bool _ | .number _ | .string _ => rfl

theorem itemsHaveProto_withoutProto (items : List (Json JsString)) :
    itemsHaveProto (itemsWithoutProto items) = false := by
  match items with
  | [] => rfl
  | item :: items =>
      rw [itemsWithoutProto, itemsHaveProto, hasProto_withoutProto item,
        itemsHaveProto_withoutProto items, Bool.or_false]

theorem fieldsHaveProto_withoutProto (fields : List (JsString × Json JsString)) :
    fieldsHaveProto (fieldsWithoutProto fields) = false := by
  match fields with
  | [] => rfl
  | (key, value) :: fields =>
      rw [fieldsWithoutProto, withField]
      split
      · exact fieldsHaveProto_withoutProto fields
      · rename_i other
        rw [fieldsHaveProto, decide_eq_false other, hasProto_withoutProto value,
          fieldsHaveProto_withoutProto fields, Bool.or_false, Bool.or_false]

end

mutual

theorem hasProto_withPositions (positions : Placeholder → Nat) (node : Json JsString) :
    hasProto (withPositions positions node) = hasProto node := by
  match node with
  | .array items => rw [withPositions, hasProto, hasProto, itemsHaveProto_withPositions positions items]
  | .object fields =>
      rw [withPositions, hasProto, hasProto, fieldsHaveProto_withPositions positions fields]
  | .null | .bool _ | .number _ | .string _ => rfl

theorem itemsHaveProto_withPositions (positions : Placeholder → Nat) (items : List (Json JsString)) :
    itemsHaveProto (itemsWithPositions positions items) = itemsHaveProto items := by
  match items with
  | [] => rfl
  | item :: items =>
      rw [itemsWithPositions, itemsHaveProto, itemsHaveProto, hasProto_withPositions positions item,
        itemsHaveProto_withPositions positions items]

theorem fieldsHaveProto_withPositions (positions : Placeholder → Nat)
    (fields : List (JsString × Json JsString)) :
    fieldsHaveProto (fieldsWithPositions positions fields) = fieldsHaveProto fields := by
  match fields with
  | [] => rfl
  | (key, value) :: fields =>
      rw [fieldsWithPositions, fieldsHaveProto, fieldsHaveProto,
        fieldsHaveProto_withPositions positions fields]
      congr 2
      split
      · rename_i placeholder holds
        obtain ⟨text, rfl, -, -⟩ := eq_string_of_placeholder holds
        rfl
      · exact hasProto_withPositions positions value

end

/-! ## The walk -/

section Walk

variable {ctx : ResolveContext}

theorem fieldPosition_of_none {key : JsString} {value : Json JsString}
    (plain : fieldPlaceholder? key value = none) : fieldPosition ctx key value = .ok none := by
  unfold fieldPlaceholder? at plain
  unfold fieldPosition
  split at plain
  · split at plain
    · rename_i isInt
      simp only [if_pos isInt, positionOf, plain]
    · rename_i other
      simp only [if_neg other]
  · rename_i noText
    cases value with
    | string text => exact absurd rfl (noText text)
    | _ => rfl

theorem fieldPosition_of_some {key : JsString} {value : Json JsString} {placeholder : Placeholder}
    {position : Nat} (holds : fieldPlaceholder? key value = some placeholder)
    (found : placeholder.index? ctx = some position) :
    fieldPosition ctx key value = .ok (some position) := by
  obtain ⟨text, rfl, rfl, isText⟩ := eq_string_of_placeholder holds
  simp only [fieldPosition, if_true, positionOf, isText, found]

theorem fieldPosition_error {key : JsString} {value : Json JsString} {placeholder : Placeholder}
    (holds : fieldPlaceholder? key value = some placeholder)
    (absent : placeholder.index? ctx = none) : ∃ e, fieldPosition ctx key value = .error e := by
  obtain ⟨text, rfl, rfl, isText⟩ := eq_string_of_placeholder holds
  exact ⟨placeholder.refusal ctx text, by
    simp only [fieldPosition, if_true, positionOf, isText, absent]⟩

variable {positions : Placeholder → Nat}

mutual

theorem walk_ok (depth : Nat) (node : Json JsString) (shallow : depth + nesting node ≤ 64)
    (found : ∀ placeholder ∈ placeholdersIn node, placeholder.index? ctx = some (positions placeholder)) :
    walk ctx depth node = .ok (withoutProto (withPositions positions node)) := by
  have inside : ¬MAX_WALK_DEPTH < depth := by
    rw [MAX_WALK_DEPTH]
    omega
  match node with
  | .array items =>
      rw [walk, if_neg inside, walkItems_ok depth items shallow found]
      rfl
  | .object fields =>
      rw [walk, if_neg inside, walkFields_ok depth fields shallow found]
      rfl
  | .null | .bool _ | .number _ | .string _ =>
      simp [walk, inside, withPositions, withoutProto]

theorem walkItems_ok (depth : Nat) (items : List (Json JsString))
    (shallow : depth + itemNesting items ≤ 64)
    (found : ∀ placeholder ∈ itemPlaceholders items,
      placeholder.index? ctx = some (positions placeholder)) :
    walkItems ctx (depth + 1) items = .ok (itemsWithoutProto (itemsWithPositions positions items)) := by
  match items with
  | [] => rfl
  | item :: items =>
      rw [itemNesting] at shallow
      rw [itemPlaceholders] at found
      have first := walk_ok (depth + 1) item (by omega) fun placeholder member =>
        found placeholder (List.mem_append_left _ member)
      have rest := walkItems_ok depth items (by omega) fun placeholder member =>
        found placeholder (List.mem_append_right _ member)
      rw [walkItems, first, rest]
      rfl

theorem walkFields_ok (depth : Nat) (fields : List (JsString × Json JsString))
    (shallow : depth + fieldNesting fields ≤ 64)
    (found : ∀ placeholder ∈ fieldPlaceholders fields,
      placeholder.index? ctx = some (positions placeholder)) :
    walkFields ctx (depth + 1) fields =
      .ok (fieldsWithoutProto (fieldsWithPositions positions fields)) := by
  match fields with
  | [] => rfl
  | (key, value) :: fields =>
      rw [fieldNesting] at shallow
      rw [fieldPlaceholders] at found
      cases holds : fieldPlaceholder? key value with
      | some placeholder =>
          simp only [holds] at shallow found
          have here := fieldPosition_of_some holds (found placeholder (List.mem_cons_self ..))
          have rest := walkFields_ok depth fields shallow fun other member =>
            found other (List.mem_cons_of_mem _ member)
          simp only [walkFields, here, rest, fieldsWithPositions, holds, fieldsWithoutProto]
          rfl
      | none =>
          simp only [holds] at shallow found
          have here := walk_ok (depth + 1) value (by omega) fun placeholder member =>
            found placeholder (List.mem_append_left _ member)
          have rest := walkFields_ok depth fields (by omega) fun other member =>
            found other (List.mem_append_right _ member)
          simp only [walkFields, fieldPosition_of_none holds, here, rest, fieldsWithPositions,
            holds, fieldsWithoutProto]
          rfl

end

mutual

theorem walk_error (depth : Nat) (node : Json JsString)
    (bad : 64 < depth + nesting node ∨
      ∃ placeholder ∈ placeholdersIn node, placeholder.index? ctx = none) :
    ∃ e, walk ctx depth node = .error e := by
  by_cases deep : MAX_WALK_DEPTH < depth
  · cases node <;> exact ⟨.maxDepth, by simp [walk, deep]⟩
  have inside : depth ≤ 64 := Nat.le_of_not_lt deep
  match node with
  | .array items =>
      obtain ⟨e, fails⟩ := walkItems_error depth items inside bad
      exact ⟨e, by rw [walk, if_neg deep, fails]; rfl⟩
  | .object fields =>
      obtain ⟨e, fails⟩ := walkFields_error depth fields inside bad
      exact ⟨e, by rw [walk, if_neg deep, fails]; rfl⟩
  | .null | .bool _ | .number _ | .string _ =>
      rcases bad with tooDeep | ⟨_, member, _⟩
      · exact absurd tooDeep (Nat.not_lt.mpr inside)
      · exact absurd member List.not_mem_nil

theorem walkItems_error (depth : Nat) (items : List (Json JsString)) (inside : depth ≤ 64)
    (bad : 64 < depth + itemNesting items ∨
      ∃ placeholder ∈ itemPlaceholders items, placeholder.index? ctx = none) :
    ∃ e, walkItems ctx (depth + 1) items = .error e := by
  match items with
  | [] =>
      rcases bad with tooDeep | ⟨_, member, _⟩
      · exact absurd tooDeep (Nat.not_lt.mpr inside)
      · exact absurd member List.not_mem_nil
  | item :: items =>
      rw [itemNesting, itemPlaceholders] at bad
      cases first : walk ctx (depth + 1) item with
      | error e => exact ⟨e, by rw [walkItems, first]; rfl⟩
      | ok out =>
          have fine : ¬(64 < depth + 1 + nesting item ∨
              ∃ placeholder ∈ placeholdersIn item, placeholder.index? ctx = none) := by
            intro itemBad
            obtain ⟨e, fails⟩ := walk_error (depth + 1) item itemBad
            rw [first] at fails
            cases fails
          obtain ⟨e, fails⟩ := walkItems_error depth items inside (by
            rcases bad with tooDeep | ⟨placeholder, member, absent⟩
            · refine .inl ?_
              by_contra
              exact fine (.inl (by omega))
            · rcases List.mem_append.mp member with here | later
              · exact absurd (.inr ⟨placeholder, here, absent⟩) fine
              · exact .inr ⟨placeholder, later, absent⟩)
          exact ⟨e, by rw [walkItems, first, fails]; rfl⟩

theorem walkFields_error (depth : Nat) (fields : List (JsString × Json JsString))
    (inside : depth ≤ 64)
    (bad : 64 < depth + fieldNesting fields ∨
      ∃ placeholder ∈ fieldPlaceholders fields, placeholder.index? ctx = none) :
    ∃ e, walkFields ctx (depth + 1) fields = .error e := by
  match fields with
  | [] =>
      rcases bad with tooDeep | ⟨_, member, _⟩
      · exact absurd tooDeep (Nat.not_lt.mpr inside)
      · exact absurd member List.not_mem_nil
  | (key, value) :: fields =>
      rw [fieldNesting, fieldPlaceholders] at bad
      cases holds : fieldPlaceholder? key value with
      | some placeholder =>
          simp only [holds] at bad
          cases found : placeholder.index? ctx with
          | none =>
              obtain ⟨e, fails⟩ := fieldPosition_error holds found
              exact ⟨e, by rw [walkFields, fails]; rfl⟩
          | some position =>
              obtain ⟨e, fails⟩ := walkFields_error depth fields inside (by
                rcases bad with tooDeep | ⟨other, member, absent⟩
                · exact .inl tooDeep
                · rcases List.mem_cons.mp member with rfl | later
                  · rw [found] at absent
                    cases absent
                  · exact .inr ⟨other, later, absent⟩)
              exact ⟨e, by rw [walkFields, fieldPosition_of_some holds found, fails]; rfl⟩
      | none =>
          simp only [holds] at bad
          have plain : fieldPosition ctx key value = .ok none := fieldPosition_of_none holds
          cases first : walk ctx (depth + 1) value with
          | error e => exact ⟨e, by rw [walkFields, plain]; simp only [first]; rfl⟩
          | ok out =>
              have fine : ¬(64 < depth + 1 + nesting value ∨
                  ∃ placeholder ∈ placeholdersIn value, placeholder.index? ctx = none) := by
                intro valueBad
                obtain ⟨e, fails⟩ := walk_error (depth + 1) value valueBad
                rw [first] at fails
                cases fails
              obtain ⟨e, fails⟩ := walkFields_error depth fields inside (by
                rcases bad with tooDeep | ⟨placeholder, member, absent⟩
                · refine .inl ?_
                  by_contra
                  exact fine (.inl (by omega))
                · rcases List.mem_append.mp member with here | later
                  · exact absurd (.inr ⟨placeholder, here, absent⟩) fine
                  · exact .inr ⟨placeholder, later, absent⟩)
              exact ⟨e, by rw [walkFields, plain]; simp only [first, fails]; rfl⟩

end

end Walk

/-! ## Ledger positions -/

namespace TransactionSets

/-- The build is refused for the order of its withdrawals. -/
def Refused (tx : TransactionSets) : Prop := ∃ entries ∈ tx.withdrawals, Misplaced entries

/-- A value whose placeholders all name items of the transaction, not nested too deep. -/
structure Resolves (tx : TransactionSets) (node : Json JsString) : Prop where
  shallow : nesting node ≤ MAX_WALK_DEPTH
  present : ∀ placeholder ∈ placeholdersIn node, ∃ position, tx.Position placeholder position

/-- The lists of an accepted build. -/
def sortedSets (tx : TransactionSets) : ResolveContext where
  sortedInputs := sortInputsLikeBuildooor tx.inputs
  sortedReferenceInputs := tx.referenceInputs.map sortInputsLikeBuildooor
  sortedWithdrawals := tx.withdrawals.map ledgerHashes

theorem resolveCtx_cases (tx : TransactionSets) :
    (tx.Refused ∧ ∃ e, tx.resolveCtx = .error e) ∨
      (¬tx.Refused ∧ tx.resolveCtx = .ok tx.sortedSets) := by
  unfold Refused resolveCtx sortedSets
  cases given : tx.withdrawals with
  | none => exact .inr ⟨by simp, rfl⟩
  | some entries =>
      rcases ledgerWithdrawalOrder_cases (tx.withdrawals_valid entries given) with
        ⟨misplaced, e, fails⟩ | ⟨placed, accepted⟩
      · exact .inl ⟨⟨entries, rfl, misplaced⟩, e, by simp only [fails]; rfl⟩
      · refine .inr ⟨?_, by simp only [accepted]; rfl⟩
        rintro ⟨others, isGiven, misplaced⟩
        cases isGiven
        exact placed misplaced

theorem index?_withdrawal {entries : List WithdrawalEntry}
    (valid : ∀ entry ∈ entries, entry.Valid) (credentialHash : JsString) :
    ((ledgerHashes entries).idxOf? credentialHash.toLowerCase = none ∧
        ∀ entry ∈ entries, entry.credentialHash ≠ credentialHash.toLowerCase) ∨
      ∃ entry ∈ entries, entry.credentialHash = credentialHash.toLowerCase ∧
        (ledgerHashes entries).idxOf? credentialHash.toLowerCase =
          some (rankOf WithdrawalEntry.place entries entry.place) := by
  by_cases carried : ∃ entry ∈ entries, entry.credentialHash = credentialHash.toLowerCase
  · obtain ⟨entry, listed, named⟩ := carried
    obtain ⟨first, isFirst⟩ := exists_firstWithHash listed
    rw [named] at isFirst
    exact .inr ⟨first, isFirst.listed, isFirst.named, idxOf?_ledgerHashes valid isFirst⟩
  · push Not at carried
    refine .inl ⟨?_, carried⟩
    rw [List.idxOf?, List.findIdx?_eq_none_iff]
    intro hash member
    obtain ⟨entry, listed, rfl⟩ := List.mem_map.mp member
    rw [sortWithdrawalsLikeLedger_eq, mem_sortByKey] at listed
    exact beq_eq_false_iff_ne.mpr (carried entry listed)

/-- A placeholder is found at a position of an item that it names. -/
theorem position_of_index? (tx : TransactionSets) {placeholder : Placeholder} {position : Nat}
    (found : placeholder.index? tx.sortedSets = some position) :
    tx.Position placeholder position := by
  cases placeholder with
  | input txHash outputIndex =>
      exact (refIndex?_eq_some_iff tx.inputs_valid txHash outputIndex position).mp found
  | referenceInput txHash outputIndex =>
      obtain ⟨sorted, isSorted, found⟩ := Option.bind_eq_some_iff.mp found
      obtain ⟨refs, given, rfl⟩ := Option.map_eq_some_iff.mp isSorted
      exact ⟨refs, given, (refIndex?_eq_some_iff (tx.referenceInputs_valid refs given) txHash
        outputIndex position).mp found⟩
  | withdrawal credentialHash =>
      obtain ⟨sorted, isSorted, found⟩ := Option.bind_eq_some_iff.mp found
      obtain ⟨entries, given, rfl⟩ := Option.map_eq_some_iff.mp isSorted
      rcases index?_withdrawal (tx.withdrawals_valid entries given) credentialHash with
        ⟨absent, -⟩ | ⟨entry, listed, named, atRank⟩
      · rw [absent] at found
        cases found
      · rw [atRank] at found
        exact ⟨entries, given, entry, listed, named, (Option.some.inj found).symm⟩

/-- What is named by a placeholder is found. -/
theorem index?_isSome_of_position (tx : TransactionSets) {placeholder : Placeholder}
    {position : Nat} (names : tx.Position placeholder position) :
    (placeholder.index? tx.sortedSets).isSome := by
  cases placeholder with
  | input txHash outputIndex =>
      exact Option.isSome_of_eq_some
        ((refIndex?_eq_some_iff tx.inputs_valid txHash outputIndex position).mpr names)
  | referenceInput txHash outputIndex =>
      obtain ⟨refs, given, names⟩ := names
      have found := (refIndex?_eq_some_iff (tx.referenceInputs_valid refs given) txHash
        outputIndex position).mpr names
      simp only [Placeholder.index?, sortedSets, Option.mem_def.mp given, Option.map_some,
        Option.bind_some, found, Option.isSome_some]
  | withdrawal credentialHash =>
      obtain ⟨entries, given, entry, listed, named, -⟩ := names
      rcases index?_withdrawal (tx.withdrawals_valid entries given) credentialHash with
        ⟨-, absent⟩ | ⟨first, -, -, atRank⟩
      · exact absurd named (absent entry listed)
      · simp only [Placeholder.index?, sortedSets, Option.mem_def.mp given, Option.map_some,
          Option.bind_some, atRank, Option.isSome_some]

/-- What resolving the placeholders of a value in a transaction means. -/
structure PlaceholdersMeanPositions (tx : TransactionSets) (node : Json JsString) : Prop where
  sameOrder : ∀ a b : InputRef, a.txHash.IsHex → b.txHash.IsHex → a.txHash.length = 64 →
    b.txHash.length = 64 → compareInputs a b = compareOutRef a b
  tooDeep : ∀ ctx, tx.resolveCtx = .ok ctx → MAX_WALK_DEPTH < nesting node →
    ∃ e, resolveIndexPlaceholders node ctx = .error e
  absent : ∀ ctx, tx.resolveCtx = .ok ctx → ∀ placeholder ∈ placeholdersIn node,
    (∀ position, ¬tx.Position placeholder position) →
      ∃ e, resolveIndexPlaceholders node ctx = .error e
  placed : ∀ ctx, tx.resolveCtx = .ok ctx → tx.Resolves node →
    ∃ positions : Placeholder → Nat,
      (∀ placeholder ∈ placeholdersIn node, tx.Position placeholder (positions placeholder)) ∧
        resolveIndexPlaceholders node ctx = .ok (withPositions positions node)
  numbered : ∀ ctx, tx.resolveCtx = .ok ctx → ∀ entries ∈ tx.withdrawals,
    NumbersLikeLedger entries

/-- The value of a resolved node. -/
theorem resolve_eq (tx : TransactionSets) {node : Json JsString} (resolves : tx.Resolves node) :
    ∃ positions : Placeholder → Nat,
      (∀ placeholder ∈ placeholdersIn node, tx.Position placeholder (positions placeholder)) ∧
        resolveIndexPlaceholders node tx.sortedSets =
          .ok (withoutProto (withPositions positions node)) := by
  have found : ∀ placeholder ∈ placeholdersIn node, placeholder.index? tx.sortedSets =
      some ((placeholder.index? tx.sortedSets).getD 0) := by
    intro placeholder member
    obtain ⟨position, names⟩ := resolves.present placeholder member
    obtain ⟨index, isIndex⟩ := Option.isSome_iff_exists.mp (tx.index?_isSome_of_position names)
    rw [isIndex, Option.getD_some]
  refine ⟨_, fun placeholder member => tx.position_of_index? (found placeholder member), ?_⟩
  exact walk_ok 0 node (by rw [Nat.zero_add]; exact resolves.shallow) found

theorem hasProto_of_resolve_eq {node : Json JsString} {positions others : Placeholder → Nat}
    (same : withoutProto (withPositions others node) = withPositions positions node) :
    hasProto node = false := by
  rw [← hasProto_withPositions positions, ← same, hasProto_withoutProto]

/-- Placeholders mean ledger positions where the build is refused, or where each scripted
withdrawal has a hash of its own and the value, if it is resolved, has no key `__proto__`. -/
theorem placeholdersMeanPositions_iff (tx : TransactionSets) (node : Json JsString) :
    tx.PlaceholdersMeanPositions node ↔
      tx.Refused ∨ ((∀ entries ∈ tx.withdrawals, ScriptedApart entries) ∧
        (tx.Resolves node → hasProto node = false)) := by
  rcases tx.resolveCtx_cases with ⟨refused, e, fails⟩ | ⟨notRefused, accepted⟩
  · refine iff_of_true ?_ (.inl refused)
    have never : ∀ ctx, tx.resolveCtx ≠ .ok ctx := by
      intro ctx
      rw [fails]
      nofun
    exact
      { sameOrder := fun a b hex hex' bytes bytes' =>
          (compareOutRef_eq_compareInputs hex hex' bytes bytes').symm
        tooDeep := fun ctx built => absurd built (never ctx)
        absent := fun ctx built => absurd built (never ctx)
        placed := fun ctx built => absurd built (never ctx)
        numbered := fun ctx built => absurd built (never ctx) }
  have placed : ∀ entries ∈ tx.withdrawals, ¬Misplaced entries :=
    fun entries given misplaced => notRefused ⟨entries, given, misplaced⟩
  have library : ∀ entries ∈ tx.withdrawals,
      NumbersLikeLedger entries ↔ ScriptedApart entries := fun entries given =>
    numbersLikeLedger_iff (tx.withdrawals_valid entries given) (tx.withdrawals_nodup entries given)
      (placed entries given)
  constructor
  · intro means
    refine .inr ⟨fun entries given => (library entries given).mp
      (means.numbered _ accepted entries given), fun resolves => ?_⟩
    obtain ⟨positions, -, resolved⟩ := means.placed _ accepted resolves
    obtain ⟨others, -, isResult⟩ := tx.resolve_eq resolves
    rw [isResult] at resolved
    exact hasProto_of_resolve_eq (Except.ok.inj resolved)
  · rintro (refused | ⟨apart, plain⟩)
    · exact absurd refused notRefused
    refine
      { sameOrder := fun a b hex hex' bytes bytes' =>
          (compareOutRef_eq_compareInputs hex hex' bytes bytes').symm
        tooDeep := fun ctx built deep => ?_
        absent := fun ctx built placeholder member missing => ?_
        placed := fun ctx built resolves => ?_
        numbered := fun ctx built entries given => (library entries given).mpr
          (apart entries given) }
    · exact walk_error 0 node (.inl (by rw [Nat.zero_add]; exact deep))
    · rw [accepted] at built
      cases built
      refine walk_error 0 node (.inr ⟨placeholder, member, ?_⟩)
      cases found : placeholder.index? tx.sortedSets with
      | none => rfl
      | some position => exact absurd (tx.position_of_index? found) (missing position)
    · rw [accepted] at built
      cases built
      obtain ⟨positions, named, resolved⟩ := tx.resolve_eq resolves
      refine ⟨positions, named, ?_⟩
      rw [resolved, withoutProto_eq _ ((hasProto_withPositions positions node).trans
        (plain resolves))]

/-! ## Where they do not -/

/-- `a` repeated. -/
def uniformHash (digits : Nat) : JsString := List.replicate digits 97

theorem isHex_uniformHash (digits : Nat) : (uniformHash digits).IsHex := by
  intro unit member
  rw [List.eq_of_mem_replicate member]
  exact ⟨10, by decide⟩

theorem toLowerCase_uniformHash (digits : Nat) :
    (uniformHash digits).toLowerCase = uniformHash digits := by
  rw [uniformHash, JsString.toLowerCase, List.map_replicate]
  rfl

/-- A key withdrawal and, with the same hash, a scripted one. -/
def sharedHash : TransactionSets where
  scriptUtxoRefs := [⟨uniformHash 64, 0⟩]
  forcedUtxos := []
  fundingRefs := []
  referenceInputs := some []
  withdrawals := some [⟨uniformHash 56, false, false⟩, ⟨uniformHash 56, true, true⟩]
  inputs_valid := by
    intro ref listed
    cases List.mem_singleton.mp listed
    exact ⟨isHex_uniformHash 64, List.length_replicate, toLowerCase_uniformHash 64, by decide⟩
  inputs_nodup := List.nodup_singleton _
  referenceInputs_valid := fun refs given ref listed => by
    cases given
    cases listed
  referenceInputs_nodup := fun refs given => by
    cases given
    exact List.nodup_nil
  withdrawals_valid := by
    intro entries given entry listed
    cases given
    rcases List.mem_pair.mp listed with rfl | rfl
    · exact ⟨isHex_uniformHash 56, List.length_replicate⟩
    · exact ⟨isHex_uniformHash 56, List.length_replicate⟩
  withdrawals_nodup := fun entries given => by
    cases given
    decide +kernel

/-- `{ "int": 1, "__proto__": 2 }`. -/
def protoRedeemer : Json JsString :=
  .object [(JsString.ofText "int", .number (.ofInt 1)),
    (JsString.ofText "__proto__", .number (.ofInt 2))]

/-- The shared hash is accepted and the library may number the key withdrawal first; the key
`__proto__` of a redeemer is lost. -/
theorem placeholders_miss : ¬sharedHash.PlaceholdersMeanPositions .null ∧
    ¬sharedHash.PlaceholdersMeanPositions protoRedeemer := by
  have notRefused : ¬sharedHash.Refused := by
    rintro ⟨entries, given, entry, listed, isScripted, first, isFirst, differs⟩
    cases given
    rcases List.mem_pair.mp listed with rfl | rfl
    · cases isScripted
    · rcases List.mem_pair.mp isFirst.listed with rfl | rfl
      · exact absurd (isFirst.least _ listed rfl) (by decide +kernel)
      · exact differs (by decide +kernel)
  have accepted : sharedHash.resolveCtx = .ok sharedHash.sortedSets := by
    rcases sharedHash.resolveCtx_cases with ⟨refused, -⟩ | ⟨-, accepted⟩
    · exact absurd refused notRefused
    · exact accepted
  constructor
  · intro means
    have numbers := means.numbered _ accepted _ rfl
      [⟨uniformHash 56, false, false⟩, ⟨uniformHash 56, true, true⟩]
      ⟨List.Perm.refl _, by decide +kernel⟩ ⟨uniformHash 56, true, true⟩
      (List.mem_cons_of_mem _ (List.mem_singleton_self _)) rfl
    revert numbers
    decide +kernel
  · intro means
    have resolves : sharedHash.Resolves protoRedeemer :=
      ⟨by decide +kernel, fun placeholder member => by
        have none : placeholdersIn protoRedeemer = [] := by decide +kernel
        rw [none] at member
        cases member⟩
    obtain ⟨positions, -, resolved⟩ := means.placed _ accepted resolves
    obtain ⟨others, -, isResult⟩ := sharedHash.resolve_eq resolves
    rw [isResult] at resolved
    have plain := hasProto_of_resolve_eq (Except.ok.inj resolved)
    revert plain
    decide +kernel

end TransactionSets

end Odatano
