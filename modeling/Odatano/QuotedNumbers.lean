import Odatano.LosslessJson

/-!
# Quoted numbers

What a JSON reader makes of tokens of which some numbers became strings, and where the grammar
lets a number stand.
-/

namespace JsonText

variable (quotes : JsString → Bool)

/-- A number with the property becomes the string of its characters. -/
def Token.quoting : Token → Token
  | .number raw => if quotes raw = true then .string raw else .number raw
  | token => token

namespace Tree

mutual

/-- The tree with such numbers as strings. -/
def quoting : Tree → Tree
  | null => null
  | bool value => bool value
  | string value => string value
  | number raw => if quotes raw = true then string raw else number raw
  | array items => array (quotingItems items)
  | object members => object (quotingMembers members)

def quotingItems : List Tree → List Tree
  | [] => []
  | item :: items => quoting item :: quotingItems items

def quotingMembers : List (JsString × Tree) → List (JsString × Tree)
  | [] => []
  | (key, member) :: members => (key, quoting member) :: quotingMembers members

end

mutual

/-- The numbers of a tree, in the order of the text. -/
def numbers : Tree → List JsString
  | number raw => [raw]
  | array items => numbersItems items
  | object members => numbersMembers members
  | _ => []

def numbersItems : List Tree → List JsString
  | [] => []
  | item :: items => numbers item ++ numbersItems items

def numbersMembers : List (JsString × Tree) → List JsString
  | [] => []
  | (_, member) :: members => numbers member ++ numbersMembers members

end

mutual

/-- No number with the property is left. -/
theorem numbers_quoting (tree : Tree) :
    ∀ raw ∈ (tree.quoting quotes).numbers, quotes raw = false := by
  intro left member
  cases tree with
  | number raw =>
      rw [quoting] at member
      split at member
      · simp [numbers] at member
      · rename_i unquoted
        simp only [numbers, List.mem_singleton] at member
        exact member ▸ Bool.eq_false_iff.mpr unquoted
  | array items =>
      rw [quoting, numbers] at member
      exact numbersItems_quoting items left member
  | object members =>
      rw [quoting, numbers] at member
      exact numbersMembers_quoting members left member
  | _ => simp [quoting, numbers] at member

theorem numbersItems_quoting (items : List Tree) :
    ∀ raw ∈ numbersItems (quotingItems quotes items), quotes raw = false := by
  intro left member
  cases items with
  | nil => simp [quotingItems, numbersItems] at member
  | cons item items =>
      rw [quotingItems, numbersItems] at member
      rcases List.mem_append.mp member with first | later
      · exact numbers_quoting item left first
      · exact numbersItems_quoting items left later

theorem numbersMembers_quoting (members : List (JsString × Tree)) :
    ∀ raw ∈ numbersMembers (quotingMembers quotes members), quotes raw = false := by
  intro left member
  cases members with
  | nil => simp [quotingMembers, numbersMembers] at member
  | cons first members =>
      obtain ⟨key, value⟩ := first
      rw [quotingMembers, numbersMembers] at member
      rcases List.mem_append.mp member with first | later
      · exact numbers_quoting value left first
      · exact numbersMembers_quoting members left later

end

end Tree

/-! ## Reading -/

/-- What `read` reads, it reads from the quoted tokens with those numbers quoted. -/
def ReadsQuoted (read : List Token → Option (Tree × List Token)) : Prop :=
  ∀ tokens tree rest, read tokens = some (tree, rest) →
    read (tokens.map (Token.quoting quotes)) =
      some (tree.quoting quotes, rest.map (Token.quoting quotes))

variable {quotes} {read : List Token → Option (Tree × List Token)}

theorem readItems_quoted (reads : ReadsQuoted quotes read) {fuel : Nat} {tokens rest : List Token}
    {items : List Tree} (found : readItems read fuel tokens = some (items, rest)) :
    readItems read fuel (tokens.map (Token.quoting quotes)) =
      some (Tree.quotingItems quotes items, rest.map (Token.quoting quotes)) := by
  induction fuel generalizing tokens items with
  | zero => cases found
  | succ fuel ih =>
      rw [readItems] at found ⊢
      obtain ⟨⟨item, after⟩, isItem, isRest⟩ := Option.bind_eq_some_iff.mp found
      rw [reads tokens item after isItem]
      dsimp only at isRest
      split at isRest
      · obtain ⟨⟨others, last⟩, isOthers, same⟩ := Option.bind_eq_some_iff.mp isRest
        cases same
        simp [Token.quoting, ih isOthers, Tree.quotingItems]
      · cases isRest
        simp [Token.quoting, Tree.quotingItems]
      · cases isRest

theorem readMembers_quoted (reads : ReadsQuoted quotes read) {fuel : Nat}
    {tokens rest : List Token} {members : List (JsString × Tree)}
    (found : readMembers read fuel tokens = some (members, rest)) :
    readMembers read fuel (tokens.map (Token.quoting quotes)) =
      some (Tree.quotingMembers quotes members, rest.map (Token.quoting quotes)) := by
  fun_induction readMembers read fuel tokens generalizing members with
  | case1 => cases found
  | case2 fuel key tokens ih =>
      obtain ⟨⟨value, after⟩, isValue, isRest⟩ := Option.bind_eq_some_iff.mp found
      have isValue' := reads tokens value after isValue
      simp only [List.map_cons, Token.quoting, readMembers, isValue']
      dsimp only at isRest
      split at isRest
      · obtain ⟨⟨others, last⟩, isOthers, same⟩ := Option.bind_eq_some_iff.mp isRest
        cases same
        simp [Token.quoting, ih _ isOthers, Tree.quotingMembers]
      · cases isRest
        simp [Token.quoting, Tree.quotingMembers]
      · cases isRest
  | case3 => cases found

/-- Quoting makes no other token out of a number than a string. -/
theorem eq_of_quoting {token punctuation : Token} (same : token.quoting quotes = punctuation)
    (noString : ∀ value, punctuation ≠ .string value) : token = punctuation := by
  cases token with
  | number raw =>
      rw [Token.quoting] at same
      split at same
      · exact absurd same.symm (noString raw)
      · exact same
  | _ => exact same

theorem readValue_quoted (fuel : Nat) : ReadsQuoted quotes (readValue fuel) := by
  induction fuel with
  | zero =>
      intro tokens tree rest found
      cases found
  | succ fuel ih =>
      intro tokens tree rest found
      unfold readValue at found
      split at found
      · cases found
        rfl
      · cases found
        rfl
      · cases found
        rfl
      · rename_i raw rest
        cases found
        rw [List.map_cons, Token.quoting, Tree.quoting]
        split <;> rfl
      · cases found
        rfl
      · rename_i others noEnd
        obtain ⟨⟨items, after⟩, isItems, same⟩ := Option.map_eq_some_iff.mp found
        cases same
        rw [List.map_cons, Token.quoting, readValue, readItems_quoted ih isItems, Option.map_some,
          Tree.quoting]
        · intro after begins
          obtain ⟨token, others, rfl, isEnd, -⟩ := List.map_eq_cons_iff.mp begins
          rw [eq_of_quoting isEnd fun _ => Token.noConfusion] at noEnd
          exact noEnd others rfl
        · exact fun _ => Token.noConfusion
      · cases found
        rfl
      · rename_i others noEnd
        obtain ⟨⟨members, after⟩, isMembers, same⟩ := Option.map_eq_some_iff.mp found
        cases same
        rw [List.map_cons, Token.quoting, readValue, readMembers_quoted ih isMembers,
          Option.map_some, Tree.quoting]
        · intro after begins
          obtain ⟨token, others, rfl, isEnd, -⟩ := List.map_eq_cons_iff.mp begins
          rw [eq_of_quoting isEnd fun _ => Token.noConfusion] at noEnd
          exact noEnd others rfl
        · exact fun _ => Token.noConfusion
      · cases found

/-! ## Where numbers stand -/

/-- The tokens that a number follows. -/
def Token.separates : Token → Bool
  | .beginArray => true
  | .colon => true
  | .comma => true
  | _ => false

/-- Every number directly follows such a token, the first one where it is allowed to stand. -/
def numbersPlaced : Bool → List Token → Prop
  | _, [] => True
  | allowed, token :: tokens =>
      (∀ raw, token = .number raw → allowed = true) ∧ numbersPlaced token.separates tokens

theorem numbersPlaced.weaken {allowed : Bool} {tokens : List Token}
    (placed : numbersPlaced allowed tokens) : numbersPlaced true tokens := by
  cases tokens with
  | nil => trivial
  | cons token tokens => exact ⟨fun _ _ => rfl, placed.2⟩

/-- What stands before a rest that begins no number, numbers stand rightly in it. -/
def PlacesNumbers (read : List Token → Option (Tree × List Token)) : Prop :=
  ∀ tokens tree rest, read tokens = some (tree, rest) → numbersPlaced false rest →
    numbersPlaced true tokens

theorem readItems_places (places : PlacesNumbers read) {fuel : Nat} {tokens rest : List Token}
    {items : List Tree} (found : readItems read fuel tokens = some (items, rest))
    (placed : numbersPlaced false rest) : numbersPlaced true tokens := by
  induction fuel generalizing tokens items with
  | zero => cases found
  | succ fuel ih =>
      rw [readItems] at found
      obtain ⟨⟨item, after⟩, isItem, isRest⟩ := Option.bind_eq_some_iff.mp found
      refine places tokens item after isItem ?_
      dsimp only at isRest
      split at isRest
      · obtain ⟨⟨others, last⟩, isOthers, same⟩ := Option.bind_eq_some_iff.mp isRest
        cases same
        exact ⟨fun _ => Token.noConfusion, ih isOthers⟩
      · cases isRest
        exact ⟨fun _ => Token.noConfusion, placed⟩
      · cases isRest

theorem readMembers_places (places : PlacesNumbers read) {fuel : Nat} {tokens rest : List Token}
    {members : List (JsString × Tree)}
    (found : readMembers read fuel tokens = some (members, rest))
    (placed : numbersPlaced false rest) : numbersPlaced false tokens := by
  fun_induction readMembers read fuel tokens generalizing members with
  | case1 => cases found
  | case2 fuel key tokens ih =>
      obtain ⟨⟨value, after⟩, isValue, isRest⟩ := Option.bind_eq_some_iff.mp found
      refine ⟨fun _ => Token.noConfusion, fun _ => Token.noConfusion, ?_⟩
      refine places tokens value after isValue ?_
      dsimp only at isRest
      split at isRest
      · obtain ⟨⟨others, last⟩, isOthers, same⟩ := Option.bind_eq_some_iff.mp isRest
        cases same
        exact ⟨fun _ => Token.noConfusion, (ih _ isOthers).weaken⟩
      · cases isRest
        exact ⟨fun _ => Token.noConfusion, placed⟩
      · cases isRest
  | case3 => cases found

/-- In the tokens of a value, every number follows a separator or is the value. -/
theorem readValue_places (fuel : Nat) : PlacesNumbers (readValue fuel) := by
  induction fuel with
  | zero =>
      intro tokens tree rest found
      cases found
  | succ fuel ih =>
      intro tokens tree rest found placed
      unfold readValue at found
      split at found
      · cases found
        exact ⟨fun _ _ => rfl, placed⟩
      · cases found
        exact ⟨fun _ _ => rfl, placed⟩
      · cases found
        exact ⟨fun _ _ => rfl, placed⟩
      · cases found
        exact ⟨fun _ _ => rfl, placed⟩
      · cases found
        exact ⟨fun _ _ => rfl, fun _ => Token.noConfusion, placed⟩
      · obtain ⟨⟨items, after⟩, isItems, same⟩ := Option.map_eq_some_iff.mp found
        cases same
        exact ⟨fun _ _ => rfl, readItems_places ih isItems placed⟩
      · cases found
        exact ⟨fun _ _ => rfl, fun _ => Token.noConfusion, placed⟩
      · obtain ⟨⟨members, after⟩, isMembers, same⟩ := Option.map_eq_some_iff.mp found
        cases same
        exact ⟨fun _ _ => rfl, readMembers_places ih isMembers placed⟩
      · cases found

end JsonText
