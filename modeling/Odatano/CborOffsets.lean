import Odatano.CallerDatums

/-!
# Offsets of parsed items

Where the items of a node, the entries of a map and the content of a tag stand among the bytes.
-/

namespace CborItem

@[simp] theorem encodeItems_append (first second : List CborItem) :
    encodeItems (first ++ second) = encodeItems first ++ encodeItems second := by
  rw [encodeItems_eq, encodeItems_eq, encodeItems_eq, List.flatMap_append]

theorem allWellFormed_append {first second : List CborItem} :
    AllWellFormed (first ++ second) ↔ AllWellFormed first ∧ AllWellFormed second := by
  simp only [allWellFormed_iff, List.mem_append, or_imp, forall_and]

/-! ## Pairs -/

section Pairs

variable {α β : Type}

theorem pairs_append {first : List α} (even : first.length % 2 = 0) (second : List α) :
    pairs (first ++ second) = pairs first ++ pairs second := by
  induction first using pairs.induct with
  | case1 k v items ih =>
      rw [List.cons_append, List.cons_append, pairs, pairs, List.cons_append, ih]
      simp only [List.length_cons] at even
      omega
  | case2 items short =>
      cases items with
      | nil => rfl
      | cons k items =>
          cases items with
          | nil => exact absurd even (by simp)
          | cons v items => exact absurd rfl (short k v items)

theorem pairs_map (f : α → β) (items : List α) :
    pairs (items.map f) = (pairs items).map fun pair => (f pair.1, f pair.2) := by
  induction items using pairs.induct with
  | case1 k v items ih => rw [List.map_cons, List.map_cons, pairs, pairs, List.map_cons, ih]
  | case2 items short =>
      cases items with
      | nil => rfl
      | cons k items =>
          cases items with
          | nil => rfl
          | cons v items => exact absurd rfl (short k v items)

end Pairs

namespace Located

theorem map_item_listFrom (start : Nat) (items : List CborItem) :
    (listFrom start items).map item = items := by
  induction items generalizing start with
  | nil => rfl
  | cons first items ih => rw [listFrom, List.map_cons, ih]

theorem listFrom_append (start : Nat) (first second : List CborItem) :
    listFrom start (first ++ second) =
      listFrom start first ++ listFrom (start + (encodeItems first).length) second := by
  induction first generalizing start with
  | nil => rfl
  | cons item first ih =>
      rw [List.cons_append, listFrom, listFrom, ih, List.cons_append, encodeItems,
        List.length_append, Nat.add_assoc]

/-- An item stands where those before it end. -/
theorem getElem?_listFrom {start index : Nat} {items : List CborItem} {item : CborItem}
    (found : items[index]? = some item) :
    (listFrom start items)[index]? =
      some ⟨item, start + (encodeItems (items.take index)).length⟩ := by
  induction items generalizing start index with
  | nil => cases found
  | cons first items ih =>
      cases index with
      | zero =>
          cases found
          rfl
      | succ index =>
          rw [listFrom, List.getElem?_cons_succ, List.take_succ_cons, encodeItems,
            List.length_append, ← Nat.add_assoc]
          exact ih found

/-- The entry of a map with a key, where no earlier key is the same. -/
theorem entryOf_node {head : CborHead} {before after : List CborItem} {k v : CborItem}
    {key start : Nat} (even : before.length % 2 = 0) (isKey : k.isUInt key = true)
    (others : ∀ pair ∈ pairs before, pair.1.isUInt key = false) :
    entryOf ⟨node head (before ++ k :: v :: after), start⟩ key =
      some (⟨k, start + head.encode.length + (encodeItems before).length⟩,
        ⟨v, start + head.encode.length + (encodeItems before).length + k.encode.length⟩) := by
  have earlier : (pairs (listFrom (start + head.encode.length) before)).find?
      (fun entry => entry.1.item.isUInt key) = none := by
    rw [List.find?_eq_none]
    intro entry member
    have keys := List.mem_map_of_mem (f := fun pair : Located × Located =>
      (pair.1.item, pair.2.item)) member
    rw [← pairs_map, map_item_listFrom] at keys
    rw [others _ keys]
    exact Bool.false_ne_true
  have located : (listFrom (start + head.encode.length) before).length % 2 = 0 := by
    rw [← even, ← List.length_map (f := item), map_item_listFrom]
  rw [entryOf, children]
  simp only [listFrom_append, pairs_append located, List.find?_append, earlier, Option.none_or,
    listFrom, pairs, List.find?_cons, isKey]

/-- The value of a key among an item's pairs. -/
def valueOf (key : Nat) : CborItem → Option CborItem
  | leaf _ _ _ => none
  | node _ items =>
      ((pairs items).find? fun pair => pair.1.isUInt key).map Prod.snd

theorem stop_untag {item : CborItem} (wellFormed : item.WellFormed) (start : Nat) :
    (untag start item).stop = start + item.encode.length := by
  induction start, item using untag.induct with
  | case1 start head item isTag ih =>
      rw [untag, if_pos isTag, ih ((allWellFormed_iff _).mp wellFormed.2 item
        (List.mem_singleton_self item))]
      have counted : head.count.isNone = false := by
        cases none : head.count with
        | some argument => rfl
        | none =>
            have isNode := wellFormed.1
            simp only [IsNode, arity, none, Option.map_none, isTag] at isNode
            have other : ¬((6 : Fin 8) = 2 ∨ (6 : Fin 8) = 3 ∨ (6 : Fin 8) = 4) := by decide
            have apart : (6 : Fin 8) ≠ 5 := by decide
            exact absurd isNode (by tauto)
      simp [encode, encodeItems, counted, Nat.add_assoc]
  | case2 start head item other => rw [untag, if_neg other, stop]
  | case3 start item other => rw [untag, stop]; exact other

/-- An item ends where its content ends. -/
theorem endOf_eq_stop {located : Located} (wellFormed : located.item.WellFormed) :
    located.endOf = located.stop := stop_untag wellFormed located.start

end Located

end CborItem

namespace Odatano

open CborItem DatumPackages

theorem subarray_middle (before middle after : Bytes) :
    subarray (before ++ middle ++ after) before.length (before.length + middle.length) = middle := by
  rw [subarray, ← List.length_append, List.take_left, List.drop_left]

/-- Replacing bytes within a part leaves what stands around the part. -/
theorem splice_middle {before middle after replacement : Bytes} {offset size : Nat}
    (fits : offset + size ≤ middle.length) :
    (before ++ middle ++ after).take (before.length + offset) ++ replacement ++
        (before ++ middle ++ after).drop (before.length + offset + size) =
      before ++ (middle.take offset ++ replacement ++ middle.drop (offset + size)) ++ after := by
  rw [List.append_assoc before middle, List.take_length_add_append, Nat.add_assoc,
    List.drop_length_add_append, List.take_append_of_le_length (by omega),
    List.drop_append_of_le_length fits]
  simp only [List.append_assoc]

theorem valueBytes_find? {items : List CborItem} (wellFormed : AllWellFormed items) (key : Nat)
    (before after : Bytes) :
    ((pairs (Located.listFrom before.length items)).find? fun entry =>
        entry.1.item.isUInt key).map (valueBytes (before ++ encodeItems items ++ after)) =
      ((pairs items).find? fun pair => pair.1.isUInt key).map fun pair => pair.2.encode := by
  induction items using pairs.induct generalizing before with
  | case1 k v items ih =>
      have bytes : before ++ encodeItems (k :: v :: items) ++ after =
          before ++ k.encode ++ v.encode ++ (encodeItems items ++ after) := by
        simp only [encodeItems, List.append_assoc]
      simp only [Located.listFrom, pairs, List.find?_cons]
      cases isKey : k.isUInt key with
      | true =>
          have stop : (Located.mk v (before.length + k.encode.length)).endOf =
              before.length + k.encode.length + v.encode.length :=
            Located.endOf_eq_stop wellFormed.2.1
          have middle := subarray_middle (before ++ k.encode) v.encode (encodeItems items ++ after)
          rw [List.length_append] at middle
          simp only [Option.map_some, valueBytes, stop, bytes, Located.stop, middle]
      | false =>
          have later := ih wellFormed.2.2 (before ++ k.encode ++ v.encode)
          rw [List.append_assoc _ _ after, ← bytes, List.length_append, List.length_append] at later
          exact later
  | case2 items short =>
      cases items with
      | nil => rfl
      | cons k items =>
          cases items with
          | nil => rfl
          | cons v items => exact absurd rfl (short k v items)

/-- The bytes of a map entry's value are those of the value. -/
theorem valueBytes_entryOf {map : CborItem} (wellFormed : map.WellFormed) (key : Nat)
    (before after : Bytes) :
    ((Located.mk map before.length).entryOf key).map
        (valueBytes (before ++ map.encode ++ after)) =
      (Located.valueOf key map).map encode := by
  cases map with
  | leaf major argument content => rfl
  | node head items =>
      have bytes : before ++ (node head items).encode ++ after =
          before ++ head.encode ++ encodeItems items ++
            ((if head.count.isNone then [0xff] else []) ++ after) := by
        simp only [encode, List.append_assoc]
      have found := valueBytes_find? wellFormed.2 key (before ++ head.encode)
        ((if head.count.isNone then [0xff] else []) ++ after)
      rw [← bytes, List.length_append] at found
      rw [Located.valueOf, Option.map_map]
      exact found

/-- The first byte of a head tells how long the head is. -/
theorem headLength_encode (head : CborHead) (rest : Bytes) :
    headLength ((head.encode ++ rest).getD 0 0) = head.encode.length := by
  have first := head.toNat_first
  have isInfo := head.info_lt
  have info : (head.major.val * 32 + head.info) % 32 = head.info := by omega
  obtain ⟨major, count⟩ := head
  simp only [CborHead.encode, List.cons_append, List.getD_cons_zero, headLength, first, info,
    List.length_cons]
  cases count with
  | none => rfl
  | some argument =>
      simp only [CborHead.info, Option.map_some, Option.getD_some]
      cases argument with
      | short value => simp [CborArgument.trail, CborArgument.info]
      | long width bytes fits =>
          have widths : ∀ width : Fin 4, (if 24 + width.val < 24 ∨ 24 + width.val = 31 then 1
              else if 24 + width.val = 24 then 2 else if 24 + width.val = 25 then 3
              else if 24 + width.val = 26 then 5 else 9) = 2 ^ width.val + 1 := by decide
          simp only [CborArgument.trail, CborArgument.info]
          exact (widths width).trans (congrArg Nat.succ fits.symm)

end Odatano
