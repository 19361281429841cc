import Mathlib.Algebra.Group.Nat.Defs
import Mathlib.Algebra.GroupWithZero.Nat
import Mathlib.Data.List.Basic
import Mathlib.Order.Lattice

/-!
# CBOR items

The concrete syntax of CBOR: an item keeps how its head is written and whether its length is
given.  An item is read back from its bytes, whatever follows them.
-/

/-- Bytes of a buffer. -/
abbrev Bytes := List UInt8

/-! ## Heads -/

instance CborWidth.neZero : NeZero 4 := ⟨by decide⟩

instance CborMajor.neZero : NeZero 8 := ⟨by decide⟩

instance CborShort.neZero : NeZero 24 := ⟨by decide⟩

/-- What a head counts, as it is written: in the first byte, or in 1, 2, 4 or 8 bytes after it. -/
inductive CborArgument
  | short (value : Fin 24)
  | long (width : Fin 4) (bytes : Bytes) (fits : bytes.length = 2 ^ width.val)
deriving DecidableEq

namespace CborArgument

/-- The lower five bits of the first byte. -/
def info : CborArgument → Nat
  | short value => value
  | long width _ _ => 24 + width

/-- The bytes after the first one. -/
def trail : CborArgument → Bytes
  | short _ => []
  | long _ bytes _ => bytes

def value : CborArgument → Nat
  | short value => value
  | long _ bytes _ => bytes.foldl (fun value byte => value * 256 + byte.toNat) 0

theorem info_lt (arg : CborArgument) : arg.info < 28 := by
  cases arg with
  | short value => exact value.isLt.trans (by decide)
  | long width bytes fits => exact Nat.add_lt_add_left width.isLt 24

def read (info : Nat) (bytes : Bytes) : Option (CborArgument × Bytes) :=
  if isShort : info < 24 then some (short ⟨info, isShort⟩, bytes)
  else if isLong : info - 24 < 4 then
    if fits : (bytes.take (2 ^ (info - 24))).length = 2 ^ (info - 24) then
      some (long ⟨info - 24, isLong⟩ (bytes.take (2 ^ (info - 24))) fits,
        bytes.drop (2 ^ (info - 24)))
    else none
  else none

theorem read_info (arg : CborArgument) (rest : Bytes) :
    read arg.info (arg.trail ++ rest) = some (arg, rest) := by
  cases arg with
  | short value => simp [read, info, trail]
  | long width bytes fits =>
      have isLong : ¬24 + width.val < 24 := by omega
      have same : 24 + width.val - 24 = width.val := by omega
      have taken : (bytes ++ rest).take (2 ^ width.val) = bytes := by
        rw [← fits, List.take_left]
      have dropped : (bytes ++ rest).drop (2 ^ width.val) = rest := by
        rw [← fits, List.drop_left]
      simp only [read, info, trail, isLong, dif_neg, not_false_iff, same, width.isLt, taken,
        dropped, fits, dif_pos]

/-- `n` in `count` bytes, the highest first. -/
def bigEndian : Nat → Nat → Bytes
  | 0, _ => []
  | count + 1, n => bigEndian count (n / 256) ++ [UInt8.ofNat n]

@[simp] theorem length_bigEndian (count n : Nat) : (bigEndian count n).length = count := by
  induction count generalizing n with
  | zero => rfl
  | succ count ih => rw [bigEndian, List.length_append, ih, List.length_singleton]

/-- The shortest form of a number. -/
def ofNat (n : Nat) : CborArgument :=
  if isShort : n < 24 then short ⟨n, isShort⟩
  else if n < 2 ^ 8 then long 0 (bigEndian 1 n) (length_bigEndian 1 n)
  else if n < 2 ^ 16 then long 1 (bigEndian 2 n) (length_bigEndian 2 n)
  else if n < 2 ^ 32 then long 2 (bigEndian 4 n) (length_bigEndian 4 n)
  else long 3 (bigEndian 8 n) (length_bigEndian 8 n)

theorem foldl_bigEndian (count n : Nat) :
    (bigEndian count n).foldl (fun value byte => value * 256 + byte.toNat) 0 = n % 256 ^ count := by
  induction count generalizing n with
  | zero => rw [bigEndian, List.foldl_nil, Nat.pow_zero, Nat.mod_one]
  | succ count ih =>
      have last : (UInt8.ofNat n).toNat = n % 256 := UInt8.toNat_ofNat'
      rw [bigEndian, List.foldl_append, ih, List.foldl_cons, List.foldl_nil, last, Nat.pow_succ',
        Nat.mod_mul, Nat.mul_comm, Nat.add_comm]

/-- The shortest form counts the number, up to eight bytes. -/
theorem value_ofNat {n : Nat} (bounded : n < 2 ^ 64) : (ofNat n).value = n := by
  have long {count : Nat} (fits : n < 256 ^ count) :
      (bigEndian count n).foldl (fun value byte => value * 256 + byte.toNat) 0 = n := by
    rw [foldl_bigEndian, Nat.mod_eq_of_lt fits]
  unfold ofNat
  split
  · rfl
  · split
    · rename_i fits
      exact long fits
    · split
      · rename_i fits
        exact long fits
      · split
        · rename_i fits
          exact long fits
        · exact long bounded

theorem eq_of_read {info : Nat} {bytes rest : Bytes} {arg : CborArgument}
    (found : read info bytes = some (arg, rest)) : arg.info = info ∧ bytes = arg.trail ++ rest := by
  unfold read at found
  split at found
  · cases found
    exact ⟨rfl, rfl⟩
  · split at found
    · split at found
      · cases found
        exact ⟨Nat.add_sub_of_le (by omega), (List.take_append_drop _ bytes).symm⟩
      · cases found
    · cases found

end CborArgument

/-- The head of an item; its count is null for an item that ends with a break byte. -/
structure CborHead where
  major : Fin 8
  count : Option CborArgument
deriving DecidableEq

namespace CborHead

/-- The lower five bits of the first byte. -/
def info (head : CborHead) : Nat := (head.count.map CborArgument.info).getD 31

def encode (head : CborHead) : Bytes :=
  UInt8.ofNat (head.major * 32 + head.info) :: (head.count.map CborArgument.trail).getD []

def read : Bytes → Option (CborHead × Bytes)
  | [] => none
  | first :: bytes =>
      have isMajor : first.toNat / 32 < 8 :=
        Nat.div_lt_of_lt_mul (Nat.lt_of_lt_of_le first.toNat_lt (by decide))
      if first.toNat % 32 = 31 then some (⟨⟨first.toNat / 32, isMajor⟩, none⟩, bytes)
      else (CborArgument.read (first.toNat % 32) bytes).map fun (arg, rest) =>
        (⟨⟨first.toNat / 32, isMajor⟩, some arg⟩, rest)

theorem info_lt (head : CborHead) : head.info < 32 := by
  unfold info
  cases head.count with
  | none => decide
  | some arg => exact arg.info_lt.trans (by decide)

/-- The first byte holds the major type and the lower bits. -/
theorem toNat_first (head : CborHead) :
    (UInt8.ofNat (head.major * 32 + head.info)).toNat = head.major * 32 + head.info := by
  have isMajor := head.major.isLt
  have isInfo := head.info_lt
  exact UInt8.toNat_ofNat_of_lt' (by rw [UInt8.size]; omega)

theorem read_encode (head : CborHead) (rest : Bytes) :
    read (head.encode ++ rest) = some (head, rest) := by
  have first := head.toNat_first
  have isInfo := head.info_lt
  have major : (head.major.val * 32 + head.info) / 32 = head.major := by omega
  have info : (head.major.val * 32 + head.info) % 32 = head.info := by omega
  simp only [encode, List.cons_append, read, first, major, info, Fin.eta]
  obtain ⟨majorType, count⟩ := head
  cases count with
  | none => rfl
  | some arg =>
      have other : arg.info ≠ 31 := fun same => absurd arg.info_lt (by omega)
      have read := arg.read_info rest
      simp only [CborHead.info, Option.map_some, Option.getD_some, if_neg other, read]

theorem eq_of_read {bytes rest : Bytes} {head : CborHead}
    (found : read bytes = some (head, rest)) : bytes = head.encode ++ rest := by
  cases bytes with
  | nil => cases found
  | cons first bytes =>
      have whole : UInt8.ofNat (first.toNat / 32 * 32 + first.toNat % 32) = first := by
        rw [Nat.div_add_mod', UInt8.ofNat_toNat]
      simp only [read] at found
      split at found
      · rename_i indefinite
        cases found
        rw [indefinite] at whole
        simp only [encode, info, Option.map_none, Option.getD_none, whole, List.cons_append,
          List.nil_append]
      · obtain ⟨⟨arg, after⟩, readArg, same⟩ := Option.map_eq_some_iff.mp found
        cases same
        obtain ⟨isInfo, trail⟩ := CborArgument.eq_of_read readArg
        simp only [encode, info, Option.map_some, Option.getD_some, isInfo, whole,
          List.cons_append, trail]

end CborHead

/-! ## Items -/

/-- An item with all its bytes: a number, string or simple value, or a node over other items. -/
inductive CborItem
  | leaf (major : Fin 8) (argument : CborArgument) (content : Bytes)
  /-- An array, a map with keys and values in turn, a tag, or the chunks of a string. -/
  | node (head : CborHead) (items : List CborItem)

namespace CborItem

mutual

def encode : CborItem → Bytes
  | leaf major argument content => CborHead.encode ⟨major, some argument⟩ ++ content
  | node head items =>
      head.encode ++ encodeItems items ++ if head.count.isNone then [0xff] else []

def encodeItems : List CborItem → Bytes
  | [] => []
  | item :: items => encode item ++ encodeItems items

end

theorem encodeItems_eq (items : List CborItem) : encodeItems items = items.flatMap encode := by
  induction items with
  | nil => rw [encodeItems, List.flatMap_nil]
  | cons item items ih => rw [encodeItems, ih, List.flatMap_cons]

/-- How many items a node has, null where a break byte tells. -/
def arity (head : CborHead) : Option Nat :=
  head.count.map fun argument =>
    if head.major = 4 then argument.value else if head.major = 5 then 2 * argument.value else 1

def IsLeaf (major : Fin 8) (argument : CborArgument) (content : Bytes) : Prop :=
  (major = 0 ∨ major = 1 ∨ major = 7) ∧ content = [] ∨
    (major = 2 ∨ major = 3) ∧ content.length = argument.value

/-- Arrays, maps and tags have a count; strings, arrays and maps may do without. -/
def IsNode (head : CborHead) (size : Nat) : Prop :=
  match arity head with
  | some count => (head.major = 4 ∨ head.major = 5 ∨ head.major = 6) ∧ size = count
  | none => head.major = 2 ∨ head.major = 3 ∨ head.major = 4 ∨ head.major = 5 ∧ size % 2 = 0

instance (major : Fin 8) (argument : CborArgument) (content : Bytes) :
    Decidable (IsLeaf major argument content) := inferInstanceAs (Decidable (_ ∨ _))

instance (head : CborHead) (size : Nat) : Decidable (IsNode head size) :=
  match counted : arity head with
  | some count =>
      decidable_of_iff ((head.major = 4 ∨ head.major = 5 ∨ head.major = 6) ∧ size = count)
        (by rw [IsNode, counted])
  | none =>
      decidable_of_iff
        (head.major = 2 ∨ head.major = 3 ∨ head.major = 4 ∨ head.major = 5 ∧ size % 2 = 0)
        (by rw [IsNode, counted])

mutual

def WellFormed : CborItem → Prop
  | leaf major argument content => IsLeaf major argument content
  | node head items => IsNode head items.length ∧ AllWellFormed items

def AllWellFormed : List CborItem → Prop
  | [] => True
  | item :: items => WellFormed item ∧ AllWellFormed items

end

mutual

def decideWellFormed : (item : CborItem) → Decidable (WellFormed item)
  | leaf major argument content => inferInstanceAs (Decidable (IsLeaf major argument content))
  | node _ items => @instDecidableAnd _ _ inferInstance (decideAllWellFormed items)

def decideAllWellFormed : (items : List CborItem) → Decidable (AllWellFormed items)
  | [] => .isTrue trivial
  | item :: items => @instDecidableAnd _ _ (decideWellFormed item) (decideAllWellFormed items)

end

instance (item : CborItem) : Decidable item.WellFormed := decideWellFormed item

theorem allWellFormed_iff (items : List CborItem) :
    AllWellFormed items ↔ ∀ item ∈ items, WellFormed item := by
  induction items with
  | nil => simp [AllWellFormed]
  | cons item items ih => simp [AllWellFormed, ih]

mutual

/-- How deep items are nested. -/
def depth : CborItem → Nat
  | leaf _ _ _ => 1
  | node _ items => depthOf items + 1

def depthOf : List CborItem → Nat
  | [] => 0
  | item :: items => max (depth item) (depthOf items)

end

/-! ## Reading -/

section Reading

variable (readItem : Bytes → Option (CborItem × Bytes))

def readItems : Nat → Bytes → Option (List CborItem × Bytes)
  | 0, bytes => some ([], bytes)
  | count + 1, bytes => do
      let (item, bytes) ← readItem bytes
      let (items, bytes) ← readItems count bytes
      return (item :: items, bytes)

/-- The items before a break byte. -/
def readUntilBreak : Nat → Bytes → Option (List CborItem × Bytes)
  | 0, _ => none
  | limit + 1, bytes =>
      if bytes.head? = some 0xff then some ([], bytes.tail)
      else do
        let (item, bytes) ← readItem bytes
        let (items, bytes) ← readUntilBreak limit bytes
        return (item :: items, bytes)

end Reading

/-- An item at the start of some bytes; what a head announces is checked once it is read. -/
def read : Nat → Bytes → Option (CborItem × Bytes)
  | 0, _ => none
  | fuel + 1, bytes => do
      let (head, bytes) ← CborHead.read bytes
      match head.count with
      | some argument =>
          if head.major = 4 ∨ head.major = 5 ∨ head.major = 6 then
            let (items, bytes) ← readItems (read fuel) ((arity head).getD 0) bytes
            return (node head items, bytes)
          else
            let size := if head.major = 2 ∨ head.major = 3 then argument.value else 0
            if size ≤ bytes.length then
              return (leaf head.major argument (bytes.take size), bytes.drop size)
            else none
      | none => do
          let (items, bytes) ← readUntilBreak (read fuel) (bytes.length + 1) bytes
          if IsNode head items.length then return (node head items, bytes) else none

/-- `Cbor.parse`: one item and nothing after it. -/
def parse (bytes : Bytes) : Option CborItem :=
  match read bytes.length bytes with
  | some (item, []) => some item
  | _ => none

/-! ## Reading what was written -/

theorem depth_le_depthOf {items : List CborItem} {item : CborItem} (member : item ∈ items) :
    depth item ≤ depthOf items := by
  induction items with
  | nil => exact absurd member List.not_mem_nil
  | cons first items ih =>
      rw [depthOf]
      rcases List.mem_cons.mp member with rfl | later
      · exact le_max_left _ _
      · exact (ih later).trans (le_max_right _ _)

theorem readItems_encodeItems {readItem : Bytes → Option (CborItem × Bytes)}
    {items : List CborItem}
    (reads : ∀ item ∈ items, ∀ rest, readItem (encode item ++ rest) = some (item, rest))
    (rest : Bytes) : readItems readItem items.length (encodeItems items ++ rest) =
      some (items, rest) := by
  induction items with
  | nil => rfl
  | cons item items ih =>
      have first := reads item (List.mem_cons_self ..) (encodeItems items ++ rest)
      have later := ih fun other member => reads other (List.mem_cons_of_mem _ member)
      simp only [encodeItems, List.append_assoc, List.length_cons, readItems, first, later,
        Option.bind_eq_bind, Option.bind_some, Option.pure_def]

/-- The first byte of an item is no break byte. -/
theorem head?_encode_ne {item : CborItem} (wellFormed : item.WellFormed) (rest : Bytes) :
    (encode item ++ rest).head? ≠ some 0xff := by
  have least (head : CborHead) (small : head.major.val * 32 + head.info < 255) :
      UInt8.ofNat (head.major * 32 + head.info) ≠ 0xff := by
    intro same
    have value := head.toNat_first
    rw [same] at value
    exact absurd value (Nat.ne_of_gt small)
  intro isBreak
  cases item with
  | leaf major argument content =>
      refine least ⟨major, some argument⟩ ?_ (Option.some.inj isBreak)
      have isInfo := argument.info_lt
      have isMajor := major.isLt
      simp only [CborHead.info, Option.map_some, Option.getD_some]
      omega
  | node head items =>
      refine least head ?_ (Option.some.inj isBreak)
      have isInfo := head.info_lt
      have isNode := wellFormed.1
      unfold IsNode at isNode
      split at isNode
      · rcases isNode.1 with is | is | is <;> rw [is] <;> simp <;> omega
      · rcases isNode with is | is | is | ⟨is, -⟩ <;> rw [is] <;> simp <;> omega

theorem readUntilBreak_encodeItems {readItem : Bytes → Option (CborItem × Bytes)}
    {items : List CborItem} (wellFormed : ∀ item ∈ items, item.WellFormed)
    (reads : ∀ item ∈ items, ∀ rest, readItem (encode item ++ rest) = some (item, rest))
    {limit : Nat} (enough : items.length < limit) (rest : Bytes) :
    readUntilBreak readItem limit (encodeItems items ++ 0xff :: rest) = some (items, rest) := by
  induction items generalizing limit with
  | nil =>
      cases limit with
      | zero => exact absurd enough (Nat.not_lt_zero _)
      | succ limit => rfl
  | cons item items ih =>
      cases limit with
      | zero => exact absurd enough (Nat.not_lt_zero _)
      | succ limit =>
          have itemMem : item ∈ item :: items := List.mem_cons_self ..
          have first := reads item itemMem (encodeItems items ++ 0xff :: rest)
          have later := ih (fun other member => wellFormed other (List.mem_cons_of_mem _ member))
            (fun other member => reads other (List.mem_cons_of_mem _ member))
            (Nat.lt_of_succ_lt_succ enough)
          have noBreak := head?_encode_ne (wellFormed item itemMem)
            (encodeItems items ++ 0xff :: rest)
          simp only [encodeItems, List.append_assoc, readUntilBreak, if_neg noBreak, first, later,
            Option.bind_eq_bind, Option.bind_some, Option.pure_def]

/-- Every item takes a byte. -/
theorem length_le_length_encodeItems (items : List CborItem) :
    items.length ≤ (encodeItems items).length := by
  induction items with
  | nil => exact le_refl 0
  | cons item items ih =>
      have positive : 0 < (encode item).length := by
        cases item <;> simp [encode, CborHead.encode]
      rw [encodeItems, List.length_append, List.length_cons]
      omega

theorem read_encode {fuel : Nat} {item : CborItem} (wellFormed : item.WellFormed)
    (enough : item.depth ≤ fuel) (rest : Bytes) :
    read fuel (encode item ++ rest) = some (item, rest) := by
  induction fuel generalizing item rest with
  | zero => cases item <;> exact absurd enough (Nat.not_succ_le_zero _)
  | succ fuel ih =>
      cases item with
      | leaf major argument content =>
          have head := CborHead.read_encode ⟨major, some argument⟩ (content ++ rest)
          have isLeaf : IsLeaf major argument content := wellFormed
          have other : ¬(major = 4 ∨ major = 5 ∨ major = 6) := by
            rcases isLeaf with ⟨is | is | is, -⟩ | ⟨is | is, -⟩ <;> rw [is] <;> decide
          have size : (if major = 2 ∨ major = 3 then argument.value else 0) = content.length := by
            rcases isLeaf with ⟨is | is | is, empty⟩ | ⟨is | is, length⟩ <;> simp [*]
          have fits : content.length ≤ (content ++ rest).length := by
            rw [List.length_append]
            exact Nat.le_add_right _ _
          simp only [encode, List.append_assoc, read, head, Option.bind_eq_bind, Option.bind_some,
            if_neg other, size, if_pos fits, List.take_left, List.drop_left, Option.pure_def]
      | node head items =>
          have isNode := wellFormed.1
          have members := (allWellFormed_iff items).mp wellFormed.2
          have reads : ∀ item ∈ items, ∀ rest, read fuel (encode item ++ rest) =
              some (item, rest) := fun item member rest =>
            ih (members item member)
              ((depth_le_depthOf member).trans (Nat.le_of_succ_le_succ enough)) rest
          obtain ⟨major, count⟩ := head
          cases count with
          | some argument =>
              have first := CborHead.read_encode ⟨major, some argument⟩ (encodeItems items ++ rest)
              have size : (arity ⟨major, some argument⟩).getD 0 = items.length :=
                isNode.2.symm
              have later := readItems_encodeItems reads rest
              simp only [encode, List.append_assoc, Option.isNone_some, Bool.false_eq_true,
                if_false, List.nil_append, read, first, Option.bind_eq_bind, Option.bind_some,
                if_pos isNode.1, size, later, Option.pure_def]
          | none =>
              have first := CborHead.read_encode ⟨major, none⟩ (encodeItems items ++ 0xff :: rest)
              have limit : items.length < (encodeItems items ++ 0xff :: rest).length + 1 := by
                have least := length_le_length_encodeItems items
                rw [List.length_append]
                omega
              have later := readUntilBreak_encodeItems members reads limit rest
              simp only [encode, List.append_assoc, Option.isNone_none, if_true,
                List.singleton_append, read, first, Option.bind_eq_bind, Option.bind_some, later,
                if_pos isNode, Option.pure_def]

mutual

theorem depth_le_length : (item : CborItem) → depth item ≤ (encode item).length
  | leaf _ _ _ => by simp [depth, encode, CborHead.encode]
  | node head items => by
      have below := depthOf_le_length items
      simp only [depth, encode, CborHead.encode, List.length_append, List.length_cons]
      omega

theorem depthOf_le_length : (items : List CborItem) → depthOf items ≤ (encodeItems items).length
  | [] => le_refl 0
  | item :: items => by
      have first := depth_le_length item
      have later := depthOf_le_length items
      simp only [depthOf, encodeItems, List.length_append]
      omega

end

/-- An item is read back from its bytes. -/
@[simp] theorem parse_encode {item : CborItem} (wellFormed : item.WellFormed) :
    parse (encode item) = some item := by
  have back := read_encode wellFormed item.depth_le_length []
  rw [List.append_nil] at back
  rw [parse, back]

/-- No item begins another one. -/
theorem eq_of_encode_begins {first second : CborItem} (isFirst : first.WellFormed)
    (isSecond : second.WellFormed) (begins : encode first <+: encode second) : first = second := by
  obtain ⟨rest, whole⟩ := begins
  have back := read_encode isSecond (le_max_right first.depth second.depth) []
  rw [List.append_nil, ← whole,
    read_encode isFirst (le_max_left first.depth second.depth)] at back
  exact congrArg Prod.fst (Option.some.inj back)

/-! ## What is read is well formed -/

theorem eq_of_readItems {readItem : Bytes → Option (CborItem × Bytes)}
    (reads : ∀ bytes item rest, readItem bytes = some (item, rest) →
      item.WellFormed ∧ bytes = encode item ++ rest)
    {count : Nat} {bytes rest : Bytes} {items : List CborItem}
    (found : readItems readItem count bytes = some (items, rest)) :
    items.length = count ∧ AllWellFormed items ∧ bytes = encodeItems items ++ rest := by
  induction count generalizing bytes items with
  | zero =>
      cases found
      exact ⟨rfl, trivial, rfl⟩
  | succ count ih =>
      simp only [readItems, Option.bind_eq_bind, Option.bind_eq_some_iff] at found
      obtain ⟨⟨item, after⟩, first, ⟨later, last⟩, others, same⟩ := found
      cases same
      obtain ⟨isItem, split⟩ := reads bytes item after first
      obtain ⟨length, areItems, rest⟩ := ih others
      refine ⟨congrArg Nat.succ length, ⟨isItem, areItems⟩, ?_⟩
      dsimp only at rest ⊢
      rw [split, rest, encodeItems, List.append_assoc]

theorem eq_of_readUntilBreak {readItem : Bytes → Option (CborItem × Bytes)}
    (reads : ∀ bytes item rest, readItem bytes = some (item, rest) →
      item.WellFormed ∧ bytes = encode item ++ rest)
    {limit : Nat} {bytes rest : Bytes} {items : List CborItem}
    (found : readUntilBreak readItem limit bytes = some (items, rest)) :
    AllWellFormed items ∧ bytes = encodeItems items ++ 0xff :: rest := by
  induction limit generalizing bytes items with
  | zero => cases found
  | succ limit ih =>
      unfold readUntilBreak at found
      split at found
      · rename_i isBreak
        cases found
        exact ⟨trivial, (List.eq_cons_of_mem_head? isBreak)⟩
      · simp only [Option.bind_eq_bind, Option.bind_eq_some_iff] at found
        obtain ⟨⟨item, after⟩, first, ⟨later, last⟩, others, same⟩ := found
        cases same
        obtain ⟨isItem, split⟩ := reads bytes item after first
        obtain ⟨areItems, rest⟩ := ih others
        refine ⟨⟨isItem, areItems⟩, ?_⟩
        dsimp only at rest ⊢
        rw [split, rest, encodeItems, List.append_assoc]

theorem eq_of_read {fuel : Nat} {bytes rest : Bytes} {item : CborItem}
    (found : read fuel bytes = some (item, rest)) :
    item.WellFormed ∧ bytes = encode item ++ rest := by
  induction fuel generalizing bytes item rest with
  | zero => cases found
  | succ fuel ih =>
      simp only [read, Option.bind_eq_bind, Option.bind_eq_some_iff] at found
      obtain ⟨⟨⟨major, count⟩, after⟩, headRead, found⟩ := found
      have start := CborHead.eq_of_read headRead
      have reads : ∀ bytes item rest, read fuel bytes = some (item, rest) →
          item.WellFormed ∧ bytes = encode item ++ rest := fun _ _ _ => ih
      dsimp only at found start
      split at found
      · rename_i argument
        split at found
        · rename_i isMajor
          simp only [Option.bind_eq_some_iff] at found
          obtain ⟨⟨items, last⟩, later, same⟩ := found
          cases same
          obtain ⟨length, areItems, split⟩ := eq_of_readItems reads later
          dsimp only at split ⊢
          refine ⟨⟨⟨isMajor, length⟩, areItems⟩, ?_⟩
          rw [start, split, encode]
          simp
        · rename_i isMajor
          split at found
          · rename_i isString
            split at found
            · rename_i fits
              cases found
              refine ⟨Or.inr ⟨isString, List.length_take_of_le fits⟩, ?_⟩
              rw [start, encode, List.append_assoc, List.take_append_drop]
            · cases found
          · rename_i noString
            cases found
            refine ⟨Or.inl ⟨?_, List.take_zero⟩, ?_⟩
            · have others : ∀ major : Fin 8, ¬(major = 4 ∨ major = 5 ∨ major = 6) →
                  ¬(major = 2 ∨ major = 3) → major = 0 ∨ major = 1 ∨ major = 7 := by decide
              exact others major isMajor noString
            · rw [start, encode, List.append_assoc, List.take_append_drop]
      · simp only [Option.bind_eq_some_iff] at found
        obtain ⟨⟨items, last⟩, later, same⟩ := found
        split at same
        · rename_i isNode
          cases same
          obtain ⟨areItems, split⟩ := eq_of_readUntilBreak reads later
          dsimp only at split ⊢
          refine ⟨⟨isNode, areItems⟩, ?_⟩
          rw [start, split, encode]
          simp
        · cases same

theorem wellFormed_of_parse {bytes : Bytes} {item : CborItem} (found : parse bytes = some item) :
    item.WellFormed ∧ encode item = bytes := by
  unfold parse at found
  split at found
  · rename_i back
    cases found
    obtain ⟨wellFormed, whole⟩ := eq_of_read back
    rw [List.append_nil] at whole
    exact ⟨wellFormed, whole.symm⟩
  · cases found

end CborItem
