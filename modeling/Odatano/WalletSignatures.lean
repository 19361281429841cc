import Odatano.DatumGrowth

/-!
# Wallet signatures

`srv/utils/signing-helper.ts`: the signatures of a wallet are put into the unsigned transaction,
and nothing else of it changes.
-/

namespace CborItem

/-- The items of an array. -/
def elements? : CborItem → Option (List CborItem)
  | node head items => if head.major = 4 then some items else none
  | leaf _ _ _ => none

/-- The entries of a map. -/
def entries? : CborItem → Option (List (CborItem × CborItem))
  | node head items => if head.major = 5 then some (pairs items) else none
  | leaf _ _ _ => none

/-- Whether a break byte ends the node. -/
def isIndefinite : CborItem → Bool
  | node head _ => head.count.isNone
  | leaf _ _ _ => false

/-- The content of a tag, any other item itself. -/
def tagData : CborItem → CborItem
  | node head [item] => if head.major = 6 then item else node head [item]
  | item => item

/-- A new node: its head in the shortest form, or none. -/
def build (major : Fin 8) (indefinite : Bool) (size : Nat) (items : List CborItem) : CborItem :=
  node ⟨major, if indefinite = true then none else some (.ofNat size)⟩ items

/-- A new map over entries. -/
def buildMap (indefinite : Bool) (entries : List (CborItem × CborItem)) : CborItem :=
  build 5 indefinite entries.length (entries.flatMap fun entry => [entry.1, entry.2])

/-- A new array over items. -/
def buildArray (indefinite : Bool) (items : List CborItem) : CborItem :=
  build 4 indefinite items.length items

theorem pairs_flatMap (entries : List (CborItem × CborItem)) :
    pairs (entries.flatMap fun entry => [entry.1, entry.2]) = entries := by
  induction entries with
  | nil => rfl
  | cons entry entries ih =>
      rw [List.flatMap_cons]
      exact congrArg (entry :: ·) ih

theorem length_flatMap_entries (entries : List (CborItem × CborItem)) :
    (entries.flatMap fun entry => [entry.1, entry.2]).length = 2 * entries.length := by
  induction entries with
  | nil => rfl
  | cons entry entries ih =>
      rw [List.flatMap_cons, List.length_append, ih, List.length_cons]
      simp only [List.length_cons, List.length_nil]
      omega

/-- There are no more entries than items. -/
theorem length_pairs_le {α : Type} (items : List α) : (pairs items).length ≤ items.length := by
  induction items using pairs.induct with
  | case1 k v items ih =>
      rw [pairs]
      simp only [List.length_cons]
      omega
  | case2 items short =>
      cases items with
      | nil => exact Nat.le_refl 0
      | cons k items =>
          cases items with
          | nil => exact Nat.zero_le _
          | cons v items => exact absurd rfl (short k v items)

@[simp] theorem entries?_buildMap (indefinite : Bool) (entries : List (CborItem × CborItem)) :
    (buildMap indefinite entries).entries? = some entries := by
  rw [buildMap, build, entries?, if_pos rfl, pairs_flatMap]

@[simp] theorem elements?_buildArray (indefinite : Bool) (items : List CborItem) :
    (buildArray indefinite items).elements? = some items := by
  rw [buildArray, build, elements?, if_pos rfl]

theorem wellFormed_buildMap {indefinite : Bool} {entries : List (CborItem × CborItem)}
    (few : entries.length < 2 ^ 64)
    (wellFormed : ∀ entry ∈ entries, entry.1.WellFormed ∧ entry.2.WellFormed) :
    (buildMap indefinite entries).WellFormed := by
  refine ⟨?_, (allWellFormed_iff _).mpr ?_⟩
  · rw [length_flatMap_entries]
    cases indefinite with
    | true => exact .inr (.inr (.inr ⟨rfl, Nat.mul_mod_right 2 _⟩))
    | false => exact ⟨.inr (.inl rfl), congrArg (2 * ·) (CborArgument.value_ofNat few).symm⟩
  · intro item member
    obtain ⟨entry, isEntry, isPart⟩ := List.mem_flatMap.mp member
    rcases List.mem_cons.mp isPart with rfl | isPart
    · exact (wellFormed entry isEntry).1
    · exact List.mem_singleton.mp isPart ▸ (wellFormed entry isEntry).2

theorem wellFormed_buildArray {indefinite : Bool} {items : List CborItem}
    (few : items.length < 2 ^ 64) (wellFormed : AllWellFormed items) :
    (buildArray indefinite items).WellFormed := by
  refine ⟨?_, wellFormed⟩
  cases indefinite with
  | true => exact .inr (.inr (.inl rfl))
  | false => exact ⟨.inl rfl, (CborArgument.value_ofNat few).symm⟩

/-- The parts of a well-formed node are. -/
theorem wellFormed_of_elements {item : CborItem} (wellFormed : item.WellFormed)
    {items : List CborItem} (isArray : item.elements? = some items) : AllWellFormed items := by
  cases item with
  | leaf major argument content => cases isArray
  | node head items =>
      rw [elements?] at isArray
      split at isArray
      · cases isArray
        exact wellFormed.2
      · cases isArray

end CborItem

namespace Odatano

open CborItem Located

/-! ## Combining -/

/-- The wallet signs with vkey witnesses or, for Byron addresses, with bootstrap witnesses. -/
def isSignatureKey (key : CborItem) : Bool := key.isUInt 0 || key.isUInt 2

/-- How many witnesses a value holds: an array, or an array under a tag. -/
def witnessCountOf (value : CborItem) : Option Nat :=
  (value.elements?.orElse fun _ => value.tagData.elements?).map List.length

/-- The witnesses under the signature keys, counted. -/
def countWitnesses (signatures : List (CborItem × CborItem)) : Except String Nat :=
  match signatures.mapM fun entry => witnessCountOf entry.2 with
  | some counts => .ok counts.sum
  | none => .error "Unexpected witness format in witness set"

/-- Original entries such as redeemers, datums and scripts, then the signatures of the wallet. -/
def mergedEntries (original wallet : List (CborItem × CborItem)) : List (CborItem × CborItem) :=
  original.filter (fun entry => !isSignatureKey entry.1) ++
    wallet.filter fun entry => isSignatureKey entry.1

/-- Merge the witness set of a wallet into an unsigned transaction; the bytes of the parts stay. -/
def mergeWitnesses (unsignedTx witnessSet : Bytes) : Except String Bytes :=
  match parse unsignedTx with
  | none => .error "the bytes are no CBOR"
  | some tx =>
      match tx.elements? with
      | some (body :: originalSet :: rest) =>
          match parse witnessSet with
          | none => .error "the bytes are no CBOR"
          | some walletSet =>
              match originalSet.entries?, walletSet.entries? with
              | some original, some wallet => do
                  let witnessCount ← countWitnesses (wallet.filter fun entry => isSignatureKey entry.1)
                  if witnessCount = 0 then
                    .error ("Witness set carries no vkey or bootstrap witness; the wallet did not " ++
                      "sign")
                  else
                    let merged := buildMap originalSet.isIndefinite (mergedEntries original wallet)
                    .ok (buildArray tx.isIndefinite (body :: merged :: rest)).encode
              | _, _ => .error "Witness set must be CBOR map per Cardano spec"
      | _ => .error "Invalid transaction CBOR structure"

def combineTransactionWithWitnesses (unsignedTx witnessSet : Bytes) : Except String Bytes :=
  match mergeWitnesses unsignedTx witnessSet with
  | .ok signedTx => .ok signedTx
  | .error message => .error ("Failed to combine transaction with witnesses: " ++ message)

/-- A witness set is a map, a full transaction an array; only the first byte is read. -/
def isWitnessSetCbor (bytes : Bytes) : Bool :=
  match bytes with
  | first :: _ => decide (first.toNat / 32 = 5)
  | [] => false

/-- The signed transaction: as given, or the unsigned one with the witness set of a wallet. -/
def toSignedTransaction (unsignedTx : Option Bytes) (signedTxOrWitnessSet : Bytes) :
    Except String Bytes :=
  if isWitnessSetCbor signedTxOrWitnessSet = false then .ok signedTxOrWitnessSet
  else
    match unsignedTx with
    | none => .error "No unsigned transaction to add the witness set to"
    | some unsignedTx => combineTransactionWithWitnesses unsignedTx signedTxOrWitnessSet

/-! ## What combining changes -/

/-- The bytes are a transaction with a body, a witness set and further parts. -/
def IsTransaction (bytes : Bytes) (body : CborItem) (witnesses : List (CborItem × CborItem))
    (rest : List CborItem) : Prop :=
  ∃ tx set, parse bytes = some tx ∧ tx.elements? = some (body :: set :: rest) ∧
    set.entries? = some witnesses

/-- The bytes are a witness set with entries. -/
def IsWitnessSet (bytes : Bytes) (entries : List (CborItem × CborItem)) : Prop :=
  ∃ set, parse bytes = some set ∧ set.entries? = some entries

/-- Combining succeeds on a transaction and a witness set with signatures, and puts exactly those in
the place of the transaction's own. -/
theorem mergeWitnesses_eq_ok {unsignedTx witnessSet signedTx : Bytes}
    (merged : mergeWitnesses unsignedTx witnessSet = .ok signedTx) :
    ∃ body original rest walletSet wallet tx set,
      parse unsignedTx = some tx ∧ tx.elements? = some (body :: set :: rest) ∧
        set.entries? = some original ∧ parse witnessSet = some walletSet ∧
        walletSet.entries? = some wallet ∧
        signedTx = (buildArray tx.isIndefinite (body ::
          buildMap set.isIndefinite (mergedEntries original wallet) :: rest)).encode ∧
        ∃ counts, (wallet.filter fun entry => isSignatureKey entry.1).mapM
          (fun entry => witnessCountOf entry.2) = some counts ∧ counts.sum ≠ 0 := by
  unfold mergeWitnesses at merged
  split at merged
  · cases merged
  · rename_i tx isTx
    split at merged
    · rename_i body set rest parts
      split at merged
      · cases merged
      · rename_i walletSet isSet
        split at merged
        · rename_i original wallet isOriginal isWallet
          unfold countWitnesses at merged
          split at merged
          · rename_i counts counted
            change (if counts.sum = 0 then _ else _) = _ at merged
            split at merged
            · cases merged
            · rename_i some
              cases merged
              exact ⟨body, original, rest, walletSet, wallet, tx, set, isTx, parts, isOriginal,
                isSet, isWallet, rfl, counts, counted, some⟩
          · cases merged
        · cases merged
    · cases merged

theorem length_elements_le {item : CborItem} {items : List CborItem}
    (isArray : item.elements? = some items) : items.length ≤ item.encode.length := by
  cases item with
  | leaf major argument content => cases isArray
  | node head parts =>
      rw [elements?] at isArray
      split at isArray
      · cases isArray
        rw [encode, List.length_append, List.length_append]
        have least := length_le_length_encodeItems items
        omega
      · cases isArray

theorem length_entries_le {item : CborItem} {entries : List (CborItem × CborItem)}
    (isMap : item.entries? = some entries) : entries.length ≤ item.encode.length := by
  cases item with
  | leaf major argument content => cases isMap
  | node head parts =>
      rw [entries?] at isMap
      split at isMap
      · cases isMap
        rw [encode, List.length_append, List.length_append]
        have least := length_le_length_encodeItems parts
        have half := length_pairs_le parts
        omega
      · cases isMap

theorem length_encode_le_of_mem {items : List CborItem} {item : CborItem} (member : item ∈ items) :
    item.encode.length ≤ (encodeItems items).length := by
  induction items with
  | nil => cases member
  | cons first items ih =>
      rw [encodeItems, List.length_append]
      rcases List.mem_cons.mp member with rfl | later
      · exact Nat.le_add_right _ _
      · exact (ih later).trans (Nat.le_add_left _ _)

theorem length_encode_le_of_elements {item part : CborItem} {items : List CborItem}
    (isArray : item.elements? = some items) (member : part ∈ items) :
    part.encode.length ≤ item.encode.length := by
  cases item with
  | leaf major argument content => cases isArray
  | node head parts =>
      rw [elements?] at isArray
      split at isArray
      · cases isArray
        rw [encode, List.length_append, List.length_append]
        have least := length_encode_le_of_mem member
        omega
      · cases isArray

/-- The entries of a well-formed map are well formed. -/
theorem wellFormed_of_entries {item : CborItem} (wellFormed : item.WellFormed)
    {entries : List (CborItem × CborItem)} (isMap : item.entries? = some entries) :
    ∀ entry ∈ entries, entry.1.WellFormed ∧ entry.2.WellFormed := by
  intro entry member
  cases item with
  | leaf major argument content => cases isMap
  | node head parts =>
      rw [entries?] at isMap
      split at isMap
      · cases isMap
        have all := (allWellFormed_iff parts).mp wellFormed.2
        obtain ⟨isKey, isValue⟩ := mem_of_mem_pairs member
        exact ⟨all _ isKey, all _ isValue⟩
      · cases isMap

/-- Combining leaves the body and every other part, byte for byte, and the other entries of the
witness set; the signatures in it are those of the wallet. -/
theorem combineTransactionWithWitnesses_parts {unsignedTx witnessSet signedTx : Bytes}
    (short : unsignedTx.length + witnessSet.length < 2 ^ 64)
    (combined : combineTransactionWithWitnesses unsignedTx witnessSet = .ok signedTx) :
    ∃ body original rest wallet, IsTransaction unsignedTx body original rest ∧
      IsWitnessSet witnessSet wallet ∧
      IsTransaction signedTx body (mergedEntries original wallet) rest := by
  have merged : mergeWitnesses unsignedTx witnessSet = .ok signedTx := by
    unfold combineTransactionWithWitnesses at combined
    split at combined
    · rename_i merged
      cases combined
      exact merged
    · cases combined
  obtain ⟨body, original, rest, walletSet, wallet, tx, set, isTx, parts, isOriginal, isSet, isWallet,
    rfl, -⟩ := mergeWitnesses_eq_ok merged
  obtain ⟨wellFormed, bytes⟩ := wellFormed_of_parse isTx
  obtain ⟨walletWellFormed, walletBytes⟩ := wellFormed_of_parse isSet
  have partsWellFormed := wellFormed_of_elements wellFormed parts
  have setLength := length_encode_le_of_elements parts (List.mem_cons_of_mem _ List.mem_cons_self)
  have originalLength := length_entries_le isOriginal
  have walletLength := length_entries_le isWallet
  rw [bytes] at setLength
  rw [walletBytes] at walletLength
  have fewEntries : (mergedEntries original wallet).length < 2 ^ 64 := by
    have kept := List.length_filter_le (fun entry : CborItem × CborItem => !isSignatureKey entry.1)
      original
    have taken := List.length_filter_le (fun entry : CborItem × CborItem => isSignatureKey entry.1)
      wallet
    rw [mergedEntries, List.length_append]
    omega
  have fewParts : (body :: buildMap set.isIndefinite (mergedEntries original wallet) ::
      rest).length < 2 ^ 64 := by
    have count := length_elements_le parts
    rw [bytes] at count
    simp only [List.length_cons] at count ⊢
    omega
  have entriesWellFormed : ∀ entry ∈ mergedEntries original wallet,
      entry.1.WellFormed ∧ entry.2.WellFormed := by
    intro entry member
    rcases List.mem_append.mp member with isKept | isTaken
    · exact wellFormed_of_entries partsWellFormed.2.1 isOriginal entry (List.mem_filter.mp isKept).1
    · exact wellFormed_of_entries walletWellFormed isWallet entry (List.mem_filter.mp isTaken).1
  have signedWellFormed : (buildArray tx.isIndefinite (body ::
      buildMap set.isIndefinite (mergedEntries original wallet) :: rest)).WellFormed :=
    wellFormed_buildArray fewParts
      ⟨partsWellFormed.1, wellFormed_buildMap fewEntries entriesWellFormed, partsWellFormed.2.2⟩
  refine ⟨body, original, rest, wallet, ⟨tx, set, isTx, parts, isOriginal⟩,
    ⟨walletSet, isSet, isWallet⟩, _, _, parse_encode signedWellFormed, elements?_buildArray _ _,
    entries?_buildMap _ _⟩

/-- One vkey witness joins an empty list of redeemers. -/
theorem combineTransactionWithWitnesses_parts_sample :
    ∃ body original rest wallet,
      IsTransaction [0x84, 0xa0, 0xa1, 0x05, 0x80, 0xf5, 0xf6] body original rest ∧
        IsWitnessSet [0xa1, 0x00, 0x81, 0x82, 0x41, 0x01, 0x41, 0x02] wallet ∧
        IsTransaction [0x84, 0xa0, 0xa2, 0x05, 0x80, 0x00, 0x81, 0x82, 0x41, 0x01, 0x41, 0x02, 0xf5, 0xf6]
          body (mergedEntries original wallet) rest :=
  combineTransactionWithWitnesses_parts (by decide) (by decide +kernel)

end Odatano
