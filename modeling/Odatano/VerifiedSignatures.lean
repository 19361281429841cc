import Odatano.WalletSignatures

/-!
# Verified signatures

`srv/blockchain/signing/signature-verifier.ts`: which signed transactions are accepted, and what
that says about a transaction that a wallet signed.
-/

namespace CborItem

/-- The bytes of a byte string, in one piece or in chunks. -/
def byteString? : CborItem → Option Bytes
  | leaf major _ content => if major = 2 then some content else none
  | node head chunks =>
      if head.major = 2 then
        some (chunks.flatMap fun chunk =>
          match chunk with
          | leaf _ _ content => content
          | node _ _ => [])
      else none

end CborItem

namespace Odatano

open CborItem

/-- The packages that hash bytes and check Ed25519 signatures; a check throws on a key or signature
of the wrong length. -/
class SignaturePackages where
  blake2b_256 : Bytes → Bytes
  blake2b_224 : Bytes → Bytes
  /-- Of a signature, a message and a public key. -/
  verifyEd25519Signature_sync : Bytes → Bytes → Bytes → Option Bool

open SignaturePackages

structure VkeyWitness where
  index : Nat
  pubKey : Bytes
  signature : Bytes

/-- The witnesses of an array, and how many entries are no pair of byte strings. -/
def readPairs (pairs : List CborItem) : List VkeyWitness × Nat :=
  pairs.zipIdx.foldl (fun (witnesses, malformed) (pair, index) =>
    match pair.elements? with
    | some [vkey, signature] =>
        match vkey.byteString?, signature.byteString? with
        | some pubKey, some signature => (witnesses ++ [⟨index, pubKey, signature⟩], malformed)
        | _, _ => (witnesses, malformed + 1)
    | _ => (witnesses, malformed + 1)) ([], 0)

/-- The vkey witnesses of a witness set; a tag around the array is taken off. -/
def vkeyWitnessesOf (entries : List (CborItem × CborItem)) : List VkeyWitness × Nat :=
  match entries.find? fun entry => entry.1.isUInt 0 with
  | none => ([], 0)
  | some entry =>
      match entry.2.tagData.elements? with
      | none => ([], 0)
      | some pairs => readPairs pairs

/-- The vkey witnesses of a transaction; null when the bytes do not parse. -/
def readVkeyWitnesses (txBytes : Bytes) : Option (List VkeyWitness × Nat) :=
  (parse txBytes).map fun tx =>
    match tx.elements? with
    | some (_ :: set :: _) =>
        match set.entries? with
        | some entries => vkeyWitnessesOf entries
        | none => ([], 0)
    | _ => ([], 0)

/-- Well-formed vkey witnesses; malformed entries are skipped. -/
def extractVkeyWitnesses (txBytes : Bytes) : List VkeyWitness :=
  ((readVkeyWitnesses txBytes).getD ([], 0)).1

section Verify

variable [SignaturePackages]

/-- blake2b-256 over the body bytes as they were received. -/
def computeBodyHash (txBytes : Bytes) : Except String Bytes :=
  match parse txBytes with
  | none => .error "the bytes are no CBOR"
  | some tx =>
      match tx.elements? with
      | some (body :: _) => .ok (blake2b_256 body.encode)
      | _ => .error "Invalid transaction CBOR: missing body"

/-- Ed25519 check over the body hash; false for a key or signature of the wrong length. -/
def signatureValid (witness : VkeyWitness) (bodyHash : Bytes) : Bool :=
  (verifyEd25519Signature_sync witness.signature bodyHash witness.pubKey).getD false

/-- The signer's key hash. -/
def keyHashOf (witness : VkeyWitness) : String := toHex (blake2b_224 witness.pubKey)

structure TxWitnessVerification where
  valid : Bool
  txBodyHash : Option String
  signerKeyHashes : List String
  errors : List String

/-- Take up the check of one witness. -/
def checkWitness (bodyHash : Bytes) (found : List String × List String) (witness : VkeyWitness) :
    List String × List String :=
  if signatureValid witness bodyHash = true then (found.1 ++ [keyHashOf witness], found.2)
  else (found.1, found.2 ++ ["Invalid signature at witness index " ++ toString witness.index])

/-- Checks every vkey witness against the body hash.  A transaction without any is valid here. -/
def verifyTxWitnesses (signedTx : Bytes) : TxWitnessVerification :=
  match computeBodyHash signedTx, readVkeyWitnesses signedTx with
  | .ok bodyHash, some (witnesses, malformed) =>
      let start := if malformed > 0 then
        [toString malformed ++ (if malformed = 1 then " vkey witness entry is"
          else " vkey witness entries are") ++ " not a [vkey, signature] byte pair"] else []
      let (signers, errors) := witnesses.foldl (checkWitness bodyHash) ([], start)
      ⟨errors.isEmpty, some (toHex bodyHash), signers, errors⟩
  | .error message, _ => ⟨false, none, [], ["Failed to read transaction: " ++ message]⟩
  | .ok _, none => ⟨false, none, [], ["Failed to read transaction: the bytes are no CBOR"]⟩

structure VerificationOptions where
  expectedTxBodyHash : Option String
  requireSignature : Bool
  requiredSigners : List String

structure SignatureVerificationResult where
  isValid : Bool
  txBodyHash : String
  witnessCount : Nat
  signerKeyHashes : List String
  errorMessage : Option String
  warnings : List String

/-- Verify a signed transaction; all failures are reported in the result. -/
def SignatureVerifier.verify (signedTx : Bytes) (options : VerificationOptions) :
    SignatureVerificationResult :=
  match computeBodyHash signedTx with
  | .error message => ⟨false, "", 0, [], some ("Failed to verify signature: " ++ message), []⟩
  | .ok computedHash =>
      let expected := options.expectedTxBodyHash.filter fun hash => hash ≠ ""
      if expected.any fun hash => (toHex computedHash).toLower ≠ hash.toLower then
        ⟨false, toHex computedHash, 0, [], some ("Transaction body hash mismatch. Expected: " ++
          expected.getD "" ++ ", Got: " ++ toHex computedHash ++
          ". The transaction may have been tampered with."), []⟩
      else
        let vkeyWitnesses := extractVkeyWitnesses signedTx
        let signerKeyHashes := vkeyWitnesses.map keyHashOf
        if options.requireSignature = true ∧ vkeyWitnesses = [] then
          ⟨false, toHex computedHash, 0, signerKeyHashes, some ("No signatures found in " ++
            "transaction. The transaction must be signed before submission."), []⟩
        else
          let missingSigners := options.requiredSigners.filter fun required =>
            !signerKeyHashes.any fun signer => decide (signer.toLower = required.toLower)
          if missingSigners ≠ [] then
            let message := "Missing required signatures from: " ++ String.intercalate ", " missingSigners
            ⟨false, toHex computedHash, vkeyWitnesses.length, signerKeyHashes, some message, [message]⟩
          else
            match vkeyWitnesses.find? fun witness => !signatureValid witness computedHash with
            | some witness =>
                ⟨false, toHex computedHash, vkeyWitnesses.length, signerKeyHashes,
                  some ("Invalid signature at witness index " ++ toString witness.index ++
                    ". The signature does not match the transaction body."), []⟩
            | none =>
                ⟨true, toHex computedHash, vkeyWitnesses.length, signerKeyHashes, none, []⟩

/-! ## What is accepted -/

/-- The entries of a transaction that are no vkey witnesses. -/
def malformedOf (signedTx : Bytes) : Nat := ((readVkeyWitnesses signedTx).getD ([], 0)).2

/-- The witnesses are enough: some where one is required, one of each required signer, and each a
signature of the body. -/
structure SignedBy (witnesses : List VkeyWitness) (bodyHash : Bytes) (requireSignature : Bool)
    (requiredSigners : List String) : Prop where
  some : requireSignature = true → witnesses ≠ []
  required : ∀ signer ∈ requiredSigners, ∃ witness ∈ witnesses,
    (keyHashOf witness).toLower = signer.toLower
  valid : ∀ witness ∈ witnesses, signatureValid witness bodyHash = true

variable {signedTx : Bytes} {options : VerificationOptions} {bodyHash : Bytes}

/-- No signer is missing. -/
theorem missingSigners_eq_nil_iff {witnesses : List VkeyWitness} {requiredSigners : List String} :
    (requiredSigners.filter fun required => !(witnesses.map keyHashOf).any fun signer =>
        decide (signer.toLower = required.toLower)) = [] ↔
      ∀ signer ∈ requiredSigners, ∃ witness ∈ witnesses,
        (keyHashOf witness).toLower = signer.toLower := by
  rw [List.filter_eq_nil_iff]
  refine forall₂_congr fun signer _ => ?_
  rw [Bool.not_eq_true', Bool.not_eq_false, List.any_eq_true]
  simp only [List.mem_map, decide_eq_true_eq]
  constructor
  · rintro ⟨hash, ⟨witness, member, rfl⟩, same⟩
    exact ⟨witness, member, same⟩
  · rintro ⟨witness, member, same⟩
    exact ⟨_, ⟨witness, member, rfl⟩, same⟩

/-- Exactly the transactions with the expected body that are signed as the options ask. -/
theorem verify_isValid_iff (hashes : computeBodyHash signedTx = .ok bodyHash) :
    (SignatureVerifier.verify signedTx options).isValid = true ↔
      (∀ expected, options.expectedTxBodyHash = some expected → expected ≠ "" →
        (toHex bodyHash).toLower = expected.toLower) ∧
      SignedBy (extractVkeyWitnesses signedTx) bodyHash options.requireSignature
        options.requiredSigners := by
  unfold SignatureVerifier.verify
  rw [hashes]
  dsimp only
  have expects : ((options.expectedTxBodyHash.filter fun hash => hash ≠ "").any fun hash =>
      (toHex bodyHash).toLower ≠ hash.toLower) = false ↔
        ∀ expected, options.expectedTxBodyHash = some expected → expected ≠ "" →
          (toHex bodyHash).toLower = expected.toLower := by
    cases options.expectedTxBodyHash with
    | none => simp
    | some expected =>
        by_cases empty : expected = ""
        · simp [empty, Option.filter]
        · simp [empty, Option.filter]
  split
  · rename_i differs
    refine iff_of_false Bool.false_ne_true fun both => ?_
    rw [expects.mpr both.1] at differs
    cases differs
  · rename_i same
    have expected := expects.mp (Bool.eq_false_iff.mpr same)
    generalize extractVkeyWitnesses signedTx = witnesses
    split
    · rename_i unsigned
      exact iff_of_false Bool.false_ne_true fun both => both.2.some unsigned.1 unsigned.2
    · rename_i some
      split
      · rename_i missing
        refine iff_of_false Bool.false_ne_true fun both => missing ?_
        exact missingSigners_eq_nil_iff.mpr both.2.required
      · rename_i none
        have required := missingSigners_eq_nil_iff.mp (not_not.mp none)
        split
        · rename_i witness found
          refine iff_of_false Bool.false_ne_true fun both => ?_
          have valid := both.2.valid witness (List.mem_of_find?_eq_some found)
          have invalid := List.find?_some found
          rw [valid] at invalid
          cases invalid
        · rename_i none
          refine iff_of_true rfl ⟨expected, ⟨fun asked empty => some ⟨asked, empty⟩, required, ?_⟩⟩
          intro witness member
          have valid := List.find?_eq_none.mp none witness member
          rwa [Bool.not_eq_true', Bool.not_eq_false] at valid

/-! ## Both verifications agree -/

/-- What the checks of witnesses add up to. -/
theorem foldl_checkWitness (witnesses : List VkeyWitness) (signers errors : List String) :
    ∃ later, witnesses.foldl (checkWitness bodyHash) (signers, errors) =
        (signers ++ (witnesses.filter fun witness => signatureValid witness bodyHash).map keyHashOf,
          errors ++ later) ∧
      (later = [] ↔ ∀ witness ∈ witnesses, signatureValid witness bodyHash = true) := by
  induction witnesses generalizing signers errors with
  | nil => exact ⟨[], by simp⟩
  | cons witness witnesses ih =>
      rw [List.foldl_cons, checkWitness]
      cases valid : signatureValid witness bodyHash with
      | true =>
          obtain ⟨later, folded, all⟩ := ih (signers ++ [keyHashOf witness]) errors
          refine ⟨later, ?_, ?_⟩
          · simpa [valid] using folded
          · simp [all, valid]
      | false =>
          obtain ⟨later, folded, -⟩ := ih signers
            (errors ++ ["Invalid signature at witness index " ++ toString witness.index])
          refine ⟨("Invalid signature at witness index " ++ toString witness.index) :: later, ?_, ?_⟩
          · simpa [valid] using folded
          · simp [valid]

theorem exists_readVkeyWitnesses (hashes : computeBodyHash signedTx = .ok bodyHash) :
    readVkeyWitnesses signedTx =
      some (extractVkeyWitnesses signedTx, malformedOf signedTx) := by
  unfold computeBodyHash at hashes
  split at hashes
  · cases hashes
  · rename_i tx isTx
    rw [extractVkeyWitnesses, malformedOf, readVkeyWitnesses, isTx, Option.map_some,
      Option.getD_some]

/-- Without demands, a readable transaction is reported with its hash and all its signers. -/
theorem verify_undemanding (hashes : computeBodyHash signedTx = .ok bodyHash) :
    (SignatureVerifier.verify signedTx ⟨none, false, []⟩).txBodyHash = toHex bodyHash ∧
      (SignatureVerifier.verify signedTx ⟨none, false, []⟩).signerKeyHashes =
        (extractVkeyWitnesses signedTx).map keyHashOf := by
  unfold SignatureVerifier.verify
  rw [hashes]
  simp only [Option.filter_none, Option.any_none, Bool.false_eq_true, if_false, false_and,
    List.filter_nil, ne_eq, not_true_eq_false]
  split <;> exact ⟨rfl, rfl⟩

/-- `verifyTxWitnesses` passes a transaction exactly when `verify` passes it without further demands
and every entry of its vkey witnesses is well formed; it then names the same signers. -/
theorem verifyTxWitnesses_valid_iff (signedTx : Bytes) :
    ((verifyTxWitnesses signedTx).valid = true ↔
      (SignatureVerifier.verify signedTx ⟨none, false, []⟩).isValid = true ∧
        malformedOf signedTx = 0) ∧
      ((verifyTxWitnesses signedTx).valid = true →
        (verifyTxWitnesses signedTx).signerKeyHashes =
            (SignatureVerifier.verify signedTx ⟨none, false, []⟩).signerKeyHashes ∧
          (verifyTxWitnesses signedTx).txBodyHash =
            some (SignatureVerifier.verify signedTx ⟨none, false, []⟩).txBodyHash) := by
  cases hashes : computeBodyHash signedTx with
  | error message =>
      have unread : (verifyTxWitnesses signedTx).valid = false := by
        rw [verifyTxWitnesses, hashes]
      have unverified : (SignatureVerifier.verify signedTx ⟨none, false, []⟩).isValid = false := by
        rw [SignatureVerifier.verify, hashes]
      rw [unread, unverified]
      exact ⟨iff_of_false Bool.false_ne_true fun both => Bool.false_ne_true both.1,
        fun none => absurd none Bool.false_ne_true⟩
  | ok bodyHash =>
      have accepted := @verify_isValid_iff _ signedTx ⟨none, false, []⟩ bodyHash hashes
      obtain ⟨hash, signers⟩ := verify_undemanding hashes
      obtain ⟨later, folded, all⟩ := @foldl_checkWitness _ bodyHash
        (extractVkeyWitnesses signedTx) [] (if malformedOf signedTx > 0 then
          [toString (malformedOf signedTx) ++ (if malformedOf signedTx = 1 then
            " vkey witness entry is" else " vkey witness entries are") ++
            " not a [vkey, signature] byte pair"] else [])
      rw [accepted, signers, hash, verifyTxWitnesses, hashes, exists_readVkeyWitnesses hashes]
      dsimp only
      rw [folded, List.isEmpty_iff, List.append_eq_nil_iff, all]
      have wellFormed : (if malformedOf signedTx > 0 then
          [toString (malformedOf signedTx) ++ (if malformedOf signedTx = 1 then
            " vkey witness entry is" else " vkey witness entries are") ++
            " not a [vkey, signature] byte pair"] else []) = [] ↔ malformedOf signedTx = 0 := by
        split <;> simp <;> omega
      rw [wellFormed]
      refine ⟨⟨fun both => ⟨⟨?_, ?_, ?_, both.2⟩, both.1⟩, fun both => ⟨both.2, both.1.2.valid⟩⟩,
        fun both => ⟨?_, rfl⟩⟩
      · intro expected none
        cases none
      · intro none
        cases none
      · intro signer none
        cases none
      · rw [List.filter_eq_self.mpr both.2, List.nil_append]

/-! ## Signed by a wallet -/

omit [SignaturePackages] in
/-- Combined, a transaction has the vkey witnesses of the wallet, and no others. -/
theorem vkeyWitnessesOf_mergedEntries (original wallet : List (CborItem × CborItem)) :
    vkeyWitnessesOf (mergedEntries original wallet) = vkeyWitnessesOf wallet := by
  have signature (entry : CborItem × CborItem) (isVkey : entry.1.isUInt 0 = true) :
      isSignatureKey entry.1 = true := by
    rw [isSignatureKey, isVkey, Bool.true_or]
  have kept : (original.filter fun entry => !isSignatureKey entry.1).find?
      (fun entry => entry.1.isUInt 0) = none := by
    rw [List.find?_eq_none]
    intro entry member isVkey
    have other := (List.mem_filter.mp member).2
    rw [signature entry isVkey] at other
    cases other
  have taken : (wallet.filter fun entry => isSignatureKey entry.1).find?
      (fun entry => entry.1.isUInt 0) = wallet.find? fun entry => entry.1.isUInt 0 := by
    rw [List.find?_filter]
    congr 1
    funext entry
    cases isVkey : entry.1.isUInt 0 with
    | true => simp [signature entry isVkey]
    | false => simp
  rw [vkeyWitnessesOf, vkeyWitnessesOf, mergedEntries, List.find?_append, kept, Option.none_or, taken]

variable {body : CborItem} {witnesses : List (CborItem × CborItem)} {rest : List CborItem}

theorem computeBodyHash_of_isTransaction (isTx : IsTransaction signedTx body witnesses rest) :
    computeBodyHash signedTx = .ok (blake2b_256 body.encode) := by
  obtain ⟨tx, set, parsed, parts, -⟩ := isTx
  rw [computeBodyHash, parsed]
  dsimp only
  rw [parts]

omit [SignaturePackages] in
theorem extractVkeyWitnesses_of_isTransaction (isTx : IsTransaction signedTx body witnesses rest) :
    extractVkeyWitnesses signedTx = (vkeyWitnessesOf witnesses).1 := by
  obtain ⟨tx, set, parsed, parts, entries⟩ := isTx
  rw [extractVkeyWitnesses, readVkeyWitnesses, parsed, Option.map_some, Option.getD_some, parts]
  dsimp only
  rw [entries]

/-- A transaction signed from a witness set is still the one that was built, and is accepted as such
exactly when the wallet's witnesses are signatures of that transaction by every required signer. -/
theorem toSignedTransaction_verify {unsignedTx witnessSet : Bytes}
    (short : unsignedTx.length + witnessSet.length < 2 ^ 64)
    (isSet : isWitnessSetCbor witnessSet = true)
    (signed : toSignedTransaction (some unsignedTx) witnessSet = .ok signedTx) :
    ∃ bodyHash wallet, computeBodyHash unsignedTx = .ok bodyHash ∧
      computeBodyHash signedTx = .ok bodyHash ∧ IsWitnessSet witnessSet wallet ∧
      ∀ requiredSigners,
        (SignatureVerifier.verify signedTx ⟨some (toHex bodyHash), true, requiredSigners⟩).isValid =
            true ↔
          SignedBy (vkeyWitnessesOf wallet).1 bodyHash true requiredSigners := by
  have combined : combineTransactionWithWitnesses unsignedTx witnessSet = .ok signedTx := by
    rwa [toSignedTransaction, if_neg (by rw [isSet]; exact Bool.noConfusion)] at signed
  obtain ⟨body, original, rest, wallet, isUnsigned, isWallet, isSigned⟩ :=
    combineTransactionWithWitnesses_parts short combined
  have hashes := computeBodyHash_of_isTransaction isSigned
  refine ⟨_, wallet, computeBodyHash_of_isTransaction isUnsigned, hashes, isWallet, ?_⟩
  intro requiredSigners
  rw [verify_isValid_iff hashes, extractVkeyWitnesses_of_isTransaction isSigned,
    vkeyWitnessesOf_mergedEntries]
  refine and_iff_right_of_imp fun _ expected isExpected _ => ?_
  rw [Option.some.inj isExpected]

end Verify

section Sample

/-- The hash of the empty map. -/
def sampleBodyHash : Bytes := CborArgument.bigEndian 32
  0xd36a2619a672494604e11bb447cbcf5231e9f2ba25c2169177edc941bd50ad6c

def sampleVkey : Bytes := CborArgument.bigEndian 32
  0x3b6a27bcceb6a42d62a3a8d02a6f0d73653215771de243a63ac048a18b59da29

/-- The signature of that hash. -/
def sampleSignature : Bytes :=
  CborArgument.bigEndian 32 0xb10a54c0c56e0f6f9dc62829953b2e800f89e83259b3ef59f555f9b9684cfc43 ++
    CborArgument.bigEndian 32 0x0594f47bf7d656f23448d7bd4fd7f326009ce07077062800f5d7121e1f80fa06

@[reducible] def samplePackages : SignaturePackages where
  blake2b_256 _ := sampleBodyHash
  blake2b_224 _ := CborArgument.bigEndian 28
    0xcb9358529df4729c3246a2a033cb9821abbfd16de4888005904abc41
  verifyEd25519Signature_sync signature message pubKey :=
    if signature.length = 64 ∧ pubKey.length = 32 then
      some (decide (signature = sampleSignature ∧ message = sampleBodyHash ∧ pubKey = sampleVkey))
    else none

attribute [local instance] samplePackages

/-- The witness set of a wallet with one signature. -/
def sampleWitnessSet : Bytes :=
  [0xa1, 0x00, 0x81, 0x82, 0x58, 0x20] ++ sampleVkey ++ [0x58, 0x40] ++ sampleSignature

theorem toSignedTransaction_verify_sample :
    ∃ bodyHash wallet,
      computeBodyHash [0x84, 0xa0, 0xa1, 0x05, 0x80, 0xf5, 0xf6] = .ok bodyHash ∧
      computeBodyHash ([0x84, 0xa0, 0xa2, 0x05, 0x80] ++ sampleWitnessSet.drop 1 ++ [0xf5, 0xf6]) =
        .ok bodyHash ∧
      IsWitnessSet sampleWitnessSet wallet ∧
      ∀ requiredSigners,
        (SignatureVerifier.verify
          ([0x84, 0xa0, 0xa2, 0x05, 0x80] ++ sampleWitnessSet.drop 1 ++ [0xf5, 0xf6])
          ⟨some (toHex bodyHash), true, requiredSigners⟩).isValid = true ↔
        SignedBy (vkeyWitnessesOf wallet).1 bodyHash true requiredSigners :=
  toSignedTransaction_verify (by decide +kernel) (by decide +kernel) (by decide +kernel)

example : (verifyTxWitnesses
    ([0x84, 0xa0, 0xa2, 0x05, 0x80] ++ sampleWitnessSet.drop 1 ++ [0xf5, 0xf6])).valid = true := by
  decide +kernel

end Sample

end Odatano
