import Odatano.ChainData

/-!
# Shelley addresses

`decodeShelleyAddress` of `srv/utils/mappers.ts` reads the CIP-19 header of an
address.  The `bech32` package it calls is a parameter.
-/

namespace Odatano

/-- The `bech32` package: `decode` yields the human-readable part and the bytes
behind it, or fails; `encode` writes a payload and never gives the empty text. -/
class Bech32 where
  decode : String → Option (String × List UInt8)
  encode : String → List UInt8 → Text

inductive AddressType
  | base
  | pointer
  | enterprise
  | reward
  | byron
  | unknown
deriving DecidableEq

structure DecodedAddress where
  type : AddressType
  /-- Payment credential is a script hash. -/
  isScript : Bool
  /-- Reward account of a base address. -/
  stakeAddress : Option StakeAddress
  /-- Payment key or script hash of a base, pointer or enterprise address. -/
  paymentCredential : Option String
  /-- Network nibble of the header. -/
  networkId : Option Nat
deriving DecidableEq

inductive Network
  | mainnet
  | preprod
  | preview
deriving DecidableEq

/-- Lower-case hexadecimal digits of some bytes. -/
def hexOf (bytes : List UInt8) : String :=
  String.ofList <| bytes.flatMap fun byte =>
    [Nat.digitChar (byte.toNat / 16), Nat.digitChar (byte.toNat % 16)]

variable [Bech32]

/-- Stake credential to bech32 reward account. -/
def credentialToStakeAddress (credential : List UInt8) (isScript : Bool)
    (network : Network) : StakeAddress :=
  let header : UInt8 :=
    (if isScript then 0xf0 else 0xe0) ||| (if network = .mainnet then 0x01 else 0x00)
  let hrp := if network = .mainnet then "stake" else "stake_test"
  Bech32.encode hrp (header :: credential)

/-- Byron addresses are base58 and start with one of these. -/
def byronStarts : List String := ["Ae2", "DdzFF", "2cWKM", "37btj", "KjgoiX"]

/-- Decode the header of an address; anything unparsable is of unknown type. -/
def decodeShelleyAddress (address : Address) : DecodedAddress :=
  let unknown : DecodedAddress := ⟨.unknown, false, none, none, none⟩
  if nonempty : address = "" then unknown
  else
    match Bech32.decode address with
    | none =>
        if byronStarts.any fun start => start.toList.isPrefixOf address.toList then
          { unknown with type := .byron }
        else unknown
    | some (hrp, bytes) =>
        if hrp ∉ ["addr", "addr_test", "stake", "stake_test"] then unknown
        else
          match bytes.head? with
          | none => unknown
          | some header =>
              let type := header.toNat / 16
              let networkId := header.toNat % 16
              let net := if networkId = 1 then Network.mainnet else Network.preview
              let paymentCredential :=
                if type ≤ 7 ∧ 29 ≤ bytes.length then some (hexOf ((bytes.drop 1).take 28))
                else none
              match type with
              | 0 | 1 | 2 | 3 =>
                  let stakeAddress :=
                    if 57 ≤ bytes.length then
                      some (credentialToStakeAddress ((bytes.drop 29).take 28)
                        (decide (2 ≤ type)) net)
                    else none
                  ⟨.base, decide (type = 1 ∨ type = 3), stakeAddress, paymentCredential,
                    some networkId⟩
              | 4 | 5 =>
                  ⟨.pointer, decide (type = 5), none, paymentCredential, some networkId⟩
              | 6 | 7 =>
                  ⟨.enterprise, decide (type = 7), none, paymentCredential, some networkId⟩
              | 14 | 15 =>
                  ⟨.reward, decide (type = 15), some ⟨address, nonempty⟩, none, some networkId⟩
              | _ => { unknown with networkId := some networkId }

/-- The bech32 package on Byron addresses, which it rejects. -/
@[reducible] def byronBech32 : Bech32 := ⟨fun _ => none, fun hrp _ => ⟨hrp ++ "1", by simp⟩⟩

end Odatano
