import Synergos.ByteText

/-!
# Node identities

A node owns one signing key. Its peer id is the hexadecimal form of the first
twenty bytes of the digest of its public key. The digest function and the
signature primitive are third-party libraries and parameters.
-/

namespace Synergos.Identity

open JsonText Base64url Envelope ByteText

abbrev PeerId := String

/-- The errors of the network crate that the modelled functions return. -/
inductive SynergosNetError where
  | quic (text : String)
  | serialization (text : String)
  | identity (text : String)
  deriving DecidableEq, Repr

/-- The first twenty bytes of the digest name a peer. -/
def peerIdPrefixLen : Nat := 20

/-- Two lowercase digits for each byte. -/
def hex (bytes : List UInt8) : String :=
  String.ofList (bytes.flatMap fun byte => [hexDigit (byte.toNat / 16), hexDigit (byte.toNat % 16)])

def peerIdFromPublicBytes (blake3 : List UInt8 → Bytes 32) (key : PublicKey) : PeerId :=
  hex ((blake3 key.1).1.take peerIdPrefixLen)

/-- The peer of the owner of a key. -/
def peerId (blake3 : List UInt8 → Bytes 32) (scheme : Scheme) (who : Seed) : PeerId :=
  peerIdFromPublicBytes blake3 (scheme.publicKey who)

/-! ## Samples -/

/-- A signature primitive for samples: the key and the last bytes of the message. -/
def stamp : Scheme where
  publicKey seed := seed
  sign seed signed := ⟨seed.1 ++ (signed.reverse ++ List.replicate 32 0).take 32, by
    simp [seed.2]⟩
  check key signed signature :=
    decide (signature.1 = key.1 ++ (signed.reverse ++ List.replicate 32 0).take 32)

theorem stamp_correct (seed : Seed) {signed : List UInt8} :
    stamp.check (stamp.publicKey seed) signed (stamp.sign seed signed) = true :=
  decide_eq_true rfl

/-- Two public keys. -/
def sampleKey : PublicKey :=
  ⟨[215, 90, 152, 1, 130, 177, 10, 183, 213, 75, 254, 211, 201, 100, 7, 58, 14, 225, 114, 243, 218,
    166, 35, 37, 175, 2, 26, 104, 247, 7, 81, 26], rfl⟩

def secondKey : PublicKey :=
  ⟨[61, 64, 23, 195, 232, 67, 137, 90, 146, 183, 10, 167, 77, 27, 126, 188, 156, 152, 44, 207, 46,
    196, 150, 140, 192, 205, 85, 241, 42, 244, 102, 12], rfl⟩

/-- A function with the digests of the two keys. -/
def sampleDigest (bytes : List UInt8) : Bytes 32 :=
  if bytes = sampleKey.1 then
    ⟨[108, 49, 4, 18, 104, 244, 113, 96, 156, 121, 245, 242, 219, 204, 56, 228, 164, 171, 47, 77, 65,
      97, 9, 164, 224, 159, 207, 80, 253, 15, 0, 98], rfl⟩
  else if bytes = secondKey.1 then
    ⟨[16, 39, 224, 53, 178, 107, 96, 93, 198, 212, 183, 141, 7, 220, 41, 102, 15, 204, 52, 152, 181,
      152, 162, 229, 124, 78, 107, 27, 103, 58, 30, 149], rfl⟩
  else ⟨List.replicate 32 0, rfl⟩

theorem samplePeer : peerId sampleDigest stamp sampleKey =
    "6c31041268f471609c79f5f2dbcc38e4a4ab2f4d" := by decide

end Synergos.Identity
