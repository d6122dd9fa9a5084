import Synergos.Envelope
import Synergos.ProfileRules

/-!
# Capability tokens

A token is the base64url text of the canonical JSON of a chain of blocks and a
proof. Each block carries caveats and the public key for the next block; the
first one is signed by an issuer, every later one by the key that the previous
block names. The proof is either the secret of the last key, which lets the
holder add blocks, or a seal made with it over the signatures of all blocks.

The model follows the reader, the four operations and the checks of the source
with their order and their failures. Times and counts are unbounded integers:
canonical JSON keeps every number of a token within 53 bits.
-/

namespace Synergos.Lct

open JsonText Jcs Base64url Envelope Caveat CaveatText ProfileRules

/-- Characters of a token. -/
def maxTokenBytes : Nat := 16 * 1024

def maxBlocks : Nat := 16

def bounded (declared max : Nat) (what : String) : Checked Unit :=
  ensure (declared ≤ max) .decodeTooLarge
    ("trust.lct " ++ what ++ ": " ++ toString declared ++ " > " ++ toString max)

/-- Replace every failure by one of its own. -/
def recast {α : Type} (checked : Checked α) (code : Code) (detail : Fault → String) : Checked α :=
  match checked with
  | .ok value => .ok value
  | .error fault => fail code (detail fault)

/-- A block as it was read. `kid`, `profile` and `iat` are those of the first
block; later blocks have none. -/
structure Block where
  bodyJson : String
  caveats : Caveats
  nextPub : PublicKey
  sig : Signature
  kid : String := ""
  profile : Option Profile := none
  iat : Int := 0

/-- The proof of holding the last key. -/
inductive Proof where
  | nextSecret (seed : Seed)
  | sealed (signature : Signature)
  deriving DecidableEq

structure Parsed where
  blocks : List Block
  proof : Proof

/-- The parts of a block that are written into a token. -/
abbrev Chain := List (String × Signature)

def chainOf (blocks : List Block) : Chain := blocks.map (fun blk => (blk.bodyJson, blk.sig))

section Reading

variable (reader : String → Option Json)

/-- The canonical text of a value that was read. -/
def write (value : Json) : Checked String := canonicalize reader (String.ofList (render value))

/-- The issuer's fields of the first block. -/
def parseHead (body : Json) : Checked (String × Profile × Int) :=
  match body.get? "kid", body.get? "profile", body.get? "iat" with
  | some (.str kid), some (.str profile), some (.int iat) =>
    match parseProfile profile with
    | some profile => .ok (kid, profile, iat)
    | none => fail .lctMalformed "unknown profile"
  | _, _, _ => fail .lctMalformed "block 0 needs kid, profile, iat"

/-- The caveats of a body; an absent member is no object. -/
def bodyCaveats (body : Json) : Checked Caveats :=
  match body.get? "caveats" with
  | some value => parseCaveats value
  | none => fail .lctMalformed "caveats must be an object"

def parseBody (first : Bool) (body : Json) (sigText : String) : Checked Block :=
  match body.get? "v", body.get? "next_pub" with
  | some (.int 1), some (.str next) => do
    ensure (body.size = if first then 6 else 3) .lctMalformed "unexpected block body fields"
    let bodyJson ← write reader body
    let caveats ← bodyCaveats body
    let nextPub ← recast (decodeFixed 32 next) .lctMalformed
      (fun _ => "bad key or signature encoding")
    let sig ← recast (decodeFixed 64 sigText) .lctMalformed
      (fun _ => "bad key or signature encoding")
    if first then do
      let (kid, profile, iat) ← parseHead body
      pure { bodyJson, caveats, nextPub, sig, kid, profile := some profile, iat }
    else pure { bodyJson, caveats, nextPub, sig }
  | _, _ => fail .lctMalformed "unexpected block body fields"

def parseBlock (first : Bool) (item : Json) : Checked Block :=
  match item.size, item.get? "body", item.get? "sig" with
  | 2, some (.obj members), some (.str sig) => parseBody reader first (.obj members) sig
  | _, _, _ => fail .lctMalformed "block must be \x7bbody, sig\x7d"

def parseBlocks (first : Bool) : List Json → Checked (List Block)
  | [] => .ok []
  | item :: rest => do
    let blk ← parseBlock reader first item
    let more ← parseBlocks false rest
    pure (blk :: more)

def parseProof (proof : Json) : Checked Proof :=
  match proof.get? "next_secret", proof.get? "seal" with
  | some (.str secret), _ =>
    (recast (decodeFixed 32 secret) .lctMalformed (fun _ => "bad proof encoding")).map .nextSecret
  | _, some (.str signature) =>
    (recast (decodeFixed 64 signature) .lctMalformed (fun _ => "bad proof encoding")).map .sealed
  | _, _ => fail .lctMalformed "proof must be next_secret or seal"

def isText : Option Json → Bool
  | some (.str _) => true
  | _ => false

/-- Read the parsed root of a token. -/
def parseRoot (root : Json) (requireSealed : Bool) : Checked Parsed :=
  match root.size, root.get? "v", root.get? "blocks", root.get? "proof" with
  | 3, some (.int 1), some (.arr (item :: rest)), some (.obj [entry]) => do
    bounded (item :: rest).length maxBlocks "blocks"
    let blocks ← parseBlocks reader true (item :: rest)
    let proof := Json.obj [entry]
    ensure (!requireSealed || isText (proof.get? "seal")) .lctProfileForbidden
      "presentation requires a sealed token"
    let proof ← parseProof proof
    pure { blocks, proof }
  | _, _, _, _ =>
    fail .lctMalformed "token must be \x7bv:1, blocks:[...], proof:\x7b...\x7d\x7d"

/-- The text that bytes are the UTF-8 form of. -/
def textOf (bytes : List UInt8) : Option String := String.fromUTF8? ⟨bytes.toArray⟩

def parseToken (token : String) (requireSealed : Bool) : Checked Parsed := do
  bounded token.utf8ByteSize maxTokenBytes "token bytes"
  let raw ← recast (decode token) .lctMalformed (fun _ => "token is not base64url")
  match textOf raw with
  | none => fail .lctMalformed (Fault.what ⟨.jcsInvalidJson, "invalid JSON or UTF-8"⟩)
  | some json => do
    let canonical ← recast (canonicalize reader json) .lctMalformed Fault.what
    ensure (canonical = json) .lctMalformed "token JSON is not in JCS form"
    match reader json with
    | some root => parseRoot reader root requireSealed
    | none => fail .lctMalformed "token must be \x7bv:1, blocks:[...], proof:\x7b...\x7d\x7d"

end Reading

/-! ## Writing -/

/-- A string as JSON. -/
def quote (text : String) : String := String.ofList (quoted text)

def quoteBytes (bytes : List UInt8) : String := quote (encode bytes)

/-- Further texts of a list, each with a comma before it. -/
def moreTexts : List String → String
  | [] => ""
  | text :: rest => "," ++ text ++ moreTexts rest

/-- The texts of a list, separated by commas. -/
def joinTexts : List String → String
  | [] => ""
  | text :: rest => text ++ moreTexts rest

/-- What a seal signs: the signatures of all blocks. -/
def sealPayload (blocks : Chain) : String :=
  "\x7b\"seal\":[" ++ joinTexts (blocks.map (fun blk => quoteBytes blk.2.val)) ++ "]\x7d"

def blockText (blk : String × Signature) : String :=
  "\x7b\"body\":" ++ blk.1 ++ ",\"sig\":" ++ quoteBytes blk.2.val ++ "\x7d"

def tokenText (blocks : Chain) (proofJson : String) : String :=
  "\x7b\"blocks\":[" ++ joinTexts (blocks.map blockText) ++ "],\"proof\":" ++
    proofJson ++ ",\"v\":1\x7d"

def unsealedProof (nextSeed : Seed) : String :=
  "\x7b\"next_secret\":" ++ quoteBytes nextSeed.val ++ "\x7d"

def sealedProof (signature : Signature) : String :=
  "\x7b\"seal\":" ++ quoteBytes signature.val ++ "\x7d"

/-- The issuer's fields as they stand in the body of the first block; later
blocks have none. -/
def headText : Option (String × Profile × Int) → String
  | some (kid, profile, iat) =>
    ",\"iat\":" ++ toString iat ++ ",\"kid\":" ++ quote kid ++ ",\"profile\":" ++
      quote (profileName profile)
  | none => ""

section Operations

variable (reader : String → Option Json) (scheme : Scheme)

def encodeToken (blocks : Chain) (proofJson : String) : Checked String := do
  let canonical ← canonicalize reader (tokenText blocks proofJson)
  let token := Base64url.encode (utf8 canonical)
  bounded token.utf8ByteSize maxTokenBytes "token bytes"
  pure token

/-- The body of a block; the first one carries the issuer's fields. -/
def body (caveats : Caveats) (nextPub : PublicKey) (head : Option (String × Profile × Int)) :
    Checked String := do
  let caveatsJson ← toJson reader caveats
  canonicalize reader ("\x7b\"caveats\":" ++ caveatsJson ++ headText head ++ ",\"next_pub\":" ++
    quoteBytes nextPub.val ++ ",\"v\":1\x7d")

/-- A capability that is minted must already be one that can be presented. -/
def checkMinted (profile : Profile) (caveats : Caveats) : Checked Unit :=
  if profile = .custodyCapability then checkPresented profile caveats else .ok ()

def mint (kid : String) (issuer : Seed) (profile : Profile) (iat : Int) (caveatsJson : String)
    (nextSeed : Seed) : Checked String := do
  ensure (profile ≠ .membership) .lctProfileForbidden
    "membership LCTs are issued only by Cernere"
  ensure (kid ≠ "") .lctMalformed "kid is required"
  let caveats ← parseCaveatsText reader caveatsJson
  ensure caveats.exp.isSome .lctBadCaveat "exp is required"
  checkIssued profile caveats
  checkMinted profile caveats
  let b ← body reader caveats (scheme.publicKey nextSeed) (some (kid, profile, iat))
  let sig ← sign reader scheme .lct 1 b .custody issuer
  encodeToken reader [(b, sig)] (unsealedProof nextSeed)

/-- The intersection of all blocks. -/
def intersection : List Block → Checked Caveats
  | [] => .ok {}
  | head :: rest => (rest.map Block.caveats).foldlM narrow head.caveats

/-- The holder's secret, where it is the one that the last block names. -/
def holderOf (parsed : Parsed) (isSealed : String) : Checked Seed :=
  match parsed.proof with
  | .sealed _ => fail .lctMalformed isSealed
  | .nextSecret holder => do
    ensure (parsed.blocks.getLast?.map Block.nextPub = some (scheme.publicKey holder))
      .lctMalformed "proof does not match the last block"
    pure holder

def attenuate (token caveatsJson : String) (nextSeed : Seed) : Checked String := do
  let parsed ← parseToken reader token false
  let holder ← holderOf scheme parsed "sealed token cannot be attenuated"
  bounded (parsed.blocks.length + 1) maxBlocks "blocks"
  let effective ← intersection parsed.blocks
  let added ← parseCaveatsText reader caveatsJson
  let _ ← narrow effective added
  let b ← body reader added (scheme.publicKey nextSeed) none
  let sig ← sign reader scheme .lct 1 b .holder holder
  encodeToken reader (chainOf parsed.blocks ++ [(b, sig)]) (unsealedProof nextSeed)

def sealToken (token : String) : Checked String := do
  let parsed ← parseToken reader token false
  let holder ← holderOf scheme parsed "token is already sealed"
  let chain := chainOf parsed.blocks
  let sig ← sign reader scheme .lct 1 (sealPayload chain) .holder holder
  encodeToken reader chain (sealedProof sig)

end Operations

/-! ## Verification -/

/-- What a verifier takes the token for. -/
structure Presented where
  profile : Profile
  urlForm : Bool := false
  requireSealed : Bool := false

/-- An issuer's key and the profile that it may issue. -/
structure IssuerKey where
  key : PublicKey
  profile : Profile

/-- What has been revoked. -/
structure RevocationView where
  revokedJti : Finset String := ∅
  capIssuedBefore : Option Int := none
  frozenProjectRefs : Finset String := ∅

structure Verified where
  profile : Profile
  issuedProfile : Profile
  kid : String
  iat : Int
  exp : Int
  caveatsJson : String
  delegationJti : Option String

section Verification

variable (reader : String → Option Json) (scheme : Scheme)

/-- The context and the signer of the first block. -/
def issuerCtx (profile : Profile) : Ctx × Signer :=
  if profile = .membership then (.membership, .cernere) else (.lct, .custody)

/-- Check the blocks after the first one, each with the key that its
predecessor names, and fold their caveats in. -/
def verifyBlocks (previous : PublicKey) (effective : Caveats) : List Block → Checked Caveats
  | [] => .ok effective
  | blk :: rest => do
    Envelope.verify reader scheme .lct 1 blk.bodyJson .holder previous blk.sig
    let effective ← narrow effective blk.caveats
    verifyBlocks blk.nextPub effective rest

/-- Without the last key a token with its last blocks cut off would pass. -/
def verifyProof (parsed : Parsed) (last : PublicKey) : Checked Unit :=
  match parsed.proof with
  | .nextSecret secret =>
    ensure (scheme.publicKey secret = last) .lctMalformed "proof does not match the last block"
  | .sealed signature =>
    Envelope.verify reader scheme .lct 1 (sealPayload (chainOf parsed.blocks)) .holder last signature

/-- Lifetime and form of the intersection. -/
def verifyTimes (effective : Caveats) (now : Int) (presented : Presented) : Checked Int :=
  match effective.exp with
  | none => fail .lctBadCaveat "exp is required"
  | some exp => do
    ensure (now < exp) .lctExpired "token expired"
    ensure (∀ nbf ∈ effective.nbf, nbf ≤ now) .lctNotYetValid "token not yet valid"
    ensure (exp - now ≤ maxTtl presented.profile presented.urlForm) .lctTtlExceeded
      "exp exceeds MAX_TTL"
    ensure ((effective.strings .downloadName).isNone ∨ effective.ops = some {"get"}) .lctBadCaveat
      "download_name is valid only for GET"
    pure exp

def verifyRevocation (effective : Caveats) (iat : Int) (revocation : RevocationView) :
    Checked Unit := do
  ensure (∀ jti ∈ effective.chainJti, jti ∉ revocation.revokedJti) .lctRevoked "jti revoked"
  ensure (∀ cutoff ∈ revocation.capIssuedBefore, cutoff ≤ iat) .lctRevoked "issued before cutoff"
  ensure (∀ project ∈ effective.strings .projectRef, project ∉ revocation.frozenProjectRefs)
    .lctRevoked "project frozen"
  ensure (∀ entry ∈ effective.projects.getD ∅, entry.1 ∉ revocation.frozenProjectRefs)
    .lctRevoked "project frozen"

/-- Verification after the chain has been read, apart from revocation: the
intersection, its expiry and the profile of the first block. -/
def verifyChain (parsed : Parsed) (issuers : String → Option IssuerKey) (now : Int)
    (presented : Presented) : Checked (Block × Profile × Caveats × Int) :=
  match parsed.blocks with
  | [] => fail .lctMalformed "token must be \x7bv:1, blocks:[...], proof:\x7b...\x7d\x7d"
  | head :: rest =>
    match issuers head.kid, head.profile with
    | some issuer, some profile => do
      ensure (issuer.profile = profile) .lctProfileForbidden "kid may not issue this profile"
      ensure (presentable profile presented.profile) .lctProfileForbidden
        "token cannot be presented as this profile"
      ensure (!presented.urlForm || presented.profile = .custodyCapability) .lctProfileForbidden
        "the URL form is only for custody-capability"
      Envelope.verify reader scheme (issuerCtx profile).1 1 head.bodyJson (issuerCtx profile).2
        issuer.key head.sig
      let effective ← verifyBlocks reader scheme head.nextPub head.caveats rest
      verifyProof reader scheme parsed (((head :: rest).getLast (by simp)).nextPub)
      let exp ← verifyTimes effective now presented
      checkIssued profile head.caveats
      checkPresented presented.profile effective
      pure (head, profile, effective, exp)
    | _, _ => fail .lctUnknownIssuer "kid is not a known issuer"

def verify (token : String) (issuers : String → Option IssuerKey) (revocation : RevocationView)
    (now : Int) (presented : Presented) : Checked Verified := do
  let parsed ← parseToken reader token presented.requireSealed
  let (head, profile, effective, exp) ← verifyChain reader scheme parsed issuers now presented
  verifyRevocation effective head.iat revocation
  let caveatsJson ← toJson reader effective
  pure { profile := presented.profile, issuedProfile := profile, kid := head.kid, iat := head.iat,
         exp, caveatsJson,
         delegationJti := if profile = .custodyDelegation then head.caveats.strings .jti else none }

end Verification

end Synergos.Lct
