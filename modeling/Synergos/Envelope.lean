import Synergos.Base64url
import Synergos.Logs

/-!
# Signed envelopes

A signature covers the name of its context, a zero byte, one version byte and
the canonical form of the payload. The contexts are a closed table that also
says who may sign in each of them.

The signature primitive is a third-party library and a parameter: key
derivation, signing and checking. Names of contexts contain no zero byte, so a
message determines its context, its version and its canonical payload; a
signature made in one context is never one for another.
-/

namespace Synergos.Envelope

open JsonText Jcs Base64url
open Logs (split_unique)

abbrev Seed := Bytes 32

abbrev PublicKey := Bytes 32

abbrev Signature := Bytes 64

/-- The signature primitive. -/
structure Scheme where
  publicKey : Seed → PublicKey
  sign : Seed → List UInt8 → Signature
  check : PublicKey → List UInt8 → Signature → Bool

inductive Ctx where
  | peerSession | membership | gossip | chain | invite | nodeCard | presence | projectRoster
  | rosterStatus | heartbeat | enroll | revocation | receipt | lct | journalCheckpoint
  deriving DecidableEq, Repr

inductive Signer where
  | cernere | node | controlDeny | custody | curare | holder
  deriving DecidableEq, Repr

/-- One line of the table of contexts. -/
structure Row where
  ctx : Ctx
  name : String
  signers : List Signer

def registry : List Row := [
  ⟨.peerSession, "synergos/peer-session", [.node]⟩,
  ⟨.membership, "synergos/membership", [.cernere]⟩,
  ⟨.gossip, "synergos/gossip", [.node]⟩,
  ⟨.chain, "synergos/chain", [.node]⟩,
  ⟨.invite, "synergos/invite", [.node]⟩,
  ⟨.nodeCard, "synergos/node-card", [.cernere]⟩,
  ⟨.presence, "synergos/presence", [.node]⟩,
  ⟨.projectRoster, "synergos/project-roster", [.cernere]⟩,
  ⟨.rosterStatus, "synergos/roster-status", [.cernere]⟩,
  ⟨.heartbeat, "synergos/heartbeat", [.node]⟩,
  ⟨.enroll, "synergos/enroll", [.node]⟩,
  ⟨.revocation, "synergos/revocation", [.controlDeny]⟩,
  ⟨.receipt, "synergos/receipt", [.custody]⟩,
  ⟨.lct, "synergos/lct", [.custody, .holder]⟩,
  ⟨.journalCheckpoint, "synergos/journal-checkpoint", [.custody, .curare]⟩]

/-- The line of a context. -/
def row (ctx : Ctx) : Checked Row :=
  match registry.find? (fun r => r.ctx = ctx) with
  | some found => .ok found
  | none => fail .envelopeBadCtx "ctx not in registry"

def ctxName (ctx : Ctx) : String :=
  match registry.find? (fun r => r.ctx = ctx) with
  | some found => found.name
  | none => ""

def parseCtx (name : String) : Option Ctx :=
  (registry.find? (fun r => r.name = name)).map Row.ctx

def signerAllowed (ctx : Ctx) (signer : Signer) : Bool :=
  match registry.find? (fun r => r.ctx = ctx) with
  | some found => found.signers.contains signer
  | none => false

/-- The bytes of a string. -/
def utf8 (text : String) : List UInt8 := text.toByteArray.data.toList

section Signing

variable (reader : String → Option Json) (scheme : Scheme)

/-- The signed bytes. -/
def message (ctx : Ctx) (ver : UInt8) (payloadJson : String) : Checked (List UInt8) := do
  let canonical ← canonicalize reader payloadJson
  let line ← row ctx
  pure (utf8 line.name ++ 0 :: ver :: utf8 canonical)

def sign (ctx : Ctx) (ver : UInt8) (payloadJson : String) (signer : Signer) (key : Seed) :
    Checked Signature := do
  ensure (signerAllowed ctx signer) .envelopeBadSigner "signer not allowed for ctx"
  let signed ← message reader ctx ver payloadJson
  pure (scheme.sign key signed)

/-- Check a signature. The returned payload of the source is not used by any
caller modelled here. -/
def verify (ctx : Ctx) (ver : UInt8) (payloadJson : String) (signer : Signer) (key : PublicKey)
    (signature : Signature) : Checked Unit := do
  ensure (signerAllowed ctx signer) .envelopeBadSigner "signer not allowed for ctx"
  let signed ← message reader ctx ver payloadJson
  ensure (scheme.check key signed signature) .envelopeBadSignature "signature mismatch"

end Signing

/-! ## Separation of messages -/

theorem row_ok (ctx : Ctx) : ∃ line, row ctx = .ok line ∧ line.name = ctxName ctx := by
  cases ctx <;> exact ⟨_, rfl, rfl⟩

theorem parseCtx_ctxName (ctx : Ctx) : parseCtx (ctxName ctx) = some ctx := by
  cases ctx <;> decide

theorem ctxName_injective {left right : Ctx} (same : ctxName left = ctxName right) :
    left = right := by
  have parsed := congrArg parseCtx same
  rw [parseCtx_ctxName, parseCtx_ctxName] at parsed
  exact Option.some.inj parsed

theorem utf8_injective {left right : String} (same : utf8 left = utf8 right) : left = right := by
  have arrays : left.toByteArray.data = right.toByteArray.data := Array.toList_inj.mp same
  exact String.toByteArray_inj.mp (ByteArray.ext arrays)

theorem utf8_length (text : String) : (utf8 text).length = text.utf8ByteSize := rfl

theorem ctxName_zero_free (ctx : Ctx) : 0 ∉ utf8 (ctxName ctx) := by
  cases ctx <;> decide

section Messages

variable {reader : String → Option Json}

theorem message_ok (ctx : Ctx) (ver : UInt8) (payloadJson : String) (signed : List UInt8) :
    message reader ctx ver payloadJson = .ok signed ↔
      ∃ canonical, canonicalize reader payloadJson = .ok canonical ∧
        signed = utf8 (ctxName ctx) ++ 0 :: ver :: utf8 canonical := by
  obtain ⟨line, found, name⟩ := row_ok ctx
  simp only [message, found, bind_ok, pure_ok, Except.ok.injEq, ← name]
  constructor
  · rintro ⟨canonical, canonicalized, _, rfl, rfl⟩
    exact ⟨canonical, canonicalized, rfl⟩
  · rintro ⟨canonical, canonicalized, rfl⟩
    exact ⟨canonical, canonicalized, line, rfl, rfl⟩

/-- A message determines its context, its version and its canonical payload. -/
theorem message_injective {ctx ctx' : Ctx} {ver ver' : UInt8} {payload payload' : String}
    {signed : List UInt8} (first : message reader ctx ver payload = .ok signed)
    (second : message reader ctx' ver' payload' = .ok signed) :
    ctx = ctx' ∧ ver = ver' ∧ ∃ canonical, canonicalize reader payload = .ok canonical ∧
      canonicalize reader payload' = .ok canonical := by
  obtain ⟨canonical, canonicalized, shape⟩ := (message_ok ctx ver payload signed).mp first
  obtain ⟨canonical', canonicalized', shape'⟩ := (message_ok ctx' ver' payload' signed).mp second
  obtain ⟨names, rest⟩ := split_unique _ _ (ctxName_zero_free ctx) (ctxName_zero_free ctx')
    (shape.symm.trans shape')
  obtain ⟨rfl, payloads⟩ := List.cons.inj rest
  obtain rfl := utf8_injective payloads
  exact ⟨ctxName_injective (utf8_injective names), rfl, canonical, canonicalized, canonicalized'⟩

/-- A check passes exactly where the signer is allowed and the key accepts the
signature on the message. -/
theorem verify_ok (scheme : Scheme) (ctx : Ctx) (ver : UInt8) (payloadJson : String)
    (signer : Signer) (key : PublicKey) (signature : Signature) :
    verify reader scheme ctx ver payloadJson signer key signature = .ok () ↔
      signerAllowed ctx signer = true ∧ ∃ signed, message reader ctx ver payloadJson = .ok signed ∧
        scheme.check key signed signature = true := by
  simp [verify, bind_ok, ensure_ok]

theorem sign_ok (scheme : Scheme) (ctx : Ctx) (ver : UInt8) (payloadJson : String)
    (signer : Signer) (key : Seed) (signature : Signature) :
    sign reader scheme ctx ver payloadJson signer key = .ok signature ↔
      signerAllowed ctx signer = true ∧ ∃ signed, message reader ctx ver payloadJson = .ok signed ∧
        scheme.sign key signed = signature := by
  simp only [sign, bind_ok, ensure_ok, pure_ok, exists_const]

end Messages

end Synergos.Envelope
