import Synergos.CaveatText

/-!
# Profiles of capability tokens

The three profiles, their rules for the caveats of the first block and for the
intersection of all blocks, and which issued profile may be presented as which.
A capability may be a narrowed delegation; every other token is presented as
what it was issued as.
-/

namespace Synergos.ProfileRules

open Jcs Caveat CaveatText

inductive Profile where
  | membership | custodyDelegation | custodyCapability
  deriving DecidableEq, Repr

def profileName : Profile → String
  | .membership => "membership"
  | .custodyDelegation => "custody-delegation"
  | .custodyCapability => "custody-capability"

def parseProfile (name : String) : Option Profile :=
  [Profile.membership, .custodyDelegation, .custodyCapability].find? (fun p => profileName p = name)

/-- The longest remaining lifetime in seconds that is accepted. -/
def maxTtl (profile : Profile) (urlForm : Bool) : Int :=
  match profile with
  | .membership => 3600
  | .custodyDelegation => 3600
  | .custodyCapability => if urlForm then 120 else 300

def delegationOps : List String :=
  ["admit", "commit", "get", "head", "put", "reclaim_request", "verify"]

/-- A rule that must hold. -/
def rule (condition : Prop) [Decidable condition] (text : String) : Checked Unit :=
  ensure condition .lctProfileRule text

/-- A text goes on after a given head. -/
def startsAfter (text head : String) : Bool :=
  decide (head.utf8ByteSize < text.utf8ByteSize) && startsWith text head

/-- All the named string caveats are present. -/
def require (c : Caveats) : List StringCaveat → Checked Unit
  | [] => .ok ()
  | caveat :: rest => do
    rule ((c.strings caveat).isSome) (caveat.name ++ " is required")
    require c rest

/-- The first unknown operation is reported. -/
def knownOps : List String → Checked Unit
  | [] => .ok ()
  | op :: rest => do
    rule (op ∈ delegationOps) ("unknown delegation op " ++ op)
    knownOps rest

def checkDelegation (c : Caveats) : Checked Unit := do
  require c [.iss, .sub, .jti]
  rule ((c.strings .iss).any (startsAfter · "custody:")) "iss must be custody:<instance>"
  rule ((c.strings .sub).any (startsAfter · "curare:")) "sub must be curare:<deployment>"
  rule (c.orgs.any (fun orgs => orgs.Nonempty)) "orgs is required"
  rule (c.ops.any (fun ops => ops.Nonempty)) "ops is required"
  knownOps (ascending (c.ops.getD ∅))
  rule c.maxBytesPerHour.isSome "max_bytes_per_hour is required"

def checkCapability (c : Caveats) : Checked Unit := do
  require c [.org, .projectRef, .jti, .sub, .sessionId]
  rule (c.ops = some {"get"} ∨ c.ops = some {"put"}) "ops must be exactly [get] or [put]"
  if c.ops = some {"put"} then do
    rule (c.objectKeys.any (fun keys => keys.Nonempty)) "PUT names upload:<upload_id> object keys"
    rule (∀ key ∈ c.objectKeys.getD ∅, startsAfter key "upload:" = true)
      "PUT object keys must be upload:<upload_id>"
    rule c.maxBytes.isSome "PUT requires max_bytes"
    rule c.byteRange.isNone "byte_range is valid only for GET"
  else
    rule (c.objectKeys.isSome ∨ (c.strings .keyPrefix).isSome) "GET names object_keys or prefix"

def checkMembership (c : Caveats) : Checked Unit := do
  require c [.iss, .subPeerId, .nodeId, .principal, .deviceId, .org, .jti]
  rule (c.strings .iss = some "cernere") "membership iss must be cernere"
  rule c.rosterEpoch.isSome "membership requires roster_epoch"
  rule (c.projects.any (fun projects => projects.Nonempty)) "membership requires explicit projects"
  rule (∀ entry ∈ c.projects.getD ∅, entry.1 ≠ "" ∧ entry.1 ≠ "*")
    "membership project must be explicit"

/-- A token issued under one profile may be presented as the other. -/
def presentable (issued presented : Profile) : Bool :=
  issued = presented || (issued = .custodyDelegation && presented = .custodyCapability)

/-- The rules of the first block. -/
def checkIssued (issued : Profile) (head : Caveats) : Checked Unit :=
  match issued with
  | .custodyDelegation => checkDelegation head
  | .membership => checkMembership head
  | .custodyCapability => .ok ()

/-- The rules of the presented profile for the intersection of all blocks. -/
def checkPresented (presented : Profile) (effective : Caveats) : Checked Unit :=
  match presented with
  | .membership => checkMembership effective
  | .custodyDelegation => checkDelegation effective
  | .custodyCapability => checkCapability effective

end Synergos.ProfileRules
