import Synergos.LctVerify

/-!
# The capability gate of the custody service

Before a request is served, its sealed token is verified against the current
revocation state and the caveats that verification returns are compared with the
request. The caveats arrive as JSON text and are read again here, by name.

A request is accepted exactly when the state is fresh, the token verifies, the
request fits the caveats and nothing that has been revoked hits the token. Which
of these survive a further block of the holder decides what revocation is worth:
labels, issue time and session do, the subject does not.
-/

namespace Synergos.CapabilityGate

open JsonText Jcs Base64url Envelope Caveat CaveatText ProfileRules Lct LctText LctVerify

inductive CapabilityOperation where
  | unspecified | get | put
  deriving DecidableEq, Repr

/-- An inclusive range of bytes. -/
structure ByteRange where
  first : UInt64
  last : UInt64
  deriving DecidableEq

structure CapabilityRequest where
  operation : CapabilityOperation := .unspecified
  org : String
  projectRef : String
  objectKey : String
  storedObjectBytes : Option UInt64 := none
  storedUploadBytes : Option UInt64 := none
  declaredBytes : Option UInt64 := none
  range : Option ByteRange := none
  storedDigest : Option String := none
  expectedSubject : Option String := none
  expectedSessionId : Option String := none
  urlForm : Bool := false

structure VerifiedRevocationState where
  org : String
  localIssuedAt : Int
  localExpiresAt : Int
  rosterIssuedAt : Int
  rosterExpiresAt : Int
  tokenRevocations : RevocationView := {}
  deniedSubjects : Finset String := ∅
  deniedSessions : Finset String := ∅
  readOnlyProjects : Finset String := ∅
  organizationFrozen : Bool := false

inductive CapabilityFailure where
  | invalid | outOfScope | revocationStale | rangeDenied | byteLimit
  deriving DecidableEq, Repr

structure RedemptionConstraints where
  subject : String
  sessionId : String
  jti : String
  delegationJti : Option String
  requiredDigest : Option String
  downloadName : Option String
  requestByteCeiling : UInt64
  maxUses : Option UInt64
  maxBytesPerHour : Option UInt64

abbrev Gate (α : Type) := Except CapabilityFailure α

def deny {α : Type} (failure : CapabilityFailure) : Gate α := .error failure

/-- Go on only under a condition. -/
def demand (condition : Prop) [Decidable condition] (failure : CapabilityFailure) : Gate Unit :=
  if condition then .ok () else deny failure

def validWindow (issued expires now : Int) : Prop :=
  0 ≤ issued ∧ issued ≤ now ∧ issued ≤ expires ∧ expires - issued = 300 ∧ now < expires

instance (issued expires now : Int) : Decidable (validWindow issued expires now) :=
  inferInstanceAs (Decidable (_ ∧ _))

/-! ## Reading the caveats by name -/

def text (object : Json) (name : String) : Gate (Option String) :=
  match object.get? name with
  | none => .ok none
  | some (.str value) => .ok (some value)
  | some _ => deny .invalid

def required (object : Json) (name : String) : Gate String := do
  match ← text object name with
  | none => deny .invalid
  | some value => do
    demand (value ≠ "") .invalid
    pure value

/-- A number as a signed one of 64 bits; anything else counts as zero. -/
def sint : Option Json → Int
  | some (.int n) => if n < 9223372036854775808 then n else n - 18446744073709551616
  | _ => 0

def number (object : Json) (name : String) : Gate (Option UInt64) :=
  match object.get? name with
  | none => .ok none
  | some (.int n) => do
    demand (0 ≤ sint (some (.int n))) .invalid
    pure (some (UInt64.ofNat (sint (some (.int n))).toNat))
  | some _ => deny .invalid

/-- Whether a key is among listed ones. -/
def listed (key : String) : List Json → Gate Bool
  | [] => .ok false
  | .str value :: rest => if value = key then .ok true else listed key rest
  | _ :: _ => deny .invalid

def objectMatches (caveats : Json) (key : String) : Gate Bool :=
  match caveats.get? "object_keys" with
  | some (.arr items) => listed key items
  | some _ => deny .invalid
  | none => do
    let head ← text caveats "prefix"
    pure (head.any (startsWith key))

/-- A signed range has to contain the range that is asked for. -/
def checkRange (signed : Json) (asked : ByteRange) : Gate Unit :=
  match signed with
  | .arr [first, last] =>
    let first := sint (some first)
    let last := sint (some last)
    demand (¬ (first < 0 ∨ last < first ∨ asked.first < UInt64.ofNat first.toNat ∨
      UInt64.ofNat last.toNat < asked.last)) .rangeDenied
  | _ => deny .invalid

/-- The number of bytes that a download takes. -/
def getBytes (caveats : Json) (request : CapabilityRequest) : Gate UInt64 :=
  match request.storedObjectBytes, caveats.get? "byte_range", request.range with
  | none, _, _ => deny .outOfScope
  | some _, some _, none => deny .rangeDenied
  | some size, none, none => .ok size
  | some size, signed, some asked => do
    demand (¬ (asked.last < asked.first ∨ size ≤ asked.last)) .rangeDenied
    match signed with
    | none => pure ()
    | some signed => checkRange signed asked
    pure (asked.last - asked.first + 1)

/-- The number of bytes that an upload may still bring. -/
def putBytes (maximum : Option UInt64) (request : CapabilityRequest) : Gate UInt64 :=
  match maximum, request.storedUploadBytes with
  | some maximum, some stored => do
    demand (stored ≤ maximum) .byteLimit
    match request.declaredBytes with
    | none => pure (maximum - stored)
    | some declared => do
      demand (declared ≤ maximum - stored) .byteLimit
      pure declared
  | _, _ => deny .outOfScope

/-- The byte ceiling of either operation. -/
def checkBytes (caveats : Json) (maximum : Option UInt64) (request : CapabilityRequest) :
    Gate UInt64 :=
  if request.operation = .put then putBytes maximum request
  else do
    let ceiling ← getBytes caveats request
    demand (∀ most ∈ maximum, ceiling ≤ most) .byteLimit
    pure ceiling

/-- Only a download has a file name. -/
def signedName (caveats : Json) (request : CapabilityRequest) : Gate (Option String) :=
  if request.operation = .put then .ok none else text caveats "download_name"

/-- The name of the operation that the caveats must list alone. -/
def operationName (operation : CapabilityOperation) : String :=
  if operation = .put then "put" else "get"

def operationListed (caveats : Json) (operation : CapabilityOperation) : Prop :=
  match caveats.get? "ops" with
  | some (.arr [.str op]) => op = operationName operation
  | _ => False

instance (caveats : Json) (operation : CapabilityOperation) :
    Decidable (operationListed caveats operation) := by
  unfold operationListed
  split <;> infer_instance

/-! ## The check -/

/-- What does not depend on the token. -/
def checkState (state : VerifiedRevocationState) (now : Int) (request : CapabilityRequest) :
    Gate Unit := do
  demand (0 ≤ now ∧ validWindow state.localIssuedAt state.localExpiresAt now ∧
    validWindow state.rosterIssuedAt state.rosterExpiresAt now) .revocationStale
  demand (request.org ≠ "" ∧ request.projectRef ≠ "" ∧ storageKey request.objectKey = true ∧
    state.org = request.org ∧ state.organizationFrozen = false) .outOfScope
  demand (request.operation = .get ∨ request.operation = .put) .invalid
  demand (request.operation = .put → request.urlForm = false ∧ request.range = none ∧
    request.projectRef ∉ state.readOnlyProjects) .outOfScope

/-- The caveats that were verified, against the request and the denied subjects
and sessions. -/
def checkCaveats (caveats : Json) (delegationJti : Option String) (state : VerifiedRevocationState)
    (request : CapabilityRequest) : Gate RedemptionConstraints := do
  let org ← required caveats "org"
  demand (org = request.org) .outOfScope
  let project ← required caveats "project_ref"
  demand (project = request.projectRef) .outOfScope
  let covered ← objectMatches caveats request.objectKey
  demand (covered = true) .outOfScope
  demand (operationListed caveats request.operation) .outOfScope
  let subject ← required caveats "sub"
  let session ← required caveats "session_id"
  demand (∀ expected ∈ request.expectedSubject, expected = subject) .outOfScope
  demand (∀ expected ∈ request.expectedSessionId, expected = session) .outOfScope
  demand (subject ∉ state.deniedSubjects ∧ session ∉ state.deniedSessions) .outOfScope
  let digest ← text caveats "digest"
  demand (request.operation ≠ .put → ∀ signed ∈ digest, request.storedDigest = some signed)
    .outOfScope
  let maximum ← number caveats "max_bytes"
  let ceiling ← checkBytes caveats maximum request
  let jti ← required caveats "jti"
  let downloadName ← signedName caveats request
  let maxUses ← number caveats "max_uses"
  let maxBytesPerHour ← number caveats "max_bytes_per_hour"
  pure { subject, sessionId := session, jti, delegationJti, requiredDigest := digest, downloadName,
         requestByteCeiling := ceiling, maxUses, maxBytesPerHour }

section Check

variable (reader : String → Option Json) (scheme : Scheme)

/-- Verification as this gate asks for it. -/
def presentation (request : CapabilityRequest) : Presented where
  profile := .custodyCapability
  urlForm := request.urlForm
  requireSealed := true

/-- The caveats that verification returns are read again from their text. -/
def checkVerified (verified : Verified) (state : VerifiedRevocationState)
    (request : CapabilityRequest) : Gate RedemptionConstraints :=
  match reader verified.caveatsJson with
  | some (.obj members) => checkCaveats (.obj members) verified.delegationJti state request
  | _ => deny .invalid

def checkCapabilityRequest (token : String) (issuers : String → Option IssuerKey)
    (revocation : Option VerifiedRevocationState) (now : Int) (request : CapabilityRequest) :
    Gate RedemptionConstraints :=
  match revocation with
  | none => deny .revocationStale
  | some state => do
    checkState state now request
    match Lct.verify reader scheme token issuers state.tokenRevocations now (presentation request) with
    | .error _ => deny .invalid
    | .ok verified => checkVerified reader verified state request

end Check

/-! ## What the caveats say -/

theorem demand_ok (condition : Prop) [Decidable condition] (failure : CapabilityFailure)
    (result : Unit) : demand condition failure = .ok result ↔ condition := by
  by_cases holds : condition <;> simp [demand, holds, deny]

/-- The JSON in which verification returns a caveat set. -/
def shown (c : Caveats) : Json := sorted (.obj (members c))

/-- The object keys or the prefix of a caveat set cover a key. -/
def Covers (c : Caveats) (key : String) : Prop :=
  match c.objectKeys with
  | some keys => key ∈ keys
  | none => ∃ head ∈ c.strings .keyPrefix, startsWith key head = true

variable (n : Int) (c : Caveats) (state : VerifiedRevocationState)

theorem text_shown (caveat : StringCaveat) :
    text (shown c) caveat.name = .ok (c.strings caveat) := by
  rw [text, shown, get?_string]
  cases c.strings caveat <;> rfl

theorem required_shown (sound : Sound c) (caveat : StringCaveat) (v : String) :
    required (shown c) caveat.name = .ok v ↔ c.strings caveat = some v := by
  simp only [required, text_shown, ok_bind]
  cases held : c.strings caveat with
  | none => simp [deny]
  | some value =>
    have nonempty : value ≠ "" := (sound.values.strings caveat value held).1
    simp [demand, nonempty]

/-- A number caveat as it is returned. -/
def limit (n : Int) : UInt64 := UInt64.ofNat n.toNat

theorem limit_toNat (valid : ValidNumber n) : ((limit n).toNat : Int) = n := by
  obtain ⟨nonnegative, small⟩ := valid
  have bound : n.toNat < 2 ^ 64 := by
    have most : maxSafeInteger < 2 ^ 64 := by decide
    omega
  rw [limit, UInt64.toNat_ofNat_of_lt' bound]
  omega

theorem sint_valid (valid : ValidNumber n) : sint (some (.int n)) = n := by
  have most : maxSafeInteger < 9223372036854775808 := by decide
  exact if_pos (lt_of_le_of_lt valid.2 most)

theorem number_shown (caveat : OtherCaveat) (field : Option Int)
    (written : otherValue c caveat = field.map .int) (valid : ∀ n ∈ field, ValidNumber n) :
    number (shown c) caveat.name = .ok (field.map limit) := by
  rw [number, shown, get?_other, written]
  cases field with
  | none => rfl
  | some n =>
    have nonnegative : 0 ≤ n := (valid n rfl).1
    simp [sint_valid n (valid n rfl), demand, nonnegative, limit]

theorem listed_strings (key : String) (texts : List String) :
    listed key (texts.map .str) = .ok (decide (key ∈ texts)) := by
  induction texts with
  | nil => rfl
  | cons first rest ih =>
    by_cases same : first = key
    · simp [listed, same]
    · have other : key ≠ first := fun equal => same equal.symm
      simp [listed, same, other, ih]

theorem objectMatches_shown {key : String} :
    objectMatches (shown c) key = .ok true ↔ Covers c key := by
  have keys : (shown c).get? "object_keys" = otherValue c .objectKeys := get?_other c .objectKeys
  have head : text (shown c) "prefix" = .ok (c.strings .keyPrefix) := text_shown c .keyPrefix
  rw [objectMatches, Covers, keys]
  cases held : c.objectKeys with
  | some items =>
    simp [otherValue, held, setJson, listed_strings, ascending]
  | none =>
    simp only [otherValue, held, Option.map_none, head, ok_bind, pure_eq, Except.ok.injEq]
    cases c.strings .keyPrefix <;> simp

theorem ascending_singleton (items : Finset String) (op : String) :
    ascending items = [op] ↔ items = {op} := by
  constructor
  · intro sortedItems
    have same := congrArg List.toFinset sortedItems
    simpa [ascending, Finset.sort_toFinset] using same
  · rintro rfl
    simp [ascending]

theorem operationListed_shown (operation : CapabilityOperation) :
    operationListed (shown c) operation ↔ c.ops = some {operationName operation} := by
  have ops : (shown c).get? "ops" = otherValue c .ops := get?_other c .ops
  rw [operationListed, ops]
  cases held : c.ops with
  | none => simp [otherValue, held]
  | some items =>
    simp only [otherValue, held, Option.map_some, setJson, Option.some.injEq]
    rw [← ascending_singleton]
    rcases ascending items with _ | ⟨first, _ | ⟨second, rest⟩⟩
    · simp
    · simp
    · simp

/-! ## When a request fits -/

/-- The bytes that an upload may still bring: what is left of the limit, or the
declared number where that is within it. -/
def UploadCeiling (c : Caveats) (request : CapabilityRequest) (ceiling : UInt64) : Prop :=
  ∃ most ∈ c.maxBytes, ∃ stored ∈ request.storedUploadBytes,
    (stored.toNat + ceiling.toNat : Int) ≤ most ∧
    match request.declaredBytes with
    | none => (stored.toNat + ceiling.toNat : Int) = most
    | some declared => ceiling = declared

/-- The bytes that a download takes: the whole object, or an asked range within
it and within the signed one. -/
def DownloadCeiling (c : Caveats) (request : CapabilityRequest) (ceiling : UInt64) : Prop :=
  ∃ size ∈ request.storedObjectBytes, (∀ most ∈ c.maxBytes, (ceiling.toNat : Int) ≤ most) ∧
    match request.range with
    | none => c.byteRange = none ∧ ceiling = size
    | some asked => asked.first ≤ asked.last ∧ asked.last < size ∧
        (∀ signed ∈ c.byteRange, signed.1 ≤ asked.first.toNat ∧ (asked.last.toNat : Int) ≤ signed.2) ∧
        ceiling.toNat = asked.last.toNat - asked.first.toNat + 1

def Ceiling (c : Caveats) (request : CapabilityRequest) (ceiling : UInt64) : Prop :=
  if request.operation = .put then UploadCeiling c request ceiling
  else DownloadCeiling c request ceiling

/-- A request lies within a caveat set. -/
structure Fits (c : Caveats) (request : CapabilityRequest) : Prop where
  org : c.strings .org = some request.org
  project : c.strings .projectRef = some request.projectRef
  object : Covers c request.objectKey
  operation : c.ops = some {operationName request.operation}
  subject : ∃ subject, c.strings .sub = some subject ∧
    ∀ expected ∈ request.expectedSubject, expected = subject
  session : ∃ session, c.strings .sessionId = some session ∧
    ∀ expected ∈ request.expectedSessionId, expected = session
  digest : request.operation ≠ .put →
    ∀ signed ∈ c.strings .digest, request.storedDigest = some signed
  bytes : ∃ ceiling, Ceiling c request ceiling
  label : ∃ jti, c.strings .jti = some jti

theorem putBytes_ok (valid : ∀ n ∈ c.maxBytes, ValidNumber n)
    (request : CapabilityRequest) (ceiling : UInt64) :
    putBytes (c.maxBytes.map limit) request = .ok ceiling ↔ UploadCeiling c request ceiling := by
  unfold putBytes UploadCeiling
  cases held : c.maxBytes with
  | none => simp [deny]
  | some most =>
    cases persisted : request.storedUploadBytes with
    | none => simp [deny]
    | some stored =>
      have value := limit_toNat most (valid most held)
      have left (below : stored ≤ limit most) :
          (limit most - stored).toNat = (limit most).toNat - stored.toNat :=
        UInt64.toNat_sub_of_le _ _ below
      simp only [Option.map_some, bind_ok, demand_ok, exists_const, Option.mem_some_iff,
        exists_eq_left']
      cases request.declaredBytes with
      | none =>
        simp only [pure_ok]
        constructor
        · rintro ⟨below, rfl⟩
          have order := UInt64.le_iff_toNat_le.mp below
          rw [left below]
          omega
        · rintro ⟨_, whole⟩
          have below : stored ≤ limit most := UInt64.le_iff_toNat_le.mpr (by omega)
          refine ⟨below, UInt64.toNat_inj.mp ?_⟩
          rw [left below]
          omega
      | some declared =>
        simp only [bind_ok, demand_ok, exists_const, pure_ok]
        constructor
        · rintro ⟨below, within, rfl⟩
          have order := UInt64.le_iff_toNat_le.mp below
          have inside := UInt64.le_iff_toNat_le.mp within
          rw [left below] at inside
          exact ⟨by omega, rfl⟩
        · rintro ⟨within, rfl⟩
          have below : stored ≤ limit most := UInt64.le_iff_toNat_le.mpr (by omega)
          refine ⟨below, UInt64.le_iff_toNat_le.mpr ?_, rfl⟩
          rw [left below]
          omega

/-- A signed range contains the asked one. -/
theorem checkRange_ok {signed : Int × Int} (valid : ValidNumber signed.1 ∧ ValidNumber signed.2 ∧
    signed.1 ≤ signed.2) (asked : ByteRange) (result : Unit) :
    checkRange (.arr [.int signed.1, .int signed.2]) asked = .ok result ↔
      signed.1 ≤ asked.first.toNat ∧ (asked.last.toNat : Int) ≤ signed.2 := by
  obtain ⟨first, last, order⟩ := valid
  have firstValue := limit_toNat signed.1 first
  have lastValue := limit_toNat signed.2 last
  simp only [checkRange, sint_valid _ first, sint_valid _ last, demand_ok]
  change ¬ (_ ∨ _ ∨ asked.first < limit signed.1 ∨ limit signed.2 < asked.last) ↔ _
  rw [UInt64.lt_iff_toNat_lt, UInt64.lt_iff_toNat_lt]
  have nonnegative := first.1
  omega

theorem getBytes_shown (sound : Sound c) (request : CapabilityRequest) (ceiling : UInt64) :
    getBytes (shown c) request = .ok ceiling ↔ ∃ size ∈ request.storedObjectBytes,
      match request.range with
      | none => c.byteRange = none ∧ ceiling = size
      | some asked => asked.first ≤ asked.last ∧ asked.last < size ∧
          (∀ signed ∈ c.byteRange,
            signed.1 ≤ asked.first.toNat ∧ (asked.last.toNat : Int) ≤ signed.2) ∧
          ceiling.toNat = asked.last.toNat - asked.first.toNat + 1 := by
  have range : (shown c).get? "byte_range" = otherValue c .byteRange := get?_other c .byteRange
  rw [getBytes, range]
  cases request.storedObjectBytes with
  | none => simp [deny]
  | some size =>
    cases request.range with
    | none =>
      cases held : c.byteRange with
      | none => simp [otherValue, held, eq_comm]
      | some signed => simp [otherValue, held, deny]
    | some asked =>
      have length (ordered : asked.first ≤ asked.last) (inside : asked.last < size) :
          (asked.last - asked.first + 1).toNat = asked.last.toNat - asked.first.toNat + 1 := by
        have difference := UInt64.toNat_sub_of_le _ _ ordered
        have order := UInt64.le_iff_toNat_le.mp ordered
        have below := UInt64.lt_iff_toNat_lt.mp inside
        have small := size.toNat_lt
        rw [UInt64.toNat_add, difference, UInt64.toNat_one]
        omega
      have result (ordered : asked.first ≤ asked.last) (inside : asked.last < size) :
          asked.last - asked.first + 1 = ceiling ↔
            ceiling.toNat = asked.last.toNat - asked.first.toNat + 1 := by
        rw [← UInt64.toNat_inj, length ordered inside, eq_comm]
      simp only [Option.mem_some_iff, exists_eq_left']
      cases held : c.byteRange with
      | none =>
        simp only [otherValue, held, Option.map_none, bind_ok, demand_ok, exists_const, pure_ok,
          not_or, UInt64.not_lt, UInt64.not_le]
        constructor
        · rintro ⟨⟨ordered, inside⟩, same⟩
          exact ⟨ordered, inside, by simp, (result ordered inside).mp same⟩
        · rintro ⟨ordered, inside, _, same⟩
          exact ⟨⟨ordered, inside⟩, (result ordered inside).mpr same⟩
      | some signed =>
        have valid := sound.values.byteRange signed held
        simp only [otherValue, held, Option.map_some, bind_ok, demand_ok, exists_const, pure_ok,
          not_or, UInt64.not_lt, UInt64.not_le, checkRange_ok valid, Option.mem_some_iff,
          forall_eq']
        constructor
        · rintro ⟨⟨ordered, inside⟩, contained, same⟩
          exact ⟨ordered, inside, contained, (result ordered inside).mp same⟩
        · rintro ⟨ordered, inside, contained, same⟩
          exact ⟨⟨ordered, inside⟩, contained, (result ordered inside).mpr same⟩

/-- The byte ceiling of a request under the caveats that were verified. -/
theorem checkBytes_shown (sound : Sound c) (request : CapabilityRequest) (ceiling : UInt64) :
    checkBytes (shown c) (c.maxBytes.map limit) request = .ok ceiling ↔
      Ceiling c request ceiling := by
  unfold checkBytes Ceiling
  by_cases upload : request.operation = .put
  · rw [if_pos upload, if_pos upload]
    exact putBytes_ok c sound.values.maxBytes request ceiling
  · rw [if_neg upload, if_neg upload]
    have bounded : (∀ most ∈ c.maxBytes.map limit, ceiling ≤ most) ↔
        ∀ most ∈ c.maxBytes, (ceiling.toNat : Int) ≤ most := by
      cases held : c.maxBytes with
      | none => simp
      | some most =>
        have value := limit_toNat most (sound.values.maxBytes most held)
        simp only [Option.map_some, Option.mem_some_iff, forall_eq', UInt64.le_iff_toNat_le]
        omega
    simp only [bind_ok, getBytes_shown c sound, demand_ok, exists_const, pure_ok, DownloadCeiling]
    constructor
    · rintro ⟨found, ⟨size, stored, exact⟩, most, rfl⟩
      exact ⟨size, stored, bounded.mp most, exact⟩
    · rintro ⟨size, stored, most, exact⟩
      exact ⟨ceiling, ⟨size, stored, exact⟩, bounded.mpr most, rfl⟩

/-- What the gate has made sure of when it accepts caveats. -/
structure Grants (state : VerifiedRevocationState) (c : Caveats) (request : CapabilityRequest)
    (result : RedemptionConstraints) : Prop where
  fits : Fits c request
  subjects : ∀ subject ∈ c.strings .sub, subject ∉ state.deniedSubjects
  sessions : ∀ session ∈ c.strings .sessionId, session ∉ state.deniedSessions
  subject : c.strings .sub = some result.subject
  session : c.strings .sessionId = some result.sessionId
  digest : result.requiredDigest = c.strings .digest
  ceiling : Ceiling c request result.requestByteCeiling

/-- The caveats are accepted when the request fits them and neither subject nor
session is denied. -/
theorem checkCaveats_shown (sound : Sound c) (delegationJti : Option String)
    (state : VerifiedRevocationState) (request : CapabilityRequest) :
    (∀ result, checkCaveats (shown c) delegationJti state request = .ok result →
      Grants state c request result) ∧
    (Fits c request → (∀ subject ∈ c.strings .sub, subject ∉ state.deniedSubjects) →
      (∀ session ∈ c.strings .sessionId, session ∉ state.deniedSessions) →
      ∃ result, checkCaveats (shown c) delegationJti state request = .ok result) := by
  have org (v : String) : required (shown c) "org" = .ok v ↔ _ := required_shown c sound .org v
  have project (v : String) : required (shown c) "project_ref" = .ok v ↔ _ :=
    required_shown c sound .projectRef v
  have sub (v : String) : required (shown c) "sub" = .ok v ↔ _ := required_shown c sound .sub v
  have session (v : String) : required (shown c) "session_id" = .ok v ↔ _ :=
    required_shown c sound .sessionId v
  have jti (v : String) : required (shown c) "jti" = .ok v ↔ _ := required_shown c sound .jti v
  have digest : text (shown c) "digest" = _ := text_shown c .digest
  have name : text (shown c) "download_name" = _ := text_shown c .downloadName
  have maximum : number (shown c) "max_bytes" = _ :=
    number_shown c .maxBytes c.maxBytes rfl sound.values.maxBytes
  have uses : number (shown c) "max_uses" = _ :=
    number_shown c .maxUses c.maxUses rfl sound.values.maxUses
  have perHour : number (shown c) "max_bytes_per_hour" = _ :=
    number_shown c .maxBytesPerHour c.maxBytesPerHour rfl sound.values.maxBytesPerHour
  have named : ∃ found, signedName (shown c) request = .ok found := by
    unfold signedName
    split_ifs
    · exact ⟨_, rfl⟩
    · exact ⟨_, name⟩
  simp only [checkCaveats, bind_ok, demand_ok, exists_const, org, project, sub, session, jti, digest,
    maximum, uses, perHour, operationListed_shown, Except.ok.injEq, pure_ok]
  constructor
  · rintro _ ⟨o, heldOrg, rfl, p, heldProject, rfl, covered, matching, rfl, operation, subject,
      heldSubject, current, heldSession, expectedSubject, expectedSession, ⟨allowed, open_⟩, signed,
      rfl, stored, most, rfl, ceiling, bytes, label, heldLabel, _, _, _, rfl, _, rfl, rfl⟩
    have allows := (checkBytes_shown c sound request ceiling).mp bytes
    refine ⟨⟨heldOrg, heldProject, (objectMatches_shown c).mp matching, operation,
      ⟨subject, heldSubject, expectedSubject⟩, ⟨current, heldSession, expectedSession⟩, stored,
      ⟨ceiling, allows⟩, ⟨label, heldLabel⟩⟩, ?_, ?_, heldSubject, heldSession, rfl, allows⟩
    · intro other held
      obtain rfl := Option.some.inj (heldSubject.symm.trans held)
      exact allowed
    · intro other held
      obtain rfl := Option.some.inj (heldSession.symm.trans held)
      exact open_
  · intro fits subjects sessions
    obtain ⟨subject, heldSubject, expectedSubject⟩ := fits.subject
    obtain ⟨current, heldSession, expectedSession⟩ := fits.session
    obtain ⟨ceiling, bytes⟩ := fits.bytes
    obtain ⟨label, heldLabel⟩ := fits.label
    obtain ⟨found, download⟩ := named
    exact ⟨_, _, fits.org, rfl, _, fits.project, rfl, true, (objectMatches_shown c).mpr fits.object,
      rfl, fits.operation, subject, heldSubject, current, heldSession, expectedSubject,
      expectedSession, ⟨subjects subject heldSubject, sessions current heldSession⟩, _, rfl,
      fits.digest, _, rfl, ceiling, (checkBytes_shown c sound request ceiling).mpr bytes, label,
      heldLabel, found, download, _, rfl, _, rfl, rfl⟩

/-! ## What revocation does -/

/-- The state is fresh and the request is one that some token may allow. -/
structure Admissible (state : VerifiedRevocationState) (now : Int) (request : CapabilityRequest) :
    Prop where
  time : 0 ≤ now
  localWindow : validWindow state.localIssuedAt state.localExpiresAt now
  rosterWindow : validWindow state.rosterIssuedAt state.rosterExpiresAt now
  named : request.org ≠ "" ∧ request.projectRef ≠ "" ∧ storageKey request.objectKey = true
  org : state.org = request.org
  operation : request.operation = .get ∨ request.operation = .put
  upload : request.operation = .put → request.urlForm = false ∧ request.range = none ∧
    request.projectRef ∉ state.readOnlyProjects

/-- No project of the caveats is frozen. -/
structure Unfrozen (state : VerifiedRevocationState) (c : Caveats) : Prop where
  project : ∀ project ∈ c.strings .projectRef, project ∉ state.tokenRevocations.frozenProjectRefs
  projects : ∀ entry ∈ c.projects.getD ∅, entry.1 ∉ state.tokenRevocations.frozenProjectRefs

/-- Something that has been revoked hits a token with these caveats. -/
inductive Hit (state : VerifiedRevocationState) (iat : Int) (c : Caveats) : Prop
  | organization (frozen : state.organizationFrozen = true)
  | label (jti : String) (carried : jti ∈ c.chainJti)
      (revoked : jti ∈ state.tokenRevocations.revokedJti)
  | cutoff (time : Int) (cut : time ∈ state.tokenRevocations.capIssuedBefore) (old : iat < time)
  | session (session : String) (held : c.strings .sessionId = some session)
      (denied : session ∈ state.deniedSessions)
  | subject (subject : String) (held : c.strings .sub = some subject)
      (denied : subject ∈ state.deniedSubjects)

/-- The same state with nothing revoked. -/
def cleared (state : VerifiedRevocationState) : VerifiedRevocationState :=
  { state with
    tokenRevocations := { state.tokenRevocations with revokedJti := ∅, capIssuedBefore := none }
    deniedSubjects := ∅
    deniedSessions := ∅
    organizationFrozen := false }

theorem checkState_ok (now : Int) (request : CapabilityRequest) (result : Unit) :
    checkState state now request = .ok result ↔
      Admissible state now request ∧ state.organizationFrozen = false := by
  simp only [checkState, bind_ok, demand_ok, exists_const]
  constructor
  · rintro ⟨⟨time, localWindow, rosterWindow⟩, ⟨org, project, key, same, unfrozen⟩, operation, upload⟩
    exact ⟨⟨time, localWindow, rosterWindow, ⟨org, project, key⟩, same, operation, upload⟩, unfrozen⟩
  · rintro ⟨admissible, unfrozen⟩
    obtain ⟨org, project, key⟩ := admissible.named
    exact ⟨⟨admissible.time, admissible.localWindow, admissible.rosterWindow⟩,
      ⟨org, project, key, admissible.org, unfrozen⟩, admissible.operation, admissible.upload⟩

theorem verifyRevocation_ok (iat : Int) (c : Caveats) (result : Unit) :
    verifyRevocation c iat state.tokenRevocations = .ok result ↔
      (∀ jti ∈ c.chainJti, jti ∉ state.tokenRevocations.revokedJti) ∧
        (∀ cutoff ∈ state.tokenRevocations.capIssuedBefore, cutoff ≤ iat) ∧ Unfrozen state c := by
  simp only [verifyRevocation, bind_ok, ensure_ok, exists_const]
  constructor
  · rintro ⟨labels, times, project, projects⟩
    exact ⟨labels, times, project, projects⟩
  · rintro ⟨labels, times, unfrozen⟩
    exact ⟨labels, times, unfrozen.project, unfrozen.projects⟩

section Gate

variable {reader : String → Option Json} {scheme : Scheme}

/-- The gate accepts a token for a request. -/
def Accepts (reader : String → Option Json) (scheme : Scheme) (keys : String → Option IssuerKey)
    (state : VerifiedRevocationState) (now : Int) (request : CapabilityRequest) (token : String) :
    Prop :=
  ∃ result, checkCapabilityRequest reader scheme token keys (some state) now request = .ok result

/-- A token passes verification for a request, revocation apart. -/
structure Passes (reader : String → Option Json) (scheme : Scheme)
    (keys : String → Option IssuerKey) (now : Int) (request : CapabilityRequest) (token : String)
    (parsed : Parsed) (iat : Int) (c : Caveats) : Prop where
  read : parseToken reader token true = .ok parsed
  chain : ∃ head profile exp, head.iat = iat ∧
    verifyChain reader scheme parsed keys now (presentation request) = .ok (head, profile, c, exp)
  written : ∃ json, toJson reader c = .ok json

/-- A token that verifies when nothing is revoked passes. -/
theorem passes_of_verify (keys : String → Option IssuerKey) (revocation : RevocationView)
    (now : Int)
    (request : CapabilityRequest) (token : String) (parsed : Parsed) (verified : Verified)
    (read : parseToken reader token true = .ok parsed)
    (accepted : Lct.verify reader scheme token keys revocation now (presentation request) =
      .ok verified) :
    ∃ c, Passes reader scheme keys now request token parsed verified.iat c ∧
      intersection parsed.blocks = .ok c := by
  simp only [Lct.verify, bind_ok, pure_ok] at accepted
  obtain ⟨found, readFound, ⟨head, profile, c, exp⟩, checked, _, _, json, written, rfl⟩ := accepted
  obtain rfl := Except.ok.inj (readFound.symm.trans read)
  obtain ⟨_, _, _, _, _, whole⟩ :=
    verifyChain_checks checked
  exact ⟨c, ⟨read, ⟨head, profile, exp, rfl, checked⟩, ⟨json, written⟩⟩, whole⟩

/-- The gate reads back the caveats that verification has written. -/
theorem checkVerified_shown (law : ReadsCompact reader) {c : Caveats} (sound : Sound c)
    {verified : Verified} (written : toJson reader c = .ok verified.caveatsJson)
    {state : VerifiedRevocationState} {request : CapabilityRequest} :
    checkVerified reader verified state request =
      checkCaveats (shown c) verified.delegationJti state request := by
  obtain ⟨settled, shape⟩ := toJson_ok law sound written
  have caveats : reader verified.caveatsJson = some (shown c) :=
    shape ▸ read_of_canonical law settled
  obtain ⟨entries, object⟩ : ∃ entries, shown c = .obj entries := ⟨_, rfl⟩
  rw [checkVerified, caveats, object]

/-- When the gate accepts a token that passes verification. -/
theorem accepts_iff (law : ReadsCompact reader) {keys : String → Option IssuerKey}
    (state : VerifiedRevocationState) {now : Int} {request : CapabilityRequest} {token : String}
    {parsed : Parsed} {iat : Int} {c : Caveats}
    (passes : Passes reader scheme keys now request token parsed iat c) :
    Accepts reader scheme keys state now request token ↔
      Admissible state now request ∧ Fits c request ∧ Unfrozen state c ∧ ¬ Hit state iat c := by
  obtain ⟨head, profile, exp, rfl, checked⟩ := passes.chain
  obtain ⟨json, written⟩ := passes.written
  obtain ⟨_, _, _, _, _, whole⟩ :=
    verifyChain_checks checked
  have sound : Sound c := intersection_sound law
    (parseToken_any passes.read) whole
  have rest (verified : Verified) (json' : verified.caveatsJson = json) :
      (∃ result, checkVerified reader verified state request = .ok result) ↔
      Fits c request ∧ (∀ subject ∈ c.strings .sub, subject ∉ state.deniedSubjects) ∧
        ∀ session ∈ c.strings .sessionId, session ∉ state.deniedSessions := by
    obtain ⟨granted, accepted⟩ := checkCaveats_shown c sound verified.delegationJti state request
    rw [checkVerified_shown law sound (json' ▸ written)]
    constructor
    · rintro ⟨result, done⟩
      exact ⟨(granted result done).fits, (granted result done).subjects, (granted result done).sessions⟩
    · rintro ⟨fits, subjects, sessions⟩
      exact accepted fits subjects sessions
  simp only [Accepts, checkCapabilityRequest, bind_ok, checkState_ok, exists_and_left, exists_const]
  have read : parseToken reader token (presentation request).requireSealed = .ok parsed := passes.read
  cases revoked : verifyRevocation c head.iat state.tokenRevocations with
  | error fault =>
    have refused : Lct.verify reader scheme token keys state.tokenRevocations now
        (presentation request) = .error fault := by
      simp [Lct.verify, read, checked, revoked]
    simp only [refused, deny, reduceCtorEq, exists_false, and_false, false_iff]
    rintro ⟨_, _, unfrozen, unhit⟩
    have passed := (verifyRevocation_ok state head.iat c ()).mpr ⟨?_, ?_, unfrozen⟩
    · simp [revoked] at passed
    · exact fun jti carried denied => unhit (.label jti carried denied)
    · exact fun cutoff cut => Int.not_lt.mp fun old => unhit (.cutoff cutoff cut old)
  | ok done =>
    obtain ⟨labels, times, unfrozen⟩ := (verifyRevocation_ok state head.iat c done).mp revoked
    obtain ⟨verified, verifies, json'⟩ : ∃ verified, Lct.verify reader scheme token keys
        state.tokenRevocations now (presentation request) = .ok verified ∧
        verified.caveatsJson = json := by
      simp [Lct.verify, read, checked, revoked, written, exists_eq_left']
    simp only [verifies, rest verified json']
    constructor
    · rintro ⟨⟨admissible, organization⟩, fits, subjects, sessions⟩
      refine ⟨admissible, fits, unfrozen, ?_⟩
      rintro (frozen | ⟨jti, carried, denied⟩ | ⟨time, cut, old⟩ | ⟨session, held, denied⟩ |
        ⟨subject, held, denied⟩)
      · simp [organization] at frozen
      · exact labels jti carried denied
      · exact absurd (times time cut) (Int.not_le.mpr old)
      · exact sessions session held denied
      · exact subjects subject held denied
    · rintro ⟨admissible, fits, _, unhit⟩
      refine ⟨⟨admissible, ?_⟩, fits, ?_, ?_⟩
      · exact Bool.eq_false_iff.mpr fun frozen => unhit (.organization frozen)
      · exact fun subject held denied => unhit (.subject subject held denied)
      · exact fun session held denied => unhit (.session session held denied)

variable {iat : Int}

/-- A longer chain is hit by everything that hits the shorter one, except by a
denial of its subject. -/
theorem hit_of_longer {c c' : Caveats} (kept : Kept c c') (hit : Hit state iat c) :
    (∃ subject, c.strings .sub = some subject ∧ subject ∈ state.deniedSubjects) ∨
      Hit state iat c' := by
  cases hit with
  | organization frozen => exact .inr (.organization frozen)
  | label jti carried revoked => exact .inr (.label jti (kept.chainJti carried) revoked)
  | cutoff time cut old => exact .inr (.cutoff time cut old)
  | session session held denied =>
    obtain ⟨v, heldLater, same⟩ := kept.strings .sessionId session (by decide) held
    obtain rfl : v = session := same
    exact .inr (.session v heldLater denied)
  | subject subject held denied => exact .inl ⟨subject, held, denied⟩

theorem cleared_unhit (c : Caveats) :
    ¬ Hit (cleared state) iat c := by
  rintro (frozen | ⟨jti, carried, denied⟩ | ⟨time, cut, old⟩ | ⟨session, held, denied⟩ |
    ⟨subject, held, denied⟩)
  · simp [cleared] at frozen
  · simp [cleared] at denied
  · simp [cleared] at cut
  · simp [cleared] at denied
  · simp [cleared] at denied

/-- A holder gets around a denial: the subject of the token is denied, and
nothing that has been revoked hits the longer one. -/
structure Escapes (state : VerifiedRevocationState) (now : Int) (request : CapabilityRequest)
    (iat : Int) (c c' : Caveats) : Prop where
  admissible : Admissible state now request
  fits : Fits c request ∧ Fits c' request
  unfrozen : Unfrozen state c ∧ Unfrozen state c'
  denied : ∃ subject, c.strings .sub = some subject ∧ subject ∈ state.deniedSubjects
  unhit : ¬ Hit state iat c'

/-- A token that the gate refuses because of what has been revoked is refused
with further blocks too, unless the holder gets around a denial of its subject. -/
theorem revocation_survives_iff (law : ReadsCompact reader) (keys : String → Option IssuerKey)
    (now : Int) (request : CapabilityRequest) (token token' : String) (parsed parsed' : Parsed)
    (read : parseToken reader token true = .ok parsed)
    (read' : parseToken reader token' true = .ok parsed')
    (longer : parsed.blocks <+: parsed'.blocks) (verified verified' : Verified)
    (clean : Lct.verify reader scheme token keys {} now (presentation request) = .ok verified)
    (clean' : Lct.verify reader scheme token' keys {} now (presentation request) = .ok verified')
    (c c' : Caveats) (effective : intersection parsed.blocks = .ok c)
    (effective' : intersection parsed'.blocks = .ok c') (state : VerifiedRevocationState) :
    (Accepts reader scheme keys (cleared state) now request token ∧
        ¬ Accepts reader scheme keys state now request token →
      ¬ Accepts reader scheme keys state now request token') ↔
      ¬ Escapes state now request verified'.iat c c' := by
  obtain ⟨found, passes, whole⟩ :=
    passes_of_verify keys {} now request token parsed verified read clean
  obtain rfl := Except.ok.inj (whole.symm.trans effective)
  obtain ⟨found', passes', whole'⟩ :=
    passes_of_verify keys {} now request token' parsed' verified' read' clean'
  obtain rfl := Except.ok.inj (whole'.symm.trans effective')
  obtain ⟨added, shape⟩ := longer
  have nonempty := (parseToken_ok law token true parsed read).2.2.2.1
  have kept : Kept found found' := by
    obtain ⟨held, before, narrowed⟩ := intersection_append parsed.blocks added nonempty found'
      (shape ▸ effective')
    obtain rfl := Except.ok.inj (before.symm.trans effective)
    exact narrow_all_keeps narrowed
  have issued : verified.iat = verified'.iat := by
    obtain ⟨head, _, _, iat, checked⟩ := passes.chain
    obtain ⟨head', _, _, iat', checked'⟩ := passes'.chain
    obtain ⟨_, rest, _, blocks, _⟩ := verifyChain_checks checked
    obtain ⟨_, rest', _, blocks', _⟩ := verifyChain_checks checked'
    rw [blocks, List.cons_append, blocks'] at shape
    rw [← iat, ← iat', (List.cons.inj shape).1]
  rw [accepts_iff law _ passes,
    accepts_iff law _ passes,
    accepts_iff law _ passes', issued]
  have same : Admissible (cleared state) now request ↔ Admissible state now request :=
    ⟨fun a => ⟨a.1, a.2, a.3, a.4, a.5, a.6, a.7⟩, fun a => ⟨a.1, a.2, a.3, a.4, a.5, a.6, a.7⟩⟩
  have frozen : Unfrozen (cleared state) found ↔ Unfrozen state found :=
    ⟨fun u => ⟨u.1, u.2⟩, fun u => ⟨u.1, u.2⟩⟩
  rw [same, frozen]
  constructor
  · rintro survives ⟨admissible, ⟨fits, fits'⟩, ⟨unfrozen, unfrozen'⟩, ⟨subject, held, denied⟩, unhit⟩
    refine survives ⟨⟨admissible, fits, unfrozen, cleared_unhit state found⟩, ?_⟩
      ⟨admissible, fits', unfrozen', unhit⟩
    exact fun accepted => accepted.2.2.2 (.subject subject held denied)
  · rintro contained ⟨⟨admissible, fits, unfrozen, _⟩, refused⟩ ⟨_, fits', unfrozen', unhit⟩
    have hit : Hit state verified'.iat found := by
      by_contra clear
      exact refused ⟨admissible, fits, unfrozen, clear⟩
    have denied := (hit_of_longer state kept hit).resolve_right unhit
    exact contained ⟨admissible, ⟨fits, fits'⟩, ⟨unfrozen, unfrozen'⟩, denied, unhit⟩

end Gate

/-! ## A denial that the holder gets around -/

/-- The sealed token of a download. -/
def sealedDownload : String :=
  tokenOf [(downloadBody, downloadSig)] (.sealed (mirror.sign (seedOf 2) []))

/-- The body of a block that extends the subject, and the longer tokens. -/
def childBody : Json := .obj (bodySorted (.obj [("sub", .str "d/x")]) (seedOf 3) none)

def childSig : Signature := mirror.sign (seedOf 2) []

def childToken : String :=
  tokenOf [(downloadBody, downloadSig), (childBody, childSig)] (.nextSecret (seedOf 3))

def sealedChild : String :=
  tokenOf [(downloadBody, downloadSig), (childBody, childSig)] (.sealed (mirror.sign (seedOf 3) []))

def childCaveats : Caveats where
  strings := Strings.none.set .sub "d/x"

def childBlock : Block := blockOf (String.ofList (render childBody)) childCaveats (seedOf 3) childSig none

/-- The values that the longer tokens add are slim; one evaluation for the group. -/
theorem child_slim : slim (.obj [("sub", .str "d/x")]) = true ∧
    slim (.obj (bodyMembers (.obj [("sub", .str "d/x")]) (seedOf 3) none)) = true ∧
    slim (.obj (downloadListed "d/x")) = true ∧ slim childBody = true := by decide +kernel

theorem childBody_slim : slim childBody = true := child_slim.2.2.2

theorem childBody_canonical : Canonical childBody :=
  canonical_of_writes (slim_writes childBody_slim) (by rfl)

theorem childBody_light : weight childBody ≤ maxBytes := slim_light childBody_slim

theorem child_read : parseCaveatsText JsonText.read
    (String.ofList (render (.obj [("sub", .str "d/x")]))) = .ok childCaveats :=
  parseCaveatsText_done readsCompact_read
    (canonical_of_writes (slim_writes child_slim.1) (by rfl)) (slim_light child_slim.1)
    (by rfl)

theorem child_written : toJson JsonText.read childCaveats =
    .ok (String.ofList (render (.obj [("sub", .str "d/x")]))) := by
  have listed : members childCaveats = [("sub", .str "d/x")] := by
    have texts : StringCaveat.all.filterMap (stringMember childCaveats) = [("sub", .str "d/x")] := by
      rfl
    rw [members, texts]
    simp [List.filterMap_cons, otherMember, childCaveats, otherValue]
  rw [toJson, listed]
  exact canonicalize_plain readsCompact_read (by decide)
    (render_size _ _ (slim_light child_slim.1)) (slim_writes child_slim.1)

theorem childBody_written : body JsonText.read childCaveats (seedOf 3) none =
    .ok (String.ofList (render childBody)) :=
  body_done readsCompact_read childCaveats (.obj [("sub", .str "d/x")]) child_written (by rfl)
    (seedOf 3) none (by decide) (slim_light child_slim.2.1) (slim_writes child_slim.2.1)

theorem bodies_canonical : ∀ part ∈ [(downloadBody, downloadSig), (childBody, childSig)],
    Canonical part.1 := by
  simpa using ⟨downloadBody_canonical, childBody_canonical⟩

theorem bodies_slim : ∀ part ∈ [(downloadBody, downloadSig), (childBody, childSig)],
    slim part.1 = true := by
  simpa using ⟨downloadBody_slim, childBody_slim⟩

theorem bodies_write : ∀ part ∈ [(downloadBody, downloadSig), (childBody, childSig)],
    Writes 3 part.1 :=
  fun part present => slim_writes_body (bodies_slim part present)

theorem child_encoded : encodeToken JsonText.read
    (chainOf [downloadBlock] ++ [(String.ofList (render childBody), childSig)])
      (proofText (.nextSecret (seedOf 3))) = .ok childToken :=
  encodeToken_bodies readsCompact_read [(downloadBody, downloadSig), (childBody, childSig)]
    (.nextSecret (seedOf 3)) bodies_canonical bodies_write (slim_chain bodies_slim (by decide))

theorem child_narrows : narrow (downloadCaveats "d") childCaveats = .ok
    (downloadCaveats "d/x") := by
  have narrowed : narrow (downloadCaveats "d") childCaveats =
      .ok { downloadCaveats "d" with
        strings := (downloadCaveats "d").strings.set .sub "d/x", chainJti := {"j"} ∪ ∅ } := by rfl
  have strings : (downloadCaveats "d").strings.set .sub "d/x" = (downloadCaveats "d/x").strings := by
    funext caveat
    cases caveat <;> rfl
  rw [narrowed, strings, Finset.union_empty]
  rfl

theorem child_attenuated : attenuate JsonText.read mirror downloadToken
    (String.ofList (render (.obj [("sub", .str "d/x")]))) (seedOf 3) = .ok childToken :=
  (attenuate_done mirror downloadToken _ (seedOf 3) (seedOf 2) ⟨[downloadBlock], .nextSecret (seedOf 2)⟩
    (downloadCaveats "d") childCaveats
    (downloadCaveats "d/x") _ childSig downloadToken_parses rfl rfl
    (by decide) rfl child_read child_narrows childBody_written
    (mirror_signs childBody childBody_canonical
      childBody_light .holder (by decide) (seedOf 2))).trans child_encoded

theorem childToken_parses : parseToken JsonText.read childToken false =
    .ok ⟨[downloadBlock, childBlock], .nextSecret (seedOf 3)⟩ :=
  extended_parses readsCompact_read
    downloadToken_parses (parseCaveatsText_sound readsCompact_read child_read) childBody_written (by decide) child_encoded

/-- A seal over a few signatures is made and accepted. -/
theorem mirror_seals {chain : Chain} (short : chain.length ≤ maxBlocks) (seed : Seed) :
    sign JsonText.read mirror .lct 1 (sealPayload chain) .holder seed = .ok (mirror.sign seed []) ∧
      Envelope.verify JsonText.read mirror .lct 1 (sealPayload chain) .holder seed
        (mirror.sign seed []) = .ok () := by
  obtain ⟨canonical, light⟩ := sealJson_canonical short
  rw [sealPayload_render]
  exact ⟨mirror_signs _ canonical light .holder (by decide) seed,
    mirror_verifies canonical light (by decide) seed⟩

theorem download_sealed : sealToken JsonText.read mirror downloadToken = .ok sealedDownload :=
  (seal_done mirror
    downloadToken_parses rfl rfl
    (mirror_seals (by decide) (seedOf 2)).1).trans
    (encodeToken_bodies readsCompact_read [(downloadBody, downloadSig)] _
      (by simpa using downloadBody_canonical) (by simpa using slim_writes_body downloadBody_slim)
      (slim_chain (by simpa using downloadBody_slim) (by decide)))

theorem child_sealed : sealToken JsonText.read mirror childToken = .ok sealedChild :=
  (seal_done mirror
    childToken_parses rfl rfl
    (mirror_seals (by decide) (seedOf 3)).1).trans
    (encodeToken_bodies readsCompact_read [(downloadBody, downloadSig), (childBody, childSig)] _
      bodies_canonical bodies_write (slim_chain bodies_slim (by decide)))

/-- A sealed token is read with the seal of the seed that its holder had. -/
theorem mirror_sealed_parses {token : String} {token' : String} {blocks : List Block}
    {holder : Seed} (read : parseToken JsonText.read token false = .ok ⟨blocks, .nextSecret holder⟩)
    (done : sealToken JsonText.read mirror token = .ok token') :
    parseToken JsonText.read token' true = .ok ⟨blocks, .sealed (mirror.sign holder [])⟩ := by
  obtain ⟨parsed, holder', signature, signed, readAgain, proof, _, read', _, made⟩ :=
    sealToken_ok mirror readsCompact_read done
  obtain rfl := Except.ok.inj (readAgain.symm.trans read)
  obtain rfl := Proof.nextSecret.inj proof
  rw [read' true, made]
  rfl

theorem sealedDownload_parses : parseToken JsonText.read sealedDownload true =
    .ok ⟨[downloadBlock], .sealed (mirror.sign (seedOf 2) [])⟩ :=
  mirror_sealed_parses downloadToken_parses download_sealed

theorem sealedChild_parses : parseToken JsonText.read sealedChild true =
    .ok ⟨[downloadBlock, childBlock], .sealed (mirror.sign (seedOf 3) [])⟩ :=
  mirror_sealed_parses childToken_parses child_sealed

/-- A download of the object that the caveats name. -/
def downloadRequest : CapabilityRequest where
  operation := .get
  org := "o"
  projectRef := "p"
  objectKey := "x/1"
  storedObjectBytes := some 10

theorem sealedDownload_verifies : ∃ verified, Lct.verify JsonText.read mirror sealedDownload
    downloadKeys {} 7 (presentation downloadRequest) = .ok verified := by
  have checked := verifyChain_done mirror ⟨[downloadBlock], .sealed (mirror.sign (seedOf 2) [])⟩
    downloadBlock [] downloadKeys 7 (presentation downloadRequest) ⟨seedOf 1, .custodyCapability⟩
    .custodyCapability (downloadCaveats "d") downloadBlock 50 rfl rfl rfl rfl rfl (by decide)
    (by decide) downloadBlock_verifies rfl
    (mirror_seals (by decide) (seedOf 2)).2
    (download_times "d" true) rfl (download_presented "d")
  exact verify_done mirror sealedDownload downloadKeys {} 7 (presentation downloadRequest) _ _ _ _ _ _
    sealedDownload_parses checked (by rfl) download_written_d

theorem sealedChild_verifies : ∃ verified, Lct.verify JsonText.read mirror sealedChild
    downloadKeys {} 7 (presentation downloadRequest) = .ok verified := by
  have accepted : Envelope.verify JsonText.read mirror .lct 1 childBlock.bodyJson .holder (seedOf 2)
      childBlock.sig = .ok () :=
    mirror_verifies childBody_canonical childBody_light (by decide) (seedOf 2)
  have folded : verifyBlocks JsonText.read mirror downloadBlock.nextPub downloadBlock.caveats
      [childBlock] = .ok (downloadCaveats "d/x") := by
    refine (bind_ok _ _ _).mpr ⟨(), accepted, (bind_ok _ _ _).mpr ⟨_, child_narrows, rfl⟩⟩
  have checked := verifyChain_done mirror
    ⟨[downloadBlock, childBlock], .sealed (mirror.sign (seedOf 3) [])⟩ downloadBlock [childBlock]
    downloadKeys 7 (presentation downloadRequest) ⟨seedOf 1, .custodyCapability⟩ .custodyCapability
    (downloadCaveats "d/x") childBlock 50 rfl rfl rfl rfl rfl (by decide) (by decide)
    downloadBlock_verifies folded
    (mirror_seals (by decide) (seedOf 3)).2 (download_times "d/x" true)
    rfl (download_presented "d/x")
  exact verify_done mirror sealedChild downloadKeys {} 7 (presentation downloadRequest) _ _ _ _ _ _
    sealedChild_parses checked (by rfl)
    (download_written "d/x" (by rfl) (slim_light child_slim.2.2.1) (slim_writes child_slim.2.2.1))

/-- A fresh state that denies some subjects and sessions. -/
def freshState (subjects sessions : Finset String) : VerifiedRevocationState where
  org := "o"
  localIssuedAt := 0
  localExpiresAt := 300
  rosterIssuedAt := 0
  rosterExpiresAt := 300
  deniedSubjects := subjects
  deniedSessions := sessions

theorem fresh_admissible (subjects sessions : Finset String) :
    Admissible (freshState subjects sessions) 7 downloadRequest := by
  constructor
  case time => decide
  case localWindow => exact (by decide : validWindow 0 300 7)
  case rosterWindow => exact (by decide : validWindow 0 300 7)
  case named => decide
  case org => rfl
  case operation => exact .inl rfl
  case upload => intro upload; cases upload

theorem fresh_unfrozen (subjects sessions : Finset String) (c : Caveats) :
    Unfrozen (freshState subjects sessions) c :=
  ⟨fun _ _ => Finset.notMem_empty _, fun _ _ => Finset.notMem_empty _⟩

theorem download_fits (subject : String) : Fits (downloadCaveats subject) downloadRequest := by
  constructor
  case org => rfl
  case project => rfl
  case object =>
    change "x/1" ∈ ({"x/1"} : Finset String)
    exact Finset.mem_singleton_self _
  case operation => rfl
  case subject => exact ⟨subject, rfl, by simp [downloadRequest]⟩
  case session => exact ⟨"s", rfl, by simp [downloadRequest]⟩
  case digest =>
    intro _ signed held
    cases held
  case bytes =>
    refine ⟨10, ?_⟩
    simp [Ceiling, DownloadCeiling, downloadRequest, downloadCaveats]
  case label => exact ⟨"j", rfl⟩

/-- The effective caveats of the longer token. -/
theorem child_effective :
    intersection [downloadBlock, childBlock] = .ok (downloadCaveats "d/x") :=
  (bind_ok _ _ _).mpr ⟨_, child_narrows, rfl⟩

/-- A subject is denied. The token of that subject is refused; the holder extends
the subject by a block of its own, and the longer token is accepted. -/
theorem denied_subject_extended : ∃ child token token' state,
    sealToken JsonText.read mirror downloadToken = .ok token ∧
    attenuate JsonText.read mirror downloadToken
      (String.ofList (render (.obj [("sub", .str "d/x")]))) (seedOf 3) = .ok child ∧
    sealToken JsonText.read mirror child = .ok token' ∧
    (∃ verified, Lct.verify JsonText.read mirror token downloadKeys {} 7
      (presentation downloadRequest) = .ok verified) ∧
    (∃ verified, Lct.verify JsonText.read mirror token' downloadKeys {} 7
      (presentation downloadRequest) = .ok verified) ∧
    downloadRequest.expectedSubject = none ∧
    Accepts JsonText.read mirror downloadKeys (cleared state) 7 downloadRequest token ∧
    ¬ Accepts JsonText.read mirror downloadKeys state 7 downloadRequest token ∧
    Accepts JsonText.read mirror downloadKeys state 7 downloadRequest token' := by
  obtain ⟨verified, clean⟩ := sealedDownload_verifies
  obtain ⟨verified', clean'⟩ := sealedChild_verifies
  obtain ⟨c, passes, whole⟩ := passes_of_verify downloadKeys {} 7 downloadRequest sealedDownload _
    verified sealedDownload_parses clean
  obtain rfl : downloadCaveats "d" = c := Except.ok.inj whole
  obtain ⟨c', passes', whole'⟩ := passes_of_verify downloadKeys {} 7 downloadRequest sealedChild _
    verified' sealedChild_parses clean'
  obtain rfl := Except.ok.inj (whole'.symm.trans child_effective)
  refine ⟨childToken, sealedDownload, sealedChild, freshState {"d"} ∅, download_sealed,
    child_attenuated, child_sealed, ⟨verified, clean⟩, ⟨verified', clean'⟩, rfl, ?_, ?_, ?_⟩
  · refine (accepts_iff readsCompact_read _ passes).mpr ⟨?_, download_fits "d", ?_,
      cleared_unhit _ _⟩
    · exact fresh_admissible ∅ ∅
    · exact fresh_unfrozen ∅ ∅ _
  · intro accepted
    have unhit := ((accepts_iff readsCompact_read _ passes).mp accepted).2.2.2
    exact unhit (.subject "d" rfl (Finset.mem_singleton_self _))
  · refine (accepts_iff readsCompact_read _ passes').mpr
      ⟨fresh_admissible _ _, download_fits "d/x", fresh_unfrozen _ _ _, ?_⟩
    rintro (frozen | ⟨jti, carried, denied⟩ | ⟨time, cut, old⟩ | ⟨session, held, denied⟩ |
      ⟨subject, held, denied⟩)
    · cases frozen
    · exact Finset.notMem_empty _ denied
    · cases cut
    · exact Finset.notMem_empty _ denied
    · obtain rfl : "d/x" = subject := Option.some.inj held
      exact absurd denied (by decide)

/-- A denied session stops the longer token as well. -/
theorem denied_session_survives :
    Accepts JsonText.read mirror downloadKeys (cleared (freshState ∅ {"s"})) 7 downloadRequest
        sealedDownload ∧
      ¬ Accepts JsonText.read mirror downloadKeys (freshState ∅ {"s"}) 7 downloadRequest
        sealedDownload ∧
      ¬ Accepts JsonText.read mirror downloadKeys (freshState ∅ {"s"}) 7 downloadRequest
        sealedChild := by
  obtain ⟨verified, clean⟩ := sealedDownload_verifies
  obtain ⟨verified', clean'⟩ := sealedChild_verifies
  obtain ⟨c, passes, whole⟩ := passes_of_verify downloadKeys {} 7 downloadRequest sealedDownload _
    verified sealedDownload_parses clean
  obtain rfl : downloadCaveats "d" = c := Except.ok.inj whole
  have allowed := (accepts_iff readsCompact_read (cleared (freshState ∅ {"s"}))
    passes).mpr ⟨fresh_admissible ∅ ∅, download_fits "d", fresh_unfrozen ∅ ∅ _, cleared_unhit _ _⟩
  have refused : ¬ Accepts JsonText.read mirror downloadKeys (freshState ∅ {"s"}) 7 downloadRequest
      sealedDownload := by
    intro accepted
    have unhit := ((accepts_iff readsCompact_read _ passes).mp accepted).2.2.2
    exact unhit (.session "s" rfl (Finset.mem_singleton_self _))
  refine ⟨allowed, refused, (revocation_survives_iff readsCompact_read downloadKeys 7 downloadRequest
    sealedDownload sealedChild _ _ sealedDownload_parses sealedChild_parses ⟨[childBlock], rfl⟩
    verified verified' clean clean' (downloadCaveats "d") (downloadCaveats "d/x") rfl child_effective
    (freshState ∅ {"s"})).mpr ?_ ⟨allowed, refused⟩⟩
  intro escapes
  exact escapes.unhit (.session "s" rfl (Finset.mem_singleton_self _))

end Synergos.CapabilityGate
