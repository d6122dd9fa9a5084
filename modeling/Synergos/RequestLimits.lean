import Synergos.CapabilityGate

/-!
# What an accepted request is limited to

The gate answers an accepted request with a ceiling in bytes. The ceiling is tied
here to the caveats of the token: to what is left of the limit of an upload, and to
the object, the signed range and the limit of a download.

The gate computes with fixed-width numbers. Beside each of its functions that adds
or subtracts stands the same function with operations that refuse to overflow; the
two agree on every input, so the order in which the gate compares before it
subtracts is what keeps it from wrapping around.
-/

namespace Synergos.RequestLimits

open JsonText Jcs Caveat CaveatText Lct LctText LctVerify CapabilityGate

/-! ## Operations that refuse to overflow -/

/-- The signed numbers of 64 bits. -/
def Signed (n : Int) : Prop := -9223372036854775808 ≤ n ∧ n < 9223372036854775808

instance (n : Int) : Decidable (Signed n) := inferInstanceAs (Decidable (_ ∧ _))

def subSigned (left right : Int) : Option Int :=
  if Signed (left - right) then some (left - right) else none

def subUnsigned (left right : UInt64) : Option UInt64 :=
  if right ≤ left then some (left - right) else none

def addUnsigned (left right : UInt64) : Option UInt64 :=
  if left.toNat + right.toNat < 18446744073709551616 then some (left + right) else none

/-- `validWindow`, in the order in which the source evaluates it. -/
def windowChecked (issued expires now : Int) : Option Bool :=
  if 0 ≤ issued ∧ issued ≤ now ∧ issued ≤ expires then do
    let lifetime ← subSigned expires issued
    return decide (lifetime = 300 ∧ now < expires)
  else some false

/-- `putBytes` with a checked subtraction. -/
def putBytesChecked (maximum : Option UInt64) (request : CapabilityRequest) :
    Option (Gate UInt64) :=
  match maximum, request.storedUploadBytes with
  | some maximum, some stored =>
    if stored ≤ maximum then do
      let left ← subUnsigned maximum stored
      match request.declaredBytes with
      | none => return .ok left
      | some declared => return if declared ≤ left then .ok declared else deny .byteLimit
    else some (deny .byteLimit)
  | _, _ => some (deny .outOfScope)

/-- The inclusive length of a range within an object. -/
def lengthChecked (asked : ByteRange) : Option UInt64 := do
  let difference ← subUnsigned asked.last asked.first
  addUnsigned difference 1

/-- `getBytes` with a checked length. -/
def getBytesChecked (caveats : Json) (request : CapabilityRequest) : Option (Gate UInt64) :=
  match request.storedObjectBytes, caveats.get? "byte_range", request.range with
  | none, _, _ => some (deny .outOfScope)
  | some _, some _, none => some (deny .rangeDenied)
  | some size, none, none => some (.ok size)
  | some size, signed, some asked =>
    if asked.last < asked.first ∨ size ≤ asked.last then some (deny .rangeDenied)
    else
      match signed.elim (.ok ()) (checkRange · asked) with
      | .error failure => some (.error failure)
      | .ok _ => (lengthChecked asked).map .ok

theorem windowChecked_eq {issued expires now : Int} (bounded : Signed expires) :
    windowChecked issued expires now = some (decide (validWindow issued expires now)) := by
  unfold windowChecked
  by_cases ordered : 0 ≤ issued ∧ issued ≤ now ∧ issued ≤ expires
  · have inside : Signed (expires - issued) := by
      unfold Signed at *
      omega
    simp [ordered, subSigned, inside, validWindow]
  · have closed : ¬ validWindow issued expires now :=
      fun valid => ordered ⟨valid.1, valid.2.1, valid.2.2.1⟩
    rw [if_neg ordered, decide_eq_false closed]

theorem putBytesChecked_eq (maximum : Option UInt64) (request : CapabilityRequest) :
    putBytesChecked maximum request = some (putBytes maximum request) := by
  unfold putBytesChecked putBytes
  cases maximum with
  | none => rfl
  | some maximum =>
    cases request.storedUploadBytes with
    | none => rfl
    | some stored =>
      by_cases below : stored ≤ maximum
      · cases request.declaredBytes with
        | none => simp [below, subUnsigned, demand]
        | some declared =>
          by_cases within : declared ≤ maximum - stored <;>
            simp [below, within, subUnsigned, demand, deny]
      · simp [below, demand, deny]

theorem lengthChecked_eq {asked : ByteRange} {size : UInt64} (ordered : asked.first ≤ asked.last)
    (inside : asked.last < size) :
    lengthChecked asked = some (asked.last - asked.first + 1) := by
  have difference := UInt64.toNat_sub_of_le _ _ ordered
  have below := UInt64.lt_iff_toNat_lt.mp inside
  have small := size.toNat_lt
  have fits : (asked.last - asked.first).toNat + (1 : UInt64).toNat < 18446744073709551616 := by
    rw [difference, UInt64.toNat_one]
    omega
  simp only [lengthChecked, subUnsigned, if_pos ordered, Option.bind_eq_bind, Option.bind_some,
    addUnsigned, if_pos fits]

theorem getBytesChecked_eq (caveats : Json) (request : CapabilityRequest) :
    getBytesChecked caveats request = some (getBytes caveats request) := by
  unfold getBytesChecked getBytes
  cases request.storedObjectBytes with
  | none => rfl
  | some size =>
    cases request.range with
    | none => cases caveats.get? "byte_range" <;> rfl
    | some asked =>
      by_cases outside : asked.last < asked.first ∨ size ≤ asked.last
      · cases caveats.get? "byte_range" <;> simp [outside, demand, deny]
      · have ordered : asked.first ≤ asked.last := UInt64.not_lt.mp fun less => outside (.inl less)
        have inside : asked.last < size := UInt64.not_le.mp fun large => outside (.inr large)
        cases caveats.get? "byte_range" with
        | none =>
          simp [outside, demand, lengthChecked_eq ordered inside]
        | some signed =>
          cases contained : checkRange signed asked <;>
            simp [outside, demand, contained, lengthChecked_eq ordered inside]

/-! ## The ceiling -/

/-- What an accepted request is limited to, beside what the gate has made sure of. -/
structure Limited (state : VerifiedRevocationState) (now : Int) (c : Caveats)
    (request : CapabilityRequest) (result : RedemptionConstraints) : Prop where
  localWindow : validWindow state.localIssuedAt state.localExpiresAt now
  rosterWindow : validWindow state.rosterIssuedAt state.rosterExpiresAt now
  grants : Grants state c request result
  upload : request.operation = .put → ∃ most ∈ c.maxBytes, ∃ stored ∈ request.storedUploadBytes,
    (stored.toNat + result.requestByteCeiling.toNat : Int) ≤ most
  /-- A signed range is met only by a range that is asked for. -/
  download : request.operation ≠ .put → ∃ size ∈ request.storedObjectBytes,
    result.requestByteCeiling ≤ size ∧
    (∀ most ∈ c.maxBytes, (result.requestByteCeiling.toNat : Int) ≤ most) ∧
    (∀ asked ∈ request.range, asked.first ≤ asked.last ∧ asked.last < size) ∧
    ∀ signed ∈ c.byteRange, ∃ asked ∈ request.range,
      signed.1 ≤ asked.first.toNat ∧ (asked.last.toNat : Int) ≤ signed.2

theorem limited_of_grants {state : VerifiedRevocationState} {now : Int} {c : Caveats}
    {request : CapabilityRequest} {result : RedemptionConstraints}
    (admissible : Admissible state now request) (grants : Grants state c request result) :
    Limited state now c request result where
  localWindow := admissible.localWindow
  rosterWindow := admissible.rosterWindow
  grants := grants
  upload := by
    intro upload
    have ceiling := grants.ceiling
    rw [Ceiling, if_pos upload] at ceiling
    obtain ⟨most, held, stored, persisted, within, _⟩ := ceiling
    exact ⟨most, held, stored, persisted, within⟩
  download := by
    intro download
    have ceiling := grants.ceiling
    rw [Ceiling, if_neg download] at ceiling
    obtain ⟨size, stored, limit, exact⟩ := ceiling
    cases asking : request.range with
    | none =>
      rw [asking] at exact
      obtain ⟨unsigned, rfl⟩ := exact
      exact ⟨_, stored, UInt64.le_refl _, limit, by simp, by simp [unsigned]⟩
    | some asked =>
      rw [asking] at exact
      obtain ⟨ordered, inside, contained, length⟩ := exact
      have below := UInt64.lt_iff_toNat_lt.mp inside
      refine ⟨size, stored, UInt64.le_iff_toNat_le.mpr (by omega), limit, ?_, ?_⟩
      · rintro _ ⟨⟩
        exact ⟨ordered, inside⟩
      · exact fun signed held => ⟨asked, rfl, contained signed held⟩

/-- Nothing that the gate adds or subtracts leaves the range of its type. -/
structure NoOverflow (reader : String → Option Json) (token : String)
    (state : VerifiedRevocationState) (now : Int) (request : CapabilityRequest) : Prop where
  localWindow : windowChecked state.localIssuedAt state.localExpiresAt now =
    some (decide (validWindow state.localIssuedAt state.localExpiresAt now))
  rosterWindow : windowChecked state.rosterIssuedAt state.rosterExpiresAt now =
    some (decide (validWindow state.rosterIssuedAt state.rosterExpiresAt now))
  /-- Verification subtracts the time from the expiry of the token. -/
  lifetime : ∀ parsed c, parseToken reader token true = .ok parsed →
    intersection parsed.blocks = .ok c → ∀ exp ∈ c.exp, subSigned exp now = some (exp - now)
  put : ∀ maximum, putBytesChecked maximum request = some (putBytes maximum request)
  get : ∀ caveats, getBytesChecked caveats request = some (getBytes caveats request)

section Gate

variable {reader : String → Option Json} (law : ReadsCompact reader) {scheme : Envelope.Scheme}

include law

/-- The caveats that an accepted request was held against. -/
theorem limited_of_accepted {token : String} {keys : String → Option IssuerKey}
    {state : VerifiedRevocationState} {now : Int} {request : CapabilityRequest}
    {result : RedemptionConstraints}
    (accepted : checkCapabilityRequest reader scheme token keys (some state) now request =
      .ok result) :
    ∃ parsed c, parseToken reader token true = .ok parsed ∧
      intersection parsed.blocks = .ok c ∧ Limited state now c request result := by
  simp only [checkCapabilityRequest, bind_ok, checkState_ok, exists_const] at accepted
  obtain ⟨⟨admissible, _⟩, accepted⟩ := accepted
  split at accepted
  · simp [deny] at accepted
  · rename_i verified verifies
    simp only [Lct.verify, bind_ok, pure_ok] at verifies
    obtain ⟨parsed, read, ⟨head, profile, c, exp⟩, checked, _, _, json, written, rfl⟩ := verifies
    obtain ⟨_, _, _, _, _, whole⟩ :=
      verifyChain_checks checked
    have sound : Sound c := intersection_sound law
      (parseToken_any read) whole
    rw [checkVerified_shown law sound written] at accepted
    exact ⟨parsed, c, read, whole, limited_of_grants admissible
      ((checkCaveats_shown c sound _ state request).1 result accepted)⟩

theorem no_overflow (token : String) {state : VerifiedRevocationState} {now : Int}
    (request : CapabilityRequest) (localEnd : Signed state.localExpiresAt)
    (rosterEnd : Signed state.rosterExpiresAt) (present : 0 ≤ now) (bounded : Signed now) :
    NoOverflow reader token state now request where
  localWindow := windowChecked_eq localEnd
  rosterWindow := windowChecked_eq rosterEnd
  lifetime := by
    intro parsed c read whole exp held
    have sound : Sound c := intersection_sound law
      (parseToken_any read) whole
    obtain ⟨nonnegative, safe⟩ := sound.values.exp exp held
    have most : maxSafeInteger < 9223372036854775808 := by decide
    have inside : Signed (exp - now) := by
      unfold Signed at *
      omega
    rw [subSigned, if_pos inside]
  put := fun maximum => putBytesChecked_eq maximum request
  get := fun caveats => getBytesChecked_eq caveats request

/-- Whatever the token, the state, the request and the time: an accepted request is limited
by the caveats of the token, and nothing overflows on the way. -/
theorem request_limited (scheme : Envelope.Scheme) (token : String)
    (keys : String → Option IssuerKey) (state : VerifiedRevocationState) (now : Int)
    (request : CapabilityRequest) (localEnd : Signed state.localExpiresAt)
    (rosterEnd : Signed state.rosterExpiresAt) (present : 0 ≤ now) (bounded : Signed now) :
    (∀ result, checkCapabilityRequest reader scheme token keys (some state) now request =
        .ok result →
      ∃ parsed c, parseToken reader token true = .ok parsed ∧
        intersection parsed.blocks = .ok c ∧ Limited state now c request result) ∧
    NoOverflow reader token state now request :=
  ⟨fun _ accepted => limited_of_accepted law accepted,
    no_overflow law token request localEnd rosterEnd present bounded⟩

end Gate

/-- The sample download is accepted within its caveats. -/
theorem download_limited : ∃ result c,
    checkCapabilityRequest JsonText.read mirror sealedDownload downloadKeys
      (some (freshState ∅ ∅)) 7 downloadRequest = .ok result ∧
    Limited (freshState ∅ ∅) 7 c downloadRequest result ∧
    NoOverflow JsonText.read sealedDownload (freshState ∅ ∅) 7 downloadRequest := by
  obtain ⟨verified, clean⟩ := sealedDownload_verifies
  obtain ⟨c, passes, whole⟩ := passes_of_verify downloadKeys {} 7 downloadRequest sealedDownload _
    verified sealedDownload_parses clean
  obtain rfl : downloadCaveats "d" = c := Except.ok.inj whole
  obtain ⟨result, accepted⟩ := (accepts_iff readsCompact_read (freshState ∅ ∅)
    passes).mpr ⟨fresh_admissible ∅ ∅, download_fits "d", fresh_unfrozen ∅ ∅ _,
      cleared_unhit (freshState ∅ ∅) _⟩
  obtain ⟨limited, safe⟩ := request_limited readsCompact_read mirror sealedDownload downloadKeys
    (freshState ∅ ∅) 7 downloadRequest (by decide) (by decide) (by decide) (by decide)
  obtain ⟨_, c, _, _, within⟩ := limited result accepted
  exact ⟨result, c, accepted, within, safe⟩

end Synergos.RequestLimits
