import Synergos.ByteText

/-!
# Binding responses of a STUN server

A response is a header of twenty bytes and attributes, each with its type, its length and a
value that is padded to a multiple of four bytes. The client passes over the attributes until
it finds the mapped address, which is masked with the magic cookie and the transaction id.

Every index is checked, as the source's are: a read past the end of the bytes is an outcome
of its own, and no byte string leads to it.
-/

namespace Synergos.Stun

open Base64url ByteText List

/-! ### Bytes -/

inductive Error where
  | turn (message : String)
  /-- The source would stop with a panic. -/
  | outOfBounds
  deriving DecidableEq

variable {bytes before behind : List UInt8} {width start value : Nat}

theorem slice_length (inside : start + width ≤ bytes.length) :
    ((bytes.drop start).take width).length = width := by
  simp only [length_take, length_drop]
  omega

def slice (bytes : List UInt8) (start width : Nat) : Except Error (Bytes width) :=
  if inside : start + width ≤ bytes.length then
    .ok ⟨(bytes.drop start).take width, slice_length inside⟩
  else .error .outOfBounds

/-- The number whose bytes these are, most significant first. -/
def fromBe (bytes : List UInt8) : Nat := bytes.foldl (fun high byte => high * 256 + byte.toNat) 0

def toBe (width value : Nat) : List UInt8 := (leBytes width value).reverse

/-- The number in the given bytes. -/
def fromBeAt (width : Nat) (bytes : List UInt8) (start : Nat) : Except Error Nat := do
  let read ← slice bytes start width
  return fromBe read.val

theorem xor_length {n : Nat} (left right : Bytes n) :
    (zipWith (· ^^^ ·) left.val right.val).length = n := by
  simp [left.property, right.property]

def xorBytes {n : Nat} (left right : Bytes n) : Bytes n :=
  ⟨zipWith (· ^^^ ·) left.val right.val, xor_length left right⟩

/-! ### The client -/

inductive IpAddr where
  | v4 (address : UInt32)
  | v6 (octets : Bytes 16)
  deriving DecidableEq

structure SocketAddr where
  ip : IpAddr
  port : UInt16
  deriving DecidableEq

def magicCookie : Nat := 0x2112a442

theorem toBe_length : (toBe width value).length = width := by simp [toBe]

theorem xorKey_length (tx : Bytes 12) : (toBe 4 magicCookie ++ tx.val).length = 16 := by
  rw [length_append, toBe_length, tx.property]

/-- The mask of an IPv6 address. -/
def xorKey (tx : Bytes 12) : Bytes 16 := ⟨toBe 4 magicCookie ++ tx.val, xorKey_length tx⟩

def parseXorMapped (attr : List UInt8) (tx : Bytes 12) : Except Error SocketAddr :=
  if attr.length < 4 then .error (.turn "xor-mapped too short")
  else do
    let family ← fromBeAt 1 attr 1
    let xorPort ← fromBeAt 2 attr 2
    let port := UInt16.ofNat xorPort ^^^ UInt16.ofNat (magicCookie / 65536)
    if family = 1 then
      if attr.length < 8 then .error (.turn "xor-mapped ipv4 too short")
      else do
        let xorIp ← fromBeAt 4 attr 4
        return ⟨.v4 (UInt32.ofNat xorIp ^^^ UInt32.ofNat magicCookie), port⟩
    else if family = 2 then
      if attr.length < 20 then .error (.turn "xor-mapped ipv6 too short")
      else do
        let ip ← slice attr 4 16
        return ⟨.v6 (xorBytes ip (xorKey tx)), port⟩
    else .error (.turn ("unknown address family " ++ toString family))

/-- The loop over the attributes. -/
def scan (bytes : List UInt8) (tx : Bytes 12) (stop cursor : Nat) : Except Error SocketAddr :=
  if cursor + 4 ≤ stop then do
    let attrType ← fromBeAt 2 bytes cursor
    let attrLen ← fromBeAt 2 bytes (cursor + 2)
    if stop < cursor + 4 + attrLen then .error (.turn "attribute past message end")
    else if attrType = 0x0020 then do
      let attr ← slice bytes (cursor + 4) attrLen
      parseXorMapped attr.val tx
    else scan bytes tx stop (cursor + 4 + (attrLen + 3) / 4 * 4)
  else .error (.turn "no XOR-MAPPED-ADDRESS attribute")
termination_by stop - cursor

/-- Four hexadecimal digits. -/
def hex (value : Nat) : String :=
  "0x" ++ String.ofList ([value / 4096, value / 256 % 16, value / 16 % 16, value % 16].map
    Nat.digitChar)

def parseBindingSuccess (bytes : List UInt8) (expectedTx : Bytes 12) : Except Error SocketAddr :=
  if bytes.length < 20 then .error (.turn "stun response too short")
  else do
    let msgType ← fromBeAt 2 bytes 0
    if msgType ≠ 0x0101 then .error (.turn ("unexpected STUN message type: " ++ hex msgType))
    else do
      let msgLen ← fromBeAt 2 bytes 2
      let cookie ← fromBeAt 4 bytes 4
      if cookie ≠ magicCookie then .error (.turn "invalid magic cookie")
      else do
        let tx ← slice bytes 8 12
        if tx ≠ expectedTx then .error (.turn "transaction id mismatch")
        else if bytes.length < 20 + msgLen then .error (.turn "stun body truncated")
        else scan bytes expectedTx (20 + msgLen) 20

/-! ### Responses -/

structure Attribute where
  kind : UInt16
  value : List UInt8
  padding : List UInt8
  fits : value.length < 65536
  aligned : padding.length = (4 - value.length % 4) % 4

def Attribute.encoded (given : Attribute) : List UInt8 :=
  toBe 2 given.kind.toNat ++ (toBe 2 given.value.length ++ (given.value ++ given.padding))

/-- The masked address, with its family. -/
def IpAddr.masked (tx : Bytes 12) : IpAddr → UInt8 × List UInt8
  | .v4 address => (1, toBe 4 (address ^^^ UInt32.ofNat magicCookie).toNat)
  | .v6 octets => (2, (xorBytes octets (xorKey tx)).val)

/-- The value of the attribute with a mapped address. -/
def SocketAddr.mapped (tx : Bytes 12) (address : SocketAddr) : List UInt8 :=
  0 :: (address.ip.masked tx).1 ::
    (toBe 2 (address.port ^^^ UInt16.ofNat (magicCookie / 65536)).toNat ++
      (address.ip.masked tx).2)

/-- The attributes of a response: those before the mapped address, it, and those behind it. -/
def body (tx : Bytes 12) (address : SocketAddr) (preceding following : List Attribute) :
    List UInt8 :=
  preceding.flatMap Attribute.encoded ++ (toBe 2 0x0020 ++ (toBe 2 (address.mapped tx).length ++
    (address.mapped tx ++ following.flatMap Attribute.encoded)))

structure Response where
  tx : Bytes 12
  address : SocketAddr
  preceding : List Attribute
  following : List Attribute
  others : ∀ given ∈ preceding, given.kind ≠ 0x0020
  fits : (body tx address preceding following).length < 65536

def Response.body (response : Response) : List UInt8 :=
  Stun.body response.tx response.address response.preceding response.following

def Response.encoded (response : Response) : List UInt8 :=
  toBe 2 0x0101 ++ (toBe 2 response.body.length ++ (toBe 4 magicCookie ++
    (response.tx.val ++ response.body)))

/-! ### What is written is read -/

theorem fromBe_toBe (small : value < 256 ^ width) : fromBe (toBe width value) = value := by
  rw [fromBe, toBe, foldl_reverse]
  induction width generalizing value with
  | zero =>
    rw [Nat.pow_zero] at small
    exact (Nat.lt_one_iff.mp small).symm
  | succ width ih =>
    have high := @ih (value / 256) (Nat.div_lt_of_lt_mul (by rwa [Nat.pow_succ'] at small))
    rw [leBytes, foldr_cons, high, UInt8.toNat_ofNat']
    omega

/-- Bytes that stand at a place are the slice there. -/
theorem slice_at {read : Bytes width} (split : bytes = before ++ (read.val ++ behind))
    (place : before.length = start) : slice bytes start width = .ok read := by
  have size := read.property
  have inside : start + width ≤ bytes.length := by
    rw [split, length_append, length_append]
    omega
  rw [slice, dif_pos inside]
  congr
  rw [split, ← place, drop_left]
  exact take_left' size

theorem fromBeAt_at (small : value < 256 ^ width)
    (split : bytes = before ++ (toBe width value ++ behind)) (place : before.length = start) :
    fromBeAt width bytes start = .ok value := by
  have read := @slice_at _ _ _ _ _ ⟨toBe width value, toBe_length⟩ split place
  rw [fromBeAt, read]
  exact congrArg Except.ok (fromBe_toBe small)

theorem toBe_one (byte : UInt8) : toBe 1 byte.toNat = [byte] := by simp [toBe, leBytes]

theorem xorBytes_xorBytes {n : Nat} (given mask : Bytes n) :
    xorBytes (xorBytes given mask) mask = given := by
  have sizes := given.property.trans mask.property.symm
  refine Subtype.ext (ext_getElem (by simp [xorBytes, sizes]) fun index inside _ => ?_)
  simp [xorBytes]

theorem parseXorMapped_mapped (tx : Bytes 12) (address : SocketAddr) :
    parseXorMapped (address.mapped tx) tx = .ok address := by
  obtain ⟨ip, port⟩ := address
  have size : (SocketAddr.mapped tx ⟨ip, port⟩).length = (ip.masked tx).2.length + 4 := by
    simp only [SocketAddr.mapped, length_cons, length_append, toBe_length]
    omega
  have family : fromBeAt 1 (SocketAddr.mapped tx ⟨ip, port⟩) 1 = .ok (ip.masked tx).1.toNat :=
    @fromBeAt_at _ [0] _ 1 1 _ (UInt8.toNat_lt _) (by rw [toBe_one]; rfl) rfl
  have ports := @fromBeAt_at (SocketAddr.mapped tx ⟨ip, port⟩) [0, (ip.masked tx).1] _ 2 2 _
    (UInt16.toNat_lt _) rfl rfl
  have place : ([0, (ip.masked tx).1] ++
      toBe 2 (port ^^^ UInt16.ofNat (magicCookie / 65536)).toNat).length = 4 := by
    simp [toBe_length]
  rw [parseXorMapped, if_neg (by omega), family, ports]
  simp only [bind, Except.bind, pure, Except.pure, UInt16.ofNat_toNat, UInt16.xor_assoc,
    UInt16.xor_self, UInt16.xor_zero]
  cases ip with
  | v4 address =>
    have read := @fromBeAt_at (SocketAddr.mapped tx ⟨.v4 address, port⟩) _ [] 4 _ _
      (UInt32.toNat_lt (address ^^^ UInt32.ofNat magicCookie))
      (by simp [SocketAddr.mapped, IpAddr.masked]) place
    simp [read, size, IpAddr.masked, toBe_length, magicCookie]
  | v6 octets =>
    have read := @slice_at (SocketAddr.mapped tx ⟨.v6 octets, port⟩) _ [] 16 _
      (xorBytes octets (xorKey tx)) (by simp [SocketAddr.mapped, IpAddr.masked]) place
    simp [read, size, IpAddr.masked, (xorBytes octets (xorKey tx)).property, xorBytes_xorBytes]

variable {tx : Bytes 12} {stop cursor : Nat}

/-- One round of the loop, at an attribute that lies in the message. -/
theorem scan_attribute {kind : UInt16} {content : List UInt8} (fits : content.length < 65536)
    (split : bytes = before ++ (toBe 2 kind.toNat ++ (toBe 2 content.length ++
      (content ++ behind)))) (place : before.length = cursor)
    (inside : cursor + 4 + content.length ≤ stop) :
    scan bytes tx stop cursor =
      if kind = 0x0020 then parseXorMapped content tx
      else scan bytes tx stop (cursor + 4 + (content.length + 3) / 4 * 4) := by
  have readKind := fromBeAt_at (UInt16.toNat_lt kind) split place
  have readLength := @fromBeAt_at bytes (before ++ toBe 2 kind.toNat) (content ++ behind) 2
    (cursor + 2) _ fits (by simp [split]) (by simp [toBe_length, place])
  have read := @slice_at bytes (before ++ (toBe 2 kind.toNat ++ toBe 2 content.length)) behind
    content.length (cursor + 4) ⟨content, rfl⟩ (by simp [split]) (by simp [toBe_length, place])
  have same : kind.toNat = 0x0020 ↔ kind = 0x0020 := UInt16.toNat_inj (b := 0x0020)
  rw [scan, if_pos (by omega), readKind, readLength]
  simp only [bind, Except.bind, read, same]
  rw [if_neg (by omega)]

/-- Attributes of other types are passed over with their padding. -/
theorem scan_preceding {preceding : List Attribute}
    (split : bytes = before ++ (preceding.flatMap Attribute.encoded ++ behind))
    (place : before.length = cursor)
    (inside : cursor + (preceding.flatMap Attribute.encoded).length ≤ stop)
    (others : ∀ given ∈ preceding, given.kind ≠ 0x0020) :
    scan bytes tx stop cursor =
      scan bytes tx stop (cursor + (preceding.flatMap Attribute.encoded).length) := by
  induction preceding generalizing before cursor with
  | nil => rfl
  | cons first rest ih =>
    have size : first.encoded.length = 4 + (first.value.length + 3) / 4 * 4 := by
      have aligned := first.aligned
      simp only [Attribute.encoded, length_append, toBe_length]
      omega
    rw [flatMap_cons, length_append] at inside ⊢
    rw [flatMap_cons, append_assoc] at split
    have passed := @scan_attribute bytes before (first.padding ++ (rest.flatMap Attribute.encoded ++
      behind)) tx stop cursor first.kind first.value first.fits
      (by simp [split, Attribute.encoded]) place (by omega)
    have next := @ih (before ++ first.encoded) (cursor + first.encoded.length)
      (by rw [split, append_assoc]) (by rw [length_append, place]) (by omega)
      fun given member => others given (mem_cons_of_mem _ member)
    rw [passed, if_neg (others first mem_cons_self), Nat.add_assoc cursor, ← size, next,
      Nat.add_assoc]

theorem parse_response (response : Response) :
    parseBindingSuccess response.encoded response.tx = .ok response.address := by
  have fits : response.body.length < 65536 := response.fits
  have kind := @fromBeAt_at response.encoded [] _ 2 0 0x0101 (by decide) rfl rfl
  have length := @fromBeAt_at response.encoded (toBe 2 0x0101) _ 2 2 _ fits rfl toBe_length
  have cookie := @fromBeAt_at response.encoded (toBe 2 0x0101 ++ toBe 2 response.body.length)
    _ 4 4 magicCookie (by decide) (by rw [append_assoc]; rfl) (by simp [toBe_length])
  have tx := @slice_at response.encoded (toBe 2 0x0101 ++ (toBe 2 response.body.length ++
    toBe 4 magicCookie)) response.body 12 8 response.tx (by simp [Response.encoded])
    (by simp [toBe_length])
  obtain ⟨header, headerSize, split⟩ : ∃ header : List UInt8, header.length = 20 ∧
      response.encoded = header ++ response.body :=
    ⟨toBe 2 0x0101 ++ (toBe 2 response.body.length ++ (toBe 4 magicCookie ++ response.tx.val)),
      by simp [toBe_length, response.tx.property], by simp [Response.encoded]⟩
  have size : response.encoded.length = 20 + response.body.length := by
    rw [split, length_append, headerSize]
  have inside : (response.preceding.flatMap Attribute.encoded).length + 4 +
      (response.address.mapped response.tx).length ≤ response.body.length := by
    simp only [Response.body, body, length_append, toBe_length]
    omega
  have passed := @scan_preceding response.encoded header _ response.tx (20 + response.body.length)
    20 response.preceding split headerSize (by omega) response.others
  have found := @scan_attribute response.encoded
    (header ++ response.preceding.flatMap Attribute.encoded) _ response.tx
    (20 + response.body.length) _ 0x0020 (response.address.mapped response.tx) (by omega)
    (by rw [split, append_assoc]; rfl) (by rw [length_append, headerSize]) (by omega)
  rw [parseBindingSuccess, if_neg (by omega), kind, length, cookie, tx]
  simp only [bind, Except.bind, ne_eq, not_true_eq_false, if_false]
  rw [if_neg (by omega), passed, found, if_pos rfl]
  exact parseXorMapped_mapped response.tx response.address

/-! ### What is read -/

/-- A slice of a message is there, and it is the same where more bytes follow. -/
theorem slice_inside {message : List UInt8} (inside : start + width ≤ message.length)
    (behind : List UInt8) :
    ∃ read, slice message start width = .ok read ∧
      slice (message ++ behind) start width = .ok read := by
  have wider : start + width ≤ (message ++ behind).length := by
    rw [length_append]
    omega
  refine ⟨_, dif_pos inside, (dif_pos wider).trans (congrArg _ (Subtype.ext ?_))⟩
  have room : width ≤ (message.drop start).length := by
    rw [length_drop]
    omega
  change ((message ++ behind).drop start).take width = (message.drop start).take width
  rw [drop_append_of_le_length (by omega), take_append_of_le_length room]

theorem fromBeAt_inside {message : List UInt8} (inside : start + width ≤ message.length)
    (behind : List UInt8) :
    ∃ read, fromBeAt width message start = .ok read ∧
      fromBeAt width (message ++ behind) start = .ok read := by
  obtain ⟨read, here, there⟩ := slice_inside inside behind
  exact ⟨fromBe read.val, by rw [fromBeAt, here]; rfl, by rw [fromBeAt, there]; rfl⟩

theorem parseXorMapped_inside (attr : List UInt8) (tx : Bytes 12) :
    parseXorMapped attr tx ≠ .error .outOfBounds := by
  by_cases short : attr.length < 4
  · simp [parseXorMapped, short]
  obtain ⟨family, readFamily, _⟩ := @fromBeAt_inside 1 1 attr (by omega) []
  obtain ⟨port, readPort, _⟩ := @fromBeAt_inside 2 2 attr (by omega) []
  rw [parseXorMapped, if_neg short, readFamily, readPort]
  simp only [bind, Except.bind, pure, Except.pure]
  by_cases four : family = 1
  · rw [if_pos four]
    split_ifs with cut
    · simp
    · obtain ⟨address, read, _⟩ := @fromBeAt_inside 4 4 attr (by omega) []
      simp [read]
  · rw [if_neg four]
    split_ifs with six cut
    · simp
    · obtain ⟨address, read, _⟩ := @slice_inside 16 4 attr (by omega) []
      simp [read]
    · simp

/-- The loop stays inside the message. -/
theorem scan_inside (message behind : List UInt8) (tx : Bytes 12) (cursor : Nat) :
    scan (message ++ behind) tx message.length cursor = scan message tx message.length cursor ∧
      scan message tx message.length cursor ≠ .error .outOfBounds := by
  induction left : message.length - cursor using Nat.strongRecOn generalizing cursor with
  | ind left ih =>
    by_cases more : cursor + 4 ≤ message.length
    · obtain ⟨kind, readKind, sameKind⟩ := @fromBeAt_inside 2 cursor message (by omega) behind
      obtain ⟨length, readLength, sameLength⟩ := @fromBeAt_inside 2 (cursor + 2) message (by omega)
        behind
      rw [scan, scan, if_pos more, if_pos more, readKind, sameKind]
      simp only [bind, Except.bind, readLength, sameLength]
      split_ifs with past mapped
      · simp
      · obtain ⟨read, here, there⟩ := @slice_inside length (cursor + 4) message (by omega) behind
        rw [here, there]
        exact ⟨rfl, parseXorMapped_inside read.val tx⟩
      · exact ih _ (by omega) _ rfl
    · rw [scan, scan, if_neg more, if_neg more]
      simp

/-- The length that a message declares. -/
def declared (message : List UInt8) : Nat := fromBe ((message.drop 2).take 2)

/-- The checks of the header, with bytes behind a message or without. -/
theorem parse_header (message behind : List UInt8) (expectedTx : Bytes 12)
    (whole : 20 ≤ message.length) :
    parseBindingSuccess (message ++ behind) expectedTx =
      if fromBe (message.take 2) ≠ 0x0101 then
        .error (.turn ("unexpected STUN message type: " ++ hex (fromBe (message.take 2))))
      else if fromBe ((message.drop 4).take 4) ≠ magicCookie then
        .error (.turn "invalid magic cookie")
      else if (message.drop 8).take 12 ≠ expectedTx.val then .error (.turn "transaction id mismatch")
      else if (message ++ behind).length < 20 + declared message then
        .error (.turn "stun body truncated")
      else scan (message ++ behind) expectedTx (20 + declared message) 20 := by
  have slices : ∀ start width, start + width ≤ 20 → ∃ read, slice (message ++ behind) start width =
      .ok read ∧ read.val = (message.drop start).take width := by
    intro start width early
    obtain ⟨read, here, there⟩ := @slice_inside width start message (by omega) behind
    rw [slice, dif_pos (by omega)] at here
    exact ⟨read, there, congrArg Subtype.val (Except.ok.inj here).symm⟩
  obtain ⟨kind, readKind, isKind⟩ := slices 0 2 (by omega)
  obtain ⟨length, readLength, isLength⟩ := slices 2 2 (by omega)
  obtain ⟨cookie, readCookie, isCookie⟩ := slices 4 4 (by omega)
  obtain ⟨tx, readTx, isTx⟩ := slices 8 12 (by omega)
  rw [parseBindingSuccess, if_neg (by rw [length_append]; omega)]
  simp only [fromBeAt, readKind, readLength, readCookie, readTx, bind, Except.bind, pure,
    Except.pure, isKind, isLength, isCookie, ← isTx, drop_zero, declared]
  simp only [ne_eq, Subtype.ext_iff]
  congr

/-- A response is parsed to its address, after whatever attributes of other types; no byte string
is read past its end or past the length that it declares; and what is accepted has the magic
cookie and the expected transaction id. -/
theorem binding_success_parsed :
    (∀ response : Response,
      parseBindingSuccess response.encoded response.tx = .ok response.address) ∧
    ∀ (bytes : List UInt8) (expectedTx : Bytes 12),
      parseBindingSuccess bytes expectedTx ≠ .error .outOfBounds ∧
      (∀ behind, bytes.length = 20 + declared bytes →
        parseBindingSuccess (bytes ++ behind) expectedTx = parseBindingSuccess bytes expectedTx) ∧
      ∀ address, parseBindingSuccess bytes expectedTx = .ok address →
        fromBe ((bytes.drop 4).take 4) = magicCookie ∧ (bytes.drop 8).take 12 = expectedTx.val := by
  refine ⟨parse_response, fun bytes expectedTx => ?_⟩
  by_cases short : bytes.length < 20
  · have refused : parseBindingSuccess bytes expectedTx = .error (.turn "stun response too short") :=
      if_pos short
    exact ⟨by simp [refused], by omega, by simp [refused]⟩
  have header := fun behind => parse_header bytes behind expectedTx (by omega)
  have alone := header []
  rw [append_nil] at alone
  refine ⟨?_, fun behind exactly => ?_, fun address accepted => ?_⟩
  · rw [alone]
    split_ifs with _ _ _ cut
    any_goals simp
    have message : (bytes.take (20 + declared bytes)).length = 20 + declared bytes := by
      rw [length_take]
      omega
    obtain ⟨same, inside⟩ := scan_inside (bytes.take (20 + declared bytes))
      (bytes.drop (20 + declared bytes)) expectedTx 20
    rw [message] at same inside
    rw [take_append_drop] at same
    rwa [same]
  · obtain ⟨same, _⟩ := scan_inside bytes behind expectedTx 20
    rw [header, alone, ← exactly, same, length_append]
    simp
  · rw [alone] at accepted
    split_ifs at accepted with _ cookie tx
    exact ⟨not_not.mp cookie, not_not.mp tx⟩

end Synergos.Stun
