import Synergos.Jcs

/-!
# Unpadded base64url

Three bytes become four characters of the URL-safe alphabet; a last group of one
or two bytes becomes two or three characters. The decoder keeps a 32-bit
accumulator that is never cleared, so only its low bits are meaningful, and it
refuses left-over bits that are not zero.

Decoding is the inverse of encoding in both directions: every byte sequence has
exactly one text that decodes to it.
-/

namespace Synergos.Base64url

open Jcs List

/-- The character of a six-bit value. -/
def alphabet (value : Nat) : Char :=
  "ABCDEFGHIJKLMNOPQRSTUVWXYZabcdefghijklmnopqrstuvwxyz0123456789-_".toList.getD value 'A'

/-- The six-bit value of a character. -/
def indexOf (c : Char) : Option Nat :=
  if 'A' ≤ c ∧ c ≤ 'Z' then some (c.toNat - 'A'.toNat)
  else if 'a' ≤ c ∧ c ≤ 'z' then some (c.toNat - 'a'.toNat + 26)
  else if '0' ≤ c ∧ c ≤ '9' then some (c.toNat - '0'.toNat + 52)
  else if c = '-' then some 62
  else if c = '_' then some 63
  else none

def encodeChars : List UInt8 → List Char
  | a :: b :: c :: rest =>
    let v := a.toNat * 65536 + b.toNat * 256 + c.toNat
    alphabet (v / 262144 % 64) :: alphabet (v / 4096 % 64) :: alphabet (v / 64 % 64) ::
      alphabet (v % 64) :: encodeChars rest
  | [a, b] =>
    let v := a.toNat * 65536 + b.toNat * 256
    [alphabet (v / 262144 % 64), alphabet (v / 4096 % 64), alphabet (v / 64 % 64)]
  | [a] =>
    let v := a.toNat * 65536
    [alphabet (v / 262144 % 64), alphabet (v / 4096 % 64)]
  | [] => []

def encode (bytes : List UInt8) : String := String.ofList (encodeChars bytes)

/-- The decoding loop: an accumulator of 32 bits, of which the low `bits` have
not been emitted yet. -/
def decodeLoop (acc bits : Nat) : List Char → Checked (List UInt8)
  | [] =>
    if 0 < bits ∧ acc % 2 ^ bits ≠ 0 then fail .encodingInvalid "non-canonical base64url"
    else .ok []
  | c :: rest =>
    match indexOf c with
    | none => fail .encodingInvalid "bad base64url character"
    | some v =>
      let acc := (acc * 64 + v) % 4294967296
      if 8 ≤ bits + 6 then do
        let more ← decodeLoop acc (bits - 2) rest
        pure (UInt8.ofNat (acc / 2 ^ (bits - 2) % 256) :: more)
      else decodeLoop acc (bits + 6) rest

def decode (text : String) : Checked (List UInt8) :=
  if text.utf8ByteSize % 4 = 1 then fail .encodingInvalid "bad base64url length"
  else decodeLoop 0 0 text.toList

/-- A byte array of fixed length. -/
abbrev Bytes (n : Nat) : Type := { bytes : List UInt8 // bytes.length = n }

def decodeFixed (n : Nat) (text : String) : Checked (Bytes n) := do
  let bytes ← decode text
  if exact : bytes.length = n then pure ⟨bytes, exact⟩
  else fail .encodingInvalid "unexpected decoded length"

variable {acc n value bits : Nat} {chars : List Char} {c : Char}

theorem indexOf_alphabet (small : value < 64) :
    indexOf (alphabet value) = some value := by
  have table : ∀ i : Fin 64, indexOf (alphabet i) = some i.val := by decide +kernel
  exact table ⟨value, small⟩

/-- Every character of the alphabet is an ASCII character. -/
theorem indexOf_ascii (found : indexOf c = some value) :
    c.toNat < 128 := by
  have bounded (last : Char) (below : c ≤ last) : c.toNat ≤ last.toNat := below
  unfold indexOf at found
  split_ifs at found with upper lower digit dash underscore
  · exact lt_of_le_of_lt (bounded 'Z' upper.2) (by decide)
  · exact lt_of_le_of_lt (bounded 'z' lower.2) (by decide)
  · exact lt_of_le_of_lt (bounded '9' digit.2) (by decide)
  · simp [dash]
  · simp [underscore]

theorem indexOf_some (found : indexOf c = some value) :
    value < 64 ∧ c = alphabet value := by
  have table : ∀ i : Fin 128, ∀ v ∈ indexOf (Char.ofNat i), v < 64 ∧ Char.ofNat i = alphabet v := by
    decide +kernel
  have entry := table ⟨c.toNat, indexOf_ascii found⟩ value
  simp only [Char.ofNat_toNat] at entry
  exact entry found

/-- The alphabet is ASCII, so a text over it has as many bytes as characters. -/
theorem alphabet_utf8Size (value : Nat) : (alphabet value).utf8Size = 1 := by
  by_cases small : value < 64
  · have table : ∀ i : Fin 64, (alphabet i).utf8Size = 1 := by decide +kernel
    exact table ⟨value, small⟩
  · have outside : alphabet value = 'A' := by
      rw [alphabet, getD_eq_default]
      have length : "ABCDEFGHIJKLMNOPQRSTUVWXYZabcdefghijklmnopqrstuvwxyz0123456789-_".toList.length
        = 64 := by decide +kernel
      omega
    rw [outside]
    rfl

theorem utf8ByteSize_of_alphabet (each : ∀ c ∈ chars, ∃ value, c = alphabet value) :
    (String.ofList chars).utf8ByteSize = chars.length := by
  rw [String.utf8ByteSize_ofList]
  induction chars with
  | nil => rfl
  | cons c rest ih =>
    obtain ⟨value, rfl⟩ := each c (by simp)
    simp [String.utf8Len, alphabet_utf8Size,
      ih (fun other present => each other (by simp [present]))]

theorem encodeChars_alphabet {bytes : List UInt8} :
    ∀ c ∈ encodeChars bytes, ∃ value, c = alphabet value := by
  fun_induction encodeChars bytes with
  | case1 a b c rest v ih =>
    simp only [mem_cons]
    rintro other (rfl | rfl | rfl | rfl | present)
    · exact ⟨_, rfl⟩
    · exact ⟨_, rfl⟩
    · exact ⟨_, rfl⟩
    · exact ⟨_, rfl⟩
    · exact ih other present
  | case2 | case3 | case4 => simp

theorem encodeChars_length (bytes : List UInt8) : (encodeChars bytes).length % 4 ≠ 1 := by
  fun_induction encodeChars bytes with
  | case1 a b c rest v ih =>
    simp only [length_cons]
    omega
  | case2 | case3 | case4 => simp

/-- The text is at most twice as long as the bytes. -/
theorem encode_size (bytes : List UInt8) : (encode bytes).utf8ByteSize ≤ 2 * bytes.length := by
  have chars : (encodeChars bytes).length ≤ 2 * bytes.length := by
    fun_induction encodeChars bytes with
    | case1 a b c rest v ih =>
      simp only [length_cons]
      omega
    | case2 | case3 | case4 => simp
  rw [encode, utf8ByteSize_of_alphabet (encodeChars_alphabet)]
  exact chars

/-! ## The decoding loop, one character at a time

The accumulator keeps the bits of earlier characters, so each lemma says only
what its low bits are. -/

theorem decodeLoop_first (acc v w : Nat) (rest : List Char) (small : v < 64) (smallNext : w < 64) :
    ∃ next, next % 16 = w % 16 ∧ decodeLoop acc 0 (alphabet v :: alphabet w :: rest) =
      (decodeLoop next 4 rest).map (UInt8.ofNat (v * 4 + w / 16) :: ·) := by
  refine ⟨((acc * 64 + v) % 4294967296 * 64 + w) % 4294967296, by omega, ?_⟩
  have emitted : ((acc * 64 + v) % 4294967296 * 64 + w) % 4294967296 / 16 % 256 = v * 4 + w / 16 := by
    omega
  simp only [decodeLoop, indexOf_alphabet small, indexOf_alphabet smallNext]
  norm_num [emitted]
  rfl

theorem decodeLoop_third {w : Nat} (x : Nat) (rest : List Char) (small : x < 64)
    (pending : acc % 16 = w % 16) :
    ∃ next, next % 4 = x % 4 ∧ decodeLoop acc 4 (alphabet x :: rest) =
      (decodeLoop next 2 rest).map (UInt8.ofNat (w % 16 * 16 + x / 4) :: ·) := by
  refine ⟨(acc * 64 + x) % 4294967296, by omega, ?_⟩
  have emitted : (acc * 64 + x) % 4294967296 / 4 % 256 = w % 16 * 16 + x / 4 := by
    omega
  simp only [decodeLoop, indexOf_alphabet small]
  norm_num [emitted]
  rfl

theorem decodeLoop_fourth {x : Nat} (y : Nat) (rest : List Char) (small : y < 64)
    (pending : acc % 4 = x % 4) :
    ∃ next, decodeLoop acc 2 (alphabet y :: rest) =
      (decodeLoop next 0 rest).map (UInt8.ofNat (x % 4 * 64 + y) :: ·) := by
  refine ⟨(acc * 64 + y) % 4294967296, ?_⟩
  have emitted : (acc * 64 + y) % 4294967296 % 256 = x % 4 * 64 + y := by
    omega
  simp only [decodeLoop, indexOf_alphabet small]
  norm_num [emitted]
  rfl

theorem decodeLoop_encodeChars (bytes : List UInt8) (acc : Nat) :
    decodeLoop acc 0 (encodeChars bytes) = .ok bytes := by
  have byte (b : UInt8) (n : Nat) (same : n = b.toNat) : UInt8.ofNat n = b := by
    simp [same]
  induction bytes using encodeChars.induct generalizing acc with
  | case1 a b c rest ih =>
    have boundA := a.toNat_lt
    have boundB := b.toNat_lt
    have boundC := c.toNat_lt
    simp only [encodeChars]
    generalize value : a.toNat * 65536 + b.toNat * 256 + c.toNat = v
    obtain ⟨acc₂, low₂, two⟩ := decodeLoop_first acc (v / 262144 % 64) (v / 4096 % 64)
      (alphabet (v / 64 % 64) :: alphabet (v % 64) :: encodeChars rest) (by omega) (by omega)
    obtain ⟨acc₃, low₃, three⟩ := decodeLoop_third (v / 64 % 64)
      (alphabet (v % 64) :: encodeChars rest) (by omega) low₂
    obtain ⟨acc₄, four⟩ := decodeLoop_fourth (v % 64) (encodeChars rest) (by omega) low₃
    rw [two, three, four, ih acc₄]
    simp only [Except.map]
    rw [byte a _ (by omega), byte b _ (by omega), byte c _ (by omega)]
  | case2 a b =>
    have boundA := a.toNat_lt
    have boundB := b.toNat_lt
    simp only [encodeChars]
    generalize value : a.toNat * 65536 + b.toNat * 256 = v
    obtain ⟨acc₂, low₂, two⟩ := decodeLoop_first acc (v / 262144 % 64) (v / 4096 % 64)
      [alphabet (v / 64 % 64)] (by omega) (by omega)
    obtain ⟨acc₃, low₃, three⟩ := decodeLoop_third (v / 64 % 64) [] (by omega) low₂
    have exhausted : acc₃ % 4 = 0 := by omega
    rw [two, three, byte a _ (by omega), byte b _ (by omega)]
    simp [decodeLoop, Except.map, exhausted]
  | case3 a =>
    have boundA := a.toNat_lt
    simp only [encodeChars]
    generalize value : a.toNat * 65536 = v
    obtain ⟨acc₂, low₂, two⟩ := decodeLoop_first acc (v / 262144 % 64) (v / 4096 % 64) []
      (by omega) (by omega)
    have exhausted : acc₂ % 16 = 0 := by omega
    rw [two, byte a _ (by omega)]
    simp [decodeLoop, Except.map, exhausted]
  | case4 => simp [encodeChars, decodeLoop]

/-- A character the loop accepts is one of the alphabet. -/
theorem decodeLoop_head {rest : List Char} {bytes : List UInt8}
    (decoded : decodeLoop acc bits (c :: rest) = .ok bytes) :
    ∃ v, v < 64 ∧ c = alphabet v := by
  cases found : indexOf c with
  | none => simp [decodeLoop, found, fail] at decoded
  | some v => exact ⟨v, indexOf_some found⟩

theorem decodeLoop_second {v : Nat} {rest : List Char} {bytes : List UInt8}
    (small : v < 64) (decoded : decodeLoop acc 0 (alphabet v :: c :: rest) = .ok bytes) :
    ∃ w, w < 64 ∧ c = alphabet w := by
  rw [decodeLoop, indexOf_alphabet small] at decoded
  exact decodeLoop_head decoded

/-- At the end of the text no pending bit is set. -/
theorem decodeLoop_end {bytes : List UInt8} (pending : 0 < bits)
    (decoded : decodeLoop acc bits [] = .ok bytes) : acc % 2 ^ bits = 0 ∧ bytes = [] := by
  by_cases exhausted : acc % 2 ^ bits = 0
  · simp only [decodeLoop, exhausted, ne_eq, not_true_eq_false, and_false, if_false,
      Except.ok.injEq] at decoded
    exact ⟨exhausted, decoded.symm⟩
  · simp [decodeLoop, pending, exhausted, fail] at decoded

/-- The loop accepts a text only in the form in which it is encoded. -/
theorem encodeChars_decodeLoop {chars : List Char} (whole : chars.length % 4 ≠ 1) {acc : Nat}
    {bytes : List UInt8} (decoded : decodeLoop acc 0 chars = .ok bytes) :
    encodeChars bytes = chars := by
  have byte (n : Nat) (small : n < 256) : (UInt8.ofNat n).toNat = n :=
    UInt8.toNat_ofNat_of_lt small
  match chars with
  | [] =>
    obtain rfl : [] = bytes := by simpa [decodeLoop] using decoded
    rfl
  | [_] => simp at whole
  | c₁ :: c₂ :: tail =>
    obtain ⟨v, small, rfl⟩ := decodeLoop_head decoded
    obtain ⟨w, smallNext, rfl⟩ := decodeLoop_second small decoded
    obtain ⟨acc₂, low₂, two⟩ := decodeLoop_first acc v w tail small smallNext
    obtain ⟨bytes₂, decoded₂, rfl⟩ := map_ok (two ▸ decoded)
    have byteA := byte (v * 4 + w / 16) (by omega)
    match tail with
    | [] =>
      obtain ⟨exhausted, rfl⟩ := decodeLoop_end (by decide) decoded₂
      simp only [encodeChars, byteA, cons.injEq, and_true]
      exact ⟨congrArg alphabet (by omega), congrArg alphabet (by omega)⟩
    | c₃ :: tail =>
      obtain ⟨x, smallThird, rfl⟩ := decodeLoop_head decoded₂
      obtain ⟨acc₃, low₃, three⟩ := decodeLoop_third x tail smallThird low₂
      obtain ⟨bytes₃, decoded₃, rfl⟩ := map_ok (three ▸ decoded₂)
      have byteB := byte (w % 16 * 16 + x / 4) (by omega)
      match tail with
      | [] =>
        obtain ⟨exhausted, rfl⟩ := decodeLoop_end (by decide) decoded₃
        simp only [encodeChars, byteA, byteB, cons.injEq, and_true]
        exact ⟨congrArg alphabet (by omega), congrArg alphabet (by omega),
          congrArg alphabet (by omega)⟩
      | c₄ :: tail =>
        obtain ⟨y, smallFourth, rfl⟩ := decodeLoop_head decoded₃
        obtain ⟨acc₄, four⟩ := decodeLoop_fourth y tail smallFourth low₃
        obtain ⟨bytes₄, decoded₄, rfl⟩ := map_ok (four ▸ decoded₃)
        have byteC := byte (x % 4 * 64 + y) (by omega)
        have remaining : tail.length % 4 ≠ 1 := by
          simp only [length_cons] at whole
          omega
        have rest := encodeChars_decodeLoop remaining decoded₄
        simp only [encodeChars, byteA, byteB, byteC, cons.injEq, rest, and_true]
        exact ⟨congrArg alphabet (by omega), congrArg alphabet (by omega),
          congrArg alphabet (by omega), congrArg alphabet (by omega)⟩

theorem decodeLoop_alphabet (acc bits : Nat) (bytes : List UInt8)
    (decoded : decodeLoop acc bits chars = .ok bytes) :
    ∀ c ∈ chars, ∃ value, c = alphabet value := by
  induction chars generalizing acc bits bytes with
  | nil => simp
  | cons c rest ih =>
    obtain ⟨v, small, rfl⟩ := decodeLoop_head decoded
    simp only [decodeLoop, indexOf_alphabet small] at decoded
    have remaining : ∃ next pending more, decodeLoop next pending rest = .ok more := by
      split_ifs at decoded
      · obtain ⟨more, decoded, _⟩ := (bind_ok _ _ _).mp decoded
        exact ⟨_, _, more, decoded⟩
      · exact ⟨_, _, bytes, decoded⟩
    obtain ⟨next, pending, more, decoded⟩ := remaining
    intro other present
    rcases mem_cons.mp present with rfl | present
    · exact ⟨v, rfl⟩
    · exact ih next pending more decoded other present

/-! ## Round trips -/

theorem decode_encode {bytes : List UInt8} : decode (encode bytes) = .ok bytes := by
  have size : (encode bytes).utf8ByteSize = (encodeChars bytes).length :=
    utf8ByteSize_of_alphabet (encodeChars_alphabet)
  rw [decode, size, if_neg (encodeChars_length bytes), encode, String.toList_ofList]
  exact decodeLoop_encodeChars bytes 0

theorem encode_of_decode {text : String} {bytes : List UInt8} (decoded : decode text = .ok bytes) :
    encode bytes = text := by
  unfold decode at decoded
  split_ifs at decoded with short
  · simp [fail] at decoded
  · have size := utf8ByteSize_of_alphabet (decodeLoop_alphabet _ _ _ decoded)
    rw [String.ofList_toList] at size
    rw [size] at short
    rw [encode, encodeChars_decodeLoop short decoded, String.ofList_toList]

/-- Decoding and encoding are inverse to each other, so no two texts decode to the same bytes. -/
theorem base64url_bijective :
    (∀ bytes, decode (encode bytes) = .ok bytes) ∧
      (∀ text bytes, decode text = .ok bytes → encode bytes = text) ∧
      ∀ text other bytes, decode text = .ok bytes → decode other = .ok bytes → text = other := by
  refine ⟨fun _ => decode_encode, fun _ _ => encode_of_decode, fun text other bytes first second => ?_⟩
  exact (encode_of_decode first).symm.trans (encode_of_decode second)

theorem decodeFixed_encode (bytes : Bytes n) :
    decodeFixed n (encode bytes.val) = .ok bytes := by
  obtain ⟨bytes, rfl⟩ := bytes
  simp [decodeFixed, decode_encode]

theorem encode_of_decodeFixed {text : String} {bytes : Bytes n}
    (decoded : decodeFixed n text = .ok bytes) : encode bytes.val = text := by
  simp only [decodeFixed, bind_ok] at decoded
  obtain ⟨raw, first, second⟩ := decoded
  split_ifs at second with exact
  · obtain rfl : (⟨raw, exact⟩ : Bytes n) = bytes := by simpa [pure_ok] using second
    exact encode_of_decode first
  · simp [fail] at second

end Synergos.Base64url
