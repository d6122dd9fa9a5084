import Synergos.Envelope

/-!
# Texts and numbers laid end to end

Encodings without length fields put texts, numbers of a fixed width and lists
of zero-terminated texts one after another. This module has the laws that such
layouts do obey: a number is determined by its bytes and every block of bytes is
some number, and a list of terminated texts is itself a text.
-/

namespace Synergos.ByteText

open Envelope List
open Logs (split_unique)

/-! ## Numbers -/

/-- The low bytes of a number, least significant first. -/
def leBytes : Nat → Nat → List UInt8
  | 0, _ => []
  | width + 1, value => UInt8.ofNat value :: leBytes width (value / 256)

variable {items : List String} {byte : UInt8} (width : Nat) (value : Nat)

@[simp]
theorem leBytes_length : (leBytes width value).length = width := by
  induction width generalizing value with
  | zero => rfl
  | succ width ih => simp [leBytes, ih]

theorem leBytes_injective (value' : Nat) (bound : value < 256 ^ width)
    (bound' : value' < 256 ^ width) (same : leBytes width value = leBytes width value') :
    value = value' := by
  induction width generalizing value value' with
  | zero =>
    rw [Nat.pow_zero] at bound bound'
    omega
  | succ width ih =>
    obtain ⟨lows, highs⟩ := cons.inj same
    have low : value % 256 = value' % 256 := by
      have := congrArg UInt8.toNat lows
      simpa using this
    have high : value / 256 = value' / 256 := by
      rw [Nat.pow_succ] at bound bound'
      exact ih _ _ (Nat.div_lt_of_lt_mul (by omega))
        (Nat.div_lt_of_lt_mul (by omega)) highs
    omega

/-- Every block of bytes is the form of a number. -/
theorem leBytes_surjective (bytes : List UInt8) :
    ∃ value < 256 ^ bytes.length, leBytes bytes.length value = bytes := by
  induction bytes with
  | nil => exact ⟨0, by simp, rfl⟩
  | cons first rest ih =>
    obtain ⟨high, bound, form⟩ := ih
    have small := first.toNat_lt
    refine ⟨first.toNat + 256 * high, ?_, ?_⟩
    · rw [length_cons, Nat.pow_succ]
      omega
    · have low : UInt8.ofNat (first.toNat + 256 * high) = first := by
        apply UInt8.toNat_inj.mp
        rw [UInt8.toNat_ofNat']
        omega
      have shifted : (first.toNat + 256 * high) / 256 = high := by omega
      rw [length_cons, leBytes, low, shifted, form]

def le32 (value : UInt32) : List UInt8 := leBytes 4 value.toNat

def le64 (value : UInt64) : List UInt8 := leBytes 8 value.toNat

@[simp]
theorem le32_length (value : UInt32) : (le32 value).length = 4 := leBytes_length 4 _

@[simp]
theorem le64_length (value : UInt64) : (le64 value).length = 8 := leBytes_length 8 _

theorem le32_injective {value value' : UInt32} (same : le32 value = le32 value') :
    value = value' :=
  UInt32.toNat_inj.mp (leBytes_injective 4 _ _ value.toNat_lt value'.toNat_lt same)

theorem le64_injective {value value' : UInt64} (same : le64 value = le64 value') :
    value = value' :=
  UInt64.toNat_inj.mp (leBytes_injective 8 _ _ value.toNat_lt value'.toNat_lt same)

theorem le32_surjective (bytes : List UInt8) (size : bytes.length = 4) :
    ∃ value, le32 value = bytes := by
  obtain ⟨value, bound, form⟩ := leBytes_surjective bytes
  rw [size] at bound form
  refine ⟨UInt32.ofNat value, ?_⟩
  rw [le32, UInt32.toNat_ofNat', Nat.mod_eq_of_lt (show value < 2 ^ 32 from bound), form]

theorem le64_surjective (bytes : List UInt8) (size : bytes.length = 8) :
    ∃ value, le64 value = bytes := by
  obtain ⟨value, bound, form⟩ := leBytes_surjective bytes
  rw [size] at bound form
  refine ⟨UInt64.ofNat value, ?_⟩
  rw [le64, UInt64.toNat_ofNat', Nat.mod_eq_of_lt (show value < 2 ^ 64 from bound), form]

/-- Blocks of eight bytes are numbers one after another. -/
theorem le64s_surjective {count : Nat} (bytes : List UInt8) (size : bytes.length = 8 * count) :
    ∃ values : List UInt64, values.flatMap le64 = bytes := by
  induction count generalizing bytes with
  | zero => exact ⟨[], (length_eq_zero_iff.mp size).symm⟩
  | succ count ih =>
    obtain ⟨first, head⟩ := le64_surjective (bytes.take 8) (by rw [length_take]; omega)
    obtain ⟨rest, tail⟩ := ih (bytes.drop 8) (by rw [length_drop]; omega)
    refine ⟨first :: rest, ?_⟩
    rw [flatMap_cons, head, tail, take_append_drop]

theorem le64s_length (values : List UInt64) : (values.flatMap le64).length = 8 * values.length := by
  induction values with
  | nil => rfl
  | cons first rest ih =>
    rw [flatMap_cons, length_append, le64_length, ih, length_cons]
    omega

theorem le64s_injective {values values' : List UInt64}
    (same : values.flatMap le64 = values'.flatMap le64) : values = values' := by
  induction values generalizing values' with
  | nil =>
    have size := congrArg List.length same
    rw [le64s_length, le64s_length, length_nil] at size
    exact (length_eq_zero_iff.mp (by omega)).symm
  | cons first rest ih =>
    cases values' with
    | nil =>
      have size := congrArg List.length same
      rw [le64s_length, le64s_length, length_nil, length_cons] at size
      omega
    | cons first' rest' =>
      rw [flatMap_cons, flatMap_cons] at same
      obtain ⟨heads, tails⟩ := append_inj same (by rw [le64_length, le64_length])
      rw [le64_injective heads, ih tails]

/-! ## Texts -/

@[simp]
theorem utf8_empty : utf8 "" = [] := rfl

@[simp]
theorem utf8_append (left right : String) : utf8 (left ++ right) = utf8 left ++ utf8 right := by
  simp [utf8, String.toByteArray_append, ByteArray.data_append]

/-- A byte below 128 comes from the character of that number only. -/
theorem mem_utf8EncodeChar {c : Char} (ascii : byte.toNat < 128)
    (present : byte ∈ String.utf8EncodeChar c) : c.toNat = byte.toNat := by
  have high (number : Nat) (least : 128 ≤ number) (most : number < 256)
      (same : byte = UInt8.ofNat number) : c.toNat = byte.toNat := by
    rw [same, UInt8.toNat_ofNat'] at ascii
    omega
  have value : c.val.toNat = c.toNat := rfl
  unfold String.utf8EncodeChar at present
  simp only at present
  split_ifs at present with one two three <;>
    simp only [mem_cons, not_mem_nil, or_false] at present
  · rw [present, UInt8.toNat_ofNat']
    omega
  · rcases present with same | same <;> exact high _ (by omega) (by omega) same
  · rcases present with same | same | same <;> exact high _ (by omega) (by omega) same
  · rcases present with same | same | same | same <;> exact high _ (by omega) (by omega) same

theorem utf8_eq_flatMap (text : String) :
    utf8 text = text.toList.flatMap String.utf8EncodeChar := by
  have encoded : text.toByteArray = text.toList.utf8Encode := by
    rw [← String.toByteArray_ofList, String.ofList_toList]
  rw [utf8, encoded, List.utf8Encode]
  simp

theorem mem_utf8 {text : String} (ascii : byte.toNat < 128)
    (present : byte ∈ utf8 text) : ∃ c ∈ text.toList, c.toNat = byte.toNat := by
  rw [utf8_eq_flatMap] at present
  obtain ⟨c, inside, found⟩ := mem_flatMap.mp present
  exact ⟨c, inside, mem_utf8EncodeChar ascii found⟩

theorem utf8_zero : utf8 "\x00" = [0] := by decide

theorem utf8_eq_nil {text : String} (none : utf8 text = []) : text = "" :=
  utf8_injective none

/-- The bytes of some text. -/
def IsText (bytes : List UInt8) : Prop := ∃ text, utf8 text = bytes

/-- Each text of a list with a zero byte after it. -/
def terminated (items : List String) : List UInt8 := items.flatMap (fun item => utf8 item ++ [0])

/-- A list of terminated texts as one text. -/
def joined : List String → String
  | [] => ""
  | item :: rest => item ++ "\x00" ++ joined rest

theorem utf8_joined (items : List String) : utf8 (joined items) = terminated items := by
  induction items with
  | nil => rfl
  | cons item rest ih =>
    simp [joined, terminated, utf8_zero, ih]

theorem terminated_cons (item : String) (rest : List String) :
    terminated (item :: rest) = utf8 item ++ 0 :: terminated rest := by
  simp [terminated]

theorem terminated_append (items items' : List String) :
    terminated (items ++ items') = terminated items ++ terminated items' := by
  simp [terminated]

theorem terminated_eq_nil (none : terminated items = []) : items = [] := by
  cases items with
  | nil => rfl
  | cons item rest => simp [terminated_cons] at none

/-- A list of terminated texts ends in a zero byte, and the rest is a text. -/
theorem joined_end (some : items ≠ []) :
    ∃ front, joined items = front ++ "\x00" := by
  induction items with
  | nil => exact absurd rfl some
  | cons item rest ih =>
    by_cases last : rest = []
    · exact ⟨item, by simp [joined, last]⟩
    · obtain ⟨front, form⟩ := ih last
      exact ⟨item ++ "\x00" ++ front, by rw [joined, form]; simp [String.append_assoc]⟩

/-- Bytes that read as a list of terminated texts. -/
def Closed (bytes : List UInt8) : Prop := ∃ items, terminated items = bytes

/-- A single text without the zero character is the only list with its bytes. -/
theorem terminated_singleton {item : String} (free : '\x00' ∉ item.toList)
    (same : terminated items = terminated [item]) :
    items = [item] := by
  have texts : joined items = joined [item] :=
    utf8_injective (by rw [utf8_joined, utf8_joined, same])
  have zero : "\x00".toList = ['\x00'] := by decide
  cases items with
  | nil => exact absurd (terminated_eq_nil same.symm) (by simp)
  | cons first rest =>
    have chars : first.toList ++ '\x00' :: (joined rest).toList = item.toList ++ ['\x00'] := by
      have := congrArg String.toList texts
      simpa [joined, zero] using this
    have counts := congrArg (List.count '\x00') chars
    simp only [count_append, count_cons_self, count_eq_zero_of_not_mem free,
      count_nil] at counts
    have freeFirst : '\x00' ∉ first.toList := count_eq_zero.mp (by omega)
    obtain ⟨heads, tails⟩ := split_unique _ _ freeFirst free chars
    obtain rfl := String.toList_inj.mp heads
    have done : joined rest = joined [] := String.toList_inj.mp tails
    have none : terminated rest = [] := by rw [← utf8_joined, done]; rfl
    rw [terminated_eq_nil none]

end Synergos.ByteText
