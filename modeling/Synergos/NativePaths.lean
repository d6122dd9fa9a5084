import Synergos.ByteText
import Synergos.NativeVersions

/-!
# The path check of the native core

The native core looks at the bytes of a path and the node at its characters. Both
refuse the same names. They differ in the control characters above ASCII: their
bytes are not those of any ASCII character, so the native check passes them, while
the node refuses every control character of Unicode.

`Plain` says what both checks ask for, without reference to either.
-/

namespace Synergos.NativePaths

open SafePath ByteText List
open Envelope (utf8 utf8_injective)

/-! ### The check on bytes -/

def partsAreSafe (first : Bool) : List (List UInt8) → Bool
  | [] => true
  | part :: rest =>
    if part = [] ∨ part = utf8 "." ∨ part = utf8 ".." ∨
        (first = true ∧ part = utf8 ".synergos") then false
    else partsAreSafe false rest

/-- The bytes that no path may have: control characters, `\` and `:`. -/
def refusedByte (byte : UInt8) : Bool := byte < 32 || byte == 127 || byte == 92 || byte == 58

def isSafeRelativePath (path : List UInt8) : Bool :=
  if path = [] ∨ path.head? = some 47 then false
  else if path.any refusedByte then false
  else partsAreSafe true (path.splitOn 47)

/-! ### Bytes and characters -/

/-- The bytes of some characters. -/
def encode (text : List Char) : List UInt8 := text.flatMap String.utf8EncodeChar

theorem encode_inj {left right : List Char} : encode left = encode right ↔ left = right := by
  refine ⟨fun same => ?_, congrArg encode⟩
  have texts : String.ofList left = String.ofList right :=
    utf8_injective (by simpa [utf8_eq_flatMap, encode] using same)
  exact String.ofList_injective texts

theorem utf8_ofList (text : String) : utf8 text = encode text.toList := utf8_eq_flatMap text

theorem mem_encode {text : List Char} {byte : UInt8} (ascii : byte.toNat < 128) :
    byte ∈ encode text ↔ ∃ char ∈ text, char.toNat = byte.toNat := by
  constructor
  · intro present
    obtain ⟨char, inside, found⟩ := mem_flatMap.mp present
    exact ⟨char, inside, mem_utf8EncodeChar ascii found⟩
  · rintro ⟨char, inside, same⟩
    refine mem_flatMap.mpr ⟨char, inside, ?_⟩
    have value : char.val.toNat = byte.toNat := same
    have low : byte.toNat ≤ 127 := by omega
    simp [String.utf8EncodeChar, value, low]

theorem encode_pathText (segments : List (List Char)) :
    encode (pathText segments) = [47].intercalate (segments.map encode) := by
  induction segments with
  | nil => rfl
  | cons first rest ih =>
    cases rest with
    | nil => simp [pathText_singleton]
    | cons second later =>
      have slash : String.utf8EncodeChar '/' = [47] := by decide
      rw [pathText_cons first (by simp), map_cons,
        intercalate_cons_of_ne_nil (by simp), ← ih]
      simp [encode, slash]

/-- The parts between the slashes are the bytes of the names. -/
theorem splitOn_encode (text : List Char) :
    (encode text).splitOn 47 = (text.splitOn '/').map encode := by
  have parts : encode text = [47].intercalate ((text.splitOn '/').map encode) := by
    rw [← encode_pathText, pathText_splitOn]
  rw [parts]
  refine splitOn_intercalate 47 ?_ (by simp [splitOn_ne_nil])
  intro part present slash
  obtain ⟨segment, inside, rfl⟩ := mem_map.mp present
  obtain ⟨char, member, same⟩ := (mem_encode (by decide)).mp slash
  obtain rfl : char = '/' := Char.toNat_inj.mp same
  exact (mem_splitOn inside).1 member

/-! ### What both checks ask for -/

/-- The characters that both checks refuse. -/
def refusedChar (char : Char) : Bool :=
  char.toNat < 32 || char.toNat == 127 || char == '\\' || char == ':'

/-- The control characters above ASCII. -/
def highControl (char : Char) : Bool := 0x80 ≤ char.toNat && char.toNat ≤ 0x9f

/-- The path is a list of names that do not lead elsewhere, and the first is not that of the
metadata directory. -/
structure Plain (path : String) : Prop where
  names : ∀ name ∈ path.toList.splitOn '/',
    name ≠ [] ∧ name ≠ ".".toList ∧ name ≠ "..".toList
  outside : (path.toList.splitOn '/').head? ≠ some metaDir.toList
  chars : ∀ char ∈ path.toList, refusedChar char = false

theorem partsAreSafe_iff (first : Bool) (names : List (List Char)) :
    partsAreSafe first (names.map encode) = true ↔
      (∀ name ∈ names, name ≠ [] ∧ name ≠ ".".toList ∧ name ≠ "..".toList) ∧
        (first = true → names.head? ≠ some metaDir.toList) := by
  induction names generalizing first with
  | nil => simp [partsAreSafe]
  | cons name rest ih =>
    have empty : encode name = [] ↔ name = [] := @encode_inj name []
    simp only [map_cons, partsAreSafe, utf8_ofList, encode_inj, empty, forall_mem_cons,
      List.head?_cons, ne_eq, Option.some.injEq]
    split_ifs with refused
    · simp only [false_iff, metaDir]
      tauto
    · push Not at refused
      simp only [ih, Bool.false_eq_true, false_implies, and_true, metaDir]
      exact ⟨fun others => ⟨⟨⟨refused.1, refused.2.1, refused.2.2.1⟩, others⟩, refused.2.2.2⟩,
        fun all => all.1.2⟩

theorem checkSegments_iff (first : Bool) (names : List (List Char)) :
    (checkSegments first names).isSome = true ↔
      (∀ name ∈ names, name ≠ [] ∧ name ≠ ".".toList ∧ name ≠ "..".toList ∧ ':' ∉ name) ∧
        (first = true → names.head? ≠ some metaDir.toList) := by
  induction names generalizing first with
  | nil => simp [checkSegments]
  | cons name rest ih =>
    simp only [checkSegments, forall_mem_cons, List.head?_cons, ne_eq, Option.some.injEq]
    split_ifs with dots colon
    · simp only [Option.isSome_none, Bool.false_eq_true, false_iff]
      tauto
    · simp only [Option.isSome_none, Bool.false_eq_true, false_iff]
      tauto
    · push Not at dots colon
      simp only [Option.isSome_map, ih, Bool.false_eq_true, false_implies, and_true]
      exact ⟨fun others => ⟨⟨⟨dots.1, dots.2.1, dots.2.2, colon.1⟩, others⟩, colon.2⟩,
        fun all => all.1.2⟩

theorem refusedByte_eq {byte : UInt8} {char : Char} (same : char.toNat = byte.toNat) :
    refusedByte byte = refusedChar char := by
  simp [refusedByte, refusedChar, ← Char.toNat_inj, ← UInt8.toNat_inj, UInt8.lt_iff_toNat_lt, same,
    Bool.beq_eq_decide_eq]

theorem any_refusedByte (text : List Char) :
    (encode text).any refusedByte = text.any refusedChar := by
  rw [Bool.eq_iff_iff, any_eq_true, any_eq_true]
  constructor
  · rintro ⟨byte, present, refused⟩
    have ascii : byte.toNat < 128 := by
      simp only [refusedByte, Bool.or_eq_true, decide_eq_true_eq, beq_iff_eq, UInt8.lt_iff_toNat_lt,
        ← UInt8.toNat_inj, UInt8.reduceToNat] at refused
      omega
    obtain ⟨char, inside, same⟩ := (mem_encode ascii).mp present
    exact ⟨char, inside, refusedByte_eq same ▸ refused⟩
  · rintro ⟨char, inside, refused⟩
    have ascii : char.toNat < 128 := by
      simp only [refusedChar, Bool.or_eq_true, decide_eq_true_eq, beq_iff_eq, ← Char.toNat_inj,
        Char.reduceToNat] at refused
      omega
    have same : char.toNat = (UInt8.ofNat char.toNat).toNat := by
      rw [UInt8.toNat_ofNat']
      omega
    exact ⟨UInt8.ofNat char.toNat, (mem_encode (same ▸ ascii)).mpr ⟨char, inside, same⟩,
      refusedByte_eq same ▸ refused⟩

theorem isSafeRelativePath_iff (path : String) :
    isSafeRelativePath (utf8 path) = true ↔ Plain path := by
  rw [utf8_ofList, isSafeRelativePath, splitOn_encode, any_refusedByte]
  constructor
  · intro passed
    split_ifs at passed with start refused
    obtain ⟨names, outside⟩ := (partsAreSafe_iff true _).mp passed
    exact ⟨names, outside rfl, by simpa using refused⟩
  · intro plain
    have named : [] ∉ (path.toList.splitOn '/').map encode := by
      intro empty
      obtain ⟨name, present, none⟩ := mem_map.mp empty
      exact (plain.names name present).1 (encode_inj.mp none)
    rw [if_neg, if_neg]
    · exact (partsAreSafe_iff true _).mpr ⟨plain.names, fun _ => plain.outside⟩
    · simpa using plain.chars
    · rw [← splitOn_encode] at named
      rintro (empty | slash)
      · simp [empty] at named
      · obtain ⟨rest, bytes⟩ := List.head?_eq_some_iff.mp slash
        simp [bytes, splitOn_cons_eq_if_modifyHead] at named

/-- What the node refuses beside what both refuse. -/
theorem refused_iff (char : Char) :
    (isControl char = true ∨ char = '\\' ∨ char = ':') ↔
      (refusedChar char = true ∨ highControl char = true) := by
  simp only [isControl, refusedChar, highControl, Bool.or_eq_true, Bool.and_eq_true,
    decide_eq_true_eq, beq_iff_eq, ← Char.toNat_inj, Char.reduceToNat]
  omega

theorem safeRelToLocal_iff (path : String) :
    (safeRelToLocal path).isSome = true ↔
      Plain path ∧ ∀ char ∈ path.toList, highControl char = false := by
  unfold safeRelToLocal
  constructor
  · intro passed
    split_ifs at passed with excluded
    · cases passed
    push Not at excluded
    obtain ⟨_, _, noBackslash, noControl⟩ := excluded
    obtain ⟨names, outside⟩ := (checkSegments_iff true _).mp passed
    have noColon : ':' ∉ path.toList := by
      rw [← pathText_splitOn path.toList]
      exact not_mem_pathText (by decide) fun name present => (names name present).2.2.2
    have allowed : ∀ char ∈ path.toList, ¬ (refusedChar char = true ∨ highControl char = true) := by
      intro char present refused
      rcases (refused_iff char).mpr refused with control | rfl | rfl
      · exact noControl (any_eq_true.mpr ⟨char, present, control⟩)
      · exact noBackslash present
      · exact noColon present
    refine ⟨⟨fun name present => ?_, outside rfl, fun char present => ?_⟩, fun char present => ?_⟩
    · exact ⟨(names name present).1, (names name present).2.1, (names name present).2.2.1⟩
    · simpa using fun refused => allowed char present (.inl refused)
    · simpa using fun high => allowed char present (.inr high)
  · rintro ⟨plain, low⟩
    have allowed : ∀ char ∈ path.toList, ¬ (isControl char = true ∨ char = '\\' ∨ char = ':') := by
      intro char present
      rw [refused_iff, plain.chars char present, low char present]
      simp
    rw [if_neg]
    · refine (checkSegments_iff true _).mpr ⟨fun name present => ?_, fun _ => plain.outside⟩
      obtain ⟨nonempty, here, up⟩ := plain.names name present
      exact ⟨nonempty, here, up, fun colon =>
        allowed ':' ((mem_splitOn present).2 _ colon) (.inr (.inr rfl))⟩
    · rintro (empty | slash | backslash | control)
      · exact (plain.names [] (by simp [empty])).1 rfl
      · obtain ⟨rest, text⟩ := List.head?_eq_some_iff.mp slash
        exact (plain.names [] (by simp [text, splitOn_cons_eq_if_modifyHead])).1 rfl
      · exact allowed _ backslash (.inr (.inl rfl))
      · obtain ⟨char, present, isControl⟩ := any_eq_true.mp control
        exact allowed char present (.inl isControl)

/-- The checks agree on a path exactly if it is refused for its names or has no control
character above ASCII. -/
theorem path_checks_agree_iff (path : String) :
    (isSafeRelativePath (utf8 path) = true ↔ (safeRelToLocal path).isSome = true) ↔
      (Plain path → ∀ char ∈ path.toList, highControl char = false) := by
  rw [isSafeRelativePath_iff, safeRelToLocal_iff]
  exact ⟨fun agree plain => (agree.mp plain).2, fun low => ⟨fun plain => ⟨plain, low plain⟩, And.left⟩⟩

/-- A name with the control character of number 0x85 passes the native check only. -/
theorem control_passes_native_only :
    isSafeRelativePath (utf8 "a\u0085") = true ∧ safeRelToLocal "a\u0085" = none := by
  decide +kernel

end Synergos.NativePaths
