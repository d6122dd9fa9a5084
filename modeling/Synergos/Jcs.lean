import Synergos.JsonText

/-!
# Canonical JSON of signed payloads

The one canonicalisation of the trust library: members sorted by the UTF-16
code units of their names, compact separators, integers only within the range
that JavaScript represents exactly, no duplicate names and at most 128 levels.
Its text is appended in sorted order, so the first fault met in that order is
the one reported.

The JSON reader is a third-party library and a parameter here. The only law
asked of it is that it reads the compact text of a value whose numbers are
integers of 64 bits as this value, with the members in the order of the text. The reader of `Synergos.JsonText` is one that obeys it.

A canonical text determines its value up to the order of members, and
canonicalising a canonical text changes nothing.
-/

namespace Synergos.Jcs

open JsonText List
open String (ofList utf8Len utf8Len_append utf8Len_cons utf8ByteSize_ofList)

/-- The typed failures of the trust library. -/
inductive Code where
  | jcsInvalidJson | jcsFloat | jcsDuplicateKey | jcsTooLarge | jcsTooDeep | jcsUnsafeInteger
  | encodingInvalid | envelopeBadCtx | envelopeBadSigner | envelopeBadSignature
  | lctMalformed | lctUnknownCaveat | lctBadCaveat | lctWidened | lctExpired | lctNotYetValid
  | lctTtlExceeded | lctRevoked | lctUnknownIssuer | lctProfileForbidden | lctProfileRule
  | receiptMalformed | receiptUnknownKid | receiptFromFuture | decodeTooLarge
  deriving DecidableEq, Repr

/-- The stable external name of a failure. -/
def codeName : Code → String
  | .jcsInvalidJson => "jcs.invalid_json"
  | .jcsFloat => "jcs.float"
  | .jcsDuplicateKey => "jcs.duplicate_key"
  | .jcsTooLarge => "jcs.too_large"
  | .jcsTooDeep => "jcs.too_deep"
  | .jcsUnsafeInteger => "jcs.unsafe_integer"
  | .encodingInvalid => "encoding.invalid"
  | .envelopeBadCtx => "envelope.bad_ctx"
  | .envelopeBadSigner => "envelope.bad_signer"
  | .envelopeBadSignature => "envelope.bad_signature"
  | .lctMalformed => "lct.malformed"
  | .lctUnknownCaveat => "lct.unknown_caveat"
  | .lctBadCaveat => "lct.bad_caveat"
  | .lctWidened => "lct.widened"
  | .lctExpired => "lct.expired"
  | .lctNotYetValid => "lct.not_yet_valid"
  | .lctTtlExceeded => "lct.ttl_exceeded"
  | .lctRevoked => "lct.revoked"
  | .lctUnknownIssuer => "lct.unknown_issuer"
  | .lctProfileForbidden => "lct.profile_forbidden"
  | .lctProfileRule => "lct.profile_rule"
  | .receiptMalformed => "receipt.malformed"
  | .receiptUnknownKid => "receipt.unknown_kid"
  | .receiptFromFuture => "receipt.from_future"
  | .decodeTooLarge => "decode.too_large"

/-- A thrown `TrustError`: its code and its detail text. -/
structure Fault where
  code : Code
  detail : String
  deriving DecidableEq, Repr

/-- The text of a thrown `TrustError`. -/
def Fault.what (fault : Fault) : String := codeName fault.code ++ ": " ++ fault.detail

abbrev Checked (α : Type) := Except Fault α

def fail {α : Type} (code : Code) (detail : String) : Checked α := .error ⟨code, detail⟩

/-- Go on only where a condition holds. -/
def ensure (condition : Prop) [Decidable condition] (code : Code) (detail : String) :
    Checked Unit :=
  if condition then .ok () else fail code detail

def maxBytes : Nat := 1024 * 1024

def maxDepth : Nat := 128

/-- The largest integer that a double represents together with its neighbours. -/
def maxSafeInteger : Int := 9007199254740991

/-- The UTF-16 code units of one character. -/
def utf16Units (c : Char) : List Nat :=
  if 0x10000 ≤ c.toNat then
    [0xd800 + (c.toNat - 0x10000) / 1024, 0xdc00 + (c.toNat - 0x10000) % 1024]
  else [c.toNat]

/-- The UTF-16 code units of a string; names are ordered by these. -/
def utf16 (text : String) : List Nat := text.toList.flatMap utf16Units

/-- The order in which the members of an object are written. -/
def Before {α : Type} (a b : String × α) : Prop := utf16 a.1 ≤ utf16 b.1

instance {α : Type} : DecidableRel (Before (α := α)) :=
  fun a b => inferInstanceAs (Decidable (utf16 a.1 ≤ utf16 b.1))

instance {α : Type} : Std.Total (Before (α := α)) :=
  ⟨fun a b => le_total (utf16 a.1) (utf16 b.1)⟩

instance {α : Type} : IsTrans (String × α) Before :=
  ⟨fun _ _ _ first second => le_trans first second⟩

/-- Write the sorted members one after the other. A name equal to the previous
one is refused before its value is looked at. -/
def joinMembers : Option (List Nat) → List (String × Checked (List Char)) → Checked (List Char)
  | _, [] => .ok []
  | previous, (name, value) :: rest =>
    if previous = some (utf16 name) then fail .jcsDuplicateKey "duplicate object key"
    else do
      let text ← value
      let more ← joinMembers (some (utf16 name)) rest
      pure ((if previous.isSome then [','] else []) ++ quoted name ++ ':' :: (text ++ more))

/-- Write the items of an array, separated by commas. -/
def joinItems (separated : Bool) : List (Checked (List Char)) → Checked (List Char)
  | [] => .ok []
  | item :: rest => do
    let text ← item
    let more ← joinItems true rest
    pure ((if separated then [','] else []) ++ (text ++ more))

mutual

/-- Append one value below `depth` enclosing levels. -/
def append (depth : Nat) (value : Json) : Checked (List Char) :=
  if maxDepth ≤ depth then fail .jcsTooDeep "nesting exceeds 128"
  else
    match value with
    | .obj members => do
      let body ← joinMembers none ((appendMembers (depth + 1) members).insertionSort Before)
      pure ('{' :: (body ++ ['}']))
    | .arr items => do
      let body ← joinItems false (appendItems (depth + 1) items)
      pure ('[' :: (body ++ [']']))
    | .str text => .ok (quoted text)
    | .real => fail .jcsFloat "floating point numbers are not allowed"
    | .int n =>
      if n < -maxSafeInteger ∨ maxSafeInteger < n then
        fail .jcsUnsafeInteger "integer exceeds 2^53-1"
      else .ok (toString n).toList
    | .bool b => .ok (if b then ['t', 'r', 'u', 'e'] else ['f', 'a', 'l', 's', 'e'])
    | .null => .ok ['n', 'u', 'l', 'l']

def appendItems (depth : Nat) : List Json → List (Checked (List Char))
  | [] => []
  | item :: rest => append depth item :: appendItems depth rest

def appendMembers (depth : Nat) : List (String × Json) → List (String × Checked (List Char))
  | [] => []
  | (name, value) :: rest => (name, append depth value) :: appendMembers depth rest

end

mutual

/-- The value with the members of every object in canonical order. -/
def sorted : Json → Json
  | .obj members => .obj ((sortedMembers members).insertionSort Before)
  | .arr items => .arr (sortedItems items)
  | value => value

def sortedItems : List Json → List Json
  | [] => []
  | item :: rest => sorted item :: sortedItems rest

def sortedMembers : List (String × Json) → List (String × Json)
  | [] => []
  | (name, value) :: rest => (name, sorted value) :: sortedMembers rest

end

mutual

/-- All numbers of the value are integers between two bounds. -/
def within (low high : Int) : Json → Bool
  | .real => false
  | .int n => decide (low ≤ n ∧ n ≤ high)
  | .arr items => withinItems low high items
  | .obj members => withinMembers low high members
  | _ => true

def withinItems (low high : Int) : List Json → Bool
  | [] => true
  | item :: rest => within low high item && withinItems low high rest

def withinMembers (low high : Int) : List (String × Json) → Bool
  | [] => true
  | (_, value) :: rest => within low high value && withinMembers low high rest

end

/-- All numbers are integers that canonical JSON may contain. -/
abbrev safe : Json → Bool := within (-maxSafeInteger) maxSafeInteger

/-- All numbers are integers of 64 bits. -/
abbrev machine : Json → Bool := within (-9223372036854775808) 18446744073709551615

section Reader

variable (reader : String → Option Json)

/-- Canonical form of a JSON text. -/
def canonicalize (json : String) : Checked String :=
  if maxBytes < json.utf8ByteSize then fail .jcsTooLarge "payload exceeds 1 MiB"
  else
    match reader json with
    | none => fail .jcsInvalidJson "invalid JSON or UTF-8"
    | some value => (append 0 value).map ofList

/-- What is asked of the reader: compact text is read as the value it is the
text of, members in the order of the text. -/
def ReadsCompact : Prop :=
  ∀ value, machine value = true → reader (ofList (render value)) = some value

end Reader

variable {ε α β : Type} (depth : Nat) (items : List Json)

@[simp] theorem ok_bind (value : α) (next : α → Except ε β) : .ok value >>= next = next value := rfl

@[simp] theorem error_bind (failure : ε) (next : α → Except ε β) :
    .error failure >>= next = .error failure := rfl

@[simp] theorem pure_eq (value : α) : (pure value : Except ε α) = .ok value := rfl

/-- A checked computation succeeds exactly when its first part does and the
rest succeeds on that result. -/
theorem bind_ok (first : Except ε α) (next : α → Except ε β) (result : β) :
    first >>= next = .ok result ↔ ∃ value, first = .ok value ∧ next value = .ok result := by
  cases first <;> simp

theorem pure_ok (value result : α) : (pure value : Except ε α) = .ok result ↔ value = result := by
  simp

/-- What every step of a checked fold keeps holds of its result. -/
theorem foldlM_keeps {step : β → α → Except ε β} {items : List α} (keeps : β → Prop) {start : β}
    (initial : keeps start)
    (kept : ∀ item ∈ items, ∀ value next, step value item = .ok next → keeps value → keeps next)
    {result : β} (folded : items.foldlM step start = .ok result) : keeps result := by
  induction items generalizing start with
  | nil =>
    obtain rfl : start = result := by simpa [pure_ok] using folded
    exact initial
  | cons item rest ih =>
    simp only [foldlM_cons, bind_ok] at folded
    obtain ⟨middle, first, second⟩ := folded
    exact ih (kept item (by simp) start middle first initial)
      (fun later present => kept later (by simp [present])) second

theorem ensure_ok (condition : Prop) [Decidable condition] (code : Code) (detail : String)
    (result : Unit) : ensure condition code detail = .ok result ↔ condition := by
  by_cases holds : condition <;> simp [ensure, holds, fail]

theorem map_ok {change : α → β} {checked : Checked α} {result : β}
    (mapped : checked.map change = .ok result) :
    ∃ value, checked = .ok value ∧ change value = result := by
  cases checked with
  | error fault => simp [Except.map] at mapped
  | ok value => exact ⟨value, rfl, by simpa [Except.map] using mapped⟩

theorem appendItems_eq_map :
    appendItems depth items = items.map (append depth) := by
  induction items with
  | nil => simp [appendItems]
  | cons item rest ih => simp [appendItems, ih]

theorem appendMembers_eq_map (members : List (String × Json)) :
    appendMembers depth members = members.map (fun member => (member.1, append depth member.2)) := by
  induction members with
  | nil => simp [appendMembers]
  | cons member rest ih => simp [appendMembers, ih]

theorem sortedItems_eq_map : sortedItems items = items.map sorted := by
  induction items with
  | nil => simp [sortedItems]
  | cons item rest ih => simp [sortedItems, ih]

theorem sortedMembers_eq_map (members : List (String × Json)) :
    sortedMembers members = members.map (fun member => (member.1, sorted member.2)) := by
  induction members with
  | nil => simp [sortedMembers]
  | cons member rest ih => simp [sortedMembers, ih]

/-- Sorting looks at names only, so it commutes with any change of the values. -/
theorem insertionSort_map (change : α → β) (members : List (String × α)) :
    (members.map (fun member => (member.1, change member.2))).insertionSort Before =
      (members.insertionSort Before).map (fun member => (member.1, change member.2)) := by
  exact (map_insertionSort Before Before (fun member => (member.1, change member.2)) members
    (fun _ _ _ _ => Iff.rfl)).symm

/-- What one value's canonical text is: the compact text of the sorted value,
which is also the canonical text of the sorted value itself. -/
def Faithful (value : Json) : Prop :=
  ∀ depth text, append depth value = .ok text →
    text = render (sorted value) ∧ safe (sorted value) = true ∧
      append depth (sorted value) = .ok text

theorem joinMembers_faithful {depth : Nat} {members : List (String × Json)}
    (each : ∀ member ∈ members, Faithful member.2) (previous : Option (List Nat)) (body : List Char)
    (joined : joinMembers previous
      (members.map (fun member => (member.1, append depth member.2))) = .ok body) :
    body = (if previous.isSome then renderMoreMembers else renderMembers)
        (members.map (fun member => (member.1, sorted member.2))) ∧
      withinMembers (-maxSafeInteger) maxSafeInteger (members.map (fun member => (member.1, sorted member.2))) = true ∧
      joinMembers previous
        (members.map (fun member => (member.1, append depth (sorted member.2)))) = .ok body := by
  induction members generalizing previous body with
  | nil =>
    obtain rfl : [] = body := by simpa [joinMembers] using joined
    cases previous <;> simp [renderMembers, renderMoreMembers, withinMembers, joinMembers]
  | cons member rest ih =>
    by_cases duplicate : previous = some (utf16 member.1)
    · simp [joinMembers, duplicate, fail] at joined
    · simp only [map_cons, joinMembers, if_neg duplicate, bind_ok, pure_ok] at joined
      obtain ⟨text, value, more, tail, rfl⟩ := joined
      obtain ⟨shape, whole, again⟩ := each member (by simp) depth text value
      obtain ⟨restShape, restWhole, restAgain⟩ := ih
        (fun other present => each other (by simp [present])) _ more tail
      simp only [Option.isSome_some, if_true] at restShape
      refine ⟨?_, ?_, ?_⟩
      · cases previous <;> simp [renderMembers, renderMoreMembers, shape, restShape]
      · simp [withinMembers, whole, restWhole]
      · simp only [map_cons, joinMembers, if_neg duplicate, again, restAgain]
        rfl

theorem joinItems_faithful {depth : Nat} {items : List Json}
    (each : ∀ item ∈ items, Faithful item) (separated : Bool) (body : List Char)
    (joined : joinItems separated (items.map (append depth)) = .ok body) :
    body = (if separated then renderMoreItems else renderItems) (items.map sorted) ∧
      withinItems (-maxSafeInteger) maxSafeInteger (items.map sorted) = true ∧
      joinItems separated (items.map (fun item => append depth (sorted item))) = .ok body := by
  induction items generalizing separated body with
  | nil =>
    obtain rfl : [] = body := by simpa [joinItems] using joined
    cases separated <;> simp [renderItems, renderMoreItems, withinItems, joinItems]
  | cons item rest ih =>
    simp only [map_cons, joinItems, bind_ok, pure_ok] at joined
    obtain ⟨text, value, more, tail, rfl⟩ := joined
    obtain ⟨shape, whole, again⟩ := each item (by simp) depth text value
    obtain ⟨restShape, restWhole, restAgain⟩ := ih
      (fun other present => each other (by simp [present])) _ more tail
    simp only [if_true] at restShape
    refine ⟨?_, ?_, ?_⟩
    · cases separated <;> simp [renderItems, renderMoreItems, shape, restShape]
    · simp [withinItems, whole, restWhole]
    · simp only [map_cons, joinItems, again, restAgain]
      rfl

/-- An object is written with its members sorted; writing the sorted object
meets them in the same order. -/
theorem obj_faithful (members : List (String × Json))
    (each : ∀ member ∈ members, Faithful member.2) : Faithful (.obj members) := by
  intro depth text appended
  let ordered := members.insertionSort Before
  have every : ∀ member ∈ ordered, Faithful member.2 := fun member present =>
    each member ((perm_insertionSort Before members).mem_iff.mp present)
  by_cases deep : maxDepth ≤ depth
  · simp [append, deep, fail] at appended
  · simp only [append, if_neg deep, appendMembers_eq_map, insertionSort_map (append (depth + 1)),
      bind_ok, pure_ok] at appended
    obtain ⟨body, joined, result⟩ := appended
    obtain ⟨shape, whole, again⟩ := joinMembers_faithful every none body joined
    have canonical : sorted (.obj members) =
        .obj (ordered.map (fun member => (member.1, sorted member.2))) := by
      simp [sorted, sortedMembers_eq_map, insertionSort_map sorted, ordered]
    have inOrder : ((ordered.map (fun member => (member.1, sorted member.2))).map
        (fun member => (member.1, append (depth + 1) member.2))).Pairwise Before := by
      rw [map_map, pairwise_map]
      exact pairwise_insertionSort Before members
    refine ⟨?_, ?_, ?_⟩
    · rw [canonical, ← result, shape]
      simp [render]
    · rw [canonical]
      simpa [within] using whole
    · rw [canonical]
      simp only [append, if_neg deep, appendMembers_eq_map]
      rw [inOrder.insertionSort_eq, map_map]
      have same : (fun member : String × Json => (member.1, append (depth + 1) member.2)) ∘
          (fun member : String × Json => (member.1, sorted member.2)) =
            fun member => (member.1, append (depth + 1) (sorted member.2)) := rfl
      rw [same, again, ← result]
      rfl

theorem arr_faithful (each : ∀ item ∈ items, Faithful item) :
    Faithful (.arr items) := by
  intro depth text appended
  by_cases deep : maxDepth ≤ depth
  · simp [append, deep, fail] at appended
  · simp only [append, if_neg deep, appendItems_eq_map, bind_ok, pure_ok] at appended
    obtain ⟨body, joined, result⟩ := appended
    obtain ⟨shape, whole, again⟩ := joinItems_faithful each false body joined
    refine ⟨?_, ?_, ?_⟩
    · rw [← result, shape]
      simp [sorted, sortedItems_eq_map, render]
    · simpa [sorted, sortedItems_eq_map, within] using whole
    · simp only [sorted, sortedItems_eq_map, append, if_neg deep, appendItems_eq_map, map_map]
      have same : append (depth + 1) ∘ sorted = fun item => append (depth + 1) (sorted item) := rfl
      rw [same, again, ← result]
      rfl

mutual

theorem faithful (value : Json) : Faithful value := by
  match value with
  | .obj members => exact obj_faithful members (members_faithful)
  | .arr items => exact arr_faithful items (items_faithful)
  | .null | .bool true | .bool false | .int n | .real | .str text =>
    intro depth text appended
    by_cases deep : maxDepth ≤ depth
    · simp [append, deep, fail] at appended
    · refine ⟨?_, ?_, by simpa [sorted] using appended⟩ <;>
      simp_all [append, sorted, render, within, fail, ite_eq_iff]

theorem items_faithful {items : List Json} : ∀ item ∈ items, Faithful item := by
  match items with
  | [] => simp
  | item :: rest =>
    intro other present
    rcases mem_cons.mp present with same | present
    · rw [same]
      exact faithful item
    · exact items_faithful other present

theorem members_faithful {members : List (String × Json)} :
    ∀ member ∈ members, Faithful member.2 := by
  match members with
  | [] => simp
  | (name, value) :: rest =>
    intro other present
    rcases mem_cons.mp present with same | present
    · rw [same]
      exact faithful value
    · exact members_faithful other present

end

mutual

theorem within_mono {low high low' high' : Int} (lower : low' ≤ low) (upper : high ≤ high')
    {value : Json} (inside : within low high value = true) : within low' high' value = true := by
  match value with
  | .obj members =>
    simp only [within] at inside ⊢
    exact withinMembers_mono lower upper inside
  | .arr items =>
    simp only [within] at inside ⊢
    exact withinItems_mono lower upper inside
  | .real => simp [within] at inside
  | .int n =>
    simp only [within, decide_eq_true_eq] at inside ⊢
    omega
  | .null | .bool _ | .str _ => rfl

theorem withinItems_mono {low high low' high' : Int} (lower : low' ≤ low) (upper : high ≤ high')
    {items : List Json} (inside : withinItems low high items = true) :
    withinItems low' high' items = true := by
  match items with
  | [] => rfl
  | item :: rest =>
    simp only [withinItems, Bool.and_eq_true] at inside ⊢
    exact ⟨within_mono lower upper inside.1, withinItems_mono lower upper inside.2⟩

theorem withinMembers_mono {low high low' high' : Int} (lower : low' ≤ low) (upper : high ≤ high')
    {members : List (String × Json)} (inside : withinMembers low high members = true) :
    withinMembers low' high' members = true := by
  match members with
  | [] => rfl
  | (_, value) :: rest =>
    simp only [withinMembers, Bool.and_eq_true] at inside ⊢
    exact ⟨within_mono lower upper inside.1, withinMembers_mono lower upper inside.2⟩

end

theorem withinItems_iff {low high : Int} {items : List Json} :
    withinItems low high items = true ↔ ∀ item ∈ items, within low high item = true := by
  induction items with
  | nil => simp [withinItems]
  | cons item rest ih => simp [withinItems, ih]

theorem withinMembers_iff {low high : Int} {members : List (String × Json)} :
    withinMembers low high members = true ↔ ∀ member ∈ members, within low high member.2 = true := by
  induction members with
  | nil => simp [withinMembers]
  | cons member rest ih => simp [withinMembers, ih]

theorem machine_of_safe {value : Json} (inside : safe value = true) : machine value = true :=
  within_mono (by decide) (by decide) inside

mutual

theorem integral_of_within {low high : Int} {value : Json} (inside : within low high value = true) :
    integral value = true := by
  match value with
  | .obj members => exact integralMembers_of_within (by simpa [within] using inside)
  | .arr items => exact integralItems_of_within (by simpa [within] using inside)
  | .real => simp [within] at inside
  | .null | .bool _ | .int _ | .str _ => rfl

theorem integralItems_of_within {low high : Int} {items : List Json}
    (inside : withinItems low high items = true) : integralItems items = true := by
  match items with
  | [] => rfl
  | item :: rest =>
    simp only [withinItems, Bool.and_eq_true] at inside
    simp [integralItems, integral_of_within inside.1, integralItems_of_within inside.2]

theorem integralMembers_of_within {low high : Int} {members : List (String × Json)}
    (inside : withinMembers low high members = true) : integralMembers members = true := by
  match members with
  | [] => rfl
  | (_, value) :: rest =>
    simp only [withinMembers, Bool.and_eq_true] at inside
    simp [integralMembers, integral_of_within inside.1,
      integralMembers_of_within inside.2]

end

/-- The reader of compact texts obeys the law asked of a reader. -/
theorem readsCompact_read : ReadsCompact JsonText.read :=
  fun value inside => read_render value (integral_of_within inside)

section Laws

variable {reader : String → Option Json}

/-- The canonical text of a value is read as the sorted value. -/
theorem read_canonical (law : ReadsCompact reader) {value : Json} {text : List Char}
    (appended : append 0 value = .ok text) :
    reader (ofList text) = some (sorted value) := by
  obtain ⟨shape, inside, _⟩ := faithful value 0 text appended
  rw [shape]
  exact law (sorted value) (machine_of_safe inside)

/-- Two values with one canonical text differ at most in the order of members. -/
theorem append_injective {left right : Json} {text : List Char}
    (first : append 0 left = .ok text) (second : append 0 right = .ok text) :
    sorted left = sorted right :=
  Option.some.inj ((read_canonical readsCompact_read first).symm.trans
    (read_canonical readsCompact_read second))

/-! ## Which values can be written -/

/-- A value can be written below some enclosing levels. -/
def Writes (depth : Nat) (value : Json) : Prop := ∃ chars, append depth value = .ok chars

theorem writes_of_toBool {depth : Nat} {value : Json}
    (writes : (append depth value).toBool = true) :
    Writes depth value := by
  cases appended : append depth value with
  | error fault => simp [appended, Except.toBool] at writes
  | ok text => exact ⟨text, appended⟩

theorem writes_str {depth : Nat} (shallow : depth < maxDepth) {value : String} :
    Writes depth (.str value) := by
  rw [Writes, append, if_neg (Nat.not_le.mpr shallow)]
  exact ⟨_, rfl⟩

theorem writes_arr (depth : Nat) (shallow : depth < maxDepth) {items : List Json}
    (each : ∀ item ∈ items, Writes (depth + 1) item) : Writes depth (.arr items) := by
  have joined (separated : Bool) (rest : List Json) (inside : ∀ item ∈ rest, Writes (depth + 1) item) :
      ∃ chars, joinItems separated (appendItems (depth + 1) rest) = .ok chars := by
    induction rest generalizing separated with
    | nil => exact ⟨_, rfl⟩
    | cons item rest ih =>
      obtain ⟨first, written⟩ := inside item (by simp)
      obtain ⟨more, others⟩ := ih true
        fun other present => inside other (by simp [present])
      exact ⟨_, by simp only [appendItems, joinItems, written, others, ok_bind]; rfl⟩
  obtain ⟨chars, written⟩ := joined false items each
  rw [Writes, append, if_neg (Nat.not_le.mpr shallow)]
  exact ⟨_, by simp only [written, ok_bind]; rfl⟩

/-- An object in canonical order with different names can be written. -/
theorem writes_obj (depth : Nat) (shallow : depth < maxDepth) {members : List (String × Json)}
    (ordered : members.Pairwise (fun a b => utf16 a.1 < utf16 b.1))
    (each : ∀ member ∈ members, Writes (depth + 1) member.2) : Writes depth (.obj members) := by
  have joined (previous : Option (List Nat)) (rest : List (String × Json))
      (inOrder : rest.Pairwise (fun a b => utf16 a.1 < utf16 b.1))
      (new : ∀ name ∈ previous, ∀ member ∈ rest, name < utf16 member.1)
      (inside : ∀ member ∈ rest, Writes (depth + 1) member.2) :
      ∃ chars, joinMembers previous (appendMembers (depth + 1) rest) = .ok chars := by
    induction rest generalizing previous with
    | nil => exact ⟨_, rfl⟩
    | cons member rest ih =>
      obtain ⟨name, value⟩ := member
      obtain ⟨first, written⟩ := inside (name, value) (by simp)
      obtain ⟨more, others⟩ := ih (some (utf16 name)) (pairwise_cons.mp inOrder).2
        (by
          intro found same other present
          obtain rfl := Option.some.inj same
          exact (pairwise_cons.mp inOrder).1 other present)
        fun other present => inside other (by simp [present])
      have different : previous ≠ some (utf16 name) := by
        intro same
        exact lt_irrefl _ (new (utf16 name) same (name, value) (by simp))
      exact ⟨_, by
        simp only [appendMembers, joinMembers, if_neg different, written, others, ok_bind]
        rfl⟩
  have settled : (appendMembers (depth + 1) members).insertionSort Before =
      appendMembers (depth + 1) members := by
    rw [appendMembers_eq_map]
    refine List.Pairwise.insertionSort_eq (pairwise_map.mpr (ordered.imp ?_))
    intro a b before
    exact le_of_lt before
  obtain ⟨chars, written⟩ := joined none members ordered (by simp) each
  rw [Writes, append, if_neg (Nat.not_le.mpr shallow)]
  exact ⟨_, by simp only [settled, written, ok_bind]; rfl⟩

/-- A value whose compact text is canonical. -/
def Canonical (value : Json) : Prop :=
  append 0 value = .ok (render value) ∧ sorted value = value ∧ safe value = true

/-- What is written is the compact text of a canonical value. -/
theorem canonical_sorted {value : Json} {text : List Char} (appended : append 0 value = .ok text) :
    Canonical (sorted value) ∧ text = render (sorted value) := by
  obtain ⟨shape, inside, again⟩ := faithful value 0 text appended
  have settled := append_injective again appended
  exact ⟨⟨shape ▸ again, settled, inside⟩, shape⟩

/-- A value in canonical order that can be written is canonical. -/
theorem canonical_of_writes {value : Json} (writes : Writes 0 value)
    (settled : sorted value = value) : Canonical value := by
  obtain ⟨text, appended⟩ := writes
  exact settled ▸ (canonical_sorted appended).1

theorem read_of_canonical (law : ReadsCompact reader) {value : Json} (canonical : Canonical value) :
    reader (ofList (render value)) = some value :=
  law value (machine_of_safe canonical.2.2)

/-- A canonical text that is still within the size limit is its own canonical
form. -/
theorem canonicalize_of_canonical (law : ReadsCompact reader) {value : Json}
    (canonical : Canonical value) (small : (ofList (render value)).utf8ByteSize ≤ maxBytes) :
    canonicalize reader (ofList (render value)) = .ok (ofList (render value)) := by
  rw [canonicalize, if_neg (Nat.not_lt.mpr small), read_of_canonical law canonical]
  simp [canonical.1, Except.map]

/-- What canonicalisation returns is the compact text of what was read, in
canonical order. -/
theorem canonicalize_ok {json text : String} (canonical : canonicalize reader json = .ok text) :
    json.utf8ByteSize ≤ maxBytes ∧ ∃ value, reader json = some value ∧
      Canonical (sorted value) ∧ text = ofList (render (sorted value)) := by
  unfold canonicalize at canonical
  split_ifs at canonical with large
  · simp [fail] at canonical
  · split at canonical
    · simp [fail] at canonical
    · rename_i value found
      obtain ⟨chars, appended, rfl⟩ := map_ok canonical
      obtain ⟨settled, rfl⟩ := canonical_sorted appended
      exact ⟨by omega, value, found, settled, rfl⟩

/-- Canonicalising the compact text of a value. -/
theorem canonicalize_render (law : ReadsCompact reader) {value : Json}
    (inside : machine value = true) {text : String}
    (canonical : canonicalize reader (ofList (render value)) = .ok text) :
    Canonical (sorted value) ∧ text = ofList (render (sorted value)) := by
  obtain ⟨_, found, read, settled, shape⟩ := canonicalize_ok canonical
  obtain rfl := Option.some.inj ((law value inside).symm.trans read)
  exact ⟨settled, shape⟩

/-- A value that can be written is canonicalised from its compact text. -/
theorem canonicalize_plain (law : ReadsCompact reader) {value : Json}
    (inside : machine value = true) (small : (ofList (render value)).utf8ByteSize ≤ maxBytes)
    (writes : Writes 0 value) :
    canonicalize reader (ofList (render value)) =
      .ok (ofList (render (sorted value))) := by
  obtain ⟨text, appended⟩ := writes
  rw [canonicalize, if_neg (Nat.not_lt.mpr small), law value inside]
  simp [Except.map, (canonical_sorted appended).2, appended]

end Laws

/-! ## Members of canonical objects -/

/-- An object in canonical order lists its members in order, and each value is
in canonical order. -/
theorem sorted_obj {members : List (String × Json)}
    (settled : sorted (.obj members) = .obj members) :
    members.Pairwise Before ∧ ∀ member ∈ members, sorted member.2 = member.2 := by
  let ordered := members.insertionSort Before
  have shape : ordered.map (fun member => (member.1, sorted member.2)) = members := by
    simpa only [sorted, sortedMembers_eq_map, insertionSort_map sorted, Json.obj.injEq] using settled
  have inOrder : members.Pairwise Before := by
    rw [← shape, pairwise_map]
    exact pairwise_insertionSort Before members
  refine ⟨inOrder, ?_⟩
  have same : ordered = members := inOrder.insertionSort_eq
  rw [same] at shape
  intro member present
  have fixed := map_inj_left.mp (shape.trans (map_id members).symm) member present
  exact congrArg Prod.snd fixed

theorem sorted_arr {items : List Json} (settled : sorted (.arr items) = .arr items) :
    ∀ item ∈ items, sorted item = item := by
  simp only [sorted, sortedItems_eq_map, Json.arr.injEq] at settled
  exact map_inj_left.mp (settled.trans (map_id items).symm)

/-- An object with as many members as names that are found in it has exactly
those, in the order of the names. -/
theorem members_eq {members expected : List (String × Json)} (inOrder : members.Pairwise Before)
    (strict : expected.Pairwise (fun a b => utf16 a.1 < utf16 b.1))
    (count : members.length = expected.length) (found : ∀ member ∈ expected, member ∈ members) :
    members = expected := by
  have distinct : (expected.map (fun member => utf16 member.1)).Nodup :=
    pairwise_map.mpr (strict.imp ne_of_lt)
  have permuted : expected.Perm members :=
    (subperm_of_subset distinct.of_map found).perm_of_length_le count.le
  refine (permuted.eq_of_pairwise ?_ (strict.imp le_of_lt) inOrder).symm
  intro a b present present' before after
  exact inj_on_of_nodup_map distinct present (permuted.mem_iff.mpr present')
    (le_antisymm before after)

/-- Sorting members whose expected order is known. -/
theorem insertionSort_members {members expected : List (String × Json)} (names : List String)
    (named : expected.map Prod.fst = names)
    (strict : names.Pairwise (fun a b => utf16 a < utf16 b)) (permuted : members.Perm expected) :
    members.insertionSort Before = expected := by
  have sorting := perm_insertionSort Before members
  refine members_eq (pairwise_insertionSort Before members) ?_ ?_ ?_
  · rw [← named, pairwise_map] at strict
    exact strict
  · rw [sorting.length_eq, permuted.length_eq]
  · intro member present
    exact sorting.mem_iff.mpr (permuted.mem_iff.mpr present)

/-! ## Sorting keeps the length of the text -/

/-- The bytes of a member with the comma before it. -/
def memberSize (member : String × Json) : Nat :=
  2 + utf8Len (quoted member.1) + utf8Len (render member.2)

theorem renderMoreMembers_size (members : List (String × Json)) :
    utf8Len (renderMoreMembers members) = (members.map memberSize).sum := by
  induction members with
  | nil => rfl
  | cons member rest ih =>
    have comma : ','.utf8Size = 1 := by decide
    have colon : ':'.utf8Size = 1 := by decide
    simp only [renderMoreMembers, map_cons, sum_cons, memberSize, utf8Len,
      utf8Len_append, ih, comma, colon]
    omega

theorem renderMembers_size (members : List (String × Json)) :
    utf8Len (renderMembers members) = (members.map memberSize).sum - 1 := by
  cases members with
  | nil => rfl
  | cons member rest =>
    have colon : ':'.utf8Size = 1 := by decide
    simp only [renderMembers, map_cons, sum_cons, memberSize, utf8Len,
      utf8Len_append, renderMoreMembers_size, colon]
    omega

theorem renderMoreItems_size (items : List Json) :
    utf8Len (renderMoreItems items) =
      (items.map fun item => 1 + utf8Len (render item)).sum := by
  induction items with
  | nil => rfl
  | cons item rest ih =>
    have comma : ','.utf8Size = 1 := by decide
    simp only [renderMoreItems, map_cons, sum_cons, utf8Len,
      utf8Len_append, ih, comma]
    omega

theorem renderItems_size (items : List Json) :
    utf8Len (renderItems items) =
      (items.map fun item => 1 + utf8Len (render item)).sum - 1 := by
  cases items with
  | nil => rfl
  | cons item rest =>
    simp only [renderItems, map_cons, sum_cons, utf8Len_append,
      renderMoreItems_size]
    omega

mutual

theorem render_sorted_size (value : Json) :
    utf8Len (render (sorted value)) = utf8Len (render value) := by
  match value with
  | .obj members =>
    have sizes : (((sortedMembers members).insertionSort Before).map memberSize).sum =
        (members.map memberSize).sum := by
      rw [((perm_insertionSort Before (sortedMembers members)).map memberSize).sum_eq,
        sortedMembers_size members]
    simp [sorted, render, utf8Len, utf8Len_append, renderMembers_size, sizes]
  | .arr items =>
    simp [sorted, render, utf8Len, utf8Len_append, renderItems_size, sortedItems_size items]
  | .null | .bool _ | .int _ | .real | .str _ => rfl

theorem sortedMembers_size (members : List (String × Json)) :
    ((sortedMembers members).map memberSize).sum = (members.map memberSize).sum := by
  match members with
  | [] => rfl
  | (name, value) :: rest =>
    simp [sortedMembers, memberSize, render_sorted_size value, sortedMembers_size rest]

theorem sortedItems_size (items : List Json) :
    ((sortedItems items).map fun item => 1 + utf8Len (render item)).sum =
      (items.map fun item => 1 + utf8Len (render item)).sum := by
  match items with
  | [] => rfl
  | item :: rest =>
    simp [sortedItems, render_sorted_size item, sortedItems_size rest]

end

mutual

theorem within_of_sorted {low high : Int} {value : Json}
    (inside : within low high (sorted value) = true) : within low high value = true := by
  match value with
  | .obj members =>
    simp only [sorted, within, withinMembers_iff, mem_insertionSort] at inside
    exact withinMembers_of_sorted ((withinMembers_iff).mpr inside)
  | .arr items => exact withinItems_of_sorted inside
  | .null | .bool _ | .int _ | .real | .str _ => exact inside

theorem withinMembers_of_sorted {low high : Int} {members : List (String × Json)}
    (inside : withinMembers low high (sortedMembers members) = true) :
    withinMembers low high members = true := by
  match members with
  | [] => rfl
  | (_, value) :: rest =>
    simp only [sortedMembers, withinMembers, Bool.and_eq_true] at inside ⊢
    exact ⟨within_of_sorted inside.1, withinMembers_of_sorted inside.2⟩

theorem withinItems_of_sorted {low high : Int} {items : List Json}
    (inside : withinItems low high (sortedItems items) = true) :
    withinItems low high items = true := by
  match items with
  | [] => rfl
  | item :: rest =>
    simp only [sortedItems, withinItems, Bool.and_eq_true] at inside ⊢
    exact ⟨within_of_sorted inside.1, withinItems_of_sorted inside.2⟩

end

/-- No text of a value whose numbers are integers is shorter than its compact
text. -/
def ReadsNoShorter (reader : String → Option Json) : Prop :=
  ∀ text value, reader text = some value → integral value = true →
    (ofList (render value)).utf8ByteSize ≤ text.utf8ByteSize

/-- Canonicalising never makes a text longer. -/
theorem canonicalize_size {reader : String → Option Json} (short : ReadsNoShorter reader)
    {json text : String} (canonical : canonicalize reader json = .ok text) :
    text.utf8ByteSize ≤ json.utf8ByteSize := by
  obtain ⟨_, value, found, settled, rfl⟩ := canonicalize_ok canonical
  have whole := integral_of_within (within_of_sorted settled.2.2)
  have least := short json value found whole
  simp only [utf8ByteSize_ofList] at least ⊢
  rw [render_sorted_size]
  exact least
/-- A reader of compact texts only. -/
def readCompact (text : String) : Option Json :=
  (read text).filter (fun value => ofList (render value) = text)

theorem readsCompact_readCompact : ReadsCompact readCompact := by
  intro value inside
  simp [readCompact, readsCompact_read value inside]

theorem readsNoShorter_readCompact : ReadsNoShorter readCompact := by
  intro text value found _
  have same := of_decide_eq_true (Option.filter_eq_some_iff.mp found).2
  rw [same]

end Synergos.Jcs
