import Synergos.Identity
import Synergos.LctText

/-!
# Rows of the custody journal

A row of the journal is a canonical JSON object with the stream, the sequence
number, the hash of the row before, the event and its own hash, which covers the
hash before and the row without that hash. An event is a closed set of checked
metadata fields. A row is verified by building it again from its event.

The JSON reader and SHA-256 are third-party libraries and parameters. Two laws
are asked of the reader: it reads compact text back, and no text of a value is
shorter than the compact one.
-/

namespace Synergos.JournalRow

open JsonText Jcs Base64url Envelope ByteText Identity Lct LctText List
open String (ofList utf8Len utf8Len_append utf8Len_cons utf8ByteSize_ofList)

/-- The exceptions that the journal throws. -/
inductive JournalError where
  | record
  | trust (fault : Fault)
  | runtime (text : String)
  | argument (text : String)
  | system (operation : String)
  deriving DecidableEq, Repr

/-- The text of an exception; that of the operating system follows its operation. -/
def JournalError.what : JournalError → String
  | .record => "Invalid custody journal record"
  | .trust fault => fault.what
  | .runtime text => text
  | .argument text => text
  | .system operation => operation

abbrev Journaled (α : Type) := Except JournalError α

def invalid {α : Type} : Journaled α := .error .record

/-- Go on only where a condition holds. -/
def check (condition : Prop) [Decidable condition] : Journaled Unit :=
  if condition then .ok () else invalid

/-- An exception of the trust library passes through. -/
def trusted {α : Type} (checked : Checked α) : Journaled α := checked.mapError .trust

def journalSpoolBytes : Nat := 1024 * 1024 * 1024

def journalRowBytes : Nat := 1024 * 1024

structure JournalHead where
  seq : Nat
  rootHash : String
  deriving DecidableEq, Repr

/-- The head of an empty journal. -/
def genesis : JournalHead := ⟨0, ofList (List.replicate 64 '0')⟩

/-! ## Fields -/

def text : Option Json → Journaled String
  | some (.str value) => .ok value
  | _ => invalid

def oneOf (value : String) (choices : List String) : Bool := choices.contains value

/-- An object without other members than the allowed ones. -/
def fields (allowed : List String) : Option Json → Journaled Unit
  | some (.obj members) => check (members.all fun member => oneOf member.1 allowed)
  | _ => invalid

/-- The value of a number without sign. -/
def uint : Option Json → Option Nat
  | some (.int value) => if 0 ≤ value then some value.toNat else none
  | _ => none

def journalIdentifier (value : String) : Journaled Unit :=
  check (value ≠ "" ∧ value.utf8ByteSize ≤ 256 ∧
    value.toList.all fun c => decide (0x21 ≤ c.toNat ∧ c.toNat ≤ 0x7e))

def seq (object : Json) : Journaled Nat :=
  match uint (object.get? "seq") with
  | some value => if value = 0 ∨ maxSafeInteger < value then invalid else .ok value
  | none => invalid

def digit (value : Char) : Journaled Nat :=
  if '0' ≤ value ∧ value ≤ '9' then .ok (value.toNat - '0'.toNat)
  else if 'a' ≤ value ∧ value ≤ 'f' then .ok (value.toNat - 'a'.toNat + 10)
  else invalid

/-- Two digits for each byte. -/
def digits : List Char → Journaled (List UInt8)
  | [] => .ok []
  | [_] => invalid
  | high :: low :: rest => do
    let upper ← digit high
    let lower ← digit low
    let more ← digits rest
    pure (UInt8.ofNat (upper * 16 + lower) :: more)

def rawHash (hash : String) : Journaled (List UInt8) := do
  check (hash.utf8ByteSize = 64)
  digits hash.toList

/-- The members of these names, where present, are identifiers. -/
def ids (object : Json) : List String → Journaled Unit
  | [] => .ok ()
  | key :: rest => do
    match object.get? key with
    | some value => do
      let found ← text (some value)
      journalIdentifier found
    | none => pure ()
    ids object rest

/-- Every item of a list is an identifier. -/
def identifiers : List Json → Journaled Unit
  | [] => .ok ()
  | item :: rest => do
    let found ← text (some item)
    journalIdentifier found
    identifiers rest

/-- The members of these names, where present, are bounded lists of identifiers. -/
def idLists (object : Json) : List String → Journaled Unit
  | [] => .ok ()
  | key :: rest => do
    match object.get? key with
    | some (.arr items) => do
      check (items.length ≤ 128)
      identifiers items
    | some _ => invalid
    | none => pure ()
    idLists object rest

/-- The members of these names, where present, are hashes. -/
def hashes (object : Json) : List String → Journaled Unit
  | [] => .ok ()
  | key :: rest => do
    match object.get? key with
    | some value => do
      let found ← text (some value)
      let _ ← rawHash found
    | none => pure ()
    hashes object rest

/-! ## Events -/

def checkHeader (root : Json) : Journaled Unit := do
  fields ["v", "ts", "event_type", "actor", "subject", "change", "outcome", "reason_code",
    "correlation"] (some root)
  check (uint (root.get? "v") = some 1 ∧ (uint (root.get? "ts")).isSome)
  let eventType ← text (root.get? "event_type")
  check (oneOf eventType ["custody.admit", "custody.serve", "custody.redeem", "custody.deny",
    "custody.reclaim", "custody.purge", "custody.scrub"])
  let outcome ← text (root.get? "outcome")
  check (oneOf outcome ["success", "denied", "failure"])
  let reason ← text (root.get? "reason_code")
  journalIdentifier reason

/-- The member that names an actor of a kind. -/
def actorKey (kind : String) : String :=
  if kind = "user" then "user_id" else if kind = "node" then "node_id"
  else if kind = "peer" then "peer_id" else if kind = "link" then "link_id"
  else "service_principal"

def checkActor (found : Option Json) : Journaled Unit := do
  fields ["principal_kind", "user_id", "service_principal", "node_id", "peer_id", "link_id",
    "session_id", "device_id", "client_kind"] found
  let actor := found.getD .null
  let kind ← text (actor.get? "principal_kind")
  check (oneOf kind ["user", "service_principal", "node", "peer", "link"])
  let named ← text (actor.get? (actorKey kind))
  journalIdentifier named
  ids actor ["user_id", "service_principal", "node_id", "peer_id", "link_id", "session_id",
    "device_id", "client_kind"]

def checkSubject (found : Option Json) : Journaled Unit := do
  fields ["org", "project_ref", "space", "logical_asset", "version_ids", "object_keys"] found
  let subject := found.getD .null
  let org ← text (subject.get? "org")
  journalIdentifier org
  ids subject ["project_ref", "space", "logical_asset"]
  idLists subject ["version_ids", "object_keys"]

def checkChange (found : Option Json) : Journaled Unit := do
  fields ["before_hash", "after_hash"] found
  hashes (found.getD .null) ["before_hash", "after_hash"]

/-- Every character is a digit. -/
def checkDigits : List Char → Journaled Unit
  | [] => .ok ()
  | value :: rest => do
    let _ ← digit value
    checkDigits rest

def checkCorrelation (found : Option Json) : Journaled Unit := do
  fields ["trace_id", "cap_id", "operation_id", "client_request_id"] found
  let correlation := found.getD .null
  let trace ← text (correlation.get? "trace_id")
  check (trace.utf8ByteSize = 32 ∧ ¬ trace.toList.all (fun c => c = '0'))
  checkDigits trace.toList
  ids correlation ["cap_id", "operation_id", "client_request_id"]

/-- The checks of an event that was parsed. -/
def checkEvent (root : Json) : Journaled Unit := do
  checkHeader root
  checkActor (root.get? "actor")
  checkSubject (root.get? "subject")
  checkChange (root.get? "change")
  checkCorrelation (root.get? "correlation")

/-! ## Rows -/

section Rows

variable (reader : String → Option Json) (sha256 : List UInt8 → Bytes 32)

/-- Canonical form of bytes, which need not be UTF-8. -/
def canonicalizeBytes (bytes : List UInt8) : Checked String :=
  if maxBytes < bytes.length then fail .jcsTooLarge "payload exceeds 1 MiB"
  else
    match textOf bytes with
    | none => fail .jcsInvalidJson "invalid JSON or UTF-8"
    | some json => canonicalize reader json

def parse (json : String) : Journaled Json :=
  match reader json with
  | some (.obj members) => .ok (.obj members)
  | _ => invalid

def journalEvent (input : List UInt8) : Journaled String := do
  check (input.length ≤ journalRowBytes / 2)
  let canonical ← trusted (canonicalizeBytes reader input)
  let root ← parse reader canonical
  checkEvent root
  pure canonical

/-- What the hash of a row is taken of. -/
def hashInput (previous : String) (row : String) : Journaled (List UInt8) := do
  let bytes ← rawHash previous
  pure (bytes ++ utf8 row)

def hash (previous row : String) : Journaled String := do
  let bytes ← hashInput previous row
  pure (hex (sha256 bytes).1)

/-- The row without its own hash. -/
def bareRow (stream : String) (previous : JournalHead) (event : String) : Checked String :=
  canonicalize reader ("\x7b\"event\":" ++ event ++ ",\"prev_hash\":" ++ quote previous.rootHash ++
    ",\"seq\":" ++ toString (previous.seq + 1) ++ ",\"stream\":" ++ quote stream ++ "\x7d")

/-- The row with its hash put before the closing brace. -/
def hashedRow (row rowHash : String) : Checked String :=
  canonicalize reader (ofList row.toList.dropLast ++ ",\"row_hash\":" ++ quote rowHash ++
    "\x7d")

def journalRow (stream : String) (previous : JournalHead) (event : String) : Journaled String := do
  journalIdentifier stream
  check ((previous.seq : Int) < maxSafeInteger)
  let row ← trusted (bareRow reader stream previous event)
  let rowHash ← hash sha256 previous.rootHash row
  let result ← trusted (hashedRow reader row rowHash)
  check (result.utf8ByteSize < journalRowBytes)
  pure result

def journalRowHead (row : String) : Journaled JournalHead := do
  let root ← parse reader row
  let rootHash ← text (root.get? "row_hash")
  let _ ← rawHash rootHash
  let number ← seq root
  pure ⟨number, rootHash⟩

def verifyJournalRow (stream : String) (previous : JournalHead) (row : List UInt8) :
    Journaled JournalHead := do
  check (row.length < journalRowBytes)
  let canonical ← trusted (canonicalizeBytes reader row)
  check (utf8 canonical = row)
  let root ← parse reader canonical
  fields ["event", "prev_hash", "seq", "stream", "row_hash"] (some root)
  match root.get? "event" with
  | none => invalid
  | some event => do
    let serialized ← trusted (write reader event)
    let checked ← journalEvent reader (utf8 serialized)
    let again ← journalRow reader sha256 stream previous checked
    check (again = canonical)
    journalRowHead reader canonical

end Rows

/-! ## Laws of the parts -/

theorem check_ok (condition : Prop) [Decidable condition] (result : Unit) :
    check condition = .ok result ↔ condition := by
  by_cases holds : condition <;> simp [check, holds, invalid]

theorem trusted_ok {α : Type} (checked : Checked α) (result : α) :
    trusted checked = .ok result ↔ checked = .ok result := by
  cases checked <;> simp [trusted, Except.mapError]

theorem digit_hexDigit {n : Nat} (small : n < 16) : digit (hexDigit n) = .ok n := by
  have table : ∀ i : Fin 16, digit (hexDigit i) = .ok (i : Nat) := by decide
  exact table ⟨n, small⟩

theorem digits_hex (bytes : List UInt8) : digits (hex bytes).toList = .ok bytes := by
  simp only [hex, String.toList_ofList]
  induction bytes with
  | nil => rfl
  | cons byte rest ih =>
    have bound := byte.toNat_lt
    have whole : byte.toNat / 16 * 16 + byte.toNat % 16 = byte.toNat := by omega
    simp [digits, digit_hexDigit (by omega : byte.toNat / 16 < 16),
      digit_hexDigit (by omega : byte.toNat % 16 < 16), ih, bind, Except.bind, pure, Except.pure,
      whole]

theorem hex_size (bytes : List UInt8) : (hex bytes).utf8ByteSize = 2 * bytes.length := by
  have one (n : Nat) (small : n < 16) : (hexDigit n).utf8Size = 1 := by
    have table : ∀ i : Fin 16, (hexDigit i).utf8Size = 1 := by decide
    exact table ⟨n, small⟩
  rw [hex, utf8ByteSize_ofList]
  induction bytes with
  | nil => rfl
  | cons byte rest ih =>
    have bound := byte.toNat_lt
    simp only [flatMap_cons, cons_append, nil_append, utf8Len,
      one _ (by omega : byte.toNat / 16 < 16), one _ (by omega : byte.toNat % 16 < 16),
      ih, length_cons]
    omega

/-- The hexadecimal form of a digest is read back. -/
theorem rawHash_hex {digest : Bytes 32} : rawHash (hex digest.1) = .ok digest.1 := by
  have size : (hex digest.1).utf8ByteSize = 64 := by rw [hex_size, digest.2]
  simp [rawHash, check, size, digits_hex]

theorem digit_size {value : Char} {number : Nat} (read : digit value = .ok number) :
    value.utf8Size = 1 := by
  refine utf8Size_ascii value ?_
  unfold digit at read
  split_ifs at read with decimal letter
  · have most : value.toNat ≤ '9'.toNat := decimal.2
    have : '9'.toNat = 57 := rfl
    omega
  · have most : value.toNat ≤ 'f'.toNat := letter.2
    have : 'f'.toNat = 102 := rfl
    omega
  · simp [invalid] at read

theorem digits_size {chars : List Char} (bytes : List UInt8) (read : digits chars = .ok bytes) :
    utf8Len chars = 2 * bytes.length := by
  fun_induction digits chars generalizing bytes with
  | case1 =>
    obtain rfl := Except.ok.inj read
    rfl
  | case2 => simp [invalid] at read
  | case3 high low rest ih =>
    simp only [bind_ok, pure_ok] at read
    obtain ⟨upper, first, lower, second, more, others, rfl⟩ := read
    have tail := ih more others
    simp only [utf8Len, digit_size first, digit_size second, length_cons]
    omega

theorem rawHash_length {hash : String} {bytes : List UInt8} (read : rawHash hash = .ok bytes) :
    bytes.length = 32 := by
  simp only [rawHash, bind_ok, check_ok] at read
  obtain ⟨_, size, read⟩ := read
  have length := digits_size _ read
  rw [← utf8ByteSize_ofList, String.ofList_toList] at length
  omega

section Laws

variable {reader : String → Option Json} {sha256 : List UInt8 → Bytes 32}

variable {previous : JournalHead} {event : Json} {input : List UInt8} (json : String)

theorem canonicalizeBytes_utf8 :
    canonicalizeBytes reader (utf8 json) = canonicalize reader json := by
  have found : textOf (utf8 json) = some json := (textOf_iff _ _).mpr rfl
  by_cases large : maxBytes < json.utf8ByteSize
  · simp [canonicalizeBytes, canonicalize, utf8_length, large]
  · simp [canonicalizeBytes, utf8_length, large, found]

theorem canonicalizeBytes_ok (bytes : List UInt8) (canonical : String)
    (done : canonicalizeBytes reader bytes = .ok canonical) :
    ∃ json, utf8 json = bytes ∧ canonicalize reader json = .ok canonical := by
  cases found : textOf bytes with
  | none =>
    unfold canonicalizeBytes at done
    split_ifs at done
    · simp [fail] at done
    · simp [found, fail] at done
  | some json =>
    have shape := (textOf_iff bytes json).mp found
    rw [← shape, canonicalizeBytes_utf8] at done
    exact ⟨json, shape, done⟩

theorem parse_ok (root : Json) :
    parse reader json = .ok root ↔ reader json = some root ∧ ∃ members, root = .obj members := by
  unfold parse
  cases reader json with
  | none => simp [invalid]
  | some value =>
    cases value with
    | obj members =>
      constructor
      · intro same
        obtain rfl := Except.ok.inj same
        exact ⟨rfl, members, rfl⟩
      · rintro ⟨same, _⟩
        obtain rfl := Option.some.inj same
        rfl
    | _ =>
      constructor
      · exact nofun
      · rintro ⟨same, members, shape⟩
        simp [shape] at same

/-! ## Events -/

/-- The canonical text of an event that passes the checks. -/
def EventOf (event : Json) (written : String) : Prop :=
  Canonical event ∧ written = ofList (render event) ∧ (∃ members, event = .obj members) ∧
    checkEvent event = .ok () ∧ written.utf8ByteSize ≤ journalRowBytes / 2

theorem journalEvent_ok (law : ReadsCompact reader) (short : ReadsNoShorter reader)
    {written : String} (accepted : journalEvent reader input = .ok written) :
    ∃ event, EventOf event written := by
  simp only [journalEvent, bind_ok, check_ok, trusted_ok, parse_ok, pure_ok] at accepted
  obtain ⟨_, small, canonical, done, root, ⟨found, shape⟩, _, checked, rfl⟩ := accepted
  obtain ⟨json, rfl, canonicalized⟩ := canonicalizeBytes_ok _ _ done
  obtain ⟨_, value, _, settled, rfl⟩ := canonicalize_ok canonicalized
  obtain rfl := Option.some.inj ((read_of_canonical law settled).symm.trans found)
  have least := canonicalize_size short canonicalized
  rw [utf8_length] at small
  exact ⟨_, settled, rfl, shape, checked, least.trans small⟩

/-- An event that was accepted is accepted again, as it was written. -/
theorem journalEvent_again (law : ReadsCompact reader) {written : String}
    (holds : EventOf event written) : journalEvent reader (utf8 written) = .ok written := by
  obtain ⟨settled, rfl, shape, checked, small⟩ := holds
  have large : (ofList (render event)).utf8ByteSize ≤ maxBytes :=
    small.trans (by decide)
  simp only [journalEvent, bind_ok, check_ok, trusted_ok, parse_ok, pure_ok,
    canonicalizeBytes_utf8]
  exact ⟨(), small, _, canonicalize_of_canonical law settled large, event,
    ⟨read_of_canonical law settled, shape⟩, (), checked, rfl⟩

/-! ## Texts of rows -/

/-- A row without its hash. -/
def bareJson (stream : String) (previous : JournalHead) (event : Json) : Json :=
  .obj [("event", event), ("prev_hash", .str previous.rootHash),
    ("seq", .int (previous.seq + 1 : Nat)), ("stream", .str stream)]

/-- A row with its hash where it was put. -/
def extendedJson (stream : String) (previous : JournalHead) (event : Json) (rowHash : String) :
    Json :=
  .obj [("event", event), ("prev_hash", .str previous.rootHash),
    ("seq", .int (previous.seq + 1 : Nat)), ("stream", .str stream), ("row_hash", .str rowHash)]

/-- A row with its hash, in canonical order. -/
def rowJson (stream : String) (previous : JournalHead) (event : Json) (rowHash : String) : Json :=
  .obj [("event", event), ("prev_hash", .str previous.rootHash), ("row_hash", .str rowHash),
    ("seq", .int (previous.seq + 1 : Nat)), ("stream", .str stream)]

theorem bareRow_text (stream : String) (previous : JournalHead) (event : Json) :
    "\x7b\"event\":" ++ ofList (render event) ++ ",\"prev_hash\":" ++
      quote previous.rootHash ++ ",\"seq\":" ++ toString (previous.seq + 1) ++ ",\"stream\":" ++
      quote stream ++ "\x7d" = ofList (render (bareJson stream previous event)) := by
  have opening : "\x7b\"event\":".toList = '{' :: (quoted "event" ++ [':']) := by decide
  have second : ",\"prev_hash\":".toList = ',' :: (quoted "prev_hash" ++ [':']) := by decide
  have third : ",\"seq\":".toList = ',' :: (quoted "seq" ++ [':']) := by decide
  have fourth : ",\"stream\":".toList = ',' :: (quoted "stream" ++ [':']) := by decide
  have closing : "\x7d".toList = ['}'] := by decide
  have number : toString ((previous.seq + 1 : Nat) : Int) = toString (previous.seq + 1) := rfl
  apply String.toList_inj.mp
  simp only [quote, String.toList_append, String.toList_ofList, opening, second, third, fourth,
    closing, bareJson, render, renderMembers, renderMoreMembers, number]
  simp

theorem hashedRow_text (stream : String) (previous : JournalHead) (event : Json)
    (rowHash : String) :
    ofList (ofList (render (bareJson stream previous event))).toList.dropLast ++
      ",\"row_hash\":" ++ quote rowHash ++ "\x7d" =
    ofList (render (extendedJson stream previous event rowHash)) := by
  have fifth : ",\"row_hash\":".toList = ',' :: (quoted "row_hash" ++ [':']) := by decide
  have closing : "\x7d".toList = ['}'] := by decide
  have begun : (render (bareJson stream previous event)).dropLast =
      '{' :: renderMembers [("event", event), ("prev_hash", .str previous.rootHash),
        ("seq", .int (previous.seq + 1 : Nat)), ("stream", .str stream)] := by
    rw [bareJson, render, ← cons_append, dropLast_concat]
  apply String.toList_inj.mp
  simp only [quote, String.toList_append, String.toList_ofList, begun, fifth, closing,
    extendedJson, render, renderMembers, renderMoreMembers]
  simp

theorem sorted_bareJson (stream : String) (previous : JournalHead)
    (settled : sorted event = event) :
    sorted (bareJson stream previous event) = bareJson stream previous event := by
  simp only [bareJson, sorted, sortedMembers, settled]
  congr 1
  refine insertionSort_members ["event", "prev_hash", "seq", "stream"] rfl ?_ (List.Perm.refl _)
  decide

theorem sorted_extendedJson (stream : String) (previous : JournalHead) (rowHash : String)
    (settled : sorted event = event) :
    sorted (extendedJson stream previous event rowHash) =
      rowJson stream previous event rowHash := by
  simp only [extendedJson, rowJson, sorted, sortedMembers, settled]
  congr 1
  refine insertionSort_members ["event", "prev_hash", "row_hash", "seq", "stream"] rfl ?_ ?_
  · decide
  · refine List.Perm.cons _ (List.Perm.cons _ ?_)
    exact @perm_append_comm _ [_, _] [_]

/-- A row that was built for an event, with what its hash was taken of. -/
structure RowOf (sha256 : List UInt8 → Bytes 32) (stream : String) (previous : JournalHead)
    (event : Json) (input : List UInt8) (row : String) : Prop where
  named : journalIdentifier stream = .ok ()
  bounded : (previous.seq : Int) < maxSafeInteger
  hashed : hashInput previous.rootHash
    (ofList (render (bareJson stream previous event))) = .ok input
  shape : row = ofList (render (rowJson stream previous event (hex (sha256 input).1)))
  canonical : Canonical (rowJson stream previous event (hex (sha256 input).1))
  small : row.utf8ByteSize < journalRowBytes

theorem machine_extendedJson (stream : String) (rowHash : String) (inside : safe event = true)
    (bounded : (previous.seq : Int) < maxSafeInteger) :
    machine (extendedJson stream previous event rowHash) = true ∧
      machine (bareJson stream previous event) = true := by
  have whole := machine_of_safe inside
  have number : machine (.int (previous.seq + 1 : Nat)) = true := by
    have limit : maxSafeInteger = 9007199254740991 := rfl
    rw [machine, within, decide_eq_true_eq]
    push_cast
    omega
  constructor
  · refine (withinMembers_iff).mpr ?_
    simp only [forall_mem_cons]
    exact ⟨whole, rfl, number, rfl, rfl, by simp⟩
  · refine (withinMembers_iff).mpr ?_
    simp only [forall_mem_cons]
    exact ⟨whole, rfl, number, rfl, by simp⟩

section

variable (law : ReadsCompact reader)

include law

theorem journalRow_ok {stream : String} (settled : Canonical event) {row : String}
    (built : journalRow reader sha256 stream previous (ofList (render event)) = .ok row) :
    ∃ input, bareRow reader stream previous (ofList (render event)) =
        .ok (ofList (render (bareJson stream previous event))) ∧
      RowOf sha256 stream previous event input row := by
  simp only [bareRow, bareRow_text]
  simp only [journalRow, bind_ok, check_ok, trusted_ok, pure_ok, bareRow, hashedRow, hash,
    bareRow_text] at built
  obtain ⟨_, named, _, bounded, bare, canonicalBare, rowHash, ⟨input, hashed, rfl⟩, result,
    canonicalRow, _, small, rfl⟩ := built
  obtain ⟨extended, plain⟩ := machine_extendedJson stream
    (hex (sha256 input).1) settled.2.2 bounded
  obtain ⟨_, shape⟩ := canonicalize_render law plain canonicalBare
  rw [sorted_bareJson stream previous settled.2.1] at shape
  subst shape
  rw [hashedRow_text] at canonicalRow
  obtain ⟨canonical, shape⟩ := canonicalize_render law extended canonicalRow
  rw [sorted_extendedJson stream previous _ settled.2.1] at canonical shape
  exact ⟨input, canonicalBare, named, bounded, hashed, shape, canonical, small⟩

/-- A row that can be written and is small enough is built. -/
theorem journalRow_done {stream : String} (settled : Canonical event) {rowHash : String}
    (named : journalIdentifier stream = .ok ()) (bounded : (previous.seq : Int) < maxSafeInteger)
    (hashed : hashInput previous.rootHash
      (ofList (render (bareJson stream previous event))) = .ok input)
    (digest : hex (sha256 input).1 = rowHash) (writes : Writes 0 (bareJson stream previous event))
    (writesHash : Writes 0 (extendedJson stream previous event rowHash))
    (small : weight (bareJson stream previous event) ≤ maxBytes)
    (fits : weight (extendedJson stream previous event rowHash) < journalRowBytes) :
    journalRow reader sha256 stream previous (ofList (render event)) =
      .ok (ofList (render (rowJson stream previous event rowHash))) := by
  obtain ⟨extended, plain⟩ := machine_extendedJson stream rowHash settled.2.2 bounded
  have bare := canonicalize_plain law plain (render_size _ _ small) writes
  rw [sorted_bareJson stream previous settled.2.1] at bare
  have whole := canonicalize_plain law extended (render_size _ _ (Nat.le_of_lt fits)) writesHash
  have size : (ofList (render (rowJson stream previous event rowHash))).utf8ByteSize <
      journalRowBytes := by
    rw [← sorted_extendedJson stream previous rowHash settled.2.1, utf8ByteSize_ofList,
      render_sorted_size, ← utf8ByteSize_ofList]
    exact Nat.lt_of_le_of_lt (render_size _ _ (Nat.le_refl _)) fits
  rw [sorted_extendedJson stream previous rowHash settled.2.1] at whole
  simp only [journalRow, bind_ok, check_ok, trusted_ok, pure_ok, bareRow, hashedRow, hash,
    bareRow_text]
  refine ⟨(), named, (), bounded, _, bare, rowHash, ⟨input, hashed, digest⟩, _, ?_, (), size, rfl⟩
  rw [hashedRow_text]
  exact whole

/-- The head after a row: the next number and the hash of the row. -/
theorem journalRowHead_of {stream : String} {row : String}
    (built : RowOf sha256 stream previous event input row) :
    journalRowHead reader row = .ok ⟨previous.seq + 1, hex (sha256 input).1⟩ := by
  have found := read_of_canonical law built.canonical
  have parsed : parse reader row = .ok (rowJson stream previous event (hex (sha256 input).1)) := by
    rw [parse_ok, built.shape]
    exact ⟨found, _, rfl⟩
  have number : seq (rowJson stream previous event (hex (sha256 input).1)) =
      .ok (previous.seq + 1) := by
    have bounded := built.bounded
    have limit : ¬ (previous.seq + 1 = 0 ∨ maxSafeInteger < ((previous.seq + 1 : Nat) : Int)) := by
      rintro (zero | large)
      · cases zero
      · push_cast at large
        omega
    have positive : (0 : Int) ≤ ((previous.seq + 1 : Nat) : Int) := Int.natCast_nonneg _
    simp only [seq, rowJson, Json.get?, List.find?, uint]
    simp only [String.reduceEq, decide_false, decide_true, Option.map_some, if_pos positive,
      Int.toNat_natCast, if_neg limit]
  have named : text ((rowJson stream previous event (hex (sha256 input).1)).get? "row_hash") =
      .ok (hex (sha256 input).1) := by
    simp [rowJson, Json.get?, text]
  simp only [journalRowHead, bind_ok, pure_ok]
  exact ⟨_, parsed, _, named, _, rawHash_hex, _, number, rfl⟩

/-- A row that was built for an event is verified as such. -/
theorem verify_of_row {stream : String} {written : String}
    (holds : EventOf event written) {row : String}
    (built : journalRow reader sha256 stream previous written = .ok row) :
    verifyJournalRow reader sha256 stream previous (utf8 row) = journalRowHead reader row := by
  have again := journalEvent_again law holds
  obtain ⟨settled, rfl, _, _, small⟩ := holds
  obtain ⟨input, _, made⟩ := journalRow_ok law settled built
  have large : row.utf8ByteSize ≤ maxBytes := Nat.le_of_lt made.small
  have self : canonicalize reader row = .ok row := by
    rw [made.shape] at large ⊢
    exact canonicalize_of_canonical law made.canonical large
  have parsed : parse reader row = .ok (rowJson stream previous event (hex (sha256 input).1)) := by
    rw [parse_ok, made.shape]
    exact ⟨read_of_canonical law made.canonical, _, rfl⟩
  have allowed : fields ["event", "prev_hash", "seq", "stream", "row_hash"]
      (some (rowJson stream previous event (hex (sha256 input).1))) = .ok () := by
    simp [rowJson, fields, check, oneOf]
  have found : (rowJson stream previous event (hex (sha256 input).1)).get? "event" =
      some event := by
    simp [rowJson, Json.get?]
  have serialized : write reader event = .ok (ofList (render event)) :=
    canonicalize_of_canonical law settled (small.trans (by decide))
  have size : (utf8 row).length < journalRowBytes := made.small
  simp [verifyJournalRow, canonicalizeBytes_utf8, self, parsed, allowed, found, serialized, again,
    built, trusted, Except.mapError, check, if_pos size]

/-- A row is verified exactly if it is built for some accepted event. -/
theorem verify_iff (short : ReadsNoShorter reader) (stream : String)
    (previous next : JournalHead) (line : List UInt8) :
    verifyJournalRow reader sha256 stream previous line = .ok next ↔
      ∃ input written row, journalEvent reader input = .ok written ∧
        journalRow reader sha256 stream previous written = .ok row ∧
        journalRowHead reader row = .ok next ∧ utf8 row = line := by
  constructor
  · intro verified
    simp only [verifyJournalRow, bind_ok, check_ok, trusted_ok] at verified
    obtain ⟨_, _, canonical, _, _, same, root, _, _, _, verified⟩ := verified
    split at verified
    · simp [invalid] at verified
    · simp only [bind_ok, check_ok, trusted_ok] at verified
      obtain ⟨serialized, _, written, accepted, row, built, _, rfl, head⟩ := verified
      exact ⟨_, written, row, accepted, built, head, same⟩
  · rintro ⟨input, written, row, accepted, built, head, rfl⟩
    obtain ⟨event, holds⟩ := journalEvent_ok law short accepted
    rw [verify_of_row law holds built, head]

end

theorem hex_injective {left right : List UInt8} (same : hex left = hex right) : left = right := by
  have both := digits_hex left
  rw [same, digits_hex] at both
  exact (Except.ok.inj both).symm

theorem render_injective {left right : Json} (inside : machine left = true)
    (inside' : machine right = true)
    (same : ofList (render left) = ofList (render right)) : left = right := by
  have read := readsCompact_read left inside
  rw [same, readsCompact_read right inside'] at read
  exact (Option.some.inj read).symm

/-- What is hashed when a line is verified after a head. -/
def Hashes (reader : String → Option Json) (sha256 : List UInt8 → Bytes 32) (stream : String)
    (previous : JournalHead) (line input : List UInt8) : Prop :=
  ∃ given event row bare, journalEvent reader given = .ok event ∧
    journalRow reader sha256 stream previous event = .ok row ∧ utf8 row = line ∧
    bareRow reader stream previous event = .ok bare ∧
    hashInput previous.rootHash bare = .ok input

/-- What is known of a verified row: the event and the input of its hash. -/
theorem verify_row (law : ReadsCompact reader) (short : ReadsNoShorter reader) {stream : String}
    {next : JournalHead} {line : List UInt8}
    (verified : verifyJournalRow reader sha256 stream previous line = .ok next) :
    ∃ event input row, Hashes reader sha256 stream previous line input ∧
      RowOf sha256 stream previous event input row ∧ utf8 row = line ∧
      next = ⟨previous.seq + 1, hex (sha256 input).1⟩ := by
  obtain ⟨given, written, row, accepted, built, head, shape⟩ :=
    (verify_iff law short stream previous next line).mp verified
  obtain ⟨event, settled, rfl, _⟩ := journalEvent_ok law short accepted
  obtain ⟨input, bare, made⟩ := journalRow_ok law settled built
  rw [journalRowHead_of law made] at head
  exact ⟨event, input, row, ⟨given, _, row, _, accepted, built, shape, bare, made.hashed⟩, made,
    shape, (Except.ok.inj head).symm⟩

/-- A line determines what is hashed when it is verified. -/
theorem Hashes.unique (law : ReadsCompact reader) (short : ReadsNoShorter reader)
    {stream : String} {line input' : List UInt8}
    (hashes : Hashes reader sha256 stream previous line input)
    (hashes' : Hashes reader sha256 stream previous line input') : input = input' := by
  obtain ⟨given, written, row, bare, accepted, built, rfl, found, hashed⟩ := hashes
  obtain ⟨given', written', row', bare', accepted', built', same, found', hashed'⟩ := hashes'
  obtain rfl := utf8_injective same
  obtain ⟨event, settled, rfl, _⟩ := journalEvent_ok law short accepted
  obtain ⟨event', settled', rfl, _⟩ := journalEvent_ok law short accepted'
  obtain ⟨_, bareText, made⟩ := journalRow_ok law settled built
  obtain ⟨_, bareText', made'⟩ := journalRow_ok law settled' built'
  have values := render_injective (machine_of_safe made.canonical.2.2)
    (machine_of_safe made'.canonical.2.2) (made.shape.symm.trans made'.shape)
  simp only [rowJson, Json.obj.injEq, cons.injEq, Prod.mk.injEq, true_and] at values
  obtain ⟨rfl, _⟩ := values
  obtain rfl := Except.ok.inj (found.symm.trans found')
  exact Except.ok.inj (hashed.symm.trans hashed')

variable {row stream : String} (built : RowOf sha256 stream previous event input row)

include built

/-- A row is one line. -/
theorem RowOf.newline_free :
    10 ∉ utf8 row := by
  intro present
  obtain ⟨c, inside, number⟩ := mem_utf8 (by decide) present
  rw [built.shape, String.toList_ofList] at inside
  have printable := render_printable inside
  rw [number] at printable
  exact absurd printable (by decide)

theorem safe_event :
    safe event = true := by
  have inside := (withinMembers_iff).mp built.canonical.2.2
  exact inside ("event", event) (by simp)

/-- Rows whose hashes are taken of one input follow one head and are the same. -/
theorem RowOf.unique {previous' : JournalHead} {event' : Json} {row' : String}
    (built' : RowOf sha256 stream previous' event' input row') :
    previous = previous' ∧ row = row' := by
  have hashed := built.hashed
  have hashed' := built'.hashed
  simp only [hashInput, bind_ok, pure_ok] at hashed hashed'
  obtain ⟨raw, read, rfl⟩ := hashed
  obtain ⟨raw', read', same⟩ := hashed'
  have lengths : raw'.length = raw.length := by
    rw [rawHash_length read, rawHash_length read']
  obtain ⟨_, bodies⟩ := append_inj same lengths
  have values := render_injective
    (machine_extendedJson stream "" (safe_event built') built'.bounded).2
    (machine_extendedJson stream "" (safe_event built) built.bounded).2
    (utf8_injective bodies)
  simp only [bareJson, Json.obj.injEq, cons.injEq, Prod.mk.injEq, Json.str.injEq,
    Json.int.injEq, true_and, and_true] at values
  obtain ⟨rfl, roots, numbers⟩ := values
  have heads : previous = previous' := by
    obtain ⟨number, root⟩ := previous
    obtain ⟨number', root'⟩ := previous'
    simp only at roots numbers
    obtain rfl := roots
    obtain rfl : number' = number := by omega
    rfl
  subst heads
  exact ⟨rfl, built.shape.trans built'.shape.symm⟩

end Laws

end Synergos.JournalRow
