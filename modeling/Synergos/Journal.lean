import Synergos.JournalRow

/-!
# The custody journal

One owner holds the journal file. Opening reads the whole file in pieces, splits
it into lines and verifies each row against the head the rows before it led to.
An append builds the next row, refuses it beyond the spool limit, writes and
flushes it. After a write with an uncertain outcome the owner refuses every call
until the file is opened again.

What the operating system does is chosen freely: how many bytes each read and
each write takes, which write fails, and whether the flush succeeds. A file that
recovery accepts is the concatenation of the rows of a list of events, and its
head determines it.
-/

namespace Synergos.Journal

open JsonText Jcs Base64url Envelope Identity Lct Logs JournalRow List

/-- What the owner of a journal knows. -/
structure State where
  stream : String
  head : JournalHead
  bytes : UInt64
  poisoned : Bool
  deriving DecidableEq, Repr

structure JournalCheckpoint where
  payload : String
  kid : String
  signature : Signature

/-! ## The file -/

def size (file : List UInt8) : Journaled UInt64 :=
  if file.length < 2 ^ 63 then .ok (UInt64.ofNat file.length)
  else .error (.runtime "Invalid custody journal size")

/-- The bytes of one read; before the end there is at least one. -/
def readAt (file : List UInt8) (delivered : Nat → Nat) (offset : Nat) : List UInt8 :=
  (file.drop offset).take (min (64 * 1024) (delivered offset + 1))

/-- What the system does during one append. The result of a write is the number
of bytes it took, or none if it failed. -/
structure Disk where
  seeks : Bool
  writes : Nat → Option Nat
  flushes : Bool

/-- Write the rest of a row, each time at most 64 KiB. -/
def writeRow (disk : Disk) (call : Nat) (file row : List UInt8) : List UInt8 × Journaled Unit :=
  if row = [] then (file, .ok ())
  else
    match disk.writes call with
    | none => (file, .error (.system "Write custody journal"))
    | some taken =>
      if min taken (min row.length (64 * 1024)) = 0 then
        (file, .error (.runtime "Zero-byte custody journal write"))
      else
        writeRow disk (call + 1) (file ++ row.take (min taken (min row.length (64 * 1024))))
          (row.drop (min taken (min row.length (64 * 1024))))
termination_by row.length
decreasing_by
  rw [length_drop]
  omega

def appendAndFlush (disk : Disk) (file row : List UInt8) : List UInt8 × Journaled Unit :=
  if disk.seeks then
    match writeRow disk 0 file row with
    | (written, .error failure) => (written, .error failure)
    | (written, .ok ()) =>
      if disk.flushes then (written, .ok ())
      else (written, .error (.system "Flush custody journal"))
  else (file, .error (.system "Seek custody journal end"))

section Owner

variable (reader : String → Option Json) (sha256 : List UInt8 → Bytes 32) (scheme : Scheme)

/-! ## Opening -/

/-- One byte of the file: a newline ends a row. -/
def scan (stream : String) : JournalHead × List UInt8 → UInt8 →
    Journaled (JournalHead × List UInt8) :=
  feed 10 (journalRowBytes - 1) (.runtime "Custody journal row exceeds limit")
    (verifyJournalRow reader sha256 stream)

def recoverRows (stream : String) (file : List UInt8) (delivered : Nat → Nat) (bytes offset : Nat)
    (state : JournalHead × List UInt8) : Journaled (JournalHead × List UInt8) :=
  if offset < bytes then
    if (readAt file delivered offset).length = 0 ∨
        bytes - offset < (readAt file delivered offset).length then
      .error (.runtime "Custody journal changed during recovery")
    else
      match (readAt file delivered offset).foldlM (scan reader sha256 stream) state with
      | .error failure => .error failure
      | .ok next =>
        recoverRows stream file delivered bytes
          (offset + (readAt file delivered offset).length) next
  else .ok state
termination_by bytes - offset

/-- Open the journal. The lock keeps others from changing the file meanwhile. -/
def openJournal (stream : String) (file : List UInt8) (delivered : Nat → Nat) :
    Journaled State := do
  journalIdentifier stream
  let bytes ← size file
  if journalSpoolBytes < bytes.toNat then
    .error (.runtime "Custody journal spool exceeds limit")
  else do
    let (head, row) ← recoverRows reader sha256 stream file delivered bytes.toNat 0 (genesis, [])
    let after ← size file
    if row ≠ [] ∨ after ≠ bytes then .error (.runtime "Custody journal incomplete recovery")
    else pure ⟨stream, head, bytes, false⟩

/-! ## Calls -/

def requireHealthy (state : State) : Journaled Unit :=
  if state.poisoned then
    .error (.runtime "Custody journal requires recovery after uncertain write")
  else .ok ()

def head (state : State) : Journaled JournalHead := do
  requireHealthy state
  pure state.head

/-- The line that an append writes and the head after it. -/
def nextRow (state : State) (input : List UInt8) : Journaled (List UInt8 × JournalHead) := do
  let event ← journalEvent reader input
  requireHealthy state
  let row ← journalRow reader sha256 state.stream state.head event
  let next ← journalRowHead reader row
  if UInt64.ofNat journalSpoolBytes - state.bytes < UInt64.ofNat (utf8 row ++ [10]).length then
    .error (.runtime "Custody journal spool full")
  else pure (utf8 row ++ [10], next)

/-- The reply of an append, the owner and the file after it. -/
def append (state : State) (file input : List UInt8) (disk : Disk) :
    Journaled JournalHead × State × List UInt8 :=
  match nextRow reader sha256 state input with
  | .error failure => (.error failure, state, file)
  | .ok (line, next) =>
    match appendAndFlush disk file line with
    | (written, .error failure) => (.error failure, { state with poisoned := true }, written)
    | (written, .ok ()) =>
      (.ok next,
        { state with bytes := state.bytes + UInt64.ofNat line.length, head := next }, written)

def checkpoint (state : State) (kid : String) (key : Seed) (ts : Int) :
    Journaled JournalCheckpoint := do
  journalIdentifier kid
  if ts < 0 ∨ maxSafeInteger < ts then .error (.argument "Invalid custody checkpoint time")
  else do
    requireHealthy state
    let payload ← trusted (canonicalize reader ("\x7b\"stream\":" ++ quote state.stream ++
      ",\"seq\":" ++ toString state.head.seq ++ ",\"root_hash\":" ++ quote state.head.rootHash ++
      ",\"ts\":" ++ toString ts ++ "\x7d"))
    let signature ← trusted (sign reader scheme .journalCheckpoint 1 payload .custody key)
    pure ⟨payload, kid, signature⟩

end Owner

/-! ## Which files are accepted -/

section Recovery

variable {reader : String → Option Json} {sha256 : List UInt8 → Bytes 32}

/-- In whatever pieces the file is read, its bytes are scanned one by one. -/
theorem recoverRows_eq (stream : String) (file : List UInt8) (delivered : Nat → Nat) (offset : Nat)
    (state : JournalHead × List UInt8) :
    recoverRows reader sha256 stream file delivered file.length offset state =
      (file.drop offset).foldlM (scan reader sha256 stream) state := by
  fun_induction recoverRows reader sha256 stream file delivered file.length offset state with
  | case1 offset state inside changed =>
    simp only [readAt, length_take, length_drop] at changed
    omega
  | case2 offset state inside whole failure failed =>
    have pieces := take_append_drop (min (64 * 1024) (delivered offset + 1)) (file.drop offset)
    rw [← pieces, foldlM_append]
    rw [readAt] at failed
    rw [failed]
    rfl
  | case3 offset state inside whole next done ih =>
    have pieces := take_append_drop (min (64 * 1024) (delivered offset + 1)) (file.drop offset)
    have rest : file.drop (offset + (readAt file delivered offset).length) =
        (file.drop offset).drop (min (64 * 1024) (delivered offset + 1)) := by
      rw [readAt, length_take, length_drop, drop_drop]
      by_cases short : min (64 * 1024) (delivered offset + 1) ≤ file.length - offset
      · rw [Nat.min_eq_left short]
      · rw [drop_eq_nil_of_le (by omega), drop_eq_nil_of_le (by omega)]
    rw [ih, rest]
    rw [readAt] at done
    conv_rhs => rw [← pieces, foldlM_append, done]
    rfl
  | case4 offset state outside =>
    rw [drop_eq_nil_of_le (by omega)]
    rfl

/-- The lines that recovery accepts, and the head they lead to. -/
def Recovers (reader : String → Option Json) (sha256 : List UInt8 → Bytes 32) (stream : String)
    (file : List UInt8) (lines : List (List UInt8)) (last : JournalHead) : Prop :=
  log 10 lines = file ∧ (∀ line ∈ lines, Readable 10 (journalRowBytes - 1) line) ∧
    lines.foldlM (verifyJournalRow reader sha256 stream) genesis = .ok last

/-- Opening succeeds exactly on bounded files of verified lines. -/
theorem openJournal_iff (stream : String) (file : List UInt8) (delivered : Nat → Nat)
    (state : State) : openJournal reader sha256 stream file delivered = .ok state ↔
      journalIdentifier stream = .ok () ∧ file.length ≤ journalSpoolBytes ∧
        state = ⟨stream, state.head, UInt64.ofNat file.length, false⟩ ∧
        ∃ lines, Recovers reader sha256 stream file lines state.head := by
  have spool : journalSpoolBytes < 2 ^ 63 := by decide
  by_cases bounded : file.length ≤ journalSpoolBytes
  · have sized : size file = .ok (UInt64.ofNat file.length) :=
      if_pos (Nat.lt_of_le_of_lt bounded spool)
    have number : (UInt64.ofNat file.length).toNat = file.length :=
      UInt64.toNat_ofNat_of_lt' (by rw [UInt64.size]; omega)
    have reads (found : JournalHead) := @read_iff _ _ _ (10 : UInt8) (journalRowBytes - 1)
      (.runtime "Custody journal row exceeds limit") (verifyJournalRow reader sha256 stream) _
      file genesis found
    simp only [openJournal, bind_ok, sized, Except.ok.injEq, exists_eq_left', number,
      if_neg (Nat.not_lt.mpr bounded), recoverRows_eq, drop_zero, ne_eq, not_true_eq_false,
      or_false]
    constructor
    · rintro ⟨_, named, ⟨found, row⟩, read, done⟩
      simp only [ite_not] at done
      split_ifs at done with ended
      subst ended
      rw [pure_ok] at done
      subst done
      exact ⟨named, bounded, rfl, (reads found).mp read⟩
    · rintro ⟨named, _, shape, lines, recovers⟩
      refine ⟨(), named, (state.head, []), (reads state.head).mpr ⟨lines, recovers⟩, ?_⟩
      simp only [not_true_eq_false, if_false, pure_ok]
      exact shape.symm
  · constructor
    · intro opened
      simp only [openJournal, bind_ok] at opened
      obtain ⟨_, _, bytes, sized, opened⟩ := opened
      unfold size at sized
      split_ifs at sized with small
      obtain rfl := Except.ok.inj sized
      have number : (UInt64.ofNat file.length).toNat = file.length :=
        UInt64.toNat_ofNat_of_lt' (by rw [UInt64.size]; omega)
      rw [if_pos (by omega)] at opened
      cases opened
    · rintro ⟨_, small, _⟩
      exact absurd small bounded

/-- The lines of a list of events, each row after the head of the one before. -/
def rowsOf (reader : String → Option Json) (sha256 : List UInt8 → Bytes 32) (stream : String) :
    JournalHead → List String → Journaled (List UInt8 × JournalHead)
  | previous, [] => .ok ([], previous)
  | previous, event :: rest => do
    let row ← journalRow reader sha256 stream previous event
    let next ← journalRowHead reader row
    let (more, last) ← rowsOf reader sha256 stream next rest
    pure (utf8 row ++ 10 :: more, last)

/-- An event that the journal accepts, as it is written. -/
def ValidEvent (reader : String → Option Json) (event : String) : Prop :=
  ∃ input, journalEvent reader input = .ok event

theorem verify_readable (law : ReadsCompact reader) (short : ReadsNoShorter reader)
    {stream : String} {previous next : JournalHead} {line : List UInt8}
    (verified : verifyJournalRow reader sha256 stream previous line = .ok next) :
    Readable 10 (journalRowBytes - 1) line := by
  obtain ⟨event, input, row, _, made, rfl, _⟩ := verify_row law short verified
  refine ⟨made.newline_free, ?_⟩
  rw [utf8_length]
  exact Nat.le_sub_one_of_lt made.small

/-- Verified lines are the rows of accepted events. -/
theorem lines_iff_events (law : ReadsCompact reader) (short : ReadsNoShorter reader)
    (stream : String) (previous last : JournalHead) (file : List UInt8) :
    (∃ lines, log 10 lines = file ∧ (∀ line ∈ lines, Readable 10 (journalRowBytes - 1) line) ∧
      lines.foldlM (verifyJournalRow reader sha256 stream) previous = .ok last) ↔
    ∃ events, (∀ event ∈ events, ValidEvent reader event) ∧
      rowsOf reader sha256 stream previous events = .ok (file, last) := by
  constructor
  · rintro ⟨lines, rfl, readable, verified⟩
    clear readable
    induction lines generalizing previous with
    | nil =>
      obtain rfl := Except.ok.inj verified
      exact ⟨[], by simp, rfl⟩
    | cons line rest ih =>
      rw [foldlM_cons, bind_ok] at verified
      obtain ⟨next, first, others⟩ := verified
      obtain ⟨events, valid, rows⟩ := ih next others
      obtain ⟨input, event, row, accepted, built, reached, rfl⟩ :=
        (verify_iff law short stream previous next line).mp first
      refine ⟨event :: events, ?_, ?_⟩
      · intro other present
        rcases mem_cons.mp present with rfl | later
        · exact ⟨input, accepted⟩
        · exact valid other later
      · simp only [rowsOf, bind_ok, pure_ok]
        exact ⟨row, built, next, reached, _, rows, by rw [log_cons]⟩
  · rintro ⟨events, valid, rows⟩
    induction events generalizing previous file with
    | nil =>
      obtain ⟨rfl, rfl⟩ := Prod.mk.inj (Except.ok.inj rows)
      exact ⟨[], rfl, by simp, rfl⟩
    | cons event rest ih =>
      simp only [rowsOf, bind_ok, pure_ok] at rows
      obtain ⟨row, built, next, reached, ⟨more, final⟩, others, same⟩ := rows
      obtain ⟨rfl, rfl⟩ := Prod.mk.inj same
      obtain ⟨lines, rfl, readable, verified⟩ := ih next more
        (fun other present => valid other (by simp [present])) others
      obtain ⟨input, accepted⟩ := valid event (by simp)
      have first := (verify_iff law short stream previous next (utf8 row)).mpr
        ⟨input, event, row, accepted, built, reached, rfl⟩
      refine ⟨utf8 row :: lines, log_cons _ _, ?_, ?_⟩
      · intro line present
        rcases mem_cons.mp present with rfl | later
        · exact verify_readable law short first
        · exact readable line later
      · rw [foldlM_cons, first]
        exact verified

/-! ## One head, one file -/

/-- The inputs that are hashed while a file is recovered. -/
def Hashed (reader : String → Option Json) (sha256 : List UInt8 → Bytes 32) (stream : String)
    (file input : List UInt8) : Prop :=
  ∃ lines last previous line next, Recovers reader sha256 stream file lines last ∧
    Linked (verifyJournalRow reader sha256 stream) genesis lines previous line next ∧
    Hashes reader sha256 stream previous line input

/-- Each row raises the sequence number by one. -/
theorem recovered_seq (law : ReadsCompact reader) (short : ReadsNoShorter reader) (stream : String)
    (lines : List (List UInt8)) (previous last : JournalHead)
    (verified : lines.foldlM (verifyJournalRow reader sha256 stream) previous = .ok last) :
    last.seq = previous.seq + lines.length := by
  induction lines generalizing previous with
  | nil =>
    obtain rfl := Except.ok.inj verified
    rfl
  | cons line rest ih =>
    rw [foldlM_cons, bind_ok] at verified
    obtain ⟨next, first, others⟩ := verified
    obtain ⟨_, _, _, _, _, _, rfl⟩ := verify_row law short first
    have tail := ih _ others
    rw [length_cons]
    simp only at tail
    omega

/-- Files with one head are the same if no two inputs hashed in them collide. -/
theorem recovered_unique (law : ReadsCompact reader) (short : ReadsNoShorter reader)
    {stream : String} {left right : List UInt8} {lines lines' : List (List UInt8)}
    {last : JournalHead}
    (collisionFree : Set.InjOn sha256 {input | Hashed reader sha256 stream left input ∨
      Hashed reader sha256 stream right input})
    (recovers : Recovers reader sha256 stream left lines last)
    (recovers' : Recovers reader sha256 stream right lines' last) : left = right := by
  have count := recovered_seq law short stream lines genesis last recovers.2.2
  have count' := recovered_seq law short stream lines' genesis last recovers'.2.2
  have same : lines = lines' := by
    refine chain_unique lines lines' genesis last ?_ (by omega) recovers.2.2 recovers'.2.2
    intro previous previous' line line' next linked linked'
    obtain ⟨before, begins, reached, verified⟩ := linked
    obtain ⟨before', begins', reached', verified'⟩ := linked'
    obtain ⟨event, input, row, hashes, made, rfl, rfl⟩ := verify_row law short verified
    obtain ⟨event', input', row', hashes', made', rfl, ends⟩ := verify_row law short verified'
    have digests : sha256 input = sha256 input' :=
      Subtype.ext (hex_injective (congrArg JournalHead.rootHash ends))
    obtain rfl := collisionFree
      (.inl ⟨lines, last, previous, _, _, recovers, ⟨before, begins, reached, verified⟩, hashes⟩)
      (.inr ⟨lines', last, previous', _, _, recovers',
        ⟨before', begins', reached', verified'⟩, hashes'⟩) digests
    obtain ⟨rfl, rfl⟩ := made.unique made'
    exact ⟨rfl, rfl⟩
  rw [← recovers.1, ← recovers'.1, same]

/-- The journal is tamper-evident: the head determines the file, and exactly the
concatenations of rows of accepted events are recovered. -/
theorem recovery_tamper_evident (law : ReadsCompact reader) (short : ReadsNoShorter reader)
    (stream : String) :
    (∀ left right delivered delivered' state state',
      openJournal reader sha256 stream left delivered = .ok state →
      openJournal reader sha256 stream right delivered' = .ok state' →
      state.head = state'.head →
      Set.InjOn sha256 {input | Hashed reader sha256 stream left input ∨
        Hashed reader sha256 stream right input} → left = right) ∧
    ∀ file delivered last,
      (∃ state, openJournal reader sha256 stream file delivered = .ok state ∧
        state.head = last) ↔
      journalIdentifier stream = .ok () ∧ file.length ≤ journalSpoolBytes ∧
        ∃ events, (∀ event ∈ events, ValidEvent reader event) ∧
          rowsOf reader sha256 stream genesis events = .ok (file, last) := by
  constructor
  · intro left right delivered delivered' state state' opened opened' heads collisionFree
    obtain ⟨_, _, _, lines, recovers⟩ := (openJournal_iff stream left delivered state).mp opened
    obtain ⟨_, _, _, lines', recovers'⟩ :=
      (openJournal_iff stream right delivered' state').mp opened'
    rw [← heads] at recovers'
    exact recovered_unique law short collisionFree
      recovers recovers'
  · intro file delivered last
    rw [← lines_iff_events law short stream genesis last file]
    constructor
    · rintro ⟨state, opened, rfl⟩
      obtain ⟨named, bounded, _, recovered⟩ :=
        (openJournal_iff stream file delivered state).mp opened
      exact ⟨named, bounded, recovered⟩
    · rintro ⟨named, bounded, recovered⟩
      exact ⟨⟨stream, last, UInt64.ofNat file.length, false⟩,
        (openJournal_iff stream file delivered _).mpr ⟨named, bounded, rfl, recovered⟩, rfl⟩

end Recovery

/-! ### A journal of one row -/

def sampleEvent : Json :=
  .obj [("actor", .obj [("node_id", .str "n1"), ("principal_kind", .str "node")]),
    ("change", .obj []),
    ("correlation", .obj [("trace_id", .str "0123456789abcdef0123456789abcdef")]),
    ("event_type", .str "custody.admit"), ("outcome", .str "success"), ("reason_code", .str "ok"),
    ("subject", .obj [("org", .str "o1")]), ("ts", .int 1), ("v", .int 1)]

/-- The bytes whose digest is the hash of the row. -/
def sampleInput : List UInt8 :=
  List.replicate 32 0 ++ utf8 (String.ofList (render (bareJson "custody" genesis sampleEvent)))

/-- A function with the SHA-256 digest of these bytes. -/
def sampleSha256 (input : List UInt8) : Bytes 32 :=
  if input = sampleInput then
    ⟨[195, 104, 129, 235, 244, 249, 83, 219, 43, 33, 252, 124, 37, 26, 236, 246, 43, 239, 84, 204,
      123, 70, 46, 150, 77, 235, 30, 20, 35, 224, 72, 109], rfl⟩
  else ⟨List.replicate 32 255, rfl⟩

def sampleHash : String := "c36881ebf4f953db2b21fc7c251aecf62bef54cc7b462e964deb1e1423e0486d"

def sampleRow : String :=
  String.ofList (render (rowJson "custody" genesis sampleEvent sampleHash))

theorem sampleEvent_holds : EventOf sampleEvent (String.ofList (render sampleEvent)) := by
  refine ⟨canonical_of_writes (writes_of_toBool (by decide +kernel)) rfl, rfl, ⟨_, rfl⟩, rfl, ?_⟩
  exact render_size _ _ (by decide +kernel)

theorem sampleEvent_accepted : journalEvent readCompact
    (utf8 (String.ofList (render sampleEvent))) =
    .ok (String.ofList (render sampleEvent)) :=
  journalEvent_again readsCompact_readCompact sampleEvent_holds

theorem sampleInput_hashed : hashInput genesis.rootHash
    (String.ofList (render (bareJson "custody" genesis sampleEvent))) = .ok sampleInput := by
  have raw : rawHash genesis.rootHash = .ok (List.replicate 32 0) := by decide +kernel
  rw [hashInput, raw]
  rfl

theorem sampleInput_digest : hex (sampleSha256 sampleInput).1 = sampleHash := by
  rw [sampleSha256, if_pos rfl]
  decide +kernel

theorem sampleRow_built : journalRow readCompact sampleSha256 "custody" genesis
    (String.ofList (render sampleEvent)) = .ok sampleRow := by
  have named : journalIdentifier "custody" = .ok () := by decide
  have writes : Writes 0 (bareJson "custody" genesis sampleEvent) :=
    writes_of_toBool (by decide +kernel)
  have writesHash : Writes 0 (extendedJson "custody" genesis sampleEvent sampleHash) :=
    writes_of_toBool (by decide +kernel)
  have small : weight (bareJson "custody" genesis sampleEvent) ≤ maxBytes := by decide +kernel
  have fits : weight (extendedJson "custody" genesis sampleEvent sampleHash) <
      journalRowBytes := by decide +kernel
  exact journalRow_done readsCompact_readCompact sampleEvent_holds.1 named (by decide)
    sampleInput_hashed sampleInput_digest writes writesHash small fits

theorem sampleRow_head : journalRowHead readCompact sampleRow = .ok ⟨1, sampleHash⟩ := by
  obtain ⟨input, _, made⟩ := journalRow_ok readsCompact_readCompact sampleEvent_holds.1
    sampleRow_built
  have input' := Except.ok.inj (made.hashed.symm.trans sampleInput_hashed)
  rw [journalRowHead_of readsCompact_readCompact made, input', sampleInput_digest]
  rfl

theorem sampleRow_verified : verifyJournalRow readCompact sampleSha256 "custody" genesis
    (utf8 sampleRow) = .ok ⟨1, sampleHash⟩ := by
  rw [verify_of_row readsCompact_readCompact sampleEvent_holds sampleRow_built, sampleRow_head]

theorem sampleRow_recovers : Recovers readCompact sampleSha256 "custody" (utf8 sampleRow ++ [10])
    [utf8 sampleRow] ⟨1, sampleHash⟩ := by
  refine ⟨log_cons _ _, ?_, ?_⟩
  · intro line present
    rw [mem_singleton.mp present]
    exact verify_readable readsCompact_readCompact readsNoShorter_readCompact sampleRow_verified
  · rw [foldlM_cons, sampleRow_verified]
    rfl

theorem sampleRow_length : (utf8 sampleRow ++ [10]).length ≤ 64 * 1024 := by
  have short := render_size (rowJson "custody" genesis sampleEvent sampleHash) 8192
    (by decide +kernel)
  rw [length_append, utf8_length, sampleRow]
  exact Nat.le_trans (Nat.add_le_add_right short _) (by decide)

theorem sampleRow_small : (utf8 sampleRow ++ [10]).length ≤ journalSpoolBytes :=
  Nat.le_trans sampleRow_length (by decide)

theorem sampleRow_opens (delivered : Nat → Nat) :
    openJournal readCompact sampleSha256 "custody" (utf8 sampleRow ++ [10]) delivered =
      .ok ⟨"custody", ⟨1, sampleHash⟩, UInt64.ofNat (utf8 sampleRow ++ [10]).length, false⟩ :=
  (openJournal_iff _ _ _ _).mpr ⟨by decide, sampleRow_small, rfl, _, sampleRow_recovers⟩

/-- One input is hashed while the journal of one row is recovered. -/
theorem sampleRow_hashed {input : List UInt8}
    (hashed : Hashed readCompact sampleSha256 "custody" (utf8 sampleRow ++ [10]) input) :
    input = sampleInput := by
  obtain ⟨lines, last, previous, line, next, recovers, ⟨before, begins, reached, _⟩, hashes⟩ :=
    hashed
  obtain rfl := log_injective lines [utf8 sampleRow] recovers.2.1 sampleRow_recovers.2.1
    (recovers.1.trans sampleRow_recovers.1.symm)
  have first : before = [] ∧ line = utf8 sampleRow := by
    obtain ⟨rest, whole⟩ := begins
    cases before with
    | nil =>
      rw [nil_append, singleton_append, cons.injEq] at whole
      exact ⟨rfl, whole.1⟩
    | cons other others => simp at whole
  rw [first.1, foldlM_nil, pure_ok] at reached
  rw [first.2, ← reached] at hashes
  obtain ⟨_, bare, _⟩ := journalRow_ok readsCompact_readCompact sampleEvent_holds.1
    sampleRow_built
  exact hashes.unique readsCompact_readCompact readsNoShorter_readCompact
    ⟨_, _, _, _, sampleEvent_accepted, sampleRow_built, rfl, bare, sampleInput_hashed⟩

/-- The journal of one row, opened twice with different reads. -/
theorem one_row_determined : ∃ left right state,
    openJournal readCompact sampleSha256 "custody" left (fun _ => 0) = .ok state ∧
    openJournal readCompact sampleSha256 "custody" right (fun _ => 5) = .ok state ∧
    state.head = ⟨1, sampleHash⟩ ∧ left = right ∧
    ∃ events, (∀ event ∈ events, ValidEvent readCompact event) ∧
      rowsOf readCompact sampleSha256 "custody" genesis events = .ok (left, state.head) := by
  obtain ⟨determined, rows⟩ := @recovery_tamper_evident readCompact sampleSha256
    readsCompact_readCompact readsNoShorter_readCompact "custody"
  have collisionFree : Set.InjOn sampleSha256
      {input | Hashed readCompact sampleSha256 "custody" (utf8 sampleRow ++ [10]) input ∨
        Hashed readCompact sampleSha256 "custody" (utf8 sampleRow ++ [10]) input} := by
    refine Set.Subsingleton.injOn ?_ _
    intro input first input' second
    rw [sampleRow_hashed (first.elim id id), sampleRow_hashed (second.elim id id)]
  refine ⟨utf8 sampleRow ++ [10], utf8 sampleRow ++ [10], _, sampleRow_opens _, sampleRow_opens _,
    rfl, ?_, ?_⟩
  · exact determined _ _ _ _ _ _ (sampleRow_opens fun _ => 0) (sampleRow_opens fun _ => 5) rfl
      collisionFree
  · exact ((rows _ (fun _ => 0) _).mp ⟨_, sampleRow_opens _, rfl⟩).2.2

end Synergos.Journal
