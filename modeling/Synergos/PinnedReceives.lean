import Synergos.FileExchange
import Synergos.Runs

/-!
# Receiving a version that was asked for

A checkout or restore pins the version it asks for, so that this version is taken even
where the node has a newer one. An incoming transfer looks at the pin and the record of
the file when its bytes have arrived, then makes room for the file, replaces it, and only
then registers the version and takes the pin back. The replacement waits for the file
system, so any call of the exchange may come between these steps.

Beside the exchange a world keeps when each pin was set, when a file was last published,
restored or received, and under which pins files were replaced. While no call and no other
transfer touches the file of a transfer on its way from the check to the registration, an
older version is written only under a pin that is still there; otherwise it may be written
after the pin is gone.
-/

namespace Synergos.PinnedReceives

open Base64url Identity Envelope FileExchange Runs Function List
open Gossip (FileId Cid)

/-- A file of a project. -/
abbrev Key := ProjectId × FileId

/-! ### Steps -/

inductive Phase where
  /-- The bytes have arrived and their checksum is known. -/
  | arrived
  | admitted
  /-- The file has been replaced. -/
  | written
  deriving DecidableEq

/-- An incoming transfer, with the time of the pin it was admitted under. -/
structure Receive where
  header : TransferHeader
  crc : UInt32
  phase : Phase
  pin : Option Nat

def Receive.key (receive : Receive) : Key := (receive.header.projectId, receive.header.fileId)

/-- Between the check and the registration. -/
def Receive.InFlight (receive : Receive) : Prop := receive.phase ≠ .arrived

inductive Action where
  | call (made : FileExchange.Call) (now : Moment)
  | arrive (task : Nat) (header : TransferHeader) (crc : UInt32)
  | weigh (task : Nat) (now : Moment)
  /-- A step before the replacement has failed. -/
  | abandon (task : Nat)
  | write (task : Nat) (now : Moment)
  | register (task : Nat) (finalPath : PathBuf)

/-- The check and the registration of a transfer are steps of their own. -/
def outside : FileExchange.Call → Bool
  | .admitTransfer _ _ | .registerReceived _ _ _ _ => false
  | _ => true

/-- The call publishes or restores the file. -/
def changes : FileExchange.Call → Key → Bool
  | .publishUpdates projectId files _, key =>
      projectId = key.1 ∧ (files.any fun file => file.fileId = key.2) = true
  | .restoreSharedFile fileId record, key => (record.projectId, fileId) = key
  | _, _ => false

/-- The call pins a version of the file. -/
def pins : FileExchange.Call → Key → Bool
  | .pinFetchVersion projectId fileId _ _, key => (projectId, fileId) = key
  | _, _ => false

/-- The call may touch the record or the pin of the file. -/
def concerns (exchange : Exchange) : FileExchange.Call → Key → Prop
  | .shareFile request _, key => (request.projectId, request.fileId) = key
  | .unpinFetchVersion projectId fileId _, key => (projectId, fileId) = key
  | .cancelTransfer id, key => ∃ transfer, exchange.transfers id = some transfer ∧
      transfer.direction = .receive ∧ (transfer.projectId, transfer.fileId) = key
  | made, key => changes made key = true ∨ pins made key = true

structure World where
  exchange : Exchange
  receives : Nat → Option Receive
  /-- The number of steps so far. -/
  clock : Nat
  /-- When the pin of a file was set. -/
  pinnedAt : Key → Nat
  /-- When a file was last published, restored or received. -/
  changedAt : Key → Nat
  /-- The pins under which a file was replaced. -/
  used : List (Key × Nat)

/-- A node without pins. -/
def World.start (exchange : Exchange) : World where
  exchange := { exchange with pinnedFetches := fun _ => none }
  receives := fun _ => none
  clock := 0
  pinnedAt := fun _ => 0
  changedAt := fun _ => 0
  used := []

/-- The transfer is at a phase. -/
def At (world : World) (task : Nat) (phase : Phase) (receive : Receive) : Prop :=
  world.receives task = some receive ∧ receive.phase = phase

def enabled (world : World) : Action → Prop
  | .call made _ => outside made = true
  | .arrive task _ _ => world.receives task = none
  | .weigh task _ => ∃ receive, At world task .arrived receive
  | .abandon task => ∃ receive, At world task .admitted receive
  | .write task _ => ∃ receive, At world task .admitted receive
  | .register task _ => ∃ receive, At world task .written receive

section Steps

variable (blake3 : List UInt8 → Bytes 32) (scheme : Scheme) (crc32 : List UInt8 → UInt32)

def setReceive (world : World) (task : Nat) (receive : Option Receive) : World :=
  { world with
    receives := update world.receives task receive, clock := world.clock + 1 }

def applyCall (world : World) (made : FileExchange.Call) (now : Moment) : World :=
  { world with
    exchange := (FileExchange.call blake3 scheme crc32 world.exchange now made).2
    clock := world.clock + 1
    pinnedAt := fun key => if pins made key then world.clock + 1 else world.pinnedAt key
    changedAt := fun key => if changes made key then world.clock + 1 else world.changedAt key }

/-- A transfer that was let in goes on under the pin of its file. -/
def admitted (world : World) (receive : Receive) :
    Except FileSharingError Bool → Option Receive
  | .error _ => none
  | .ok pinned => some { receive with
      phase := .admitted
      pin := if pinned = true then some (world.pinnedAt receive.key) else none }

/-- The check of a transfer, which also removes a pin that has run out. -/
def weigh (world : World) (task : Nat) (now : Moment) (receive : Receive) : World :=
  let answer := admitTransfer world.exchange receive.header receive.crc now
  setReceive { world with exchange := answer.2 } task (admitted world receive answer.1)

def write (world : World) (task : Nat) (receive : Receive) : World :=
  setReceive { world with
    used := receive.pin.toList.map (fun pin => (receive.key, pin)) ++ world.used } task
    (some { receive with phase := .written })

def register (world : World) (task : Nat) (finalPath : PathBuf) (receive : Receive) : World :=
  setReceive { world with
    exchange := registerReceived world.exchange receive.header finalPath receive.crc
      receive.pin.isSome
    changedAt := update world.changedAt receive.key (world.clock + 1) } task none

def apply (world : World) : Action → World
  | .call made now => applyCall blake3 scheme crc32 world made now
  | .arrive task header crc => setReceive world task (some ⟨header, crc, .arrived, none⟩)
  | .weigh task now => (world.receives task).elim world (weigh world task now)
  | .abandon task => setReceive world task none
  | .write task _ => (world.receives task).elim world (write world task)
  | .register task finalPath => (world.receives task).elim world (register world task finalPath)

def system : System World Action where
  enabled := enabled
  apply := apply blake3 scheme crc32

end Steps

/-! ### What is asked of a write -/

/-- The version is older than the one the node has a record of. -/
def Older (world : World) (receive : Receive) : Prop :=
  ∃ record, sharedFileRecord world.exchange receive.header.projectId receive.header.fileId =
    some record ∧ receive.header.effectiveVersion < record.version

/-- A pin for exactly this version is there and has not run out; it was set after the file
was last published, restored or received and has let no other version in; and the bytes are
those that it names. -/
def Authorised (world : World) (receive : Receive) (now : Moment) : Prop :=
  ∃ pin, world.exchange.pinnedFetches receive.key = some pin ∧
    pin.version = receive.header.effectiveVersion ∧ now.ms ≤ pin.expiresAt ∧
    world.changedAt receive.key < world.pinnedAt receive.key ∧
    (receive.key, world.pinnedAt receive.key) ∉ world.used ∧
    ∀ size crc, pin.expectedSizeCrc = some (size, crc) →
      receive.header.totalSize = size ∧ receive.crc = crc

/-- No transfer of the file is between its check and its registration. -/
def Idle (world : World) (key : Key) : Prop :=
  ∀ task receive, world.receives task = some receive → receive.InFlight → receive.key ≠ key

/-- A step leaves the files of transfers in flight alone, and a file is replaced before
its pin runs out. -/
def Undisturbed (world : World) : Action → Prop
  | .call made _ => ∀ key, concerns world.exchange made key → Idle world key
  | .weigh task _ => ∀ receive, world.receives task = some receive → Idle world receive.key
  | .write task now => ∀ receive pin, world.receives task = some receive →
      world.exchange.pinnedFetches receive.key = some pin → now.ms ≤ pin.expiresAt
  | .arrive _ _ _ | .abandon _ | .register _ _ => True

/-! ### What the calls do to the tables of a file -/

section Calls

variable {blake3 : List UInt8 → Bytes 32} {scheme : Scheme} {crc32 : List UInt8 → UInt32}
variable {exchange : Exchange} {key : Key}

/-- The record and the pin of a file are as they were. -/
def Untouched (key : Key) (before after : Exchange) : Prop :=
  after.sharedFiles key = before.sharedFiles key ∧
    after.pinnedFetches key = before.pinnedFetches key

/-- What one published file does to the tables of another. -/
theorem untouched_publishUpdate {projectId : ProjectId} {file : PublishedFile}
    (other : (projectId, file.fileId) ≠ key) (now : Moment) (progress : Exchange × UInt32) :
    Untouched key progress.1
      (publishUpdate blake3 scheme crc32 now progress (file.notification projectId)).1 :=
  ⟨update_of_ne other.symm .., update_of_ne other.symm ..⟩

variable {projectId : ProjectId} {made : FileExchange.Call} {files : List PublishedFile}
  {fileId : FileId} {version : UInt64} {pin : PinnedFetch}

theorem sharedFiles_publish (others : ∀ file ∈ files, (projectId, file.fileId) ≠ key) (now : Moment)
    (progress : Exchange × UInt32) :
    ((files.map fun file => file.notification projectId).foldl
      (publishUpdate blake3 scheme crc32 now) progress).1.sharedFiles key =
        progress.1.sharedFiles key := by
  induction files generalizing progress with
  | nil => rfl
  | cons file rest ih =>
    have later := ih (fun later member => others later (mem_cons_of_mem file member))
      (publishUpdate blake3 scheme crc32 now progress (file.notification projectId))
    exact later.trans (untouched_publishUpdate (others file mem_cons_self) now progress).1

/-- A published file has no pin, and the pins of other files stay. -/
theorem pinnedFetches_publish (now : Moment) (progress : Exchange × UInt32) :
    ((files.map fun file => file.notification projectId).foldl
      (publishUpdate blake3 scheme crc32 now) progress).1.pinnedFetches key =
        if ∃ file ∈ files, (projectId, file.fileId) = key then none
        else progress.1.pinnedFetches key := by
  induction files generalizing progress with
  | nil => simp
  | cons file rest ih =>
    rw [map_cons, foldl_cons, ih]
    by_cases same : (projectId, file.fileId) = key
    · have gone : (publishUpdate blake3 scheme crc32 now progress
          (file.notification projectId)).1.pinnedFetches key = none := by
        rw [← same]
        exact update_self ..
      simp [gone, same]
    · simp [(untouched_publishUpdate same now progress).2, same]

theorem changes_publish_iff {catalogCid : Option Cid} : changes
    (.publishUpdates projectId files catalogCid) key = true ↔
      ∃ file ∈ files, (projectId, file.fileId) = key := by
  simp only [changes, decide_eq_true_eq, any_eq_true, Prod.ext_iff]
  exact ⟨fun ⟨project, file, member, same⟩ => ⟨file, member, project, same⟩,
    fun ⟨file, member, project, same⟩ => ⟨project, file, member, same⟩⟩

/-- A call leaves the files alone that it does not concern. -/
theorem untouched_call (isOutside : outside made = true)
    (free : ¬ concerns exchange made key) (now : Moment) :
    Untouched key exchange (FileExchange.call blake3 scheme crc32 exchange now made).2 := by
  cases made with
  | admitTransfer header crc | registerReceived header finalPath crc pinned => cases isOutside
  | shareFile request id => exact ⟨update_of_ne (Ne.symm free) .., rfl⟩
  | publishUpdates projectId files catalogCid =>
    have others : ∀ file ∈ files, (projectId, file.fileId) ≠ key :=
      fun file member same => free (.inl (changes_publish_iff.mpr ⟨file, member, same⟩))
    obtain ⟨_, whole⟩ := publishUpdates_fold blake3 scheme crc32 exchange
      (files.map fun file => file.notification projectId) catalogCid now
    simp only [FileExchange.call, whole]
    refine ⟨sharedFiles_publish others now (exchange, 0), ?_⟩
    rw [pinnedFetches_publish, if_neg]
    rintro ⟨file, member, same⟩
    exact others file member same
  | restoreSharedFile fileId record =>
    have other : key ≠ (record.projectId, fileId) := by
      intro same
      exact free (.inl (by simp [changes, same]))
    exact ⟨update_of_ne other .., update_of_ne other ..⟩
  | pinFetchVersion projectId fileId version expectedSizeCrc =>
    have other : key ≠ (projectId, fileId) := by
      intro same
      exact free (.inr (by simp [pins, same]))
    exact ⟨rfl, update_of_ne other ..⟩
  | unpinFetchVersion projectId fileId version =>
    exact ⟨rfl, update_of_ne (Ne.symm free) ..⟩
  | cancelTransfer id =>
    simp only [FileExchange.call, cancelTransfer]
    cases found : exchange.transfers id with
    | none => exact ⟨rfl, rfl⟩
    | some transfer =>
      by_cases receiving : transfer.direction = .receive
      · simp only [receiving, if_true]
        refine ⟨rfl, update_of_ne ?_ ..⟩
        intro same
        exact free ⟨transfer, found, receiving, same.symm⟩
      · simp only [receiving, if_false]
        exact ⟨rfl, rfl⟩
  | _ =>
    have frame := call_frame blake3 scheme crc32 exchange now
    exact ⟨congrFun ((frame _).shared rfl) key, congrFun ((frame _).pins rfl) key⟩

theorem concerns_of_changes_or_pins (either : changes made key = true ∨ pins made key = true) :
    concerns exchange made key := by
  cases made with
  | shareFile request id | unpinFetchVersion projectId fileId version | cancelTransfer id =>
    rcases either with impossible | impossible <;> cases impossible
  | _ => exact either

/-- Taking a pin back leaves no other one. -/
theorem pinnedFetches_unpin
    (found : (unpinFetchVersion exchange projectId fileId version).pinnedFetches key = some pin) :
    exchange.pinnedFetches key = some pin := by
  obtain rfl | same := eq_or_ne key (projectId, fileId)
  · have filtered := (update_self ..).symm.trans found
    exact (Option.filter_eq_some_iff.mp filtered).1
  · exact (update_of_ne same ..).symm.trans found

/-- A pin after a call was set by it, or was there before and the call neither publishes nor
restores the file. -/
theorem pinnedFetches_call (isOutside : outside made = true) (now : Moment)
    (found : (FileExchange.call blake3 scheme crc32 exchange now made).2.pinnedFetches key =
      some pin) :
    pins made key = true ∨ exchange.pinnedFetches key = some pin ∧ changes made key = false := by
  by_cases concerned : concerns exchange made key
  · cases made with
    | admitTransfer header crc | registerReceived header finalPath crc pinned => cases isOutside
    | shareFile request id => exact .inr ⟨found, rfl⟩
    | unpinFetchVersion projectId fileId version => exact .inr ⟨pinnedFetches_unpin found, rfl⟩
    | pinFetchVersion projectId fileId version expectedSizeCrc =>
      exact .inl (concerned.resolve_left Bool.false_ne_true)
    | publishUpdates projectId files catalogCid =>
      obtain ⟨_, whole⟩ := publishUpdates_fold blake3 scheme crc32 exchange
        (files.map fun file => file.notification projectId) catalogCid now
      simp only [FileExchange.call, whole, pinnedFetches_publish,
        if_pos (changes_publish_iff.mp (concerned.resolve_right Bool.false_ne_true))] at found
      cases found
    | restoreSharedFile fileId record =>
      have same : (record.projectId, fileId) = key :=
        of_decide_eq_true (concerned.resolve_right Bool.false_ne_true)
      subst same
      cases (update_self ..).symm.trans found
    | cancelTransfer id =>
      refine .inr ⟨?_, rfl⟩
      obtain ⟨transfer, present, receiving, _⟩ := concerned
      simp only [FileExchange.call, cancelTransfer, present, receiving, if_true] at found
      exact pinnedFetches_unpin found
    | _ =>
      rcases concerned with impossible | impossible <;> cases impossible
  · have same := @untouched_call blake3 scheme crc32 exchange key made isOutside concerned now
    refine .inr ⟨same.2.symm.trans found, ?_⟩
    rw [← Bool.not_eq_true]
    exact fun changed => concerned (concerns_of_changes_or_pins (.inl changed))

/-- The pin that is found is the one in the table, for this version. -/
theorem pinnedFetch_some {now : Moment}
    (found : (pinnedFetch exchange projectId fileId version now).1 = some pin) :
    (pinnedFetch exchange projectId fileId version now).2.pinnedFetches (projectId, fileId) =
      some pin ∧ pin.version = version := by
  unfold pinnedFetch at found ⊢
  cases held : exchange.pinnedFetches (projectId, fileId) with
  | none => simp [held] at found
  | some other =>
    simp only [held] at found ⊢
    by_cases expired : other.expiresAt < now.ms
    · simp [expired] at found
    · simp only [expired, if_false] at found ⊢
      by_cases same : other.version = version
      · simp only [same, if_true, Option.some.injEq] at found
        subst found
        exact ⟨held, same⟩
      · simp [same] at found

section Admission

variable {header : TransferHeader} {crc : UInt32} {now : Moment}

theorem pinnedFetches_admitTransfer
    (found : (admitTransfer exchange header crc now).2.pinnedFetches key = some pin) :
    exchange.pinnedFetches key = some pin := by
  rcases admitTransfer_cases exchange header crc now with same | ⟨version, same⟩
  · rwa [same] at found
  · rw [same] at found
    exact pinnedFetches_unpin found

theorem pinnedFetches_admitTransfer_ne (other : key ≠ (header.projectId, header.fileId)) :
    (admitTransfer exchange header crc now).2.pinnedFetches key = exchange.pinnedFetches key := by
  rcases admitTransfer_cases exchange header crc now with same | ⟨version, same⟩
  · rw [same]
  · rw [same]
    exact update_of_ne other ..

/-- There is a pin for the version and the bytes of a transfer. -/
def Licensed (exchange : Exchange) (header : TransferHeader) (crc : UInt32) : Prop :=
  ∃ pin, exchange.pinnedFetches (header.projectId, header.fileId) = some pin ∧
    pin.version = header.effectiveVersion ∧
    ∀ size sum, pin.expectedSizeCrc = some (size, sum) → header.totalSize = size ∧ crc = sum

/-- A transfer is let in under a pin for its version whose bytes it has, or because the node
has no newer version. -/
theorem admitTransfer_ok {pinned : Bool}
    (admitted : (admitTransfer exchange header crc now).1 = .ok pinned) :
    (pinned = true → Licensed (admitTransfer exchange header crc now).2 header crc) ∧
      (pinned = false → ∀ record, sharedFileRecord exchange header.projectId header.fileId =
        some record → ¬ header.effectiveVersion < record.version) := by
  have shared : sharedFileRecord (pinnedFetch exchange header.projectId header.fileId
      header.effectiveVersion now).2 header.projectId header.fileId =
      sharedFileRecord exchange header.projectId header.fileId := by
    rcases pinnedFetch_cases exchange header.projectId header.fileId header.effectiveVersion now with
      same | ⟨_, same⟩ <;> rw [same]
    rfl
  unfold admitTransfer at admitted ⊢
  dsimp only at admitted ⊢
  rw [shared] at admitted ⊢
  by_cases top : header.effectiveVersion = 0xffffffffffffffff
  · simp only [if_pos top] at admitted
    cases admitted
  simp only [if_neg top] at admitted ⊢
  split at admitted
  case isTrue => cases admitted
  case isFalse mismatch =>
  simp only [if_neg mismatch]
  -- Whatever record there is, what is answered is whether a pin was found.
  have underPin : (pinnedFetch exchange header.projectId header.fileId header.effectiveVersion
      now).1.isSome = true → Licensed (pinnedFetch exchange header.projectId header.fileId
        header.effectiveVersion now).2 header crc := by
    intro isPinned
    obtain ⟨pin, looked⟩ := Option.isSome_iff_exists.mp isPinned
    obtain ⟨held, version⟩ := pinnedFetch_some looked
    refine ⟨pin, held, version, fun size sum expected => ?_⟩
    simp only [looked, Option.bind_some, expected, Option.any_some, decide_eq_true_eq, not_or,
      not_not] at mismatch
    exact mismatch
  cases found : sharedFileRecord exchange header.projectId header.fileId with
  | none =>
    simp only [found, Except.ok.injEq] at admitted ⊢
    subst admitted
    refine ⟨underPin, ?_⟩
    intro _ record impossible
    cases impossible
  | some record =>
    simp only [found] at admitted ⊢
    split at admitted
    · cases admitted
    next accepted =>
      simp only [if_neg accepted]
      have answer := Except.ok.inj admitted
      subst answer
      refine ⟨underPin, ?_⟩
      intro unpinned other same older
      cases same
      exact accepted ⟨.inl older, by simpa using unpinned⟩

end Admission

end Calls

/-! ### The invariant of undisturbed runs -/

/-- The pin of the transfer's file is the one it was admitted under. -/
def Under (world : World) (receive : Receive) (pinnedAt : Nat) : Prop :=
  ∃ pin, world.exchange.pinnedFetches receive.key = some pin ∧
    pin.version = receive.header.effectiveVersion ∧
    (∀ size crc, pin.expectedSizeCrc = some (size, crc) →
      receive.header.totalSize = size ∧ receive.crc = crc) ∧
    world.pinnedAt receive.key = pinnedAt

/-- Some transfer has replaced the file and is not registered yet. -/
def Replacing (world : World) (key : Key) : Prop :=
  ∃ task receive, At world task .written receive ∧ receive.key = key

structure Sound (world : World) : Prop where
  alone : ∀ task other receive another, world.receives task = some receive →
    world.receives other = some another → receive.InFlight → another.InFlight →
    receive.key = another.key → task = other
  pinned : ∀ task receive pinnedAt, world.receives task = some receive → receive.InFlight →
    receive.pin = some pinnedAt → Under world receive pinnedAt
  current : ∀ task receive, At world task .admitted receive → receive.pin = none →
    ¬ Older world receive
  fresh : ∀ key pin, world.exchange.pinnedFetches key = some pin →
    world.changedAt key < world.pinnedAt key ∧
      ((key, world.pinnedAt key) ∈ world.used → Replacing world key)
  bounded : ∀ key, world.pinnedAt key ≤ world.clock ∧ world.changedAt key ≤ world.clock
  past : ∀ key pinnedAt, (key, pinnedAt) ∈ world.used → pinnedAt ≤ world.clock

theorem sound_start (exchange : Exchange) : Sound (World.start exchange) where
  alone := by
    intro task other receive another found
    cases found
  pinned := by
    intro task receive pinnedAt found
    cases found
  current := by
    rintro task receive ⟨found, _⟩
    cases found
  fresh := by
    intro key pin found
    cases found
  bounded := fun _ => ⟨Nat.le_refl 0, Nat.le_refl 0⟩
  past := by
    intro key pinnedAt member
    cases member

section Steps

variable {blake3 : List UInt8 → Bytes 32} {scheme : Scheme} {crc32 : List UInt8 → UInt32}
variable {world : World} {task : Nat} {receive : Receive}

variable (sound : Sound world)

include sound

/-- The transfer was in flight before the step under the same pin, and the step left its
file alone. -/
def Carried (world after : World) (other : Nat) (another : Receive) : Prop :=
  (∃ phase, world.receives other = some { another with phase } ∧ phase ≠ .arrived ∧
    (another.phase = .admitted → phase = .admitted)) ∧
  Untouched another.key world.exchange after.exchange ∧
  after.pinnedAt another.key = world.pinnedAt another.key

/-- The step has let the transfer in. -/
structure Entered (world after : World) (another : Receive) : Prop where
  idle : Idle world another.key
  under : ∀ pinnedAt, another.pin = some pinnedAt → Under after another pinnedAt
  current : another.pin = none → ¬ Older after another

/-- What is owed by a step: at most one transfer is let in, and the pins are fresh. -/
theorem Sound.step {after : World} (entering : Nat) (tick : after.clock = world.clock + 1)
    (flights : ∀ other another, after.receives other = some another → another.InFlight →
      Carried world after other another ∨ other = entering ∧ Entered world after another)
    (fresh : ∀ key pin, after.exchange.pinnedFetches key = some pin →
      after.changedAt key < after.pinnedAt key ∧
        ((key, after.pinnedAt key) ∈ after.used → Replacing after key))
    (times : ∀ key,
      (after.pinnedAt key = world.clock + 1 ∨ after.pinnedAt key = world.pinnedAt key) ∧
        (after.changedAt key = world.clock + 1 ∨ after.changedAt key = world.changedAt key))
    (past : ∀ key pinnedAt, (key, pinnedAt) ∈ after.used →
      (key, pinnedAt) ∈ world.used ∨ pinnedAt ≤ world.clock) : Sound after := by
  refine ⟨?_, ?_, ?_, fresh, ?_, ?_⟩
  · intro first second one another foundFirst foundSecond flightFirst flightSecond same
    rcases flights first one foundFirst flightFirst with
      ⟨⟨phase, before, flight, _⟩, _⟩ | ⟨isEntering, entered⟩
    · rcases flights second another foundSecond flightSecond with
        ⟨⟨_, beforeSecond, flightOther, _⟩, _⟩ | ⟨_, entered⟩
      · exact sound.alone first second _ _ before beforeSecond flight flightOther same
      · exact (entered.idle first _ before flight same).elim
    · rcases flights second another foundSecond flightSecond with
        ⟨⟨_, before, flight, _⟩, _⟩ | ⟨alsoEntering, _⟩
      · exact (entered.idle second _ before flight same.symm).elim
      · exact isEntering.trans alsoEntering.symm
  · intro other another pinnedAt found flight isPinned
    rcases flights other another found flight with
      ⟨⟨_, before, inFlight, _⟩, ⟨_, pins⟩, unmoved⟩ | ⟨_, entered⟩
    · obtain ⟨pin, held, version, bytes, since⟩ :=
        sound.pinned other _ pinnedAt before inFlight isPinned
      exact ⟨pin, pins.trans held, version, bytes, unmoved.trans since⟩
    · exact entered.under pinnedAt isPinned
  · rintro other another ⟨found, phase⟩ free
    have flight : another.InFlight := by simp [Receive.InFlight, phase]
    rcases flights other another found flight with
      ⟨⟨_, before, _, admitted⟩, ⟨records, _⟩, _⟩ | ⟨_, entered⟩
    · rintro ⟨record, held, older⟩
      exact sound.current other _ ⟨before, admitted phase⟩ free
        ⟨record, records.symm.trans held, older⟩
    · exact entered.current free
  · intro key
    have earlier := sound.bounded key
    have moved := times key
    omega
  · intro key pinnedAt member
    rw [tick]
    rcases past key pinnedAt member with earlier | bounded
    · exact Nat.le_succ_of_le (sound.past key pinnedAt earlier)
    · exact Nat.le_succ_of_le bounded

theorem sound_call {made : FileExchange.Call} {now : Moment}
    (isOutside : outside made = true) (undisturbed : Undisturbed world (.call made now)) :
    Sound (applyCall blake3 scheme crc32 world made now) := by
  refine sound.step 0 rfl ?_ ?_ (fun key => ⟨ite_eq_or_eq .., ite_eq_or_eq ..⟩)
    fun _ _ member => .inl member
  · intro task receive found inFlight
    have free : ¬ concerns world.exchange made receive.key := fun concerned =>
      undisturbed receive.key concerned task receive found inFlight rfl
    exact .inl ⟨⟨receive.phase, found, inFlight, id⟩, untouched_call isOutside free now,
      if_neg fun repinned => free (concerns_of_changes_or_pins (.inr repinned))⟩
  · intro key pin found
    change (if changes made key then world.clock + 1 else world.changedAt key) <
        (if pins made key then world.clock + 1 else world.pinnedAt key) ∧
      ((key, if pins made key then world.clock + 1 else world.pinnedAt key) ∈ world.used → _)
    by_cases repinned : pins made key = true
    · have unchanged : ¬ changes made key = true := by
        intro changed
        cases made <;> first | cases repinned | cases changed
      rw [if_pos repinned, if_neg unchanged]
      refine ⟨Nat.lt_succ_of_le (sound.bounded key).2, fun member => ?_⟩
      exact absurd (sound.past key _ member) (Nat.not_succ_le_self world.clock)
    · obtain ⟨held, unchanged⟩ := (pinnedFetches_call isOutside now found).resolve_left repinned
      rw [if_neg repinned, if_neg (by simp [unchanged])]
      exact sound.fresh key pin held

omit sound in
/-- The transfers after one of them was set. -/
theorem receives_setReceive {entry : Option Receive} {other : Nat} {another : Receive} :
    (setReceive world task entry).receives other = some another ↔
      (other = task ∧ entry = some another) ∨
        (other ≠ task ∧ world.receives other = some another) := by
  change update world.receives task entry other = some another ↔ _
  obtain rfl | same := eq_or_ne other task
  · simp
  · simp [same]

omit sound in
/-- A file is still being replaced by another transfer than the one that was set. -/
theorem Replacing.setReceive {entry : Option Receive} {key : Key} (replacing : Replacing world key)
    (foreign : ∀ receive, At world task .written receive → receive.key ≠ key) :
    Replacing (setReceive world task entry) key := by
  obtain ⟨other, another, written, its⟩ := replacing
  have different : other ≠ task := by
    rintro rfl
    exact foreign another written its
  exact ⟨other, another, ⟨receives_setReceive.mpr (.inr ⟨different, written.1⟩), written.2⟩, its⟩

omit sound in
/-- A transfer at one phase is not at another. -/
theorem At.unique {phase other : Phase} {another : Receive} (first : At world task phase receive)
    (second : At world task other another) : receive = another ∧ phase = other := by
  have same : receive = another := Option.some.inj (first.1.symm.trans second.1)
  exact ⟨same, first.2.symm.trans (same ▸ second.2)⟩

/-- A transfer is taken in, let in or set aside, and pins of files without a transfer in
flight may go. -/
theorem sound_setReceive {entry : Option Receive} {exchange : Exchange}
    (notWritten : ∀ receive, ¬ At world task .written receive)
    (tables : ∀ other another, world.receives other = some another → another.InFlight →
      Untouched another.key world.exchange exchange)
    (removed : ∀ key pin, exchange.pinnedFetches key = some pin →
      world.exchange.pinnedFetches key = some pin)
    (entered : ∀ another, entry = some another → another.InFlight →
      Entered world { world with exchange } another) :
    Sound (setReceive { world with exchange } task entry) := by
  refine sound.step task rfl ?_ ?_ (fun _ => ⟨.inr rfl, .inr rfl⟩) fun _ _ member => .inl member
  · intro other another found flight
    rcases receives_setReceive.mp found with ⟨same, isNew⟩ | ⟨_, before⟩
    · obtain ⟨idle, under, current⟩ := entered another isNew flight
      exact .inr ⟨same, idle, under, current⟩
    · exact .inl ⟨⟨another.phase, before, flight, id⟩, tables other another before flight, rfl⟩
  · intro key pin held
    obtain ⟨since, used⟩ := sound.fresh key pin (removed key pin held)
    exact ⟨since, fun member => (used member).setReceive fun receive written =>
      absurd written (notWritten receive)⟩

theorem sound_admit {now : Moment} (arrived : At world task .arrived receive)
    (undisturbed : Undisturbed world (.weigh task now)) :
    Sound (weigh world task now receive) := by
  have idle := undisturbed receive arrived.1
  refine sound_setReceive sound ?_ ?_ (fun key pin held => pinnedFetches_admitTransfer held) ?_
  · intro other written
    cases (arrived.unique written).2
  · intro other another found inFlight
    exact ⟨congrFun (admitTransfer_sharedFiles _) another.key,
      pinnedFetches_admitTransfer_ne (idle other another found inFlight)⟩
  intro another isNew _
  cases result : (admitTransfer world.exchange receive.header receive.crc now).1 with
  | error error =>
    rw [result] at isNew
    cases isNew
  | ok isPinned =>
    obtain ⟨underPin, notOlder⟩ := admitTransfer_ok result
    rw [result] at isNew
    cases isNew
    refine ⟨idle, ?_, ?_⟩
    · intro pinnedAt its
      cases isPinned with
      | false => cases its
      | true =>
        cases its
        obtain ⟨pin, held, version, bytes⟩ := underPin rfl
        exact ⟨pin, held, version, bytes, rfl⟩
    · rintro free ⟨record, held, older⟩
      cases isPinned with
      | true => cases free
      | false =>
        refine notOlder rfl record ?_ older
        exact (congrFun (admitTransfer_sharedFiles _) receive.key).symm.trans held

/-- The file is replaced under the pin, which is used up by that. -/
theorem sound_write (isAdmitted : At world task .admitted receive) :
    Sound (write world task receive) := by
  have inFlight : receive.InFlight := by simp [Receive.InFlight, isAdmitted.2]
  refine sound.step task rfl ?_ ?_ (fun _ => ⟨.inr rfl, .inr rfl⟩) ?_
  · intro other another found flight
    rcases receives_setReceive.mp found with ⟨rfl, isNew⟩ | ⟨_, held⟩
    · cases isNew
      refine .inl ⟨⟨receive.phase, isAdmitted.1, inFlight, ?_⟩, ⟨rfl, rfl⟩, rfl⟩
      exact nofun
    · exact .inl ⟨⟨another.phase, held, flight, id⟩, ⟨rfl, rfl⟩, rfl⟩
  · intro key pin held
    obtain ⟨since, used⟩ := sound.fresh key pin held
    refine ⟨since, fun member => ?_⟩
    rcases mem_append.mp member with own | earlier
    · obtain ⟨_, _, same⟩ := mem_map.mp own
      cases same
      exact ⟨task, _, ⟨receives_setReceive.mpr (.inl ⟨rfl, rfl⟩), rfl⟩, rfl⟩
    · refine (used earlier).setReceive fun other written => ?_
      cases (isAdmitted.unique written).2
  · intro key pinnedAt member
    rcases mem_append.mp member with own | earlier
    · obtain ⟨itsPin, isPin, same⟩ := mem_map.mp own
      cases same
      obtain ⟨_, _, _, _, since⟩ := sound.pinned task receive pinnedAt isAdmitted.1 inFlight
        (Option.mem_toList.mp isPin)
      exact .inr (since ▸ (sound.bounded receive.key).1)
    · exact .inl earlier

omit sound in
/-- What the registration of a version does to the tables of another file. -/
theorem untouched_registerReceived {exchange : Exchange} {header : TransferHeader}
    {finalPath : PathBuf} {crc : UInt32} {isPinned : Bool} {key : Key}
    (other : key ≠ (header.projectId, header.fileId)) :
    Untouched key exchange (registerReceived exchange header finalPath crc isPinned) := by
  cases isPinned with
  | true | false => exact ⟨update_of_ne other .., update_of_ne other ..⟩

/-- A version that is registered leaves no pin. -/
theorem pinnedFetches_register (isWritten : At world task .written receive) (finalPath : PathBuf) :
    (registerReceived world.exchange receive.header finalPath receive.crc
      receive.pin.isSome).pinnedFetches receive.key = none := by
  have inFlight : receive.InFlight := by simp [Receive.InFlight, isWritten.2]
  cases isPinned : receive.pin with
  | none => exact update_self ..
  | some pinnedAt =>
    obtain ⟨pin, held, version, _⟩ := sound.pinned task receive pinnedAt isWritten.1 inFlight
      isPinned
    have removed : (world.exchange.pinnedFetches receive.key).filter
        (fun pin => pin.version ≠ receive.header.effectiveVersion) = none := by
      rw [held]
      simp [version]
    exact (update_self ..).trans removed

theorem sound_register {finalPath : PathBuf} (isWritten : At world task .written receive) :
    Sound (register world task finalPath receive) := by
  have inFlight : receive.InFlight := by simp [Receive.InFlight, isWritten.2]
  refine sound.step task rfl ?_ ?_ ?_ fun _ _ member => .inl member
  · intro other another found flight
    rcases receives_setReceive.mp found with ⟨_, impossible⟩ | ⟨different, held⟩
    · cases impossible
    · have elsewhere : another.key ≠ receive.key := fun same =>
        different (sound.alone other task another receive held isWritten.1 flight inFlight same)
      exact .inl ⟨⟨another.phase, held, flight, id⟩, untouched_registerReceived elsewhere, rfl⟩
  · intro key pin held
    have other : key ≠ receive.key := by
      rintro rfl
      cases (pinnedFetches_register sound isWritten finalPath).symm.trans held
    have unpinned : world.exchange.pinnedFetches key = some pin :=
      (untouched_registerReceived other).2.symm.trans held
    obtain ⟨since, used⟩ := sound.fresh key pin unpinned
    have unchanged : (register world task finalPath receive).changedAt key =
        world.changedAt key := update_of_ne other ..
    refine ⟨unchanged ▸ since, fun member => (used member).setReceive fun another written its => ?_⟩
    exact other (its.symm.trans ((isWritten.unique written).1 ▸ rfl))
  · intro key
    refine ⟨.inr rfl, ?_⟩
    rcases eq_or_ne key receive.key with rfl | other
    · exact .inl (update_self ..)
    · exact .inr (update_of_ne other ..)

theorem sound_apply {action : Action} (isEnabled : enabled world action)
    (undisturbed : Undisturbed world action) :
    Sound (apply blake3 scheme crc32 world action) := by
  cases action with
  | call made now => exact sound_call sound isEnabled undisturbed
  | arrive task header crc =>
    have absent : world.receives task = none := isEnabled
    refine sound_setReceive sound ?_ (fun _ _ _ _ => ⟨rfl, rfl⟩)
      (fun _ _ => id) ?_
    · rintro receive ⟨found, _⟩
      simp [absent] at found
    · rintro another ⟨⟩ inFlight
      exact absurd rfl inFlight
  | weigh task now =>
    obtain ⟨receive, arrived⟩ := isEnabled
    simp only [apply, arrived.1, Option.elim_some]
    exact sound_admit sound arrived undisturbed
  | abandon task =>
    obtain ⟨receive, isAdmitted⟩ := isEnabled
    refine sound_setReceive sound ?_ (fun _ _ _ _ => ⟨rfl, rfl⟩)
      (fun _ _ => id) ?_
    · intro other written
      cases (isAdmitted.unique written).2
    · intro another impossible
      cases impossible
  | write task now =>
    obtain ⟨receive, isAdmitted⟩ := isEnabled
    simp only [apply, isAdmitted.1, Option.elim_some]
    exact sound_write sound isAdmitted
  | register task finalPath =>
    obtain ⟨receive, isWritten⟩ := isEnabled
    simp only [apply, isWritten.1, Option.elim_some]
    exact sound_register sound isWritten

/-- An older version is about to be written: its pin is there. -/
theorem Sound.authorised {now : Moment} (isAdmitted : At world task .admitted receive)
    (undisturbed : Undisturbed world (.write task now)) (older : Older world receive) :
    Authorised world receive now := by
  have inFlight : receive.InFlight := by simp [Receive.InFlight, isAdmitted.2]
  cases isPinned : receive.pin with
  | none => exact absurd older (sound.current task receive isAdmitted isPinned)
  | some pinnedAt =>
    obtain ⟨pin, held, version, bytes, _⟩ := sound.pinned task receive pinnedAt isAdmitted.1
      inFlight isPinned
    obtain ⟨since, used⟩ := sound.fresh receive.key pin held
    refine ⟨pin, held, version, undisturbed receive pin isAdmitted.1 held, since, ?_, bytes⟩
    intro member
    obtain ⟨other, another, written, its⟩ := used member
    have flight : another.InFlight := by simp [Receive.InFlight, written.2]
    have same := sound.alone other task another receive written.1 isAdmitted.1 flight inFlight its
    subst same
    cases (isAdmitted.unique written).2

end Steps

/-- In every run in which nothing touches the file of a transfer between its check and its
registration, and files are replaced before their pins run out, a version older than the
one on record is written only under a pin for it that is still there, was set after the
file last changed, has let nothing else in, and names the bytes that were received. -/
theorem older_written_under_pin (blake3 : List UInt8 → Bytes 32) (scheme : Scheme)
    (crc32 : List UInt8 → UInt32) (exchange : Exchange) (world : World)
    (run : Run (system blake3 scheme crc32) Undisturbed (World.start exchange) world)
    (task : Nat) (now : Moment) (receive : Receive) (isAdmitted : At world task .admitted receive)
    (undisturbed : Undisturbed world (.write task now)) (older : Older world receive) :
    Authorised world receive now := by
  have sound : Sound world := run.invariant Sound (sound_start exchange)
    fun before action isEnabled met held => sound_apply held isEnabled met
  exact sound.authorised isAdmitted undisturbed older

def moment : Moment := ⟨1000, 0⟩

def publication (version : UInt64) (crc : UInt32) : FileExchange.Call :=
  .publishUpdates "p" [⟨"a.bin", ["p", "a.bin"], 3, crc, version⟩] none

/-- The first version of the file, on its way back. -/
def oldVersion (phase : Phase) (pin : Option Nat) : Receive :=
  ⟨⟨"t", "p", "a.bin", 3, 1⟩, 1063113957, phase, pin⟩

/-- The second version is published, the first one is asked for, arrives and is let in. -/
def restoring : List Action :=
  [.call (publication 2 1810056261) moment,
    .call (.pinFetchVersion "p" "a.bin" 1 (some (3, 1063113957))) moment,
    .arrive 0 (oldVersion .arrived none).header 1063113957, .weigh 0 moment]

abbrev sampleSystem : System World Action := system (fun _ => zeroHash) stamp fun _ => 0

def restoringWorld : World :=
  restoring.foldl sampleSystem.apply (World.start (withNetwork "local" none))

/-- The version that was asked for is older than the one on record and may be written. -/
theorem restored_version_authorised :
    Older restoringWorld (oldVersion .admitted (some 2)) ∧
      Authorised restoringWorld (oldVersion .admitted (some 2)) moment := by
  have older : Older restoringWorld (oldVersion .admitted (some 2)) := ⟨_, rfl, by decide⟩
  refine ⟨older, older_written_under_pin _ stamp (fun _ => 0) (withNetwork "local" none)
    restoringWorld (Run.follow restoring .start ?_) 0 moment _ ⟨rfl, rfl⟩ ?_ older⟩
  · refine ⟨rfl, ?_, rfl, ?_, rfl, trivial, ⟨oldVersion .arrived none, rfl, rfl⟩, ?_, trivial⟩
    · intro key _ task receive found
      cases found
    · intro key _ task receive found
      cases found
    · intro _ _ task another found inFlight
      rcases receives_setReceive.mp found with ⟨_, isNew⟩ | ⟨_, before⟩
      · cases isNew
        exact absurd rfl inFlight
      · cases before
  · rintro receive pin found held
    cases found
    cases held
    decide

/-- A third version is published while the file is being replaced. -/
def overtaking : List Action := restoring ++ [.call (publication 3 7) moment]

def overtakenWorld : World :=
  overtaking.foldl sampleSystem.apply (World.start (withNetwork "local" none))

/-- Publishing has removed the pin, and the first version is written all the same. It becomes
the version on record. -/
theorem published_version_overwritten :
    Reaches sampleSystem (World.start (withNetwork "local" none)) overtakenWorld ∧
    sampleSystem.enabled overtakenWorld (.write 0 moment) ∧
    At overtakenWorld 0 .admitted (oldVersion .admitted (some 2)) ∧
    Older overtakenWorld (oldVersion .admitted (some 2)) ∧
    ¬ Authorised overtakenWorld (oldVersion .admitted (some 2)) moment ∧
    ((sampleSystem.apply (sampleSystem.apply overtakenWorld (.write 0 moment))
      (.register 0 ["p", "a.bin"])).exchange.sharedFiles ("p", "a.bin")).map
        SharedFileRecord.version = some 1 := by
  refine ⟨Run.follow overtaking .start ?_, ⟨_, rfl, rfl⟩, ⟨rfl, rfl⟩, ⟨_, rfl, by decide⟩, ?_,
    by decide⟩
  · exact ⟨rfl, trivial, rfl, trivial, rfl, trivial, ⟨oldVersion .arrived none, rfl, rfl⟩, trivial,
      rfl, trivial, trivial⟩
  · rintro ⟨pin, held, _⟩
    cases held

end Synergos.PinnedReceives
