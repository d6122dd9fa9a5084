import Synergos.FileExchange
import Synergos.Runs

/-!
# The states of transfers

The table of transfers is keyed by an id. This node draws the ids of what it sends and
fetches; an incoming transfer is entered under the id in the header that the remote
side has written. Sends, receives, cancellations, completions and failures run as
tasks of their own, so any of them may be the next to touch the table. A fetch that
finds an offer and an incoming transfer touch it twice, and each touch is a step here.

Beside the exchange, a world remembers the last entry that each id has had, also after
the entry has left the table, and the transfer that the entry was made for. None of the
functions looks at the state that it replaces, and making an entry looks at none that is
there: a step leaves finished transfers finished, and an incoming transfer leaves those
of others alone, exactly where the step meets a condition on the entry it finds.
-/

namespace Synergos.TransferStates

open Base64url Identity Envelope FileExchange Runs

/-! ### Steps -/

/-- The transfer that an entry was made for: one that this node has asked for, or the one
that arrives on a stream. -/
inductive Owner where
  | own
  | incoming (stream : Nat)
  deriving DecidableEq

inductive Action where
  /-- A call of the exchange that touches the table at most once. -/
  | call (made : FileExchange.Call) (now : Moment)
  | beginFetch (request : FetchRequest) (id : TransferId)
  /-- The want of a fetch has found an offer. -/
  | startFetch (id : TransferId) (sender : PeerId) (fileSize : UInt64)
  /-- The file of an incoming transfer is in place. -/
  | enterReceived (stream : Nat) (header : TransferHeader) (sender : PeerId) (finalPath : PathBuf)
  | completeReceived (stream : Nat) (header : TransferHeader)

/-- A fetch and the end of an incoming transfer have steps of their own. -/
def single : FileExchange.Call → Bool
  | .fetchFile _ _ | .finishReceived _ _ _ => false
  | _ => true

structure World where
  exchange : Exchange
  /-- The last entry under each id. -/
  seen : TransferId → Option ActiveTransfer
  owner : TransferId → Option Owner
  current : ∀ id transfer, exchange.transfers id = some transfer → seen id = some transfer

/-- No transfer yet. -/
def World.new (localPeerId : PeerId) : World where
  exchange := withNetwork localPeerId none
  seen := fun _ => none
  owner := fun _ => none
  current := by
    intro id transfer held
    cases held

/-- What a step does to the table. -/
inductive Touch where
  | nothing
  | enter (owner : Owner) (transfer : ActiveTransfer)
  | change (id : TransferId) (update : ActiveTransfer → ActiveTransfer)

def Touch.ofCall : FileExchange.Call → Touch
  | .shareFile request id => .enter .own (request.transfer id)
  | .cancelTransfer id => .change id fun transfer => { transfer with state := .cancelled }
  | .completeTransfer id => .change id fun transfer =>
      { transfer with state := .completed, bytesTransferred := transfer.fileSize }
  | .failTransfer id reason => .change id fun transfer => { transfer with state := .failed reason }
  | .updateProgress id bytesTransferred speedBps => .change id fun transfer =>
      { transfer with
        bytesTransferred, speedBps
        state := if transfer.state = .queued then .running else transfer.state }
  | .pauseTransfer id => .change id fun transfer =>
      if transfer.state = .running then { transfer with state := .paused } else transfer
  | .resumeTransfer id => .change id fun transfer =>
      if transfer.state = .paused then { transfer with state := .running } else transfer
  | _ => .nothing

def touch : Action → Touch
  | .call made _ => .ofCall made
  | .beginFetch request id => .enter .own (request.transfer id)
  | .startFetch id sender fileSize => .change id fun transfer =>
      { transfer with state := .running, fileSize, peerId := sender }
  | .enterReceived stream header sender finalPath =>
      .enter (.incoming stream) (header.transfer sender finalPath)
  | .completeReceived _ header => .change header.transferId fun transfer =>
      { transfer with state := .completed, bytesTransferred := transfer.fileSize }

def Touch.owners (owner : TransferId → Option Owner) : Touch → TransferId → Option Owner
  | .enter entering transfer => Function.update owner transfer.transferId (some entering)
  | .nothing | .change _ _ => owner

section Steps

variable (blake3 : List UInt8 → Bytes 32) (scheme : Scheme) (crc32 : List UInt8 → UInt32)

/-- The exchange after a step. -/
def effect (exchange : Exchange) : Action → Exchange
  | .call made now => (FileExchange.call blake3 scheme crc32 exchange now made).2
  | .beginFetch request id => setTransfer exchange (request.transfer id)
  | .startFetch id sender fileSize => modifyTransfer exchange id fun transfer =>
      { transfer with state := .running, fileSize, peerId := sender }
  | .enterReceived _ header sender finalPath =>
      setTransfer exchange (header.transfer sender finalPath)
  | .completeReceived _ header => completeTransfer exchange header.transferId

def apply (world : World) (action : Action) : World where
  exchange := effect blake3 scheme crc32 world.exchange action
  seen := fun id => ((effect blake3 scheme crc32 world.exchange action).transfers id).or
    (world.seen id)
  owner := (touch action).owners world.owner
  current := by
    intro id transfer held
    rw [held, Option.some_or]

def enabled : Action → Prop
  | .call made _ => single made = true
  | _ => True

def system : System World Action where
  enabled _ action := enabled action
  apply := apply blake3 scheme crc32

end Steps

/-! ### What is asked of a step -/

def terminal : TransferState → Bool
  | .completed | .failed _ | .cancelled => true
  | .queued | .running | .paused => false

/-- A transfer that has finished keeps its state. -/
def Absorbs (before after : TransferId → Option ActiveTransfer) : Prop :=
  ∀ id transfer, before id = some transfer → terminal transfer.state = true →
    ∃ later, after id = some later ∧ later.state = transfer.state

/-- The entries of other transfers than the one on the stream stay as they are, and theirs. -/
def Spares (stream : Nat) (before after : World) : Prop :=
  ∀ id transfer, before.seen id = some transfer → before.owner id ≠ some (.incoming stream) →
    after.seen id = some transfer ∧ after.owner id = before.owner id

/-- The stream whose transfer takes the step. -/
def stream : Action → Option Nat
  | .enterReceived stream _ _ _ | .completeReceived stream _ => some stream
  | .call _ _ | .beginFetch _ _ | .startFetch _ _ _ => none

def Keeps (before : World) (action : Action) (after : World) : Prop :=
  Absorbs before.seen after.seen ∧ ∀ number, stream action = some number →
    Spares number before after

/-! ### The condition -/

/-- The entry that is to get a state has not finished in another one. -/
def Unfinished (exchange : Exchange) (id : TransferId) (state : TransferState) : Prop :=
  ∀ transfer, exchange.transfers id = some transfer → terminal transfer.state = true →
    transfer.state = state

/-- No transfer has finished under the id. -/
def Vacant (world : World) (id : TransferId) : Prop :=
  ∀ transfer, world.seen id = some transfer → terminal transfer.state = false

/-- The condition under which a step leaves alone what it should. An id for a new entry
has no finished transfer, a state is given to a transfer that has not finished in another
one, and an incoming transfer finds nobody else's entry under the id of its header, unless
that entry is already what completing makes of it. -/
def Orderly (world : World) : Action → Prop
  | .call (.shareFile _ id) _ | .beginFetch _ id => Vacant world id
  | .call (.cancelTransfer id) _ => Unfinished world.exchange id .cancelled
  | .call (.completeTransfer id) _ => Unfinished world.exchange id .completed
  | .call (.failTransfer id reason) _ => Unfinished world.exchange id (.failed reason)
  | .call _ _ => True
  | .startFetch id _ _ => Unfinished world.exchange id .running
  | .enterReceived stream header _ _ => Vacant world header.transferId ∧
      ∀ transfer, world.seen header.transferId = some transfer →
        world.owner header.transferId = some (.incoming stream)
  | .completeReceived stream header => Unfinished world.exchange header.transferId .completed ∧
      ∀ transfer, world.exchange.transfers header.transferId = some transfer →
        world.owner header.transferId = some (.incoming stream) ∨
          transfer.state = .completed ∧ transfer.bytesTransferred = transfer.fileSize

/-! ### The table after a step -/

section Tables

variable {blake3 : List UInt8 → Bytes 32} {scheme : Scheme} {crc32 : List UInt8 → UInt32}

/-- The last entries after a touch of the table. -/
def Touch.entries (world : World) : Touch → TransferId → Option ActiveTransfer
  | .nothing => world.seen
  | .enter _ transfer => Function.update world.seen transfer.transferId (some transfer)
  | .change id update =>
      Function.update world.seen id (((world.exchange.transfers id).map update).or (world.seen id))

variable {world : World} {table : TransferId → Option ActiveTransfer}

theorem seen_of_same (same : table = world.exchange.transfers) :
    (fun id => (table id).or (world.seen id)) = world.seen := by
  funext id
  rw [same]
  cases held : world.exchange.transfers id with
  | none => rfl
  | some transfer => exact (world.current id transfer held).symm

theorem seen_of_update {target : TransferId} {entry : Option ActiveTransfer}
    (updated : table = Function.update world.exchange.transfers target entry) :
    (fun id => (table id).or (world.seen id)) =
      Function.update world.seen target (entry.or (world.seen target)) := by
  funext id
  rw [updated]
  obtain rfl | its := eq_or_ne id target
  · rw [Function.update_self, Function.update_self]
  · rw [Function.update_of_ne its, Function.update_of_ne its]
    exact congrFun (seen_of_same rfl) id

/-- What leaves the table is remembered. -/
theorem seen_gcFinishedTransfers (world : World) :
    (fun id => ((gcFinishedTransfers world.exchange).transfers id).or (world.seen id)) =
      world.seen := by
  funext id
  cases kept : (gcFinishedTransfers world.exchange).transfers id with
  | none => rfl
  | some transfer =>
    obtain ⟨held, _⟩ := Option.filter_eq_some_iff.mp kept
    exact (world.current id transfer held).symm

/-- What the calls do to the last entries. -/
theorem seen_call (world : World) (made : FileExchange.Call) (now : Moment)
    (once : single made = true) :
    (fun id => ((FileExchange.call blake3 scheme crc32 world.exchange now made).2.transfers id).or
      (world.seen id)) = (Touch.ofCall made).entries world := by
  cases made with
  | fetchFile request id | finishReceived header sender finalPath => cases once
  | shareFile request id | updateProgress id bytesTransferred speedBps
  | failTransfer id reason => exact seen_of_update rfl
  | cancelTransfer id => exact seen_of_update transfers_cancelTransfer
  | pauseTransfer id =>
    exact seen_of_update (transfers_switchTransfer .running .paused)
  | resumeTransfer id =>
    exact seen_of_update (transfers_switchTransfer .paused .running)
  | completeTransfer id => exact seen_of_update transfers_completeTransfer
  | gcFinishedTransfers => exact seen_gcFinishedTransfers world
  | _ => exact seen_of_same ((call_frame blake3 scheme crc32 world.exchange now _).transfers rfl)

/-- What a step does to the last entries. -/
theorem seen_apply (world : World) (action : Action) (isEnabled : enabled action) :
    (apply blake3 scheme crc32 world action).seen = (touch action).entries world := by
  cases action with
  | call made now => exact seen_call world made now isEnabled
  | beginFetch request id | startFetch id sender fileSize
  | enterReceived stream header sender finalPath => exact seen_of_update rfl
  | completeReceived stream header =>
    exact seen_of_update transfers_completeTransfer

end Tables

/-! ### When a step keeps what it should -/

section Conditions

variable {world : World} {id : TransferId}

theorem absorbs_update_iff {entry : Option ActiveTransfer} :
    Absorbs world.seen (Function.update world.seen id entry) ↔
      ∀ transfer, world.seen id = some transfer → terminal transfer.state = true →
        ∃ later, entry = some later ∧ later.state = transfer.state := by
  constructor
  · intro absorbs transfer held finished
    have kept := absorbs id transfer held finished
    rwa [Function.update_self] at kept
  · intro kept other transfer held finished
    obtain rfl | its := eq_or_ne other id
    · rw [Function.update_self]
      exact kept transfer held finished
    · exact ⟨transfer, by rw [Function.update_of_ne its, held], rfl⟩

/-- A transfer that has just begun takes the place of the entry. -/
theorem absorbs_enter_iff {owner : Owner} {begun : ActiveTransfer}
    (fresh : terminal begun.state = false) :
    Absorbs world.seen ((Touch.enter owner begun).entries world) ↔
      Vacant world begun.transferId := by
  rw [Touch.entries, absorbs_update_iff]
  constructor
  · intro kept transfer held
    by_contra finished
    rw [Bool.not_eq_false] at finished
    obtain ⟨later, same, state⟩ := kept transfer held finished
    cases same
    simp [← state, fresh] at finished
  · intro vacant transfer held finished
    simp [vacant transfer held] at finished

variable {update : ActiveTransfer → ActiveTransfer}

/-- Only an entry that is in the table changes. -/
theorem absorbs_change_iff :
    Absorbs world.seen ((Touch.change id update).entries world) ↔
      ∀ transfer, world.exchange.transfers id = some transfer →
        terminal transfer.state = true → (update transfer).state = transfer.state := by
  rw [Touch.entries, absorbs_update_iff]
  constructor
  · intro kept transfer held finished
    obtain ⟨later, changed, state⟩ := kept transfer (world.current id transfer held) finished
    rw [held] at changed
    cases changed
    exact state
  · intro kept transfer remembered finished
    cases held : world.exchange.transfers id with
    | none => exact ⟨transfer, remembered, rfl⟩
    | some entry =>
      have same := world.current id entry held
      rw [remembered] at same
      cases same
      exact ⟨update transfer, rfl, kept transfer held finished⟩

/-- A state that is given without a look at the one it replaces. -/
theorem absorbs_given_iff {state : TransferState}
    (given : ∀ transfer, (update transfer).state = state) :
    Absorbs world.seen ((Touch.change id update).entries world) ↔
      Unfinished world.exchange id state := by
  rw [absorbs_change_iff]
  constructor
  · intro kept transfer held finished
    exact (kept transfer held finished).symm.trans (given transfer)
  · intro unfinished transfer held finished
    exact (given transfer).trans (unfinished transfer held finished).symm

/-- A change that looks for a state which is not terminal. -/
theorem absorbs_of_switched (kept : ∀ transfer, terminal transfer.state = true →
      (update transfer).state = transfer.state) :
    Absorbs world.seen ((Touch.change id update).entries world) := by
  rw [absorbs_change_iff]
  intro transfer _ finished
  exact kept transfer finished

theorem absorbs_refl {table : TransferId → Option ActiveTransfer} : Absorbs table table := by
  intro id transfer held _
  exact ⟨transfer, held, rfl⟩

theorem Absorbs.trans {first second third : TransferId → Option ActiveTransfer}
    (before : Absorbs first second) (after : Absorbs second third) : Absorbs first third := by
  intro id transfer held finished
  obtain ⟨later, heldLater, state⟩ := before id transfer held finished
  obtain ⟨last, heldLast, stateLast⟩ := after id later heldLater (by rw [state, finished])
  exact ⟨last, heldLast, stateLast.trans state⟩

/-- A state that is looked for is not a finished one. -/
theorem state_switched {transfer : ActiveTransfer} {source : TransferState}
    (target : TransferState) (live : terminal source = false)
    (finished : terminal transfer.state = true) :
    (if transfer.state = source then { transfer with state := target } else transfer).state =
      transfer.state := by
  have other : transfer.state ≠ source := by
    intro same
    simp [same, live] at finished
  rw [if_neg other]

theorem absorbs_call_iff {made : FileExchange.Call} (now : Moment) (once : single made = true) :
    Absorbs world.seen ((Touch.ofCall made).entries world) ↔ Orderly world (.call made now) := by
  cases made with
  | fetchFile request id | finishReceived header sender finalPath => cases once
  | shareFile request id => exact absorbs_enter_iff rfl
  | cancelTransfer id | completeTransfer id | failTransfer id reason =>
    exact absorbs_given_iff fun _ => rfl
  | pauseTransfer id =>
    exact iff_of_true (absorbs_of_switched fun transfer =>
      state_switched .paused rfl) trivial
  | resumeTransfer id =>
    exact iff_of_true (absorbs_of_switched fun transfer =>
      state_switched .running rfl) trivial
  | updateProgress id bytesTransferred speedBps =>
    refine iff_of_true (absorbs_of_switched fun transfer finished => ?_) trivial
    have other : transfer.state ≠ .queued := by
      intro same
      rw [same] at finished
      cases finished
    exact if_neg other
  | _ => exact iff_of_true absorbs_refl trivial

end Conditions

section Incoming

variable (blake3 : List UInt8 → Bytes 32) (scheme : Scheme) (crc32 : List UInt8 → UInt32)
variable (world : World)

theorem spares_enterReceived_iff (stream : Nat) (header : TransferHeader) (sender : PeerId)
    (finalPath : PathBuf) :
    Spares stream world
        (apply blake3 scheme crc32 world (.enterReceived stream header sender finalPath)) ↔
      ∀ transfer, world.seen header.transferId = some transfer →
        world.owner header.transferId = some (.incoming stream) := by
  have seenAfter := @seen_apply blake3 scheme crc32 world
    (.enterReceived stream header sender finalPath) trivial
  constructor
  · intro spares transfer held
    by_contra foreign
    obtain ⟨_, same⟩ := spares header.transferId transfer held foreign
    have taken : (apply blake3 scheme crc32 world
        (.enterReceived stream header sender finalPath)).owner header.transferId =
          some (.incoming stream) := Function.update_self ..
    exact foreign (same.symm.trans taken)
  · intro mine id transfer held foreign
    have other : id ≠ header.transferId := by
      rintro rfl
      exact foreign (mine transfer held)
    refine ⟨?_, Function.update_of_ne other ..⟩
    rw [seenAfter]
    exact (Function.update_of_ne other ..).trans held

theorem spares_completeReceived_iff (stream : Nat) (header : TransferHeader) :
    Spares stream world (apply blake3 scheme crc32 world (.completeReceived stream header)) ↔
      ∀ transfer, world.exchange.transfers header.transferId = some transfer →
        world.owner header.transferId = some (.incoming stream) ∨
          transfer.state = .completed ∧ transfer.bytesTransferred = transfer.fileSize := by
  have seenAfter := @seen_apply blake3 scheme crc32 world (.completeReceived stream header) trivial
  constructor
  · intro spares transfer held
    by_cases mine : world.owner header.transferId = some (.incoming stream)
    · exact .inl mine
    · obtain ⟨kept, _⟩ := spares header.transferId transfer (world.current _ _ held) mine
      rw [seenAfter, touch, Touch.entries, Function.update_self, held] at kept
      have unchanged := Option.some.inj kept
      exact .inr ⟨(congrArg ActiveTransfer.state unchanged).symm,
        (congrArg ActiveTransfer.bytesTransferred unchanged).symm⟩
  · intro settled id transfer remembered foreign
    refine ⟨?_, rfl⟩
    rw [seenAfter, touch, Touch.entries]
    obtain rfl | its := eq_or_ne id header.transferId
    · rw [Function.update_self]
      cases held : world.exchange.transfers header.transferId with
      | none => exact remembered
      | some entry =>
        have same := world.current _ entry held
        rw [remembered] at same
        cases same
        obtain ⟨state, bytes⟩ := (settled transfer held).resolve_left foreign
        have unchanged : { transfer with
            state := .completed
            bytesTransferred := transfer.fileSize } = transfer := by
          cases transfer
          cases state
          cases bytes
          rfl
        exact congrArg some unchanged
    · exact (Function.update_of_ne its ..).trans remembered

theorem keeps_iff {action : Action} (isEnabled : enabled action) :
    Keeps world action (apply blake3 scheme crc32 world action) ↔ Orderly world action := by
  have seenAfter := @seen_apply blake3 scheme crc32 world action isEnabled
  cases action with
  | call made now =>
    rw [← absorbs_call_iff now isEnabled, Keeps, seenAfter]
    exact and_iff_left fun _ impossible => nomatch impossible
  | beginFetch request id =>
    rw [Keeps, seenAfter]
    exact (and_iff_left (fun _ impossible => nomatch impossible)).trans (absorbs_enter_iff rfl)
  | startFetch id sender fileSize =>
    rw [Keeps, seenAfter]
    exact (and_iff_left (fun _ impossible => nomatch impossible)).trans
      (absorbs_given_iff fun _ => rfl)
  | enterReceived number header sender finalPath =>
    have absorbed : Absorbs world.seen
        (apply blake3 scheme crc32 world (.enterReceived number header sender finalPath)).seen ↔
          Vacant world header.transferId := by
      rw [seenAfter]
      exact absorbs_enter_iff rfl
    rw [Keeps, absorbed, Orderly,
      ← spares_enterReceived_iff blake3 scheme crc32 world number header sender finalPath]
    exact and_congr_right fun _ => ⟨fun spares => spares number rfl, fun spares _ its => by
      cases its
      exact spares⟩
  | completeReceived number header =>
    have absorbed : Absorbs world.seen
        (apply blake3 scheme crc32 world (.completeReceived number header)).seen ↔
          Unfinished world.exchange header.transferId .completed := by
      rw [seenAfter]
      exact absorbs_given_iff fun _ => rfl
    rw [Keeps, absorbed, Orderly,
      ← spares_completeReceived_iff blake3 scheme crc32 world number header]
    exact and_congr_right fun _ => ⟨fun spares => spares number rfl, fun spares _ its => by
      cases its
      exact spares⟩

/-- Along a run of orderly steps, what has finished stays as it finished. -/
theorem absorbs_run {later : World} (run : Run (system blake3 scheme crc32) Orderly world later) :
    Absorbs world.seen later.seen := by
  induction run with
  | start => exact absorbs_refl
  | next past action isEnabled met ih =>
    have kept := (keeps_iff blake3 scheme crc32 _ isEnabled).mpr met
    exact ih.trans kept.1

/-- A step keeps the states of finished transfers, and an incoming transfer the entries of
others, exactly if it is orderly; where every step is, a finished transfer has its state in
every world that the run reaches. -/
theorem finished_transfers_stay_iff (action : Action) (isEnabled : enabled action) :
    (Keeps world action (apply blake3 scheme crc32 world action) ↔ Orderly world action) ∧
    ∀ later, Run (system blake3 scheme crc32) Orderly world later →
      Absorbs world.seen later.seen := by
  refine ⟨keeps_iff blake3 scheme crc32 world isEnabled, ?_⟩
  intro later run
  exact absorbs_run blake3 scheme crc32 world run

end Incoming

/-! ### A send, and transfers that come in -/

def moment : Moment := ⟨1000, 0⟩

/-- A file is on its way to a peer. -/
def shared : World :=
  apply (fun _ => zeroHash) stamp (fun _ => 0) (World.new "local")
    (.call (.shareFile ⟨"p", "f", ["f"], 5, 7, .interactive, some "b", 1⟩ "s") moment)

def sent : World :=
  apply (fun _ => zeroHash) stamp (fun _ => 0) shared (.call (.completeTransfer "s") moment)

/-- A transfer under an id of its own leaves the send alone. -/
theorem other_id_keeps_send :
    let arrival : Action := .enterReceived 0 ⟨"r", "q", "g", 9, 2⟩ "m" ["g"]
    enabled arrival ∧
      Keeps sent arrival (apply (fun _ => zeroHash) stamp (fun _ => 0) sent arrival) := by
  intro arrival
  have unseen : sent.seen "r" = none := by decide
  have orderly : Orderly sent arrival := by
    constructor
    · intro transfer held
      simp [unseen] at held
    · intro transfer held
      simp [unseen] at held
  exact ⟨trivial,
    (finished_transfers_stay_iff _ stamp (fun _ => 0) sent arrival trivial).1.mpr orderly⟩

/-- A send that has completed is cancelled; and while it is on its way, a peer that writes
its id into a header puts another file in its place. -/
theorem completed_send_cancelled :
    let step := apply (fun _ => zeroHash) stamp fun _ => 0
    let arrival : Action := .enterReceived 0 ⟨"s", "q", "g", 9, 2⟩ "m" ["g"]
    Reaches (system (fun _ => zeroHash) stamp fun _ => 0) (World.new "local") sent ∧
    (sent.seen "s").map ActiveTransfer.state = some .completed ∧
    ((step sent (.call (.cancelTransfer "s") moment)).seen "s").map ActiveTransfer.state =
      some .cancelled ∧
    Reaches (system (fun _ => zeroHash) stamp fun _ => 0) (World.new "local") shared ∧
    shared.owner "s" = some .own ∧
    (shared.seen "s").map ActiveTransfer.fileId = some "f" ∧
    ((step shared arrival).seen "s").map ActiveTransfer.fileId = some "g" := by
  have begun : Reaches (system (fun _ => zeroHash) stamp fun _ => 0) (World.new "local") shared :=
    .next .start _ rfl trivial
  refine ⟨.next begun _ rfl trivial, by decide, by decide, begun, by decide, by decide, by decide⟩

end Synergos.TransferStates
