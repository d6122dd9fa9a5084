import Synergos.Runs
import Synergos.Identity

/-!
# Two nodes that dial each other

Each node keeps one connection for each peer. Storing a connection replaces the
entry and closes the connection it held; when a task sees its connection closed
it removes the entry, but only if the entry is still that connection. Nothing
orders the stores of the two nodes: each closes what it replaces, whatever the
other has done.

Here two nodes dial each other any number of times. A connection is greeted by
its client and heard by its server, and either side then stores it at some
time; a close by one side reaches the other at some later time, and a server
that has not heard the Hello by then refuses. No connection is closed for any
other reason.
-/

namespace Synergos.Dialling

open Runs Identity Function List

/-! ## The connection map -/

/-- The connection that is owned for each peer, by its number. -/
abbrev Connections := PeerId → Option Nat

/-- Own a connection for a peer. Returns the connection that is to be closed. -/
def storeConnection (connections : Connections) (peer : PeerId) (id : Nat) :
    Connections × Option Nat :=
  (update connections peer (some id), connections peer)

/-- Drop the entry of a closed connection, unless it is another one by now. -/
def removeClosed (connections : Connections) (peer : PeerId) (id : Nat) : Connections :=
  if connections peer = some id then update connections peer none else connections

/-! ## The two nodes -/

inductive Side where
  | left | right
  deriving DecidableEq, Repr

def Side.other : Side → Side
  | .left => .right
  | .right => .left

inductive ClientStage where
  | dialing | greeted | stored | failed
  deriving DecidableEq, Repr

inductive ServerStage where
  | waiting | heard | stored | failed
  deriving DecidableEq, Repr

structure Connection where
  opener : Side
  client : ClientStage
  server : ServerStage
  /-- The sides that have closed it. -/
  closed : Side → Bool
  /-- The sides that see it closed. -/
  knows : Side → Bool

def Connection.fresh (opener : Side) : Connection :=
  ⟨opener, .dialing, .waiting, fun _ => false, fun _ => false⟩

/-- The task of this side has put the connection into its map. -/
def Connection.StoredAt (connection : Connection) (side : Side) : Prop :=
  if side = connection.opener then connection.client = .stored else connection.server = .stored

def Connection.markStored (side : Side) (connection : Connection) : Connection :=
  if side = connection.opener then { connection with client := .stored }
  else { connection with server := .stored }

def Connection.close (side : Side) (connection : Connection) : Connection :=
  { connection with
    closed := update connection.closed side true
    knows := update connection.knows side true }

def Connection.notify (side : Side) (connection : Connection) : Connection :=
  { connection with knows := update connection.knows side true }

structure World where
  connections : Nat → Option Connection
  map : Side → Connections
  /-- What each side has stored, in order. -/
  log : Side → List Nat

def World.start : World := ⟨fun _ => none, fun _ _ => none, fun _ => []⟩

def World.modify (world : World) (id : Nat) (change : Connection → Connection) : World :=
  { world with
    connections := fun other =>
      if other = id then (world.connections id).map change else world.connections other }

inductive Action where
  | dial (opener : Side) (id : Nat)
  | abort (id : Nat)
  | greet (id : Nat)
  | hear (id : Nat)
  | refuse (id : Nat)
  | store (side : Side) (id : Nat)
  | notify (side : Side) (id : Nat)
  | cleanup (side : Side) (id : Nat)

section System

variable (name : Side → PeerId)

/-- The connection that a side owns for the other one. -/
def World.entry (world : World) (side : Side) : Option Nat := world.map side (name side.other)

/-- When a task takes its next step. A server hears what the client has sent and
refuses only a connection that the client has closed. -/
def enabled (world : World) : Action → Prop
  | .dial _ id => world.connections id = none
  | .abort id => ∃ found, world.connections id = some found ∧ found.client = .dialing ∧
      found.server = .waiting
  | .greet id => ∃ found, world.connections id = some found ∧ found.client = .dialing
  | .hear id => ∃ found, world.connections id = some found ∧ found.server = .waiting ∧
      (found.client = .greeted ∨ found.client = .stored)
  | .refuse id => ∃ found, world.connections id = some found ∧ found.server = .waiting ∧
      found.closed found.opener = true
  | .store side id => ∃ found, world.connections id = some found ∧
      if side = found.opener then found.client = .greeted else found.server = .heard
  | .notify side id => ∃ found, world.connections id = some found ∧
      found.closed side.other = true
  | .cleanup side id => ∃ found, world.connections id = some found ∧ found.StoredAt side ∧
      found.knows side = true

/-- Close the connection that an entry held. -/
def closePrevious (world : World) (side : Side) : Option Nat → World
  | some previous => world.modify previous (Connection.close side)
  | none => world

/-- Own the connection and close the one that the entry held. -/
def store (world : World) (side : Side) (id : Nat) : World where
  connections := (closePrevious (world.modify id (Connection.markStored side)) side
    (storeConnection (world.map side) (name side.other) id).2).connections
  map := update world.map side
    (storeConnection (world.map side) (name side.other) id).1
  log := update world.log side (world.log side ++ [id])

def apply (world : World) : Action → World
  | .dial opener id =>
      { world with connections := update world.connections id (some (.fresh opener)) }
  | .abort id => world.modify id fun found => { found with client := .failed, server := .failed }
  | .greet id => world.modify id fun found => { found with client := .greeted }
  | .hear id => world.modify id fun found => { found with server := .heard }
  | .refuse id => world.modify id fun found => { found with server := .failed }
  | .store side id => store name world side id
  | .notify side id => world.modify id (Connection.notify side)
  | .cleanup side id =>
      { world with
        map := update world.map side
          (removeClosed (world.map side) (name side.other) id) }

def system : System World Action := ⟨enabled, apply name⟩

/-- Every handshake, store, close and clean-up is done. -/
def Quiescent (world : World) : Prop :=
  ∀ id found, world.connections id = some found →
    (found.client = .stored ∨ found.client = .failed) ∧
    (found.server = .stored ∨ found.server = .failed) ∧
    (∀ side, found.closed side = true → found.knows side.other = true) ∧
    (∀ side, found.StoredAt side → found.knows side = true → world.entry name side ≠ some id)

/-- Both nodes own the same connection, and neither has closed it. -/
def Agreed (world : World) : Prop :=
  ∃ id found, world.connections id = some found ∧
    ∀ side, world.entry name side = some id ∧ found.closed side = false

/-- A node does not store a connection over one that the other node has stored
after it. -/
def InOrder (world : World) : Action → Prop
  | .store side id => ∀ earlier ∈ world.log side, ¬ [id, earlier].Sublist (world.log side.other)
  | _ => True

end System

section Proofs

variable {name : Side → PeerId}

/-! ## What holds in every run that keeps the order -/

structure Sound (name : Side → PeerId) (world : World) : Prop where
  logged : ∀ side id, id ∈ world.log side ↔
    ∃ found, world.connections id = some found ∧ found.StoredAt side
  entry : ∀ side id, world.entry name side = some id → (world.log side).getLast? = some id
  last : ∀ side id, (world.log side).getLast? = some id → world.entry name side = some id ∨
    ∃ found, world.connections id = some found ∧ found.closed side.other = true
  closed : ∀ id found side, world.connections id = some found → found.closed side = true →
    id ∈ world.log side ∧ (world.log side).getLast? ≠ some id
  known : ∀ id found side, world.connections id = some found → found.knows side = true →
    ∃ closer, found.closed closer = true
  refused : ∀ id found, world.connections id = some found → found.server = .failed →
    found.client = .failed ∨ found.closed found.opener = true
  heard : ∀ id found, world.connections id = some found →
    found.server = .heard ∨ found.server = .stored →
    found.client = .greeted ∨ found.client = .stored
  ordered : ∀ earlier later, [earlier, later].Sublist (world.log .left) →
    ¬ [later, earlier].Sublist (world.log .right)

variable {earlier later : Nat} (world : World) (connection : Connection) (side node : Side)
  (id other : Nat) (found : Connection)

theorem modify_connections (change : Connection → Connection) :
    (world.modify id change).connections other =
      (world.connections other).map (if other = id then change else fun found => found) := by
  unfold World.modify
  obtain rfl | same := eq_or_ne other id
  · simp
  · simp [same]

/-- What the invariant says of one connection. -/
structure Fits (log : Side → List Nat) (id : Nat) (found : Connection) : Prop where
  closed : ∀ side, found.closed side = true → id ∈ log side ∧ (log side).getLast? ≠ some id
  known : ∀ side, found.knows side = true → ∃ closer, found.closed closer = true
  refused : found.server = .failed → found.client = .failed ∨ found.closed found.opener = true
  heard : found.server = .heard ∨ found.server = .stored →
    found.client = .greeted ∨ found.client = .stored

theorem Sound.fits {world : World} (sound : Sound name world) {id : Nat} {found : Connection}
    (present : world.connections id = some found) : Fits world.log id found where
  closed side := sound.closed id found side present
  known side := sound.known id found side present
  refused := sound.refused id found present
  heard := sound.heard id found present

theorem Sound.of_fits {world : World}
    (logged : ∀ side id, id ∈ world.log side ↔
      ∃ found, world.connections id = some found ∧ found.StoredAt side)
    (entry : ∀ side id, world.entry name side = some id → (world.log side).getLast? = some id)
    (last : ∀ side id, (world.log side).getLast? = some id → world.entry name side = some id ∨
      ∃ found, world.connections id = some found ∧ found.closed side.other = true)
    (each : ∀ id found, world.connections id = some found → Fits world.log id found)
    (ordered : ∀ earlier later, [earlier, later].Sublist (world.log .left) →
      ¬ [later, earlier].Sublist (world.log .right)) : Sound name world where
  logged := logged
  entry := entry
  last := last
  closed id found side present := (each id found present).closed side
  known id found side present := (each id found present).known side
  refused id found present := (each id found present).refused
  heard id found present := (each id found present).heard
  ordered := ordered

/-- A connection takes the place of one that was stored at the same sides. -/
theorem Sound.update {world : World} (sound : Sound name world) {id : Nat} {found : Connection}
    (stored : ∀ side, found.StoredAt side ↔
      ∃ old, world.connections id = some old ∧ old.StoredAt side)
    (closed : ∀ old, world.connections id = some old → found.closed = old.closed)
    (fits : Fits world.log id found) :
    Sound name { world with connections := update world.connections id (some found) } := by
  refine .of_fits ?_ sound.entry ?_ ?_ sound.ordered
  · intro side other
    refine (sound.logged side other).trans ?_
    obtain rfl | same := eq_or_ne other id
    · simp [stored]
    · simp [same]
  · intro side other final
    rcases sound.last side other final with owned | ⟨old, present, closer⟩
    · exact .inl owned
    · right
      obtain rfl | same := eq_or_ne other id
      · exact ⟨found, update_self .., closed old present ▸ closer⟩
      · exact ⟨old, (update_of_ne same ..).trans present, closer⟩
  · intro other found' present'
    obtain rfl | same := eq_or_ne other id
    · obtain rfl : found = found' := by simpa using present'
      exact fits
    · exact sound.fits ((update_of_ne same ..).symm.trans present')

/-- A task's own step changes no log, no map and no close. -/
theorem Sound.modify {world : World} (sound : Sound name world) {id : Nat} {found : Connection}
    (present : world.connections id = some found) (change : Connection → Connection)
    (stored : ∀ side, (change found).StoredAt side ↔ found.StoredAt side)
    (closed : (change found).closed = found.closed) (fits : Fits world.log id (change found)) :
    Sound name (world.modify id change) := by
  have changed : world.modify id change =
      { world with connections := Function.update world.connections id (some (change found)) } := by
    unfold World.modify
    congr 1
    funext other
    simp [update_apply, present]
  rw [changed]
  exact sound.update (by simp [present, stored]) (by simp [present, closed]) fits

/-! ### Storing -/

theorem Side.other_ne : side.other ≠ side := by cases side <;> decide

theorem Side.eq_or_other : node = side ∨ node = side.other := by
  cases side <;> cases node <;> simp [Side.other]

@[simp]
theorem markStored_here : (connection.markStored side).StoredAt side := by
  by_cases opener : side = connection.opener <;>
    simp [Connection.markStored, Connection.StoredAt, opener]

theorem markStored_there {side node : Side} (apart : node ≠ side) :
    (connection.markStored side).StoredAt node ↔ connection.StoredAt node := by
  obtain ⟨opener, client, server, closed, knows⟩ := connection
  cases opener <;> cases side <;> cases node <;>
    simp_all [Connection.markStored, Connection.StoredAt]

/-- What storing a connection does to a connection. -/
def settle (name : Side → PeerId) (world : World) (side : Side) (id other : Nat)
    (found : Connection) : Connection :=
  let found := if other = id then found.markStored side else found
  if world.entry name side = some other then found.close side else found

theorem store_connections :
    (store name world side id).connections other =
      (world.connections other).map (settle name world side id other) := by
  simp only [store, storeConnection]
  cases held : world.map side (name side.other) with
  | none =>
    have entry : world.entry name side = none := held
    simp only [closePrevious, modify_connections]
    congr 1
    funext found
    by_cases same : other = id <;> simp [settle, entry, same]
  | some previous =>
    have entry : world.entry name side = some previous := held
    simp only [closePrevious, modify_connections, Option.map_map]
    congr 1
    funext found
    obtain rfl | old := eq_or_ne other previous <;> obtain rfl | same := eq_or_ne other id <;>
      simp [*, settle, Ne.symm]

theorem store_log : (store name world side id).log node =
    if node = side then world.log side ++ [id] else world.log node :=
  update_apply ..

theorem store_entry : (store name world side id).entry name node =
    if node = side then some id else world.entry name node := by
  unfold World.entry
  split_ifs with here
  · simp [store, storeConnection, here]
  · simp [store, here]

@[simp]
theorem close_storedAt : (connection.close side).StoredAt node ↔ connection.StoredAt node := Iff.rfl

/-- The stages after a store: stored here for the connection itself, and
unchanged for all others. -/
theorem settle_storedAt :
    (settle name world side id other found).StoredAt node ↔
      (other = id ∧ node = side) ∨ found.StoredAt node := by
  unfold settle
  obtain rfl | same := eq_or_ne other id <;> by_cases here : node = side <;>
    by_cases held : world.entry name side = some other <;>
    simp_all [markStored_there]

@[simp]
theorem markStored_closed : (connection.markStored side).closed = connection.closed := by
  unfold Connection.markStored
  split <;> rfl

@[simp]
theorem markStored_knows : (connection.markStored side).knows = connection.knows := by
  unfold Connection.markStored
  split <;> rfl

/-- The closes after a store: the replaced connection is closed here. -/
theorem settle_closed :
    (settle name world side id other found).closed node = true ↔
      (world.entry name side = some other ∧ node = side) ∨ found.closed node = true := by
  unfold settle
  obtain rfl | same := eq_or_ne other id <;> by_cases here : node = side <;>
    by_cases held : world.entry name side = some other <;>
    simp [*, Connection.close]

theorem settle_knows (sees : (settle name world side id other found).knows node = true) :
    (settle name world side id other found).closed side = true ∨ found.knows node = true := by
  rw [settle_closed]
  by_cases held : world.entry name side = some other
  · exact .inl (.inl ⟨held, rfl⟩)
  · by_cases same : other = id <;> simp_all [settle]

/-- The stages of the other connections, and of this one apart from its own. -/
theorem settle_stages (world : World) (side : Side) (id other : Nat) (found : Connection) :
    (settle name world side id other found).opener = found.opener ∧
    (settle name world side id other found).client =
      (if other = id ∧ side = found.opener then .stored else found.client) ∧
    (settle name world side id other found).server =
      (if other = id ∧ side ≠ found.opener then .stored else found.server) := by
  unfold settle
  obtain rfl | same := eq_or_ne other id <;> by_cases opener : side = found.opener <;>
    by_cases held : world.entry name side = some other <;>
    simp_all [Connection.markStored, Connection.close]

/-- The pairs of a list in order, after one more element. -/
theorem pair_sublist_append {id : Nat} {log : List Nat}
    (pair : [earlier, later].Sublist (log ++ [id])) :
    [earlier, later].Sublist log ∨ (later = id ∧ earlier ∈ log) := by
  obtain ⟨front, back, form, inFront, inBack⟩ := sublist_append_iff.mp pair
  rcases front with _ | ⟨first, _ | ⟨second, rest⟩⟩
  · rw [nil_append] at form
    subst form
    exact absurd inBack.length_le (by simp)
  · obtain ⟨rfl, rfl⟩ := cons.inj form
    exact .inr ⟨by simpa using inBack, by simpa using inFront⟩
  · obtain ⟨rfl, tail⟩ := cons.inj form
    obtain ⟨rfl, empty⟩ := cons.inj tail
    obtain ⟨rfl, rfl⟩ := append_eq_nil_iff.mp empty.symm
    exact .inl inFront

/-- An element before the last one. -/
theorem pair_of_last {log : List Nat} (final : log.getLast? = some later)
    (present : earlier ∈ log) (apart : earlier ≠ later) : [earlier, later].Sublist log := by
  obtain ⟨front, rfl⟩ := List.getLast?_eq_some_iff.mp final
  have inFront : earlier ∈ front := by
    rcases mem_append.mp present with inside | tail
    · exact inside
    · exact absurd (mem_singleton.mp tail) apart
  exact (singleton_sublist.mpr inFront).append (List.Sublist.refl [later])

theorem not_logged {world : World} (sound : Sound name world) {side : Side} {id : Nat}
    {found : Connection} (present : world.connections id = some found)
    (ready : if side = found.opener then found.client = .greeted else found.server = .heard) :
    id ∉ world.log side := by
  intro inside
  obtain ⟨found', present', stored⟩ := (sound.logged side id).mp inside
  obtain rfl := Option.some.inj (present.symm.trans present')
  unfold Connection.StoredAt at stored
  split at stored
  · rename_i opener
    simp [if_pos opener, stored] at ready
  · rename_i opener
    simp [if_neg opener, stored] at ready

theorem Sound.fits_settle {world : World} (sound : Sound name world) {side : Side} {id : Nat}
    {found : Connection} (present : world.connections id = some found)
    (ready : if side = found.opener then found.client = .greeted else found.server = .heard)
    {other : Nat} {old : Connection} (presentOld : world.connections other = some old) :
    Fits (store name world side id).log other (settle name world side id other old) := by
  have fits := sound.fits presentOld
  obtain ⟨opener, client, server⟩ := @settle_stages name world side id other old
  constructor
  · intro node closer
    have logged : (world.entry name side = some other ∧ node = side) ∨
        (other ∈ world.log node ∧ (world.log node).getLast? ≠ some other) :=
      ((settle_closed world side node id other old).mp closer).imp_right (fits.closed node)
    rw [store_log]
    split_ifs with here
    · subst here
      have inside : other ∈ world.log node := by
        rcases logged with ⟨owned, _⟩ | ⟨inside, _⟩
        · exact mem_of_getLast? (sound.entry _ _ owned)
        · exact inside
      rw [List.getLast?_concat]
      refine ⟨mem_append_left _ inside, ?_⟩
      intro same
      obtain rfl := Option.some.inj same
      exact not_logged sound present ready inside
    · exact logged.resolve_left fun replaced => here replaced.2
  · intro node sees
    rcases settle_knows world side node id other old sees with closer | earlier
    · exact ⟨side, closer⟩
    · obtain ⟨closer, closed⟩ := fits.known node earlier
      exact ⟨closer, (settle_closed ..).mpr (.inr closed)⟩
  · intro failed
    rw [server] at failed
    have oldFailed : old.server = .failed := by
      split at failed
      · cases failed
      · exact failed
    rw [opener]
    rcases fits.refused oldFailed with aborted | closed
    · by_cases own : other = id ∧ side = old.opener
      · obtain ⟨rfl, here⟩ := own
        obtain rfl := Option.some.inj (present.symm.trans presentOld)
        simp [if_pos here, aborted] at ready
      · exact .inl (by rw [client, if_neg own, aborted])
    · exact .inr ((settle_closed ..).mpr (.inr closed))
  · intro received
    by_cases own : other = id ∧ side = old.opener
    · exact .inr (by rw [client, if_pos own])
    · rw [client, if_neg own]
      by_cases heard : other = id ∧ side ≠ old.opener
      · obtain ⟨rfl, there⟩ := heard
        obtain rfl := Option.some.inj (present.symm.trans presentOld)
        rw [if_neg there] at ready
        exact fits.heard (.inl ready)
      · rw [server, if_neg heard] at received
        exact fits.heard received

theorem sound_store (sound : Sound name world) (side : Side) (id : Nat)
    (possible : enabled world (.store side id)) (kept : InOrder world (.store side id)) :
    Sound name (store name world side id) := by
  obtain ⟨found, present, ready⟩ := possible
  refine .of_fits ?_ ?_ ?_ ?_ ?_
  · intro node other
    have itself : (∃ old, world.connections other = some old ∧ other = id ∧ node = side) ↔
        other = id ∧ node = side := by
      refine ⟨fun ⟨_, _, same⟩ => same, ?_⟩
      rintro ⟨rfl, rfl⟩
      exact ⟨found, present, rfl, rfl⟩
    simp only [store_connections, Option.map_eq_some_iff, exists_exists_and_eq_and,
      settle_storedAt, and_or_left, exists_or, itself, ← sound.logged, store_log]
    split_ifs with here
    · simp [here, or_comm]
    · simp [here]
  · intro node other owned
    rw [store_entry] at owned
    rw [store_log]
    split_ifs at owned ⊢ with here
    · rw [List.getLast?_concat, owned]
    · exact sound.entry node other owned
  · intro node other final
    rw [store_log] at final
    rw [store_entry]
    split_ifs at final ⊢ with here
    · rw [List.getLast?_concat] at final
      exact .inl final
    · rcases sound.last node other final with owned | ⟨old, presentOld, closer⟩
      · exact .inl owned
      · exact .inr ⟨_, by rw [store_connections, presentOld]; rfl,
          (settle_closed ..).mpr (.inr closer)⟩
  · intro other found' present'
    rw [store_connections] at present'
    obtain ⟨old, presentOld, rfl⟩ := Option.map_eq_some_iff.mp present'
    exact sound.fits_settle present ready presentOld
  · intro earlier later leftPair rightPair
    cases side with
    | left =>
      rcases @pair_sublist_append _ _ id (world.log .left) leftPair with old | ⟨rfl, inside⟩
      · exact sound.ordered earlier later old rightPair
      · exact kept earlier inside rightPair
    | right =>
      rcases @pair_sublist_append _ _ id (world.log .right) rightPair with old | ⟨rfl, inside⟩
      · exact sound.ordered earlier later leftPair old
      · exact kept later inside leftPair

theorem sound_start : Sound name World.start := by
  refine ⟨?_, ?_, ?_, ?_, ?_, ?_, ?_, ?_⟩ <;> simp [World.start, World.entry]

theorem sound_dial (sound : Sound name world) (opener : Side) (id : Nat)
    (unused : world.connections id = none) : Sound name (apply name world (.dial opener id)) := by
  refine sound.update ?_ (by simp [unused]) (by constructor <;> simp [Connection.fresh])
  intro side
  by_cases client : side = opener <;>
    simp [Connection.StoredAt, Connection.fresh, client, unused]

/-- Dropping an entry is sound when its connection is seen closed: the side
itself closes only what it has replaced. -/
theorem sound_cleanup (sound : Sound name world) {side : Side} {id : Nat}
    {found : Connection} (present : world.connections id = some found)
    (sees : found.knows side = true) : Sound name (apply name world (.cleanup side id)) := by
  have entry (node : Side) : (apply name world (.cleanup side id)).entry name node =
      if node = side ∧ world.entry name node = some id then none else world.entry name node := by
    unfold World.entry
    obtain rfl | apart := eq_or_ne node side
    · by_cases same : world.map node (name node.other) = some id <;>
        simp [apply, removeClosed, same]
    · simp [apply, apart]
  refine ⟨sound.logged, ?_, ?_, sound.closed, sound.known, sound.refused, sound.heard,
    sound.ordered⟩
  · intro node other owned
    rw [entry] at owned
    split_ifs at owned
    exact sound.entry node other owned
  · intro node other final
    rw [entry]
    split_ifs with dropped
    · obtain ⟨rfl, same⟩ := dropped
      right
      obtain rfl : id = other := Option.some.inj ((sound.entry node id same).symm.trans final)
      obtain ⟨closer, closed⟩ := sound.known id found node present sees
      rcases Side.eq_or_other node closer with rfl | rfl
      · exact absurd final (sound.closed id found closer present closed).2
      · exact ⟨found, present, closed⟩
    · exact sound.last node other final

theorem sound_step (action : Action) (possible : enabled world action)
    (kept : InOrder world action) (sound : Sound name world) :
    Sound name (apply name world action) := by
  cases action with
  | dial opener id => exact sound_dial world sound opener id possible
  | abort id =>
    obtain ⟨found, present, client, server⟩ := possible
    have fits := sound.fits present
    refine sound.modify present _ ?_ rfl
      { fits with refused := fun _ => .inl rfl, heard := by simp }
    intro side
    simp only [Connection.StoredAt]
    split <;> simp [client, server]
  | greet id =>
    obtain ⟨found, present, client⟩ := possible
    have fits := sound.fits present
    refine sound.modify present _ ?_ rfl
      { fits with refused := fun failed => ?_, heard := fun _ => .inl rfl }
    · intro side
      simp only [Connection.StoredAt]
      split <;> simp [client]
    · rcases fits.refused failed with aborted | closed
      · simp [client] at aborted
      · exact .inr closed
  | hear id =>
    obtain ⟨found, present, server, greeted⟩ := possible
    have fits := sound.fits present
    refine sound.modify present _ ?_ rfl
      { fits with refused := by simp, heard := fun _ => greeted }
    intro side
    simp only [Connection.StoredAt]
    split <;> simp [server]
  | refuse id =>
    obtain ⟨found, present, server, closed⟩ := possible
    have fits := sound.fits present
    refine sound.modify present _ ?_ rfl
      { fits with refused := fun _ => .inr closed, heard := by simp }
    intro side
    simp only [Connection.StoredAt]
    split <;> simp [server]
  | store side id => exact sound_store world sound side id possible kept
  | notify side id =>
    obtain ⟨found, present, closed⟩ := possible
    have fits := sound.fits present
    exact sound.modify present _ (fun _ => Iff.rfl) rfl
      { fits with known := fun _ _ => ⟨side.other, closed⟩ }
  | cleanup side id =>
    obtain ⟨found, present, _, sees⟩ := possible
    exact sound_cleanup world sound present sees

/-! ## Agreement -/

/-- When everything is done, the last connection that a side stored is stored by
the other side too. -/
theorem last_shared {world : World} (sound : Sound name world) (quiet : Quiescent name world)
    {side : Side} {id : Nat} (final : (world.log side).getLast? = some id) :
    id ∈ world.log side.other := by
  obtain ⟨found, present, stored⟩ := (sound.logged side id).mp (mem_of_getLast? final)
  obtain ⟨client, server, _, _⟩ := quiet id found present
  refine (sound.logged side.other id).mpr ⟨found, present, ?_⟩
  unfold Connection.StoredAt at stored ⊢
  by_cases opener : side = found.opener
  · rw [if_pos opener] at stored
    rw [if_neg (fun same => Side.other_ne side (same.trans opener.symm))]
    rcases server with done | failed
    · exact done
    · rcases sound.refused id found present failed with aborted | closed
      · simp [stored] at aborted
      · rw [← opener] at closed
        exact absurd final (sound.closed id found side present closed).2
  · rw [if_neg opener] at stored
    have client' : side.other = found.opener := by
      rcases Side.eq_or_other side found.opener with same | same
      · exact absurd same.symm opener
      · exact same.symm
    rw [if_pos client']
    rcases sound.heard id found present (.inr stored) with greeted | done
    · rcases client with done | failed
      · exact done
      · simp [greeted] at failed
    · exact done

/-- As long as neither node stores a connection over one that the other stored
after it, the nodes agree on an open connection whenever everything is done. -/
theorem agreed_of_in_order (name : Side → PeerId) (world : World)
    (run : Run (system name) InOrder World.start world) (quiet : Quiescent name world)
    (side : Side) (id : Nat) (completed : id ∈ world.log side) : Agreed name world := by
  have sound : Sound name world := run.invariant (Sound name) sound_start
    fun state action possible kept sound => sound_step state action possible kept sound
  have nonempty : world.log side ≠ [] := ne_nil_of_mem completed
  obtain ⟨mine, mineLast⟩ : ∃ mine, (world.log side).getLast? = some mine :=
    ⟨_, List.getLast?_eq_some_getLast nonempty⟩
  have mineShared := last_shared sound quiet mineLast
  obtain ⟨theirs, theirsLast⟩ : ∃ theirs, (world.log side.other).getLast? = some theirs :=
    ⟨_, List.getLast?_eq_some_getLast (ne_nil_of_mem mineShared)⟩
  have theirsShared : theirs ∈ world.log side := by
    have shared := last_shared sound quiet theirsLast
    cases side <;> exact shared
  obtain rfl : theirs = mine := by
    by_contra apart
    have minePair := pair_of_last mineLast theirsShared apart
    have theirsPair := pair_of_last theirsLast mineShared fun same => apart same.symm
    cases side with
    | left => exact sound.ordered _ _ minePair theirsPair
    | right => exact sound.ordered _ _ theirsPair minePair
  have lasts : ∀ node, (world.log node).getLast? = some theirs := by
    intro node
    rcases Side.eq_or_other side node with rfl | rfl
    · exact mineLast
    · exact theirsLast
  obtain ⟨found, present, _⟩ := (sound.logged side theirs).mp theirsShared
  have unclosed : ∀ node, found.closed node = false := by
    intro node
    by_contra closed
    exact (sound.closed theirs found node present (by simpa using closed)).2 (lasts node)
  refine ⟨theirs, found, present, ?_⟩
  intro node
  refine ⟨?_, unclosed node⟩
  rcases sound.last node theirs (lasts node) with owned | ⟨found', present', closed⟩
  · exact owned
  · obtain rfl := Option.some.inj (present.symm.trans present')
    simp [unclosed] at closed

end Proofs

/-! ## Both dial at the same time -/

def sampleName : Side → PeerId
  | .left => "6c31041268f471609c79f5f2dbcc38e4a4ab2f4d"
  | .right => "1027e035b26b605dc6d4b78d07dc29660fcc3498"

/-- Each node dials the other, and both connections are greeted and heard. -/
def bothDial : List Action :=
  [.dial .left 0, .dial .right 1, .greet 0, .greet 1, .hear 0, .hear 1]

/-- Both nodes store the left one's connection first. -/
def sameOrder : List Action :=
  bothDial ++ [.store .left 0, .store .right 0, .store .left 1, .store .right 1,
    .notify .left 0, .notify .right 0, .cleanup .left 0, .cleanup .right 0]

/-- Each node stores its own connection first. -/
def ownFirst : List Action :=
  bothDial ++ [.store .left 0, .store .left 1, .store .right 1, .store .right 0,
    .notify .right 0, .notify .left 1, .cleanup .left 0, .cleanup .left 1, .cleanup .right 0,
    .cleanup .right 1]

theorem sameOrder_admitted : Admitted (system sampleName) InOrder World.start sameOrder := by
  have fresh {side : Side} {id : Nat} {world : World} (empty : world.log side = []) :
      InOrder world (.store side id) := by
    intro earlier inside
    simp [empty] at inside
  refine ⟨rfl, trivial, rfl, trivial, ⟨_, rfl, rfl⟩, trivial, ⟨_, rfl, rfl⟩, trivial,
    ⟨_, rfl, rfl, .inl rfl⟩, trivial, ⟨_, rfl, rfl, .inl rfl⟩, trivial,
    ⟨_, rfl, rfl⟩, fresh rfl, ⟨_, rfl, rfl⟩, fresh rfl, ⟨_, rfl, rfl⟩, ?_, ⟨_, rfl, rfl⟩, ?_,
    ⟨_, rfl, rfl⟩, trivial, ⟨_, rfl, rfl⟩, trivial, ⟨_, rfl, rfl, rfl⟩, trivial,
    ⟨_, rfl, rfl, rfl⟩, trivial, trivial⟩
  · show ∀ earlier ∈ [0], ¬ [1, earlier].Sublist [0]
    decide
  · show ∀ earlier ∈ [0], ¬ [1, earlier].Sublist [0, 1]
    decide

theorem sameOrder_quiescent :
    Quiescent sampleName (sameOrder.foldl (system sampleName).apply World.start) := by
  intro id found present
  match id with
  | 0 =>
    obtain rfl := Option.some.inj present
    refine ⟨.inl rfl, .inl rfl, ?_, ?_⟩
    · rintro (_ | _) _ <;> rfl
    · rintro (_ | _) _ _ <;> exact (by decide : some 1 ≠ some 0)
  | 1 =>
    obtain rfl := Option.some.inj present
    refine ⟨.inl rfl, .inl rfl, ?_, ?_⟩
    · rintro (_ | _) closed <;> cases closed
    · rintro (_ | _) _ sees <;> cases sees
  | rest + 2 => cases present

/-- Both nodes keep the right one's connection. -/
theorem same_order_agreed :
    ∃ world, Run (system sampleName) InOrder World.start world ∧ Quiescent sampleName world ∧
      0 ∈ world.log .left ∧ Agreed sampleName world := by
  have run := Run.follow sameOrder .start sameOrder_admitted
  have completed : 0 ∈ (sameOrder.foldl (system sampleName).apply World.start).log .left := by
    show 0 ∈ [0, 1]
    decide
  exact ⟨_, run, sameOrder_quiescent, completed,
    agreed_of_in_order sampleName _ run sameOrder_quiescent .left 0 completed⟩

theorem ownFirst_admitted :
    Admitted (system sampleName) (fun _ _ => True) World.start ownFirst :=
  ⟨rfl, trivial, rfl, trivial, ⟨_, rfl, rfl⟩, trivial, ⟨_, rfl, rfl⟩, trivial,
    ⟨_, rfl, rfl, .inl rfl⟩, trivial, ⟨_, rfl, rfl, .inl rfl⟩, trivial,
    ⟨_, rfl, rfl⟩, trivial, ⟨_, rfl, rfl⟩, trivial, ⟨_, rfl, rfl⟩, trivial, ⟨_, rfl, rfl⟩, trivial,
    ⟨_, rfl, rfl⟩, trivial, ⟨_, rfl, rfl⟩, trivial, ⟨_, rfl, rfl, rfl⟩, trivial,
    ⟨_, rfl, rfl, rfl⟩, trivial, ⟨_, rfl, rfl, rfl⟩, trivial, ⟨_, rfl, rfl, rfl⟩, trivial, trivial⟩

theorem ownFirst_quiescent :
    Quiescent sampleName (ownFirst.foldl (system sampleName).apply World.start) := by
  have done : (Option.none : Option Nat) ≠ some 0 ∧ (Option.none : Option Nat) ≠ some 1 := by decide
  intro id found present
  match id with
  | 0 =>
    obtain rfl := Option.some.inj present
    refine ⟨.inl rfl, .inl rfl, ?_, ?_⟩
    · rintro (_ | _) _ <;> rfl
    · rintro (_ | _) _ _ <;> exact done.1
  | 1 =>
    obtain rfl := Option.some.inj present
    refine ⟨.inl rfl, .inl rfl, ?_, ?_⟩
    · rintro (_ | _) _ <;> rfl
    · rintro (_ | _) _ _ <;> exact done.2
  | rest + 2 => cases present

/-- Each node closes the connection that the other keeps, and none is left. -/
theorem own_first_disagreed :
    ∃ world, Reaches (system sampleName) World.start world ∧ Quiescent sampleName world ∧
      0 ∈ world.log .left ∧ ¬ Agreed sampleName world := by
  refine ⟨_, Run.follow ownFirst .start ownFirst_admitted, ownFirst_quiescent, ?_, ?_⟩
  · show 0 ∈ [0, 1]
    decide
  · rintro ⟨id, found, _, owned⟩
    cases (owned .left).1

end Synergos.Dialling
