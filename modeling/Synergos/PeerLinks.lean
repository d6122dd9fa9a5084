import Synergos.Dialling

/-!
# The peers of a node

A node keeps three tables about its peers: the QUIC connections, the list of
peers that the user sees, and the addresses at which a lost peer is dialled
again. Each table is changed under its own lock, one access at a time, by the
tasks of the connections, by commands of the user, by bootstraps and by the
reconnect loop; nothing orders the accesses of different tasks.

An action is one access, or one answer of the network, and names what it acts
on. Times, addresses, events for the user interface and the figures for round
trips and bandwidth are left out, and so are the endpoints of a registration,
which all callers leave empty. Messages and files are sent alike: a stream is
opened on the connection that the table names, and then written.
-/

namespace Synergos.PeerLinks

open Runs Identity Function
open Dialling (Connections storeConnection removeClosed)

/-! ### Presence -/

inductive PeerState where
  | discovered
  | connecting
  | connected
  | idle
  | away
  | disconnected
  deriving DecidableEq, Repr

structure RegisteredNode where
  displayName : String
  state : PeerState
  projectIds : List String
  synergosVersion : String
  deriving DecidableEq, Repr

structure NodeRegistration where
  peerId : PeerId
  displayName : String
  projectIds : List String
  synergosVersion : String
  deriving DecidableEq, Repr

/-- Add the projects that are not there yet. -/
def mergeProjects (known more : List String) : List String :=
  more.foldl (fun known id => if id ∈ known then known else known ++ [id]) known

/-- A connection to a registered peer has been seen. -/
def RegisteredNode.observed (projectIds : List String) (node : RegisteredNode) : RegisteredNode :=
  { node with state := .connected, projectIds := mergeProjects node.projectIds projectIds }

/-- What is known of a peer that has only been seen to connect. -/
def observedNode (peer : PeerId) (projectIds : List String) : RegisteredNode :=
  ⟨peer, .connected, projectIds, ""⟩

def RegisteredNode.withState (state : PeerState) (node : RegisteredNode) : RegisteredNode :=
  { node with state }

/-- A registration for a peer that is there; what it leaves empty is kept. -/
def RegisteredNode.merged (registration : NodeRegistration) (node : RegisteredNode) :
    RegisteredNode where
  displayName :=
    if registration.displayName = "" then node.displayName else registration.displayName
  state := .connected
  projectIds := mergeProjects node.projectIds registration.projectIds
  synergosVersion :=
    if registration.synergosVersion = "" then node.synergosVersion
    else registration.synergosVersion

def NodeRegistration.node (registration : NodeRegistration) : RegisteredNode :=
  ⟨registration.displayName, .discovered, registration.projectIds, registration.synergosVersion⟩

/-! ### Tasks -/

/-- Where the task of a connection stands. -/
inductive Phase where
  /-- The connection is in the table; its task has not announced the peer yet. -/
  | stored
  /-- The peer was not listed and is about to be. -/
  | entering (projectIds : List String)
  | serving
  /-- The entry was removed; the list is about to be told. -/
  | noticing
  | finished
  deriving DecidableEq, Repr

structure Link where
  peer : PeerId
  isOpen : Bool
  phase : Phase
  deriving DecidableEq, Repr

/-- The accesses of a registration. A bootstrap merges into an entry that is there, before
and after it has tried to register; the command for a peer without an address does not. -/
inductive Stage where
  | merge
  | check
  | insert
  | update
  | mergeAgain
  | remember
  deriving DecidableEq, Repr

inductive Errand where
  /-- The peer-info of an address was asked for; since when. -/
  | asking (url : String) (begun : Nat)
  | dialing (peer : PeerId) (url : String)
  | registering (registration : NodeRegistration) (url : Option String) (stage : Stage)
  /-- The connection was closed, its entry is about to be removed. -/
  | disconnecting (peer : PeerId)
  /-- The address was forgotten, the peer is about to leave the list. -/
  | unregistering (peer : PeerId)
  /-- Something is to be sent to a peer. -/
  | queued (peer : PeerId)
  | streaming (id : Nat)
  deriving DecidableEq, Repr

/-- The reconnect loop takes one candidate after another. -/
inductive Loop where
  | resting
  | asking (peer : PeerId) (url : String) (rest : List (PeerId × String))
  | dialing (peer : PeerId) (rest : List (PeerId × String))
  deriving DecidableEq, Repr

def Loop.next : List (PeerId × String) → Loop
  | [] => .resting
  | (peer, url) :: rest => .asking peer url rest

/-- What has been counted for a peer since the user disconnected it. -/
structure Watch where
  since : Nat
  dials : Nat
  sends : Nat
  deriving DecidableEq, Repr

structure World where
  links : Nat → Option Link
  connections : Connections
  nodes : PeerId → Option RegisteredNode
  reconnectUrls : PeerId → Option String
  errands : Nat → Option Errand
  loop : Loop
  /-- Counts bootstraps and disconnected peers. -/
  clock : Nat
  /-- The peers that the user has disconnected; neither the user has added them since, nor
  have they opened a connection. -/
  watch : PeerId → Option Watch

def World.start : World where
  links := fun _ => none
  connections := fun _ => none
  nodes := fun _ => none
  reconnectUrls := fun _ => none
  errands := fun _ => none
  loop := .resting
  clock := 0
  watch := fun _ => none

/-! ### Accesses -/

namespace World

def setLink (world : World) (id : Nat) (link : Link) : World :=
  { world with links := update world.links id (some link) }

def closeLink (world : World) (id : Option Nat) : World :=
  { world with links := fun other =>
      if id = some other then (world.links other).map fun link => { link with isOpen := false }
      else world.links other }

/-- Own a connection; the one it replaces is closed. -/
def storeLink (world : World) (id : Nat) (peer : PeerId) : World :=
  let stored := storeConnection world.connections peer id
  { world.closeLink stored.2 with connections := stored.1 }.setLink id ⟨peer, true, .stored⟩

def setErrand (world : World) (task : Nat) (errand : Option Errand) : World :=
  { world with errands := update world.errands task errand }

def setNode (world : World) (peer : PeerId) (node : RegisteredNode) : World :=
  { world with nodes := update world.nodes peer (some node) }

/-- Change the entry of a peer, if it is listed. -/
def modifyNode (world : World) (peer : PeerId) (change : RegisteredNode → RegisteredNode) :
    World :=
  { world with nodes := update world.nodes peer ((world.nodes peer).map change) }

def modifyWatch (world : World) (peer : PeerId) (change : Option Watch → Option Watch) : World :=
  { world with watch := update world.watch peer (change (world.watch peer)) }

def countDial (world : World) (peer : PeerId) : World :=
  world.modifyWatch peer (Option.map fun watch => { watch with dials := watch.dials + 1 })

def countSend (world : World) (peer : PeerId) : World :=
  world.modifyWatch peer (Option.map fun watch => { watch with sends := watch.sends + 1 })

/-- The user has added the peer, or it has opened a connection. -/
def welcome (world : World) (peer : PeerId) : World := world.modifyWatch peer fun _ => none

end World

/-- What a registration still has to do once the peer is listed. -/
def registered (registration : NodeRegistration) (url : Option String) : Option Errand :=
  url.map fun _ => .registering registration url .remember

def registerStep (world : World) (task : Nat) (registration : NodeRegistration)
    (url : Option String) : Stage → World
  | .merge => (world.modifyNode registration.peerId (·.merged registration)).setErrand task
      (if (world.nodes registration.peerId).isSome then registered registration url
        else some (.registering registration url .check))
  | .check => world.setErrand task
      (if (world.nodes registration.peerId).isSome then
        url.map fun _ => .registering registration url .mergeAgain
        else some (.registering registration url .insert))
  | .insert => (world.setNode registration.peerId registration.node).setErrand task
      (some (.registering registration url .update))
  | .update => (world.modifyNode registration.peerId (·.withState .connected)).setErrand task
      (registered registration url)
  | .mergeAgain => (world.modifyNode registration.peerId (·.merged registration)).setErrand task
      (if (world.nodes registration.peerId).isSome then registered registration url else none)
  | .remember =>
      { world with reconnectUrls := update world.reconnectUrls registration.peerId url
        }.setErrand task none

inductive Action where
  /-- A peer has opened a connection, and it is stored. -/
  | accept (id : Nat) (peer : PeerId)
  /-- The task of a connection announces the peer. -/
  | look (id : Nat) (link : Link) (projectIds : List String)
  | enter (id : Nat) (link : Link) (projectIds : List String)
  /-- A connection is lost or closed by the peer. -/
  | drop (id : Nat) (link : Link)
  /-- The task of a closed connection cleans up. -/
  | settle (id : Nat) (link : Link)
  | notice (id : Nat) (link : Link)
  | addByUrl (task : Nat) (url : String)
  | connectPeer (task : Nat) (registration : NodeRegistration)
  /-- The peer-info has come and the peer is dialled. -/
  | learn (task : Nat) (url : String) (begun : Nat) (peer : PeerId)
  /-- One address did not answer, the next one is dialled. -/
  | redial (task : Nat) (peer : PeerId) (url : String)
  | giveUp (task : Nat) (errand : Errand)
  | establish (task : Nat) (peer : PeerId) (url : String) (id : Nat)
      (registration : NodeRegistration)
  | register (task : Nat) (registration : NodeRegistration) (url : Option String) (stage : Stage)
  | tick (candidates : List (PeerId × String))
  | loopDial (peer : PeerId) (url : String) (rest : List (PeerId × String))
  | loopRedial (peer : PeerId) (rest : List (PeerId × String))
  | loopSkip (peer : PeerId) (url : String) (rest : List (PeerId × String))
  | loopGiveUp (peer : PeerId) (rest : List (PeerId × String))
  | loopEstablish (peer : PeerId) (rest : List (PeerId × String)) (id : Nat)
  /-- The connection to a peer is closed from here. -/
  | disconnect (task : Nat) (peer : PeerId)
  | removeEntry (task : Nat) (peer : PeerId)
  /-- The user disconnects a peer. -/
  | unregister (task : Nat) (peer : PeerId)
  | removeNode (task : Nat) (peer : PeerId)
  /-- A status of the peer has come over gossip. -/
  | peerStatus (peer : PeerId) (state : PeerState)
  | queue (task : Nat) (peer : PeerId)
  | openStream (task : Nat) (peer : PeerId)
  | write (task : Nat) (id : Nat)

/-- The action acts on what is there. -/
def enabled (world : World) : Action → Prop
  | .accept id _ => world.links id = none
  | .look id link _ => world.links id = some link ∧ link.phase = .stored
  | .enter id link projectIds => world.links id = some link ∧ link.phase = .entering projectIds
  | .drop id link => world.links id = some link
  | .settle id link =>
      world.links id = some link ∧ link.phase = .serving ∧ link.isOpen = false
  | .notice id link => world.links id = some link ∧ link.phase = .noticing
  | .addByUrl task _ | .connectPeer task _ | .disconnect task _ | .unregister task _
  | .queue task _ => world.errands task = none
  | .learn task url begun _ => world.errands task = some (.asking url begun)
  | .redial task peer url => world.errands task = some (.dialing peer url)
  | .giveUp task errand => world.errands task = some errand ∧
      ((∃ url begun, errand = .asking url begun) ∨ ∃ peer url, errand = .dialing peer url)
  | .establish task peer url id registration =>
      world.errands task = some (.dialing peer url) ∧ world.links id = none ∧
        registration.peerId = peer
  | .register task registration url stage =>
      world.errands task = some (.registering registration url stage)
  | .tick candidates => world.loop = .resting ∧ ∀ peer url, (peer, url) ∈ candidates ↔
      world.reconnectUrls peer = some url ∧ world.connections peer = none
  | .loopDial peer url rest | .loopSkip peer url rest => world.loop = .asking peer url rest
  | .loopRedial peer rest | .loopGiveUp peer rest => world.loop = .dialing peer rest
  | .loopEstablish peer rest id => world.loop = .dialing peer rest ∧ world.links id = none
  | .removeEntry task peer => world.errands task = some (.disconnecting peer)
  | .removeNode task peer => world.errands task = some (.unregistering peer)
  | .peerStatus _ _ => True
  | .openStream task peer => world.errands task = some (.queued peer)
  | .write task id => world.errands task = some (.streaming id)

/-- The task of a closed connection takes the entry away, if it is still its own. -/
def settleLink (world : World) (id : Nat) (link : Link) : World :=
  { world with connections := removeClosed world.connections link.peer id }.setLink id
    { link with phase := if world.connections link.peer = some id then .noticing else .finished }

/-- The user is told that the peer is disconnected if it was listed. -/
def removeListed (world : World) (peer : PeerId) : World :=
  if (world.nodes peer).isSome then
    { world with
      nodes := update world.nodes peer none
      clock := world.clock + 1
      watch := update world.watch peer (some ⟨world.clock, 0, 0⟩) }
  else world

/-- Bytes reach the peer of an open connection. -/
def writeTo (world : World) (id : Nat) : World :=
  match world.links id with
  | some link => if link.isOpen then world.countSend link.peer else world
  | none => world

def apply (world : World) : Action → World
  | .accept id peer => (world.storeLink id peer).welcome peer
  | .look id link projectIds =>
      (world.modifyNode link.peer (·.observed projectIds)).setLink id { link with
        phase := if (world.nodes link.peer).isSome then .serving else .entering projectIds }
  | .enter id link projectIds =>
      (world.setNode link.peer (observedNode link.peer projectIds)).setLink id
        { link with phase := .serving }
  | .drop id link => world.setLink id { link with isOpen := false }
  | .settle id link => settleLink world id link
  | .notice id link =>
      (world.modifyNode link.peer (·.withState .disconnected)).setLink id
        { link with phase := .finished }
  | .addByUrl task url =>
      { world with clock := world.clock + 1 }.setErrand task (some (.asking url world.clock))
  | .connectPeer task registration =>
      (world.welcome registration.peerId).setErrand task
        (some (.registering registration none .check))
  | .learn task url begun peer =>
      ((world.modifyWatch peer (Option.filter fun watch => begun < watch.since)).countDial
        peer).setErrand task (some (.dialing peer url))
  | .redial _ peer _ => world.countDial peer
  | .giveUp task _ => world.setErrand task none
  | .establish task peer url id registration =>
      (world.storeLink id peer).setErrand task (some (.registering registration (some url) .merge))
  | .register task registration url stage => registerStep world task registration url stage
  | .tick candidates => { world with loop := .next candidates }
  | .loopDial peer _ rest => { world.countDial peer with loop := .dialing peer rest }
  | .loopRedial peer _ => world.countDial peer
  | .loopSkip _ _ rest | .loopGiveUp _ rest => { world with loop := .next rest }
  | .loopEstablish peer rest id => { world.storeLink id peer with loop := .next rest }
  | .disconnect task peer =>
      (world.closeLink (world.connections peer)).setErrand task (some (.disconnecting peer))
  | .removeEntry task peer =>
      { world with connections := update world.connections peer none
        }.setErrand task none
  | .unregister task peer =>
      { world with reconnectUrls := update world.reconnectUrls peer none
        }.setErrand task (some (.unregistering peer))
  | .removeNode task peer => (removeListed world peer).setErrand task none
  | .peerStatus peer state => world.modifyNode peer (·.withState state)
  | .queue task peer => world.setErrand task (some (.queued peer))
  | .openStream task peer => world.setErrand task ((world.connections peer).map .streaming)
  | .write task id => (writeTo world id).setErrand task none

def system : System World Action := ⟨enabled, apply⟩

/-! ### The tables after an access -/

/-- The peer of a connection and where its task stands. -/
def World.stage (world : World) (id : Nat) : Option (PeerId × Phase) :=
  (world.links id).map fun link => (link.peer, link.phase)

namespace World

variable (world : World)

theorem stage_of_link {id : Nat} {link : Link} (found : world.links id = some link) :
    world.stage id = some (link.peer, link.phase) := by
  rw [stage, found]
  rfl

theorem stage_setLink (id : Nat) (link : Link) :
    (world.setLink id link).stage = update world.stage id
    (some (link.peer, link.phase)) := by
  funext other
  obtain rfl | same := eq_or_ne other id
  · simp [stage, setLink]
  · simp [stage, setLink, same]

theorem stage_closeLink (id : Option Nat) : (world.closeLink id).stage = world.stage := by
  funext other
  unfold stage closeLink
  dsimp only
  split_ifs
  · rw [Option.map_map]
    rfl
  · rfl

theorem stage_storeLink (id : Nat) (peer : PeerId) : (world.storeLink id peer).stage =
    update world.stage id (some (peer, .stored)) := by
  rw [storeLink, stage_setLink]
  exact congrArg (fun stage => update stage id (some (peer, Phase.stored)))
    (world.stage_closeLink _)

theorem connections_storeLink (id : Nat) (peer : PeerId) : (world.storeLink id peer).connections =
    update world.connections peer (some id) := rfl

theorem links_closeLink {id : Option Nat} {other : Nat} {link : Link}
    (found : (world.closeLink id).links other = some link) :
    ∃ before, world.links other = some before ∧ before.peer = link.peer ∧
      before.phase = link.phase ∧ (link.isOpen = true → before.isOpen = true) := by
  unfold closeLink at found
  dsimp only at found
  split_ifs at found
  · obtain ⟨before, known, rfl⟩ := Option.map_eq_some_iff.mp found
    exact ⟨before, known, rfl, rfl, fun opened => nomatch opened⟩
  · exact ⟨link, found, rfl, rfl, fun opened => opened⟩

end World

/-! ### The entries of the table -/

/-- The entry of a peer is a connection to it. -/
def Owned (world : World) : Prop :=
  ∀ peer id, world.connections peer = some id → ∃ phase, world.stage id = some (peer, phase)

section Owned

variable {world : World}

theorem owned_storeLink (owned : Owned world) {id : Nat} (fresh : world.links id = none)
    (other : PeerId) : Owned (world.storeLink id other) := by
  intro peer entry found
  rw [World.connections_storeLink] at found
  rw [World.stage_storeLink]
  obtain rfl | same := eq_or_ne peer other
  · obtain rfl : id = entry := by simpa using found
    exact ⟨.stored, update_self ..⟩
  · rw [update_of_ne same] at found
    obtain ⟨phase, stage⟩ := owned peer entry found
    have older : entry ≠ id := by
      rintro rfl
      simp [World.stage, fresh] at stage
    exact ⟨phase, by rw [update_of_ne older, stage]⟩

/-- The task of a connection goes on. -/
theorem owned_setLink (owned : Owned world) {id : Nat} {link next : Link}
    (found : world.links id = some link) (same : next.peer = link.peer) :
    Owned (world.setLink id next) := by
  intro peer entry present
  obtain ⟨phase, stage⟩ := owned peer entry present
  rw [World.stage_setLink]
  obtain rfl | here := eq_or_ne entry id
  · rw [world.stage_of_link found] at stage
    have toPeer : link.peer = peer := congrArg Prod.fst (Option.some.inj stage)
    exact ⟨next.phase, by rw [update_self, same, toPeer]⟩
  · exact ⟨phase, by rw [update_of_ne here, stage]⟩

/-- Entries are taken away. -/
theorem owned_fewer (owned : Owned world) {connections : Connections}
    (fewer : ∀ peer id, connections peer = some id → world.connections peer = some id) :
    Owned { world with connections } :=
  fun peer id found => owned peer id (fewer peer id found)

theorem entry_of_removed {connections : Connections} {peer other : PeerId} {id : Nat}
    (found : update connections other none peer = some id) :
    connections peer = some id := by
  obtain rfl | same := eq_or_ne peer other
  · simp at found
  · rwa [update_of_ne same] at found

theorem owned_settle (owned : Owned world) {id : Nat} {link : Link}
    (found : world.links id = some link) : Owned (settleLink world id link) := by
  refine owned_setLink (owned_fewer owned ?_) found rfl
  intro peer entry present
  unfold removeClosed at present
  split_ifs at present with own
  · exact entry_of_removed present
  · exact present

theorem owned_step (owned : Owned world) (action : Action) (possible : enabled world action) :
    Owned (apply world action) := by
  cases action with
  | accept id peer => exact owned_storeLink owned possible peer
  | look id link projectIds =>
    have listed : Owned (world.modifyNode link.peer (·.observed projectIds)) := owned
    exact owned_setLink listed possible.1 rfl
  | enter id link projectIds =>
    have listed : Owned (world.setNode link.peer (observedNode link.peer projectIds)) := owned
    exact owned_setLink listed possible.1 rfl
  | drop id link => exact owned_setLink owned possible rfl
  | settle id link => exact owned_settle owned possible.1
  | notice id link =>
    have told : Owned (world.modifyNode link.peer (·.withState .disconnected)) := owned
    exact owned_setLink told possible.1 rfl
  | establish task peer url id registration => exact owned_storeLink owned possible.2.1 peer
  | loopEstablish peer rest id => exact owned_storeLink owned possible.2 peer
  | disconnect task peer =>
    intro other id found
    obtain ⟨phase, stage⟩ := owned other id found
    exact ⟨phase, (congrFun (world.stage_closeLink _) id).trans stage⟩
  | removeEntry task peer =>
    exact owned_fewer owned fun _ _ found => entry_of_removed found
  | register task registration url stage => cases stage <;> exact owned
  | removeNode task peer =>
    change Owned (removeListed world peer)
    unfold removeListed
    split_ifs <;> exact owned
  | write task id =>
    change Owned (writeTo world id)
    unfold writeTo
    split
    · split_ifs <;> exact owned
    · exact owned
  | _ => exact owned

end Owned

/-- In every run the entry of a peer is a connection to it. -/
theorem owned_of_reaches {world : World} (reached : Reaches system World.start world)
    {peer : PeerId} {id : Nat} {link : Link} (entry : world.connections peer = some id)
    (found : world.links id = some link) : link.peer = peer := by
  have owned : Owned world := reached.invariant Owned (fun _ _ absent => by cases absent)
    fun _ action possible _ owned => owned_step owned action possible
  obtain ⟨phase, stage⟩ := owned peer id entry
  rw [world.stage_of_link found] at stage
  exact congrArg Prod.fst (Option.some.inj stage)

def samplePeer : PeerId := "6c31041268f471609c79f5f2dbcc38e4a4ab2f4d"

end Synergos.PeerLinks
