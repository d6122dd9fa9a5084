import Synergos.PeerLinks

/-!
# Peers that the user disconnects

The command forgets the address of a peer and takes it off the list. It neither
closes the connection nor tells the tasks that work for the peer: a bootstrap
registers what it has dialled, the reconnect loop goes through the candidates it
has copied, and the task of a connection announces its peer.

The peer stays away in every run in which nothing of this is under way when it
leaves the list, and in which no bootstrap that the user began before leads to
it afterwards.
-/

namespace Synergos.PeerRemoval

open Runs Identity PeerLinks Function

/-! ### Nothing under way -/

/-- The connection is closed and its peer has been announced. -/
def Ended (link : Link) : Prop :=
  link.isOpen = false ∧ link.phase ≠ .stored ∧ ∀ projectIds, link.phase ≠ .entering projectIds

/-- The errand dials the peer or registers it. -/
def Concerns (peer : PeerId) : Errand → Prop
  | .dialing other _ => other = peer
  | .registering registration _ _ => registration.peerId = peer
  | _ => False

/-- The peer is dialled by the reconnect loop, or will be in this turn. -/
def Awaits (peer : PeerId) : Loop → Prop
  | .resting => False
  | .asking other _ rest | .dialing other rest => other = peer ∨ ∃ url, (peer, url) ∈ rest

theorem awaits_next (peer : PeerId) (candidates : List (PeerId × String)) :
    Awaits peer (.next candidates) ↔ ∃ url, (peer, url) ∈ candidates := by
  cases candidates with
  | nil => simp [Loop.next, Awaits]
  | cons candidate rest =>
    obtain ⟨other, address⟩ := candidate
    constructor
    · rintro (rfl | ⟨url, later⟩)
      · exact ⟨address, List.mem_cons_self ..⟩
      · exact ⟨url, List.mem_cons_of_mem _ later⟩
    · rintro ⟨url, present⟩
      rcases List.mem_cons.mp present with first | later
      · exact .inl (congrArg Prod.fst first).symm
      · exact .inr ⟨url, later⟩

/-- Nothing is under way for a peer. -/
structure Clear (peer : PeerId) (url : Option String) (links : Nat → Option Link)
    (errands : Nat → Option Errand) (loop : Loop) : Prop where
  forgotten : url = none
  ended : ∀ id link, links id = some link → link.peer = peer → Ended link
  unconcerned : ∀ task errand, errands task = some errand → ¬ Concerns peer errand
  passed : ¬ Awaits peer loop

/-- Nothing is under way for a peer in a world. -/
def Idle (peer : PeerId) (world : World) : Prop :=
  Clear peer (world.reconnectUrls peer) world.links world.errands world.loop

/-- A listed peer leaves the list with nothing under way, and a bootstrap that the user began
before does not lead to it. -/
def Timely (world : World) : Action → Prop
  | .removeNode _ peer => (world.nodes peer).isSome = true → Idle peer world
  | .learn _ _ begun peer => ∀ watch, world.watch peer = some watch → ¬ begun < watch.since
  | _ => True

section Idle

variable {peer : PeerId} {world : World}

variable (idle : Idle peer world)

include idle

theorem idle_setErrand (task : Nat) {errand : Option Errand}
    (unconcerned : ∀ next, errand = some next → ¬ Concerns peer next) :
    Idle peer (world.setErrand task errand) := by
  refine ⟨idle.forgotten, idle.ended, ?_, idle.passed⟩
  intro other next found
  obtain rfl | same := eq_or_ne other task
  · exact unconcerned next (by simpa [World.setErrand] using found)
  · exact idle.unconcerned other next (by simpa [World.setErrand, same] using found)

/-- A task has something to do that does not concern the peer. -/
theorem idle_errand (task : Nat) {errand : Errand}
    (unconcerned : ¬ Concerns peer errand) : Idle peer (world.setErrand task (some errand)) := by
  refine idle_setErrand idle task ?_
  intro next same
  exact Option.some.inj same ▸ unconcerned

/-- A task is over. -/
theorem idle_done (task : Nat) : Idle peer (world.setErrand task none) :=
  idle_setErrand idle task fun _ found => (nomatch found)

theorem idle_setLink (id : Nat) {link : Link}
    (ended : link.peer = peer → Ended link) : Idle peer (world.setLink id link) := by
  refine ⟨idle.forgotten, ?_, idle.unconcerned, idle.passed⟩
  intro other found present
  obtain rfl | same := eq_or_ne other id
  · obtain rfl : link = found := by simpa [World.setLink] using present
    exact ended
  · exact idle.ended other found (by simpa [World.setLink, same] using present)

theorem idle_closeLink {id : Option Nat} :
    Idle peer (world.closeLink id) := by
  refine ⟨idle.forgotten, ?_, idle.unconcerned, idle.passed⟩
  intro other link found toPeer
  obtain ⟨before, present, samePeer, samePhase, opened⟩ := world.links_closeLink found
  obtain ⟨closed, announced⟩ := idle.ended other before present (samePeer.trans toPeer)
  refine ⟨?_, samePhase ▸ announced⟩
  cases isOpen : link.isOpen with
  | false => rfl
  | true => exact absurd (opened isOpen) (by simp [closed])

theorem idle_storeLink (id : Nat) {other : PeerId}
    (different : other ≠ peer) : Idle peer (world.storeLink id other) :=
  idle_setLink (idle_closeLink idle) id fun same => (different same).elim

theorem idle_loop {loop : Loop} (passed : ¬ Awaits peer loop) :
    Idle peer { world with loop } :=
  ⟨idle.forgotten, idle.ended, idle.unconcerned, passed⟩

end Idle

/-! ### Peers that have left -/

/-- Nothing has been dialled or sent, the peer is not listed and nothing is under way. -/
def Gone (peer : PeerId) (world : World) (watch : Watch) : Prop :=
  watch.dials = 0 ∧ watch.sends = 0 ∧ world.nodes peer = none ∧ Idle peer world

/-- The peer has left if it is watched. -/
def Sound (peer : PeerId) (world : World) : Prop :=
  ∀ watch, world.watch peer = some watch → Gone peer world watch

section Steps

variable {peer : PeerId} {world after : World}

variable (sound : Sound peer world)

include sound

/-- The watch is left alone, and what changes does not concern a watched peer. -/
theorem sound_of_kept (sameWatch : after.watch peer = world.watch peer)
    (kept : world.nodes peer = none → Idle peer world →
      after.nodes peer = none ∧ Idle peer after) : Sound peer after := by
  intro watch watched
  obtain ⟨noDials, noSends, unlisted, idle⟩ := sound watch (sameWatch ▸ watched)
  exact ⟨noDials, noSends, kept unlisted idle⟩

/-- The list is left alone as well. -/
theorem sound_of_idle (sameWatch : after.watch peer = world.watch peer)
    (sameNode : after.nodes peer = world.nodes peer)
    (idle : Idle peer world → Idle peer after) : Sound peer after :=
  sound_of_kept sound sameWatch fun unlisted before => ⟨sameNode.trans unlisted, idle before⟩

omit sound in
/-- A peer that is not watched any more. -/
theorem sound_unwatched (unwatched : world.watch peer = none) : Sound peer world := by
  intro watch watched
  simp [unwatched] at watched

/-- Something is counted for a peer that is not watched, or not for this one. -/
theorem sound_count {other : PeerId} {count : Watch → Watch}
    (apart : Idle peer world → other ≠ peer) :
    Sound peer (world.modifyWatch other (Option.map count)) := by
  cases watched : world.watch peer with
  | none =>
    refine sound_unwatched ?_
    obtain rfl | same := eq_or_ne peer other
    · simp [World.modifyWatch, watched]
    · simp [World.modifyWatch, same, watched]
  | some watch =>
    have different := apart (sound watch watched).2.2.2
    refine sound_of_idle sound ?_ rfl id
    simp [World.modifyWatch, Ne.symm different]

omit sound in
theorem nodes_modifyNode (unlisted : world.nodes peer = none) (other : PeerId)
    (change : RegisteredNode → RegisteredNode) :
    (world.modifyNode other change).nodes peer = none := by
  obtain rfl | same := eq_or_ne peer other
  · simp [World.modifyNode, unlisted]
  · simp [World.modifyNode, same, unlisted]

omit sound in
theorem nodes_setNode {other : PeerId} (different : other ≠ peer) {node : RegisteredNode} :
    (world.setNode other node).nodes peer = world.nodes peer :=
  update_of_ne (Ne.symm different) ..

omit sound in
/-- The task of a connection goes on. -/
theorem idle_phase (idle : Idle peer world) {id : Nat} {link : Link}
    (found : world.links id = some link) {phase : Phase} (announced : phase ≠ .stored)
    (listed : ∀ projectIds, phase ≠ .entering projectIds) :
    Idle peer (world.setLink id { link with phase }) :=
  idle_setLink idle id fun same => ⟨(idle.ended id link found same).1, announced, listed⟩

theorem sound_accept (id : Nat) (other : PeerId) :
    Sound peer ((world.storeLink id other).welcome other) := by
  obtain rfl | same := eq_or_ne other peer
  · exact sound_unwatched (update_self ..)
  · exact sound_of_idle sound (update_of_ne (Ne.symm same) ..) rfl
      fun idle => idle_storeLink idle id same

theorem sound_look {id : Nat} {link : Link} (projectIds : List String)
    (found : world.links id = some link) (stored : link.phase = .stored) :
    Sound peer (apply world (.look id link projectIds)) := by
  refine sound_of_kept sound rfl fun unlisted idle => ⟨nodes_modifyNode unlisted .., ?_⟩
  exact idle_setLink idle id fun same => ((idle.ended id link found same).2.1 stored).elim

section

variable {id : Nat} {link : Link} (found : world.links id = some link)

include found

theorem sound_enter {projectIds : List String} (entering : link.phase = .entering projectIds) :
    Sound peer (apply world (.enter id link projectIds)) := by
  refine sound_of_kept sound rfl fun unlisted idle => ?_
  have different : link.peer ≠ peer := fun same => (idle.ended id link found same).2.2 _ entering
  exact ⟨(nodes_setNode different).trans unlisted,
    idle_setLink idle id fun same => (different same).elim⟩

theorem sound_drop :
    Sound peer (world.setLink id { link with isOpen := false }) :=
  sound_of_idle sound rfl rfl fun idle =>
    idle_setLink idle id fun same => ⟨rfl, (idle.ended id link found same).2⟩

theorem sound_settle : Sound peer (settleLink world id link) := by
  refine sound_of_idle sound rfl rfl fun idle => ?_
  refine idle_phase idle found ?_ ?_
  · split_ifs <;> simp
  · intro projectIds
    split_ifs <;> simp

theorem sound_notice : Sound peer (apply world (.notice id link)) :=
  sound_of_kept sound rfl fun unlisted idle =>
    ⟨nodes_modifyNode unlisted .., idle_phase idle found (by simp) (by simp)⟩

end

theorem sound_connectPeer (task : Nat) (registration : NodeRegistration) :
    Sound peer (apply world (.connectPeer task registration)) := by
  obtain rfl | same := eq_or_ne registration.peerId peer
  · exact sound_unwatched (update_self ..)
  · refine sound_of_idle sound (update_of_ne (Ne.symm same) ..) rfl fun idle => ?_
    exact idle_errand idle task same

theorem sound_learn (task : Nat) (url : String) {begun : Nat} {other : PeerId}
    (timely : ∀ watch, world.watch other = some watch → ¬ begun < watch.since) :
    Sound peer (apply world (.learn task url begun other)) := by
  obtain rfl | same := eq_or_ne other peer
  · refine sound_unwatched ?_
    have dropped : (world.watch other).filter (fun watch => begun < watch.since) = none := by
      rw [Option.filter_eq_none_iff]
      intro watch watched
      simpa using timely watch watched
    simp [apply, World.setErrand, World.countDial, World.modifyWatch, dropped]
  · refine sound_of_idle sound ?_ rfl fun idle => ?_
    · simp [apply, World.setErrand, World.countDial, World.modifyWatch, Ne.symm same]
    · exact idle_errand idle task same

theorem sound_establish (task id : Nat) {other : PeerId} {url : String}
    (found : world.errands task = some (.dialing other url)) {registration : NodeRegistration}
    (same : registration.peerId = other) :
    Sound peer (apply world (.establish task other url id registration)) := by
  refine sound_of_idle sound rfl rfl fun idle => ?_
  have different : other ≠ peer := idle.unconcerned task _ found
  have unconcerned : registration.peerId ≠ peer := same ▸ different
  exact idle_errand (idle_storeLink idle id different) task unconcerned

theorem sound_loopEstablish (id : Nat) {other : PeerId}
    {rest : List (PeerId × String)} (found : world.loop = .dialing other rest) :
    Sound peer (apply world (.loopEstablish other rest id)) := by
  refine sound_of_idle sound rfl rfl fun idle => ?_
  obtain ⟨different, absent⟩ := not_or.mp (found ▸ idle.passed)
  exact idle_loop (idle_storeLink idle id different) fun awaits =>
    absent ((awaits_next peer rest).mp awaits)

omit sound in
/-- A registration of another peer goes on or is over. -/
theorem unconcerned_registered {registration : NodeRegistration}
    (different : registration.peerId ≠ peer) {url : Option String} {stage : Stage} :
    ∀ next, (url.map fun _ => Errand.registering registration url stage) = some next →
      ¬ Concerns peer next := by
  intro next found
  obtain ⟨_, _, rfl⟩ := Option.map_eq_some_iff.mp found
  exact different

theorem sound_register {task : Nat} {registration : NodeRegistration}
    {url : Option String} {stage : Stage}
    (found : world.errands task = some (.registering registration url stage)) :
    Sound peer (registerStep world task registration url stage) := by
  have apart : Idle peer world → registration.peerId ≠ peer :=
    fun idle => idle.unconcerned task _ found
  cases stage with
  | merge =>
    refine sound_of_kept sound rfl fun unlisted idle => ⟨nodes_modifyNode unlisted .., ?_⟩
    refine idle_setErrand idle task ?_
    split_ifs
    · exact unconcerned_registered (apart idle)
    · intro next same
      exact Option.some.inj same ▸ apart idle
  | check =>
    refine sound_of_idle sound rfl rfl fun idle => idle_setErrand idle task ?_
    split_ifs
    · exact unconcerned_registered (apart idle)
    · intro next same
      exact Option.some.inj same ▸ apart idle
  | insert =>
    exact sound_of_kept sound rfl fun unlisted idle =>
      ⟨(nodes_setNode (apart idle)).trans unlisted, idle_errand idle task (apart idle)⟩
  | update =>
    exact sound_of_kept sound rfl fun unlisted idle => ⟨nodes_modifyNode unlisted ..,
      idle_setErrand idle task (unconcerned_registered (apart idle))⟩
  | mergeAgain =>
    refine sound_of_kept sound rfl fun unlisted idle => ⟨nodes_modifyNode unlisted .., ?_⟩
    refine idle_setErrand idle task ?_
    split_ifs
    · exact unconcerned_registered (apart idle)
    · exact fun _ found => (nomatch found)
  | remember =>
    refine sound_of_idle sound rfl rfl fun idle => idle_done ?_ task
    refine ⟨?_, idle.ended, idle.unconcerned, idle.passed⟩
    exact (update_of_ne (Ne.symm (apart idle)) ..).trans idle.forgotten

theorem sound_tick {candidates : List (PeerId × String)}
    (listed : ∀ other url, (other, url) ∈ candidates ↔
      world.reconnectUrls other = some url ∧ world.connections other = none) :
    Sound peer { world with loop := .next candidates } := by
  refine sound_of_idle sound rfl rfl fun idle => idle_loop idle ?_
  rw [awaits_next]
  rintro ⟨url, present⟩
  have remembered := ((listed peer url).mp present).1
  simp [idle.forgotten] at remembered

theorem sound_loopDial {other : PeerId} {url : String}
    {rest : List (PeerId × String)} (found : world.loop = .asking other url rest) :
    Sound peer { world.countDial other with loop := .dialing other rest } := by
  have counted : Sound peer (world.countDial other) :=
    sound_count sound fun idle same => (found ▸ idle.passed) (.inl same)
  refine sound_of_idle counted rfl rfl fun idle => idle_loop idle ?_
  have passed : ¬ Awaits peer world.loop := idle.passed
  rw [found] at passed
  exact passed

theorem sound_loopNext {rest : List (PeerId × String)}
    (later : Awaits peer (.next rest) → Awaits peer world.loop) :
    Sound peer { world with loop := .next rest } :=
  sound_of_idle sound rfl rfl fun idle => idle_loop idle fun awaits => idle.passed (later awaits)

theorem sound_unregister (task : Nat) (other : PeerId) :
    Sound peer (apply world (.unregister task other)) := by
  refine sound_of_idle sound rfl rfl fun idle => idle_errand ?_ task id
  refine ⟨?_, idle.ended, idle.unconcerned, idle.passed⟩
  obtain rfl | same := eq_or_ne peer other
  · exact update_self ..
  · exact (update_of_ne same ..).trans idle.forgotten

theorem sound_removeListed {other : PeerId}
    (timely : (world.nodes other).isSome = true → Idle other world) :
    Sound peer (removeListed world other) := by
  unfold removeListed
  split_ifs with listed
  · obtain rfl | same := eq_or_ne peer other
    · intro watch watched
      obtain rfl : ⟨world.clock, 0, 0⟩ = watch := by simpa using watched
      exact ⟨rfl, rfl, update_self .., timely listed⟩
    · exact sound_of_idle sound (update_of_ne same ..) (update_of_ne same ..)
        id
  · exact sound

theorem sound_writeTo (id : Nat) : Sound peer (writeTo world id) := by
  unfold writeTo
  cases found : world.links id with
  | none => exact sound
  | some link =>
    dsimp only
    split_ifs with isOpen
    · refine sound_count sound fun idle same => ?_
      have closed := (idle.ended id link found same).1
      simp [isOpen] at closed
    · exact sound

/-- A task is over once its last access is done. -/
theorem sound_done (task : Nat) :
    Sound peer (world.setErrand task none) :=
  sound_of_idle sound rfl rfl fun idle => idle_done idle task

/-- A task begins something that concerns no peer yet. -/
theorem sound_errand (task : Nat) {errand : Errand} (unconcerned : ¬ Concerns peer errand) :
    Sound peer (world.setErrand task (some errand)) :=
  sound_of_idle sound rfl rfl fun idle => idle_errand idle task unconcerned

theorem sound_step (action : Action) (possible : enabled world action)
    (timely : Timely world action) : Sound peer (apply world action) := by
  cases action with
  | accept id other => exact sound_accept sound id other
  | look id link projectIds => exact sound_look sound projectIds possible.1 possible.2
  | enter id link projectIds => exact sound_enter sound possible.1 possible.2
  | drop id link => exact sound_drop sound possible
  | settle id link => exact sound_settle sound possible.1
  | notice id link => exact sound_notice sound possible.1
  | addByUrl task url =>
    exact sound_of_idle sound rfl rfl fun idle => idle_errand idle task id
  | connectPeer task registration => exact sound_connectPeer sound task registration
  | learn task url begun other => exact sound_learn sound task url timely
  | redial task other url =>
    exact sound_count sound fun idle => idle.unconcerned task _ possible
  | giveUp task errand | removeEntry task other => exact sound_done sound task
  | establish task other url id registration =>
    exact sound_establish sound task id possible.1 possible.2.2
  | register task registration url stage => exact sound_register sound possible
  | tick candidates => exact sound_tick sound possible.2
  | loopDial other url rest => exact sound_loopDial sound possible
  | loopRedial other rest =>
    refine sound_count sound fun idle same => idle.passed ?_
    rw [show world.loop = _ from possible]
    exact .inl same
  | loopSkip other url rest | loopGiveUp other rest =>
    refine sound_loopNext sound fun awaits => ?_
    rw [show world.loop = _ from possible]
    exact .inr ((awaits_next peer rest).mp awaits)
  | loopEstablish other rest id => exact sound_loopEstablish sound id possible.1
  | disconnect task other =>
    exact sound_of_idle sound rfl rfl fun idle =>
      idle_errand (idle_closeLink idle) task id
  | unregister task other => exact sound_unregister sound task other
  | removeNode task other => exact sound_done (sound_removeListed sound timely) task
  | peerStatus other state =>
    exact sound_of_kept sound rfl fun unlisted idle => ⟨nodes_modifyNode unlisted .., idle⟩
  | queue task other => exact sound_errand sound task id
  | openStream task other =>
    refine sound_of_idle sound rfl rfl fun idle => idle_setErrand idle task ?_
    intro next found
    obtain ⟨_, _, rfl⟩ := Option.map_eq_some_iff.mp found
    exact id
  | write task id => exact sound_done (sound_writeTo sound id) task

end Steps

/-! ### The command -/

/-- A disconnected peer stays away: it was neither dialled nor sent anything since, its
connection is not open, and neither its address is remembered nor is it listed. -/
def Away (peer : PeerId) (world : World) (watch : Watch) : Prop :=
  (∀ id link, world.connections peer = some id → world.links id = some link →
    link.isOpen = false) ∧
  watch.sends = 0 ∧ watch.dials = 0 ∧ world.reconnectUrls peer = none ∧ world.nodes peer = none

/-- In every run in which peers leave the list with nothing under way, and bootstraps from
before do not lead back to them, the peers that the user has disconnected stay away. -/
theorem disconnected_peer_stays_away (world : World)
    (run : Run system Timely World.start world) (peer : PeerId) (watch : Watch)
    (watched : world.watch peer = some watch) : Away peer world watch := by
  have sound : Sound peer world :=
    run.invariant (Sound peer) (sound_unwatched rfl) fun state action possible timely sound =>
      sound_step sound action possible timely
  obtain ⟨noDials, noSends, unlisted, idle⟩ := sound watch watched
  refine ⟨?_, noSends, noDials, idle.forgotten, unlisted⟩
  intro id link entry found
  exact (idle.ended id link found (owned_of_reaches run.reaches entry found)).1

/-! ### A peer that the user has added -/

def sampleUrl : String := "https://peer.example/peer-info"

def sampleRegistration : NodeRegistration := ⟨samplePeer, "studio", [], "0.1.0"⟩

/-- The user adds a peer by its address; it is dialled, announced and registered. -/
def addPeer : List Action :=
  [.addByUrl 0 sampleUrl, .learn 0 sampleUrl 0 samplePeer,
    .establish 0 samplePeer sampleUrl 0 sampleRegistration,
    .look 0 ⟨samplePeer, true, .stored⟩ [], .enter 0 ⟨samplePeer, true, .entering []⟩ [],
    .register 0 sampleRegistration (some sampleUrl) .merge,
    .register 0 sampleRegistration (some sampleUrl) .remember]

/-- The user disconnects the peer after it has closed the connection. -/
def disconnectClosed : List Action :=
  addPeer ++ [.drop 0 ⟨samplePeer, true, .serving⟩, .settle 0 ⟨samplePeer, false, .serving⟩,
    .notice 0 ⟨samplePeer, false, .noticing⟩, .unregister 1 samplePeer, .removeNode 1 samplePeer]

/-- The user disconnects the peer while it is connected, and a message is sent. -/
def disconnectOpen : List Action :=
  addPeer ++ [.unregister 1 samplePeer, .removeNode 1 samplePeer, .queue 2 samplePeer,
    .openStream 2 samplePeer, .write 2 0]

/-- The connection has ended, its task is over, and only the command is left. -/
theorem idle_of_ended {world : World} (forgotten : world.reconnectUrls samplePeer = none)
    (closed : world.links 0 = some ⟨samplePeer, false, .finished⟩)
    (noOther : ∀ id, world.links (id + 1) = none) (bootstrap : world.errands 0 = none)
    (command : world.errands 1 = some (.unregistering samplePeer))
    (noErrand : ∀ task, world.errands (task + 2) = none) (resting : world.loop = .resting) :
    Idle samplePeer world := by
  refine ⟨forgotten, ?_, ?_, ?_⟩
  · intro id link found _
    match id with
    | 0 =>
      obtain rfl := Option.some.inj (closed.symm.trans found)
      exact ⟨rfl, by simp, by simp⟩
    | rest + 1 =>
      simp [noOther] at found
  · intro task errand found
    match task with
    | 0 =>
      simp [bootstrap] at found
    | 1 =>
      rw [command] at found
      cases found
      exact id
    | rest + 2 =>
      simp [noErrand] at found
  · rw [resting]
    exact id

theorem disconnectClosed_admitted : Admitted system Timely World.start disconnectClosed :=
  ⟨rfl, trivial, rfl, fun _ watched => (nomatch watched), ⟨rfl, rfl, rfl⟩, trivial, ⟨rfl, rfl⟩,
    trivial, ⟨rfl, rfl⟩, trivial, rfl, trivial, rfl, trivial, rfl, trivial, ⟨rfl, rfl, rfl⟩,
    trivial, ⟨rfl, rfl⟩, trivial, rfl, trivial, rfl,
    fun _ => idle_of_ended rfl rfl (fun _ => rfl) rfl rfl (fun _ => rfl) rfl, trivial⟩

theorem disconnectOpen_admitted :
    Admitted system (fun _ _ => True) World.start disconnectOpen :=
  ⟨rfl, trivial, rfl, trivial, ⟨rfl, rfl, rfl⟩, trivial, ⟨rfl, rfl⟩, trivial, ⟨rfl, rfl⟩, trivial,
    rfl, trivial, rfl, trivial, rfl, trivial, rfl, trivial, rfl, trivial, rfl, trivial, rfl,
    trivial, trivial⟩

/-- A peer whose connection had ended stays away. -/
theorem ended_peer_stays_away :
    ∃ world watch, Run system Timely World.start world ∧ world.watch samplePeer = some watch ∧
      Away samplePeer world watch := by
  have run := Run.follow disconnectClosed .start disconnectClosed_admitted
  exact ⟨_, ⟨1, 0, 0⟩, run, rfl, disconnected_peer_stays_away _ run samplePeer _ rfl⟩

/-- The connection of a disconnected peer stays open, and a message is sent over it. -/
theorem connected_peer_is_kept :
    ∃ world watch, Reaches system World.start world ∧ world.watch samplePeer = some watch ∧
      watch.sends = 1 ∧ ¬ Away samplePeer world watch := by
  refine ⟨_, ⟨1, 0, 1⟩, Run.follow disconnectOpen .start disconnectOpen_admitted, rfl, rfl, ?_⟩
  intro away
  cases away.1 0 ⟨samplePeer, true, .serving⟩ rfl rfl

end Synergos.PeerRemoval
