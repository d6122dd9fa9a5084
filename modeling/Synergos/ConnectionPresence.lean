import Synergos.PeerLinks

/-!
# Presence and the table of connections

The list of peers shows a peer as connected when its connection has been
announced, and as disconnected when the task of a closed connection has removed
the entry from the table. The two tables are changed one after the other, and a
task of an old connection may tell the list of its end after the task of a newer
one has announced itself.

The two tables agree at rest in every run in which each change of the list finds
the table as it presumes. Statuses from gossip and peers that are taken off the
list are left out of these runs.
-/

namespace Synergos.ConnectionPresence

open Runs Identity PeerLinks Function

/-- A stage of a registration finds the table as it presumes: where it shows the peer as
connected there is an entry, and where it lists the peer afresh no task has announced the
entry yet. -/
def StageInStep (world : World) (peer : PeerId) : Stage → Prop
  | .merge | .update | .mergeAgain =>
      (world.nodes peer).isSome = true → world.connections peer ≠ none
  | .insert => ∀ id, world.connections peer = some id → world.stage id ≠ some (peer, .serving)
  | .check | .remember => True

/-- An announcement finds an entry, and so does a registration that shows the peer as
connected; the end of a connection is told while there is no entry; and when the entry is
removed by hand the task has done so before. -/
def InStep (world : World) : Action → Prop
  | .look _ link _ => (world.nodes link.peer).isSome = true → world.connections link.peer ≠ none
  | .enter _ link _ => world.connections link.peer ≠ none
  | .notice _ link => world.connections link.peer = none
  | .removeEntry _ peer => world.connections peer = none
  | .register _ registration _ stage => StageInStep world registration.peerId stage
  | _ => True

/-- Neither a status from gossip nor a peer that is taken off the list. -/
def Considered : Action → Prop
  | .peerStatus _ _ | .unregister _ _ | .removeNode _ _ => False
  | _ => True

/-- Each task of a connection to the peer has finished or waits on an open connection. -/
def Quiescent (world : World) (peer : PeerId) : Prop :=
  ∀ id link, world.links id = some link → link.peer = peer →
    link.phase = .finished ∨ link.phase = .serving ∧ link.isOpen = true

/-! ### One peer -/

/-- The state that the list shows for a peer. -/
def shownState (world : World) (peer : PeerId) : Option PeerState :=
  (world.nodes peer).map RegisteredNode.state

/-- The entry belongs to a task that has not cleaned up. If that task has announced itself
the peer is shown as connected. If the peer is shown as connected there is an entry, or a
task is about to tell its end. -/
structure Mirrored (peer : PeerId) (entry : Option Nat) (state : Option PeerState)
    (stage : Nat → Option (PeerId × Phase)) : Prop where
  owned : ∀ id, entry = some id → ∃ phase, stage id = some (peer, phase) ∧
    phase ≠ .noticing ∧ phase ≠ .finished
  shown : ∀ id, entry = some id → stage id = some (peer, .serving) → state = some .connected
  held : state = some .connected → entry ≠ none ∨ ∃ id, stage id = some (peer, .noticing)

namespace Mirrored

variable {peer : PeerId} {entry : Option Nat} {state : Option PeerState}
variable {stage : Nat → Option (PeerId × Phase)} {id : Nat}

/-- A connection to another peer. -/
theorem other (mirrored : Mirrored peer entry state stage) {elsewhere : PeerId} {phase : Phase}
    (before : ∀ phase, stage id ≠ some (peer, phase)) (different : elsewhere ≠ peer) :
    Mirrored peer entry state (update stage id (some (elsewhere, phase))) := by
  have same : ∀ other phase', update stage id (some (elsewhere, phase)) other =
      some (peer, phase') ↔ stage other = some (peer, phase') := by
    intro other phase'
    obtain rfl | here := eq_or_ne other id
    · rw [update_self]
      refine iff_of_false (fun equal => different ?_) (before phase')
      exact congrArg Prod.fst (Option.some.inj equal)
    · rw [update_of_ne here]
  refine ⟨?_, ?_, ?_⟩
  · intro owner found
    obtain ⟨phase', present, working⟩ := mirrored.owned owner found
    exact ⟨phase', (same owner phase').mpr present, working⟩
  · intro owner found serving
    exact mirrored.shown owner found ((same owner _).mp serving)
  · intro connected
    refine (mirrored.held connected).imp (fun present => present) ?_
    rintro ⟨task, noticing⟩
    exact ⟨task, (same task _).mpr noticing⟩

/-- A new connection is stored. -/
theorem stored (fresh : Nat) : Mirrored peer (some fresh) state
    (update stage fresh (some (peer, .stored))) := by
  refine ⟨?_, ?_, fun _ => .inl (by simp)⟩
  · intro owner found
    cases found
    exact ⟨.stored, update_self .., by simp, by simp⟩
  · intro owner found serving
    cases found
    simp [update_self] at serving

/-- The peer is announced while there is an entry. -/
theorem announced (mirrored : Mirrored peer entry state stage) (present : entry ≠ none) :
    Mirrored peer entry (some .connected) (update stage id (some (peer, .serving))) := by
  refine ⟨?_, fun _ _ _ => rfl, fun _ => .inl present⟩
  intro owner found
  obtain rfl | here := eq_or_ne owner id
  · exact ⟨.serving, update_self .., by simp, by simp⟩
  · rw [update_of_ne here]
    exact mirrored.owned owner found

/-- The peer is not listed yet, and its task goes on. -/
theorem entered (mirrored : Mirrored peer entry none stage) (projectIds : List String) :
    Mirrored peer entry none
      (update stage id (some (peer, .entering projectIds))) := by
  refine ⟨?_, ?_, fun connected => nomatch connected⟩
  · intro owner found
    by_cases here : owner = id
    · subst here
      exact ⟨_, update_self .., by simp, by simp⟩
    · rw [update_of_ne here]
      exact mirrored.owned owner found
  · intro owner found serving
    obtain rfl | here := eq_or_ne owner id
    · rw [update_self] at serving
      cases serving
    · rw [update_of_ne here] at serving
      exact mirrored.shown owner found serving

/-- The task of the entry has removed it. -/
theorem removed : Mirrored peer none state (update stage id (some (peer, .noticing))) :=
  ⟨fun _ found => (nomatch found), fun _ found => (nomatch found),
    fun _ => .inr ⟨id, update_self ..⟩⟩

/-- A task that does not own the entry ends. -/
theorem ended (mirrored : Mirrored peer entry state stage) {phase : Phase}
    (before : stage id = some (peer, phase)) (working : phase ≠ .noticing)
    (another : entry ≠ some id) :
    Mirrored peer entry state (update stage id (some (peer, .finished))) := by
  refine ⟨?_, ?_, ?_⟩
  · intro owner found
    have apart : owner ≠ id := fun same => another (same ▸ found)
    rw [update_of_ne apart]
    exact mirrored.owned owner found
  · intro owner found serving
    have apart : owner ≠ id := fun same => another (same ▸ found)
    rw [update_of_ne apart] at serving
    exact mirrored.shown owner found serving
  · intro connected
    refine (mirrored.held connected).imp (fun present => present) ?_
    rintro ⟨task, noticing⟩
    have apart : task ≠ id := by
      rintro rfl
      rw [before] at noticing
      exact working (congrArg Prod.snd (Option.some.inj noticing))
    exact ⟨task, by rw [update_of_ne apart]; exact noticing⟩

/-- The end of a connection is told while there is no entry. -/
theorem told (hidden : state ≠ some .connected) : Mirrored peer none state stage :=
  ⟨fun _ found => (nomatch found), fun _ found => (nomatch found),
    fun connected => (hidden connected).elim⟩

/-- The peer is shown as connected while there is an entry. -/
theorem marked (mirrored : Mirrored peer entry state stage) (present : entry ≠ none) :
    Mirrored peer entry (some .connected) stage :=
  ⟨mirrored.owned, fun _ _ _ => rfl, fun _ => .inl present⟩

/-- The peer is listed afresh before the task of the entry has announced itself. -/
theorem listed (mirrored : Mirrored peer entry state stage)
    (quiet : ∀ id, entry = some id → stage id ≠ some (peer, .serving)) :
    Mirrored peer entry (some .discovered) stage :=
  ⟨mirrored.owned, fun id found serving => (quiet id found serving).elim,
    fun connected => nomatch connected⟩

end Mirrored

/-- The tables mirror each other for a peer. -/
def Sound (peer : PeerId) (world : World) : Prop :=
  Mirrored peer (world.connections peer) (shownState world peer) world.stage

theorem sound_start (peer : PeerId) : Sound peer World.start :=
  ⟨fun _ found => (nomatch found), fun _ found => (nomatch found),
    fun connected => (nomatch connected)⟩

/-! ### Steps -/

section Steps

variable {peer : PeerId} {world : World}

theorem shownState_modifyNode (change : RegisteredNode → RegisteredNode) :
    shownState (world.modifyNode peer change) peer =
      (world.nodes peer).map fun node => (change node).state := by
  simp [shownState, World.modifyNode, Function.comp_def]

theorem stage_ne {id : Nat} {link : Link} (found : world.links id = some link)
    (different : link.peer ≠ peer) (phase : Phase) : world.stage id ≠ some (peer, phase) := by
  rw [world.stage_of_link found]
  intro equal
  exact different (congrArg Prod.fst (Option.some.inj equal))

variable (sound : Sound peer world)

include sound

/-- A change of the list for one peer. -/
theorem sound_of_list {owner : PeerId} {after : World} (kept : after.connections = world.connections)
    (stage : after.stage = world.stage)
    (others : ∀ other ≠ owner, after.nodes other = world.nodes other)
    (own : Sound owner world →
      Mirrored owner (world.connections owner) (shownState after owner) world.stage) :
    Sound peer after := by
  unfold Sound
  rw [kept, stage]
  obtain rfl | same := eq_or_ne peer owner
  · exact own sound
  · rw [shownState, others peer same]
    exact sound

/-- A step of a connection's task changes the tables for its own peer. -/
theorem sound_of_task {id : Nat} {link : Link} {phase : Phase} {after : World}
    (found : world.links id = some link)
    (moved : after.stage = update world.stage id (some (link.peer, phase)))
    (others : ∀ other ≠ link.peer, after.connections other = world.connections other ∧
      after.nodes other = world.nodes other)
    (own : Sound link.peer world → Mirrored link.peer (after.connections link.peer)
      (shownState after link.peer) (update world.stage id (some (link.peer, phase)))) :
    Sound peer after := by
  unfold Sound
  rw [moved]
  obtain rfl | same := eq_or_ne peer link.peer
  · exact own sound
  · obtain ⟨connections, nodes⟩ := others peer same
    rw [connections, shownState, nodes]
    exact Mirrored.other sound (stage_ne found same.symm) same.symm

theorem sound_storeLink {id : Nat} (fresh : world.links id = none)
    (other : PeerId) : Sound peer (world.storeLink id other) := by
  change Mirrored peer ((world.storeLink id other).connections peer) (shownState world peer)
    (world.storeLink id other).stage
  rw [World.stage_storeLink, World.connections_storeLink]
  obtain rfl | same := eq_or_ne other peer
  · rw [update_self]
    exact .stored id
  · rw [update_of_ne (Ne.symm same)]
    have absent : ∀ phase, world.stage id ≠ some (peer, phase) := by
      intro phase
      simp [World.stage, fresh]
    exact Mirrored.other sound absent same

/-- The list is changed for a peer, and shows it as connected if it was there. -/
theorem sound_connected (other : PeerId) (change : RegisteredNode → RegisteredNode)
    (connects : ∀ node, (change node).state = .connected)
    (present : (world.nodes other).isSome = true → world.connections other ≠ none) :
    Sound peer (world.modifyNode other change) := by
  refine sound_of_list sound rfl rfl (fun _ apart => update_of_ne apart ..) fun sound => ?_
  rw [shownState_modifyNode]
  cases listed : world.nodes other with
  | none => simpa [Sound, shownState, listed] using sound
  | some node =>
    rw [Option.map_some, connects]
    exact Mirrored.marked sound (present (by simp [listed]))

theorem sound_look {id : Nat} {link : Link}
    (projectIds : List String) (found : world.links id = some link)
    (inStep : (world.nodes link.peer).isSome = true → world.connections link.peer ≠ none) :
    Sound peer (apply world (.look id link projectIds)) := by
  refine sound_of_task sound found (World.stage_setLink ..)
    (fun _ apart => ⟨rfl, update_of_ne apart ..⟩) fun sound => ?_
  change Mirrored _ (world.connections _)
    (shownState (world.modifyNode link.peer (·.observed projectIds)) link.peer) _
  rw [shownState_modifyNode]
  cases listed : world.nodes link.peer with
  | none =>
    rw [Sound, shownState, listed] at sound
    exact Mirrored.entered sound projectIds
  | some node => exact Mirrored.announced sound (inStep (by simp [listed]))

theorem sound_enter {id : Nat} {link : Link}
    (projectIds : List String) (found : world.links id = some link)
    (inStep : world.connections link.peer ≠ none) :
    Sound peer (apply world (.enter id link projectIds)) := by
  refine sound_of_task sound found (World.stage_setLink ..)
    (fun _ apart => ⟨rfl, update_of_ne apart ..⟩) fun sound => ?_
  have shown : shownState (apply world (.enter id link projectIds)) link.peer =
      some .connected := by
    simp [shownState, apply, World.setNode, World.setLink, observedNode]
  rw [shown]
  exact Mirrored.announced sound inStep

theorem sound_settle {id : Nat} {link : Link}
    (found : world.links id = some link) (serving : link.phase = .serving) :
    Sound peer (settleLink world id link) := by
  refine sound_of_task sound found (World.stage_setLink ..) ?_ fun sound => ?_
  · intro other apart
    simp only [settleLink, Dialling.removeClosed, World.setLink]
    split_ifs <;> simp [apart]
  · change Mirrored _ (Dialling.removeClosed world.connections link.peer id link.peer) _ _
    unfold Dialling.removeClosed
    by_cases own : world.connections link.peer = some id
    · simp only [if_pos own, update_self]
      exact .removed
    · simp only [if_neg own]
      exact Mirrored.ended sound (world.stage_of_link found) (by simp [serving]) own

theorem sound_notice {id : Nat} {link : Link}
    (found : world.links id = some link) (inStep : world.connections link.peer = none) :
    Sound peer (apply world (.notice id link)) := by
  refine sound_of_task sound found (World.stage_setLink ..)
    (fun _ apart => ⟨rfl, update_of_ne apart ..⟩) fun _ => ?_
  change Mirrored _ (world.connections _)
    (shownState (world.modifyNode link.peer (·.withState .disconnected)) link.peer) _
  rw [inStep, shownState_modifyNode]
  refine .told ?_
  cases world.nodes link.peer <;> simp [RegisteredNode.withState]

theorem sound_removeEntry (task : Nat) {other : PeerId} (inStep : world.connections other = none) :
    Sound peer (apply world (.removeEntry task other)) := by
  have unchanged : update world.connections other none = world.connections := by
    rw [update_eq_self_iff, inStep]
  change Mirrored peer (update world.connections other none peer) (shownState world peer)
    world.stage
  rw [unchanged]
  exact sound

theorem sound_insert {registration : NodeRegistration}
    (inStep : StageInStep world registration.peerId .insert) :
    Sound peer (world.setNode registration.peerId registration.node) := by
  refine sound_of_list sound rfl rfl (fun _ apart => update_of_ne apart ..) fun sound => ?_
  have shown : shownState (world.setNode registration.peerId registration.node)
      registration.peerId = some .discovered := by
    simp [shownState, World.setNode, NodeRegistration.node]
  rw [shown]
  exact Mirrored.listed sound inStep

theorem sound_register (task : Nat) (registration : NodeRegistration)
    (url : Option String) (stage : Stage) (inStep : StageInStep world registration.peerId stage) :
    Sound peer (registerStep world task registration url stage) := by
  cases stage with
  | merge | update | mergeAgain => exact sound_connected sound _ _ (fun _ => rfl) inStep
  | check | remember => exact sound
  | insert => exact sound_insert sound inStep

theorem sound_write (id : Nat) : Sound peer (writeTo world id) := by
  unfold writeTo
  split
  · split_ifs
    · exact sound
    · exact sound
  · exact sound

theorem sound_step (action : Action) (possible : enabled world action)
    (considered : Considered action) (inStep : InStep world action) :
    Sound peer (apply world action) := by
  cases action with
  | accept id other => exact sound_storeLink sound possible other
  | look id link projectIds => exact sound_look sound projectIds possible.1 inStep
  | enter id link projectIds => exact sound_enter sound projectIds possible.1 inStep
  | drop id link =>
    change Mirrored peer (world.connections peer) (shownState world peer) (world.setLink id _).stage
    rw [World.stage_setLink, update_eq_self_iff.mpr (world.stage_of_link possible).symm]
    exact sound
  | settle id link => exact sound_settle sound possible.1 possible.2.1
  | notice id link => exact sound_notice sound possible.1 inStep
  | establish task other url id registration => exact sound_storeLink sound possible.2.1 other
  | register task registration url stage =>
    exact sound_register sound task registration url stage inStep
  | loopEstablish other rest id => exact sound_storeLink sound possible.2 other
  | disconnect task other =>
    change Mirrored peer (world.connections peer) (shownState world peer)
      (world.closeLink (world.connections other)).stage
    rw [World.stage_closeLink]
    exact sound
  | removeEntry task other => exact sound_removeEntry sound task inStep
  | write task id => exact sound_write sound id
  | unregister task other | removeNode task other | peerStatus other state => exact considered.elim
  | _ => exact sound

end Steps

/-- At rest the peer is shown as connected exactly while there is an entry. -/
theorem Sound.at_rest {peer : PeerId} {world : World} (sound : Sound peer world)
    (quiescent : Quiescent world peer) {node : RegisteredNode}
    (listed : world.nodes peer = some node) :
    node.state = .connected ↔ (world.connections peer).isSome = true := by
  have shown : shownState world peer = some node.state := by rw [shownState, listed]; rfl
  constructor
  · intro connected
    rw [connected] at shown
    rcases sound.held shown with present | ⟨id, noticing⟩
    · exact Option.isSome_iff_ne_none.mpr present
    · obtain ⟨link, found, same⟩ := Option.map_eq_some_iff.mp noticing
      have phase : link.phase = .noticing := congrArg Prod.snd same
      rcases quiescent id link found (congrArg Prod.fst same) with finished | ⟨serving, _⟩
      · simp [phase] at finished
      · simp [phase] at serving
  · intro present
    obtain ⟨id, entry⟩ := Option.isSome_iff_exists.mp present
    obtain ⟨phase, stage, _, unfinished⟩ := sound.owned id entry
    obtain ⟨link, found, same⟩ := Option.map_eq_some_iff.mp stage
    cases same
    rcases quiescent id link found rfl with finished | ⟨serving, _⟩
    · exact (unfinished finished).elim
    · rw [serving] at stage
      have connected := sound.shown id entry stage
      rw [shown] at connected
      exact Option.some.inj connected

/-- In every run in which the changes of the list find the table as they presume, the list
and the table agree on every listed peer at rest. -/
theorem presence_mirrors_connections (world : World)
    (run : Run system (fun world action => Considered action ∧ InStep world action) World.start
      world) (peer : PeerId) (quiescent : Quiescent world peer) (node : RegisteredNode)
    (listed : world.nodes peer = some node) :
    node.state = .connected ↔ (world.connections peer).isSome = true := by
  have sound : Sound peer world :=
    run.invariant (Sound peer) (sound_start peer) fun state action possible met sound =>
      sound_step sound action possible met.1 met.2
  exact sound.at_rest quiescent listed

/-! ### A peer that comes back -/

/-- A peer connects and is announced; it closes the connection, and the task removes the
entry. -/
def comeAndGo : List Action :=
  [.accept 0 samplePeer, .look 0 ⟨samplePeer, true, .stored⟩ [],
    .enter 0 ⟨samplePeer, true, .entering []⟩ [], .drop 0 ⟨samplePeer, true, .serving⟩,
    .settle 0 ⟨samplePeer, false, .serving⟩]

/-- The list is told of the end before the peer comes back. -/
def toldInTime : List Action :=
  comeAndGo ++ [.notice 0 ⟨samplePeer, false, .noticing⟩, .accept 1 samplePeer,
    .look 1 ⟨samplePeer, true, .stored⟩ []]

/-- The peer is back and announced before the list is told of the end. -/
def toldLate : List Action :=
  comeAndGo ++ [.accept 1 samplePeer, .look 1 ⟨samplePeer, true, .stored⟩ [],
    .notice 0 ⟨samplePeer, false, .noticing⟩]

theorem toldInTime_admitted :
    Admitted system (fun world action => Considered action ∧ InStep world action) World.start
      toldInTime :=
  ⟨rfl, ⟨trivial, trivial⟩, ⟨rfl, rfl⟩, ⟨trivial, fun listed => (nomatch listed)⟩, ⟨rfl, rfl⟩,
    ⟨trivial, fun absent => (nomatch absent)⟩, rfl, ⟨trivial, trivial⟩, ⟨rfl, rfl, rfl⟩,
    ⟨trivial, trivial⟩, ⟨rfl, rfl⟩, ⟨trivial, rfl⟩, rfl, ⟨trivial, trivial⟩, ⟨rfl, rfl⟩,
    ⟨trivial, fun _ absent => (nomatch absent)⟩, trivial⟩

theorem toldLate_admitted :
    Admitted system (fun _ action => Considered action) World.start toldLate :=
  ⟨rfl, trivial, ⟨rfl, rfl⟩, trivial, ⟨rfl, rfl⟩, trivial, rfl, trivial, ⟨rfl, rfl, rfl⟩, trivial,
    rfl, trivial, ⟨rfl, rfl⟩, trivial, ⟨rfl, rfl⟩, trivial, trivial⟩

/-- The old connection has ended and the new one is served. -/
theorem replaced_quiescent {world : World}
    (old : world.links 0 = some ⟨samplePeer, false, .finished⟩)
    (new : world.links 1 = some ⟨samplePeer, true, .serving⟩)
    (others : ∀ id, world.links (id + 2) = none) : Quiescent world samplePeer := by
  intro id link found _
  match id with
  | 0 =>
    obtain rfl := Option.some.inj (old.symm.trans found)
    exact .inl rfl
  | 1 =>
    obtain rfl := Option.some.inj (new.symm.trans found)
    exact .inr ⟨rfl, rfl⟩
  | rest + 2 =>
    simp [others] at found

/-- Told in time, the list shows the peer as connected. -/
theorem peer_back_is_shown :
    ∃ world node, Run system (fun world action => Considered action ∧ InStep world action)
        World.start world ∧ Quiescent world samplePeer ∧ world.nodes samplePeer = some node ∧
      (node.state = .connected ↔ (world.connections samplePeer).isSome = true) := by
  have run := Run.follow toldInTime .start toldInTime_admitted
  have quiescent : Quiescent (toldInTime.foldl system.apply World.start) samplePeer :=
    replaced_quiescent rfl rfl fun _ => rfl
  exact ⟨_, ⟨samplePeer, .connected, [], ""⟩, run, quiescent, rfl,
    presence_mirrors_connections _ run samplePeer quiescent _ rfl⟩

/-- Told late, the list shows the peer as disconnected while it is connected. -/
theorem peer_back_is_hidden :
    ∃ world node, Run system (fun _ action => Considered action) World.start world ∧
      Quiescent world samplePeer ∧ world.nodes samplePeer = some node ∧
      ¬ (node.state = .connected ↔ (world.connections samplePeer).isSome = true) := by
  refine ⟨_, ⟨samplePeer, .disconnected, [], ""⟩, Run.follow toldLate .start toldLate_admitted,
    replaced_quiescent rfl rfl fun _ => rfl, rfl, ?_⟩
  intro agreed
  cases agreed.mpr rfl

end Synergos.ConnectionPresence
