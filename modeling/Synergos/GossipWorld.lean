import Synergos.Runs
import Synergos.GossipNodes

/-!
# Gossip among honest nodes and an adversary

Honest nodes publish messages and receive wire messages. Everything that honest
nodes put on the wire is recorded by an adversary that holds all other keys and
decides what each node receives: recorded wire messages again, or any other,
with ideal signatures. An honest key accepts a signature only on bytes that its
owner has signed for gossip; the other texts that a node signs with its key are
never the bytes of a gossip message.

Each node hands what it published or accepted to its subscriber, which applies
statuses to the table of peers. Registrations and connections change that table
in any way at any time.
-/

namespace Synergos.GossipWorld

open Runs Base64url Envelope ByteText Identity Gossip GossipNodes Function List

/-! ## Presence -/

inductive PeerState where
  | discovered | connecting | connected | idle | away | disconnected
  deriving DecidableEq, Repr

/-- The fields of a registered node that gossip writes. -/
structure RegisteredNode where
  state : PeerState
  lastSeen : Nat
  deriving DecidableEq, Repr

abbrev PeerTable := PeerId → Option RegisteredNode

def stateOf : ActivityState → PeerState
  | .active => .connected
  | .idle => .idle
  | .away => .away
  | .offline => .disconnected

/-- Apply a status to the table. The origin is not looked at, and peers that are
not registered are ignored. -/
def handlePeerStatus (nodes : PeerTable) (activity : PeerActivityStatus) (_origin : PeerId)
    (now : Nat) : PeerTable :=
  match nodes activity.peerId with
  | some _ => update nodes activity.peerId (some ⟨stateOf activity.state, now⟩)
  | none => nodes

/-- A message on its way to the subscriber, with the envelope it came in if it
did not come from the node itself. -/
structure Delivery where
  message : GossipMessage
  envelope : Option SignedGossipMessage

/-- One write to a table: at which node, the peer and the message that did it. -/
structure Change where
  node : Seed
  peer : PeerId
  delivery : Delivery

structure World where
  node : Seed → GossipNode
  table : Seed → PeerTable
  pending : Seed → List Delivery
  /-- Everything honest nodes put on the wire. -/
  wire : List GossipWireMessage
  /-- Every message published, by whom and on which topic. -/
  published : List (Seed × TopicId × GossipMessage)
  /-- Every wire message that a node accepted and handed on. -/
  delivered : List (Seed × GossipWireMessage)
  changes : List Change

inductive Action where
  | publish (who : Seed) (topic : TopicId) (message : GossipMessage) (now : Nat)
  | receive (who : Seed) (wire : GossipWireMessage) (now : Nat)
  | maintain (who : Seed) (call : Call) (now : Nat)
  | dispatch (who : Seed) (now : Nat)
  | lag (who : Seed)
  | register (who : Seed) (table : PeerTable)
  | restart (who : Seed) (meshNHigh messageCacheSize : Nat)

section System

variable (blake3 : List UInt8 → Bytes 32) (scheme : Scheme) (honest : Set Seed)

/-- A node with its identity, before anything happened. -/
def fresh (who : Seed) (meshNHigh messageCacheSize : Nat) : GossipNode :=
  { GossipNode.new meshNHigh messageCacheSize with identity := some who }

def World.start (meshNHigh messageCacheSize : Nat) : World where
  node who := fresh who meshNHigh messageCacheSize
  table _ _ := none
  pending _ := []
  wire := []
  published := []
  delivered := []
  changes := []

/-- Same key and same signed bytes. -/
def SameSigned (left right : GossipWireMessage) : Prop :=
  left.signed.senderPublicKey = right.signed.senderPublicKey ∧
    signingBytes left.signed.message = signingBytes right.signed.message

/-- What ideal signatures leave to the adversary: a signature that an honest key
accepts is on bytes that its owner has signed and sent. -/
def Producible (world : World) (wire : GossipWireMessage) : Prop :=
  ∀ who ∈ honest, wire.signed.senderPublicKey = (scheme.publicKey who).1 →
    wire.signed.verify blake3 scheme = .ok () → ∃ sent ∈ world.wire, SameSigned sent wire

def enabled (world : World) : Action → Prop
  | .publish who _ message _ =>
      who ∈ honest ∧ checkSender (peerId blake3 scheme who) message = .ok ()
  | .receive who wire _ => who ∈ honest ∧ Producible blake3 scheme honest world wire
  | .maintain who call _ => who ∈ honest ∧ call.carried = none
  | .dispatch who _ => who ∈ honest
  | .lag who => who ∈ honest
  | .register who _ => who ∈ honest
  | .restart who _ _ => who ∈ honest

/-- The subscriber takes the next message. Only statuses concern the table; the
entry that a status writes is noted when it differs from the old one. -/
def dispatch (world : World) (who : Seed) (now : Nat) : World :=
  match world.pending who with
  | [] => world
  | delivery :: rest =>
      let world := { world with pending := update world.pending who rest }
      match delivery.message with
      | .peerStatus _ status origin _ =>
          let table := handlePeerStatus (world.table who) status origin now
          { world with
            table := update world.table who table
            changes :=
              if table status.peerId = world.table who status.peerId then world.changes
              else ⟨who, status.peerId, delivery⟩ :: world.changes }
      | _ => world

def apply (world : World) : Action → World
  | .publish who topic message now =>
      let node := world.node who
      let after := (publish blake3 scheme node topic message now).2
      { world with
        node := update world.node who after
        pending := update world.pending who (world.pending who ++
          (after.tx.drop node.tx.length).map fun entry => ⟨entry.2, none⟩)
        wire := world.wire ++
          (after.outboundTx.drop node.outboundTx.length).map fun out => ⟨out.topic, out.signed⟩
        published := (who, topic, message) :: world.published }
  | .receive who wire now =>
      match onSignedMessageReceived blake3 scheme (world.node who) wire.topic wire.signed now with
      | (true, after) =>
          { world with
            node := update world.node who after
            pending := update world.pending who
              (world.pending who ++ [⟨wire.signed.message, some wire.signed⟩])
            delivered := (who, wire) :: world.delivered }
      | (false, after) => { world with node := update world.node who after }
  | .maintain who made now =>
      { world with
        node := update world.node who (call blake3 scheme (world.node who) now made) }
  | .dispatch who now => dispatch world who now
  | .lag who => { world with pending := update world.pending who (world.pending who).tail }
  | .register who table => { world with table := update world.table who table }
  | .restart who meshNHigh messageCacheSize =>
      { world with
        node := update world.node who (fresh who meshNHigh messageCacheSize)
        table := update world.table who fun _ => none
        pending := update world.pending who [] }

def system : System World Action := ⟨enabled blake3 scheme honest, apply blake3 scheme⟩

end System

section Proofs

variable {blake3 : List UInt8 → Bytes 32} {scheme : Scheme} {honest : Set Seed}

/-! ## What one action does -/

/-- Publishing hands over the message and its envelope, or does nothing. -/
theorem publish_effect {node : GossipNode} (topic : TopicId) (message : GossipMessage)
    (now : Nat) {who : Seed} (own : node.identity = some who) :
    (publish blake3 scheme node topic message now).2.identity = some who ∧
    ((publish blake3 scheme node topic message now).2 = node ∨
      ((publish blake3 scheme node topic message now).2.tx = node.tx ++ [(topic, message)] ∧
        ∃ peers, (publish blake3 scheme node topic message now).2.outboundTx =
          node.outboundTx ++ [⟨topic, .sign scheme message who, peers⟩])) := by
  unfold publish
  split
  · exact ⟨own, .inl rfl⟩
  · simp only [envelope, own, Option.map_some]
    exact ⟨trivial, .inr ⟨trivial, _, rfl⟩⟩

theorem deliver_identity (node : GossipNode) (topic : TopicId) (message : GossipMessage)
    (now : Nat) : (deliver blake3 node topic message now).2.identity = node.identity := by
  unfold deliver
  split <;> rfl

theorem received_identity (node : GossipNode) (topic : TopicId) (signed : SignedGossipMessage)
    (now : Nat) : (onSignedMessageReceived blake3 scheme node topic signed now).2.identity =
      node.identity := by
  unfold onSignedMessageReceived
  split
  · exact deliver_identity _ _ _ _
  · rfl

theorem call_identity (node : GossipNode) (now : Nat) (made : Call) (quiet : made.carried = none) :
    (call blake3 scheme node now made).identity = node.identity := by
  cases made with
  | publish topic message | receive topic signed | receiveUnsigned topic message => cases quiet
  | _ => rfl

/-- A wire message is handed on only if its envelope is valid. -/
theorem received_verified (node : GossipNode) (topic : TopicId) (signed : SignedGossipMessage)
    (now : Nat)
    (accepted : (onSignedMessageReceived blake3 scheme node topic signed now).1 = true) :
    signed.verify blake3 scheme = .ok () := by
  unfold onSignedMessageReceived verifyEnvelope at accepted
  cases checked : signed.verify blake3 scheme with
  | ok _ => rfl
  | error text => simp [checked] at accepted

/-! ## What the wire and the queues hold -/

/-- The bytes of an envelope were signed by the honest owner of its key. -/
def Vouched (scheme : Scheme) (honest : Set Seed) (world : World)
    (signed : SignedGossipMessage) : Prop :=
  ∀ who ∈ honest, signed.senderPublicKey = (scheme.publicKey who).1 →
    ∃ sent ∈ world.wire, sent.signed.senderPublicKey = signed.senderPublicKey ∧
      signingBytes sent.signed.message = signingBytes signed.message

/-- A delivery to this node is of its own message or of a valid envelope. -/
def Sourced (blake3 : List UInt8 → Bytes 32) (scheme : Scheme) (honest : Set Seed) (world : World)
    (who : Seed) (delivery : Delivery) : Prop :=
  match delivery.envelope with
  | none => checkSender (peerId blake3 scheme who) delivery.message = .ok ()
  | some signed => signed.message = delivery.message ∧ signed.verify blake3 scheme = .ok () ∧
      Vouched scheme honest world signed

/-- What is true of every reachable world, whatever the adversary does. -/
structure Sound (blake3 : List UInt8 → Bytes 32) (scheme : Scheme) (honest : Set Seed)
    (world : World) : Prop where
  identity : ∀ who, (world.node who).identity = some who
  wire : ∀ sent ∈ world.wire, ∃ who ∈ honest, sent.signed = .sign scheme sent.signed.message who ∧
    (who, sent.topic, sent.signed.message) ∈ world.published
  pending : ∀ who, ∀ delivery ∈ world.pending who, Sourced blake3 scheme honest world who delivery

variable {world' : World} (world : World) (action : Action) (who : Seed) (now : Nat)

theorem Vouched.mono {world : World} {signed : SignedGossipMessage}
    (vouched : Vouched scheme honest world signed) (grown : world.wire ⊆ world'.wire) :
    Vouched scheme honest world' signed := by
  intro who trusted key
  obtain ⟨sent, present, same⟩ := vouched who trusted key
  exact ⟨sent, grown present, same⟩

theorem Sourced.mono {world : World} {who : Seed} {delivery : Delivery}
    (sourced : Sourced blake3 scheme honest world who delivery)
    (grown : world.wire ⊆ world'.wire) : Sourced blake3 scheme honest world' who delivery := by
  obtain ⟨message, envelope⟩ := delivery
  cases envelope with
  | none => exact sourced
  | some signed => exact ⟨sourced.1, sourced.2.1, sourced.2.2.mono grown⟩

/-- The queue of one node changes, and the wire does not. -/
theorem Sound.queue {world : World} (sound : Sound blake3 scheme honest world) (world' : World)
    (who : Seed) (queue : List Delivery)
    (identity : ∀ other, (world'.node other).identity = some other)
    (wire : world'.wire = world.wire) (published : world'.published = world.published)
    (pending : world'.pending = update world.pending who queue)
    (sourced : ∀ delivery ∈ queue, Sourced blake3 scheme honest world who delivery) :
    Sound blake3 scheme honest world' := by
  refine ⟨identity, ?_, ?_⟩
  · rw [wire, published]
    exact sound.wire
  · intro other delivery present
    have grown : world.wire ⊆ world'.wire := by rw [wire]; exact fun _ => id
    rw [pending] at present
    obtain rfl | same := eq_or_ne other who
    · rw [update_self] at present
      exact (sourced delivery present).mono grown
    · rw [update_of_ne same] at present
      exact (sound.pending other delivery present).mono grown

theorem identity_update {world : World}
    (identity : ∀ other, (world.node other).identity = some other) {who : Seed}
    {after : GossipNode} (own : after.identity = some who) (other : Seed) :
    (update world.node who after other).identity = some other := by
  obtain rfl | same := eq_or_ne other who
  · rw [update_self, own]
  · rw [update_of_ne same, identity]

theorem sound_start (meshNHigh messageCacheSize : Nat) :
    Sound blake3 scheme honest (World.start meshNHigh messageCacheSize) :=
  ⟨fun _ => rfl, by simp [World.start], by simp [World.start]⟩

theorem sound_publish (sound : Sound blake3 scheme honest world) {who : Seed}
    (topic : TopicId) {message : GossipMessage} (now : Nat) (trusted : who ∈ honest)
    (own : checkSender (peerId blake3 scheme who) message = .ok ()) :
    Sound blake3 scheme honest (apply blake3 scheme world (.publish who topic message now)) := by
  obtain ⟨identity, effect⟩ := @publish_effect blake3 scheme
    (world.node who) topic message now who (sound.identity who)
  have identities := identity_update sound.identity identity
  rcases effect with same | ⟨handed, peers, sent⟩
  · refine ⟨identities, ?_, ?_⟩
    · simp only [apply, same, drop_length, map_nil, append_nil]
      intro out present
      obtain ⟨signer, honestSigner, form, noted⟩ := sound.wire out present
      exact ⟨signer, honestSigner, form, mem_cons_of_mem _ noted⟩
    · simp only [apply, same, drop_length, map_nil, append_nil,
        update_eq_self]
      intro other delivery present
      exact (sound.pending other delivery present).mono fun _ inside => inside
  · refine ⟨identities, ?_, ?_⟩
    · simp only [apply, sent, drop_left, map_cons, map_nil, mem_append,
        mem_singleton]
      rintro out (present | rfl)
      · obtain ⟨signer, honestSigner, form, noted⟩ := sound.wire out present
        exact ⟨signer, honestSigner, form, mem_cons_of_mem _ noted⟩
      · exact ⟨who, trusted, rfl, mem_cons_self⟩
    · have grown : world.wire ⊆
          (apply blake3 scheme world (.publish who topic message now)).wire :=
        subset_append_left _ _
      intro other delivery present
      simp only [apply, handed, drop_left, map_cons, map_nil] at present
      obtain rfl | same := eq_or_ne other who
      · rw [update_self] at present
        rcases mem_append.mp present with old | new
        · exact (sound.pending other delivery old).mono grown
        · obtain rfl := mem_singleton.mp new
          exact own
      · rw [update_of_ne same] at present
        exact (sound.pending other delivery present).mono grown

theorem sound_receive (sound : Sound blake3 scheme honest world) (who : Seed)
    (wire : GossipWireMessage) (now : Nat)
    (producible : Producible blake3 scheme honest world wire) :
    Sound blake3 scheme honest (apply blake3 scheme world (.receive who wire now)) := by
  have identity := @received_identity blake3 scheme (world.node who)
    wire.topic wire.signed now
  have verified := @received_verified blake3 scheme (world.node who)
    wire.topic wire.signed now
  rw [sound.identity] at identity
  simp only [apply]
  split
  · rename_i after result
    rw [result] at identity verified
    refine sound.queue _ who (world.pending who ++ [⟨wire.signed.message, some wire.signed⟩])
      (identity_update sound.identity identity) rfl rfl rfl ?_
    intro delivery present
    rcases mem_append.mp present with old | new
    · exact sound.pending who delivery old
    · obtain rfl := mem_singleton.mp new
      refine ⟨rfl, verified rfl, ?_⟩
      intro signer trusted key
      exact producible signer trusted key (verified rfl)
  · rename_i after result
    rw [result] at identity
    exact ⟨identity_update sound.identity identity, sound.wire, sound.pending⟩

/-- The subscriber takes the first delivery, if there is one. -/
theorem dispatch_pending :
    (dispatch world who now).pending =
      update world.pending who (world.pending who).tail ∧
    (dispatch world who now).node = world.node ∧ (dispatch world who now).wire = world.wire ∧
    (dispatch world who now).published = world.published ∧
    (dispatch world who now).delivered = world.delivered := by
  unfold dispatch
  cases queue : world.pending who with
  | nil =>
    have kept := update_eq_self who world.pending
    rw [queue] at kept
    exact ⟨kept.symm, rfl, rfl, rfl, rfl⟩
  | cons delivery rest =>
    obtain ⟨message, envelope⟩ := delivery
    cases message <;> exact ⟨rfl, rfl, rfl, rfl, rfl⟩

/-- Every action keeps what is true of reachable worlds. -/
theorem sound_step (possible : enabled blake3 scheme honest world action)
    (sound : Sound blake3 scheme honest world) :
    Sound blake3 scheme honest (apply blake3 scheme world action) := by
  cases action with
  | publish who topic message now =>
    exact sound_publish world sound topic now possible.1 possible.2
  | receive who wire now => exact sound_receive world sound who wire now possible.2
  | maintain who made now =>
    have identity := @call_identity blake3 scheme (world.node who) now made
      possible.2
    rw [sound.identity] at identity
    exact ⟨identity_update sound.identity identity, sound.wire, sound.pending⟩
  | dispatch who now =>
    obtain ⟨pending, node, wire, published, _⟩ := dispatch_pending world who now
    refine sound.queue _ who _ ?_ wire published pending ?_
    · intro other
      rw [apply, node, sound.identity]
    · intro delivery present
      exact sound.pending who delivery (mem_of_mem_tail present)
  | lag who =>
    refine sound.queue _ who _ sound.identity rfl rfl rfl ?_
    intro delivery present
    exact sound.pending who delivery (mem_of_mem_tail present)
  | register who table => exact ⟨sound.identity, sound.wire, sound.pending⟩
  | restart who meshNHigh messageCacheSize =>
    refine sound.queue _ who [] (identity_update sound.identity rfl) rfl rfl rfl ?_
    simp

/-- Every accepted message under an honest key was published by the owner of the
key, on the topic it was accepted for. -/
def TopicsAuthentic (scheme : Scheme) (honest : Set Seed) (world : World) : Prop :=
  ∀ entry ∈ world.delivered, ∀ signer ∈ honest,
    entry.2.signed.senderPublicKey = (scheme.publicKey signer).1 →
    ∃ owner ∈ honest, scheme.publicKey owner = scheme.publicKey signer ∧
      (owner, entry.2.topic, entry.2.signed.message) ∈ world.published

theorem TopicsAuthentic.mono {world : World} (authentic : TopicsAuthentic scheme honest world)
    (delivered : world'.delivered = world.delivered)
    (published : world.published ⊆ world'.published) :
    TopicsAuthentic scheme honest world' := by
  intro entry present signer trusted key
  rw [delivered] at present
  obtain ⟨owner, honestOwner, same, noted⟩ := authentic entry present signer trusted key
  exact ⟨owner, honestOwner, same, published noted⟩

/-- Every change of an entry comes from a valid envelope of the peer's own key,
whose honest owner signed it, and never from a status of the node itself. -/
def ChangesOwn (blake3 : List UInt8 → Bytes 32) (scheme : Scheme) (honest : Set Seed)
    (world : World) : Prop :=
  ∀ change ∈ world.changes, ∃ (signed : SignedGossipMessage) (key : PublicKey),
    change.delivery.envelope = some signed ∧ signed.message = change.delivery.message ∧
    signed.senderPublicKey = key.1 ∧ signed.verify blake3 scheme = .ok () ∧
    peerIdFromPublicBytes blake3 key = change.peer ∧ Vouched scheme honest world signed ∧
    ∀ peer status origin hops, change.delivery.message = .peerStatus peer status origin hops →
      origin ≠ peerId blake3 scheme change.node

theorem ChangesOwn.mono {world : World} (own : ChangesOwn blake3 scheme honest world)
    (changes : world'.changes = world.changes) (wire : world.wire ⊆ world'.wire) :
    ChangesOwn blake3 scheme honest world' := by
  intro change present
  rw [changes] at present
  obtain ⟨signed, key, came, message, keys, verified, peer, vouched, foreign⟩ := own change present
  exact ⟨signed, key, came, message, keys, verified, peer, vouched.mono wire, foreign⟩

end Proofs

/-! ## Short runs -/

section Topics

/-- A want of the second peer. -/
def sampleWant : GossipMessage :=
  .fileWant "1027e035b26b605dc6d4b78d07dc29660fcc3498" "src/main.rs" 1

def sampleEnvelope : SignedGossipMessage := .sign stamp sampleWant secondKey

def pair : Set Seed := {sampleKey, secondKey}

/-- The second peer wants a file of project a. -/
def wanted : World :=
  apply sampleDigest stamp (World.start 12 1000) (.publish secondKey "project/a" sampleWant 0)

/-- The first peer gets the envelope, with a topic beside it. -/
def received (topic : TopicId) : World :=
  apply sampleDigest stamp wanted (.receive sampleKey ⟨topic, sampleEnvelope⟩ 1)

end Topics

section Presence

/-- What the second peer says about a peer. -/
def told (subject : PeerId) : GossipMessage :=
  .peerStatus subject ⟨subject, "carol", .offline, 0, []⟩
    "1027e035b26b605dc6d4b78d07dc29660fcc3498" 0

def toldEnvelope (subject : PeerId) : SignedGossipMessage := .sign stamp (told subject) secondKey

variable (subject : PeerId)

/-- The first node knows the subject as connected. -/
def known (subject : PeerId) : World :=
  apply sampleDigest stamp (World.start 12 1000)
    (.register sampleKey (update (fun _ => none) subject (some ⟨.connected, 0⟩)))

/-- The envelope arrives. -/
def arrived (subject : PeerId) : World :=
  apply sampleDigest stamp (known subject) (.receive sampleKey ⟨"project/a", toldEnvelope subject⟩ 1)

end Presence

end Synergos.GossipWorld
