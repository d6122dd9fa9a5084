import Synergos.Gossip

/-!
# The gossip node

A node keeps a mesh of peers for each topic and a cache of the messages it has
seen. Publishing notes the message, hands it to the local subscribers and, when
the node has an identity, to the sending task in a signed envelope. Received
envelopes are checked and then noted and handed on in the same way.

The cache is bounded: when it is full the oldest quarter goes. Its keys are
digests of the topic, a zero byte and the signed bytes. The order in which the
hash map lists its entries only breaks ties of time and is the order of
insertion here. The lazy mesh for topics outside the subscription is never
written and is left out.
-/

namespace Synergos.GossipNodes

open Base64url Envelope ByteText Identity Gossip
open Logs (split_unique)

abbrev TopicId := String

abbrev MessageId := Bytes 32

/-! ## The cache of seen messages -/

/-- Message ids with the time at which they were noted. -/
structure MessageCache where
  seen : List (MessageId × Nat)
  maxSize : Nat

/-- The entry that the heap of the source has on top: one of the latest time. -/
def newest : List (MessageId × Nat) → Option (MessageId × Nat)
  | [] => none
  | entry :: rest =>
      match newest rest with
      | none => some entry
      | some top => if entry.2 < top.2 then some top else some entry

/-- One step of the scan that keeps the given number of oldest entries. -/
def keepOldest (target : Nat) (oldest : List (MessageId × Nat)) (entry : MessageId × Nat) :
    List (MessageId × Nat) :=
  if oldest.length < target then entry :: oldest
  else match newest oldest with
    | none => oldest
    | some top => if entry.2 < top.2 then entry :: oldest.erase top else oldest

/-- Drop the oldest quarter. -/
def MessageCache.gc (cache : MessageCache) : MessageCache :=
  let target := max (cache.maxSize / 4) 1
  if cache.seen.length ≤ target then { cache with seen := [] }
  else
    let oldest := cache.seen.foldl (keepOldest target) []
    { cache with seen := cache.seen.filter fun entry => !oldest.any fun old => old.1 = entry.1 }

/-- Whether the id is known already; an unknown id is noted. -/
def MessageCache.checkAndInsert (cache : MessageCache) (id : MessageId) (now : Nat) :
    Bool × MessageCache :=
  if cache.seen.any (fun entry => entry.1 = id) then (true, cache)
  else
    let cache := if cache.maxSize ≤ cache.seen.length then cache.gc else cache
    (false, { cache with seen := cache.seen ++ [(id, now)] })

/-! ## The node -/

/-- What the sending task gets for each published message. -/
structure OutboundGossip where
  topic : TopicId
  signed : SignedGossipMessage
  peers : List PeerId

structure GossipNode where
  mesh : TopicId → Option (List PeerId)
  messageCache : MessageCache
  /-- Everything that went to the local subscribers. -/
  tx : List (TopicId × GossipMessage)
  outboundTx : List OutboundGossip
  meshNHigh : Nat
  identity : Option Seed
  requireSignature : Bool

def GossipNode.new (meshNHigh messageCacheSize : Nat) : GossipNode :=
  ⟨fun _ => none, ⟨[], messageCacheSize⟩, [], [], meshNHigh, none, false⟩

section Node

variable (blake3 : List UInt8 → Bytes 32) (scheme : Scheme)

/-- The text whose digest identifies a message on a topic. -/
def scopedBytes (topic : TopicId) (message : GossipMessage) : List UInt8 :=
  utf8 topic ++ 0 :: canonicalBytes message

def messageId (topic : TopicId) (message : GossipMessage) : MessageId :=
  blake3 (scopedBytes topic message)

def envelope (node : GossipNode) (message : GossipMessage) : Option SignedGossipMessage :=
  node.identity.map (SignedGossipMessage.sign scheme message)

def verifyEnvelope (signed : SignedGossipMessage) : Option GossipMessage :=
  match signed.verify blake3 scheme with
  | .error _ => none
  | .ok () => some signed.message

def setMesh (node : GossipNode) (topic : TopicId) (peers : Option (List PeerId)) : GossipNode :=
  { node with mesh := fun other => if other = topic then peers else node.mesh other }

def subscribe (node : GossipNode) (topic : TopicId) : GossipNode :=
  setMesh node topic (some ((node.mesh topic).getD []))

def unsubscribe (node : GossipNode) (topic : TopicId) : GossipNode := setMesh node topic none

/-- Cut the mesh of a topic down to its upper bound. -/
def enforceMeshBounds (node : GossipNode) (topic : TopicId) : GossipNode :=
  setMesh node topic ((node.mesh topic).map (List.take node.meshNHigh))

def graft (node : GossipNode) (topic : TopicId) (peer : PeerId) : GossipNode :=
  enforceMeshBounds (setMesh node topic (some ((node.mesh topic).getD [] ++ [peer]))) topic

def prune (node : GossipNode) (topic : TopicId) (peer : PeerId) : GossipNode :=
  setMesh node topic ((node.mesh topic).map (List.filter (fun other => other ≠ peer)))

/-- The heartbeat enforces the bound of every topic. -/
def heartbeat (node : GossipNode) : GossipNode :=
  { node with mesh := fun topic => (node.mesh topic).map (List.take node.meshNHigh) }

def meshPeers (node : GossipNode) (topic : TopicId) : List PeerId := (node.mesh topic).getD []

/-- Publish a message to the mesh of a topic. Returns the peers it goes to. -/
def publish (node : GossipNode) (topic : TopicId) (message : GossipMessage) (now : Nat) :
    List PeerId × GossipNode :=
  match node.messageCache.checkAndInsert (messageId blake3 topic message) now with
  | (true, _) => ([], node)
  | (false, cache) =>
      let node := { node with messageCache := cache, tx := node.tx ++ [(topic, message)] }
      let peers := meshPeers node topic
      match envelope scheme node message with
      | some signed => (peers, { node with outboundTx := node.outboundTx ++ [⟨topic, signed, peers⟩] })
      | none => (peers, node)

/-- Note a received message and hand it to the local subscribers. -/
def deliver (node : GossipNode) (topic : TopicId) (message : GossipMessage) (now : Nat) :
    Bool × GossipNode :=
  match node.messageCache.checkAndInsert (messageId blake3 topic message) now with
  | (true, _) => (false, node)
  | (false, cache) =>
      (true, { node with messageCache := cache, tx := node.tx ++ [(topic, message)] })

/-- A received envelope, with the topic that came beside it. -/
def onSignedMessageReceived (node : GossipNode) (topic : TopicId) (signed : SignedGossipMessage)
    (now : Nat) : Bool × GossipNode :=
  match verifyEnvelope blake3 scheme signed with
  | some message => deliver blake3 node topic message now
  | none => (false, node)

/-- The path without signatures. -/
def onMessageReceived (node : GossipNode) (topic : TopicId) (message : GossipMessage)
    (now : Nat) : Bool × GossipNode :=
  if node.requireSignature then (false, node) else deliver blake3 node topic message now

/-! ## The wire -/

/-- A message on the wire: the topic travels beside the envelope. -/
structure GossipWireMessage where
  topic : TopicId
  signed : SignedGossipMessage
  deriving DecidableEq

def maxGossipFrame : Nat := 256 * 1024

/-- A number of four bytes, most significant first. -/
def fromBe32 (bytes : List UInt8) : Nat := bytes.foldl (fun high byte => high * 256 + byte.toNat) 0

/-- One incoming stream, after its magic. The reader of message bodies is a
third-party library; the texts of its errors and of the stream's are theirs. -/
def handleGossipStream (decode : List UInt8 → Except String GossipWireMessage) (short : String)
    (node : GossipNode) (stream : List UInt8) (now : Nat) : Except SynergosNetError GossipNode :=
  if stream.length < 4 then .error (.quic ("gossip read len: " ++ short))
  else
    let len := fromBe32 (stream.take 4)
    if maxGossipFrame < len then
      .error (.serialization ("gossip frame too large: " ++ toString len))
    else if (stream.drop 4).length < len then .error (.quic ("gossip read body: " ++ short))
    else match decode ((stream.drop 4).take len) with
      | .error text => .error (.serialization ("gossip decode: " ++ text))
      | .ok wire => .ok (onSignedMessageReceived blake3 scheme node wire.topic wire.signed now).2

/-! ## Runs of one node -/

/-- The calls that a node gets. -/
inductive Call where
  | publish (topic : TopicId) (message : GossipMessage)
  | receive (topic : TopicId) (signed : SignedGossipMessage)
  | receiveUnsigned (topic : TopicId) (message : GossipMessage)
  | subscribe (topic : TopicId)
  | unsubscribe (topic : TopicId)
  | graft (topic : TopicId) (peer : PeerId)
  | prune (topic : TopicId) (peer : PeerId)
  | heartbeat

/-- The topic and the message that a call carries. -/
def Call.carried : Call → Option (TopicId × GossipMessage)
  | .publish topic message => some (topic, message)
  | .receive topic signed => some (topic, signed.message)
  | .receiveUnsigned topic message => some (topic, message)
  | _ => none

def call (node : GossipNode) (now : Nat) : Call → GossipNode
  | .publish topic message => (publish blake3 scheme node topic message now).2
  | .receive topic signed => (onSignedMessageReceived blake3 scheme node topic signed now).2
  | .receiveUnsigned topic message => (onMessageReceived blake3 node topic message now).2
  | .subscribe topic => subscribe node topic
  | .unsubscribe topic => unsubscribe node topic
  | .graft topic peer => graft node topic peer
  | .prune topic peer => prune node topic peer
  | .heartbeat => heartbeat node

/-- The calls one after another, each with the time it is made at. -/
def run (node : GossipNode) : List (Call × Nat) → GossipNode
  | [] => node
  | (first, now) :: rest => run (call blake3 scheme node now first) rest

end Node

/-! ## What the cache holds -/

theorem gc_subset (cache : MessageCache) : cache.gc.seen ⊆ cache.seen := by
  simp only [MessageCache.gc]
  split
  · exact List.nil_subset _
  · exact List.filter_sublist.subset

variable {cache : MessageCache} {id : MessageId} {now : Nat}

/-- The cache only ever gains the id it was asked about. -/
theorem checkAndInsert_seen {entry : MessageId × Nat}
    (present : entry ∈ (cache.checkAndInsert id now).2.seen) :
    entry ∈ cache.seen ∨ entry.1 = id := by
  unfold MessageCache.checkAndInsert at present
  split at present
  · exact .inl present
  · rcases List.mem_append.mp present with old | new
    · split at old
      · exact .inl (gc_subset cache old)
      · exact .inl old
    · rw [List.mem_singleton.mp new]
      exact .inr rfl

/-- An id is reported as known only if the cache holds it. -/
theorem checkAndInsert_known (known : (cache.checkAndInsert id now).1 = true) :
    ∃ entry ∈ cache.seen, entry.1 = id := by
  unfold MessageCache.checkAndInsert at known
  split at known
  · rename_i found
    simpa using found
  · cases known

section Runs

variable (blake3 : List UInt8 → Bytes 32) (scheme : Scheme)

/-- Every id of the cache is that of a message carried by one of the calls. -/
def Accounted (calls : List (Call × Nat)) (node : GossipNode) : Prop :=
  ∀ entry ∈ node.messageCache.seen, ∃ made ∈ calls, ∃ carried, made.1.carried = some carried ∧
    messageId blake3 carried.1 carried.2 = entry.1

variable {blake3 scheme}

theorem deliver_cache (node : GossipNode) (topic : TopicId) (message : GossipMessage)
    (now : Nat) : (deliver blake3 node topic message now).2.messageCache =
      (node.messageCache.checkAndInsert (messageId blake3 topic message) now).2 ∨
    (deliver blake3 node topic message now).2 = node := by
  unfold deliver
  split
  · exact .inr rfl
  · rename_i cache noted
    exact .inl (by rw [noted])

theorem publish_cache (node : GossipNode) (topic : TopicId) (message : GossipMessage)
    (now : Nat) : (publish blake3 scheme node topic message now).2.messageCache =
      (node.messageCache.checkAndInsert (messageId blake3 topic message) now).2 ∨
    (publish blake3 scheme node topic message now).2 = node := by
  unfold publish
  split
  · exact .inr rfl
  · rename_i cache noted
    left
    rw [noted]
    dsimp only
    split <;> rfl

/-- A call changes the cache by at most the id of what it carries. -/
theorem call_cache (node : GossipNode) (now : Nat) (made : Call) :
    (call blake3 scheme node now made).messageCache = node.messageCache ∨
      ∃ carried, made.carried = some carried ∧ (call blake3 scheme node now made).messageCache =
        (node.messageCache.checkAndInsert (messageId blake3 carried.1 carried.2) now).2 := by
  cases made with
  | publish topic message =>
    rcases @publish_cache blake3 scheme node topic message now with
      noted | kept
    · exact .inr ⟨(topic, message), rfl, noted⟩
    · exact .inl (by rw [call, kept])
  | receive topic signed =>
    simp only [call, onSignedMessageReceived, verifyEnvelope]
    cases signed.verify blake3 scheme with
    | error _ => exact .inl rfl
    | ok _ =>
      rcases @deliver_cache blake3 node topic signed.message now with noted | kept
      · exact .inr ⟨(topic, signed.message), rfl, noted⟩
      · exact .inl (by simp only [kept])
  | receiveUnsigned topic message =>
    simp only [call, onMessageReceived]
    split
    · exact .inl rfl
    · rcases @deliver_cache blake3 node topic message now with noted | kept
      · exact .inr ⟨(topic, message), rfl, noted⟩
      · exact .inl (by rw [kept])
  | _ => exact .inl rfl

theorem accounted_call (calls : List (Call × Nat)) (node : GossipNode) (now : Nat) (made : Call)
    (accounted : Accounted blake3 calls node) :
    Accounted blake3 (calls ++ [(made, now)]) (call blake3 scheme node now made) := by
  intro entry present
  rcases @call_cache blake3 scheme node now made with
    kept | ⟨carried, carries, noted⟩
  · rw [kept] at present
    obtain ⟨earlier, among, rest⟩ := accounted entry present
    exact ⟨earlier, by simp [among], rest⟩
  · rw [noted] at present
    rcases checkAndInsert_seen present with old | new
    · obtain ⟨earlier, among, rest⟩ := accounted entry old
      exact ⟨earlier, by simp [among], rest⟩
    · exact ⟨(made, now), by simp, carried, carries, new.symm⟩

/-- Whatever the calls, the cache holds only ids of messages they carried. -/
theorem accounted_run (before calls : List (Call × Nat)) (node : GossipNode)
    (accounted : Accounted blake3 before node) :
    Accounted blake3 (before ++ calls) (run blake3 scheme node calls) := by
  induction calls generalizing before node with
  | nil => simpa [run] using accounted
  | cons first rest ih =>
    obtain ⟨made, now⟩ := first
    have step := @accounted_call blake3 scheme before node now made accounted
    simpa [run] using ih (before ++ [(made, now)]) _ step

/-- A message is dropped as known only if a call carried one with its id. -/
theorem dropped_known {calls : List (Call × Nat)} {meshNHigh size : Nat} {topic : TopicId}
    {message : GossipMessage}
    (dropped : (deliver blake3 (run blake3 scheme (GossipNode.new meshNHigh size) calls) topic
      message now).1 = false) :
    ∃ made ∈ calls, ∃ carried, made.1.carried = some carried ∧
      messageId blake3 carried.1 carried.2 = messageId blake3 topic message := by
  have empty : Accounted blake3 [] (GossipNode.new meshNHigh size) := by
    intro entry present
    cases present
  have accounted := @accounted_run blake3 scheme [] calls _ empty
  unfold deliver at dropped
  split at dropped
  · rename_i cache noted
    obtain ⟨entry, present, found⟩ := checkAndInsert_known (by rw [noted])
    obtain ⟨made, among, carried, carries, id⟩ := accounted entry present
    exact ⟨made, by simpa using among, carried, carries, id.trans found⟩
  · cases dropped

end Runs

/-! ## Messages that nothing else passes for -/

/-- Nothing else of the signer passes for this message: no other message has its
bytes, a signature made for it is valid for no other, and a node that gets it
drops it as known only if it had this very message. Signatures and digests are
ideal where the statement uses them: a signature is valid only on the bytes it
was made for, and two texts with one digest are the same text. Topics are equal
or have no zero byte. -/
structure Singular (blake3 : List UInt8 → Bytes 32) (scheme : Scheme) (key : PublicKey)
    (message : GossipMessage) : Prop where
  bytes : Distinct (peerIdFromPublicBytes blake3 key) message
  signature : ∀ (identity : Seed) (other : GossipMessage), scheme.publicKey identity = key →
    (scheme.check key (signingBytes other) (scheme.sign identity (signingBytes message)) = true →
      signingBytes other = signingBytes message) →
    SignedGossipMessage.verify blake3 scheme ⟨other, key.1,
      (scheme.sign identity (signingBytes message)).1⟩ = .ok () → other = message
  known : ∀ (calls : List (Call × Nat)) (meshNHigh size : Nat) (topic : TopicId) (now : Nat),
    (∀ made ∈ calls, ∀ carried, made.1.carried = some carried →
      checkSender (peerIdFromPublicBytes blake3 key) carried.2 = .ok () ∧
      (carried.1 = topic ∨ (0 ∉ utf8 carried.1 ∧ 0 ∉ utf8 topic)) ∧
      (messageId blake3 carried.1 carried.2 = messageId blake3 topic message →
        scopedBytes carried.1 carried.2 = scopedBytes topic message)) →
    (deliver blake3 (run blake3 scheme (GossipNode.new meshNHigh size) calls) topic message
      now).1 = false →
    ∃ made ∈ calls, made.1.carried = some (topic, message)

/-- The topic and the message of a scoped text, when the topics are equal or
have no zero byte. -/
theorem scopedBytes_inj {topic topic' : TopicId} {message message' : GossipMessage}
    (free : topic = topic' ∨ (0 ∉ utf8 topic ∧ 0 ∉ utf8 topic'))
    (same : scopedBytes topic message = scopedBytes topic' message') :
    topic = topic' ∧ canonicalBytes message = canonicalBytes message' := by
  unfold scopedBytes at same
  rcases free with rfl | ⟨free, free'⟩
  · exact ⟨rfl, (List.cons.inj (List.append_cancel_left same)).2⟩
  · obtain ⟨topics, messages⟩ := split_unique _ _ free free' same
    exact ⟨utf8_injective topics, messages⟩

/-- Nothing else of the signer passes for a message exactly when the fields of
the message leave no other place to cut its bytes. -/
theorem singular_iff_unambiguous (blake3 : List UInt8 → Bytes 32) (scheme : Scheme)
    (key : PublicKey) (message : GossipMessage)
    (bound : checkSender (peerIdFromPublicBytes blake3 key) message = .ok ()) :
    Singular blake3 scheme key message ↔
      Unambiguous (peerIdFromPublicBytes blake3 key) message := by
  constructor
  · intro singular
    exact (distinct_iff bound).mp singular.bytes
  · intro unambiguous
    have distinct := (distinct_iff bound).mpr unambiguous
    refine ⟨distinct, ?_, ?_⟩
    · intro identity other own ideal accepted
      obtain ⟨key', signature, keys, signatures, boundOther, checked⟩ :=
        (verify_ok blake3 scheme _).mp accepted
      obtain rfl : key = key' := Subtype.ext keys
      obtain rfl : scheme.sign identity (signingBytes message) = signature :=
        Subtype.ext signatures
      exact distinct other boundOther (ideal checked)
    · intro calls meshNHigh size topic now ideal dropped
      obtain ⟨made, among, ⟨topic', message'⟩, carries, ids⟩ :=
        dropped_known dropped
      obtain ⟨boundOther, topics, digests⟩ := ideal made among _ carries
      obtain ⟨rfl, same⟩ := scopedBytes_inj topics (digests ids)
      obtain rfl := distinct message' boundOther same
      exact ⟨made, among, carries⟩

/-- A want is singular whatever its fields. -/
theorem want_singular :
    checkSender (peerIdFromPublicBytes sampleDigest sampleKey)
      (.fileWant "6c31041268f471609c79f5f2dbcc38e4a4ab2f4d" "src/main.rs" 3) = .ok () ∧
    Singular sampleDigest stamp sampleKey
      (.fileWant "6c31041268f471609c79f5f2dbcc38e4a4ab2f4d" "src/main.rs" 3) := by
  have bound : checkSender (peerId sampleDigest stamp sampleKey)
      (.fileWant "6c31041268f471609c79f5f2dbcc38e4a4ab2f4d" "src/main.rs" 3) = .ok () := by
    rw [samplePeer]
    rfl
  exact ⟨bound, (singular_iff_unambiguous sampleDigest stamp sampleKey _ bound).mpr trivial⟩

/-- A status of the sample peer. -/
def sampleStatus (subject displayName : String) : GossipMessage :=
  .peerStatus "6c31041268f471609c79f5f2dbcc38e4a4ab2f4d" ⟨subject, displayName, .active, 0, []⟩
    "6c31041268f471609c79f5f2dbcc38e4a4ab2f4d" 0

theorem sampleStatus_own {subject displayName : String} :
    checkSender (peerId sampleDigest stamp sampleKey)
      (sampleStatus subject displayName) = .ok () := by
  rw [samplePeer]
  rfl

/-- The end of the subject's id and the start of its display name are not marked:
two different statuses of one signer have the same bytes, and the signature of
one is valid for the other. -/
theorem status_bytes_shared :
    checkSender (peerIdFromPublicBytes sampleDigest sampleKey)
      (sampleStatus "6c31041268f471609c79f5f2dbcc38e4a4ab2f4d" "bob") = .ok () ∧
    checkSender (peerIdFromPublicBytes sampleDigest sampleKey)
      (sampleStatus "6c31041268f471609c79f5f2dbcc38e4a4ab2f4db" "ob") = .ok () ∧
    canonicalBytes (sampleStatus "6c31041268f471609c79f5f2dbcc38e4a4ab2f4d" "bob") =
      canonicalBytes (sampleStatus "6c31041268f471609c79f5f2dbcc38e4a4ab2f4db" "ob") ∧
    sampleStatus "6c31041268f471609c79f5f2dbcc38e4a4ab2f4d" "bob" ≠
      sampleStatus "6c31041268f471609c79f5f2dbcc38e4a4ab2f4db" "ob" ∧
    SignedGossipMessage.verify sampleDigest stamp
      ⟨sampleStatus "6c31041268f471609c79f5f2dbcc38e4a4ab2f4db" "ob", sampleKey.1,
        (stamp.sign sampleKey (signingBytes
          (sampleStatus "6c31041268f471609c79f5f2dbcc38e4a4ab2f4d" "bob"))).1⟩ = .ok () := by
  have same : canonicalBytes (sampleStatus "6c31041268f471609c79f5f2dbcc38e4a4ab2f4d" "bob") =
      canonicalBytes (sampleStatus "6c31041268f471609c79f5f2dbcc38e4a4ab2f4db" "ob") := by decide
  refine ⟨sampleStatus_own, sampleStatus_own, same, by decide, ?_⟩
  refine (verify_ok sampleDigest stamp _).mpr ⟨sampleKey, _, rfl, rfl, sampleStatus_own, ?_⟩
  rw [show signingBytes (sampleStatus "6c31041268f471609c79f5f2dbcc38e4a4ab2f4d" "bob") = _ from same]
  exact stamp_correct sampleKey

end Synergos.GossipNodes
