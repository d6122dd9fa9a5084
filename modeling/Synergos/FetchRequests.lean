import Synergos.FileExchange
import Synergos.GossipWorld

/-!
# Fetches and the network

A fetch ends by publishing a want. The gossip node drops a message whose id its
cache holds, and the id depends on the topic and the message alone, so a want
for a version that was asked for before is dropped for as long as the cache
remembers the first one. The fetch answers with success all the same.

In every run of a node that has an identity, a fetch puts its want on the
outbound queue exactly when the cache does not hold the id of the want.
-/

namespace Synergos.FetchRequests

open Base64url Envelope Identity ByteText Gossip GossipNodes GossipWorld FileExchange

/-- The messages handed to the sending task so far. -/
def outbound (exchange : Exchange) : List OutboundGossip :=
  (exchange.gossip.map GossipNode.outboundTx).getD []

/-- Between the two states the message went to the outbound queue for the topic. -/
def Queued (before after : Exchange) (topic : TopicId) (message : GossipMessage) : Prop :=
  ∃ sent ∈ (outbound after).drop (outbound before).length,
    sent.topic = topic ∧ sent.signed.message = message

/-- The message that a fetch is to put on the network. -/
def wantOf (exchange : Exchange) (request : FetchRequest) : GossipMessage :=
  .fileWant exchange.localPeerId request.fileId request.version

/-- The gossip node has the message in its cache. -/
def Remembered (blake3 : List UInt8 → Bytes 32) (exchange : Exchange) (topic : TopicId)
    (message : GossipMessage) : Prop :=
  ∃ node, exchange.gossip = some node ∧
    ∃ entry ∈ node.messageCache.seen, entry.1 = messageId blake3 topic message

/-- The exchange has a gossip node that signs what it publishes. -/
def Signs (who : Seed) (exchange : Exchange) : Prop :=
  ∃ node, exchange.gossip = some node ∧ node.identity = some who

section Proofs

variable {blake3 : List UInt8 → Bytes 32} {scheme : Scheme} {crc32 : List UInt8 → UInt32}
variable {who : Seed}

/-! ## Publishing one message -/

theorem known_iff (cache : MessageCache) (id : MessageId) (now : Nat) :
    (cache.checkAndInsert id now).1 = true ↔ ∃ entry ∈ cache.seen, entry.1 = id := by
  unfold MessageCache.checkAndInsert
  split
  · rename_i found
    simpa using found
  · rename_i missing
    simpa using missing

/-- What publishing does to the outbound queue of a node that signs. -/
theorem publish_outbound (node : GossipNode) (signs : node.identity = some who) (topic : TopicId)
    (message : GossipMessage) (now : Nat) :
    (publish blake3 scheme node topic message now).2.outboundTx =
      if (node.messageCache.checkAndInsert (messageId blake3 topic message) now).1 = true then
        node.outboundTx
      else node.outboundTx ++ [⟨topic, .sign scheme message who, meshPeers node topic⟩] := by
  unfold publish
  split
  · rename_i noted
    rw [noted, if_pos rfl]
  · rename_i noted
    rw [noted, if_neg Bool.false_ne_true]
    simp [envelope, signs, meshPeers]

theorem broadcast_queued_iff (exchange : Exchange) (signs : Signs who exchange)
    (projectId : ProjectId) (message : GossipMessage) (now : Moment) :
    Queued exchange (broadcast blake3 scheme exchange projectId message now)
        (projectTopic projectId) message ↔
      ¬ Remembered blake3 exchange (projectTopic projectId) message := by
  obtain ⟨node, attached, identity⟩ := signs
  have sent := @publish_outbound blake3 scheme who node identity (projectTopic projectId) message
    now.instant
  have remembered : Remembered blake3 exchange (projectTopic projectId) message ↔
      (node.messageCache.checkAndInsert
        (messageId blake3 (projectTopic projectId) message) now.instant).1 = true := by
    rw [known_iff]
    simp [Remembered, attached]
  simp only [Queued, outbound, broadcast, attached, Option.map_some, Option.getD_some]
  rw [remembered, sent]
  split
  · rename_i known
    simp [known]
  · rename_i unknown
    simp [unknown, SignedGossipMessage.sign]

/-! ## Nothing takes the identity away -/

theorem Signs.of_gossip {before after : Exchange} (signs : Signs who before)
    (same : after.gossip = before.gossip) : Signs who after := by
  obtain ⟨node, attached, identity⟩ := signs
  exact ⟨node, same.trans attached, identity⟩

variable {exchange : Exchange} {id : TransferId} {crc : UInt32}

theorem Signs.broadcast (signs : Signs who exchange) (projectId : ProjectId)
    (message : GossipMessage) (now : Moment) :
    Signs who (broadcast blake3 scheme exchange projectId message now) := by
  obtain ⟨node, attached, identity⟩ := signs
  exact ⟨(publish blake3 scheme node (projectTopic projectId) message now.instant).2,
    by simp only [FileExchange.broadcast, attached, Option.map_some],
    (publish_effect (projectTopic projectId) message now.instant identity).1⟩

theorem gossip_identity {node : GossipNode} (now : Nat) (made : GossipNodes.Call)
    (identity : node.identity = some who) :
    (GossipNodes.call blake3 scheme node now made).identity = some who := by
  cases made with
  | publish topic message => exact (publish_effect topic message now identity).1
  | receive topic signed => exact (received_identity node topic signed now).trans identity
  | receiveUnsigned topic message =>
    simp only [GossipNodes.call, onMessageReceived]
    split
    · exact identity
    · exact (deliver_identity node topic message now).trans identity
  | _ => exact identity

theorem signs_publishUpdates (signs : Signs who exchange)
    {notifications : List PublishNotification} (catalogCid : Option Cid) (now : Moment) :
    Signs who (publishUpdates blake3 scheme crc32 exchange notifications catalogCid now).2 := by
  have each : ∀ (files : List PublishNotification) (progress : Exchange × UInt32),
      Signs who progress.1 →
        Signs who (files.foldl (publishUpdate blake3 scheme crc32 now) progress).1 := by
    intro files
    induction files with
    | nil => exact fun _ => id
    | cons file rest ih =>
      intro progress signs
      exact ih _ ((signs.of_gossip rfl).broadcast _ _ _)
  have published := each notifications (exchange, 0) signs
  unfold publishUpdates
  dsimp only
  split
  · exact published
  · exact published.broadcast _ _ _

theorem gossip_enterFetch (exchange : Exchange) (request : FetchRequest) (id : TransferId)
    (now : Moment) : (enterFetch exchange request id now).gossip = exchange.gossip := by
  obtain ⟨_, same⟩ := enterFetch_frame exchange request id now
  rw [same]

theorem localPeerId_enterFetch (exchange : Exchange) (request : FetchRequest) (id : TransferId)
    (now : Moment) : (enterFetch exchange request id now).localPeerId = exchange.localPeerId := by
  obtain ⟨_, same⟩ := enterFetch_frame exchange request id now
  rw [same]

theorem signs_call (exchange : Exchange) (signs : Signs who exchange) (now : Moment)
    (made : FileExchange.Call) :
    Signs who (FileExchange.call blake3 scheme crc32 exchange now made).2 := by
  cases made with
  | fetchFile request id =>
    exact (signs.of_gossip (gossip_enterFetch exchange request id now)).broadcast _ _ _
  | shareFile request id => exact (signs.of_gossip rfl).broadcast _ _ _
  | publishUpdates projectId files catalogCid =>
    exact signs_publishUpdates signs catalogCid now
  | gossip made =>
    obtain ⟨node, attached, identity⟩ := signs
    exact ⟨GossipNodes.call blake3 scheme node now.instant made,
      by simp only [FileExchange.call, attached, Option.map_some],
      gossip_identity now.instant made identity⟩
  | _ => exact signs.of_gossip ((call_frame blake3 scheme crc32 exchange now _).gossip rfl)

theorem signs_run (calls : List (FileExchange.Call × Moment)) (exchange : Exchange)
    (signs : Signs who exchange) :
    Signs who ((machine blake3 scheme crc32).run exchange calls).2 :=
  (machine blake3 scheme crc32).run_keeps (Signs who)
    (fun state input signs => signs_call state signs input.2 input.1) calls exchange signs

end Proofs

/-! ## Which fetches reach the network -/

/-- After any run of a node that signs, a fetch succeeds, and its want goes to
the outbound queue exactly when the gossip node does not remember it. -/
theorem fetch_queued_iff_not_remembered (blake3 : List UInt8 → Bytes 32) (scheme : Scheme)
    (crc32 : List UInt8 → UInt32) (who : Seed) (start : Exchange) (signs : Signs who start)
    (calls : List (FileExchange.Call × Moment)) (request : FetchRequest) (id : TransferId)
    (now : Moment) :
    let reached := ((machine blake3 scheme crc32).run start calls).2
    let answer := fetchFile blake3 scheme reached request id now
    answer.1 = .ok id ∧
      (Queued reached answer.2 (projectTopic request.projectId) (wantOf reached request) ↔
        ¬ Remembered blake3 reached (projectTopic request.projectId) (wantOf reached request)) := by
  intro reached answer
  have signsThere : Signs who reached := signs_run calls start signs
  have same := gossip_enterFetch reached request id now
  have sent := @broadcast_queued_iff blake3 scheme who (enterFetch reached request id now)
    (signsThere.of_gossip same) request.projectId (wantOf reached request) now
  simp only [Queued, outbound, Remembered, same] at sent
  refine ⟨rfl, ?_⟩
  simpa only [Queued, outbound, Remembered, answer, fetchFile, broadcastWant,
    localPeerId_enterFetch, wantOf] using sent

/-! ## Asking twice -/

section Samples

instance (before after : Exchange) (topic : TopicId) (message : GossipMessage) :
    Decidable (Queued before after topic message) :=
  inferInstanceAs (Decidable (∃ sent ∈ (outbound after).drop (outbound before).length,
    sent.topic = topic ∧ sent.signed.message = message))

def samplePeerId : PeerId := "6c31041268f471609c79f5f2dbcc38e4a4ab2f4d"

/-- The request that restoring a version of a file leads to. -/
def restoreRequest (version : UInt64) : FetchRequest := ⟨"p", "a.txt", none, .interactive, version⟩

def sampleWantBytes (version : UInt64) : List UInt8 :=
  scopedBytes (projectTopic "p") (.fileWant samplePeerId "a.txt" version)

/-- A function with the digests of the wants for versions one and two. -/
def wantDigest (bytes : List UInt8) : Bytes 32 :=
  if bytes = sampleWantBytes 1 then
    ⟨[246, 156, 65, 248, 209, 16, 255, 125, 35, 92, 107, 226, 196, 110, 121, 78, 75, 37, 149, 180,
      229, 71, 228, 127, 160, 108, 235, 166, 218, 120, 158, 19], rfl⟩
  else if bytes = sampleWantBytes 2 then
    ⟨[173, 113, 96, 50, 73, 202, 3, 157, 146, 202, 11, 75, 98, 40, 165, 44, 10, 159, 183, 188, 31,
      246, 115, 124, 54, 123, 218, 109, 24, 43, 248, 206], rfl⟩
  else sampleDigest bytes

/-- A node with its identity, before anything happened. -/
def sampleStart : Exchange := withNetwork samplePeerId (some (fresh sampleKey 12 1000))

/-- The state after restores of the given versions. -/
def restored (versions : List UInt64) : Exchange :=
  ((machine wantDigest stamp fun _ => 0).run sampleStart (versions.map fun version =>
    (.fetchFile (restoreRequest version) (toString version), ⟨0, 0⟩))).2

/-- The first want for a version goes out. -/
theorem second_version_queued : Signs sampleKey sampleStart ∧
    Queued (restored [1])
      (fetchFile wantDigest stamp (restored [1]) (restoreRequest 2) "b" ⟨0, 0⟩).2
      (projectTopic "p") (wantOf (restored [1]) (restoreRequest 2)) := by
  have signs : Signs sampleKey sampleStart := ⟨fresh sampleKey 12 1000, rfl, rfl⟩
  refine ⟨signs, (fetch_queued_iff_not_remembered wantDigest stamp (fun _ => 0) sampleKey
    sampleStart signs [(.fetchFile (restoreRequest 1) "1", ⟨0, 0⟩)] (restoreRequest 2) "b"
    ⟨0, 0⟩).2.mpr ?_⟩
  rintro ⟨node, attached, entry, member, same⟩
  have held : (restored [1]).gossip.map (fun node => node.messageCache.seen.map Prod.fst) =
      some [messageId wantDigest (projectTopic "p") (wantOf (restored [1]) (restoreRequest 1))] ∧
      messageId wantDigest (projectTopic "p") (wantOf (restored [1]) (restoreRequest 1)) ≠
        messageId wantDigest (projectTopic "p") (wantOf (restored [1]) (restoreRequest 2)) := by
    decide +kernel
  have ids : node.messageCache.seen.map Prod.fst =
      [messageId wantDigest (projectTopic "p") (wantOf (restored [1]) (restoreRequest 1))] := by
    have there : (restored [1]).gossip = some node := attached
    simpa [there] using held.1
  have among : entry.1 ∈ node.messageCache.seen.map Prod.fst := List.mem_map_of_mem member
  rw [ids, List.mem_singleton] at among
  exact held.2 (among.symm.trans same)

/-- Version one, version two and version one again: the ledger has no match for
the last fetch, it succeeds, and no want goes out. -/
theorem repeated_version_not_queued :
    (registerFetch (restored [1, 2]) (restoreRequest 1) ⟨0, 0⟩).1 = .duplicate ∧
    (fetchFile wantDigest stamp (restored [1, 2]) (restoreRequest 1) "c" ⟨0, 0⟩).1.toOption =
      some "c" ∧
    ¬ Queued (restored [1, 2])
      (fetchFile wantDigest stamp (restored [1, 2]) (restoreRequest 1) "c" ⟨0, 0⟩).2
      (projectTopic "p") (wantOf (restored [1, 2]) (restoreRequest 1)) := by
  decide +kernel

end Samples

end Synergos.FetchRequests
