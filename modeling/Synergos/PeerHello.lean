import Synergos.Runs
import Synergos.Gossip

/-!
# The signed Hello of a connection

A client pins the certificate of the server it dials. The server asks for no
certificate; instead the client's first stream carries a signed Hello with its
peer id, its public key and a time, and the server takes the client for the
peer of that key once the signature checks. The signed bytes name neither the
server nor the connection.

Honest nodes dial each other and the adversary's nodes. The adversary keeps the
Hellos it receives and dials honest nodes with any first stream that ideal
signatures leave it: a Hello that an honest key accepts has the bytes of one it
has received.
-/

namespace Synergos.PeerHello

open Runs Base64url Envelope ByteText Identity List

/-! ## The Hello -/

def helloStreamMagic : List UInt8 := utf8 "HLO1"

structure Hello where
  peerId : PeerId
  publicKey : List UInt8
  tsMs : UInt64
  deriving DecidableEq

def Hello.signingBytes (hello : Hello) : List UInt8 :=
  utf8 hello.peerId ++ 0 :: (hello.publicKey ++ le64 hello.tsMs)

structure SignedHello where
  hello : Hello
  signature : List UInt8
  deriving DecidableEq

/-- The first stream of a connection. The body is what the third-party reader
makes of the bytes. -/
structure HelloStream where
  magic : List UInt8
  len : Nat
  body : Except String SignedHello

section Exchange

variable (blake3 : List UInt8 → Bytes 32) (scheme : Scheme)

/-- The Hello of a node at a time. -/
def SignedHello.new (identity : Seed) (nowMs : UInt64) : SignedHello :=
  let hello : Hello := ⟨peerId blake3 scheme identity, (scheme.publicKey identity).1, nowMs⟩
  ⟨hello, (scheme.sign identity hello.signingBytes).1⟩

def SignedHello.verify (signed : SignedHello) : Except SynergosNetError PeerId :=
  if keySize : signed.hello.publicKey.length = 32 then
    if signatureSize : signed.signature.length = 64 then
      let key : PublicKey := ⟨signed.hello.publicKey, keySize⟩
      let derived := peerIdFromPublicBytes blake3 key
      if derived ≠ signed.hello.peerId then
        .error (.identity "hello peer_id does not match public_key")
      else if scheme.check key signed.hello.signingBytes ⟨signed.signature, signatureSize⟩ then
        .ok derived
      else .error (.identity "hello signature invalid")
    else .error (.identity "hello signature length != 64")
  else .error (.identity "hello public_key length != 32")

/-- What a client sends right after its handshake; the length is that of the
written body. -/
def sendHello (identity : Seed) (nowMs : UInt64) (len : Nat) : HelloStream :=
  ⟨helloStreamMagic, len, .ok (.new blake3 scheme identity nowMs)⟩

/-- What a server makes of the first stream. Nothing within the time limit is an
error too. -/
def recvHello (first : Option HelloStream) : Except SynergosNetError PeerId :=
  match first with
  | none => .error (.identity "hello timed out")
  | some stream =>
      if stream.magic ≠ helloStreamMagic then
        .error (.identity ("unexpected first-stream magic: expected HLO1, got " ++
          toString stream.magic))
      else if 4096 < stream.len then
        .error (.identity ("hello too large: " ++ toString stream.len))
      else match stream.body with
        | .error text => .error (.serialization ("hello decode: " ++ text))
        | .ok signed => signed.verify blake3 scheme

/-- The check of a client on the key that the server's certificate proves. -/
def checkPeerBinding (expected : PeerId) (serverKey : PublicKey) : Bool :=
  peerIdFromPublicBytes blake3 serverKey = expected

end Exchange

/-- What an accepted Hello establishes. -/
theorem verify_ok (blake3 : List UInt8 → Bytes 32) (scheme : Scheme) (signed : SignedHello)
    (peer : PeerId) :
    signed.verify blake3 scheme = .ok peer ↔
      ∃ (key : PublicKey) (signature : Signature), signed.hello.publicKey = key.1 ∧
        signed.signature = signature.1 ∧ peerIdFromPublicBytes blake3 key = peer ∧
        signed.hello.peerId = peer ∧
        scheme.check key signed.hello.signingBytes signature = true := by
  constructor
  · intro accepted
    unfold SignedHello.verify at accepted
    split at accepted
    · rename_i keySize
      split at accepted
      · rename_i signatureSize
        by_cases named : peerIdFromPublicBytes blake3 ⟨_, keySize⟩ = signed.hello.peerId
        · by_cases checked : scheme.check ⟨_, keySize⟩ signed.hello.signingBytes
            ⟨_, signatureSize⟩ = true
          · simp only [ne_eq, named, not_true_eq_false, ↓reduceIte, checked,
              Except.ok.injEq] at accepted
            exact ⟨⟨_, keySize⟩, ⟨_, signatureSize⟩, rfl, rfl, named.trans accepted, accepted,
              checked⟩
          · simp [named, checked] at accepted
        · simp [named] at accepted
      · cases accepted
    · cases accepted
  · rintro ⟨⟨key, keySize⟩, ⟨signature, signatureSize⟩, rfl, rfl, derived, named, checked⟩
    simp [SignedHello.verify, keySize, signatureSize, derived, named, checked]

inductive Party where
  | node (who : Seed)
  | adversary

structure Connection where
  client : Party
  server : Party
  first : Option HelloStream

/-- What an accept returned: the connection by its number and the client's peer. -/
structure Accepted where
  server : Seed
  connection : Nat
  peerId : PeerId

structure World where
  connections : List Connection
  /-- The Hellos that the adversary received as a server. -/
  heard : List SignedHello
  accepted : List Accepted

inductive Action where
  | connect (client : Seed) (expected : PeerId) (server : Party) (serverKey : PublicKey)
      (nowMs : UInt64) (len : Nat)
  | dial (server : Seed) (first : Option HelloStream)
  | accept (server : Seed) (connection : Nat)

def World.start : World := ⟨[], [], []⟩

/-- Same key and same signed bytes. -/
def SameSigned (left right : SignedHello) : Prop :=
  left.hello.publicKey = right.hello.publicKey ∧
    left.hello.signingBytes = right.hello.signingBytes

section System

variable (blake3 : List UInt8 → Bytes 32) (scheme : Scheme) (honest : Set Seed)

/-- The handshake proves the server's key: that of an honest node only at this node. -/
def Authenticated (serverKey : PublicKey) : Party → Prop
  | .node who => who ∈ honest ∧ serverKey = scheme.publicKey who
  | .adversary => ∀ who ∈ honest, serverKey ≠ scheme.publicKey who

/-- What ideal signatures leave to the adversary: a Hello that an honest key
accepts has the bytes of one it has received. -/
def Producible (world : World) (first : Option HelloStream) : Prop :=
  ∀ stream signed peer, first = some stream → stream.body = .ok signed →
    signed.verify blake3 scheme = .ok peer →
    ∀ who ∈ honest, signed.hello.publicKey = (scheme.publicKey who).1 →
      ∃ heard ∈ world.heard, SameSigned heard signed

def enabled (world : World) : Action → Prop
  | .connect client expected server serverKey _ _ =>
      client ∈ honest ∧ checkPeerBinding blake3 expected serverKey = true ∧
        Authenticated scheme honest serverKey server
  | .dial server first => server ∈ honest ∧ Producible blake3 scheme honest world first
  | .accept server connection => server ∈ honest ∧
      ∃ found, world.connections[connection]? = some found ∧ found.server = .node server

/-- An honest client sends its own Hello; an accept that cannot read one closes
the connection and returns nothing. -/
def apply (world : World) : Action → World
  | .connect client _ server _ nowMs len =>
      { world with
        connections := world.connections ++
          [⟨.node client, server, some (sendHello blake3 scheme client nowMs len)⟩]
        heard := match server with
          | .adversary => .new blake3 scheme client nowMs :: world.heard
          | .node _ => world.heard }
  | .dial server first =>
      { world with connections := world.connections ++ [⟨.adversary, .node server, first⟩] }
  | .accept server connection =>
      match (world.connections[connection]?).map fun found =>
          recvHello blake3 scheme found.first with
      | some (.ok peer) =>
          { world with accepted := ⟨server, connection, peer⟩ :: world.accepted }
      | _ => world

def system : System World Action := ⟨enabled blake3 scheme honest, apply blake3 scheme⟩

end System

/-- The adversary does not send a Hello it has received. -/
def NotResent (world : World) : Action → Prop
  | .dial _ first => ∀ stream signed, first = some stream → stream.body = .ok signed →
      ¬ ∃ heard ∈ world.heard, SameSigned heard signed
  | _ => True

section Proofs

variable {blake3 : List UInt8 → Bytes 32} {scheme : Scheme} {honest : Set Seed}

/-- Honest clients sent their own Hello and the adversary none of an honest key. -/
def Clean (blake3 : List UInt8 → Bytes 32) (scheme : Scheme) (honest : Set Seed)
    (connection : Connection) : Prop :=
  match connection.client with
  | .node who => who ∈ honest ∧ ∃ nowMs len,
      connection.first = some (sendHello blake3 scheme who nowMs len)
  | .adversary => ∀ stream signed peer, connection.first = some stream →
      stream.body = .ok signed → signed.verify blake3 scheme = .ok peer →
      ∀ who ∈ honest, signed.hello.publicKey ≠ (scheme.publicKey who).1

structure Sound (blake3 : List UInt8 → Bytes 32) (scheme : Scheme) (honest : Set Seed)
    (world : World) : Prop where
  connections : ∀ connection ∈ world.connections, Clean blake3 scheme honest connection
  accepted : ∀ entry ∈ world.accepted, ∃ found,
    world.connections[entry.connection]? = some found ∧ found.server = .node entry.server ∧
      recvHello blake3 scheme found.first = .ok entry.peerId

/-- A new connection keeps what is known of the others. -/
theorem Sound.open {world : World} (sound : Sound blake3 scheme honest world) (world' : World)
    (opened : Connection) (connections : world'.connections = world.connections ++ [opened])
    (accepted : world'.accepted = world.accepted) (clean : Clean blake3 scheme honest opened) :
    Sound blake3 scheme honest world' := by
  refine ⟨?_, ?_⟩
  · intro connection present
    rw [connections] at present
    rcases mem_append.mp present with old | new
    · exact sound.connections connection old
    · rw [mem_singleton.mp new]
      exact clean
  · intro entry present
    rw [accepted] at present
    obtain ⟨found, place, server, received⟩ := sound.accepted entry present
    obtain ⟨inside, _⟩ := List.getElem?_eq_some_iff.mp place
    refine ⟨found, ?_, server, received⟩
    rw [connections, List.getElem?_append_left inside, place]

theorem sound_step (world : World) (action : Action)
    (possible : enabled blake3 scheme honest world action) (kept : NotResent world action)
    (sound : Sound blake3 scheme honest world) :
    Sound blake3 scheme honest (apply blake3 scheme world action) := by
  cases action with
  | connect client expected server serverKey nowMs len =>
    exact sound.open _ _ rfl rfl ⟨possible.1, nowMs, len, rfl⟩
  | dial server first =>
    refine sound.open _ _ rfl rfl ?_
    intro stream signed peer sent body verified who trusted key
    exact kept stream signed sent body
      (possible.2 stream signed peer sent body verified who trusted key)
  | accept server connection =>
    obtain ⟨_, found, place, serves⟩ := possible
    simp only [apply, place, Option.map_some]
    split
    · rename_i peer received
      refine ⟨sound.connections, ?_⟩
      intro entry present
      rcases mem_cons.mp present with rfl | old
      · exact ⟨found, place, serves, Option.some.inj received⟩
      · exact sound.accepted entry old
    · exact sound

end Proofs

/-! ## A direct connection and a resent Hello -/

def pair : Set Seed := {sampleKey, secondKey}

end Synergos.PeerHello
