import Synergos.Identity

/-!
# Gossip messages and their signed bytes

Five kinds of messages travel in signed envelopes. The signed bytes are a tag
and then the fields one after another, with a zero byte after the elements of
lists and nothing between the other texts. The sender that a message names must
be the peer of the signing key; the field that names it is different for each
kind, and alerts name none.

Two kinds are read back from their bytes in one way only. The other three are
unless the fields leave another place to cut: `Unambiguous` says when there is
none.
-/

namespace Synergos.Gossip

open Base64url Envelope ByteText Identity List

abbrev FileId := String

abbrev ChunkId := String

abbrev Cid := String

inductive ActivityState where
  | active | idle | away | offline
  deriving DecidableEq, Repr

/-- The discriminant that the source writes. -/
def ActivityState.code : ActivityState → UInt8
  | .active => 0
  | .idle => 1
  | .away => 2
  | .offline => 3

structure PeerActivityStatus where
  peerId : PeerId
  displayName : String
  state : ActivityState
  lastActive : UInt64
  workingOn : List FileId
  deriving DecidableEq, Repr

inductive GossipMessage where
  | peerStatus (peerId : PeerId) (status : PeerActivityStatus) (origin : PeerId) (hops : UInt8)
  | catalogUpdate (projectId : String) (rootCrc : UInt32) (updateCount : UInt64)
      (updatedChunks : List ChunkId) (catalogCid : Option Cid) (publisher : PeerId)
  | fileWant (requester : PeerId) (fileId : FileId) (version : UInt64)
  | fileOffer (sender : PeerId) (fileId : FileId) (version size : UInt64) (crc : UInt32)
      (contentHash : Bytes 32)
  | conflictAlert (fileId : FileId) (conflictingNodes : List PeerId) (theirVersions : List UInt64)
  deriving DecidableEq

/-- The signed bytes of a message. -/
def signingBytes : GossipMessage → List UInt8
  | .peerStatus peerId status origin hops =>
      utf8 "peer_status" ++ (utf8 peerId ++ (utf8 origin ++ hops :: (utf8 status.peerId ++
        (utf8 status.displayName ++ status.state.code :: (le64 status.lastActive ++
          terminated status.workingOn)))))
  | .catalogUpdate projectId rootCrc updateCount updatedChunks catalogCid publisher =>
      utf8 "catalog_update" ++ (utf8 projectId ++ (le32 rootCrc ++ (le64 updateCount ++
        (terminated updatedChunks ++ (terminated catalogCid.toList ++ utf8 publisher)))))
  | .fileWant requester fileId version =>
      utf8 "file_want" ++ (utf8 requester ++ (utf8 fileId ++ le64 version))
  | .fileOffer sender fileId version size crc contentHash =>
      utf8 "file_offer" ++ (utf8 sender ++ (utf8 fileId ++ (le64 version ++ (le64 size ++
        (le32 crc ++ contentHash.1)))))
  | .conflictAlert fileId conflictingNodes theirVersions =>
      utf8 "conflict_alert" ++ (utf8 fileId ++ (terminated conflictingNodes ++
        theirVersions.flatMap le64))

def canonicalBytes (message : GossipMessage) : List UInt8 := signingBytes message

/-- The peer of the signing key is the sender that the message names. An empty
publisher is let through for old peers, and alerts name no sender. -/
def checkSender (derived : PeerId) : GossipMessage → Except SynergosNetError Unit
  | .peerStatus _ _ origin _ =>
      if origin ≠ derived then
        .error (.identity "gossip origin peer_id mismatch with signer")
      else .ok ()
  | .fileOffer sender _ _ _ _ _ =>
      if sender ≠ derived then
        .error (.identity "gossip FileOffer sender mismatch with signer")
      else .ok ()
  | .fileWant requester _ _ =>
      if requester ≠ derived then
        .error (.identity "gossip FileWant requester mismatch with signer")
      else .ok ()
  | .catalogUpdate _ _ _ _ _ publisher =>
      if publisher ≠ "" ∧ publisher ≠ derived then
        .error (.identity "gossip CatalogUpdate publisher mismatch with signer")
      else .ok ()
  | .conflictAlert _ _ _ => .ok ()

/-- A message with the key and the signature of its sender. Both are byte
vectors of any length on the wire. -/
structure SignedGossipMessage where
  message : GossipMessage
  senderPublicKey : List UInt8
  signature : List UInt8
  deriving DecidableEq

section Signing

variable (blake3 : List UInt8 → Bytes 32) (scheme : Scheme)

def SignedGossipMessage.sign (message : GossipMessage) (identity : Seed) : SignedGossipMessage :=
  ⟨message, (scheme.publicKey identity).1, (scheme.sign identity (signingBytes message)).1⟩

def SignedGossipMessage.verify (signed : SignedGossipMessage) : Except SynergosNetError Unit :=
  if keySize : signed.senderPublicKey.length = 32 then
    if signatureSize : signed.signature.length = 64 then do
      let key : PublicKey := ⟨signed.senderPublicKey, keySize⟩
      checkSender (peerIdFromPublicBytes blake3 key) signed.message
      if scheme.check key (signingBytes signed.message) ⟨signed.signature, signatureSize⟩ then
        pure ()
      else .error (.identity "gossip signature invalid")
    else .error (.identity "gossip signature length != 64")
  else .error (.identity "gossip sender_public_key length != 32")

end Signing

/-- What an accepted envelope establishes. -/
theorem verify_ok (blake3 : List UInt8 → Bytes 32) (scheme : Scheme)
    (signed : SignedGossipMessage) :
    signed.verify blake3 scheme = .ok () ↔
      ∃ (key : PublicKey) (signature : Signature), signed.senderPublicKey = key.1 ∧
        signed.signature = signature.1 ∧
        checkSender (peerIdFromPublicBytes blake3 key) signed.message = .ok () ∧
        scheme.check key (signingBytes signed.message) signature = true := by
  constructor
  · intro accepted
    unfold SignedGossipMessage.verify at accepted
    split at accepted
    · rename_i keySize
      split at accepted
      · rename_i signatureSize
        obtain ⟨_, bound, rest⟩ := (Jcs.bind_ok _ _ _).mp accepted
        refine ⟨⟨_, keySize⟩, ⟨_, signatureSize⟩, rfl, rfl, bound, ?_⟩
        by_contra rejected
        simp [rejected] at rest
      · exact absurd accepted (by simp)
    · exact absurd accepted (by simp)
  · rintro ⟨⟨key, keySize⟩, ⟨signature, signatureSize⟩, rfl, rfl, bound, checked⟩
    simp [SignedGossipMessage.verify, keySize, signatureSize, bound, checked]


/-! ## Other places to cut -/

/-- A status text cut into a first text, the signer's id, a byte, a second text,
a state, eight bytes and terminated texts. -/
def StatusCut (signer : PeerId) (text front names : List UInt8) : Prop :=
  ∃ (hops : UInt8) (state : ActivityState) (last files : List UInt8),
    IsText front ∧ IsText names ∧ last.length = 8 ∧ Closed files ∧
    text = front ++ (utf8 signer ++ hops :: (names ++ state.code :: (last ++ files)))

/-- A catalog text cut into a first text, twelve bytes, terminated texts and the
publisher. -/
def CatalogCut (signer : PeerId) (text front : List UInt8) (publisher : PeerId) : Prop :=
  ∃ numbers ids : List UInt8, IsText front ∧ numbers.length = 12 ∧ Closed ids ∧
    (publisher = "" ∨ publisher = signer) ∧ text = front ++ (numbers ++ (ids ++ utf8 publisher))

/-- An alert text cut into a first text and blocks of eight bytes. -/
def AlertCut (text front : List UInt8) : Prop :=
  ∃ blocks : List UInt8, IsText front ∧ 8 ∣ blocks.length ∧ text = front ++ blocks

/-- At most one text, and without the zero character. -/
def Plain (items : List String) : Prop :=
  items = [] ∨ ∃ item, items = [item] ∧ '\x00' ∉ item.toList

/-- Nothing in the fields of the message leaves another place to cut. -/
def Unambiguous (signer : PeerId) : GossipMessage → Prop
  | .peerStatus peerId status _ hops =>
      status.peerId = "" ∧ status.displayName = "" ∧ Plain status.workingOn ∧
      ∀ front names, StatusCut signer (utf8 peerId ++ (utf8 signer ++ hops ::
        status.state.code :: (le64 status.lastActive ++ terminated status.workingOn))) front names →
        front = utf8 peerId ∧ names = []
  | .catalogUpdate projectId rootCrc updateCount updatedChunks catalogCid publisher =>
      updatedChunks = [] ∧ catalogCid = none ∧
      ∀ front owner, CatalogCut signer (utf8 projectId ++ (le32 rootCrc ++ (le64 updateCount ++
        utf8 publisher))) front owner → front = utf8 projectId ∧ owner = publisher
  | .fileWant _ _ _ => True
  | .fileOffer _ _ _ _ _ _ => True
  | .conflictAlert fileId conflictingNodes theirVersions =>
      conflictingNodes = [] ∧ (∀ front, fileId ≠ front ++ "\x00") ∧
      ∀ front, AlertCut (utf8 fileId ++ theirVersions.flatMap le64) front → front = utf8 fileId

/-- No other message of this signer has the same bytes. -/
def Distinct (signer : PeerId) (message : GossipMessage) : Prop :=
  ∀ other, checkSender signer other = .ok () → canonicalBytes other = canonicalBytes message →
    other = message

/-! ### The kinds are told apart -/

theorem status_tag : utf8 "peer_status" =
    [112, 101, 101, 114, 95, 115, 116, 97, 116, 117, 115] := by decide

theorem catalog_tag : utf8 "catalog_update" =
    [99, 97, 116, 97, 108, 111, 103, 95, 117, 112, 100, 97, 116, 101] := by decide

theorem want_tag : utf8 "file_want" = [102, 105, 108, 101, 95, 119, 97, 110, 116] := by decide

theorem offer_tag : utf8 "file_offer" = [102, 105, 108, 101, 95, 111, 102, 102, 101, 114] := by
  decide

theorem alert_tag : utf8 "conflict_alert" =
    [99, 111, 110, 102, 108, 105, 99, 116, 95, 97, 108, 101, 114, 116] := by decide

theorem tags_apart {left right : GossipMessage}
    (same : canonicalBytes left = canonicalBytes right) : left.ctorIdx = right.ctorIdx := by
  cases left <;> cases right <;>
    first
    | rfl
    | simp [canonicalBytes, signingBytes, status_tag, catalog_tag, want_tag, offer_tag,
        alert_tag] at same

/-! ### One kind at a time -/

section Kinds

variable {signer : PeerId}

/-- The rest of a want or an offer has a fixed length, and its sender is known. -/
theorem fileWant_distinct (fileId : FileId) (version : UInt64) :
    Distinct signer (.fileWant signer fileId version) := by
  intro other bound same
  cases other with
  | fileWant requester fileId' version' =>
    obtain rfl : requester = signer := by
      by_contra foreign
      simp [checkSender, foreign] at bound
    simp only [canonicalBytes, signingBytes, append_cancel_left_eq] at same
    obtain ⟨files, versions⟩ := append_inj' same (by simp)
    rw [utf8_injective files, le64_injective versions]
  | _ => exact absurd (tags_apart same) (by simp [GossipMessage.ctorIdx])

theorem fileOffer_distinct (fileId : FileId) (version size : UInt64) (crc : UInt32)
    (contentHash : Bytes 32) :
    Distinct signer (.fileOffer signer fileId version size crc contentHash) := by
  intro other bound same
  cases other with
  | fileOffer sender fileId' version' size' crc' contentHash' =>
    obtain rfl : sender = signer := by
      by_contra foreign
      simp [checkSender, foreign] at bound
    simp only [canonicalBytes, signingBytes, append_cancel_left_eq] at same
    obtain ⟨files, rest⟩ := append_inj' same (by simp [contentHash.2, contentHash'.2])
    obtain ⟨versions, rest⟩ := append_inj rest (by simp)
    obtain ⟨sizes, rest⟩ := append_inj rest (by simp)
    obtain ⟨crcs, hashes⟩ := append_inj rest (by simp)
    rw [utf8_injective files, le64_injective versions, le64_injective sizes, le32_injective crcs,
      Subtype.ext hashes]
  | _ => exact absurd (tags_apart same) (by simp [GossipMessage.ctorIdx])

theorem conflictAlert_distinct (fileId : FileId) (conflictingNodes : List PeerId)
    (theirVersions : List UInt64) :
    Distinct signer (.conflictAlert fileId conflictingNodes theirVersions) ↔
      Unambiguous signer (.conflictAlert fileId conflictingNodes theirVersions) := by
  constructor
  · intro distinct
    have alike (fileId' : FileId) (nodes' : List PeerId) (versions' : List UInt64)
        (same : utf8 fileId' ++ (terminated nodes' ++ versions'.flatMap le64) =
          utf8 fileId ++ (terminated conflictingNodes ++ theirVersions.flatMap le64)) :
        fileId' = fileId ∧ nodes' = conflictingNodes ∧ versions' = theirVersions := by
      have equal := distinct (.conflictAlert fileId' nodes' versions') rfl
        (by simp [canonicalBytes, signingBytes, same])
      simpa using equal
    obtain rfl : conflictingNodes = [] := by
      cases conflictingNodes with
      | nil => rfl
      | cons node rest =>
        -- the first node and its terminator also read as the end of the file id
        have merged := alike (fileId ++ node ++ "\x00") rest theirVersions
          (by simp [terminated_cons, utf8_zero])
        simp at merged
    refine ⟨rfl, ?_, ?_⟩
    · rintro front rfl
      have split := alike "" [front] theirVersions (by simp [terminated, utf8_zero])
      simp at split
    · rintro _ ⟨blocks, ⟨front, rfl⟩, ⟨count, size⟩, cut⟩
      obtain ⟨versions, rfl⟩ := le64s_surjective blocks size
      have moved := alike front [] versions (by simpa [terminated] using cut.symm)
      rw [moved.1]
  · rintro ⟨rfl, unclosed, sole⟩ other bound same
    cases other with
    | conflictAlert fileId' nodes' versions' =>
      simp only [canonicalBytes, signingBytes, append_cancel_left_eq] at same
      have cut := sole (utf8 (fileId' ++ joined nodes'))
        ⟨versions'.flatMap le64, ⟨_, rfl⟩, by simp, by
          rw [utf8_append, utf8_joined, append_assoc, same]; rfl⟩
      have text : fileId' ++ joined nodes' = fileId := utf8_injective cut
      obtain rfl : nodes' = [] := by
        by_contra some
        obtain ⟨front, form⟩ := joined_end some
        exact unclosed (fileId' ++ front) (by rw [← text, form, String.append_assoc])
      have files : fileId' = fileId := by simpa [joined] using text
      subst files
      have versions := append_cancel_left same
      obtain rfl : versions' = theirVersions :=
        le64s_injective (by simpa [terminated] using versions)
      rfl
    | _ => exact absurd (tags_apart same) (by simp [GossipMessage.ctorIdx])

theorem catalogUpdate_distinct {projectId : String} {rootCrc : UInt32} {updateCount : UInt64}
    {updatedChunks : List ChunkId} {catalogCid : Option Cid} {publisher : PeerId}
    (bound : checkSender signer (.catalogUpdate projectId rootCrc updateCount updatedChunks
      catalogCid publisher) = .ok ()) :
    Distinct signer (.catalogUpdate projectId rootCrc updateCount updatedChunks catalogCid
      publisher) ↔
      Unambiguous signer (.catalogUpdate projectId rootCrc updateCount updatedChunks catalogCid
        publisher) := by
  have named {project : String} {crc : UInt32} {count : UInt64} {chunks : List ChunkId}
      {cid : Option Cid} {owner : PeerId} :
      checkSender signer (.catalogUpdate project crc count chunks cid owner) = .ok () ↔
        owner = "" ∨ owner = signer := by
    by_cases empty : owner = "" <;> by_cases own : owner = signer <;>
      simp [checkSender, empty, own]
  constructor
  · intro distinct
    have alike (project' : String) (crc' : UInt32) (count' : UInt64) (chunks' : List ChunkId)
        (cid' : Option Cid) (owner' : PeerId) (bound' : owner' = "" ∨ owner' = signer)
        (same : utf8 project' ++ (le32 crc' ++ (le64 count' ++ (terminated chunks' ++
            (terminated cid'.toList ++ utf8 owner')))) =
          utf8 projectId ++ (le32 rootCrc ++ (le64 updateCount ++ (terminated updatedChunks ++
            (terminated catalogCid.toList ++ utf8 publisher))))) :
        project' = projectId ∧ chunks' = updatedChunks ∧ cid' = catalogCid ∧
          owner' = publisher := by
      have equal := distinct (.catalogUpdate project' crc' count' chunks' cid' owner')
        (named.mpr bound') (by simp [canonicalBytes, signingBytes, same])
      obtain ⟨projects, _, _, chunks, cids, owners⟩ := GossipMessage.catalogUpdate.inj equal
      exact ⟨projects, chunks, cids, owners⟩
    obtain rfl : catalogCid = none := by
      cases catalogCid with
      | none => rfl
      | some cid =>
        -- the snapshot id also reads as one more chunk
        have moved := alike projectId rootCrc updateCount (updatedChunks ++ [cid]) none publisher
          (named.mp bound) (by simp [terminated])
        simp at moved
    obtain rfl : updatedChunks = [] := by
      by_contra some
      have split := dropLast_append_getLast some
      have moved := alike projectId rootCrc updateCount updatedChunks.dropLast
        (updatedChunks.getLast some) publisher (named.mp bound) (by
          rw [Option.toList_some, ← append_assoc (terminated updatedChunks.dropLast),
            ← terminated_append, split]
          simp [terminated])
      simp at moved
    refine ⟨rfl, rfl, ?_⟩
    rintro _ owner ⟨numbers, _, ⟨front, rfl⟩, size, ⟨items, rfl⟩, own, cut⟩
    obtain ⟨crc, low⟩ := le32_surjective (numbers.take 4) (by simp [size])
    obtain ⟨count, high⟩ := le64_surjective (numbers.drop 4) (by simp [size])
    have whole : numbers = le32 crc ++ le64 count := by rw [low, high, take_append_drop]
    have moved := alike front crc count items none owner own (by
      rw [whole] at cut
      simpa [terminated] using cut.symm)
    exact ⟨by rw [moved.1], moved.2.2.2⟩
  · rintro ⟨rfl, rfl, sole⟩ other bound' same
    cases other with
    | catalogUpdate project' crc' count' chunks' cid' owner' =>
      simp only [canonicalBytes, signingBytes, append_cancel_left_eq] at same
      obtain ⟨fronts, owners⟩ := sole (utf8 project') owner'
        ⟨le32 crc' ++ le64 count', terminated (chunks' ++ cid'.toList), ⟨_, rfl⟩, by simp, ⟨_, rfl⟩,
          named.mp bound', by simpa [terminated_append, terminated] using same.symm⟩
      obtain rfl := utf8_injective fronts
      subst owners
      have rest := append_cancel_left same
      obtain ⟨crcs, rest⟩ := append_inj rest (by simp)
      obtain ⟨counts, rest⟩ := append_inj rest (by simp)
      have items : terminated (chunks' ++ cid'.toList) = [] := by
        have plain : (terminated chunks' ++ terminated cid'.toList) ++ utf8 owner' =
            [] ++ utf8 owner' := by simpa [terminated] using rest
        rw [terminated_append]
        exact append_cancel_right plain
      obtain ⟨chunks, cids⟩ := append_eq_nil_iff.mp (terminated_eq_nil items)
      rw [le32_injective crcs, le64_injective counts, chunks, Option.toList_eq_nil_iff.mp cids]
    | _ => exact absurd (tags_apart same) (by simp [GossipMessage.ctorIdx])

theorem code_injective {state state' : ActivityState} (same : state.code = state'.code) :
    state = state' := by
  cases state <;> cases state' <;> first | rfl | exact absurd same (by decide)

/-- Lists of terminated texts are read back when there is at most one plain text. -/
theorem plain_unique {items items' : List String} (plain : Plain items)
    (same : terminated items' = terminated items) : items' = items := by
  rcases plain with rfl | ⟨item, rfl, free⟩
  · exact terminated_eq_nil same
  · exact terminated_singleton free same

theorem peerStatus_distinct (peerId : PeerId) (status : PeerActivityStatus) (hops : UInt8) :
    Distinct signer (.peerStatus peerId status signer hops) ↔
      Unambiguous signer (.peerStatus peerId status signer hops) := by
  obtain ⟨subject, displayName, state, lastActive, workingOn⟩ := status
  constructor
  · intro distinct
    have alike (peerId' : PeerId) (status' : PeerActivityStatus) (hops' : UInt8)
        (same : utf8 peerId' ++ (utf8 signer ++ hops' :: (utf8 status'.peerId ++
            (utf8 status'.displayName ++ status'.state.code :: (le64 status'.lastActive ++
              terminated status'.workingOn)))) =
          utf8 peerId ++ (utf8 signer ++ hops :: (utf8 subject ++ (utf8 displayName ++
            state.code :: (le64 lastActive ++ terminated workingOn))))) :
        peerId' = peerId ∧ status' = ⟨subject, displayName, state, lastActive, workingOn⟩ := by
      have equal := distinct (.peerStatus peerId' status' signer hops') (by simp [checkSender])
        (by simp [canonicalBytes, signingBytes, same])
      obtain ⟨peers, statuses, _, _⟩ := GossipMessage.peerStatus.inj equal
      exact ⟨peers, statuses⟩
    obtain rfl : subject = "" := by
      have moved := alike peerId ⟨"", subject ++ displayName, state, lastActive, workingOn⟩ hops
        (by simp)
      exact (PeerActivityStatus.mk.inj moved.2).1.symm
    obtain rfl : displayName = "" := by
      have moved := alike peerId ⟨displayName, "", state, lastActive, workingOn⟩ hops (by simp)
      exact (PeerActivityStatus.mk.inj moved.2).1
    have files (workingOn' : List FileId) (same : terminated workingOn' = terminated workingOn) :
        workingOn' = workingOn := by
      have equal := alike peerId ⟨"", "", state, lastActive, workingOn'⟩ hops (by simp [same])
      exact (PeerActivityStatus.mk.inj equal.2).2.2.2.2
    refine ⟨rfl, rfl, ?_, ?_⟩
    · cases workingOn with
      | nil => exact .inl rfl
      | cons first rest =>
        cases rest with
        | nil =>
          refine .inr ⟨first, rfl, ?_⟩
          intro inside
          obtain ⟨before, after, form⟩ := append_of_mem inside
          have text : first = String.ofList before ++ "\x00" ++ String.ofList after := by
            apply String.toList_inj.mp
            simp [form]
          have split := files [String.ofList before, String.ofList after]
            (by simp [terminated, text, utf8_zero])
          simp at split
        | cons second rest =>
          have merged := files ((first ++ "\x00" ++ second) :: rest)
            (by simp [terminated, utf8_zero])
          simp at merged
    · rintro _ _ ⟨hops', state', last, _, ⟨front, rfl⟩, ⟨names, rfl⟩, size, ⟨items, rfl⟩, cut⟩
      obtain ⟨lastActive', rfl⟩ := le64_surjective last size
      have moved := alike front ⟨names, "", state', lastActive', items⟩ hops'
        (by simpa using cut.symm)
      obtain ⟨fronts, statuses⟩ := moved
      rw [fronts, (PeerActivityStatus.mk.inj statuses).1]
      exact ⟨rfl, rfl⟩
  · rintro ⟨rfl, rfl, plain, sole⟩ other bound same
    cases other with
    | peerStatus peerId' status' origin' hops' =>
      obtain ⟨subject', displayName', state', lastActive', workingOn'⟩ := status'
      obtain rfl : origin' = signer := by
        by_contra foreign
        simp [checkSender, foreign] at bound
      simp only [canonicalBytes, signingBytes, append_cancel_left_eq] at same
      obtain ⟨fronts, none⟩ := sole (utf8 peerId') (utf8 (subject' ++ displayName'))
        ⟨hops', state', le64 lastActive', terminated workingOn', ⟨_, rfl⟩, ⟨_, rfl⟩, by simp,
          ⟨_, rfl⟩, by simpa using same.symm⟩
      obtain rfl := utf8_injective fronts
      rw [utf8_append] at none
      obtain ⟨subjects, displays⟩ := append_eq_nil_iff.mp none
      obtain rfl := utf8_eq_nil subjects
      obtain rfl := utf8_eq_nil displays
      have rest := append_cancel_left (append_cancel_left same)
      obtain ⟨rfl, rest⟩ := cons.inj rest
      obtain ⟨states, rest⟩ := cons.inj (by simpa using rest)
      obtain ⟨lasts, files⟩ := append_inj rest (by simp)
      rw [code_injective states, le64_injective lasts, plain_unique plain files]
    | _ => exact absurd (tags_apart same) (by simp [GossipMessage.ctorIdx])

/-- No other message of the signer has the same bytes exactly when the fields
leave no other place to cut. -/
theorem distinct_iff {message : GossipMessage} (bound : checkSender signer message = .ok ()) :
    Distinct signer message ↔ Unambiguous signer message := by
  cases message with
  | peerStatus peerId status origin hops =>
    obtain rfl : origin = signer := by
      by_contra foreign
      simp [checkSender, foreign] at bound
    exact peerStatus_distinct peerId status hops
  | catalogUpdate projectId rootCrc updateCount updatedChunks catalogCid publisher =>
    exact catalogUpdate_distinct
      bound
  | fileWant requester fileId version =>
    obtain rfl : requester = signer := by
      by_contra foreign
      simp [checkSender, foreign] at bound
    exact ⟨fun _ => trivial, fun _ => fileWant_distinct fileId version⟩
  | fileOffer sender fileId version size crc contentHash =>
    obtain rfl : sender = signer := by
      by_contra foreign
      simp [checkSender, foreign] at bound
    exact ⟨fun _ => trivial, fun _ => fileOffer_distinct fileId version size crc contentHash⟩
  | conflictAlert fileId conflictingNodes theirVersions =>
    exact conflictAlert_distinct fileId conflictingNodes theirVersions

end Kinds

end Synergos.Gossip
