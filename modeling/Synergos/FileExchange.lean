import Synergos.GossipNodes
import Synergos.Machines

/-!
# The exchange of files

The exchange keeps the table of transfers, the ledger that matches wants with
offers, the records of the files this node shares and the versions that a
checkout or restore has asked for. It answers wants, notes offers, and asks for
files over gossip.

A function that ends by spawning a task returns the task. Fresh transfer ids
and the times of a call are arguments. Tables are functions from their keys:
nothing here depends on the order in which a table lists its entries. Events for
the user interface, log lines and the hooks after a receive are left out.
-/

namespace Synergos.FileExchange

open Base64url Envelope Identity ByteText Gossip GossipNodes Function
open Machines (Machine)

abbrev ProjectId := String

abbrev TransferId := String

/-- The components of an absolute path. -/
abbrev PathBuf := List String

/-- The clocks a call reads. -/
structure Moment where
  ms : UInt64
  instant : Nat

/-! ## The ledger -/

inductive LedgerEntryState where
  | pending
  | matched
  | fulfilled
  | cancelled
  deriving DecidableEq

structure WantEntry where
  requester : PeerId
  fileId : FileId
  version : UInt64
  requestedAt : UInt64
  state : LedgerEntryState
  deriving DecidableEq

structure OfferEntry where
  sender : PeerId
  fileId : FileId
  version : UInt64
  fileSize : UInt64
  crc : UInt32
  offeredAt : UInt64
  state : LedgerEntryState
  deriving DecidableEq

inductive LedgerAction where
  | queued
  | duplicate
  | matched (sender : PeerId) (fileSize : UInt64)
  deriving DecidableEq

/-- Entries are found by file and version. -/
abbrev LedgerKey := FileId × UInt64

/-- A key without wants and a key with an empty list of wants behave alike. -/
structure TransferLedger where
  wants : LedgerKey → List WantEntry
  offers : LedgerKey → Option OfferEntry

namespace TransferLedger

def new : TransferLedger := ⟨fun _ => [], fun _ => none⟩

/-- Whether the requester already wants the file in this version. -/
def wanted (ledger : TransferLedger) (want : WantEntry) : Bool :=
  (ledger.wants (want.fileId, want.version)).any fun known =>
    known.requester = want.requester ∧ known.state ≠ .cancelled

/-- The offer that a want for the key would be matched with. -/
def pendingOffer (ledger : TransferLedger) (key : LedgerKey) : Option OfferEntry :=
  (ledger.offers key).filter fun offer => offer.state = .pending

def registerWant (ledger : TransferLedger) (want : WantEntry) : LedgerAction × TransferLedger :=
  let key := (want.fileId, want.version)
  if ledger.wanted want then (.duplicate, ledger)
  else match ledger.pendingOffer key with
    | some offer => (.matched offer.sender offer.fileSize, ledger)
    | none => (.queued,
        { ledger with wants := update ledger.wants key (ledger.wants key ++ [want]) })

/-- Note an offer; one match for each want that is still waiting. -/
def registerOffer (ledger : TransferLedger) (offer : OfferEntry) :
    List LedgerAction × TransferLedger :=
  let key := (offer.fileId, offer.version)
  let waiting := (ledger.wants key).filter fun want => want.state = .pending
  let actions := waiting.map fun _ => LedgerAction.matched offer.sender offer.fileSize
  (if actions.isEmpty then [.queued] else actions,
    { ledger with offers := update ledger.offers key (some offer) })

/-- Put the wants of one requester for a key into a state. -/
def settleWants (ledger : TransferLedger) (key : LedgerKey) (requester : PeerId)
    (state : LedgerEntryState) : TransferLedger :=
  { ledger with wants := update ledger.wants key ((ledger.wants key).map fun want =>
      if want.requester = requester then { want with state } else want) }

def markFulfilled (ledger : TransferLedger) (fileId : FileId) (version : UInt64) (peer : PeerId) :
    TransferLedger :=
  ledger.settleWants (fileId, version) peer .fulfilled

def cancelWant (ledger : TransferLedger) (fileId : FileId) (version : UInt64)
    (requester : PeerId) : TransferLedger :=
  ledger.settleWants (fileId, version) requester .cancelled

end TransferLedger

/-! ## Requests, transfers and records -/

inductive TransferPriority where
  | interactive
  | background
  | prefetch
  deriving DecidableEq

inductive TransferDirection where
  | send
  | receive
  deriving DecidableEq

inductive TransferState where
  | queued
  | running
  | paused
  | completed
  | failed (reason : String)
  | cancelled
  deriving DecidableEq

inductive FileSharingError where
  | fileNotFound (text : String)
  | transferNotFound (text : String)
  | networkError (text : String)
  deriving DecidableEq

structure ShareRequest where
  projectId : ProjectId
  fileId : FileId
  filePath : PathBuf
  fileSize : UInt64
  crc : UInt32
  priority : TransferPriority
  targetPeer : Option PeerId
  version : UInt64
  deriving DecidableEq

/-- Version zero asks for whatever is newest. -/
structure FetchRequest where
  projectId : ProjectId
  fileId : FileId
  sourcePeer : Option PeerId
  priority : TransferPriority
  version : UInt64
  deriving DecidableEq

structure ActiveTransfer where
  transferId : TransferId
  projectId : ProjectId
  fileId : FileId
  fileName : String
  fileSize : UInt64
  bytesTransferred : UInt64
  speedBps : UInt64
  direction : TransferDirection
  peerId : PeerId
  state : TransferState
  priority : TransferPriority
  version : UInt64
  deriving DecidableEq

structure PublishNotification where
  projectId : ProjectId
  fileId : FileId
  filePath : PathBuf
  fileSize : UInt64
  crc : UInt32
  version : UInt64

structure SharedFileRecord where
  projectId : ProjectId
  filePath : PathBuf
  fileSize : UInt64
  crc : UInt32
  version : UInt64
  deriving DecidableEq

structure PinnedFetch where
  version : UInt64
  expiresAt : UInt64
  expectedSizeCrc : Option (UInt64 × UInt32)
  deriving DecidableEq

/-- What a sender announces before the bytes of a transfer; the number of chunks
and the hash over the bytes are checked while they arrive. -/
structure TransferHeader where
  transferId : TransferId
  projectId : ProjectId
  fileId : FileId
  totalSize : UInt64
  version : UInt64

/-- What the history store answers for a version it holds. -/
structure HistoryHit where
  path : PathBuf
  size : UInt64
  crc : UInt32

structure Exchange where
  localPeerId : PeerId
  transfers : TransferId → Option ActiveTransfer
  ledger : TransferLedger
  gossip : Option GossipNode
  quicAttached : Bool
  historyAttached : Bool
  sharedFiles : ProjectId × FileId → Option SharedFileRecord
  pinnedFetches : ProjectId × FileId → Option PinnedFetch

def withNetwork (localPeerId : PeerId) (gossip : Option GossipNode) : Exchange where
  localPeerId
  transfers := fun _ => none
  ledger := .new
  gossip
  quicAttached := false
  historyAttached := false
  sharedFiles := fun _ => none
  pinnedFetches := fun _ => none

def pinnedFetchTtlMs : UInt64 := 5 * 60 * 1000

/-! ## The tables -/

def setTransfer (exchange : Exchange) (transfer : ActiveTransfer) : Exchange :=
  { exchange with
    transfers := update exchange.transfers transfer.transferId (some transfer) }

/-- Change one entry of the table of transfers, if it is there. -/
def modifyTransfer (exchange : Exchange) (id : TransferId)
    (change : ActiveTransfer → ActiveTransfer) : Exchange :=
  { exchange with
    transfers := update exchange.transfers id ((exchange.transfers id).map change) }

def insertShared (exchange : Exchange) (fileId : FileId) (record : SharedFileRecord) : Exchange :=
  { exchange with
    sharedFiles := update exchange.sharedFiles (record.projectId, fileId) (some record) }

def saturatingAdd (left right : UInt64) : UInt64 :=
  if left.toNat + right.toNat < 0x10000000000000000 then left + right else 0xffffffffffffffff

def pinFetchVersion (exchange : Exchange) (projectId : ProjectId) (fileId : FileId)
    (version : UInt64) (expectedSizeCrc : Option (UInt64 × UInt32)) (now : Moment) : Exchange :=
  let pin := ⟨version, saturatingAdd now.ms pinnedFetchTtlMs, expectedSizeCrc⟩
  { exchange with
    pinnedFetches := update exchange.pinnedFetches (projectId, fileId) (some pin) }

/-- Take a pin back unless another version has been pinned since. -/
def unpinFetchVersion (exchange : Exchange) (projectId : ProjectId) (fileId : FileId)
    (version : UInt64) : Exchange :=
  { exchange with
    pinnedFetches := update exchange.pinnedFetches (projectId, fileId)
      ((exchange.pinnedFetches (projectId, fileId)).filter fun pin => pin.version ≠ version) }

def clearFetchPin (exchange : Exchange) (projectId : ProjectId) (fileId : FileId) : Exchange :=
  { exchange with
    pinnedFetches := update exchange.pinnedFetches (projectId, fileId) none }

/-- The pin for exactly this version; one that has run out is removed. -/
def pinnedFetch (exchange : Exchange) (projectId : ProjectId) (fileId : FileId)
    (version : UInt64) (now : Moment) : Option PinnedFetch × Exchange :=
  match exchange.pinnedFetches (projectId, fileId) with
  | none => (none, exchange)
  | some pin =>
      if pin.expiresAt < now.ms then
        (none, unpinFetchVersion exchange projectId fileId pin.version)
      else (if pin.version = version then some pin else none, exchange)

def restoreSharedFile (exchange : Exchange) (fileId : FileId) (record : SharedFileRecord) :
    Exchange :=
  insertShared (clearFetchPin exchange record.projectId fileId) fileId record

def sharedFileRecord (exchange : Exchange) (projectId : ProjectId) (fileId : FileId) :
    Option SharedFileRecord :=
  exchange.sharedFiles (projectId, fileId)

def hasSharedFile (exchange : Exchange) (projectId : ProjectId) (fileId : FileId)
    (version : UInt64) : Bool :=
  match exchange.sharedFiles (projectId, fileId) with
  | none => false
  | some record => version ≤ record.version

/-- Finished, failed and cancelled transfers leave the table. -/
def gcFinishedTransfers (exchange : Exchange) : Exchange :=
  { exchange with transfers := fun id => (exchange.transfers id).filter fun transfer =>
      match transfer.state with
      | .completed | .cancelled | .failed _ => false
      | _ => true }

def failTransfer (exchange : Exchange) (id : TransferId) (reason : String) : Exchange :=
  modifyTransfer exchange id fun transfer => { transfer with state := .failed reason }

/-- A transfer is done; the wants of its peer for the file are fulfilled. -/
def completeTransfer (exchange : Exchange) (id : TransferId) : Exchange :=
  match exchange.transfers id with
  | none => exchange
  | some transfer =>
      let exchange := modifyTransfer exchange id fun transfer =>
        { transfer with state := .completed, bytesTransferred := transfer.fileSize }
      { exchange with ledger :=
          exchange.ledger.markFulfilled transfer.fileId transfer.version transfer.peerId }

def updateProgress (exchange : Exchange) (id : TransferId) (bytesTransferred speedBps : UInt64) :
    Exchange :=
  modifyTransfer exchange id fun transfer =>
    { transfer with
      bytesTransferred, speedBps
      state := if transfer.state = .queued then .running else transfer.state }

def cancelTransfer (exchange : Exchange) (id : TransferId) :
    Except FileSharingError Unit × Exchange :=
  match exchange.transfers id with
  | none => (.error (.transferNotFound ("TransferId(\"" ++ id ++ "\")")), exchange)
  | some transfer =>
      let exchange := modifyTransfer exchange id fun transfer =>
        { transfer with state := .cancelled }
      if transfer.direction = .receive then
        let exchange :=
          unpinFetchVersion exchange transfer.projectId transfer.fileId transfer.version
        (.ok (), { exchange with ledger :=
          exchange.ledger.cancelWant transfer.fileId transfer.version exchange.localPeerId })
      else (.ok (), exchange)

/-- Move a transfer that is in one state to another. -/
def switchTransfer (exchange : Exchange) (id : TransferId) (source target : TransferState) :
    Except FileSharingError Unit × Exchange :=
  match exchange.transfers id with
  | none => (.error (.transferNotFound ("TransferId(\"" ++ id ++ "\")")), exchange)
  | some _ => (.ok (), modifyTransfer exchange id fun transfer =>
      if transfer.state = source then { transfer with state := target } else transfer)

def pauseTransfer (exchange : Exchange) (id : TransferId) :
    Except FileSharingError Unit × Exchange :=
  switchTransfer exchange id .running .paused

def resumeTransfer (exchange : Exchange) (id : TransferId) :
    Except FileSharingError Unit × Exchange :=
  switchTransfer exchange id .paused .running

/-! ## Messages to the network -/

def projectTopic (projectId : ProjectId) : TopicId := "project/" ++ projectId

section Service

variable (blake3 : List UInt8 → Bytes 32) (scheme : Scheme) (crc32 : List UInt8 → UInt32)

/-- Publish a message on the topic of a project, if there is a gossip node. -/
def broadcast (exchange : Exchange) (projectId : ProjectId) (message : GossipMessage)
    (now : Moment) : Exchange :=
  { exchange with gossip := exchange.gossip.map fun node =>
      (publish blake3 scheme node (projectTopic projectId) message now.instant).2 }

def zeroHash : Bytes 32 := ⟨List.replicate 32 0, by decide⟩

def broadcastOffer (exchange : Exchange) (projectId : ProjectId) (fileId : FileId)
    (version fileSize : UInt64) (crc : UInt32) (now : Moment) : Exchange :=
  broadcast blake3 scheme exchange projectId
    (.fileOffer exchange.localPeerId fileId version fileSize crc zeroHash) now

def broadcastWant (exchange : Exchange) (projectId : ProjectId) (fileId : FileId)
    (version : UInt64) (now : Moment) : Exchange :=
  broadcast blake3 scheme exchange projectId (.fileWant exchange.localPeerId fileId version) now

def broadcastCatalogUpdate (exchange : Exchange) (projectId : ProjectId) (rootCrc : UInt32)
    (updateCount : UInt64) (catalogCid : Option Cid) (now : Moment) : Exchange :=
  broadcast blake3 scheme exchange projectId
    (.catalogUpdate projectId rootCrc updateCount [] catalogCid exchange.localPeerId) now

/-! ## Sharing and fetching -/

/-- The last component of a path, or the file id where there is none. -/
def fileName (path : PathBuf) (fileId : FileId) : String := path.getLast?.getD fileId

/-- Register this node's offer in the ledger. -/
def offerLocally (exchange : Exchange) (fileId : FileId) (version fileSize : UInt64)
    (crc : UInt32) (now : Moment) : Exchange :=
  { exchange with ledger := (exchange.ledger.registerOffer
      ⟨exchange.localPeerId, fileId, version, fileSize, crc, now.ms, .pending⟩).2 }

/-- The transfer that a share puts into the table. -/
def ShareRequest.transfer (request : ShareRequest) (id : TransferId) : ActiveTransfer where
  transferId := id
  projectId := request.projectId
  fileId := request.fileId
  fileName := fileName request.filePath request.fileId
  fileSize := request.fileSize
  bytesTransferred := 0
  speedBps := 0
  direction := .send
  peerId := request.targetPeer.getD "broadcast"
  state := .queued
  priority := request.priority
  version := request.version

def shareFile (exchange : Exchange) (request : ShareRequest) (id : TransferId) (now : Moment) :
    Except FileSharingError TransferId × Exchange :=
  let exchange := setTransfer exchange (request.transfer id)
  let exchange :=
    offerLocally exchange request.fileId request.version request.fileSize request.crc now
  let exchange := insertShared exchange request.fileId
    ⟨request.projectId, request.filePath, request.fileSize, request.crc, request.version⟩
  (.ok id, broadcastOffer blake3 scheme exchange request.projectId request.fileId
    request.version request.fileSize request.crc now)

/-- The transfer that a fetch puts into the table. -/
def FetchRequest.transfer (request : FetchRequest) (id : TransferId) : ActiveTransfer where
  transferId := id
  projectId := request.projectId
  fileId := request.fileId
  fileName := request.fileId
  fileSize := 0
  bytesTransferred := 0
  speedBps := 0
  direction := .receive
  peerId := request.sourcePeer.getD "any"
  state := .queued
  priority := request.priority
  version := request.version

/-- What the ledger says to the want of a fetch. -/
def registerFetch (exchange : Exchange) (request : FetchRequest) (now : Moment) :
    LedgerAction × TransferLedger :=
  exchange.ledger.registerWant
    ⟨exchange.localPeerId, request.fileId, request.version, now.ms, .pending⟩

/-- The part of a fetch before its want is published: the table of transfers and
the ledger. A match says where the file comes from. -/
def enterFetch (exchange : Exchange) (request : FetchRequest) (id : TransferId) (now : Moment) :
    Exchange :=
  let exchange := setTransfer exchange (request.transfer id)
  let (action, ledger) := registerFetch exchange request now
  let exchange := { exchange with ledger }
  match action with
  | .matched sender fileSize => modifyTransfer exchange id fun transfer =>
      { transfer with state := .running, fileSize, peerId := sender }
  | .duplicate | .queued => exchange

def fetchFile (exchange : Exchange) (request : FetchRequest) (id : TransferId) (now : Moment) :
    Except FileSharingError TransferId × Exchange :=
  (.ok id, broadcastWant blake3 scheme (enterFetch exchange request id now) request.projectId
    request.fileId request.version now)

/-- One file of a batch that is being published. -/
def publishUpdate (now : Moment) (progress : Exchange × UInt32) (notif : PublishNotification) :
    Exchange × UInt32 :=
  let exchange :=
    offerLocally progress.1 notif.fileId notif.version notif.fileSize notif.crc now
  let exchange := clearFetchPin exchange notif.projectId notif.fileId
  let exchange := insertShared exchange notif.fileId
    ⟨notif.projectId, notif.filePath, notif.fileSize, notif.crc, notif.version⟩
  (broadcastOffer blake3 scheme exchange notif.projectId notif.fileId notif.version
    notif.fileSize notif.crc now, crc32 (le32 progress.2) ^^^ notif.crc)

/-- Publish a batch. The content store answers with the id of the snapshot it
was given, if it took one. -/
def publishUpdates (exchange : Exchange) (notifications : List PublishNotification)
    (catalogCid : Option Cid) (now : Moment) : Except FileSharingError Unit × Exchange :=
  let (exchange, totalCrc) :=
    notifications.foldl (publishUpdate blake3 scheme crc32 now) (exchange, 0)
  match notifications.head? with
  | none => (.ok (), exchange)
  | some first => (.ok (), broadcastCatalogUpdate blake3 scheme exchange first.projectId totalCrc
      (UInt64.ofNat notifications.length) catalogCid now)

/-! ## Wants and offers from the network -/

/-- What a handler leaves to be done later. -/
inductive Task where
  /-- Share a file and send it to the target. -/
  | shareAndSend (request : ShareRequest)
  /-- Look a version up in the history store and send it if it is there. -/
  | serveHistory (projectId : ProjectId) (requester : PeerId) (fileId : FileId) (version : UInt64)
  | fetch (request : FetchRequest)
  deriving DecidableEq

def serveFromHistory (exchange : Exchange) (projectId : ProjectId) (requester : PeerId)
    (fileId : FileId) (version : UInt64) : Option Task :=
  if exchange.historyAttached = true ∧ version ≠ 0 then
    some (.serveHistory projectId requester fileId version)
  else none

/-- What is shared when the history store has the version. -/
def historyShare (projectId : ProjectId) (requester : PeerId) (fileId : FileId)
    (version : UInt64) (hit : HistoryHit) : ShareRequest where
  projectId
  fileId
  filePath := hit.path
  fileSize := hit.size
  crc := hit.crc
  priority := .interactive
  targetPeer := some requester
  version

/-- What is shared when the record of the file answers the want. -/
def SharedFileRecord.share (record : SharedFileRecord) (requester : PeerId) (fileId : FileId) :
    ShareRequest where
  projectId := record.projectId
  fileId
  filePath := record.filePath
  fileSize := record.fileSize
  crc := record.crc
  priority := .interactive
  targetPeer := some requester
  version := record.version

def handleFileWant (exchange : Exchange) (projectId : ProjectId) (requester : PeerId)
    (fileId : FileId) (version : UInt64) : Option Task :=
  if requester = exchange.localPeerId then none
  else if exchange.quicAttached = false then none
  else match exchange.sharedFiles (projectId, fileId) with
    | none => serveFromHistory exchange projectId requester fileId version
    | some record =>
        if version ≠ 0 ∧ version ≠ record.version then
          serveFromHistory exchange projectId requester fileId version
        else some (.shareAndSend (record.share requester fileId))

def handleFileOffer (exchange : Exchange) (sender : PeerId) (fileId : FileId)
    (version fileSize : UInt64) (crc : UInt32) (now : Moment) : List LedgerAction × Exchange :=
  if sender = exchange.localPeerId then ([], exchange)
  else
    let (actions, ledger) := exchange.ledger.registerOffer
      ⟨sender, fileId, version, fileSize, crc, now.ms, .pending⟩
    (actions, { exchange with ledger })

/-- What becomes of an offer on the topic of a project. -/
structure OfferOutcome where
  actions : List LedgerAction
  /-- The offer contradicts the content this node has for the version. -/
  conflict : Bool
  pull : Option Task
  deriving DecidableEq

/-- What an offer means for the file: nothing where it contradicts local content;
otherwise it is fetched if the project is open and the node has nothing as new. -/
def offerOutcome (projectOpen : Bool) (exchange : Exchange) (projectId : ProjectId)
    (sender : PeerId) (fileId : FileId) (version size : UInt64) (crc : UInt32)
    (actions : List LedgerAction) : OfferOutcome :=
  if (sharedFileRecord exchange projectId fileId).any fun record =>
      record.version = version ∧ (record.fileSize ≠ size ∨ record.crc ≠ crc) then
    ⟨actions, true, none⟩
  else if sender ≠ exchange.localPeerId ∧
      hasSharedFile exchange projectId fileId version = false ∧ projectOpen = true then
    ⟨actions, false, some (.fetch ⟨projectId, fileId, some sender, .interactive, version⟩)⟩
  else ⟨actions, false, none⟩

/-- An offer as the subscriber of the gossip node takes it up. -/
def onFileOffer (projectOpen : Bool) (exchange : Exchange) (projectId : ProjectId)
    (sender : PeerId) (fileId : FileId) (version size : UInt64) (crc : UInt32) (now : Moment) :
    OfferOutcome × Exchange :=
  if version = 0 ∨ version = 0xffffffffffffffff then (⟨[], false, none⟩, exchange)
  else
    let (actions, exchange) := handleFileOffer exchange sender fileId version size crc now
    (offerOutcome projectOpen exchange projectId sender fileId version size crc actions, exchange)

end Service

/-! ## Incoming transfers

The handler of an incoming transfer touches the exchange at three places, with
file operations between them. -/

/-- The version a header stands for: old senders leave it out. -/
def TransferHeader.effectiveVersion (header : TransferHeader) : UInt64 := max header.version 1

/-- Whether a transfer whose bytes have arrived may replace the file, and whether
it was asked for by a checkout or restore. -/
def admitTransfer (exchange : Exchange) (header : TransferHeader) (crc : UInt32) (now : Moment) :
    Except FileSharingError Bool × Exchange :=
  let version := header.effectiveVersion
  if version = 0xffffffffffffffff then
    (.error (.networkError "refusing invalid maximum file version"), exchange)
  else
    let (pin, exchange) := pinnedFetch exchange header.projectId header.fileId version now
    let expected := pin.bind PinnedFetch.expectedSizeCrc
    if expected.any fun (size, sum) => header.totalSize ≠ size ∨ crc ≠ sum then
      (.error (.networkError ("pinned transfer metadata mismatch for v" ++ toString version)),
        exchange)
    else match sharedFileRecord exchange header.projectId header.fileId with
      | none => (.ok pin.isSome, exchange)
      | some record =>
          let isStale := version < record.version
          let isConflict := record.version = version ∧
            (record.fileSize ≠ header.totalSize ∨ record.crc ≠ crc)
          if (isStale ∨ isConflict) ∧ pin.isNone then
            (.error (.networkError (if isStale then
                "refusing stale transfer v" ++ toString version ++ "; local version is v" ++
                  toString record.version
              else "refusing conflicting content for existing version v" ++ toString version)),
              exchange)
          else (.ok pin.isSome, exchange)

/-- The file has been replaced: its record is the received version now. -/
def registerReceived (exchange : Exchange) (header : TransferHeader) (finalPath : PathBuf)
    (crc : UInt32) (pinned : Bool) : Exchange :=
  let version := header.effectiveVersion
  let exchange := insertShared exchange header.fileId
    ⟨header.projectId, finalPath, header.totalSize, crc, version⟩
  if pinned then unpinFetchVersion exchange header.projectId header.fileId version
  else clearFetchPin exchange header.projectId header.fileId

/-- The entry in the table of transfers that an incoming transfer ends with. -/
def TransferHeader.transfer (header : TransferHeader) (sender : PeerId) (finalPath : PathBuf) :
    ActiveTransfer where
  transferId := header.transferId
  projectId := header.projectId
  fileId := header.fileId
  fileName := fileName finalPath header.fileId
  fileSize := header.totalSize
  bytesTransferred := header.totalSize
  speedBps := 0
  direction := .receive
  peerId := sender
  state := .running
  priority := .interactive
  version := header.effectiveVersion

def finishReceived (exchange : Exchange) (header : TransferHeader) (sender : PeerId)
    (finalPath : PathBuf) : Exchange :=
  completeTransfer (setTransfer exchange (header.transfer sender finalPath)) header.transferId

/-! ## Calls -/

/-- A file of a published batch. -/
structure PublishedFile where
  fileId : FileId
  filePath : PathBuf
  fileSize : UInt64
  crc : UInt32
  version : UInt64

/-- A batch is published for one project. -/
def PublishedFile.notification (file : PublishedFile) (projectId : ProjectId) :
    PublishNotification :=
  ⟨projectId, file.fileId, file.filePath, file.fileSize, file.crc, file.version⟩

/-- The calls that an exchange and its gossip node get, with what the caller
supplies: fresh transfer ids, whether a project is open, the answer of the
content store. -/
inductive Call where
  | fetchFile (request : FetchRequest) (id : TransferId)
  | shareFile (request : ShareRequest) (id : TransferId)
  | publishUpdates (projectId : ProjectId) (files : List PublishedFile) (catalogCid : Option Cid)
  | fileWant (projectId : ProjectId) (requester : PeerId) (fileId : FileId) (version : UInt64)
  | fileOffer (projectId : ProjectId) (projectOpen : Bool) (sender : PeerId) (fileId : FileId)
      (version size : UInt64) (crc : UInt32)
  | admitTransfer (header : TransferHeader) (crc : UInt32)
  | registerReceived (header : TransferHeader) (finalPath : PathBuf) (crc : UInt32) (pinned : Bool)
  | finishReceived (header : TransferHeader) (sender : PeerId) (finalPath : PathBuf)
  | restoreSharedFile (fileId : FileId) (record : SharedFileRecord)
  | pinFetchVersion (projectId : ProjectId) (fileId : FileId) (version : UInt64)
      (expectedSizeCrc : Option (UInt64 × UInt32))
  | unpinFetchVersion (projectId : ProjectId) (fileId : FileId) (version : UInt64)
  | cancelTransfer (id : TransferId)
  | pauseTransfer (id : TransferId)
  | resumeTransfer (id : TransferId)
  | updateProgress (id : TransferId) (bytesTransferred speedBps : UInt64)
  | completeTransfer (id : TransferId)
  | failTransfer (id : TransferId) (reason : String)
  | gcFinishedTransfers
  | gossip (made : GossipNodes.Call)

/-- What a call answers. A fetch or share also shows the transfer it has put
into the table. -/
inductive Outcome where
  | started (result : Except FileSharingError TransferId) (transfer : Option ActiveTransfer)
  | task (task : Option Task)
  | offered (outcome : OfferOutcome)
  | admitted (result : Except FileSharingError Bool)
  | returned (result : Except FileSharingError Unit)
  | done

section Runs

variable (blake3 : List UInt8 → Bytes 32) (scheme : Scheme) (crc32 : List UInt8 → UInt32)

/-- The answer of a call that starts a transfer. -/
def reportStart (id : TransferId) (answer : Except FileSharingError TransferId × Exchange) :
    Outcome × Exchange :=
  (.started answer.1 (answer.2.transfers id), answer.2)

def call (exchange : Exchange) (now : Moment) : Call → Outcome × Exchange
  | .fetchFile request id => reportStart id (fetchFile blake3 scheme exchange request id now)
  | .shareFile request id => reportStart id (shareFile blake3 scheme exchange request id now)
  | .publishUpdates projectId files catalogCid =>
      let answer := publishUpdates blake3 scheme crc32 exchange
        (files.map fun file => file.notification projectId) catalogCid now
      (.returned answer.1, answer.2)
  | .fileWant projectId requester fileId version =>
      (.task (handleFileWant exchange projectId requester fileId version), exchange)
  | .fileOffer projectId projectOpen sender fileId version size crc =>
      let answer := onFileOffer projectOpen exchange projectId sender fileId version size crc now
      (.offered answer.1, answer.2)
  | .admitTransfer header crc =>
      let answer := admitTransfer exchange header crc now
      (.admitted answer.1, answer.2)
  | .registerReceived header finalPath crc pinned =>
      (.done, registerReceived exchange header finalPath crc pinned)
  | .finishReceived header sender finalPath =>
      (.done, finishReceived exchange header sender finalPath)
  | .restoreSharedFile fileId record => (.done, restoreSharedFile exchange fileId record)
  | .pinFetchVersion projectId fileId version expectedSizeCrc =>
      (.done, pinFetchVersion exchange projectId fileId version expectedSizeCrc now)
  | .unpinFetchVersion projectId fileId version =>
      (.done, unpinFetchVersion exchange projectId fileId version)
  | .cancelTransfer id =>
      let answer := cancelTransfer exchange id
      (.returned answer.1, answer.2)
  | .pauseTransfer id =>
      let answer := pauseTransfer exchange id
      (.returned answer.1, answer.2)
  | .resumeTransfer id =>
      let answer := resumeTransfer exchange id
      (.returned answer.1, answer.2)
  | .updateProgress id bytesTransferred speedBps =>
      (.done, updateProgress exchange id bytesTransferred speedBps)
  | .completeTransfer id => (.done, completeTransfer exchange id)
  | .failTransfer id reason => (.done, failTransfer exchange id reason)
  | .gcFinishedTransfers => (.done, gcFinishedTransfers exchange)
  | .gossip made =>
      let gossip := exchange.gossip.map fun node =>
        GossipNodes.call blake3 scheme node now.instant made
      (.done, { exchange with gossip })

/-- The exchange as a machine; the clocks are part of the input. -/
def machine : Machine Exchange (Call × Moment) Outcome :=
  ⟨fun exchange input => call blake3 scheme crc32 exchange input.2 input.1⟩

end Runs

/-! ## What the functions leave alone -/

section Transfers

variable {exchange : Exchange} {id : TransferId}

theorem transfers_modifyTransfer_absent {change : ActiveTransfer → ActiveTransfer}
    (absent : exchange.transfers id = none) :
    (modifyTransfer exchange id change).transfers = exchange.transfers := by
  rw [modifyTransfer, absent, Option.map_none, ← absent, update_eq_self]

theorem transfers_completeTransfer :
    (completeTransfer exchange id).transfers =
      (modifyTransfer exchange id fun transfer =>
        { transfer with state := .completed, bytesTransferred := transfer.fileSize }).transfers := by
  unfold completeTransfer
  split
  · rename_i absent
    rw [transfers_modifyTransfer_absent absent]
  · rfl

theorem transfers_cancelTransfer :
    (cancelTransfer exchange id).2.transfers =
      (modifyTransfer exchange id fun transfer =>
        { transfer with state := .cancelled }).transfers := by
  unfold cancelTransfer
  split
  · rename_i absent
    rw [transfers_modifyTransfer_absent absent]
  · dsimp only
    split
    · rfl
    · rfl

theorem transfers_switchTransfer (source target : TransferState) :
    (switchTransfer exchange id source target).2.transfers =
      (modifyTransfer exchange id fun transfer => if transfer.state = source then
        { transfer with state := target } else transfer).transfers := by
  unfold switchTransfer
  split
  · rename_i absent
    rw [transfers_modifyTransfer_absent absent]
  · rfl

end Transfers

section Frames

variable (blake3 : List UInt8 → Bytes 32) (scheme : Scheme) (crc32 : List UInt8 → UInt32)
variable (exchange : Exchange)

/-- Looking for a pin changes nothing or takes one back that has run out. -/
theorem pinnedFetch_cases (projectId : ProjectId) (fileId : FileId) (version : UInt64)
    (now : Moment) : (pinnedFetch exchange projectId fileId version now).2 = exchange ∨
      ∃ old, (pinnedFetch exchange projectId fileId version now).2 =
        unpinFetchVersion exchange projectId fileId old := by
  unfold pinnedFetch
  split
  · exact .inl rfl
  · split
    · exact .inr ⟨_, rfl⟩
    · exact .inl rfl

theorem admitTransfer_snd {header : TransferHeader} {crc : UInt32} {now : Moment} :
    (admitTransfer exchange header crc now).2 =
      if header.effectiveVersion = 0xffffffffffffffff then exchange
      else (pinnedFetch exchange header.projectId header.fileId header.effectiveVersion now).2 := by
  unfold admitTransfer
  dsimp only
  by_cases top : header.effectiveVersion = 0xffffffffffffffff
  · rw [if_pos top, if_pos top]
  · rw [if_neg top, if_neg top]
    split
    · rfl
    · split
      · rfl
      · split <;> rfl

theorem admitTransfer_cases (header : TransferHeader) (crc : UInt32) (now : Moment) :
    (admitTransfer exchange header crc now).2 = exchange ∨
      ∃ version, (admitTransfer exchange header crc now).2 =
        unpinFetchVersion exchange header.projectId header.fileId version := by
  rw [admitTransfer_snd]
  split
  · exact .inl rfl
  · exact pinnedFetch_cases ..

theorem admitTransfer_frame (header : TransferHeader) (crc : UInt32) (now : Moment) :
    ∃ pins, (admitTransfer exchange header crc now).2 =
      { exchange with pinnedFetches := pins } := by
  rcases admitTransfer_cases exchange header crc now with same | ⟨_, same⟩ <;> exact ⟨_, same⟩

theorem admitTransfer_sharedFiles {header : TransferHeader} {crc : UInt32} {now : Moment} :
    (admitTransfer exchange header crc now).2.sharedFiles = exchange.sharedFiles := by
  obtain ⟨pins, same⟩ := admitTransfer_frame exchange header crc now
  rw [same]

theorem onFileOffer_frame (projectOpen : Bool) (projectId : ProjectId) (sender : PeerId)
    (fileId : FileId) (version size : UInt64) (crc : UInt32) (now : Moment) :
    ∃ ledger, (onFileOffer projectOpen exchange projectId sender fileId version size crc now).2 =
      { exchange with ledger := ledger } := by
  have noted : ∃ ledger, (handleFileOffer exchange sender fileId version size crc now).2 =
      { exchange with ledger := ledger } := by
    unfold handleFileOffer
    split
    · exact ⟨_, rfl⟩
    · exact ⟨_, rfl⟩
  unfold onFileOffer
  split
  · exact ⟨_, rfl⟩
  · exact noted

theorem completeTransfer_frame (id : TransferId) :
    ∃ transfers ledger, completeTransfer exchange id =
      { exchange with transfers := transfers, ledger := ledger } := by
  unfold completeTransfer
  split
  · exact ⟨_, _, rfl⟩
  · exact ⟨_, _, rfl⟩

theorem cancelTransfer_frame (id : TransferId) :
    ∃ transfers ledger pins, (cancelTransfer exchange id).2 =
      { exchange with transfers := transfers, ledger := ledger, pinnedFetches := pins } := by
  unfold cancelTransfer
  split
  · exact ⟨_, _, _, rfl⟩
  · dsimp only
    split
    · exact ⟨_, _, _, rfl⟩
    · exact ⟨_, _, _, rfl⟩

theorem switchTransfer_frame (id : TransferId) (source target : TransferState) :
    ∃ transfers, (switchTransfer exchange id source target).2 =
      { exchange with transfers := transfers } := by
  unfold switchTransfer
  split
  · exact ⟨_, rfl⟩
  · exact ⟨_, rfl⟩

theorem enterFetch_frame (request : FetchRequest) (id : TransferId) (now : Moment) :
    ∃ transfers, enterFetch exchange request id now =
      { exchange with transfers := transfers, ledger := (registerFetch exchange request now).2 } := by
  unfold enterFetch
  dsimp only
  split
  · exact ⟨_, rfl⟩
  · exact ⟨_, rfl⟩
  · exact ⟨_, rfl⟩

theorem registerReceived_frame (header : TransferHeader) (finalPath : PathBuf) (crc : UInt32)
    (pinned : Bool) : ∃ shared pins, registerReceived exchange header finalPath crc pinned =
      { exchange with sharedFiles := shared, pinnedFetches := pins } := by
  cases pinned with
  | true | false => exact ⟨_, _, rfl⟩

/-- A batch does what its files do, and is announced. -/
theorem publishUpdates_fold (notifications : List PublishNotification) (catalogCid : Option Cid)
    (now : Moment) : ∃ gossip,
      (publishUpdates blake3 scheme crc32 exchange notifications catalogCid now).2 =
        { (notifications.foldl (publishUpdate blake3 scheme crc32 now) (exchange, 0)).1 with
          gossip := gossip } := by
  unfold publishUpdates
  dsimp only
  split
  · exact ⟨_, rfl⟩
  · exact ⟨_, rfl⟩

theorem publishUpdates_frame (notifications : List PublishNotification) (catalogCid : Option Cid)
    (now : Moment) : ∃ ledger gossip shared pins,
      (publishUpdates blake3 scheme crc32 exchange notifications catalogCid now).2 =
        { exchange with
          ledger := ledger, gossip := gossip, sharedFiles := shared, pinnedFetches := pins } := by
  have each : ∀ (files : List PublishNotification) (progress : Exchange × UInt32),
      ∃ ledger gossip shared pins,
        (files.foldl (publishUpdate blake3 scheme crc32 now) progress).1 =
          { progress.1 with
            ledger := ledger, gossip := gossip, sharedFiles := shared, pinnedFetches := pins } := by
    intro files
    induction files with
    | nil => exact fun _ => ⟨_, _, _, _, rfl⟩
    | cons file rest ih =>
      intro progress
      obtain ⟨ledger, gossip, shared, pins, same⟩ :=
        ih (publishUpdate blake3 scheme crc32 now progress file)
      exact ⟨ledger, gossip, shared, pins, same⟩
  obtain ⟨_, whole⟩ := publishUpdates_fold blake3 scheme crc32 exchange notifications catalogCid now
  obtain ⟨_, _, _, _, same⟩ := each notifications (exchange, 0)
  rw [whole, same]
  exact ⟨_, _, _, _, rfl⟩

def Call.keepsTransfers : Call → Bool
  | .fetchFile _ _ | .shareFile _ _ | .finishReceived _ _ _ | .cancelTransfer _ | .pauseTransfer _
  | .resumeTransfer _ | .updateProgress _ _ _ | .completeTransfer _ | .failTransfer _ _
  | .gcFinishedTransfers => false
  | _ => true

def Call.keepsLedger : Call → Bool
  | .fetchFile _ _ | .shareFile _ _ | .publishUpdates _ _ _ | .fileOffer _ _ _ _ _ _ _
  | .finishReceived _ _ _ | .cancelTransfer _ | .completeTransfer _ => false
  | _ => true

def Call.keepsGossip : Call → Bool
  | .fetchFile _ _ | .shareFile _ _ | .publishUpdates _ _ _ | .gossip _ => false
  | _ => true

def Call.keepsShared : Call → Bool
  | .shareFile _ _ | .publishUpdates _ _ _ | .registerReceived _ _ _ _ | .restoreSharedFile _ _ =>
      false
  | _ => true

def Call.keepsPins : Call → Bool
  | .publishUpdates _ _ _ | .admitTransfer _ _ | .registerReceived _ _ _ _ | .restoreSharedFile _ _
  | .pinFetchVersion _ _ _ _ | .unpinFetchVersion _ _ _ | .cancelTransfer _ => false
  | _ => true

/-- What a call leaves alone. -/
structure Frame (made : Call) (after : Exchange) : Prop where
  settings : after.localPeerId = exchange.localPeerId ∧
    after.quicAttached = exchange.quicAttached ∧ after.historyAttached = exchange.historyAttached
  transfers : made.keepsTransfers = true → after.transfers = exchange.transfers
  ledger : made.keepsLedger = true → after.ledger = exchange.ledger
  gossip : made.keepsGossip = true → after.gossip = exchange.gossip
  shared : made.keepsShared = true → after.sharedFiles = exchange.sharedFiles
  pins : made.keepsPins = true → after.pinnedFetches = exchange.pinnedFetches

theorem call_frame (now : Moment) (made : Call) :
    Frame exchange made (call blake3 scheme crc32 exchange now made).2 := by
  have settled : exchange.localPeerId = exchange.localPeerId ∧
    exchange.quicAttached = exchange.quicAttached ∧
    exchange.historyAttached = exchange.historyAttached := ⟨rfl, rfl, rfl⟩
  cases made with
  | fetchFile request id =>
    obtain ⟨_, same⟩ := enterFetch_frame exchange request id now
    simp only [call, reportStart, fetchFile, same]
    exact ⟨settled, nofun, nofun, nofun, fun _ => rfl, fun _ => rfl⟩
  | publishUpdates projectId files catalogCid =>
    obtain ⟨_, _, _, _, same⟩ := publishUpdates_frame blake3 scheme crc32 exchange
      (files.map fun file => file.notification projectId) catalogCid now
    simp only [call, same]
    exact ⟨settled, fun _ => rfl, nofun, nofun, nofun, nofun⟩
  | fileOffer projectId projectOpen sender fileId version size crc =>
    obtain ⟨_, same⟩ := onFileOffer_frame exchange projectOpen projectId sender fileId version size
      crc now
    simp only [call, same]
    exact ⟨settled, fun _ => rfl, nofun, fun _ => rfl, fun _ => rfl, fun _ => rfl⟩
  | admitTransfer header crc =>
    obtain ⟨_, same⟩ := admitTransfer_frame exchange header crc now
    simp only [call, same]
    exact ⟨settled, fun _ => rfl, fun _ => rfl, fun _ => rfl, fun _ => rfl, nofun⟩
  | registerReceived header finalPath crc pinned =>
    obtain ⟨_, _, same⟩ := registerReceived_frame exchange header finalPath crc pinned
    simp only [call, same]
    exact ⟨settled, fun _ => rfl, fun _ => rfl, fun _ => rfl, nofun, nofun⟩
  | finishReceived header sender finalPath =>
    obtain ⟨_, _, same⟩ := completeTransfer_frame
      (setTransfer exchange (header.transfer sender finalPath)) header.transferId
    simp only [call, finishReceived, same]
    exact ⟨settled, nofun, nofun, fun _ => rfl, fun _ => rfl, fun _ => rfl⟩
  | cancelTransfer id =>
    obtain ⟨_, _, _, same⟩ := cancelTransfer_frame exchange id
    simp only [call, same]
    exact ⟨settled, nofun, nofun, fun _ => rfl, fun _ => rfl, nofun⟩
  | pauseTransfer id =>
    obtain ⟨_, same⟩ := switchTransfer_frame exchange id .running .paused
    simp only [call, pauseTransfer, same]
    exact ⟨settled, nofun, fun _ => rfl, fun _ => rfl, fun _ => rfl, fun _ => rfl⟩
  | resumeTransfer id =>
    obtain ⟨_, same⟩ := switchTransfer_frame exchange id .paused .running
    simp only [call, resumeTransfer, same]
    exact ⟨settled, nofun, fun _ => rfl, fun _ => rfl, fun _ => rfl, fun _ => rfl⟩
  | completeTransfer id =>
    obtain ⟨_, _, same⟩ := completeTransfer_frame exchange id
    simp only [call, same]
    exact ⟨settled, nofun, nofun, fun _ => rfl, fun _ => rfl, fun _ => rfl⟩
  | _ =>
    refine ⟨settled, ?_, ?_, ?_, ?_, ?_⟩
    all_goals first | exact fun _ => rfl | nofun

end Frames

end Synergos.FileExchange
