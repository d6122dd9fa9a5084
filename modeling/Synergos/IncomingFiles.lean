import Synergos.FileExchange
import Synergos.HistoryWorld
import Synergos.Manifest

/-!
# Receiving and restoring a file

The two calls that replace a file of the working tree: the handler of an incoming
transfer, and the restore of a version from the history store. Each of them writes
a temporary file first, which lies outside the working tree, and renames it.

What the file system, the resolvers, the network and the history store answer is
given with the call, so that each of them may fail or change its answer in
between. A rename that fails has no effect. A download or a copy that fails may
have left a part of the file. The saves of the manifest are exposed to faults. The
archive of a received version, the hook after it and log lines are left out: they
come after the last error.
-/

namespace Synergos.IncomingFiles

open Faults Faults.Program FaultRuns HistoryFiles
open FileExchange Manifest Base64url Envelope Identity Function
open Gossip (FileId)
open HistoryWorld (sampleDigests)
open Manifest (recordReceivedFile)

variable {Content : Type}

/-- The errors of both calls. -/
inductive Failure where
  | sharing (error : FileSharingError)
  | io (error : IoError)
  deriving DecidableEq

/-- The temporary files by name, the working tree, and what the node knows of both. -/
structure Site (Content : Type) where
  parts : String → Option Content
  files : PathBuf → Option Content
  exchange : Exchange
  books : ProjectId → Books

abbrev Handler (Content α : Type) := Program (Site Content) Failure α

namespace Site

def withPart (name : String) (content : Option Content) (site : Site Content) : Site Content :=
  { site with parts := update site.parts name content }

def withExchange (exchange : Exchange) (site : Site Content) : Site Content :=
  { site with exchange }

def withBooks (projectId : ProjectId) (books : Books) (site : Site Content) : Site Content :=
  { site with books := update site.books projectId books }

/-- The file is removed if the file system allows it. -/
def removeFile (name : String) (removing : Except IoError Unit) (site : Site Content) :
    Site Content :=
  match removing with
  | .ok () => site.withPart name none
  | .error _ => site

/-- The temporary file is renamed to its place. -/
def replaceFile (name : String) (path : PathBuf) (site : Site Content) : Site Content :=
  { site with
    parts := update site.parts name none
    files := update site.files path (site.parts name) }

end Site

/-- Remove the temporary file, as far as that succeeds, and answer with an error. -/
def discard {α : Type} (name : String) (removing : Except IoError Unit) (failure : Failure) :
    Handler Content α := do
  poke (Site.removeFile name removing)
  throw failure

/-- A program over the books of one project. -/
def keep {α : Type} (projectId : ProjectId) (program : Keeper α) : Handler Content α :=
  translate Failure.io
    (within (fun site : Site Content => site.books projectId) (Site.withBooks projectId) program)

/-- The directory above a path is made; the root has none. -/
def createParent (path : PathBuf) (directory : Except IoError Unit) : Except Failure Unit :=
  if path = [] then .ok () else directory.mapError .io

/-! ### Incoming transfers -/

/-- What becomes of the bytes of a transfer. -/
inductive Delivery (Content : Type) where
  | complete (content : Content)
  | broken (reason : String) (left : Option Content)

/-- What is in the temporary file afterwards. -/
def Delivery.left : Delivery Content → Option Content
  | .complete content => some content
  | .broken _ left => left

/-- An incoming transfer and what it meets. -/
structure Reception (Content : Type) where
  sender : PeerId
  resolverAttached : Bool
  header : Except String TransferHeader
  resolved : Option PathBuf
  /-- The directory that the resolver of incoming directories names. -/
  requested : Option PathBuf
  /-- The directory for temporary files, once it has been made. -/
  directory : Except IoError PathBuf
  uuid : String
  delivery : Delivery Content
  /-- Whether the temporary file can be read for its checksum. -/
  reading : Except IoError Unit
  creating : Except IoError Unit
  resolvedAgain : Option PathBuf
  replacing : Except IoError Unit
  removing : Except IoError Unit
  hookAttached : Bool
  now : Moment

namespace Reception

/-- The name of the temporary file. -/
def part (reception : Reception Content) : String := "incoming-" ++ reception.uuid ++ ".part"

end Reception

/-- The project that an incoming directory belongs to. -/
def incomingRoot (requested : PathBuf) : Except Failure PathBuf :=
  if requested = [] then
    .error (.sharing (.networkError "incoming directory has no parent"))
  else if requested.dropLast = [] then
    .error (.sharing (.networkError "metadata directory has no project root"))
  else if requested.getLast? ≠ some "incoming" ∨
      requested.dropLast.getLast? ≠ some ".synergos" then
    .error (.sharing (.networkError "incoming directory must be <project>/.synergos/incoming"))
  else .ok requested.dropLast.dropLast

/-- Where the temporary file of a transfer is put. -/
def Reception.tmpDir (reception : Reception Content) : Except Failure PathBuf :=
  match reception.requested with
  | some requested => do
    let _ ← incomingRoot requested
    reception.directory.mapError .io
  | none => reception.directory.mapError .io

/-- The file has been replaced: the record, the pin and the manifest follow. Errors of the
manifest are only logged. -/
def settleReceived (reception : Reception Content) (header : TransferHeader)
    (finalPath : PathBuf) (crc : UInt32) (pinned : Bool) : Handler Content Unit := do
  poke fun site : Site Content =>
    site.withExchange (registerReceived site.exchange header finalPath crc pinned)
  if reception.hookAttached = true then
    let _ ← attempt (keep header.projectId (recordReceivedFile header.projectId header.fileId
      header.effectiveVersion header.totalSize crc reception.sender reception.now.ms pinned))
  poke fun site : Site Content =>
    site.withExchange (finishReceived site.exchange header reception.sender finalPath)

/-- An admitted transfer is put in its place. -/
def place (reception : Reception Content) (header : TransferHeader) (finalPath : PathBuf)
    (crc : UInt32) (pinned : Bool) : Handler Content Unit := do
  settle (createParent finalPath reception.creating)
  match reception.resolvedAgain with
  | none => throw (.sharing (.fileNotFound header.fileId))
  | some checked =>
    if checked ≠ finalPath then
      discard reception.part reception.removing
        (.sharing (.networkError "receive destination changed during validation"))
    else match reception.replacing with
      | .error error => discard reception.part reception.removing (.io error)
      | .ok () => do
        poke (Site.replaceFile reception.part finalPath)
        settleReceived reception header finalPath crc pinned

/-- The bytes of a transfer have arrived. -/
def weigh (digests : Digests Content) (reception : Reception Content) (header : TransferHeader)
    (finalPath : PathBuf) (content : Content) : Handler Content Unit := do
  match reception.reading with
  | .error error => discard reception.part reception.removing (.io error)
  | .ok () => do
    let crc := digests.crc32 content
    let answer ← peek fun site : Site Content =>
      admitTransfer site.exchange header crc reception.now
    poke (Site.withExchange answer.2)
    match answer.1 with
    | .error error => discard reception.part reception.removing (.sharing error)
    | .ok pinned => place reception header finalPath crc pinned

def handleIncomingTransfer (digests : Digests Content) (reception : Reception Content) :
    Handler Content Unit := do
  settle (if reception.resolverAttached = true then .ok ()
    else .error (.sharing (.networkError "out_path_resolver not attached")))
  let header ← settle (reception.header.mapError fun text => .sharing (.networkError text))
  let finalPath ← settle (reception.resolved.elim
    (.error (.sharing (.fileNotFound header.fileId))) .ok)
  let _ ← settle reception.tmpDir
  poke (Site.withPart reception.part reception.delivery.left)
  match reception.delivery with
  | .broken reason _ =>
    discard reception.part reception.removing (.sharing (.networkError reason))
  | .complete content => weigh digests reception header finalPath content

/-! ### Restores -/

inductive RestoreOutcome where
  | restoredLocally
  | requested
  | alreadyAtVersion
  deriving DecidableEq

/-- What the history store answers for a version, with the bytes of its object. -/
structure StoredVersion (Content : Type) where
  size : UInt64
  crc : UInt32
  publisher : String
  content : Content

/-- A restore and what it meets. -/
structure Restoration (Content : Type) where
  projectId : ProjectId
  rel : FileId
  version : UInt64
  resolved : Option PathBuf
  lookup : Except IoError (Option (StoredVersion Content))
  /-- Whether the file in the working tree can be read. -/
  readable : Bool
  directory : Except IoError PathBuf
  creating : Except IoError Unit
  uuid : String
  copying : Except IoError Unit
  /-- What a copy that fails leaves of the object. -/
  copied : Option Content
  resolvedAgain : Option PathBuf
  replacing : Except IoError Unit
  removing : Except IoError Unit
  transferId : TransferId
  now : Moment

namespace Restoration

/-- The name of the temporary file. -/
def part (restoration : Restoration Content) : String :=
  "restore-" ++ restoration.uuid ++ ".part"

/-- The record of the restored version. -/
def record (restoration : Restoration Content) (path : PathBuf)
    (stored : StoredVersion Content) : SharedFileRecord :=
  ⟨restoration.projectId, path, stored.size, stored.crc, restoration.version⟩

end Restoration

/-- Whether the file in the working tree has a size and a checksum. -/
def matchesEntry (digests : Digests Content) (readable : Bool) (site : Site Content)
    (path : PathBuf) (size : UInt64) (crc : UInt32) : Bool :=
  (site.files path).any fun content =>
    readable && decide (digests.size content = size ∧ digests.crc32 content = crc)

section Restoring

variable (blake3 : List UInt8 → Bytes 32) (scheme : Scheme) (digests : Digests Content)

/-- Pin a version and ask for it. -/
def requestVersion (projectId : ProjectId) (fileId : FileId) (version : UInt64)
    (expectedSizeCrc : Option (UInt64 × UInt32)) (id : TransferId) (now : Moment) :
    Handler Content Unit := do
  poke fun site : Site Content => site.withExchange
    (pinFetchVersion site.exchange projectId fileId version expectedSizeCrc now)
  let answer ← peek fun site : Site Content => fetchFile blake3 scheme site.exchange
    ⟨projectId, fileId, none, .interactive, version⟩ id now
  poke (Site.withExchange answer.2)
  match answer.1 with
  | .ok _ => return ()
  | .error error => do
    poke fun site : Site Content =>
      site.withExchange (unpinFetchVersion site.exchange projectId fileId version)
    throw (.sharing error)

/-- The file has the version: the record, the pin and the manifest follow. -/
def recordVersion (restoration : Restoration Content) (path : PathBuf)
    (stored : StoredVersion Content) : Handler Content Unit := do
  poke fun site : Site Content => site.withExchange
    (restoreSharedFile site.exchange restoration.rel (restoration.record path stored))
  let _ ← keep restoration.projectId (recordReceivedFile restoration.projectId restoration.rel
    restoration.version stored.size stored.crc stored.publisher restoration.now.ms true)

/-- The copy of the object is put in its place. -/
def placeCopy (restoration : Restoration Content) (path : PathBuf)
    (stored : StoredVersion Content) : Handler Content Unit := do
  match restoration.resolvedAgain with
  | none => throw (.io ⟨.permissionDenied, "destination changed"⟩)
  | some checked =>
    if checked ≠ path then
      discard restoration.part restoration.removing
        (.io ⟨.permissionDenied, "destination changed during restore"⟩)
    else match restoration.replacing with
      | .error error => discard restoration.part restoration.removing (.io error)
      | .ok () => do
        poke (Site.replaceFile restoration.part path)
        recordVersion restoration path stored

/-- Restore a version that the history store has. -/
def restoreStored (restoration : Restoration Content) (path : PathBuf)
    (stored : StoredVersion Content) : Handler Content RestoreOutcome := do
  if (← peek fun site : Site Content => matchesEntry digests restoration.readable site path
      stored.size stored.crc) = true then
    recordVersion restoration path stored
    return .alreadyAtVersion
  else
    let _ ← settle (restoration.directory.mapError Failure.io)
    settle (createParent path restoration.creating)
    match restoration.copying with
    | .error error => do
      poke (Site.withPart restoration.part restoration.copied)
      throw (.io error)
    | .ok () => do
      poke (Site.withPart restoration.part (some stored.content))
      placeCopy restoration path stored
      return .restoredLocally

def restoreFile (restoration : Restoration Content) : Handler Content RestoreOutcome := do
  let root ← peek fun site : Site Content => (site.books restoration.projectId).root
  settle (if root.isSome = true then .ok () else .error (.io ⟨.notFound, "project is not open"⟩))
  let path ← settle (restoration.resolved.elim
    (.error (.io ⟨.invalidInput, "unsafe relative path"⟩)) .ok)
  match ← settle (restoration.lookup.mapError Failure.io) with
  | some stored => restoreStored digests restoration path stored
  | none => do
    requestVersion blake3 scheme restoration.projectId restoration.rel restoration.version none
      restoration.transferId restoration.now
    return .requested

/-! ### Calls -/

/-- The two calls. -/
inductive Call (Content : Type) where
  | incoming (reception : Reception Content)
  | restore (restoration : Restoration Content)

/-- The temporary file of the call. -/
def Call.part : Call Content → String
  | .incoming reception => reception.part
  | .restore restoration => restoration.part

def perform : Call Content → Handler Content Unit
  | .incoming reception => handleIncomingTransfer digests reception
  | .restore restoration => do
    let _ ← restoreFile blake3 scheme digests restoration

end Restoring

/-- Apart from the temporary file and the pins everything is as it was. -/
structure Leaves (content : Option Content) (name : String) (site after : Site Content) :
    Prop where
  part : after.parts name = content
  files : after.files = site.files
  records : after.exchange.sharedFiles = site.exchange.sharedFiles
  books : after.books = site.books

/-- What is left of the temporary file once it was to be removed. -/
def remains (removing : Except IoError Unit) (content : Option Content) : Option Content :=
  match removing with
  | .ok () => none
  | .error _ => content

theorem Leaves.removed {content : Option Content} {name : String} {site after : Site Content}
    (leaves : Leaves content name site after) (removing : Except IoError Unit) :
    Leaves (remains removing content) name site (after.removeFile name removing) := by
  cases removing with
  | ok done =>
    exact ⟨update_self .., leaves.files, leaves.records, leaves.books⟩
  | error error => exact leaves

section Pins

variable {exchange : Exchange} {header : TransferHeader} {crc : UInt32} {now : Moment}

end Pins

/-! ### Failed receives -/

section Receiving

variable {digests : Digests Content} {site middle : Site Content} {reception : Reception Content}
variable {header : TransferHeader} {path : PathBuf} {content : Content} {crc : UInt32}
variable {pinned : Bool}

end Receiving

/-! ### Failed restores -/

section Failing

variable {blake3 : List UInt8 → Bytes 32} {scheme : Scheme} {digests : Digests Content}
variable {site middle : Site Content} {restoration : Restoration Content}
variable {path : PathBuf} {stored : StoredVersion Content}

end Failing

def samplePath : PathBuf := ["root", "sub", "a.bin"]

end Synergos.IncomingFiles
