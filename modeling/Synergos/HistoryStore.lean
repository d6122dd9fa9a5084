import Synergos.HistoryTags
import Synergos.HistoryRetention

/-!
# The operations of a history store

Archiving a version, looking one up, collecting what the policy gives up, moving old
versions to an external store and fetching them back, as sequences of steps each of
which may fail. Steps that touch only temporary files are one step together. An
external store keeps what was put under a key until it is deleted; which store a
call reaches is decided by the backend's configuration.

The path of the store directory and its checks, log messages and the removal of
left-over temporary files are left out; where the source makes such a call, a step
that reads nothing stands for its failure.
-/

namespace Synergos.HistoryStore

open Faults Faults.Program HistoryFiles HistoryTags HistoryRetention

variable {Content : Type}

/-! ### Files and external stores -/

def storeDir (config : HistoryConfig) : Store Content Unit := do
  if config.enabled = true ∧ config.projects = [] then
    throw ⟨.invalidInput, "history.projects must not be empty when history.enabled = true"⟩
  if config.rotation.enabled = true then
    settle (config.rotation.backend.validate.mapError fun reason => ⟨.invalidInput, reason⟩)
  pass

def putAt (place : Place) (key hash : String) : Store Content Unit :=
  step fun disk =>
    match disk.objects.lookup hash with
    | none => .error ⟨.notFound, "object is missing"⟩
    | some content => .ok ((), disk.withStored place key (some content))

def existsAt (place : Place) (key : String) : Store Content Bool :=
  read fun disk => (disk.stores place key).isSome

def getAt (place : Place) (key : String) : Store Content Content :=
  step fun disk =>
    match disk.stores place key with
    | none => .error ⟨.notFound, "external object is missing"⟩
    | some content => .ok (content, disk)

def deleteAt (place : Place) (key : String) : Store Content Unit :=
  write fun disk => disk.withoutStored place key

/-- The save of an index that names a new external object. -/
def record (index : HistoryIndex) (place : Place) (key : String) : Store Content Unit :=
  write fun disk => { disk with
    index := some (.holds index), recorded := (place, key) :: disk.recorded }

def readObject (hash : String) : Store Content Content :=
  step fun disk =>
    match disk.objects.lookup hash with
    | none => .error ⟨.notFound, "object is missing"⟩
    | some content => .ok (content, disk)

def backendName : RotationBackendConfig → String
  | .s3 _ _ _ => "s3"
  | .localPath _ => "local_path"
  | .gdrive _ _ => "gdrive"
  | .unset => "unset"

/-- The store of a configuration, if it names one. -/
def buildBackend (config : RotationBackendConfig) : Except IoError Place :=
  match config.validate with
  | .error reason => .error ⟨.invalidInput, reason⟩
  | .ok _ => .ok config.place

def isValidObjectKey (key : String) : Bool :=
  match key.toList.splitOn '/' with
  | [project, object] =>
    isValidObjectHash (String.ofList project) && isValidObjectHash (String.ofList object)
  | _ => false

/-- A path and a version in a message. -/
def keyText (key : Key) : String := key.1 ++ " v" ++ toString key.2

section Operations

variable (digests : Digests Content)

def sizeAt (place : Place) (key : String) : Store Content (Option UInt64) :=
  read fun disk => (disk.stores place key).map digests.size

def objectKey (projectId hash : String) : String := digests.blake3Text projectId ++ "/" ++ hash

/-- The content has the recorded size, checksum and hash. -/
def genuine (hash : String) (size : UInt64) (crc : UInt32) (content : Content) : Bool :=
  digests.size content == size && digests.crc32 content == crc && digests.blake3 content == hash

/-- Check the object of a hash; a missing object is not valid. -/
def validateObject (hash : String) (size : UInt64) (crc : UInt32) : Store Content Bool := do
  match ← read fun disk => disk.objects.lookup hash with
  | none => return false
  | some content =>
    if digests.size content ≠ size ∨ digests.crc32 content ≠ crc then return false
    pass
    return genuine digests hash size crc content

/-- Check a content against an entry. -/
def validateFetched (content : Content) (entry : IndexEntry) : Store Content Bool := do
  pass
  if digests.size content ≠ entry.size ∨ digests.crc32 content ≠ entry.crc then return false
  pass
  return genuine digests entry.hash entry.size entry.crc content && isValidObjectHash entry.hash

/-! ### Archiving -/

/-- A finished file in the working tree and what is said about it. -/
structure Submission (Content : Type) where
  key : Key
  size : UInt64
  crc : UInt32
  publisher : String
  source : String
  content : Content

inductive ArchiveOutcome where
  | stored
  | deduplicated
  | alreadyIndexed
  | notCovered
  deriving DecidableEq, Repr

/-- Copy the file into the store, check the copy and hash it. -/
def createSnapshot (content : Content) (size : UInt64) (crc : UInt32) : Store Content String := do
  pass
  if digests.size content ≠ size ∨ digests.crc32 content ≠ crc then
    throw ⟨.invalidData, "source changed while the history snapshot was being captured"⟩
  pass
  return digests.blake3 content

/-- The entry of a version that is archived now. -/
def Submission.entry (file : Submission Content) (hash : String) (nowMs : UInt64) : IndexEntry :=
  ⟨hash, file.size, file.crc, nowMs, file.publisher, file.source, none⟩

/-- Write the sidecar's record and then the index. -/
def enter (projectId : String) (index : HistoryIndex) (key : Key) (entry : IndexEntry) :
    Store Content Unit := do
  appendObjectRef projectId entry.hash (entry.reference key)
  save (index.insert key entry)

def archive (listing : Listing) (config : HistoryConfig) (projectId : String)
    (file : Submission Content) (nowMs : UInt64) : Store Content ArchiveOutcome := do
  if config.covers projectId = false then return .notCovered
  storeDir config
  let hash ← createSnapshot digests file.content file.size file.crc
  let index ← loadOrRebuild listing projectId
  match index.get file.key with
  | some existing =>
    if existing.hash ≠ hash then
      throw ⟨.alreadyExists, "history already contains different content for " ++
        keyText file.key⟩
    if ← validateObject digests hash file.size file.crc then
      appendObjectRef projectId existing.hash (existing.reference file.key)
      return .alreadyIndexed
    write fun disk => disk.withObject hash file.content
    enter projectId index file.key (file.entry hash nowMs)
    return .stored
  | none =>
    if ← validateObject digests hash file.size file.crc then
      enter projectId index file.key (file.entry hash nowMs)
      return .deduplicated
    write fun disk => disk.withObject hash file.content
    enter projectId index file.key (file.entry hash nowMs)
    return .stored

/-! ### Fetching -/

/-- Another version is recorded at the same external object. -/
def hasOtherReference (index : HistoryIndex) (key : Key) (offloaded : OffloadedRef) : Bool :=
  index.iterAll.any fun item => item.1 != key && match item.2.offloaded with
    | none => false
    | some other => other.key == offloaded.key && other.config == offloaded.config &&
        other.backend == offloaded.backend

/-- The error of a backend that cannot be reached. -/
def unreachable (backend : String) (error : IoError) : IoError :=
  ⟨.other, "アーカイブ先に接続できない (" ++ backend ++ "): " ++ error.message⟩

/-- Take the external object into the store, if it has the recorded content. -/
def retrieve (place : Place) (key : Key) (entry : IndexEntry) (offloaded : OffloadedRef) :
    Store Content Unit := do
  let content ← relabel (unreachable offloaded.backend) (getAt place offloaded.key)
  if ← validateFetched digests content entry then
    write fun disk => disk.withObject entry.hash content
  else
    throw ⟨.invalidData, "fetched object failed integrity validation for " ++ keyText key⟩

/-- Bring the content of an offloaded version back into the store. -/
def download (place : Place) (key : Key) (entry : IndexEntry) (offloaded : OffloadedRef) :
    Store Content Unit := do
  match ← relabel (unreachable offloaded.backend) (sizeAt digests place offloaded.key) with
  | none => throw ⟨.notFound, "offloaded object is missing for " ++ keyText key⟩
  | some size =>
    if size ≠ entry.size then
      throw ⟨.invalidData, "offloaded object size mismatch for " ++ keyText key ++
        ": expected " ++ toString entry.size ++ ", backend has " ++ toString size⟩
    else retrieve digests place key entry offloaded

/-- The object of an offloaded version is already in the store. -/
def localIsValid (entry : IndexEntry) : Store Content Bool := do
  let checked ← attempt do
    let content ← readObject entry.hash
    validateFetched digests content entry
  return match checked with
    | .ok valid => valid
    | .error _ => false

/-- Delete the external object, unless another version is recorded at it, and enter the
version as a local one. -/
def release (projectId : String) (place : Place) (index : HistoryIndex) (key : Key)
    (entry : IndexEntry) (offloaded : OffloadedRef) : Store Content Unit := do
  if hasOtherReference index key offloaded = false then
    relabel (fun error => ⟨.other, "restored object locally but failed to remove archive copy ("
      ++ offloaded.backend ++ "): " ++ error.message⟩) (deleteAt place offloaded.key)
  enter projectId index key { entry with offloaded := none }

def fetch (projectId : String) (place : Place) (index : HistoryIndex) (key : Key) :
    Store Content Unit := do
  match index.get key with
  | none => throw ⟨.notFound, "no such version in history index: " ++ keyText key⟩
  | some entry =>
    match entry.offloaded with
    | none => return ()
    | some offloaded =>
      if offloaded.key ≠ objectKey digests projectId entry.hash ∨
          isValidObjectKey offloaded.key = false then
        throw ⟨.invalidData, "invalid offloaded object key for " ++ keyText key⟩
      pass
      let valid ← localIsValid digests entry
      if valid = false then download digests place key entry offloaded
      release projectId place index key entry offloaded

/-- The recorded folder is opened with the credentials of the present configuration. -/
def withCredentials (recorded current : RotationBackendConfig) : RotationBackendConfig :=
  match recorded, current with
  | .gdrive folderId _, .gdrive _ credentialsFile => .gdrive folderId credentialsFile
  | _, _ => recorded

/-- The configuration that a version was moved under, or the present one. -/
def recordedConfig (index : HistoryIndex) (key : Key) (current : RotationBackendConfig) :
    RotationBackendConfig :=
  match (index.get key).bind fun entry => entry.offloaded.bind fun offloaded => offloaded.config with
  | some recorded => recorded
  | none => current

def fetchOffloaded (listing : Listing) (config : HistoryConfig) (projectId : String) (key : Key) :
    Store Content Unit := do
  if config.rotation.enabled = false then
    throw ⟨.invalidInput, "history.rotation.enabled is false"⟩
  storeDir config
  let index ← loadOrRebuild listing projectId
  let place ← settle (buildBackend
    (withCredentials (recordedConfig index key config.rotation.backend) config.rotation.backend))
  fetch digests projectId place index key

/-- A version that can be served from the store. -/
structure StoredVersion where
  key : Key
  hash : String
  size : UInt64
  crc : UInt32
  storedAt : UInt64
  publisher : String
  source : String
  deriving DecidableEq, Repr

def toStored (key : Key) (entry : IndexEntry) : StoredVersion :=
  ⟨key, entry.hash, entry.size, entry.crc, entry.storedAt, entry.publisher, entry.source⟩

def lookup (listing : Listing) (config : HistoryConfig) (projectId : String) (key : Key) :
    Store Content (Option StoredVersion) := do
  if config.covers projectId = false then return none
  storeDir config
  let index ← loadOrRebuild listing projectId
  match index.get key with
  | none => return none
  | some entry =>
    if entry.offloaded.isSome = true then
      if config.rotation.enabled = false then return none
      match ← attempt (fetchOffloaded digests listing config projectId key) with
      | .error _ => return none
      | .ok _ =>
        let refreshed ← loadOrRebuild listing projectId
        return (refreshed.get key).map (toStored key)
    match ← attempt (validateObject digests entry.hash entry.size entry.crc) with
    | .ok true => return some (toStored key entry)
    | _ => return none

/-! ### What is protected -/

/-- The versions that are neither removed nor moved. -/
def protectedVersions (listing : Listing) (config : HistoryConfig) (projectId : String)
    (extraKeep : List Key) : Store Content (List Key) := do
  storeDir config
  let pins ← allPins listing projectId
  unless pins = [] do
    let _ ← loadOrRebuild listing projectId
  return extraKeep ++ pins

/-! ### Rotation -/

structure RotationReport where
  offloaded : List Key
  bytesOffloaded : UInt64
  candidates : List Key
  skipped : List (Key × String)
  deriving DecidableEq, Repr

/-- The object is recorded at the backend already. -/
def alreadyOffloaded (index : HistoryIndex) (config : RotationBackendConfig) (hash : String) :
    Bool :=
  index.iterAll.any fun item => item.2.hash == hash && match item.2.offloaded with
    | none => false
    | some offloaded => offloaded.config == some config ||
        (offloaded.config == none && offloaded.backend == backendName config)

/-- Some version of the content is still kept locally. -/
def hasLocalReference (index : HistoryIndex) (hash : String) : Bool :=
  index.iterAll.any fun item => item.2.hash == hash && item.2.offloaded.isNone

/-- The external object is there, has the right size and, fetched once more, the
right content. -/
def checkUpload (place : Place) (external : String) (entry : IndexEntry) : Store Content Unit := do
  unless ← existsAt place external do throw ⟨.other, "object not found at backend"⟩
  match ← sizeAt digests place external with
  | none => throw ⟨.other, "object not found at backend"⟩
  | some size =>
    if size ≠ entry.size then
      throw ⟨.other, "expected " ++ toString entry.size ++ " bytes, backend has " ++
        toString size⟩
  let content ← getAt place external
  unless ← validateFetched digests content entry do
    throw ⟨.other, "downloaded object failed integrity validation"⟩

/-- The entry of a version that was moved. -/
def moved (config : RotationBackendConfig) (external : String) (entry : IndexEntry) : IndexEntry :=
  { entry with offloaded := some ⟨backendName config, external, some config⟩ }

/-- Put the object in the external store, unless it is recorded there. -/
def upload (index : HistoryIndex) (config : RotationBackendConfig) (external hash : String) :
    Store Content Unit := do
  unless alreadyOffloaded index config hash = true do putAt config.place external hash

/-- Record a version as moved and remove its object, unless a version of the same content
is still local. -/
def settleMove (projectId : String) (config : RotationBackendConfig) (index : HistoryIndex)
    (key : Key) (entry : IndexEntry) : Store Content HistoryIndex := do
  let external := objectKey digests projectId entry.hash
  appendObjectRef projectId entry.hash ((moved config external entry).reference key)
  let index := index.insert key (moved config external entry)
  record index config.place external
  if hasLocalReference index entry.hash = false then
    let _ ← attempt (write fun disk => disk.withoutObject entry.hash)
  return index

/-- Move one version; a version that could not be uploaded is skipped. -/
def offload (projectId : String) (config : RotationBackendConfig)
    (progress : HistoryIndex × RotationReport) (key : Key) :
    Store Content (HistoryIndex × RotationReport) := do
  match progress.1.get key with
  | none => return progress
  | some entry =>
    if entry.offloaded.isSome = true then return progress
    let external := objectKey digests projectId entry.hash
    match ← attempt (upload progress.1 config external entry.hash) with
    | .error error =>
      return (progress.1, { progress.2 with
        skipped := progress.2.skipped ++ [(key, "put failed: " ++ error.message)] })
    | .ok _ =>
    match ← attempt (checkUpload digests config.place external entry) with
    | .error error =>
      return (progress.1, { progress.2 with
        skipped := progress.2.skipped ++
          [(key, "post-put verification failed: " ++ error.message)] })
    | .ok _ =>
      let index ← settleMove digests projectId config progress.1 key entry
      return (index, { progress.2 with
        offloaded := progress.2.offloaded ++ [key]
        bytesOffloaded := saturatingAdd progress.2.bytesOffloaded entry.size })

def rotate (listing : Listing) (config : HistoryConfig) (projectId : String) (keep : List Key)
    (dryRun : Bool) (nowMs : UInt64) : Store Content RotationReport := do
  if config.rotation.enabled = false then
    throw ⟨.invalidInput, "history.rotation.enabled is false"⟩
  storeDir config
  let index ← loadOrRebuild listing projectId
  let guarded ← protectedVersions listing config projectId keep
  let candidates := selectCandidates index config.rotation.offloadAfterDays nowMs guarded
  if dryRun = true then return ⟨[], 0, candidates, []⟩
  let _ ← settle (buildBackend config.rotation.backend)
  let progress ← loop (offload digests projectId config.rotation.backend)
    (index, ⟨[], 0, candidates, []⟩) candidates
  return progress.2

/-! ### Collection -/

structure GcReport where
  removedVersions : List Key
  removedObjects : Nat
  bytesFreed : UInt64
  deriving DecidableEq, Repr

/-- The size of an object, if it can be read. -/
def objectSize (hash : String) : Store Content UInt64 := do
  match ← attempt (read fun disk => disk.objects.lookup hash) with
  | .ok (some content) => return digests.size content
  | _ => return 0

def addSize (freed : UInt64) (hash : String) : Store Content UInt64 := do
  let size ← objectSize digests hash
  return saturatingAdd freed size

/-- Remove the directory of the objects with all that is in it. -/
def removeObjects (listing : Listing) : Store Content Unit := do
  let objects ← read fun disk => listing.order disk.objects.keys
  loop (fun _ hash => write fun disk => disk.withoutObject hash) () objects
  let sidecars ← read fun disk => listing.order disk.sidecars.keys
  loop (fun _ hash => write fun disk => disk.withoutSidecar hash) () sidecars

/-- Empty the store, unless that would lose an offloaded version. -/
def purge (listing : Listing) (projectId : String) (index : HistoryIndex) :
    Store Content GcReport := do
  let offloadedCount := (index.iterAll.filter fun item => item.2.offloaded.isSome).length
  if 0 < offloadedCount then
    throw ⟨.invalidInput, "history purge refused: " ++ toString offloadedCount ++
      " offloaded version(s) must be fetched first"⟩
  let hashes := index.referencedHashes
  let freed ← loop (addSize digests) 0 hashes
  save (.new projectId)
  removeObjects listing
  pass
  return ⟨index.iterAll.map fun item => item.1, hashes.length, freed⟩

/-- Take one version out of the index and note the hash it had. -/
def removeVictim (progress : HistoryIndex × List (Key × String)) (key : Key) :
    HistoryIndex × List (Key × String) :=
  match progress.1.get key with
  | none => progress
  | some entry => (progress.1.remove key, progress.2 ++ [(key, entry.hash)])

def removeVictims (index : HistoryIndex) (victims : List Key) :
    HistoryIndex × List (Key × String) :=
  victims.foldl removeVictim (index, [])

/-- Remove an object and its sidecar, as far as that succeeds. -/
def discard (hash : String) : Store Content Unit := do
  let _ ← attempt (write fun disk => disk.withoutObject hash)
  let _ ← attempt (write fun disk => disk.withoutSidecar hash)

/-- Remove an object that no entry refers to. -/
def collect (referenced : List String) (report : GcReport) (hash : String) :
    Store Content GcReport := do
  pass
  if referenced.contains hash = true then return report
  let size ← objectSize digests hash
  discard hash
  return { report with
    removedObjects := report.removedObjects + 1, bytesFreed := report.bytesFreed + size }

def collectObjectHashes (listing : Listing) : Store Content (List String) := do
  let hashes ← read fun disk => listing.order disk.objects.keys
  return hashes.filter fun hash => isValidObjectHash hash

/-- Remove the sidecar's record of a version that was given up. -/
def removeRecord (report : GcReport) (version : Key × String) : Store Content GcReport := do
  removeObjectRef version.2 version.1
  return { report with removedVersions := report.removedVersions ++ [version.1] }

/-- Save the index without the victims, then remove their records and the objects
that nothing refers to any more. -/
def sweep (listing : Listing) (index : HistoryIndex) (victims : List Key) :
    Store Content GcReport := do
  let result := removeVictims index victims
  save result.1
  let report ← loop removeRecord ⟨[], 0, 0⟩ result.2
  let hashes ← collectObjectHashes listing
  let report ← loop (collect digests result.1.referencedHashes) report hashes
  pass
  return report

def gc (listing : Listing) (config : HistoryConfig) (projectId : String) (keep : List Key)
    (purging : Bool) (nowMs : UInt64) : Store Content GcReport := do
  storeDir config
  let index ← loadOrRebuild listing projectId
  if purging = true then purge digests listing projectId index
  else do
    let guarded ← protectedVersions listing config projectId keep
    sweep digests listing index (applyRetention index config guarded nowMs)

end Operations

/-! ### Tags -/

def notAHistoryNode : IoError :=
  ⟨.permissionDenied, "this node is not a history node for the project"⟩

def tagAdd (config : HistoryConfig) (projectId name : String)
    (pins : AList (fun _ : String => UInt64)) (nowMs : UInt64) : Store Content Tag := do
  if config.covers projectId = false then throw notAHistoryNode
  storeDir config
  saveTag projectId name nowMs pins

def tagRemove (config : HistoryConfig) (projectId name : String) : Store Content Bool := do
  if config.covers projectId = false then throw notAHistoryNode
  storeDir config
  removeTag projectId name

end Synergos.HistoryStore
