import Synergos.FileExchange
import Synergos.HistoryArchive
import Synergos.Manifest

/-!
# Publishing a batch of files

The command checks every path of the batch, runs the hooks, reads every file, and
then goes through the files once more: it issues a version, archives the content and
notes what to offer. The offers are made at the end. A failure while it goes through
the files ends the command where it is; what was saved for the files before stays.

Every error is answered with code 3. The hooks change working files only, and no
other process changes them during the command. All calls of one command read the
same time.
-/

namespace Synergos.PublishUpdate

open Faults Faults.Program FaultRuns HistoryFiles HistoryStore HistoryArchive Manifest
open SafePath FileExchange Gossip Base64url Identity Envelope

variable {Content : Type}

/-! ### The node -/

/-- A path in the command, absolute or relative to the root of the project. -/
structure RequestedPath where
  absolute : Bool
  components : PathBuf

/-- The working files of a project. -/
structure Tree (Content : Type) where
  canonicalize : PathBuf → Except IoError PathBuf
  /-- What a regular file holds; a path may lead to something else. -/
  contents : PathBuf → Except IoError (Option Content)

structure Node (Content : Type) where
  tree : Tree Content
  books : Books
  filePaths : FileId → Option PathBuf
  history : Disk Content
  exchange : Exchange

def Node.withBooks (books : Books) (node : Node Content) : Node Content := { node with books }

def Node.withHistory (history : Disk Content) (node : Node Content) : Node Content :=
  { node with history }

/-- Programs over a node. -/
abbrev Command (Content α : Type) := Program (Node Content) IoError α

/-! ### Paths -/

def trimDotSlash : List Char → List Char
  | '.' :: '/' :: rest => trimDotSlash rest
  | chars => chars

def normalizeRelPath (relative : PathBuf) : String :=
  let chars := (String.intercalate "/" relative).toList.map fun char =>
    if char = '\\' then '/' else char
  String.ofList ((trimDotSlash chars).dropWhile (· = '/'))

/-- The path below the root, or its last component alone. -/
def redactPath (root path : PathBuf) : String :=
  if root.isPrefixOf path then String.intercalate "/" (path.drop root.length)
  else path.getLast?.getD "<redacted>"

structure ResolvedPublishPath where
  canonical : PathBuf
  relative : PathBuf
  relativeKey : String

/-- An error answered to the client. -/
def refusal (message : String) : IoError := ⟨.other, message⟩

/-- The error of a step, behind what was tried. -/
def tried (what : String) (error : IoError) : IoError := refusal (what ++ ": " ++ error.message)

def canonicalize (path : PathBuf) : Command Content PathBuf :=
  step fun node => (node.tree.canonicalize path).map (·, node)

def contents (path : PathBuf) : Command Content (Option Content) :=
  step fun node => (node.tree.contents path).map (·, node)

/-- Go on only if a check has passed. -/
def refuseUnless (passed : Bool) (message : String) : Command Content Unit :=
  if passed then pure () else throw (refusal message)

/-- A key inside the metadata directory. -/
def isMetadata (key : String) : Bool :=
  key == metaDir || (metaDir ++ "/").toList.isPrefixOf key.toList

def resolvePublishPath (root : PathBuf) (requested : RequestedPath) :
    Command Content ResolvedPublishPath := do
  let absolute :=
    if requested.absolute then requested.components else root ++ requested.components
  let canonical ← relabel (tried ("file not found or unreadable: " ++ redactPath root absolute))
    (canonicalize absolute)
  refuseUnless (root.isPrefixOf canonical)
    ("file outside project root: " ++ redactPath root canonical)
  let found ← relabel (tried ("metadata failed " ++ redactPath root canonical))
    (contents canonical)
  refuseUnless found.isSome ("not a regular file: " ++ redactPath root canonical)
  let relative := canonical.drop root.length
  let relativeKey := normalizeRelPath relative
  refuseUnless (!isMetadata relativeKey) ("cannot publish Synergos metadata: " ++ relativeKey)
  return ⟨canonical, relative, relativeKey⟩

/-- A file of the batch as it was read after the hooks. -/
structure Candidate (Content : Type) where
  canonical : PathBuf
  relative : PathBuf
  relKey : String
  content : Content

section Command

variable (projectId : String)
  (hook : String → Tree Content → Except IoError (Tree Content))

/-! ### Checks and hooks -/

def resolveNext (root : PathBuf) (prepared : List ResolvedPublishPath) (path : RequestedPath) :
    Command Content (List ResolvedPublishPath) := do
  let resolved ← resolvePublishPath root path
  return prepared ++ [resolved]

def runPrePublish (_ : Unit) (entry : ResolvedPublishPath) : Command Content Unit :=
  relabel (tried ("pre-publish hook rejected " ++ entry.relativeKey))
    (step fun node => (hook entry.relativeKey node.tree).map fun tree => ((), { node with tree }))

def readCandidate (root : PathBuf) (candidates : List (Candidate Content))
    (entry : ResolvedPublishPath) : Command Content (List (Candidate Content)) := do
  let resolved ← resolvePublishPath root ⟨false, entry.relative⟩
  refuseUnless (resolved.relativeKey == entry.relativeKey)
    ("pre-publish hook changed path identity: " ++ entry.relativeKey)
  let reading := "read failed " ++ redactPath root resolved.canonical
  match ← relabel (tried reading) (contents resolved.canonical) with
  | none => throw (tried reading (refusal "not a regular file"))
  | some content =>
    return candidates ++ [⟨resolved.canonical, resolved.relative, resolved.relativeKey, content⟩]

/-- Everything before the first version is issued. -/
def prepare (filePaths : List RequestedPath) : Command Content (List (Candidate Content)) := do
  match ← peek fun node : Node Content => node.books.root with
  | none => throw (refusal ("unknown project: " ++ projectId))
  | some path =>
    let root ← relabel (tried "project root canonicalize failed") (canonicalize path)
    let prepared ← loop (resolveNext root) [] filePaths
    loop (runPrePublish hook) () prepared
    loop (readCandidate root) [] prepared

/-! ### Issuing and offering -/

variable (digests : Digests Content) (listing : Listing) (config : HistoryConfig) (now : Moment)

def Candidate.size (candidate : Candidate Content) : UInt64 := digests.size candidate.content

def Candidate.crc (candidate : Candidate Content) : UInt32 := digests.crc32 candidate.content

/-- What the history store is asked to keep. -/
def Candidate.submission (candidate : Candidate Content) (version : UInt64) (publisher : PeerId) :
    Submission Content where
  key := (candidate.relKey, version)
  size := candidate.size digests
  crc := candidate.crc digests
  publisher
  source := "published"
  content := candidate.content

def Candidate.notification (candidate : Candidate Content) (version : UInt64) :
    PublishNotification :=
  ⟨projectId, candidate.relKey, candidate.canonical, candidate.size digests,
    candidate.crc digests, version⟩

/-- Keep the version, if this is a history node. -/
def archiveToHistory (file : Submission Content) : Command Content Unit := do
  if ← peek fun node : Node Content => node.exchange.historyAttached then
    let _ ← within Node.history Node.withHistory
      (archive digests listing config projectId file now.ms)

/-- One file: issue its version, register its path, archive it, note the offer. -/
def publishFile (notifications : List PublishNotification) (candidate : Candidate Content) :
    Command Content (List PublishNotification) := do
  let publisher ← peek fun node : Node Content => node.exchange.localPeerId
  let outcome ← relabel (tried ("manifest update failed for " ++ candidate.relKey))
    (within Node.books Node.withBooks (bumpFileVersion projectId candidate.relKey
      (candidate.size digests) (candidate.crc digests) publisher now.ms))
  poke fun node : Node Content => { node with
    filePaths := Function.update node.filePaths candidate.relKey (some candidate.relative) }
  relabel (tried ("history archive failed for " ++ candidate.relKey))
    (archiveToHistory projectId digests listing config now
      (candidate.submission digests outcome.version publisher))
  return notifications ++ [candidate.notification projectId digests outcome.version]

variable (blake3 : List UInt8 → Bytes 32) (scheme : Scheme) (crc32 : List UInt8 → UInt32)
  (catalogCid : Option Cid)

/-- The command: the offers are made when every file has its version. -/
def publishUpdate (filePaths : List RequestedPath) : Command Content Unit := do
  let candidates ← prepare projectId hook filePaths
  let notifications ← loop (publishFile projectId digests listing config now) [] candidates
  poke fun node : Node Content => { node with
    exchange := (publishUpdates blake3 scheme crc32 node.exchange notifications catalogCid now).2 }

end Command

/-! ### What must not change when the command fails -/

/-- What a node says about its files: the manifest and the marks, the history and the
shared records. -/
structure Standing (Content : Type) where
  books : Record
  index : Option (Parsed HistoryIndex)
  objects : AList (fun _ : String => Content)
  shared : ProjectId × FileId → Option SharedFileRecord

def Node.standing (projectId : String) (node : Node Content) : Standing Content :=
  ⟨node.books.record projectId, node.history.index, node.history.objects,
    node.exchange.sharedFiles⟩

section Conditions

variable (projectId : String) (digests : Digests Content) (config : HistoryConfig)

/-- The file has its content in the manifest under this version. -/
def SettledAt (node : Node Content) (candidate : Candidate Content) (version : UInt64) : Prop :=
  node.books.SettledAt projectId candidate.relKey (candidate.size digests)
    (candidate.crc digests) version

/-- A version would be issued for the file. -/
def Issues (node : Node Content) (candidate : Candidate Content) : Prop :=
  ∃ manifest state, node.books.Issues projectId candidate.relKey (candidate.size digests)
    (candidate.crc digests) manifest state

/-- Archiving the version leaves the history alone. -/
def LeavesHistory (node : Node Content) (file : Submission Content) : Prop :=
  node.exchange.historyAttached = true → Quiet digests projectId config node.history file

/-- Archiving refuses the version. -/
def RefusedByHistory (node : Node Content) (file : Submission Content) : Prop :=
  node.exchange.historyAttached = true ∧ Stops digests projectId config node.history file

/-- Up to the first file that is refused, no file has a version to be issued and none
changes the history. -/
def NothingToDo (node : Node Content) : List (Candidate Content) → Prop
  | [] => True
  | candidate :: rest =>
    ¬ Issues projectId digests node candidate ∧
      ∀ version, SettledAt projectId digests node candidate version →
        LeavesHistory projectId digests config node
          (candidate.submission digests version node.exchange.localPeerId) ∧
        (¬ RefusedByHistory projectId digests config node
            (candidate.submission digests version node.exchange.localPeerId) →
          NothingToDo node rest)

end Conditions

/-! ### Checks change working files only -/

/-- The nodes differ in their working files only. -/
def SameButTree (node after : Node Content) : Prop := ∃ tree, after = { node with tree := tree }

theorem SameButTree.refl (node : Node Content) : SameButTree node node := ⟨node.tree, rfl⟩

theorem SameButTree.with {node after : Node Content} (same : SameButTree node after)
    (tree : Tree Content) : SameButTree node { after with tree } := by
  obtain ⟨_, rfl⟩ := same
  exact ⟨tree, rfl⟩

section Prepare

variable {projectId : String} {hook : String → Tree Content → Except IoError (Tree Content)}
  {node : Node Content}

end Prepare

/-! ### One file -/

section Files

variable {projectId : String} {digests : Digests Content} {listing : Listing}
  {config : HistoryConfig} {now : Moment} {node state : Node Content}
  {candidate : Candidate Content}

/-- Books, history and exchange say the same. -/
structure Alike (projectId : String) (node after : Node Content) : Prop where
  books : node.books.Same projectId after.books
  history : SameStore node.history after.history
  exchange : after.exchange = node.exchange

theorem Alike.standing {after : Node Content} (alike : Alike projectId node after) :
    after.standing projectId = node.standing projectId := by
  unfold Node.standing
  rw [alike.books.1, alike.history.index, alike.history.objects, alike.exchange]

theorem SameButTree.alike {after : Node Content} (same : SameButTree node after) :
    Alike projectId node after := by
  obtain ⟨tree, rfl⟩ := same
  exact ⟨.refl _, .refl _, rfl⟩

section

variable (alike : Alike projectId node state)

include alike

theorem Alike.issues :
    Issues projectId digests state candidate ↔ Issues projectId digests node candidate := by
  simp [Issues, alike.books.issues]

omit alike in
theorem SameStore.trans {disk middle after : Disk Content} (first : SameStore disk middle)
    (second : SameStore middle after) : SameStore disk after :=
  ⟨second.index.trans first.index, second.objects.trans first.objects,
    fun hash => (second.spoilt hash).trans (first.spoilt hash)⟩

theorem Alike.withHistory {history : Disk Content}
    (same : SameStore state.history history) : Alike projectId node (state.withHistory history) :=
  ⟨alike.books, SameStore.trans alike.history same, alike.exchange⟩

theorem Alike.withBooks {books : Books}
    (same : state.books.Same projectId books) : Alike projectId node (state.withBooks books) :=
  ⟨alike.books.trans same, alike.history, alike.exchange⟩

theorem Alike.registered (filePaths : FileId → Option PathBuf) : Alike projectId node
    { state with filePaths } :=
  ⟨alike.books, alike.history, alike.exchange⟩

end

variable {taken : List (Candidate Content)} {second : Candidate Content}
  (candidates : List (Candidate Content)) (notifications : List PublishNotification)

/-- The entry of the manifest that publishing the file leads to. -/
def Candidate.entry (projectId : String) (digests : Digests Content) (now : Moment)
    (node : Node Content) (candidate : Candidate Content) : ManifestEntry :=
  node.books.publishedEntry projectId candidate.relKey (candidate.size digests)
    (candidate.crc digests) node.exchange.localPeerId now.ms

end Files

/-! ### The offers -/

section Offers

variable {blake3 : List UInt8 → Bytes 32} {scheme : Scheme} {crc32 : List UInt8 → UInt32}
  {now : Moment}

/-- The notification is offered: in the ledger, and as the shared record that answers wants. -/
structure Offered (now : Moment) (peer : PeerId) (notif : PublishNotification)
    (exchange : Exchange) : Prop where
  sender : exchange.localPeerId = peer
  shared : ∃ path, exchange.sharedFiles (notif.projectId, notif.fileId) =
    some ⟨notif.projectId, path, notif.fileSize, notif.crc, notif.version⟩
  offer : exchange.ledger.offers (notif.fileId, notif.version) =
    some ⟨peer, notif.fileId, notif.version, notif.fileSize, notif.crc, now.ms, .pending⟩

end Offers

/-! ### The command -/

section Main

variable (projectId : String) (hook : String → Tree Content → Except IoError (Tree Content))
  (digests : Digests Content) (listing : Listing) (config : HistoryConfig) (now : Moment)
  (blake3 : List UInt8 → Bytes 32) (scheme : Scheme) (crc32 : List UInt8 → UInt32)
  (catalogCid : Option Cid)

/-- A check refuses the batch, or the files that were read leave nothing to do. -/
def Idle (node : Node Content) (filePaths : List RequestedPath) : Prop :=
  ∀ candidates checked, Yields (prepare projectId hook filePaths) node candidates checked →
    NothingToDo projectId digests config node candidates

variable {projectId hook digests listing config now blake3 scheme crc32 catalogCid}
variable {node : Node Content} {filePaths : List RequestedPath}

variable {candidates : List (Candidate Content)} {checked : Node Content}

end Main

/-! ### A batch that is left half done -/

section Sample

open HistoryWorld (sampleDigests sampleConfig)

end Sample

end Synergos.PublishUpdate
