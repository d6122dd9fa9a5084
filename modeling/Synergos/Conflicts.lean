import Mathlib
import Synergos.Gossip
import Synergos.Runs

/-!
# Conflicts of a file

Two contents that claim one version of a file are a conflict, and so is a block that
does not follow the head of a chain. The manager keeps one entry for a file id, active or
resolved, until a clean-up takes the resolved ones out. An entry names the project it was
found in; the list of a project shows the active entries that name it.

A file id is a path inside a project, so that files of two projects share one id, and
the entry of one project stands in the way of the other's; so does the resolved entry of
an earlier conflict. Events for the user interface and log lines are left out. The one
task that reads gossip records conflicts and takes alerts, and a resolution or a clean-up
neither makes nor renames an entry, so that each operation is one step.
-/

namespace Synergos.Conflicts

open Base64url Identity Gossip Runs List

inductive ConflictResolution where
  | keepLocal
  | acceptRemote
  | manualMerge
  deriving DecidableEq

inductive ConflictState where
  | active
  | resolved (resolution : ConflictResolution)
  deriving DecidableEq

structure ConflictInfo where
  fileId : FileId
  commonAncestorHash : Option (Bytes 32)
  commonAncestorVersion : UInt64
  localVersion : UInt64
  localAuthor : PeerId
  remoteVersion : UInt64
  remoteAuthor : PeerId
  involvedPeers : List PeerId
  detectedAt : UInt64
  state : ConflictState
  filePath : String
  projectId : String
  deriving DecidableEq

/-- What waits for a peer that is offline. -/
structure PendingNotification where
  conflict : ConflictInfo
  targetPeer : PeerId
  createdAt : UInt64
  retryCount : UInt32
  deriving DecidableEq

inductive ConflictError where
  | notFound (fileId : String)
  | alreadyResolved (fileId : String)
  deriving DecidableEq

/-- The part of a block that is compared. -/
structure ChainBlock where
  hash : Bytes 32
  prevHash : Option (Bytes 32)
  version : UInt64
  author : PeerId

/-- The latest blocks of a file, oldest first. -/
structure FileChain where
  blocks : List ChainBlock
  head : Option (Bytes 32)

/-- An entry is found under the file id it names. -/
structure ConflictManager where
  conflicts : AList fun _ : FileId => ConflictInfo
  hotStandby : AList fun _ : PeerId => List PendingNotification
  keyed : ∀ fileId info, conflicts.lookup fileId = some info → info.fileId = fileId

/-! ## Operations -/

def new : ConflictManager where
  conflicts := ∅
  hotStandby := ∅
  keyed := by
    intro fileId info found
    cases found

def getConflict (manager : ConflictManager) (fileId : FileId) : Option ConflictInfo :=
  manager.conflicts.lookup fileId

/-- Put an entry under its file id. -/
def put (manager : ConflictManager) (info : ConflictInfo) : ConflictManager where
  conflicts := manager.conflicts.insert info.fileId info
  hotStandby := manager.hotStandby
  keyed := by
    intro fileId entry found
    by_cases same : fileId = info.fileId
    · subst same
      rw [AList.lookup_insert] at found
      cases found
      rfl
    · rw [AList.lookup_insert_ne same] at found
      exact manager.keyed fileId entry found

def saturatingPred (version : UInt64) : UInt64 := if version = 0 then 0 else version - 1

def versionConflict (projectId : String) (fileId : FileId) (localVersion : UInt64)
    (localPeer : PeerId) (remoteVersion : UInt64) (remotePeer : PeerId) (now : UInt64) :
    ConflictInfo where
  fileId
  commonAncestorHash := none
  commonAncestorVersion := saturatingPred localVersion
  localVersion
  localAuthor := localPeer
  remoteVersion
  remoteAuthor := remotePeer
  involvedPeers := [localPeer, remotePeer]
  detectedAt := now
  state := .active
  filePath := fileId
  projectId

def recordVersionConflict (manager : ConflictManager) (projectId : String) (fileId : FileId)
    (localVersion : UInt64) (localPeer : PeerId) (remoteVersion : UInt64) (remotePeer : PeerId)
    (now : UInt64) : ConflictInfo × ConflictManager :=
  match getConflict manager fileId with
  | some existing => (existing, manager)
  | none =>
      let conflict := versionConflict projectId fileId localVersion localPeer remoteVersion
        remotePeer now
      (conflict, put manager conflict)

def queueNotification (manager : ConflictManager) (conflict : ConflictInfo) (targetPeer : PeerId)
    (now : UInt64) : ConflictManager :=
  { manager with
    hotStandby := manager.hotStandby.insert targetPeer
      ((manager.hotStandby.lookup targetPeer).getD [] ++ [⟨conflict, targetPeer, now, 0⟩]) }

/-- The block of the chain that the remote block follows. -/
def forkPoint (chain : FileChain) (remoteBlock : ChainBlock) : Option (Bytes 32) × UInt64 :=
  match remoteBlock.prevHash with
  | none => (none, 0)
  | some previous =>
      match chain.blocks.find? fun block => block.hash = previous with
      | some block => (some block.hash, block.version)
      | none => (none, 0)

def forkConflict (projectId : String) (fileId : FileId) (filePath : String)
    (localChain : FileChain) (remoteBlock : ChainBlock) (localPeer : PeerId) (now : UInt64) :
    ConflictInfo where
  fileId
  commonAncestorHash := (forkPoint localChain remoteBlock).1
  commonAncestorVersion := (forkPoint localChain remoteBlock).2
  localVersion := (localChain.blocks.getLast?.map ChainBlock.version).getD 0
  localAuthor := localPeer
  remoteVersion := remoteBlock.version
  remoteAuthor := remoteBlock.author
  involvedPeers := [localPeer, remoteBlock.author]
  detectedAt := now
  state := .active
  filePath
  projectId

def detectConflict (manager : ConflictManager) (projectId : String) (fileId : FileId)
    (filePath : String) (localChain : FileChain) (remoteBlock : ChainBlock) (localPeer : PeerId)
    (now : UInt64) : Option ConflictInfo × ConflictManager :=
  match localChain.head with
  | none => (none, manager)
  | some head =>
      if remoteBlock.prevHash = some head then (none, manager)
      else if (getConflict manager fileId).isSome then (none, manager)
      else
        let conflict := forkConflict projectId fileId filePath localChain remoteBlock localPeer now
        let others := conflict.involvedPeers.filter fun peer => peer ≠ localPeer
        (some conflict, others.foldl
          (fun manager peer => queueNotification manager conflict peer now) (put manager conflict))

def resolveConflict (manager : ConflictManager) (fileId : FileId)
    (resolution : ConflictResolution) : Except ConflictError ConflictInfo × ConflictManager :=
  match getConflict manager fileId with
  | none => (.error (.notFound fileId), manager)
  | some entry =>
      match entry.state with
      | .resolved _ => (.error (.alreadyResolved fileId), manager)
      | .active =>
          let resolved := { entry with state := .resolved resolution }
          (.ok resolved, put manager resolved)

def ConflictInfo.isActive (info : ConflictInfo) : Bool := info.state = .active

/-- The active conflicts, of one project or of all. -/
def listConflicts (manager : ConflictManager) (projectId : Option String) : List ConflictInfo :=
  (manager.conflicts.entries.map Sigma.snd).filter fun info =>
    info.isActive ∧ projectId.all fun id => info.projectId = id

/-- The entries that are active. -/
def activeOnly (table : AList fun _ : FileId => ConflictInfo) :
    AList fun _ : FileId => ConflictInfo where
  entries := table.entries.filter fun item => item.2.isActive
  nodupKeys := table.nodupKeys.sublist filter_sublist

theorem lookup_activeOnly (table : AList fun _ : FileId => ConflictInfo) (fileId : FileId) :
    (activeOnly table).lookup fileId = (table.lookup fileId).filter ConflictInfo.isActive := by
  apply Option.ext
  intro info
  rw [Option.filter_eq_some_iff, ← Option.mem_def, ← Option.mem_def, AList.mem_lookup_iff,
    AList.mem_lookup_iff]
  exact mem_filter

def cleanupResolved (manager : ConflictManager) : ConflictManager where
  conflicts := activeOnly manager.conflicts
  hotStandby := manager.hotStandby
  keyed := by
    intro fileId info found
    rw [lookup_activeOnly, Option.filter_eq_some_iff] at found
    exact manager.keyed fileId info found.1

def drainPendingNotifications (manager : ConflictManager) (peer : PeerId) :
    List PendingNotification × ConflictManager :=
  ((manager.hotStandby.lookup peer).getD [],
    { manager with hotStandby := manager.hotStandby.erase peer })

/-- Peers that are named for the first time go to the end. -/
def addPeers (involved named : List PeerId) : List PeerId :=
  named.foldl (fun peers peer => if peer ∈ peers then peers else peers ++ [peer]) involved

/-- An alert does not say in which project the conflict is. -/
def alertConflict (fileId : FileId) (conflictingNodes : List PeerId)
    (theirVersions : List UInt64) (now : UInt64) : ConflictInfo where
  fileId
  commonAncestorHash := none
  commonAncestorVersion := 0
  localVersion := 0
  localAuthor := "local"
  remoteVersion := theirVersions.max?.getD 0
  remoteAuthor := conflictingNodes.head?.getD "unknown"
  involvedPeers := conflictingNodes
  detectedAt := now
  state := .active
  filePath := ""
  projectId := ""

def handleConflictAlert (manager : ConflictManager) (fileId : FileId)
    (conflictingNodes : List PeerId) (theirVersions : List UInt64) (now : UInt64) :
    ConflictManager :=
  match getConflict manager fileId with
  | some entry =>
      put manager { entry with involvedPeers := addPeers entry.involvedPeers conflictingNodes }
  | none => put manager (alertConflict fileId conflictingNodes theirVersions now)

/-! ## Runs -/

inductive Operation where
  | record (projectId : String) (fileId : FileId) (localVersion : UInt64) (localPeer : PeerId)
      (remoteVersion : UInt64) (remotePeer : PeerId) (now : UInt64)
  | detect (projectId : String) (fileId : FileId) (filePath : String) (localChain : FileChain)
      (remoteBlock : ChainBlock) (localPeer : PeerId) (now : UInt64)
  | resolve (fileId : FileId) (resolution : ConflictResolution)
  | cleanup
  | alert (fileId : FileId) (conflictingNodes : List PeerId) (theirVersions : List UInt64)
      (now : UInt64)
  | drain (peer : PeerId)

def perform (manager : ConflictManager) : Operation → ConflictManager
  | .record projectId fileId localVersion localPeer remoteVersion remotePeer now =>
      (recordVersionConflict manager projectId fileId localVersion localPeer remoteVersion
        remotePeer now).2
  | .detect projectId fileId filePath localChain remoteBlock localPeer now =>
      (detectConflict manager projectId fileId filePath localChain remoteBlock localPeer now).2
  | .resolve fileId resolution => (resolveConflict manager fileId resolution).2
  | .cleanup => cleanupResolved manager
  | .alert fileId conflictingNodes theirVersions now =>
      handleConflictAlert manager fileId conflictingNodes theirVersions now
  | .drain peer => (drainPendingNotifications manager peer).2

/-- The manager, with the conflicts that have been recorded and not resolved since. -/
structure World where
  manager : ConflictManager
  unresolved : List (String × FileId)

/-- A resolution that succeeds settles the conflict it reports. -/
def settle (unresolved : List (String × FileId)) (fileId : FileId) :
    Except ConflictError ConflictInfo → List (String × FileId)
  | .ok resolved => unresolved.filter fun pair => pair ≠ (resolved.projectId, fileId)
  | .error _ => unresolved

/-- The conflicts that are recorded and unresolved after an operation. -/
def unresolvedAfter (world : World) : Operation → List (String × FileId)
  | .record projectId fileId _ _ _ _ _ => (projectId, fileId) :: world.unresolved
  | .resolve fileId resolution =>
      settle world.unresolved fileId (resolveConflict world.manager fileId resolution).1
  | .detect _ _ _ _ _ _ _ | .cleanup | .alert _ _ _ _ | .drain _ => world.unresolved

def system : System World Operation where
  enabled _ _ := True
  apply world operation := ⟨perform world.manager operation, unresolvedAfter world operation⟩

/-! ## What is listed -/

/-- The list of the project has an active conflict for the file. -/
def Listed (manager : ConflictManager) (projectId : String) (fileId : FileId) : Prop :=
  ∃ info ∈ listConflicts manager (some projectId), info.fileId = fileId ∧ info.state = .active

/-- What the manager holds for the file is an active conflict of the project. -/
def Clear (manager : ConflictManager) (projectId : String) (fileId : FileId) : Prop :=
  ∀ entry, getConflict manager fileId = some entry →
    entry.state = .active ∧ entry.projectId = projectId

variable {manager : ConflictManager} {projectId : Option String} {info : ConflictInfo}
  {resolution : ConflictResolution}

theorem mem_listConflicts :
    info ∈ listConflicts manager projectId ↔
      getConflict manager info.fileId = some info ∧ info.state = .active ∧
        ∀ id, projectId = some id → info.projectId = id := by
  have held : info ∈ manager.conflicts.entries.map Sigma.snd ↔
      getConflict manager info.fileId = some info := by
    rw [getConflict, ← Option.mem_def, AList.mem_lookup_iff]
    constructor
    · intro member
      obtain ⟨⟨fileId, entry⟩, listed, same⟩ := mem_map.mp member
      have named := manager.keyed fileId entry (AList.mem_lookup_iff.mpr listed)
      dsimp only at same
      subst same
      rw [named]
      exact listed
    · intro listed
      exact mem_map.mpr ⟨⟨info.fileId, info⟩, listed, rfl⟩
  have shown : (decide (info.isActive = true ∧ (projectId.all fun id => info.projectId = id) = true)) =
      true ↔ info.state = .active ∧ ∀ id, projectId = some id → info.projectId = id := by
    cases projectId with
    | none | some id => simp [ConflictInfo.isActive]
  rw [listConflicts, mem_filter, held, shown]

/-- Every entry is listed once. -/
theorem nodup_listConflicts : (listConflicts manager projectId).Nodup := by
  apply List.Nodup.filter
  have named : ∀ item ∈ manager.conflicts.entries, item.2.fileId = item.1 := by
    rintro ⟨fileId, info⟩ listed
    exact manager.keyed fileId info (AList.mem_lookup_iff.mpr listed)
  have keys : (manager.conflicts.entries.map Sigma.snd).map ConflictInfo.fileId =
      manager.conflicts.keys := by
    rw [map_map]
    exact map_congr_left named
  apply List.Nodup.of_map ConflictInfo.fileId
  rw [keys]
  exact manager.conflicts.keys_nodup

/-- Two managers with the same entries of a project list the same. -/
theorem listConflicts_perm {before after : ConflictManager} {projectId : String}
    (same : ∀ info, info.projectId = projectId → info.state = .active →
      (getConflict after info.fileId = some info ↔ getConflict before info.fileId = some info)) :
    (listConflicts after (some projectId)).Perm (listConflicts before (some projectId)) := by
  rw [perm_ext_iff_of_nodup (nodup_listConflicts) (nodup_listConflicts)]
  intro info
  rw [mem_listConflicts, mem_listConflicts]
  constructor
  · rintro ⟨held, active, ofProject⟩
    exact ⟨(same info (ofProject _ rfl) active).mp held, active, ofProject⟩
  · rintro ⟨held, active, ofProject⟩
    exact ⟨(same info (ofProject _ rfl) active).mpr held, active, ofProject⟩

theorem listed_iff {projectId : String} {fileId : FileId} :
    Listed manager projectId fileId ↔ ∃ entry, getConflict manager fileId = some entry ∧
      entry.state = .active ∧ entry.projectId = projectId := by
  constructor
  · rintro ⟨info, member, rfl, active⟩
    obtain ⟨held, _, ofProject⟩ := mem_listConflicts.mp member
    exact ⟨info, held, active, ofProject _ rfl⟩
  · rintro ⟨entry, held, active, rfl⟩
    have named := manager.keyed fileId entry held
    subst named
    refine ⟨entry, mem_listConflicts.mpr ⟨held, active, ?_⟩, rfl, active⟩
    intro id same
    exact Option.some.inj same

/-! ## The entries after an operation -/

@[simp] theorem getConflict_put_self (manager : ConflictManager) (info : ConflictInfo) :
    getConflict (put manager info) info.fileId = some info :=
  AList.lookup_insert _

theorem getConflict_put_ne (manager : ConflictManager) {fileId : FileId}
    (other : fileId ≠ info.fileId) :
    getConflict (put manager info) fileId = getConflict manager fileId :=
  AList.lookup_insert_ne other

theorem getConflict_notified (conflict : ConflictInfo) (now : UInt64) (peers : List PeerId)
    (manager : ConflictManager) (fileId : FileId) :
    getConflict (peers.foldl (fun manager peer => queueNotification manager conflict peer now)
      manager) fileId = getConflict manager fileId := by
  induction peers generalizing manager with
  | nil => rfl
  | cons peer rest ih => exact ih _

theorem getConflict_cleanupResolved (manager : ConflictManager) (fileId : FileId) :
    getConflict (cleanupResolved manager) fileId =
      (getConflict manager fileId).filter ConflictInfo.isActive :=
  lookup_activeOnly manager.conflicts fileId

/-- A recording keeps what is there and makes the entry where nothing is. -/
theorem getConflict_record (manager : ConflictManager) (projectId : String) (fileId : FileId)
    (localVersion : UInt64) (localPeer : PeerId) (remoteVersion : UInt64) (remotePeer : PeerId)
    (now : UInt64) (other : FileId) :
    getConflict (recordVersionConflict manager projectId fileId localVersion localPeer
        remoteVersion remotePeer now).2 other =
      (getConflict manager other).or (if other = fileId then
        some (versionConflict projectId fileId localVersion localPeer remoteVersion remotePeer now)
        else none) := by
  unfold recordVersionConflict
  split
  · rename_i existing found
    obtain rfl | its := eq_or_ne other fileId
    · rw [found, Option.some_or]
    · rw [if_neg its, Option.or_none]
  · rename_i absent
    obtain rfl | its := eq_or_ne other fileId
    · rw [absent, Option.none_or, if_pos rfl]
      exact getConflict_put_self _ _
    · rw [if_neg its, Option.or_none]
      exact getConflict_put_ne _ its

/-- A resolution that succeeds has found an active conflict and changes its state only. -/
theorem resolveConflict_ok {fileId : FileId} {resolved : ConflictInfo}
    (ok : (resolveConflict manager fileId resolution).1 = .ok resolved) :
    ∃ entry, getConflict manager fileId = some entry ∧ entry.state = .active ∧
      resolved = { entry with state := .resolved resolution } ∧
      (resolveConflict manager fileId resolution).2 = put manager resolved := by
  unfold resolveConflict at ok ⊢
  split at ok
  · cases ok
  · rename_i entry found
    split at ok
    · cases ok
    · rename_i active
      cases ok
      exact ⟨entry, found, active, rfl, rfl⟩

theorem resolveConflict_error {fileId : FileId} {error : ConflictError}
    (failed : (resolveConflict manager fileId resolution).1 = .error error) :
    (resolveConflict manager fileId resolution).2 = manager := by
  unfold resolveConflict at failed ⊢
  split at failed
  · rfl
  · split at failed
    · rfl
    · cases failed

/-! ## Conflicts that are kept -/

section Listing

variable (manager : ConflictManager) (projectId : String) (fileId : FileId)
variable (localVersion : UInt64) (localPeer : PeerId) (remoteVersion : UInt64)
variable (remotePeer : PeerId) (now : UInt64)

theorem listed_record_iff :
    Listed (recordVersionConflict manager projectId fileId localVersion localPeer remoteVersion
      remotePeer now).2 projectId fileId ↔ Clear manager projectId fileId := by
  rw [listed_iff]
  simp only [getConflict_record, if_pos]
  cases found : getConflict manager fileId with
  | none =>
    refine iff_of_true ⟨_, rfl, rfl, rfl⟩ ?_
    intro entry held
    simp [found] at held
  | some existing =>
    simp only [Option.some_or, Clear, found]
    constructor
    · rintro ⟨entry, same, active, ofProject⟩ other its
      cases same
      cases its
      exact ⟨active, ofProject⟩
    · intro clear
      exact ⟨existing, rfl, clear existing rfl⟩

variable {other : String}

theorem listConflicts_record_perm (different : other ≠ projectId) :
    (listConflicts (recordVersionConflict manager projectId fileId localVersion localPeer
      remoteVersion remotePeer now).2 (some other)).Perm (listConflicts manager (some other)) := by
  apply listConflicts_perm
  intro info ofOther _
  rw [getConflict_record]
  cases found : getConflict manager info.fileId with
  | some existing => rw [Option.some_or]
  | none =>
    rw [Option.none_or]
    constructor
    · intro made
      split_ifs at made
      cases made
      exact absurd ofOther.symm different
    · exact nofun

theorem listConflicts_resolve_perm {resolved : ConflictInfo}
    (ok : (resolveConflict manager fileId resolution).1 = .ok resolved)
    (different : other ≠ resolved.projectId) :
    (listConflicts (resolveConflict manager fileId resolution).2 (some other)).Perm
      (listConflicts manager (some other)) := by
  obtain ⟨entry, found, active, rfl, after⟩ := resolveConflict_ok ok
  have named := manager.keyed fileId entry found
  apply listConflicts_perm
  intro info ofOther infoActive
  rw [after]
  by_cases its : info.fileId = fileId
  · constructor
    · intro held
      rw [its, ← named] at held
      have same := Option.some.inj ((getConflict_put_self _ _).symm.trans held)
      simp [← same] at infoActive
    · intro held
      rw [its, found] at held
      cases held
      exact absurd ofOther.symm different
  · rw [getConflict_put_ne manager (by rw [named]; exact its)]

end Listing

/-- Each conflict that was recorded and not resolved since is listed in its project. -/
def Kept (world : World) : Prop :=
  ∀ projectId fileId, (projectId, fileId) ∈ world.unresolved →
    Listed world.manager projectId fileId

/-- A recording finds nothing under the file id, or an active conflict of its own project. -/
def Unobstructed (world : World) : Operation → Prop
  | .record projectId fileId _ _ _ _ _ => Clear world.manager projectId fileId
  | _ => True

/-- An active entry whose project does not change stays listed. -/
theorem listed_of_entry {before after : ConflictManager} {projectId : String} {fileId : FileId}
    (listed : Listed before projectId fileId)
    (kept : ∀ entry, getConflict before fileId = some entry → entry.state = .active →
      ∃ later, getConflict after fileId = some later ∧ later.state = .active ∧
        later.projectId = entry.projectId) : Listed after projectId fileId := by
  obtain ⟨entry, held, active, ofProject⟩ := listed_iff.mp listed
  obtain ⟨later, heldLater, activeLater, sameProject⟩ := kept entry held active
  exact listed_iff.mpr ⟨later, heldLater, activeLater, sameProject.trans ofProject⟩

section

variable {fileId : FileId} {manager : ConflictManager} {projectId : String}
  (listed : Listed manager projectId fileId)

include listed

theorem listed_record (recordedIn : String) (recordedFile : FileId)
    (localVersion : UInt64) (localPeer : PeerId) (remoteVersion : UInt64) (remotePeer : PeerId)
    (now : UInt64) :
    Listed (recordVersionConflict manager recordedIn recordedFile localVersion localPeer
      remoteVersion remotePeer now).2 projectId fileId := by
  refine listed_of_entry listed fun entry held active => ⟨entry, ?_, active, rfl⟩
  rw [getConflict_record, held, Option.some_or]

theorem listed_detect (foundIn : String) (foundFile : FileId)
    (filePath : String) (localChain : FileChain) (remoteBlock : ChainBlock) (localPeer : PeerId)
    (now : UInt64) :
    Listed (detectConflict manager foundIn foundFile filePath localChain remoteBlock localPeer
      now).2 projectId fileId := by
  refine listed_of_entry listed fun entry held active => ⟨entry, ?_, active, rfl⟩
  unfold detectConflict
  split
  · exact held
  split
  · exact held
  split
  · exact held
  · rename_i absent
    have other : fileId ≠ foundFile := by
      rintro rfl
      rw [held] at absent
      exact absent rfl
    dsimp only
    rw [getConflict_notified]
    exact (getConflict_put_ne manager other).trans held

theorem listed_alert (named : FileId) (conflictingNodes : List PeerId)
    (theirVersions : List UInt64) (now : UInt64) :
    Listed (handleConflictAlert manager named conflictingNodes theirVersions now)
      projectId fileId := by
  refine listed_of_entry listed fun entry held active => ?_
  unfold handleConflictAlert
  split
  · rename_i existing found
    have keyed := manager.keyed named existing found
    obtain rfl | its := eq_or_ne fileId named
    · rw [found] at held
      cases held
      let joined : ConflictInfo :=
        { entry with involvedPeers := addPeers entry.involvedPeers conflictingNodes }
      refine ⟨joined, ?_, active, rfl⟩
      rw [← keyed]
      exact getConflict_put_self manager joined
    · exact ⟨entry, (getConflict_put_ne manager (by rwa [keyed])).trans held, active, rfl⟩
  · rename_i absent
    have other : fileId ≠ named := by
      rintro rfl
      simp [held] at absent
    exact ⟨entry, (getConflict_put_ne manager other).trans held, active, rfl⟩

theorem listed_cleanup :
    Listed (cleanupResolved manager) projectId fileId := by
  refine listed_of_entry listed fun entry held active => ⟨entry, ?_, active, rfl⟩
  rw [getConflict_cleanupResolved, held]
  exact Option.filter_eq_some_iff.mpr ⟨rfl, by simpa [ConflictInfo.isActive] using active⟩

end

/-- A resolution takes one conflict out of the lists. -/
theorem listed_resolve {projectId : String} {fileId named : FileId}
    {resolved : ConflictInfo}
    (ok : (resolveConflict manager named resolution).1 = .ok resolved)
    (listed : Listed manager projectId fileId)
    (other : (projectId, fileId) ≠ (resolved.projectId, named)) :
    Listed (resolveConflict manager named resolution).2 projectId fileId := by
  obtain ⟨entry, found, _, rfl, after⟩ := resolveConflict_ok ok
  obtain ⟨held, heldFor, active, ofProject⟩ := listed_iff.mp listed
  have different : fileId ≠ named := by
    rintro rfl
    rw [found] at heldFor
    cases heldFor
    exact other (by rw [← ofProject])
  refine listed_iff.mpr ⟨held, ?_, active, ofProject⟩
  have keyed := manager.keyed named entry found
  rw [after, getConflict_put_ne manager (by rwa [keyed])]
  exact heldFor

theorem Kept.apply {world : World} (kept : Kept world) (operation : Operation)
    (unobstructed : Unobstructed world operation) : Kept (system.apply world operation) := by
  intro projectId fileId member
  cases operation with
  | record recordedIn recordedFile localVersion localPeer remoteVersion remotePeer now =>
    rcases mem_cons.mp member with same | earlier
    · cases same
      exact (listed_record_iff _ _ _ _ _ _ _ _).mpr unobstructed
    · exact listed_record (kept projectId fileId earlier) ..
  | detect foundIn foundFile filePath localChain remoteBlock localPeer now =>
    exact listed_detect (kept projectId fileId member) ..
  | resolve named resolution =>
    simp only [system, unresolvedAfter, perform] at member ⊢
    cases answer : (resolveConflict world.manager named resolution).1 with
    | ok resolved =>
      rw [answer] at member
      obtain ⟨earlier, other⟩ := mem_filter.mp member
      exact listed_resolve answer (kept projectId fileId earlier) (of_decide_eq_true other)
    | error reason =>
      rw [answer] at member
      rw [resolveConflict_error answer]
      exact kept projectId fileId member
  | cleanup => exact listed_cleanup (kept projectId fileId member)
  | alert named conflictingNodes theirVersions now =>
    exact listed_alert (kept projectId fileId member) ..
  | drain peer => exact kept projectId fileId member

/-- A recorded conflict is listed in its project exactly if what was there under the file id
was an active conflict of that project or nothing. A recording changes the list of no other
project, a resolution only that of the conflict it resolves, and one that fails changes
nothing. Where every recording finds nothing in its way, no conflict of a run is lost. -/
theorem recorded_conflict_listed_iff (manager : ConflictManager) (projectId : String)
    (fileId : FileId) (localVersion : UInt64) (localPeer : PeerId) (remoteVersion : UInt64)
    (remotePeer : PeerId) (now : UInt64) (resolution : ConflictResolution) :
    let recorded := (recordVersionConflict manager projectId fileId localVersion localPeer
      remoteVersion remotePeer now).2
    let resolved := resolveConflict manager fileId resolution
    (Listed recorded projectId fileId ↔ Clear manager projectId fileId) ∧
    (∀ other, other ≠ projectId →
      (listConflicts recorded (some other)).Perm (listConflicts manager (some other))) ∧
    (∀ info, resolved.1 = .ok info → ∀ other, other ≠ info.projectId →
      (listConflicts resolved.2 (some other)).Perm (listConflicts manager (some other))) ∧
    (∀ error, resolved.1 = .error error → resolved.2 = manager) ∧
    ∀ world, Run system Unobstructed ⟨new, []⟩ world → Kept world := by
  intro recorded resolved
  refine ⟨listed_record_iff .., fun other different => ?_, fun info ok other different => ?_,
    fun error failed => resolveConflict_error failed, fun world run => ?_⟩
  · exact listConflicts_record_perm _ _ _ _ _ _ _ _ different
  · exact listConflicts_resolve_perm manager fileId ok different
  · refine run.invariant Kept ?_ fun state operation _ unobstructed kept =>
      kept.apply operation unobstructed
    intro projectId fileId member
    cases member

/-! ### What stands in the way -/

/-- A conflict in one project. -/
def first : Operation := .record "p" "a.bin" 2 "local" 2 "remote" 1000

/-- The conflict of another project in a file of the same name is not listed anywhere, and
neither is a new conflict in a file whose last one has been resolved. -/
theorem second_conflict_lost :
    let other := [first, .record "q" "a.bin" 5 "local" 5 "remote" 2000].foldl system.apply ⟨new, []⟩
    let again := [first, .resolve "a.bin" .keepLocal,
      .record "p" "a.bin" 3 "local" 3 "remote" 2000].foldl system.apply ⟨new, []⟩
    ("q", "a.bin") ∈ other.unresolved ∧ listConflicts other.manager (some "q") = [] ∧
      ("p", "a.bin") ∈ again.unresolved ∧ listConflicts again.manager none = [] := by
  decide

end Synergos.Conflicts
