import Synergos.FaultRuns
import Synergos.HistoryRetention

/-!
# The manifest of a project and the marks of its versions

`.synergos/manifest.json` says which version of each file a project has now. It is
kept under version control and may go back to an older state, so the highest
version ever seen of each file stands in a second file, `.synergos/state.json`,
and a new version is issued above both.

Both files are read into memory when they are first needed and are replaced by a
rename, so each save is one step. The directory they lie in and its checks are left
out: they make the step fail.
-/

namespace Synergos.Manifest

open Faults Faults.Program FaultRuns HistoryFiles
open HistoryRetention (saturatingAdd)

/-! ### The manifest -/

structure ManifestEntry where
  version : UInt64
  size : UInt64
  crc : UInt32
  updatedAt : UInt64
  publisher : String
  deriving DecidableEq, Repr

structure ProjectManifest where
  format : UInt32
  projectId : String
  files : AList (fun _ : String => ManifestEntry)
  deriving DecidableEq

inductive BumpOutcome where
  | bumped (version : UInt64)
  | unchanged (version : UInt64)
  deriving DecidableEq, Repr

def BumpOutcome.version : BumpOutcome → UInt64
  | .bumped version | .unchanged version => version

/-- The version after the one of an entry, above a floor. -/
def nextVersion (current : Option ManifestEntry) (floor : UInt64) : UInt64 :=
  match current with
  | some entry => max (saturatingAdd entry.version 1) (saturatingAdd floor 1)
  | none => max 1 (saturatingAdd floor 1)

/-- The entry has this content. -/
def ManifestEntry.describes (entry : ManifestEntry) (size : UInt64) (crc : UInt32) : Prop :=
  entry.size = size ∧ entry.crc = crc

instance (entry : ManifestEntry) (size : UInt64) (crc : UInt32) :
    Decidable (entry.describes size crc) :=
  inferInstanceAs (Decidable (entry.size = size ∧ entry.crc = crc))

namespace ProjectManifest

def new (projectId : String) : ProjectManifest := ⟨1, projectId, ∅⟩

def get (manifest : ProjectManifest) (rel : String) : Option ManifestEntry :=
  manifest.files.lookup rel

def insert (manifest : ProjectManifest) (rel : String) (entry : ManifestEntry) : ProjectManifest :=
  { manifest with files := manifest.files.insert rel entry }

/-- What a manifest file stands for, if it belongs to the project and is valid. -/
def fromBytes (file : Parsed ProjectManifest) (projectId : String) :
    Except IoError ProjectManifest :=
  match file with
  | .garbled => .error ⟨.invalidData, "manifest is not valid JSON"⟩
  | .holds manifest =>
    let manifest := if manifest.projectId = "" then { manifest with projectId } else manifest
    if manifest.format ≠ 1 then
      .error ⟨.invalidData, "unsupported manifest format: " ++ toString manifest.format⟩
    else if manifest.projectId ≠ projectId then
      .error ⟨.invalidData, "manifest project id does not match the open project"⟩
    else if manifest.files.entries.any fun item => !isValidKey (item.1, item.2.version) then
      .error ⟨.invalidData, "manifest contains an invalid file path or version"⟩
    else .ok manifest

/-- The file has this content in the manifest. -/
def Settled (manifest : ProjectManifest) (rel : String) (size : UInt64) (crc : UInt32) : Prop :=
  ∃ entry, manifest.get rel = some entry ∧ entry.describes size crc

/-- Issue a version for a file, unless its content is the one that is there. -/
def bumpAtLeast (manifest : ProjectManifest) (rel : String) (size : UInt64) (crc : UInt32)
    (publisher : String) (nowMs floor : UInt64) : BumpOutcome × ProjectManifest :=
  let version := nextVersion (manifest.get rel) floor
  let bumped := (BumpOutcome.bumped version,
    manifest.insert rel ⟨version, size, crc, nowMs, publisher⟩)
  match manifest.get rel with
  | none => bumped
  | some entry =>
    if entry.describes size crc then (.unchanged entry.version, manifest) else bumped

/-- Record a received version unless the entry is as new; a version that was asked for is
recorded in any case. -/
def recordReceivedWith (manifest : ProjectManifest) (rel : String) (version size : UInt64)
    (crc : UInt32) (publisher : String) (nowMs : UInt64) (force : Bool) :
    Bool × ProjectManifest :=
  if (manifest.get rel).any (fun entry => version ≤ entry.version) = true ∧ force = false then
    (false, manifest)
  else (true, manifest.insert rel ⟨version, size, crc, nowMs, publisher⟩)

variable {manifest : ProjectManifest} {rel : String} {size : UInt64} {crc : UInt32}

theorem bumpAtLeast_settled {entry : ManifestEntry} (found : manifest.get rel = some entry)
    (same : entry.describes size crc) (publisher : String) (nowMs floor : UInt64) :
    manifest.bumpAtLeast rel size crc publisher nowMs floor =
      (.unchanged entry.version, manifest) := by
  simp [bumpAtLeast, found, if_pos same]

theorem bumpAtLeast_changed (changed : ¬ manifest.Settled rel size crc) (publisher : String)
    (nowMs floor : UInt64) :
    manifest.bumpAtLeast rel size crc publisher nowMs floor =
      (.bumped (nextVersion (manifest.get rel) floor),
        manifest.insert rel
          ⟨nextVersion (manifest.get rel) floor, size, crc, nowMs, publisher⟩) := by
  cases found : manifest.get rel with
  | none => simp only [bumpAtLeast, found]
  | some entry =>
    have differs : ¬ entry.describes size crc := fun same => changed ⟨entry, found, same⟩
    simp [bumpAtLeast, found, if_neg differs]

end ProjectManifest

/-! ### The highest versions -/

structure VersionState where
  format : UInt32
  projectId : String
  versions : AList (fun _ : String => UInt64)
  deriving DecidableEq

namespace VersionState

def new (projectId : String) : VersionState := ⟨1, projectId, ∅⟩

def highest (state : VersionState) (rel : String) : UInt64 := (state.versions.lookup rel).getD 0

/-- What a state file stands for, if it belongs to the project and is valid. -/
def fromBytes (file : Parsed VersionState) (projectId : String) : Except IoError VersionState :=
  match file with
  | .garbled => .error ⟨.invalidData, "version state is not valid JSON"⟩
  | .holds state =>
    if state.format ≠ 1 ∨ state.projectId ≠ projectId then
      .error ⟨.invalidData, "version state does not match the open project"⟩
    else if state.versions.entries.any fun item => !isValidKey (item.1, item.2) then
      .error ⟨.invalidData, "version state contains an invalid path or version"⟩
    else .ok state

/-- Raise the mark of a file; whether it went up. -/
def note (state : VersionState) (rel : String) (version : UInt64) :
    Except IoError (Bool × VersionState) :=
  if isValidKey (rel, version) = false then
    .error ⟨.invalidInput, "invalid path or version for version state"⟩
  else if version ≤ state.highest rel then .ok (false, state)
  else .ok (true, { state with versions := state.versions.insert rel version })

/-- Raise the marks of several files; whether any went up. -/
def noteAll (state : VersionState) : List (String × UInt64) →
    Except IoError (Bool × VersionState)
  | [] => .ok (false, state)
  | (rel, version) :: rest =>
    match state.note rel version with
    | .error error => .error error
    | .ok (raised, state) => (state.noteAll rest).map fun noted => (raised || noted.1, noted.2)

variable {state : VersionState} {version : UInt64}

theorem noteAll_refused {rel : String} (invalid : isValidKey (rel, version) = false) :
    state.noteAll [(rel, version)] =
      .error ⟨.invalidInput, "invalid path or version for version state"⟩ := by
  simp [noteAll, note, if_pos invalid]

theorem noteAll_kept {rel : String} (valid : isValidKey (rel, version) = true)
    (known : version ≤ state.highest rel) :
    state.noteAll [(rel, version)] = .ok (false, state) := by
  have accepted : ¬ isValidKey (rel, version) = false := by simp [valid]
  simp only [noteAll, note, if_neg accepted, if_pos known]
  rfl

theorem noteAll_raised {rel : String} (valid : isValidKey (rel, version) = true)
    (higher : ¬ version ≤ state.highest rel) :
    state.noteAll [(rel, version)] =
      .ok (true, { state with versions := state.versions.insert rel version }) := by
  have accepted : ¬ isValidKey (rel, version) = false := by simp [valid]
  simp only [noteAll, note, if_neg accepted, if_neg higher]
  rfl

end VersionState

/-- A version that is not the maximum lies above each of those it was counted on from. -/
theorem lt_of_saturatingAdd_le {version next : UInt64} (counted : saturatingAdd version 1 ≤ next)
    (below : next < 0xffffffffffffffff) : version < next := by
  rw [UInt64.le_iff_toNat_le] at counted
  rw [UInt64.lt_iff_toNat_lt] at below ⊢
  simp only [saturatingAdd, UInt64.toNat_ofNat', UInt64.reduceToNat] at counted below
  omega

theorem le_max_right_version (left right : UInt64) : right ≤ max left right := by
  simp only [Max.max, UInt64.le_iff_toNat_le]
  split_ifs <;> omega

theorem floor_lt_nextVersion {current : Option ManifestEntry} {floor : UInt64}
    (below : nextVersion current floor < 0xffffffffffffffff) :
    floor < nextVersion current floor := by
  refine lt_of_saturatingAdd_le ?_ below
  cases current with
  | none => exact le_max_right_version 1 _
  | some entry => exact le_max_right_version _ _

theorem isValidKey_version {rel : String} {version : UInt64}
    (valid : isValidKey (rel, version) = true) : version < 0xffffffffffffffff := by
  simp only [isValidKey, Bool.and_eq_true, decide_eq_true_eq] at valid
  exact valid.2

/-! ### The books of a project

What memory and the two files say. -/

structure Books where
  /-- The root of the project, while it is open. -/
  root : Option (List String)
  manifest : Option ProjectManifest
  versionState : Option VersionState
  manifestFile : Option (Parsed ProjectManifest)
  stateFile : Option (Parsed VersionState)

/-- Programs over the books of a project. -/
abbrev Keeper (α : Type) := Program Books IoError α

section Operations

variable (projectId : String)

def readManifest (books : Books) : Except IoError ProjectManifest :=
  match books.manifestFile with
  | none => .ok (.new projectId)
  | some file => ProjectManifest.fromBytes file projectId

def readVersionState (books : Books) : Except IoError VersionState :=
  match books.stateFile with
  | none => .ok (.new projectId)
  | some file => VersionState.fromBytes file projectId

/-- A project that is not open. -/
def notOpen : IoError := ⟨.notFound, projectId⟩

def projectRoot : Keeper (List String) := do
  match ← peek fun books : Books => books.root with
  | none => throw (notOpen projectId)
  | some root => return root

def loadManifestUnlocked : Keeper Unit := do
  let _ ← projectRoot projectId
  let manifest ← step fun books : Books => (readManifest projectId books).map (·, books)
  poke fun books : Books => { books with manifest := some manifest }

def loadVersionStateUnlocked : Keeper Unit := do
  let _ ← projectRoot projectId
  let state ← step fun books : Books => (readVersionState projectId books).map (·, books)
  poke fun books : Books => { books with versionState := some state }

/-- What is not in memory is loaded. -/
def ensureLoaded : Keeper Unit := do
  if (← peek fun books : Books => books.manifest.isSome) = false then
    loadManifestUnlocked projectId
  if (← peek fun books : Books => books.versionState.isSome) = false then
    loadVersionStateUnlocked projectId

def saveManifest (manifest : ProjectManifest) : Keeper Unit :=
  write fun books : Books => { books with manifestFile := some (.holds manifest) }

def saveVersionState (state : VersionState) : Keeper Unit :=
  write fun books : Books => { books with stateFile := some (.holds state) }

def noteVersionsUnlocked (versions : List (String × UInt64)) : Keeper Unit := do
  let _ ← projectRoot projectId
  match ← peek fun books : Books => books.versionState with
  | none => throw ⟨.notFound, "version state is not loaded"⟩
  | some state =>
    let noted ← settle (state.noteAll versions)
    if noted.1 = true then
      saveVersionState noted.2
      poke fun books : Books => { books with versionState := some noted.2 }

/-- The manifest and the state that are in memory. -/
def inMemory : Keeper (ProjectManifest × VersionState) :=
  peek fun books : Books =>
    (books.manifest.getD (.new projectId), books.versionState.getD (.new projectId))

/-- Save what a version was issued for: the mark first, so that a stop between the two
saves leaves a gap and no version is issued twice. -/
def commitBump (rel : String) (version : UInt64) (manifest : ProjectManifest) : Keeper Unit := do
  noteVersionsUnlocked projectId [(rel, version)]
  saveManifest manifest
  poke fun books : Books => { books with manifest := some manifest }

/-- A new version is saved before it is answered. -/
def settleBump (rel : String) : BumpOutcome × ProjectManifest → Keeper BumpOutcome
  | (.unchanged version, _) => return .unchanged version
  | (.bumped version, snapshot) => do
    commitBump projectId rel version snapshot
    return .bumped version

def bumpFileVersion (rel : String) (size : UInt64) (crc : UInt32) (publisher : String)
    (nowMs : UInt64) : Keeper BumpOutcome := do
  ensureLoaded projectId
  let _ ← projectRoot projectId
  let now ← inMemory projectId
  settleBump projectId rel
    (now.1.bumpAtLeast rel size crc publisher nowMs (now.2.highest rel))

/-- A received version is noted in any case; the manifest is saved if its entry changes. -/
def recordReceivedFile (rel : String) (version size : UInt64) (crc : UInt32) (publisher : String)
    (nowMs : UInt64) (force : Bool) : Keeper Bool := do
  ensureLoaded projectId
  let _ ← projectRoot projectId
  let now ← inMemory projectId
  noteVersionsUnlocked projectId [(rel, version)]
  let recorded := now.1.recordReceivedWith rel version size crc publisher nowMs force
  if recorded.1 = true then
    saveManifest recorded.2
    poke fun books : Books => { books with manifest := some recorded.2 }
  return recorded.1

end Operations

/-! ### What the books say -/

section Record

variable {projectId : String} {books : Books}

/-- The manifest in memory, or the one that would be loaded. -/
def Books.manifestNow (projectId : String) (books : Books) : Except IoError ProjectManifest :=
  match books.manifest with
  | some manifest => .ok manifest
  | none => readManifest projectId books

/-- The marks in memory, or those that would be loaded. -/
def Books.versionsNow (projectId : String) (books : Books) : Except IoError VersionState :=
  match books.versionState with
  | some state => .ok state
  | none => readVersionState projectId books

/-- What memory and the files say, whether or not a file has been loaded yet. -/
structure Record where
  manifest : Except IoError ProjectManifest
  versions : Except IoError VersionState
  manifestFile : Option (Parsed ProjectManifest)
  stateFile : Option (Parsed VersionState)

def Books.record (projectId : String) (books : Books) : Record :=
  ⟨books.manifestNow projectId, books.versionsNow projectId, books.manifestFile, books.stateFile⟩

/-- The books with both files in memory. -/
def Books.loaded (books : Books) (manifest : ProjectManifest) (state : VersionState) : Books :=
  { books with manifest := some manifest, versionState := some state }

/-- Neither what is said nor whether the project is open has changed. -/
def Books.Same (projectId : String) (books after : Books) : Prop :=
  after.record projectId = books.record projectId ∧ after.root = books.root

theorem Books.Same.refl (books : Books) : books.Same projectId books := ⟨rfl, rfl⟩

theorem Books.Same.trans {middle after : Books} (first : books.Same projectId middle)
    (second : middle.Same projectId after) : books.Same projectId after :=
  ⟨second.1.trans first.1, second.2.trans first.2⟩

theorem Books.Same.symm {after : Books} (same : books.Same projectId after) :
    after.Same projectId books := ⟨same.1.symm, same.2.symm⟩

theorem Books.Same.manifestNow {after : Books} (same : books.Same projectId after) :
    after.manifestNow projectId = books.manifestNow projectId :=
  congrArg Record.manifest same.1

theorem Books.Same.versionsNow {after : Books} (same : books.Same projectId after) :
    after.versionsNow projectId = books.versionsNow projectId :=
  congrArg Record.versions same.1

variable {root : List String} {state : VersionState} {version : UInt64}
  (versions : List (String × UInt64)) (publisher : String) (nowMs : UInt64)

theorem passes_projectRoot (opened : books.root = some root) :
    Passes (projectRoot projectId) books root books := by
  refine passes_peek.bind ?_
  rw [opened]
  exact passes_pure

theorem passes_loadManifestUnlocked {manifest : ProjectManifest}
    (opened : books.root = some root) (found : readManifest projectId books = .ok manifest) :
    Passes (loadManifestUnlocked projectId) books () { books with manifest := some manifest } := by
  refine (passes_projectRoot opened).bind ?_
  have effective : (readManifest projectId books).map (·, books) = .ok (manifest, books) := by
    rw [found]
    rfl
  exact (passes_step effective).bind passes_poke

theorem passes_loadVersionStateUnlocked
    (opened : books.root = some root) (found : readVersionState projectId books = .ok state) :
    Passes (loadVersionStateUnlocked projectId) books ()
      { books with versionState := some state } := by
  refine (passes_projectRoot opened).bind ?_
  have effective : (readVersionState projectId books).map (·, books) = .ok (state, books) := by
    rw [found]
    rfl
  exact (passes_step effective).bind passes_poke

theorem passes_ensureLoaded {manifest : ProjectManifest} (opened : books.root = some root)
    (manifestNow : books.manifestNow projectId = .ok manifest)
    (versionsNow : books.versionsNow projectId = .ok state) :
    Passes (ensureLoaded projectId) books () (books.loaded manifest state) := by
  obtain ⟨place, memory, versions, manifestFile, stateFile⟩ := books
  cases opened
  have second : Passes (do
      if (← peek fun books : Books => books.versionState.isSome) = false then
        loadVersionStateUnlocked projectId : Keeper Unit)
      ⟨some root, some manifest, versions, manifestFile, stateFile⟩ ()
      ⟨some root, some manifest, some state, manifestFile, stateFile⟩ := by
    cases versions with
    | none => exact passes_peek.bind (passes_loadVersionStateUnlocked rfl versionsNow)
    | some present =>
      cases versionsNow
      exact passes_peek.bind passes_pure
  cases memory with
  | none => exact passes_peek.bind ((passes_loadManifestUnlocked rfl manifestNow).bind second)
  | some held =>
    cases manifestNow
    exact passes_peek.bind second

/-! ### Issuing a version -/

/-- The file has the content of its entry, which stays as it is. -/
structure Books.SettledAt (projectId : String) (books : Books) (rel : String) (size : UInt64)
    (crc : UInt32) (version : UInt64) : Prop where
  opened : books.root.isSome = true
  versions : ∃ state, books.versionsNow projectId = .ok state
  entry : ∃ manifest entry, books.manifestNow projectId = .ok manifest ∧
    manifest.get rel = some entry ∧ entry.describes size crc ∧ entry.version = version

/-- A new version would be issued for the content, from this manifest and these marks. -/
structure Books.Issues (projectId : String) (books : Books) (rel : String) (size : UInt64)
    (crc : UInt32) (manifest : ProjectManifest) (state : VersionState) : Prop where
  opened : books.root.isSome = true
  manifestNow : books.manifestNow projectId = .ok manifest
  versionsNow : books.versionsNow projectId = .ok state
  changed : ¬ manifest.Settled rel size crc
  valid : isValidKey (rel, nextVersion (manifest.get rel) (state.highest rel)) = true

/-- The marks after a version was noted. -/
def VersionState.raised (state : VersionState) (rel : String) (version : UInt64) : VersionState :=
  { state with versions := state.versions.insert rel version }

/-- The books after the mark and the manifest were saved. -/
def Books.issued (books : Books) (manifest : ProjectManifest) (state : VersionState) : Books :=
  { books with
    manifest := some manifest
    versionState := some state
    manifestFile := some (.holds manifest)
    stateFile := some (.holds state) }

variable {rel : String} {size : UInt64} {crc : UInt32}

theorem Books.Same.issues {after : Books} (same : books.Same projectId after)
    {manifest : ProjectManifest} :
    after.Issues projectId rel size crc manifest state ↔
      books.Issues projectId rel size crc manifest state := by
  have moved {books after : Books} (same : books.Same projectId after)
      (issues : books.Issues projectId rel size crc manifest state) :
      after.Issues projectId rel size crc manifest state :=
    ⟨same.2 ▸ issues.opened, same.manifestNow.trans issues.manifestNow,
      same.versionsNow.trans issues.versionsNow, issues.changed, issues.valid⟩
  exact ⟨moved same.symm, moved same⟩

theorem Books.Issues.higher {manifest : ProjectManifest}
    (issues : books.Issues projectId rel size crc manifest state) :
    ¬ nextVersion (manifest.get rel) (state.highest rel) ≤ state.highest rel :=
  UInt64.not_le.mpr (floor_lt_nextVersion (isValidKey_version issues.valid))

/-- The entry of a file. -/
def Books.entryOf (projectId : String) (books : Books) (rel : String) : Option ManifestEntry :=
  match books.manifestNow projectId with
  | .ok manifest => manifest.get rel
  | .error _ => none

/-- The highest version seen of a file. -/
def Books.mark (projectId : String) (books : Books) (rel : String) : UInt64 :=
  match books.versionsNow projectId with
  | .ok state => state.highest rel
  | .error _ => 0

/-- The entry that publishing a content leaves: the one there is, or one with a new version. -/
def Books.publishedEntry (projectId : String) (books : Books) (rel : String) (size : UInt64)
    (crc : UInt32) (publisher : String) (nowMs : UInt64) : ManifestEntry :=
  let issued : ManifestEntry :=
    ⟨nextVersion (books.entryOf projectId rel) (books.mark projectId rel), size, crc, nowMs,
      publisher⟩
  match books.entryOf projectId rel with
  | none => issued
  | some entry => if entry.describes size crc then entry else issued

theorem passes_note_raised (opened : books.root = some root)
    (memory : books.versionState = some state)
    (valid : isValidKey (rel, version) = true) (higher : ¬ version ≤ state.highest rel) :
    Passes (noteVersionsUnlocked projectId [(rel, version)]) books ()
      { books with
        versionState := some (state.raised rel version)
        stateFile := some (.holds (state.raised rel version)) } := by
  refine (passes_projectRoot opened).bind (passes_peek.bind ?_)
  rw [memory]
  exact (passes_settle (VersionState.noteAll_raised valid higher)).bind
    ((passes_step rfl).bind passes_poke)

theorem passes_note_kept (opened : books.root = some root)
    (memory : books.versionState = some state)
    (valid : isValidKey (rel, version) = true) (known : version ≤ state.highest rel) :
    Passes (noteVersionsUnlocked projectId [(rel, version)]) books () books := by
  refine (passes_projectRoot opened).bind (passes_peek.bind ?_)
  rw [memory]
  exact (passes_settle (VersionState.noteAll_kept valid known)).bind passes_pure

theorem note_refused
    (opened : books.root = some root) (memory : books.versionState = some state)
    (invalid : isValidKey (rel, version) = false) :
    noteVersionsUnlocked projectId [(rel, version)] books [] =
      (.failed ⟨.invalidInput, "invalid path or version for version state"⟩, books, []) := by
  refine ((passes_projectRoot opened).yields.bind_eq _).trans
    ((passes_peek.yields.bind_eq _).trans ?_)
  rw [memory]
  dsimp only
  rw [VersionState.noteAll_refused invalid]
  rfl

/-- A version that may not be noted is not issued. -/
theorem settleBump_refused
    (opened : books.root = some root) (memory : books.versionState = some state)
    (invalid : isValidKey (rel, version) = false) (snapshot : ProjectManifest) :
    settleBump projectId rel (.bumped version, snapshot) books [] =
      (.failed ⟨.invalidInput, "invalid path or version for version state"⟩, books, []) :=
  bind_failed (bind_failed (note_refused opened memory invalid) _) _

theorem passes_settleBump
    (opened : books.root = some root) (memory : books.versionState = some state)
    (valid : isValidKey (rel, version) = true) (higher : ¬ version ≤ state.highest rel)
    (snapshot : ProjectManifest) :
    Passes (settleBump projectId rel (.bumped version, snapshot)) books (.bumped version)
      (books.issued snapshot (state.raised rel version)) := by
  have committed : Passes (commitBump projectId rel version snapshot) books ()
      (books.issued snapshot (state.raised rel version)) :=
    (passes_note_raised opened memory valid higher).bind ((passes_step rfl).bind passes_poke)
  exact committed.bind passes_pure

end Record

end Synergos.Manifest
