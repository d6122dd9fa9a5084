import Synergos.Manifest

/-!
# The versions of the native core

The native core keeps the manifest and the highest versions of a project in two
maps and issues versions on its own. It is to give what the node gives: the same
outcome, the same entry and the same mark, also where no version is left.

The native calls change their maps in memory and throw before they change
anything. The node saves the mark and the manifest; here it runs without faults.
Characters stand for the bytes that the native check of a path looks at: all
that it tells apart are single bytes.
-/

namespace Synergos.NativeVersions

open Faults FaultRuns HistoryFiles Manifest SafePath
open HistoryRetention (saturatingAdd)

inductive Exception where
  | invalidArgument (message : String)
  | overflowError (message : String)
  deriving DecidableEq, Repr

/-! ### Paths -/

def partsAreSafe (first : Bool) : List (List Char) → Bool
  | [] => true
  | part :: rest =>
    if part = [] ∨ part = ".".toList ∨ part = "..".toList ∨
        (first = true ∧ part = ".synergos".toList) then false
    else partsAreSafe false rest

def isSafeRelativePath (path : String) : Bool :=
  if path.toList = [] ∨ path.toList.head? = some '/' then false
  else if path.toList.any fun char =>
      char.toNat < 32 || char.toNat = 127 || char = '\\' || char = ':' then false
  else partsAreSafe true (path.toList.splitOn '/')

/-! ### The two maps -/

abbrev ManifestVersions := AList fun _ : String => ManifestEntry

structure NativeOutcome where
  version : UInt64
  changed : Bool
  deriving DecidableEq, Repr

namespace ManifestVersions

def bump (files : ManifestVersions) (path : String) (size : UInt64) (crc : UInt32)
    (publisher : String) (nowMs floor : UInt64) :
    Except Exception (NativeOutcome × ManifestVersions) :=
  if isSafeRelativePath path = false then
    .error (.invalidArgument "Invalid relative asset path")
  else
    let found := files.lookup path
    let previous := (found.map ManifestEntry.version).getD 0
    let highest := max previous floor
    let issue :=
      if 0xfffffffffffffffe ≤ highest then .error (.overflowError "Asset version exhausted")
      else .ok (⟨highest + 1, true⟩,
        files.insert path ⟨highest + 1, size, crc, nowMs, publisher⟩)
    match found with
    | some entry => if entry.describes size crc then .ok (⟨entry.version, false⟩, files) else issue
    | none => issue

def receive (files : ManifestVersions) (path : String) (entry : ManifestEntry) (force : Bool) :
    Except Exception (Bool × ManifestVersions) :=
  if isSafeRelativePath path = false ∨ entry.version = 0 ∨
      entry.version = 0xffffffffffffffff then
    .error (.invalidArgument "Invalid received asset path or version")
  else if force = false ∧ (files.lookup path).any (fun found => entry.version ≤ found.version) then
    .ok (false, files)
  else .ok (true, files.insert path entry)

end ManifestVersions

abbrev NativeState := AList fun _ : String => UInt64

namespace NativeState

def highest (versions : NativeState) (path : String) : UInt64 := (versions.lookup path).getD 0

def note (versions : NativeState) (path : String) (version : UInt64) :
    Except Exception (Bool × NativeState) :=
  if isSafeRelativePath path = false then
    .error (.invalidArgument "Invalid relative asset path")
  else if version = 0 ∨ version = 0xffffffffffffffff then
    .error (.invalidArgument "Invalid asset version")
  else if version ≤ highest versions path then .ok (false, versions)
  else .ok (true, versions.insert path version)

end NativeState

/-! ### Both together -/

structure NativeCore where
  files : ManifestVersions
  versions : NativeState

/-- A version is issued above the mark, and a new one is noted. -/
def bumpAndNote (core : NativeCore) (path : String) (size : UInt64) (crc : UInt32)
    (publisher : String) (nowMs : UInt64) : Except Exception NativeOutcome × NativeCore :=
  match core.files.bump path size crc publisher nowMs (NativeState.highest core.versions path) with
  | .error exception => (.error exception, core)
  | .ok (outcome, files) =>
    if outcome.changed = false then (.ok outcome, { core with files })
    else
      match NativeState.note core.versions path outcome.version with
      | .error exception => (.error exception, { core with files })
      | .ok (_, versions) => (.ok outcome, ⟨files, versions⟩)

/-- A received version is noted and recorded. -/
def noteAndReceive (core : NativeCore) (path : String) (entry : ManifestEntry) (force : Bool) :
    Except Exception Bool × NativeCore :=
  match NativeState.note core.versions path entry.version with
  | .error exception => (.error exception, core)
  | .ok (_, versions) =>
    match core.files.receive path entry force with
    | .error exception => (.error exception, { core with versions })
    | .ok (changed, files) => (.ok changed, ⟨files, versions⟩)

/-! ### Agreement -/

/-- The node and the native core both answer, alike, or both refuse. -/
def SameOutcome {α β : Type} (alike : α → β → Prop) :
    Outcome IoError α → Except Exception β → Prop
  | .done answer, .ok native => alike answer native
  | .failed _, .error _ => True
  | _, _ => False

/-- The two outcomes of an issued version. -/
def alikeBump : BumpOutcome → NativeOutcome → Prop
  | .bumped version, native => native = ⟨version, true⟩
  | .unchanged version, native => native = ⟨version, false⟩

/-- The books say what the two maps say. -/
structure Shows (projectId : String) (manifest : ProjectManifest) (state : VersionState)
    (core : NativeCore) (books : Books) : Prop where
  files : books.manifestNow projectId = .ok { manifest with files := core.files }
  versions : books.versionsNow projectId = .ok { state with versions := core.versions }

/-! ### The checks of a path -/

theorem partsAreSafe_of_checkSegments {first : Bool} {segments : List (List Char)}
    (passed : (checkSegments first segments).isSome = true) :
    partsAreSafe first segments = true := by
  induction segments generalizing first with
  | nil => rfl
  | cons part rest ih =>
    unfold checkSegments at passed
    split_ifs at passed with dots colon
    · cases passed
    · cases passed
    · push Not at dots colon
      rw [Option.isSome_map] at passed
      rw [partsAreSafe, if_neg]
      · exact ih passed
      · push Not
        exact ⟨dots.1, dots.2.1, dots.2.2, colon.2⟩

/-- The native core accepts every path that the node accepts. -/
theorem isSafeRelativePath_of_safe {rel : String} (safe : (safeRelToLocal rel).isSome = true) :
    isSafeRelativePath rel = true := by
  unfold safeRelToLocal at safe
  split_ifs at safe with excluded
  · cases safe
  · push Not at excluded
    obtain ⟨nonempty, relative, noBackslash, noControl⟩ := excluded
    have noColon : ':' ∉ rel.toList := by
      rw [← pathText_splitOn rel.toList]
      exact not_mem_pathText (by decide) fun segment present =>
        (checkSegments_names safe segment present).2.2.2
    rw [isSafeRelativePath, if_neg, if_neg]
    · exact partsAreSafe_of_checkSegments safe
    · rw [List.any_eq_true]
      rintro ⟨char, present, refused⟩
      simp only [Bool.or_eq_true, decide_eq_true_eq] at refused
      have quiet : isControl char = false := by
        by_contra control
        exact noControl (List.any_eq_true.mpr ⟨char, present, by simpa using control⟩)
      unfold isControl at quiet
      rcases refused with ((low | delete) | rfl) | rfl
      · simp at quiet
        omega
      · simp at quiet
        omega
      · exact noBackslash present
      · exact noColon present
    · push Not
      exact ⟨nonempty, relative⟩

/-! ### The next version -/

/-- The version on which the next one is counted. -/
def counted (current : Option ManifestEntry) (floor : UInt64) : UInt64 :=
  max ((current.map ManifestEntry.version).getD 0) floor

theorem toNat_max (left right : UInt64) : (max left right).toNat = max left.toNat right.toNat := by
  simp only [Max.max, UInt64.le_iff_toNat_le]
  split_ifs <;> simp_all

theorem toNat_nextVersion (current : Option ManifestEntry) (floor : UInt64) :
    (nextVersion current floor).toNat =
      min ((counted current floor).toNat + 1) 0xffffffffffffffff := by
  unfold nextVersion counted
  cases current with
  | none | some entry =>
    simp [toNat_max, saturatingAdd]
    omega

/-- A version is left unless the last one has been reached. -/
theorem isValidKey_nextVersion {rel : String} (safe : (safeRelToLocal rel).isSome = true)
    (current : Option ManifestEntry) (floor : UInt64) :
    isValidKey (rel, nextVersion current floor) = true ↔
      ¬ 0xfffffffffffffffe ≤ counted current floor := by
  have next := toNat_nextVersion current floor
  simp only [isValidKey, safe, Bool.true_and, Bool.and_eq_true, decide_eq_true_eq,
    UInt64.lt_iff_toNat_lt, UInt64.le_iff_toNat_le, UInt64.reduceToNat]
  omega

/-- Neither zero nor the largest number is a version. -/
theorem isValidKey_iff {rel : String} (safe : (safeRelToLocal rel).isSome = true)
    (version : UInt64) :
    isValidKey (rel, version) = true ↔ ¬ (version = 0 ∨ version = 0xffffffffffffffff) := by
  simp only [isValidKey, safe, Bool.true_and, Bool.and_eq_true, decide_eq_true_eq,
    UInt64.lt_iff_toNat_lt, ← UInt64.toNat_inj, UInt64.reduceToNat]
  have bound := version.toNat_lt
  omega

theorem nextVersion_eq {current : Option ManifestEntry} {floor : UInt64}
    (left : ¬ 0xfffffffffffffffe ≤ counted current floor) :
    nextVersion current floor = counted current floor + 1 := by
  apply UInt64.toNat_inj.mp
  simp only [UInt64.le_iff_toNat_le, UInt64.reduceToNat] at left
  simp only [toNat_nextVersion, UInt64.toNat_add, UInt64.reduceToNat]
  omega

/-! ### Issuing a version -/

section Bump

variable {projectId : String} {books : Books} {root : List String}
variable {manifest : ProjectManifest} {state : VersionState}
variable {rel : String} {size : UInt64} {crc : UInt32} {publisher : String} {nowMs : UInt64}

/-- The call of the node, once the books are in memory. -/
theorem bumpFileVersion_eq (opened : books.root = some root)
    (manifestNow : books.manifestNow projectId = .ok manifest)
    (versionsNow : books.versionsNow projectId = .ok state) :
    bumpFileVersion projectId rel size crc publisher nowMs books [] =
      settleBump projectId rel
        (manifest.bumpAtLeast rel size crc publisher nowMs (state.highest rel))
        (books.loaded manifest state) [] :=
  ((passes_ensureLoaded opened manifestNow versionsNow).yields.bind_eq _).trans
    (((@passes_projectRoot projectId (books.loaded manifest state) root opened).yields.bind_eq
      _).trans (passes_peek.yields.bind_eq _))

section

variable (safe : (safeRelToLocal rel).isSome = true)

include safe

/-- The native call for content that is not the one of the entry. -/
theorem bump_changed (changed : ¬ manifest.Settled rel size crc) (publisher : String)
    (nowMs floor : UInt64) :
    ManifestVersions.bump manifest.files rel size crc publisher nowMs floor =
      if 0xfffffffffffffffe ≤ counted (manifest.get rel) floor then
        .error (.overflowError "Asset version exhausted")
      else .ok (⟨counted (manifest.get rel) floor + 1, true⟩, manifest.files.insert rel
        ⟨counted (manifest.get rel) floor + 1, size, crc, nowMs, publisher⟩) := by
  have accepted : ¬ isSafeRelativePath rel = false := by simp [isSafeRelativePath_of_safe safe]
  have looked : manifest.files.lookup rel = manifest.get rel := rfl
  rw [ManifestVersions.bump, counted, if_neg accepted, looked]
  cases found : manifest.get rel with
  | none => rfl
  | some entry =>
    have differs : ¬ entry.describes size crc := fun same => changed ⟨entry, found, same⟩
    simp [if_neg differs]

omit safe in
theorem highest_eq (state : VersionState) (rel : String) :
    NativeState.highest state.versions rel = state.highest rel := rfl

/-- Both core and node keep the entry that has the content. -/
theorem bumpAndNote_settled {entry : ManifestEntry}
    (found : manifest.get rel = some entry) (same : entry.describes size crc) :
    bumpAndNote ⟨manifest.files, state.versions⟩ rel size crc publisher nowMs =
      (.ok ⟨entry.version, false⟩, ⟨manifest.files, state.versions⟩) := by
  have accepted : ¬ isSafeRelativePath rel = false := by simp [isSafeRelativePath_of_safe safe]
  have looked : manifest.files.lookup rel = some entry := found
  simp [bumpAndNote, ManifestVersions.bump, if_neg accepted, looked, if_pos same]

theorem bumpAndNote_exhausted (changed : ¬ manifest.Settled rel size crc)
    (exhausted : 0xfffffffffffffffe ≤ counted (manifest.get rel) (state.highest rel)) :
    bumpAndNote ⟨manifest.files, state.versions⟩ rel size crc publisher nowMs =
      (.error (.overflowError "Asset version exhausted"), ⟨manifest.files, state.versions⟩) := by
  have native := bump_changed safe changed publisher nowMs (state.highest rel)
  rw [if_pos exhausted] at native
  simp [bumpAndNote, highest_eq, native]

theorem note_raised {version : UInt64}
    (valid : isValidKey (rel, version) = true) (higher : ¬ version ≤ state.highest rel) :
    NativeState.note state.versions rel version =
      .ok (true, state.versions.insert rel version) := by
  have accepted : ¬ isSafeRelativePath rel = false := by simp [isSafeRelativePath_of_safe safe]
  rw [NativeState.note, if_neg accepted, if_neg ((isValidKey_iff safe version).mp valid),
    highest_eq, if_neg higher]

/-- The version that both issue, and what they then hold. -/
theorem bumpAndNote_issued (issues : books.Issues projectId rel size crc manifest state) :
    bumpAndNote ⟨manifest.files, state.versions⟩ rel size crc publisher nowMs =
      (.ok ⟨nextVersion (manifest.get rel) (state.highest rel), true⟩,
        ⟨manifest.files.insert rel
            ⟨nextVersion (manifest.get rel) (state.highest rel), size, crc, nowMs, publisher⟩,
          state.versions.insert rel (nextVersion (manifest.get rel) (state.highest rel))⟩) := by
  have left := (isValidKey_nextVersion safe _ _).mp issues.valid
  have native := bump_changed safe issues.changed publisher nowMs (state.highest rel)
  rw [if_neg left, ← nextVersion_eq left] at native
  simp [bumpAndNote, highest_eq, native, note_raised safe issues.valid issues.higher]

end

theorem bump_agrees (opened : books.root = some root)
    (manifestNow : books.manifestNow projectId = .ok manifest)
    (versionsNow : books.versionsNow projectId = .ok state)
    (safe : (safeRelToLocal rel).isSome = true) :
    SameOutcome alikeBump
        (bumpFileVersion projectId rel size crc publisher nowMs books []).1
        (bumpAndNote ⟨manifest.files, state.versions⟩ rel size crc publisher nowMs).1 ∧
      Shows projectId manifest state
        (bumpAndNote ⟨manifest.files, state.versions⟩ rel size crc publisher nowMs).2
        (bumpFileVersion projectId rel size crc publisher nowMs books []).2.1 := by
  rw [bumpFileVersion_eq opened manifestNow versionsNow]
  by_cases settled : manifest.Settled rel size crc
  · obtain ⟨entry, found, same⟩ := settled
    rw [ProjectManifest.bumpAtLeast_settled found same, bumpAndNote_settled safe found same]
    exact ⟨rfl, rfl, rfl⟩
  · rw [ProjectManifest.bumpAtLeast_changed settled]
    by_cases exhausted : 0xfffffffffffffffe ≤ counted (manifest.get rel) (state.highest rel)
    · have invalid : isValidKey (rel, nextVersion (manifest.get rel) (state.highest rel)) =
          false := by
        rw [Bool.eq_false_iff, ne_eq, isValidKey_nextVersion safe, not_not]
        exact exhausted
      rw [bumpAndNote_exhausted safe settled exhausted]
      have refused := @settleBump_refused projectId (books.loaded manifest state) root state _ rel
        opened rfl invalid
      rw [refused]
      exact ⟨trivial, rfl, rfl⟩
    · have valid := (isValidKey_nextVersion safe _ _).mpr exhausted
      have issues : books.Issues projectId rel size crc manifest state :=
        ⟨Option.isSome_iff_exists.mpr ⟨root, opened⟩, manifestNow, versionsNow, settled, valid⟩
      rw [bumpAndNote_issued safe issues]
      have issued := @passes_settleBump projectId (books.loaded manifest state) root state _ rel
        opened rfl valid issues.higher
      rw [show settleBump projectId rel _ _ [] = _ from (issued _).yields]
      exact ⟨rfl, rfl, rfl⟩

end Bump

/-! ### Recording a received version -/

section Receive

variable {projectId : String} {books : Books} {root : List String}
variable {manifest : ProjectManifest} {state : VersionState}
variable {rel : String} {version size : UInt64} {crc : UInt32} {publisher : String}
variable {nowMs : UInt64} {force : Bool}

/-- The call of the node after the mark, with the manifest that is in memory. -/
def recordAfter (manifest : ProjectManifest) (rel : String) (version size : UInt64) (crc : UInt32)
    (publisher : String) (nowMs : UInt64) (force : Bool) : Keeper Bool := do
  let recorded := manifest.recordReceivedWith rel version size crc publisher nowMs force
  if recorded.1 = true then
    saveManifest recorded.2
    poke fun books : Books => { books with manifest := some recorded.2 }
  return recorded.1

theorem recordReceivedFile_eq (opened : books.root = some root)
    (manifestNow : books.manifestNow projectId = .ok manifest)
    (versionsNow : books.versionsNow projectId = .ok state) :
    recordReceivedFile projectId rel version size crc publisher nowMs force books [] =
      (noteVersionsUnlocked projectId [(rel, version)] >>= fun _ =>
        recordAfter manifest rel version size crc publisher nowMs force)
        (books.loaded manifest state) [] :=
  ((passes_ensureLoaded opened manifestNow versionsNow).yields.bind_eq _).trans
    (((@passes_projectRoot projectId (books.loaded manifest state) root opened).yields.bind_eq
      _).trans (passes_peek.yields.bind_eq _))

/-- The marks once a version has been noted. -/
def noted (state : VersionState) (rel : String) (version : UInt64) : VersionState :=
  if version ≤ state.highest rel then state else state.raised rel version

theorem note_valid (safe : (safeRelToLocal rel).isSome = true)
    (valid : isValidKey (rel, version) = true) :
    ∃ raised, NativeState.note state.versions rel version =
      .ok (raised, (noted state rel version).versions) := by
  unfold noted
  by_cases known : version ≤ state.highest rel
  · have accepted : ¬ isSafeRelativePath rel = false := by simp [isSafeRelativePath_of_safe safe]
    refine ⟨false, ?_⟩
    rw [NativeState.note, if_neg accepted, if_neg ((isValidKey_iff safe version).mp valid), highest_eq,
      if_pos known, if_pos known]
  · refine ⟨true, ?_⟩
    rw [note_raised safe valid known, if_neg known]
    rfl

theorem note_invalid (safe : (safeRelToLocal rel).isSome = true)
    (invalid : isValidKey (rel, version) = false) :
    NativeState.note state.versions rel version =
      .error (.invalidArgument "Invalid asset version") := by
  have accepted : ¬ isSafeRelativePath rel = false := by simp [isSafeRelativePath_of_safe safe]
  have impossible : version = 0 ∨ version = 0xffffffffffffffff := by
    by_contra possible
    simp [(isValidKey_iff safe version).mpr possible] at invalid
  rw [NativeState.note, if_neg accepted, if_pos impossible]

/-- The books after a version has been noted. -/
theorem passes_noted (opened : books.root = some root) (memory : books.versionState = some state)
    (valid : isValidKey (rel, version) = true) :
    ∃ after, Passes (noteVersionsUnlocked projectId [(rel, version)]) books () after ∧
      after.manifest = books.manifest ∧
      after.versionState = some (noted state rel version) := by
  unfold noted
  by_cases known : version ≤ state.highest rel
  · rw [if_pos known]
    exact ⟨books, passes_note_kept opened memory valid known, rfl, memory⟩
  · rw [if_neg known]
    exact ⟨_, passes_note_raised opened memory valid known, rfl, rfl⟩

theorem receive_valid (safe : (safeRelToLocal rel).isSome = true)
    (valid : isValidKey (rel, version) = true) :
    ManifestVersions.receive manifest.files rel ⟨version, size, crc, nowMs, publisher⟩ force =
      .ok ((manifest.recordReceivedWith rel version size crc publisher nowMs force).1,
        (manifest.recordReceivedWith rel version size crc publisher nowMs force).2.files) := by
  have accepted : ¬ (isSafeRelativePath rel = false ∨ version = 0 ∨
      version = 0xffffffffffffffff) := by
    rintro (unsafePath | impossible)
    · simp [isSafeRelativePath_of_safe safe] at unsafePath
    · exact (isValidKey_iff safe version).mp valid impossible
  have looked : manifest.files.lookup rel = manifest.get rel := rfl
  rw [ManifestVersions.receive, ProjectManifest.recordReceivedWith, if_neg accepted, looked]
  by_cases stale : (manifest.get rel).any (fun entry => version ≤ entry.version) = true ∧
      force = false
  · rw [if_pos stale, if_pos stale.symm]
  · rw [if_neg stale, if_neg (fun both => stale both.symm)]
    rfl

/-- The manifest in memory is the one that was recorded. -/
theorem recordAfter_eq (memory : books.manifest = some manifest) :
    ∃ after, recordAfter manifest rel version size crc publisher nowMs force books [] =
        (.done (manifest.recordReceivedWith rel version size crc publisher nowMs force).1, after,
          []) ∧
      after.manifest =
        some (manifest.recordReceivedWith rel version size crc publisher nowMs force).2 ∧
      after.versionState = books.versionState := by
  unfold recordAfter
  by_cases stale : (manifest.get rel).any (fun entry => version ≤ entry.version) = true ∧
      force = false
  · rw [show manifest.recordReceivedWith rel version size crc publisher nowMs force = _ from
      if_pos stale]
    exact ⟨books, rfl, memory, rfl⟩
  · rw [show manifest.recordReceivedWith rel version size crc publisher nowMs force = _ from
      if_neg stale]
    exact ⟨_, rfl, rfl, rfl⟩

/-- Only the entries change. -/
theorem recordReceivedWith_files : { manifest with
      files := (manifest.recordReceivedWith rel version size crc publisher nowMs force).2.files } =
      (manifest.recordReceivedWith rel version size crc publisher nowMs force).2 := by
  unfold ProjectManifest.recordReceivedWith
  split_ifs <;> rfl

theorem noted_versions :
    { state with versions := (noted state rel version).versions } = noted state rel version := by
  unfold noted
  split_ifs <;> rfl

theorem receive_agrees (opened : books.root = some root)
    (manifestNow : books.manifestNow projectId = .ok manifest)
    (versionsNow : books.versionsNow projectId = .ok state)
    (safe : (safeRelToLocal rel).isSome = true) :
    SameOutcome (· = ·)
        (recordReceivedFile projectId rel version size crc publisher nowMs force books []).1
        (noteAndReceive ⟨manifest.files, state.versions⟩ rel
          ⟨version, size, crc, nowMs, publisher⟩ force).1 ∧
      Shows projectId manifest state
        (noteAndReceive ⟨manifest.files, state.versions⟩ rel
          ⟨version, size, crc, nowMs, publisher⟩ force).2
        (recordReceivedFile projectId rel version size crc publisher nowMs force books []).2.1 := by
  rw [recordReceivedFile_eq opened manifestNow versionsNow]
  cases valid : isValidKey (rel, version) with
  | false =>
    have refused := bind_failed (@note_refused projectId (books.loaded manifest state) root state
      _ rel opened rfl valid)
      fun _ => recordAfter manifest rel version size crc publisher nowMs force
    rw [refused]
    simp only [noteAndReceive, note_invalid safe valid]
    exact ⟨trivial, rfl, rfl⟩
  | true =>
    obtain ⟨raised, native⟩ := @note_valid state rel version safe valid
    obtain ⟨middle, marked, sameManifest, marks⟩ :=
      @passes_noted projectId (books.loaded manifest state) root state rel version opened rfl valid
    obtain ⟨after, recorded, newManifest, sameMarks⟩ :=
      @recordAfter_eq middle manifest rel version size crc publisher nowMs force sameManifest
    rw [marked.yields.bind_eq, recorded]
    simp only [noteAndReceive, native, receive_valid safe valid]
    refine ⟨rfl, ?_, ?_⟩
    · rw [Books.manifestNow, newManifest, recordReceivedWith_files]
    · rw [Books.versionsNow, sameMarks, marks, noted_versions]

end Receive

/-- On every path that the node accepts, the native core issues and records versions as the
node does: the outcomes agree, and so do the manifest and the marks. -/
theorem native_core_agrees (projectId : String) (books : Books) (root : List String)
    (manifest : ProjectManifest) (state : VersionState) (opened : books.root = some root)
    (manifestNow : books.manifestNow projectId = .ok manifest)
    (versionsNow : books.versionsNow projectId = .ok state) (rel : String)
    (safe : (safeRelToLocal rel).isSome = true) (version size : UInt64) (crc : UInt32)
    (publisher : String) (nowMs : UInt64) (force : Bool) :
    (SameOutcome alikeBump
        (bumpFileVersion projectId rel size crc publisher nowMs books []).1
        (bumpAndNote ⟨manifest.files, state.versions⟩ rel size crc publisher nowMs).1 ∧
      Shows projectId manifest state
        (bumpAndNote ⟨manifest.files, state.versions⟩ rel size crc publisher nowMs).2
        (bumpFileVersion projectId rel size crc publisher nowMs books []).2.1) ∧
    SameOutcome (· = ·)
        (recordReceivedFile projectId rel version size crc publisher nowMs force books []).1
        (noteAndReceive ⟨manifest.files, state.versions⟩ rel
          ⟨version, size, crc, nowMs, publisher⟩ force).1 ∧
      Shows projectId manifest state
        (noteAndReceive ⟨manifest.files, state.versions⟩ rel
          ⟨version, size, crc, nowMs, publisher⟩ force).2
        (recordReceivedFile projectId rel version size crc publisher nowMs force books []).2.1 :=
  ⟨bump_agrees opened manifestNow versionsNow safe,
    receive_agrees opened manifestNow versionsNow safe⟩

/-! ### A project whose versions are used up -/

def sampleManifest : ProjectManifest :=
  ⟨1, "p", AList.singleton "a.bin" ⟨0xfffffffffffffffe, 3, 7, 0, "studio"⟩⟩

def sampleBooks : Books where
  root := some ["srv", "p"]
  manifest := some sampleManifest
  versionState := some (.new "p")
  manifestFile := some (.holds sampleManifest)
  stateFile := none

/-- Both refuse another version. -/
theorem exhausted_cores_agree :
    (bumpFileVersion "p" "a.bin" 4 8 "studio" 9 sampleBooks []).1 =
        .failed ⟨.invalidInput, "invalid path or version for version state"⟩ ∧
      SameOutcome alikeBump (bumpFileVersion "p" "a.bin" 4 8 "studio" 9 sampleBooks []).1
        (bumpAndNote ⟨sampleManifest.files, ∅⟩ "a.bin" 4 8 "studio" 9).1 := by
  have safe : (safeRelToLocal "a.bin").isSome = true := by decide +kernel
  refine ⟨by decide +kernel, ?_⟩
  exact (native_core_agrees "p" sampleBooks ["srv", "p"] sampleManifest (.new "p") rfl rfl rfl
    "a.bin" safe 5 4 8 "studio" 9 false).1.1

end Synergos.NativeVersions
