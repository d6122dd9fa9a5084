import Mathlib.Data.List.AList
import Synergos.Runs
import Synergos.SafePath

/-!
# The list of open projects and the life of the daemon

The project manager keeps the open projects in memory and writes the whole list
to one file after every open, close and settings update. At a start the daemon
reads the list and opens each project again; a graceful shutdown closes all.

Each of these writes what is in memory at that time. A shutdown therefore
empties the list, a start shrinks it to what it has opened so far, and opening
again takes the name from the list and everything else from the defaults.

A save takes its snapshot and writes it later: in between other calls may run
and the process may die, which leaves the old file or a torn one. What opening a
project finds on disk (its canonical root, its manifest and its version state, or
an error) is given by the caller. Invitations and connected peers are left out.
-/

namespace Synergos.OpenProjects

open Runs List

abbrev ProjectId := String

/-- The components of a path. -/
abbrev PathBuf := List String

/-! ## Projects and their settings -/

inductive SyncMode where
  | full
  | manual
  | selective (patterns : List String)
  deriving DecidableEq

def SyncMode.asStr : SyncMode → String
  | .full => "full"
  | .manual => "manual"
  | .selective _ => "selective"

/-- Unknown names stand for full synchronisation. -/
def SyncMode.parse (text : String) : SyncMode :=
  if text = "manual" then .manual
  else if text = "selective" then .selective []
  else .full

structure ProjectSettings where
  displayName : String
  description : String
  syncMode : SyncMode
  maxPeers : UInt16
  deriving DecidableEq

/-- The settings of a project that has just been opened. -/
def ProjectSettings.initial (displayName : String) : ProjectSettings :=
  ⟨displayName, "", .full, 0⟩

structure ProjectSettingsPatch where
  displayName : Option String
  description : Option String
  syncMode : Option String
  maxPeers : Option UInt16

def ProjectSettingsPatch.applyTo (patch : ProjectSettingsPatch) (settings : ProjectSettings) :
    ProjectSettings where
  displayName := patch.displayName.getD settings.displayName
  description := patch.description.getD settings.description
  syncMode := (patch.syncMode.map SyncMode.parse).getD settings.syncMode
  maxPeers := patch.maxPeers.getD settings.maxPeers

structure ManagedProject where
  projectId : ProjectId
  rootPath : PathBuf
  settings : ProjectSettings
  createdAt : UInt64
  deriving DecidableEq

structure PersistedProject where
  projectId : ProjectId
  rootPath : PathBuf
  displayName : String
  description : String
  syncMode : String
  maxPeers : UInt16
  createdAt : UInt64
  deriving DecidableEq

def ManagedProject.persisted (project : ManagedProject) : PersistedProject where
  projectId := project.projectId
  rootPath := project.rootPath
  displayName := project.settings.displayName
  description := project.settings.description
  syncMode := project.settings.syncMode.asStr
  maxPeers := project.settings.maxPeers
  createdAt := project.createdAt

inductive ProjectError where
  | notFound (text : String)
  | alreadyExists (text : String)
  | invalidRoot (text : String)
  | manifest (text : String)
  | invalidProjectId
  deriving DecidableEq

/-! ## The manager -/

/-- The open projects; the order of the entries stands for the order in which
the hash map lists them. -/
abbrev Projects := AList fun _ : ProjectId => ManagedProject

def validProjectId (projectId : ProjectId) : Bool :=
  projectId ≠ "" ∧ projectId.utf8ByteSize ≤ 256 ∧
    projectId.toList.any SafePath.isControl = false ∧
    '/' ∉ projectId.toList ∧ '\\' ∉ projectId.toList

/-- Open a project. Its directory has been prepared: the canonical root, or why
there is none. -/
def openProject (projects : Projects) (projectId : ProjectId) (displayName : Option String)
    (prepared : Except ProjectError PathBuf) (now : UInt64) :
    Except ProjectError Unit × Projects :=
  if validProjectId projectId = false then (.error .invalidProjectId, projects)
  else if projectId ∈ projects then (.error (.alreadyExists projectId), projects)
  else match prepared with
    | .error error => (.error error, projects)
    | .ok rootPath => (.ok (), projects.insert projectId
        ⟨projectId, rootPath, .initial (displayName.getD projectId), now⟩)

def closeProject (projects : Projects) (projectId : ProjectId) :
    Except ProjectError Unit × Projects :=
  if projectId ∈ projects then (.ok (), projects.erase projectId)
  else (.error (.notFound projectId), projects)

def updateProject (projects : Projects) (projectId : ProjectId) (patch : ProjectSettingsPatch) :
    Except ProjectError Unit × Projects :=
  match projects.lookup projectId with
  | none => (.error (.notFound projectId), projects)
  | some project => (.ok (), projects.insert projectId
      { project with settings := patch.applyTo project.settings })

/-- What a save writes. -/
def snapshot (projects : Projects) : List PersistedProject :=
  projects.entries.map fun item => item.2.persisted

/-- The state file. A torn one cannot be read. -/
inductive StateFile where
  | absent
  | torn
  | holds (projects : List PersistedProject)
  deriving DecidableEq

/-- The projects that the daemon sees in the file at a start. -/
def StateFile.listed : StateFile → List PersistedProject
  | .holds projects => projects
  | _ => []

/-! ## The daemon -/

inductive Phase where
  | down
  /-- The listed projects are being opened again; some are still to come. -/
  | booting (loaded remaining : List PersistedProject)
  | up

structure World where
  file : StateFile
  phase : Phase
  projects : Projects
  /-- Snapshots that have been taken and not yet written. -/
  pending : List (List PersistedProject)
  /-- The projects the user has opened and not closed, as they should be listed. -/
  expected : ProjectId → Option PersistedProject

inductive Action where
  | openProject (projectId : ProjectId) (displayName : Option String)
      (prepared : Except ProjectError PathBuf) (now : UInt64)
  | closeProject (projectId : ProjectId)
  | updateProject (projectId : ProjectId) (patch : ProjectSettingsPatch)
  /-- A snapshot reaches the file. -/
  | write (saved : List PersistedProject)
  | shutdown
  /-- The process dies, perhaps in the middle of a write. -/
  | crash (tearing : Bool)
  | boot
  /-- The next listed project is opened again. -/
  | reopen (prepared : Except ProjectError PathBuf) (now : UInt64)
  /-- All listed projects have been tried. -/
  | ready

def enabled (world : World) : Action → Prop
  | .openProject _ _ _ _ => world.phase = .up
  | .closeProject _ => world.phase = .up
  | .updateProject _ _ => world.phase = .up
  | .write saved => saved ∈ world.pending
  | .shutdown => world.phase = .up
  | .crash tearing => world.phase ≠ .down ∧ (tearing = true → world.pending ≠ [])
  | .boot => world.phase = .down
  | .reopen _ _ =>
      ∃ loaded next rest, world.phase = .booting loaded (next :: rest) ∧ world.pending = []
  | .ready => ∃ loaded, world.phase = .booting loaded [] ∧ world.pending = []

/-- A call that succeeded has changed the projects and is about to save them. -/
def World.saving (world : World) (projects : Projects) : World :=
  { world with projects, pending := world.pending ++ [snapshot projects] }

/-- The outcome of a call: a failed one changes nothing. -/
def World.resume (world : World) (answer : Except ProjectError Unit × Projects) : World :=
  match answer with
  | (.error _, _) => world
  | (.ok (), projects) => world.saving projects

/-- What the user expects of a project after a call. -/
def World.expect (world : World) (projectId : ProjectId) (listed : Option PersistedProject) :
    World :=
  { world with expected := Function.update world.expected projectId listed }

/-- A call of the user. -/
def World.settle (world : World) (projectId : ProjectId)
    (answer : Except ProjectError Unit × Projects) : World :=
  match answer with
  | (.error _, _) => world
  | (.ok (), projects) => (world.resume answer).expect projectId
      ((projects.lookup projectId).map ManagedProject.persisted)

def apply (world : World) : Action → World
  | .openProject projectId displayName prepared now =>
      world.settle projectId (openProject world.projects projectId displayName prepared now)
  | .closeProject projectId => world.settle projectId (closeProject world.projects projectId)
  | .updateProject projectId patch =>
      world.settle projectId (updateProject world.projects projectId patch)
  | .write saved =>
      { world with file := .holds saved, pending := world.pending.erase saved }
  | .shutdown =>
      -- Every project is closed in turn; the last close writes the empty list.
      { world with
        file := if world.projects.entries.isEmpty then world.file else .holds []
        phase := .down, projects := ∅, pending := [] }
  | .crash tearing =>
      { world with
        file := if tearing then .torn else world.file
        phase := .down, projects := ∅, pending := [] }
  | .boot => { world with phase := .booting world.file.listed world.file.listed }
  | .reopen prepared now =>
      match world.phase with
      | .booting loaded (next :: rest) =>
          ({ world with phase := .booting loaded rest }).resume
            (openProject world.projects next.projectId (some next.displayName) prepared now)
      | _ => world
  | .ready => { world with phase := .up }

def system : System World Action := ⟨enabled, apply⟩

/-- Before the first start. -/
def World.initial : World := ⟨.absent, .down, ∅, [], fun _ => none⟩

/-- Everything the user has open is in a list. -/
def World.Lists (world : World) (listed : List PersistedProject) : Prop :=
  ∀ projectId project, world.expected projectId = some project → project ∈ listed

/-- Once the daemon is up and no save is under way, the file lists every open
project as the user left it. -/
def World.Survives (world : World) : Prop :=
  world.phase = .up → world.pending = [] → world.Lists world.file.listed

/-! ## What is asked of a run -/

/-- Opening the listed project again gives the same entry. -/
def Reproduced (project : PersistedProject) (prepared : Except ProjectError PathBuf)
    (now : UInt64) : Prop :=
  prepared.toOption = some project.rootPath ∧ now = project.createdAt ∧
    project.description = "" ∧ project.syncMode = "full" ∧ project.maxPeers = 0

/-- Calls do not overlap with a save and find every listed project open; nothing
is open at a shutdown; the process does not die during a save or after a start
has opened some of the projects; and a start either opens every listed project
again as it was, or none. -/
def Steady (world : World) : Action → Prop
  | .openProject _ _ _ _ | .closeProject _ | .updateProject _ _ =>
      world.pending = [] ∧ ∀ listed ∈ world.file.listed, listed.projectId ∈ world.projects
  | .shutdown => world.pending = [] ∧ world.projects = ∅
  | .crash _ => world.pending = [] ∧
      ∀ loaded remaining, world.phase = .booting loaded remaining → world.projects = ∅
  | .reopen prepared now => ∀ loaded next rest, world.phase = .booting loaded (next :: rest) →
      match (openProject world.projects next.projectId (some next.displayName) prepared now).1 with
      | .error _ => world.projects = ∅
      | .ok () => Reproduced next prepared now ∧
          ∀ listed ∈ loaded, listed ∈ next :: rest ∨ listed.projectId ∈ world.projects
  | _ => True

/-! ## Snapshots -/

variable {projects : Projects} {world : World} {loaded rest : List PersistedProject}
  {projectId : ProjectId} {next : PersistedProject} {prepared : Except ProjectError PathBuf}
  {now : UInt64}

theorem mem_snapshot {listed : PersistedProject} :
    listed ∈ snapshot projects ↔
      ∃ projectId project, projects.lookup projectId = some project ∧
        project.persisted = listed := by
  rw [snapshot, mem_map]
  constructor
  · rintro ⟨⟨projectId, project⟩, member, same⟩
    exact ⟨projectId, project, AList.mem_lookup_iff.mpr member, same⟩
  · rintro ⟨projectId, project, found, same⟩
    exact ⟨⟨projectId, project⟩, AList.mem_lookup_iff.mp found, same⟩

theorem lookup_of_mem (present : projectId ∈ projects) :
    ∃ project, projects.lookup projectId = some project :=
  Option.isSome_iff_exists.mp (AList.lookup_isSome.mpr present)

/-! ## The calls -/

/-- What a successful call may do: entries of other projects stay, and the entry
of its own project carries its name. -/
structure Touches (projectId : ProjectId) (before after : Projects) : Prop where
  others : ∀ other, other ≠ projectId → after.lookup other = before.lookup other
  named : ∀ project, after.lookup projectId = some project → project.projectId = projectId

theorem touches_insert (projects : Projects) (project : ManagedProject) :
    Touches project.projectId projects (projects.insert project.projectId project) where
  others other different := AList.lookup_insert_ne different
  named found lookup := by
    rw [AList.lookup_insert] at lookup
    cases lookup
    rfl

theorem Touches.mem_iff {before after : Projects} (touches : Touches projectId before after)
    {other : ProjectId} (different : other ≠ projectId) : other ∈ after ↔ other ∈ before := by
  rw [← AList.lookup_isSome, touches.others other different, AList.lookup_isSome]

theorem touches_openProject {after : Projects} {displayName : Option String}
    (opened : openProject projects projectId displayName prepared now = (.ok (), after)) :
    Touches projectId projects after := by
  unfold openProject at opened
  split at opened
  · cases opened
  split at opened
  · cases opened
  split at opened
  · cases opened
  · obtain ⟨-, rfl⟩ := Prod.mk.inj opened
    exact touches_insert projects ⟨projectId, _, _, _⟩

theorem touches_closeProject {after : Projects}
    (closed : closeProject projects projectId = (.ok (), after)) :
    Touches projectId projects after := by
  unfold closeProject at closed
  split at closed
  · obtain ⟨-, rfl⟩ := Prod.mk.inj closed
    refine ⟨fun other different => AList.lookup_erase_ne different, fun project found => ?_⟩
    simp [AList.lookup_erase] at found
  · cases closed

theorem touches_updateProject {after : Projects} {patch : ProjectSettingsPatch}
    (keyed : ∀ project, projects.lookup projectId = some project → project.projectId = projectId)
    (updated : updateProject projects projectId patch = (.ok (), after)) :
    Touches projectId projects after := by
  unfold updateProject at updated
  split at updated
  · cases updated
  · rename_i project found
    obtain ⟨-, rfl⟩ := Prod.mk.inj updated
    have same := keyed project found
    have touched := touches_insert projects
      { project with settings := patch.applyTo project.settings }
    dsimp only at touched
    rw [same] at touched
    simpa only [same] using touched

/-- Opening a listed project again gives its entry back. -/
theorem openProject_reproduced {after : Projects} {project : PersistedProject}
    (opened : openProject projects project.projectId (some project.displayName) prepared now =
      (.ok (), after)) (same : Reproduced project prepared now) :
    ∃ entry, after.lookup project.projectId = some entry ∧ entry.persisted = project := by
  obtain ⟨root, time, description, mode, peers⟩ := same
  unfold openProject at opened
  split at opened
  · cases opened
  split at opened
  · cases opened
  split at opened
  · cases opened
  · rename_i rootPath
    obtain ⟨-, rfl⟩ := Prod.mk.inj opened
    refine ⟨_, AList.lookup_insert projects, ?_⟩
    have rootSame : rootPath = project.rootPath := by simpa [Except.toOption] using root
    cases project
    simp only at rootSame time description mode peers
    subst rootSame time description mode peers
    rfl

/-! ## The invariant -/

/-- The list is exactly what the user has open. -/
def World.Exact (world : World) (listed : List PersistedProject) : Prop :=
  ∀ project, project ∈ listed ↔ world.expected project.projectId = some project

/-- Where the list is kept in each phase: in the file, in a save that is under
way, or, during a start, in what was loaded. A start that has opened something
has the rest before it, and its own saves write what it has opened so far. -/
def World.Kept (world : World) : Phase → Prop
  | .down => world.pending = [] ∧ world.projects = ∅ ∧ world.Exact world.file.listed
  | .up => (world.pending = [] ∧ world.Exact world.file.listed) ∨
      ∃ saved, world.pending = [saved] ∧ world.Exact saved
  | .booting loaded remaining => world.Exact loaded ∧ remaining ⊆ loaded ∧
      ((world.pending = [] ∧ world.projects = ∅ ∧ world.file.listed = loaded) ∨
        (world.projects ≠ ∅ ∧
          (∀ listed ∈ loaded, listed ∈ remaining ∨ listed.projectId ∈ world.projects) ∧
          ((world.pending = [] ∧ world.file.listed = snapshot world.projects) ∨
            world.pending = [snapshot world.projects])))

/-- What is open is what is expected of it. -/
structure InStep (world : World) : Prop where
  named : ∀ projectId project, world.expected projectId = some project →
    project.projectId = projectId
  held : ∀ projectId project, world.projects.lookup projectId = some project →
    world.expected projectId = some project.persisted

structure Sound (world : World) : Prop extends InStep world where
  kept : world.Kept world.phase

theorem Sound.kept_in (sound : Sound world) {phase : Phase} (now : world.phase = phase) :
    world.Kept phase :=
  now ▸ sound.kept

theorem InStep.keyed (sound : InStep world) {project : ManagedProject}
    (found : world.projects.lookup projectId = some project) :
    project.projectId = projectId :=
  sound.named projectId project.persisted (sound.held projectId project found)

/-- If all that is expected is open, a snapshot lists exactly that. -/
theorem InStep.exact_snapshot (sound : InStep world)
    (allOpen : ∀ project, world.expected project.projectId = some project →
      project.projectId ∈ world.projects) : world.Exact (snapshot world.projects) := by
  intro listed
  rw [mem_snapshot]
  constructor
  · rintro ⟨projectId, project, found, rfl⟩
    have here := sound.held projectId project found
    have name : project.persisted.projectId = projectId := sound.keyed found
    rw [name]
    exact here
  · intro wanted
    obtain ⟨project, found⟩ := lookup_of_mem (allOpen listed wanted)
    have same := (sound.held _ project found).symm.trans wanted
    exact ⟨_, project, found, Option.some.inj same⟩

theorem sound_initial : Sound World.initial where
  named _ _ wanted := by cases wanted
  held projectId project found := by
    simp [show World.initial.projects = ∅ from rfl] at found
  kept := ⟨rfl, rfl, fun project => by simp [World.initial, StateFile.listed]⟩

/-- With no save under way the file lists exactly what is expected. -/
theorem Sound.exact_of_idle (sound : Sound world) (up : world.phase = .up)
    (idle : world.pending = []) : world.Exact world.file.listed := by
  rcases sound.kept_in up with ⟨-, here⟩ | ⟨saved, waiting, -⟩
  · exact here
  · simp [idle] at waiting

/-! ## Steps -/

/-- A successful call of the user keeps names and entries in step. -/
theorem inStep_settle (sound : InStep world) {after : Projects}
    (touches : Touches projectId world.projects after) :
    InStep (world.settle projectId (.ok (), after)) := by
  constructor
  · intro other project wanted
    obtain rfl | same := eq_or_ne other projectId
    · have mapped : (after.lookup other).map ManagedProject.persisted = some project := by
        simpa [World.settle, World.expect] using wanted
      obtain ⟨entry, found, rfl⟩ := Option.map_eq_some_iff.mp mapped
      exact touches.named entry found
    · exact sound.named other project
        (by simpa [World.settle, World.expect, World.resume, World.saving, same] using wanted)
  · intro other project found
    have there : after.lookup other = some project := found
    obtain rfl | same := eq_or_ne other projectId
    · simp [World.settle, World.expect, there]
    · have before := sound.held other project (by rw [← touches.others other same]; exact there)
      simpa [World.settle, World.expect, World.resume, World.saving, same] using before

theorem sound_settle (world : World) (sound : Sound world) (projectId : ProjectId)
    (answer : Except ProjectError Unit × Projects) (up : world.phase = .up)
    (touches : ∀ after, answer = (.ok (), after) → Touches projectId world.projects after)
    (idle : world.pending = [])
    (listedOpen : ∀ listed ∈ world.file.listed, listed.projectId ∈ world.projects) :
    Sound (world.settle projectId answer) := by
  obtain ⟨result, after⟩ := answer
  cases result with
  | error error => exact sound
  | ok _ =>
    have touched := touches after rfl
    have inStep := inStep_settle sound.toInStep touched
    have exactFile := sound.exact_of_idle up idle
    have allOpen : ∀ project,
        (world.settle projectId (.ok (), after)).expected project.projectId = some project →
          project.projectId ∈ after := by
      intro project wanted
      by_cases same : project.projectId = projectId
      · have mapped : (after.lookup projectId).map ManagedProject.persisted = some project := by
          simpa [World.settle, World.expect, same] using wanted
        obtain ⟨entry, found, -⟩ := Option.map_eq_some_iff.mp mapped
        rw [same]
        exact AList.lookup_isSome.mp (Option.isSome_of_eq_some found)
      · have before : world.expected project.projectId = some project := by
          simpa [World.settle, World.expect, World.resume, World.saving, same] using wanted
        exact (touched.mem_iff same).mpr (listedOpen project ((exactFile project).mpr before))
    refine ⟨inStep, ?_⟩
    show World.Kept _ world.phase
    rw [up]
    refine .inr ⟨snapshot after, ?_, inStep.exact_snapshot allOpen⟩
    simp [World.settle, World.expect, World.resume, World.saving, idle]

/-- The process ends with everything written. -/
theorem sound_stop (sound : Sound world) {file : StateFile}
    (same : file.listed = world.file.listed) (exactFile : world.Exact world.file.listed) :
    Sound { world with file, phase := .down, projects := ∅, pending := [] } where
  named := sound.named
  held projectId project found := by
    simp at found
  kept := ⟨rfl, rfl, by rw [same]; exact exactFile⟩

theorem sound_write (world : World) (sound : Sound world) (saved : List PersistedProject)
    (waiting : saved ∈ world.pending) : Sound (apply world (.write saved)) := by
  refine ⟨⟨sound.named, sound.held⟩, ?_⟩
  show World.Kept _ world.phase
  cases phase : world.phase with
  | down => simp [(sound.kept_in phase).1] at waiting
  | up =>
    rcases sound.kept_in phase with ⟨idle, -⟩ | ⟨only, here, exactSaved⟩
    · simp [idle] at waiting
    · rw [here, mem_singleton] at waiting
      subst waiting
      exact .inl ⟨by simp [apply, here], exactSaved⟩
  | booting loaded remaining =>
    obtain ⟨exactLoaded, among, ⟨idle, -, -⟩ | ⟨some_, rest, ⟨idle, -⟩ | here⟩⟩ :=
      sound.kept_in phase
    · simp [idle] at waiting
    · simp [idle] at waiting
    · rw [here, mem_singleton] at waiting
      subst waiting
      exact ⟨exactLoaded, among, .inr ⟨some_, rest, .inl ⟨by simp [apply, here], rfl⟩⟩⟩

theorem sound_shutdown (sound : Sound world) (up : world.phase = .up)
    (idle : world.pending = []) (nothing : world.projects = ∅) :
    Sound (apply world .shutdown) := by
  refine sound_stop sound ?_ (sound.exact_of_idle up idle)
  rw [nothing]
  rfl

theorem sound_crash (sound : Sound world) (tearing : Bool)
    (possible : enabled world (.crash tearing)) (idle : world.pending = [])
    (early : ∀ loaded remaining, world.phase = .booting loaded remaining → world.projects = ∅) :
    Sound (apply world (.crash tearing)) := by
  have whole : tearing = false := by
    cases tearing with
    | false => rfl
    | true => exact absurd idle (possible.2 rfl)
  subst whole
  have exactFile : world.Exact world.file.listed := by
    cases phase : world.phase with
    | down => exact absurd phase possible.1
    | up => exact sound.exact_of_idle phase idle
    | booting loaded remaining =>
      obtain ⟨exactLoaded, -, ⟨-, -, same⟩ | ⟨opened, -⟩⟩ := sound.kept_in phase
      · rw [same]
        exact exactLoaded
      · exact absurd (early loaded remaining phase) opened
  exact sound_stop sound rfl exactFile

theorem sound_boot (sound : Sound world) (down : world.phase = .down) :
    Sound (apply world .boot) := by
  obtain ⟨idle, empty, exactFile⟩ := sound.kept_in down
  exact ⟨⟨sound.named, sound.held⟩, exactFile, List.Subset.refl _, .inl ⟨idle, empty, rfl⟩⟩

theorem reopen_eq (phase : world.phase = .booting loaded (next :: rest))
    (prepared : Except ProjectError PathBuf) (now : UInt64) :
    apply world (.reopen prepared now) = ({ world with phase := .booting loaded rest }).resume
      (openProject world.projects next.projectId (some next.displayName) prepared now) := by
  simp [apply, phase]

/-- A listed project is open again as it was. -/
theorem sound_reopened (sound : Sound world) (phase : world.phase = .booting loaded (next :: rest))
    (idle : world.pending = []) {after : Projects}
    (opened : openProject world.projects next.projectId (some next.displayName) prepared now =
      (.ok (), after)) (same : Reproduced next prepared now)
    (waiting : ∀ listed ∈ loaded, listed ∈ next :: rest ∨ listed.projectId ∈ world.projects) :
    Sound (({ world with phase := .booting loaded rest }).saving after) := by
  obtain ⟨exactLoaded, among, -⟩ := sound.kept_in phase
  obtain ⟨entry, found, reproduced⟩ := openProject_reproduced opened same
  have touched := touches_openProject opened
  have wanted : world.expected next.projectId = some next :=
    (exactLoaded next).mp (among mem_cons_self)
  have present : next.projectId ∈ after := AList.lookup_isSome.mp (Option.isSome_of_eq_some found)
  refine ⟨⟨sound.named, fun projectId project lookup => ?_⟩, exactLoaded,
    subset_of_cons_subset among, .inr ⟨?_, fun listed member => ?_, .inr ?_⟩⟩
  · have there : after.lookup projectId = some project := lookup
    obtain rfl | here := eq_or_ne projectId next.projectId
    · obtain rfl : entry = project := Option.some.inj (found.symm.trans there)
      show world.expected next.projectId = some entry.persisted
      rw [reproduced]
      exact wanted
    · exact sound.held projectId project (by rw [← touched.others projectId here]; exact there)
  · intro empty
    have gone : after = ∅ := empty
    rw [gone] at present
    exact absurd present (AList.notMem_empty _)
  · rcases waiting listed member with later | before
    · rcases mem_cons.mp later with rfl | later
      · exact .inr present
      · exact .inl later
    · right
      by_cases here : listed.projectId = next.projectId
      · rw [here]
        exact present
      · exact (touched.mem_iff here).mpr before
  · simp [World.saving, idle]

theorem sound_reopen (sound : Sound world)
    (possible : enabled world (.reopen prepared now))
    (steady : Steady world (.reopen prepared now)) :
    Sound (apply world (.reopen prepared now)) := by
  obtain ⟨loaded, next, rest, phase, idle⟩ := possible
  have met := steady loaded next rest phase
  rw [reopen_eq phase]
  cases answer : openProject world.projects next.projectId (some next.displayName) prepared now with
  | mk result after =>
    rw [answer] at met
    cases result with
    | ok _ => exact sound_reopened sound phase idle answer met.1 met.2
    | error error =>
      obtain ⟨exactLoaded, among, ⟨-, empty, file⟩ | ⟨opened, -⟩⟩ := sound.kept_in phase
      · exact ⟨⟨sound.named, sound.held⟩, exactLoaded, subset_of_cons_subset among,
          .inl ⟨idle, empty, file⟩⟩
      · exact absurd met opened

theorem sound_ready (world : World) (sound : Sound world) (possible : enabled world .ready) :
    Sound (apply world .ready) := by
  obtain ⟨loaded, phase, idle⟩ := possible
  refine ⟨⟨sound.named, sound.held⟩, .inl ⟨idle, ?_⟩⟩
  obtain ⟨exactLoaded, -, ⟨-, -, file⟩ | ⟨-, allOpen, ⟨-, file⟩ | waiting⟩⟩ := sound.kept_in phase
  · show world.Exact world.file.listed
    rw [file]
    exact exactLoaded
  · show world.Exact world.file.listed
    rw [file]
    refine sound.toInStep.exact_snapshot fun project wanted => ?_
    rcases allOpen project ((exactLoaded project).mpr wanted) with later | here
    · cases later
    · exact here
  · simp [idle] at waiting

theorem sound_step (world : World) (action : Action) (possible : enabled world action)
    (steady : Steady world action) (sound : Sound world) : Sound (apply world action) := by
  cases action with
  | openProject projectId displayName prepared now =>
    exact sound_settle world sound projectId _ possible
      (fun after opened => touches_openProject opened) steady.1 steady.2
  | closeProject projectId =>
    exact sound_settle world sound projectId _ possible
      (fun after closed => touches_closeProject closed) steady.1 steady.2
  | updateProject projectId patch =>
    exact sound_settle world sound projectId _ possible
      (fun after updated => touches_updateProject
        (fun project found => sound.toInStep.keyed found) updated) steady.1 steady.2
  | write saved => exact sound_write world sound saved possible
  | shutdown => exact sound_shutdown sound possible steady.1 steady.2
  | crash tearing => exact sound_crash sound tearing possible steady.1 steady.2
  | boot => exact sound_boot sound possible
  | reopen prepared now => exact sound_reopen sound possible steady
  | ready => exact sound_ready world sound possible

/-! ## Projects survive -/

/-- In every run whose steps are all steady the file lists, whenever the daemon
is up and no save is under way, every project that the user has open, with all
that is recorded of it. -/
theorem open_projects_survive (world : World)
    (run : Run system Steady World.initial world) : world.Survives := by
  have sound : Sound world := run.invariant Sound sound_initial
    fun state action possible met sound => sound_step state action possible met sound
  intro up idle projectId project wanted
  have name := sound.named projectId project wanted
  subst name
  exact (sound.exact_of_idle up idle project).mpr wanted

section Samples

/-- A project is opened at time seven and its save finishes. -/
def opening : List Action :=
  [.boot, .ready, .openProject "p" (some "Plans") (.ok ["home", "p"]) 7,
    .write [⟨"p", ["home", "p"], "Plans", "", "full", 0, 7⟩]]

/-- A start that finds the project and opens it again in the same second. -/
def restarting : List Action :=
  [.boot, .reopen (.ok ["home", "p"]) 7,
    .write [⟨"p", ["home", "p"], "Plans", "", "full", 0, 7⟩], .ready]

/-- What is asked of the steps of the opening. -/
theorem opening_admitted (rest : List Action)
    (after : Admitted system Steady (opening.foldl apply World.initial) rest) :
    Admitted system Steady World.initial (opening ++ rest) := by
  refine ⟨rfl, trivial, ⟨[], rfl, rfl⟩, trivial, rfl, ⟨rfl, ?_⟩, ?_, trivial, after⟩
  · intro listed member
    cases member
  · exact mem_singleton_self _

/-- A project that has its initial settings survives a crash and a start in the
second it was opened in. -/
theorem crash_survived : ∃ world, Run system Steady World.initial world ∧ world.phase = .up ∧
    world.pending = [] ∧ (world.expected "p").isSome = true ∧ world.Lists world.file.listed := by
  have run : Run system Steady World.initial
      ((opening ++ .crash false :: restarting).foldl apply World.initial) := by
    refine Run.follow _ .start (opening_admitted _ ?_)
    refine ⟨⟨nofun, nofun⟩, ⟨rfl, nofun⟩, rfl, trivial, ⟨_, _, _, rfl, rfl⟩, ?_,
      mem_singleton_self _, trivial, ⟨_, rfl, rfl⟩, trivial, trivial⟩
    intro loaded next rest phase
    cases phase
    exact ⟨⟨rfl, rfl, rfl, rfl, rfl⟩, fun listed member => .inl member⟩
  have survives := open_projects_survive _ run
  exact ⟨_, run, rfl, rfl, rfl, survives rfl rfl⟩

/-- After a graceful shutdown and a start nothing is listed. -/
theorem shutdown_forgets : ∃ world, Reaches system World.initial world ∧ ¬ world.Survives := by
  have opened : Run system (fun _ _ => True) World.initial (opening.foldl apply World.initial) :=
    (Run.follow opening .start (append_nil opening ▸ opening_admitted [] trivial)).reaches
  have run : Reaches system World.initial
      ([Action.shutdown, .boot, .ready].foldl apply (opening.foldl apply World.initial)) :=
    Run.follow _ opened ⟨rfl, trivial, rfl, trivial, ⟨_, rfl, rfl⟩, trivial, trivial⟩
  refine ⟨_, run, fun survives => ?_⟩
  cases survives rfl rfl "p" _ rfl

end Samples

end Synergos.OpenProjects
