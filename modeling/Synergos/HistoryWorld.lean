import Synergos.HistorySteps

/-!
# Runs of a history store

Calls on the store of one project follow one another: each holds the project's lock
from beginning to end. A call brings its configuration, the time, the order in which
directories are listed and the faults it meets, so a daemon that is restarted with
other settings is part of a run. The directory of the tags may also be changed from
outside between calls.

An entry under a path or a version that the loader does not accept makes the next
call rebuild the index from the sidecars; archiving does not refuse it. The results
about runs ask that no such version is archived.
-/

namespace Synergos.HistoryWorld

open Faults Faults.Program HistoryFiles HistoryTags HistoryRetention HistoryStore HistorySteps
open Runs HistoryIndex
open Relation (ReflTransGen)

variable {Content : Type}

/-- What a call meets. -/
structure Call where
  config : HistoryConfig
  listing : Listing
  nowMs : UInt64
  faults : List Fault

inductive Action (Content : Type) where
  | archive (call : Call) (file : Submission Content)
  | lookup (call : Call) (key : Key)
  | fetchOffloaded (call : Call) (key : Key)
  | rotate (call : Call) (keep : List Key) (dryRun : Bool)
  | gc (call : Call) (keep : List Key) (purging : Bool)
  | tagAdd (call : Call) (name : String) (pins : AList fun _ : String => UInt64)
  | tagRemove (call : Call) (name : String)
  /-- The directory of the tags is changed from outside. -/
  | disturbTags (tags : TagsDir)

section Worlds

variable (digests : Digests Content) (projectId : String)

def apply (disk : Disk Content) : Action Content → Disk Content
  | .archive call file =>
    (archive digests call.listing call.config projectId file call.nowMs).after disk call.faults
  | .lookup call key =>
    (lookup digests call.listing call.config projectId key).after disk call.faults
  | .fetchOffloaded call key =>
    (fetchOffloaded digests call.listing call.config projectId key).after disk call.faults
  | .rotate call keep dryRun =>
    (rotate digests call.listing call.config projectId keep dryRun call.nowMs).after disk
      call.faults
  | .gc call keep purging =>
    (gc digests call.listing call.config projectId keep purging call.nowMs).after disk call.faults
  | .tagAdd call name pins =>
    (tagAdd call.config projectId name pins call.nowMs).after disk call.faults
  | .tagRemove call name => (tagRemove call.config projectId name).after disk call.faults
  | .disturbTags tags => { disk with tags := tags }

def system : System (Disk Content) (Action Content) where
  enabled := fun _ _ => True
  apply := apply digests projectId

/-- What an action can have done. -/
def Effect (disk : Disk Content) : Action Content → Disk Content → Prop
  | .archive _ file, after =>
    ReflTransGen (ArchiveStep digests projectId file.key (Overwritten digests disk file)) disk
      after
  | .lookup _ key, after | .fetchOffloaded _ key, after =>
    ReflTransGen (FetchStep digests projectId key) disk after
  | .rotate call keep _, after => after = disk ∨ RespectsTags projectId keep
      (RotateStep digests projectId call.config.rotation.backend) disk after
  | .gc _ keep false, after => after = disk ∨ RespectsTags projectId keep
      (SweepStep projectId) disk after
  | .gc _ _ true, after => ReflTransGen (SweepStep projectId []) disk after
  | .tagAdd _ _ _, after | .tagRemove _ _, after | .disturbTags _, after =>
    SameButTags disk after

variable {disk : Disk Content} {action : Action Content}

theorem apply_effect (loads : disk.Loads projectId) (action : Action Content) :
    Effect digests projectId disk action (apply digests projectId disk action) := by
  cases action with
  | archive call file =>
    exact (ensures_archive loads call.listing call.config file call.nowMs).after call.faults
  | lookup call key =>
    exact (ensures_lookup loads call.listing call.config key).after call.faults
  | fetchOffloaded call key =>
    exact (ensures_fetchOffloaded loads call.listing call.config key).after call.faults
  | rotate call keep dryRun =>
    exact ((ensures_rotate loads call.listing call.config keep dryRun call.nowMs).weaken
      (fun _ _ held => .inr held) fun _ => id).after call.faults
  | gc call keep purging =>
    cases purging with
    | false =>
      exact ((ensures_gc loads call.listing call.config keep call.nowMs).weaken
        (fun _ _ held => .inr held) fun _ => id).after call.faults
    | true =>
      exact (ensures_gc_purge loads call.listing call.config keep call.nowMs).after call.faults
  | tagAdd call name pins =>
    exact (ensures_tagAdd call.config projectId name pins call.nowMs).after call.faults
  | tagRemove call name =>
    exact (ensures_tagRemove call.config projectId name).after call.faults
  | disturbTags tags => exact ⟨tags, rfl⟩

/-- Only paths and versions that the loader accepts are archived. -/
def ValidArchive : Action Content → Prop
  | .archive _ file => isValidKey file.key = true
  | _ => True

/-- A property that every kind of step keeps is kept by every action. -/
theorem effect_keeps {after : Disk Content} (holds : Disk Content → Prop)
    (effect : Effect digests projectId disk action after)
    (archives : ∀ call file, action = .archive call file → ∀ before next,
      ArchiveStep digests projectId file.key (Overwritten digests disk file) before next →
      holds before → holds next)
    (fetches : ∀ key before next, FetchStep digests projectId key before next →
      holds before → holds next)
    (rotates : ∀ call keep dryRun, action = .rotate call keep dryRun → ∀ guarded before next,
      RotateStep digests projectId call.config.rotation.backend guarded before next →
      holds before → holds next)
    (sweeps : ∀ guarded before next, SweepStep projectId guarded before next →
      holds before → holds next)
    (retags : ∀ before tags, holds before → holds { before with tags := tags })
    (initial : holds disk) : holds after := by
  cases action with
  | archive call file => exact chain_keeps holds (archives call file rfl) effect initial
  | lookup call key | fetchOffloaded call key =>
    exact chain_keeps holds (fetches key) effect initial
  | rotate call keep dryRun =>
    rcases effect with rfl | ⟨_, guarded, _, steps⟩
    · exact initial
    · exact chain_keeps holds (rotates call keep dryRun rfl guarded) steps initial
  | gc call keep purging =>
    cases purging with
    | false =>
      rcases effect with rfl | ⟨_, guarded, _, steps⟩
      · exact initial
      · exact chain_keeps holds (sweeps guarded) steps initial
    | true => exact chain_keeps holds (sweeps []) effect initial
  | tagAdd call name pins | tagRemove call name | disturbTags tags =>
    obtain ⟨tags, rfl⟩ := effect
    exact retags disk tags initial

/-- An index that loads still loads after an action. -/
theorem loads_apply (valid : ValidArchive action)
    (loads : disk.Loads projectId) : (apply digests projectId disk action).Loads projectId := by
  refine effect_keeps digests projectId (Disk.Loads projectId)
    (apply_effect digests projectId loads action) ?_ ?_ ?_ ?_ ?_ loads
  · rintro call file rfl before next step
    exact step.loads valid
  · intro key before next step
    exact step.loads
  · intro call keep dryRun _ guarded before next step
    exact step.loads
  · intro guarded before next step
    exact step.loads
  · intro before tags held
    exact ⟨held.readable, held.sound⟩

end Worlds

/-! ### External objects stay named -/

/-- Some entry is recorded as offloaded to the external object. -/
def names (index : HistoryIndex) (object : Place × String) : Bool :=
  index.iterAll.any fun item => match item.2.offloaded with
    | none => false
    | some offloaded => offloaded.key == object.2 &&
        offloaded.config.map RotationBackendConfig.place == some object.1

/-- Every external object that rotation recorded and that was not deleted since is named
by an entry of the saved index. -/
def Named (projectId : String) (disk : Disk Content) : Prop :=
  ∀ object ∈ disk.recorded, names (disk.saved projectId) object = true

instance (projectId : String) (disk : Disk Content) : Decidable (Named projectId disk) :=
  inferInstanceAs (Decidable (∀ object ∈ disk.recorded, names (disk.saved projectId) object = true))

variable {index : HistoryIndex} {object : Place × String}

theorem names_iff :
    names index object = true ↔ ∃ key entry offloaded config, index.get key = some entry ∧
      entry.offloaded = some offloaded ∧ offloaded.config = some config ∧
      config.place = object.1 ∧ offloaded.key = object.2 := by
  rw [names, List.any_eq_true]
  constructor
  · rintro ⟨⟨key, entry⟩, listed, named⟩
    cases away : entry.offloaded with
    | none => simp [away] at named
    | some offloaded =>
      simp only [away, Bool.and_eq_true, beq_iff_eq, Option.map_eq_some_iff] at named
      obtain ⟨sameKey, config, recorded, samePlace⟩ := named
      exact ⟨key, entry, offloaded, config, mem_iterAll.mp listed, away, recorded,
        samePlace, sameKey⟩
  · rintro ⟨key, entry, offloaded, config, found, away, recorded, samePlace, sameKey⟩
    refine ⟨(key, entry), mem_iterAll.mpr found, ?_⟩
    simp [away, recorded, samePlace, sameKey]

/-- An entry that is replaced was not the one that named the object. -/
theorem names_insert {key : Key} {entry : IndexEntry} (named : names index object = true)
    (isLocal : ∀ old, index.get key = some old → old.offloaded = none) :
    names (index.insert key entry) object = true := by
  obtain ⟨other, old, offloaded, config, found, away, rest⟩ := names_iff.mp named
  have different : other ≠ key := by
    rintro rfl
    simp [isLocal old found] at away
  exact names_iff.mpr ⟨other, old, offloaded, config,
    (get_insert_ne index entry different).trans found, away, rest⟩

section Steps

variable {digests : Digests Content} {projectId : String} {disk after : Disk Content}

/-- No entry that archiving may overwrite is under the key. -/
def Unreplaced (projectId : String) (key : Key) (mayReplace : IndexEntry → Prop)
    (disk : Disk Content) : Prop :=
  ∀ old, (disk.saved projectId).get key = some old → old.offloaded ≠ none → ¬ mayReplace old

theorem named_archive {key : Key} {mayReplace : IndexEntry → Prop}
    (step : ArchiveStep digests projectId key mayReplace disk after)
    (named : Named projectId disk ∧ Unreplaced projectId key mayReplace disk) :
    Named projectId after ∧ Unreplaced projectId key mayReplace after := by
  obtain ⟨named, unreplaced⟩ := named
  cases step with
  | sidecars | object content => exact ⟨named, unreplaced⟩
  | enter entry here kept replaces =>
    constructor
    · intro object member
      refine names_insert (named object member) fun old found => ?_
      by_contra away
      exact unreplaced old found away ((replaces old found).2 away)
    · intro old found away
      have same : some entry = some old :=
        (get_insert_self _ key entry).symm.trans found
      cases same
      exact absurd here away

theorem named_fetch {key : Key} (step : FetchStep digests projectId key disk after)
    (named : Named projectId disk) : Named projectId after := by
  cases step with
  | sidecars | object content => exact named
  | delete entry offloaded place away kept alone =>
    intro object member
    exact named object (List.mem_of_mem_filter member)
  | restore entry offloaded place away kept freed =>
    intro object member
    obtain ⟨other, old, itsRef, config, found, itsAway, recorded, samePlace, sameKey⟩ :=
      names_iff.mp (named object member)
    by_cases same : other = key
    · -- The entry itself named the object: another one does as well, or it is deleted.
      subst same
      rw [away.found] at found
      cases found
      rw [away.away] at itsAway
      cases itsAway
      rcases freed with shared | free
      · unfold hasOtherReference at shared
        obtain ⟨⟨third, thirdEntry⟩, listed, both⟩ := List.any_eq_true.mp shared
        obtain ⟨different, matching⟩ := Bool.and_eq_true_iff.mp both
        have different : third ≠ other := by simpa using different
        cases thirdAway : thirdEntry.offloaded with
        | none => simp [thirdAway] at matching
        | some third_ =>
          simp only [thirdAway, Bool.and_eq_true, beq_iff_eq] at matching
          obtain ⟨⟨thirdKey, thirdConfig⟩, _⟩ := matching
          refine names_iff.mpr ⟨third, thirdEntry, third_, config,
            (get_insert_ne _ _ different).trans (mem_iterAll.mp listed),
            thirdAway, thirdConfig.trans recorded, samePlace, thirdKey.trans sameKey⟩
      · refine absurd member ?_
        have itself : (place, offloaded.key) = object := by
          rw [← away.placed config recorded, samePlace, sameKey]
        rw [← itself]
        exact free
    · exact names_iff.mpr ⟨other, old, itsRef, config,
        (get_insert_ne _ _ same).trans found, itsAway, recorded, samePlace, sameKey⟩

theorem named_rotate {config : RotationBackendConfig} {guarded : List Key}
    (step : RotateStep digests projectId config guarded disk after)
    (named : Named projectId disk) : Named projectId after := by
  cases step with
  | sidecars | upload hash content object | drop hash content unused held right => exact named
  | record key entry content free found here held right =>
    intro object member
    rcases List.mem_cons.mp member with rfl | earlier
    · exact names_iff.mpr ⟨key, _, _, config, get_insert_self _ key _, rfl, rfl, rfl,
        rfl⟩
    · refine names_insert (named object earlier) fun old present => ?_
      rw [found] at present
      cases present
      exact here

theorem named_sweep {guarded : List Key} (step : SweepStep projectId guarded disk after)
    (named : Named projectId disk) : Named projectId after := by
  cases step with
  | sidecars | drop hash unused => exact named
  | shrink index format project subset keeps =>
    intro object member
    obtain ⟨key, entry, offloaded, config, found, away, rest⟩ := names_iff.mp (named object member)
    refine names_iff.mpr ⟨key, entry, offloaded, config, keeps key entry found (.inl ?_), away,
      rest⟩
    rw [away]
    exact Option.some_ne_none offloaded

end Steps

/-- What keeps external objects named: archiving takes only valid paths and versions, and
a version that is recorded as offloaded is archived again with the same content only
while its object is in the store. -/
def KeepsRecord (digests : Digests Content) (projectId : String) (disk : Disk Content) :
    Action Content → Prop
  | .archive _ file => isValidKey file.key = true ∧
      ∀ entry, (disk.saved projectId).get file.key = some entry → entry.offloaded ≠ none →
        entry.hash = digests.blake3 file.content →
        Kept digests disk (digests.blake3 file.content) file.size file.crc
  | _ => True

theorem named_apply {digests : Digests Content} {projectId : String} {disk : Disk Content}
    {action : Action Content} (loads : disk.Loads projectId) (named : Named projectId disk)
    (keeps : KeepsRecord digests projectId disk action) :
    Named projectId (apply digests projectId disk action) := by
  have effect := apply_effect digests projectId loads action
  cases action with
  | archive call file =>
    refine (chain_keeps _ (fun before next step => named_archive step) effect
      ⟨named, ?_⟩).1
    intro old found away overwritten
    exact overwritten.2 (keeps.2 old found away overwritten.1)
  | _ =>
    refine effect_keeps digests projectId (Named projectId) effect ?_
      (fun key before next step => named_fetch step)
      (fun call keep dryRun _ guarded before next step => named_rotate step)
      (fun guarded before next step => named_sweep step)
      (fun before tags held => held) named
    intro call file impossible
    cases impossible

/-- In every run that keeps to the condition, whatever fails and wherever the process
stops, an external object that rotation recorded stays named by an entry of the saved
index until it is deleted. -/
theorem recorded_objects_named (digests : Digests Content) (projectId : String) (tags : TagsDir)
    (stores : Place → String → Option Content) (disk : Disk Content)
    (run : Run (system digests projectId) (KeepsRecord digests projectId)
      (Disk.fresh tags stores) disk) : Named projectId disk := by
  refine (run.invariant (fun disk => disk.Loads projectId ∧ Named projectId disk)
    ⟨loads_fresh projectId tags stores, fun object member => by cases member⟩ ?_).2
  rintro before action _ keeps ⟨loads, named⟩
  refine ⟨loads_apply digests projectId ?_ loads, named_apply loads named keeps⟩
  cases action with
  | archive call file => exact keeps.1
  | _ => trivial

/-- The digest of the empty file. -/
def emptyHash : String := "af1349b9f5f9a1a6a0404dea36dcc9499bcb25c9adc112b7cc9a93cae41f3262"

/-- The digest of the text `p`. -/
def sampleProjectHash : String :=
  "73f291693e31fe77be7bfb78ebc9042b2e2c437c87eca0c122e0e8a0bbfbe625"

/-- The empty file as the only content. -/
def sampleDigests : Digests Unit where
  blake3 := fun _ => emptyHash
  blake3_valid := fun _ => by decide +kernel
  size := fun _ => 0
  crc32 := fun _ => 0
  blake3Text := fun text => if text = "p" then sampleProjectHash else emptyHash
  blake3Text_valid := fun text => by
    split_ifs
    · decide +kernel
    · decide +kernel

def sampleConfig (path : String) : HistoryConfig :=
  ⟨true, ["*"], 0, 0, 0, ⟨true, 0, .localPath path⟩⟩

def sampleCall (nowMs : UInt64) : Call := ⟨sampleConfig "/mnt/a", .plain, nowMs, []⟩

def sampleFile (rel : String) : Submission Unit := ⟨(rel, 1), 0, 0, "peer", "published", ()⟩

def sampleStart : Disk Unit := Disk.fresh .missing fun _ _ => none

/-- A version is archived and moved away. -/
def moving : List (Action Unit) :=
  [.archive (sampleCall 1) (sampleFile "a.bin"), .rotate (sampleCall 2) [] false]

/-- The run keeps to the condition, and rotation has recorded an external object. -/
theorem moved_object_named :
    (moving.foldl (apply sampleDigests "p") sampleStart).recorded ≠ [] ∧
      Named "p" (moving.foldl (apply sampleDigests "p") sampleStart) := by
  refine ⟨by decide +kernel, recorded_objects_named sampleDigests "p" .missing _ _
    (Run.follow moving .start ⟨trivial, ⟨by decide +kernel, ?_⟩, trivial, trivial, trivial⟩)⟩
  intro entry found
  exact absurd found (by simp [sampleStart, Disk.saved, Disk.fresh])

/-- The version is archived once more, with the same content, after it was moved. No call
fails. -/
def orphaning : List (Action Unit) :=
  moving ++ [.archive (sampleCall 3) (sampleFile "a.bin")]

/-- The entry is written anew without the record of the external object, which no entry
names any more. -/
theorem rearchived_object_orphaned :
    Reaches (system sampleDigests "p") sampleStart
      (orphaning.foldl (apply sampleDigests "p") sampleStart) ∧
    ¬ Named "p" (orphaning.foldl (apply sampleDigests "p") sampleStart) := by
  refine ⟨Run.follow orphaning .start ?_, by decide +kernel⟩
  exact ⟨trivial, trivial, trivial, trivial, trivial, trivial, trivial⟩


/-! ### Pinned versions -/

/-- Nothing that is guarded was lost: its entries are as they were, the objects of its
local versions are in place, and no external object is gone. -/
structure Spares (projectId : String) (guarded : Key → Prop) (disk after : Disk Content) :
    Prop where
  entries : ∀ key entry, guarded key → (disk.saved projectId).get key = some entry →
    (after.saved projectId).get key = some entry
  objects : ∀ key entry content, guarded key → (disk.saved projectId).get key = some entry →
    entry.offloaded = none → disk.objects.lookup entry.hash = some content →
    after.objects.lookup entry.hash = some content
  external : ∀ place key, (disk.stores place key).isSome = true →
    (after.stores place key).isSome = true

theorem Spares.refl (projectId : String) (guarded : Key → Prop) (disk : Disk Content) :
    Spares projectId guarded disk disk where
  entries := fun _ _ _ => id
  objects := fun _ _ _ _ _ _ => id
  external := fun _ _ => id

section Sparing

variable {digests : Digests Content} {projectId : String} {start disk after : Disk Content}
  {guarded : List Key}

/-- Removing an object that no local version refers to spares what is guarded. -/
theorem Spares.drop (spares : Spares projectId (· ∈ guarded) start disk) {hash : String}
    (unused : ∀ key entry, (disk.saved projectId).get key = some entry →
      entry.offloaded = none → entry.hash ≠ hash) :
    Spares projectId (· ∈ guarded) start (disk.withoutObject hash) where
  entries := spares.entries
  objects := by
    intro key entry content member found here held
    have different : entry.hash ≠ hash :=
      unused key entry (spares.entries key entry member found) here
    exact (AList.lookup_erase_ne different).trans
      (spares.objects key entry content member found here held)
  external := spares.external

end Sparing

end Synergos.HistoryWorld
