import Synergos.FaultRuns
import Synergos.HistoryWorld

/-!
# The sidecars mirror the index

The index says for each version which content it has; the sidecar of a content says
which versions have it. After every call that returned, each record in a sidecar is
the record of an entry of the saved index, and each entry has its record in the
sidecar of its hash. Rebuilding the index from the sidecars then gives the saved
index, in whatever order the directories are listed.

Within a call the two disagree for a while, so what is stated of the operations here
is only what holds when they return.
-/

namespace Synergos.HistoryRebuild

open Faults Faults.Program HistoryFiles HistoryTags HistoryRetention HistoryStore HistorySteps
open HistoryWorld Runs FaultRuns List HistoryIndex

variable {Content : Type} {digests : Digests Content} {projectId : String}
  {disk after : Disk Content}

/-! ### The mirror -/

/-- The sidecars have exactly the records of the saved index, and local versions have an
object. -/
structure Mirrors (projectId : String) (disk : Disk Content) : Prop where
  loads : disk.Loads projectId
  project : ∀ hash objectMeta, disk.sidecars.lookup hash = some (.holds objectMeta) →
    objectMeta.projectId = projectId
  agrees : ∀ hash reference, reference ∈ disk.refsAt hash →
    (disk.saved projectId).get reference.key = some (reference.entry hash)
  listed : ∀ key entry, (disk.saved projectId).get key = some entry →
    entry.reference key ∈ disk.refsAt entry.hash
  present : ∀ key entry, (disk.saved projectId).get key = some entry →
    entry.offloaded = none → (disk.objects.lookup entry.hash).isSome = true

theorem mirrors_fresh (tags : TagsDir) (stores : Place → String → Option Content) :
    Mirrors projectId (Disk.fresh tags stores) where
  loads := loads_fresh projectId tags stores
  project := by simp [Disk.fresh]
  agrees := by simp [Disk.fresh, Disk.refsAt]
  listed := by simp [Disk.fresh, Disk.saved]
  present := by simp [Disk.fresh, Disk.saved]

/-- More objects, other tags and other external objects do not matter. -/
theorem Mirrors.of_objects (mirrors : Mirrors projectId disk) (index : after.index = disk.index)
    (sidecars : after.sidecars = disk.sidecars)
    (objects : ∀ hash, hash ∈ (disk.saved projectId).referencedHashes →
      (disk.objects.lookup hash).isSome = true → (after.objects.lookup hash).isSome = true) :
    Mirrors projectId after := by
  have saved : after.saved projectId = disk.saved projectId := by
    simp [Disk.saved, index]
  have refs : ∀ hash, after.refsAt hash = disk.refsAt hash := by
    intro hash
    simp [Disk.refsAt, sidecars]
  refine ⟨⟨by rw [index]; exact mirrors.loads.readable, by rw [saved]; exact mirrors.loads.sound⟩,
    by rw [sidecars]; exact mirrors.project, ?_, ?_, ?_⟩
  · intro hash reference member
    rw [saved]
    exact mirrors.agrees hash reference (refs hash ▸ member)
  · intro key entry found
    rw [saved] at found
    rw [refs]
    exact mirrors.listed key entry found
  · intro key entry found here
    rw [saved] at found
    refine objects entry.hash ?_ (mirrors.present key entry found here)
    exact mem_referencedHashes.mpr ⟨key, entry, found, rfl⟩

theorem project_appended (mirrors : Mirrors projectId disk) (hash : String)
    (reference : ObjectRef) (other : String) (objectMeta : ObjectMeta)
    (found : (disk.appended projectId hash reference).sidecars.lookup other =
      some (.holds objectMeta)) : objectMeta.projectId = projectId := by
  by_cases same : other = hash
  · rw [same, Disk.appended, AList.lookup_insert] at found
    cases found
    rfl
  · rw [Disk.appended, AList.lookup_insert_ne same] at found
    exact mirrors.project other objectMeta found

variable {whole : HistoryIndex} {key : Key} {victims : List Key} {entry : IndexEntry}

section

variable (mirrors : Mirrors projectId disk)

include mirrors

/-- A version is entered in the sidecar of its hash and in the index. -/
theorem Mirrors.entered (validKey : isValidKey key = true)
    (validHash : isValidObjectHash entry.hash = true)
    (replaces : ∀ old, (disk.saved projectId).get key = some old → old.hash = entry.hash)
    (object : entry.offloaded = none → (disk.objects.lookup entry.hash).isSome = true) :
    Mirrors projectId ((disk.appended projectId entry.hash (entry.reference key)).withIndex
      ((disk.saved projectId).insert key entry)) where
  loads := ⟨by simp [Disk.withIndex], mirrors.loads.sound.insert validKey validHash⟩
  project := project_appended mirrors entry.hash (entry.reference key)
  agrees := by
    intro hash reference member
    change ((disk.saved projectId).insert key entry).get reference.key = _
    rcases mem_refsAt_appended member with ⟨old, different⟩ | ⟨rfl, rfl⟩
    · have before := mirrors.agrees hash reference old
      -- A record of this version in another sidecar would be of another content.
      have other : reference.key ≠ key := by
        intro same
        rw [same] at before
        exact different (replaces _ before) same
      rw [get_insert_ne _ _ other]
      exact before
    · simp
  listed := by
    refine forall_insert ?_ fun other old same found => ?_
    · change entry.reference key ∈
        (disk.appended projectId entry.hash (entry.reference key)).refsAt entry.hash
      rw [refsAt_appended_self]
      exact mem_append_right _ mem_cons_self
    · have before := mirrors.listed other old found
      change old.reference other ∈
        (disk.appended projectId entry.hash (entry.reference key)).refsAt old.hash
      by_cases shared : old.hash = entry.hash
      · rw [shared] at before ⊢
        rw [refsAt_appended_self]
        exact mem_append_left _ (mem_withoutKey.mpr ⟨before, same⟩)
      · rw [refsAt_appended_ne _ shared]
        exact before
  present := forall_insert object fun other old _ => mirrors.present other old

/-- Writing the record of an entry once more changes nothing that counts. -/
theorem Mirrors.reappended (found : (disk.saved projectId).get key = some entry) :
    Mirrors projectId (disk.appended projectId entry.hash (entry.reference key)) where
  loads := ⟨mirrors.loads.readable, mirrors.loads.sound⟩
  project := project_appended mirrors entry.hash (entry.reference key)
  agrees := by
    intro hash reference member
    rcases mem_refsAt_appended member with ⟨old, _⟩ | ⟨rfl, rfl⟩
    · exact mirrors.agrees hash reference old
    · exact found
  listed := by
    intro other old present
    have before := mirrors.listed other old present
    by_cases shared : old.hash = entry.hash
    · rw [shared] at before ⊢
      rw [refsAt_appended_self]
      obtain rfl | same := eq_or_ne other key
      · change (disk.saved projectId).get other = some old at present
        rw [found] at present
        cases present
        exact mem_append_right _ mem_cons_self
      · exact mem_append_left _ (mem_withoutKey.mpr ⟨before, same⟩)
    · rw [refsAt_appended_ne _ shared]
      exact before
  present := mirrors.present

/-! ### The operations keep the mirror -/

/-- An entry that is made local or archived anew, its object being in the store. -/
theorem Mirrors.enter (entry : IndexEntry) (validKey : isValidKey key = true)
    (kept : Kept digests disk entry.hash entry.size entry.crc)
    (replaces : ∀ old, (disk.saved projectId).get key = some old → old.hash = entry.hash) :
    Mirrors projectId ((disk.appended projectId entry.hash (entry.reference key)).withIndex
      ((disk.saved projectId).insert key entry)) := by
  obtain ⟨content, object, _⟩ := id kept
  exact mirrors.entered validKey kept.validHash replaces fun _ => by simp [object]

theorem Mirrors.withObject (hash : String) (content : Content) :
    Mirrors projectId (disk.withObject hash content) := by
  refine mirrors.of_objects rfl rfl ?_
  intro other _ present
  obtain rfl | same := eq_or_ne other hash
  · simp [Disk.withObject]
  · simpa [Disk.withObject, AList.lookup_insert_ne same] using present

omit mirrors in
theorem mirrors_archives {mayReplace : IndexEntry → Prop} (validKey : isValidKey key = true) :
    Archives digests projectId key mayReplace (Mirrors projectId) fun _ => True where
  stopped _ _ := trivial
  object _ content mirrors := mirrors.withObject _ content
  again _ _ mirrors present := mirrors.reappended present
  enter _ entry mirrors _ kept replaces :=
    ⟨trivial, mirrors.enter entry validKey kept fun old found => (replaces old found).1⟩

omit mirrors in
theorem mirrors_fetches (key : Key) :
    Fetches digests projectId key (Mirrors projectId) fun _ => True where
  stopped _ _ := trivial
  object _ content mirrors := mirrors.withObject _ content
  delete _ _ _ _ mirrors _ _ _ := mirrors.of_objects rfl rfl fun _ _ => id
  restore disk entry offloaded place mirrors away kept _ := by
    refine ⟨trivial, mirrors.enter { entry with offloaded := none }
      (mirrors.loads.sound.valid key entry away.found).1 kept ?_⟩
    intro old present
    rw [away.found] at present
    cases present
    rfl

/-- The object of a hash may go when no version of it is local. -/
theorem Mirrors.withoutObject {hash : String}
    (unused : ∀ key entry, (disk.saved projectId).get key = some entry →
      entry.offloaded = none → entry.hash ≠ hash) :
    Mirrors projectId (disk.withoutObject hash) where
  loads := ⟨mirrors.loads.readable, mirrors.loads.sound⟩
  project := mirrors.project
  agrees := mirrors.agrees
  listed := mirrors.listed
  present := by
    intro key entry found here
    have held := mirrors.present key entry found here
    simpa [Disk.withoutObject, AList.lookup_erase_ne (unused key entry found here)] using held

theorem Mirrors.record {config : RotationBackendConfig}
    (found : (disk.saved projectId).get key = some entry) :
    Mirrors projectId
      (withEntry digests projectId config (disk.saved projectId) key entry disk) := by
  let away := movedEntry digests projectId config entry
  obtain ⟨validKey, validHash⟩ := mirrors.loads.sound.valid key entry found
  have replaces : ∀ old, (disk.saved projectId).get key = some old → old.hash = away.hash := by
    intro old present
    rw [found] at present
    cases present
    rfl
  have entered : Mirrors projectId ((disk.appended projectId away.hash
      (away.reference key)).withIndex ((disk.saved projectId).insert key away)) :=
    mirrors.entered validKey validHash replaces fun here => by cases here
  exact entered.of_objects rfl rfl fun _ _ present => present

end

theorem mirrors_rotates {config : RotationBackendConfig} (guarded : List Key) :
    Rotates digests projectId config guarded (Mirrors projectId) fun _ => True where
  stopped _ _ := trivial
  upload _ _ _ mirrors _ := mirrors.of_objects rfl rfl fun _ _ => id
  record _ _ _ _ mirrors _ found _ _ _ := ⟨trivial, mirrors.record found⟩
  drop _ _ _ mirrors _ unused _ _ := mirrors.withoutObject fun other old present here same =>
    hasLocalReference_eq_false_iff.mp unused other old present same here

/-! ### Collection keeps the mirror -/

variable {index : HistoryIndex} (listing : Listing) (report : GcReport)

theorem hash_ne_of_unreferenced {hash : String}
    (unused : hash ∉ index.referencedHashes) (found : index.get key = some entry) :
    entry.hash ≠ hash :=
  fun same => unused (mem_referencedHashes.mpr ⟨key, entry, found, same⟩)

/-- The sidecar of a hash that no version has may go. -/
theorem Mirrors.withoutSidecar (mirrors : Mirrors projectId disk) {hash : String}
    (unused : hash ∉ (disk.saved projectId).referencedHashes) :
    Mirrors projectId (disk.withoutSidecar hash) where
  loads := ⟨mirrors.loads.readable, mirrors.loads.sound⟩
  project := by
    intro other objectMeta found
    obtain rfl | same := eq_or_ne other hash
    · simp [Disk.withoutSidecar] at found
    · rw [Disk.withoutSidecar, AList.lookup_erase_ne same] at found
      exact mirrors.project other objectMeta found
  agrees := by
    intro other reference member
    obtain rfl | same := eq_or_ne other hash
    · simp [Disk.withoutSidecar, Disk.refsAt] at member
    · refine mirrors.agrees other reference ?_
      simpa [Disk.withoutSidecar, Disk.refsAt, AList.lookup_erase_ne same] using member
  listed := by
    intro key entry found
    have different := hash_ne_of_unreferenced unused found
    simpa [Disk.withoutSidecar, Disk.refsAt, AList.lookup_erase_ne different] using
      mirrors.listed key entry found
  present := mirrors.present

/-- The mirror of a given index. -/
def MirrorsOf (projectId : String) (index : HistoryIndex) (disk : Disk Content) : Prop :=
  disk.saved projectId = index ∧ Mirrors projectId disk

theorem mirrors_discard {hash : String}
    (unused : hash ∉ index.referencedHashes) (mirrors : MirrorsOf projectId index disk) :
    Ensures (discard hash) (fun _ => MirrorsOf projectId index) (fun _ => True) disk := by
  obtain ⟨rfl, mirrors⟩ := mirrors
  have dropped : Mirrors projectId (disk.withoutObject hash) :=
    mirrors.withoutObject fun key entry found _ => hash_ne_of_unreferenced unused found
  have second : ∀ later, later.saved projectId = disk.saved projectId → Mirrors projectId later →
      Ensures (do let _ ← attempt (write fun disk => disk.withoutSidecar hash) : Store Content Unit)
        (fun _ => MirrorsOf projectId (disk.saved projectId)) (fun _ => True) later := by
    intro later same held
    have cleared : MirrorsOf projectId (disk.saved projectId) (later.withoutSidecar hash) :=
      ⟨same, held.withoutSidecar (same ▸ unused)⟩
    exact ensures_ignored (ensures_write ⟨trivial, ensures_pure ⟨same, held⟩⟩
      (ensures_pure cleared) ⟨trivial, ensures_pure cleared⟩)
  exact ensures_ignored (ensures_write ⟨trivial, second disk rfl mirrors⟩
    (second _ rfl dropped) ⟨trivial, second _ rfl dropped⟩)

theorem mirrors_collect (hash : String) (mirrors : MirrorsOf projectId index disk) :
    Ensures (collect digests index.referencedHashes report hash)
      (fun _ => MirrorsOf projectId index) (fun _ => True) disk := by
  refine ensures_bind (ensures_pass trivial (ensures_ite (fun _ => ensures_pure mirrors) ?_))
  intro used
  refine (ensures_objectSize hash).bind trivial fun size _ => ?_
  have unused : hash ∉ index.referencedHashes := by simpa using used
  exact ensures_bind ((mirrors_discard unused mirrors).weaken
    (fun _ _ held => ensures_pure held) fun _ _ => trivial)

/-- The records of some versions were removed since the index was saved. -/
structure Trimmed (projectId : String) (start : Disk Content) (index : HistoryIndex)
    (taken : List (Key × String)) (disk : Disk Content) : Prop where
  saved : disk.index = some (.holds index)
  objects : disk.objects = start.objects
  project : ∀ hash objectMeta, disk.sidecars.lookup hash = some (.holds objectMeta) →
    objectMeta.projectId = projectId
  refs : ∀ hash reference, reference ∈ disk.refsAt hash ↔
    reference ∈ start.refsAt hash ∧ (reference.key, hash) ∉ taken

theorem project_withoutRef (holds : ∀ hash objectMeta,
      disk.sidecars.lookup hash = some (.holds objectMeta) → objectMeta.projectId = projectId)
    (hash : String) (key : Key) (other : String) (objectMeta : ObjectMeta)
    (found : (disk.withoutRef hash key).sidecars.lookup other = some (.holds objectMeta)) :
    objectMeta.projectId = projectId := by
  unfold Disk.withoutRef at found
  split at found
  next old present =>
    obtain rfl | same := eq_or_ne other hash
    · split_ifs at found
      · simp at found
      · rw [AList.lookup_insert] at found
        cases found
        exact holds other old present
    · split_ifs at found
      · rw [AList.lookup_erase_ne same] at found
        exact holds other objectMeta found
      · rw [AList.lookup_insert_ne same] at found
        exact holds other objectMeta found
  next => exact holds other objectMeta found

theorem trimmed_removeRecord {start : Disk Content} {taken : List (Key × String)}
    (version : Key × String) (trimmed : Trimmed projectId start index taken disk) :
    Ensures (removeRecord report version)
      (fun _ => Trimmed projectId start index (taken ++ [version])) (fun _ => True) disk := by
  refine ensures_bind ((ensures_removeObjectRef version.2 version.1 disk).weaken ?_
    fun _ _ => trivial)
  rintro _ after rfl
  have rest := withoutRef_sidecars disk version.2 version.1
  refine ensures_pure ⟨?_, ?_, project_withoutRef trimmed.project version.2 version.1, ?_⟩
  · rw [rest]
    exact trimmed.saved
  · rw [rest]
    exact trimmed.objects
  · intro hash reference
    obtain ⟨key, name⟩ := version
    simp [mem_refsAt_withoutRef, trimmed.refs, and_assoc, and_comm (a := hash = name)]

/-- Once the records of all victims are removed, the sidecars mirror the index again. -/
theorem Mirrors.trimmed {start : Disk Content} (mirrors : Mirrors projectId start)
    {result : HistoryIndex × List (Key × String)}
    (removed : Removed (start.saved projectId) victims result)
    (trimmed : Trimmed projectId start result.1 result.2 disk) :
    MirrorsOf projectId result.1 disk := by
  have saved : disk.saved projectId = result.1 := by simp [Disk.saved, trimmed.saved]
  have subset : ∀ key entry, result.1.get key = some entry →
      key ∉ victims ∧ (start.saved projectId).get key = some entry := by
    intro key entry found
    rw [removed.get] at found
    split_ifs at found with victim
    exact ⟨victim, found⟩
  refine ⟨saved, ⟨by simp [trimmed.saved], ?_⟩, trimmed.project, ?_, ?_, ?_⟩
  · rw [saved]
    exact mirrors.loads.sound.of_subset removed.format removed.project
      fun key entry found => (subset key entry found).2
  · intro hash reference member
    obtain ⟨before, untaken⟩ := (trimmed.refs hash reference).mp member
    have found := mirrors.agrees hash reference before
    have free : reference.key ∉ victims := fun victim =>
      untaken ((removed.listed _ _).mpr ⟨victim, _, found, rfl⟩)
    rw [saved, removed.get, if_neg free]
    exact found
  · intro key entry found
    rw [saved] at found
    obtain ⟨free, before⟩ := subset key entry found
    exact (trimmed.refs _ _).mpr ⟨mirrors.listed key entry before,
      fun listed => free ((removed.listed _ _).mp listed).1⟩
  · intro key entry found here
    rw [saved] at found
    rw [trimmed.objects]
    exact mirrors.present key entry (subset key entry found).2 here

theorem mirrors_sweep (mirrors : Mirrors projectId disk) (listing : Listing) :
    Ensures (sweep digests listing (disk.saved projectId) victims) (fun _ => Mirrors projectId)
      (fun _ => True) disk := by
  let result := removeVictims (disk.saved projectId) victims
  have removed : Removed (disk.saved projectId) victims result := removeVictims_removed _ victims
  have saved : Trimmed projectId disk result.1 [] (disk.withIndex result.1) :=
    ⟨rfl, rfl, mirrors.project, fun hash reference => by simp [Disk.withIndex, Disk.refsAt]⟩
  refine ensures_bind (ensures_write trivial ?_ trivial)
  refine Ensures.bind (ensures_loop_taken
    (fun taken _ => Trimmed projectId disk result.1 taken) saved
    fun taken version rest _ report after => trimmed_removeRecord report version) ?_
  intro report after trimmed
  refine ensures_bind (ensures_bind (ensures_read trivial (ensures_pure ?_)))
  refine Ensures.bind (ensures_loop (fun _ => MirrorsOf projectId result.1)
    (mirrors.trimmed removed trimmed) fun hash _ report later => mirrors_collect report hash) ?_
  intro report later held
  exact ensures_bind (ensures_pass trivial (ensures_pure held.2))

/-- Without sidecars and entries. -/
theorem mirrors_empty (index : disk.index = some (.holds (.new projectId)))
    (sidecars : ∀ hash, disk.sidecars.lookup hash = none) : Mirrors projectId disk := by
  have saved : disk.saved projectId = .new projectId := by simp [Disk.saved, index]
  refine ⟨⟨by simp [index], saved ▸ sound_new projectId⟩, ?_, ?_, ?_, ?_⟩
  · intro hash objectMeta found
    simp [sidecars hash] at found
  · intro hash reference member
    simp [Disk.refsAt, sidecars hash] at member
  · intro key entry found
    simp [saved] at found
  · intro key entry found
    simp [saved] at found

/-- All sidecars go with the directory of the objects. -/
theorem mirrors_removeObjects (index : disk.index = some (.holds (.new projectId))) :
    Ensures (removeObjects listing) (fun _ => Mirrors projectId) (fun _ => True) disk := by
  refine ensures_bind (ensures_read trivial ?_)
  refine Ensures.bind (ensures_loop
    (fun _ (later : Disk Content) => later.index = some (.holds (.new projectId))) index
    fun hash _ _ later held => ensures_write trivial held trivial) ?_
  intro _ after index
  refine ensures_bind (ensures_read trivial ?_)
  refine Ensures.weaken (ensures_loop_taken (fun taken _ later =>
    later.index = some (.holds (.new projectId)) ∧
      ∀ hash, hash ∈ later.sidecars ↔ hash ∈ after.sidecars ∧ hash ∉ taken)
    ⟨index, fun hash => by simp⟩ ?_) ?_ fun _ => id
  · rintro taken name rest _ _ later ⟨still, left⟩
    refine ensures_write trivial ⟨still, fun hash => ?_⟩ trivial
    rw [Disk.withoutSidecar, AList.mem_erase, left, mem_append, mem_singleton]
    tauto
  · rintro _ later ⟨still, left⟩
    refine mirrors_empty still fun hash => ?_
    rw [AList.lookup_eq_none, left]
    rintro ⟨member, untaken⟩
    exact untaken ((listing.complete _).mem_iff.mpr (AList.mem_keys.mp member))

theorem mirrors_purge :
    Ensures (purge digests listing projectId index) (fun _ => Mirrors projectId)
      (fun _ => True) disk := by
  refine ensures_ite (fun _ => ensures_bind (ensures_throw trivial)) fun _ => ?_
  refine (ensures_addSizes 0 _).bind trivial fun _ _ => ?_
  refine ensures_bind (ensures_write trivial ?_ trivial)
  refine (mirrors_removeObjects listing rfl).bind ?_
  intro _ later held
  exact ensures_bind (ensures_pass trivial (ensures_pure held))

theorem mirrors_gc (mirrors : Mirrors projectId disk) (listing : Listing) (config : HistoryConfig)
    (keep : List Key) (purging : Bool) (nowMs : UInt64) :
    Ensures (gc digests listing config projectId keep purging nowMs) (fun _ => Mirrors projectId)
      (fun _ => True) disk := by
  refine ensures_opened config trivial (ensures_loaded mirrors.loads listing trivial ?_)
  cases purging with
  | true => exact mirrors_purge listing
  | false =>
    exact (ensures_protectedVersions mirrors.loads listing config keep).bind trivial
      fun _ _ => mirrors_sweep mirrors listing

/-! ### Rebuilding -/

/-- Every entry of the index is an entry of the whole. -/
def Part (whole index : HistoryIndex) : Prop :=
  ∀ key entry, index.get key = some entry → whole.get key = some entry

theorem Part.trans {middle : HistoryIndex} (left : Part whole middle)
    (right : Part middle index) : Part whole index :=
  fun key entry found => left key entry (right key entry found)

/-- A step that only adds entries of the whole. -/
def Extends (whole : HistoryIndex) (step : HistoryIndex → HistoryIndex) : Prop :=
  ∀ index, Part whole index → Part whole (step index) ∧ Part (step index) index

/-- So does a fold of such steps, and it has what each of them added. -/
theorem extends_foldl {α : Type} {compute : HistoryIndex → α → HistoryIndex}
    {items : List α} (each : ∀ item ∈ items, Extends whole fun index => compute index item)
    (part : Part whole index) :
    Part whole (items.foldl compute index) ∧ Part (items.foldl compute index) index ∧
      ∀ item ∈ items, ∃ before, Part whole before ∧
        Part (items.foldl compute index) (compute before item) := by
  induction items generalizing index with
  | nil => exact ⟨part, fun _ _ => id, nofun⟩
  | cons first rest ih =>
    obtain ⟨within, grown⟩ := each first mem_cons_self index part
    obtain ⟨whole, more, added⟩ := ih
      (fun item member => each item (mem_cons_of_mem first member)) within
    refine ⟨whole, more.trans grown, ?_⟩
    intro item member
    rcases mem_cons.mp member with rfl | later
    · exact ⟨index, part, more⟩
    · exact added item later

/-- What the sidecar of a hash adds when nothing fails. -/
def restored (projectId : String) (disk : Disk Content) (index : HistoryIndex) (hash : String) :
    HistoryIndex :=
  if isValidObjectHash hash = false then index
  else match disk.sidecars.lookup hash with
    | some (.holds objectMeta) =>
      if objectMeta.projectId ≠ "" ∧ objectMeta.projectId ≠ projectId then index
      else objectMeta.refs.foldl (restoreRef hash (disk.objects.lookup hash).isSome) index
    | _ => index

theorem passes_restoreSidecar (index : HistoryIndex) (hash : String) :
    Passes (restoreSidecar projectId index hash) disk (restored projectId disk index hash) disk := by
  unfold restoreSidecar restored
  refine passes_read.bind ?_
  by_cases invalid : isValidObjectHash hash = false
  · simp only [if_pos invalid]
    exact passes_pure
  simp only [if_neg invalid]
  refine passes_read.attempt.bind ?_
  cases disk.sidecars.lookup hash with
  | none => exact passes_pure
  | some parsed =>
    cases parsed with
    | garbled => exact passes_pure
    | holds objectMeta =>
      by_cases foreign : objectMeta.projectId ≠ "" ∧ objectMeta.projectId ≠ projectId
      · simp only [if_pos foreign]
        exact passes_pure
      · simp only [if_neg foreign]
        exact passes_read.attempt.bind passes_pure

theorem passes_rebuildFromSidecars :
    Passes (rebuildFromSidecars listing projectId) disk
      ((listing.order disk.sidecars.keys).foldl (restored projectId disk) (.new projectId)) disk :=
  passes_read.bind (passes_loop passes_restoreSidecar _)

theorem extends_restoreRef {hash : String} {objectExists : Bool}
    {reference : ObjectRef} (agrees : whole.get reference.key = some (reference.entry hash)) :
    Extends whole fun index => restoreRef hash objectExists index reference := by
  intro index part
  unfold restoreRef
  split_ifs
  · exact ⟨part, fun _ _ => id⟩
  · exact ⟨part, fun _ _ => id⟩
  · constructor
    · exact forall_insert agrees fun key entry _ => part key entry
    · intro key entry found
      rw [get_insert]
      split_ifs with same
      · rw [← agrees, ← same]
        exact part key entry found
      · exact found

theorem Mirrors.extends_restored (mirrors : Mirrors projectId disk) (hash : String) :
    Extends (disk.saved projectId) fun index => restored projectId disk index hash := by
  intro index part
  have unchanged : Part (disk.saved projectId) index ∧ Part index index :=
    ⟨part, fun _ _ => id⟩
  unfold restored
  split_ifs
  · exact unchanged
  · split
    next objectMeta found =>
      split_ifs
      · exact unchanged
      · have each : ∀ reference ∈ objectMeta.refs, Extends (disk.saved projectId) fun index =>
            restoreRef hash (disk.objects.lookup hash).isSome index reference := by
          intro reference member
          refine extends_restoreRef (mirrors.agrees hash reference ?_)
          simpa [Disk.refsAt, found] using member
        exact ⟨(extends_foldl each part).1, (extends_foldl each part).2.1⟩
    next => exact unchanged

/-- The sidecar of an entry's hash puts the entry back. -/
theorem Mirrors.restored_get (mirrors : Mirrors projectId disk)
    (found : (disk.saved projectId).get key = some entry)
    (part : Part (disk.saved projectId) index) :
    (restored projectId disk index entry.hash).get key = some entry := by
  obtain ⟨validKey, validHash⟩ := mirrors.loads.sound.valid key entry found
  have listed := mirrors.listed key entry found
  cases present : disk.sidecars.lookup entry.hash with
  | none => simp [Disk.refsAt, present] at listed
  | some parsed =>
    cases parsed with
    | garbled => simp [Disk.refsAt, present] at listed
    | holds objectMeta =>
      have own := mirrors.project entry.hash objectMeta present
      have member : entry.reference key ∈ objectMeta.refs := by
        simpa [Disk.refsAt, present] using listed
      have each : ∀ reference ∈ objectMeta.refs, Extends (disk.saved projectId) fun index =>
          restoreRef entry.hash (disk.objects.lookup entry.hash).isSome index reference := by
        intro reference member
        refine extends_restoreRef (mirrors.agrees entry.hash reference ?_)
        simpa [Disk.refsAt, present] using member
      obtain ⟨before, _, added⟩ := (extends_foldl each part).2.2 _ member
      have kept : ¬ ((disk.objects.lookup entry.hash).isSome = false ∧
          (entry.reference key).offloaded = none) := by
        rintro ⟨missing, here⟩
        simp [mirrors.present key entry found here] at missing
      have put : (restoreRef entry.hash (disk.objects.lookup entry.hash).isSome before
          (entry.reference key)).get key = some entry := by
        simp only [restoreRef, reference_key, validKey, Bool.true_eq_false, if_false,
          reference_entry]
        rw [if_neg kept]
        exact get_insert_self before key entry
      simp only [restored, validHash, Bool.true_eq_false, if_false, present, own, ne_eq,
        not_true_eq_false, and_false]
      exact added key entry put

theorem Mirrors.rebuilt (mirrors : Mirrors projectId disk) (listing : Listing) (key : Key) :
    ((listing.order disk.sidecars.keys).foldl (restored projectId disk)
      (.new projectId)).get key = (disk.saved projectId).get key := by
  have nothing : Part (disk.saved projectId) (.new projectId) := fun _ _ found => by simp at found
  have each : ∀ hash ∈ listing.order disk.sidecars.keys, Extends (disk.saved projectId)
      fun index => restored projectId disk index hash :=
    fun hash _ => mirrors.extends_restored hash
  obtain ⟨part, _, added⟩ := extends_foldl each nothing
  cases found : (disk.saved projectId).get key with
  | none =>
    by_contra other
    obtain ⟨entry, present⟩ := Option.ne_none_iff_exists'.mp other
    simp [part key entry present] at found
  | some entry =>
    have listed := mirrors.listed key entry found
    have known : entry.hash ∈ listing.order disk.sidecars.keys := by
      refine (listing.complete _).mem_iff.mpr (AList.mem_keys.mp ?_)
      by_contra absent
      simp [Disk.refsAt, AList.lookup_eq_none.mpr absent] at listed
    obtain ⟨before, beforePart, more⟩ := added entry.hash known
    exact more key entry (mirrors.restored_get found beforePart)

/-! ### Runs -/

/-- The call is of a kind that changes the index, it returned, and what it archived has a
valid path and version. -/
def Completes (digests : Digests Content) (projectId : String) (disk : Disk Content) :
    Action Content → Prop
  | .archive call file => isValidKey file.key = true ∧
      ((archive digests call.listing call.config projectId file call.nowMs).outcome disk
        call.faults).isDone = true
  | .fetchOffloaded call key =>
    ((fetchOffloaded digests call.listing call.config projectId key).outcome disk
      call.faults).isDone = true
  | .rotate call keep dryRun =>
    ((rotate digests call.listing call.config projectId keep dryRun call.nowMs).outcome disk
      call.faults).isDone = true
  | .gc call keep purging =>
    ((gc digests call.listing call.config projectId keep purging call.nowMs).outcome disk
      call.faults).isDone = true
  | .lookup _ _ => False
  | .tagAdd _ _ _ | .tagRemove _ _ | .disturbTags _ => True

instance (digests : Digests Content) (projectId : String) (disk : Disk Content) :
    DecidablePred (Completes digests projectId disk)
  | .archive _ _ => inferInstanceAs (Decidable (_ = true ∧ _ = true))
  | .fetchOffloaded _ _ | .rotate _ _ _ | .gc _ _ _ => inferInstanceAs (Decidable (_ = true))
  | .lookup _ _ => inferInstanceAs (Decidable False)
  | .tagAdd _ _ _ | .tagRemove _ _ | .disturbTags _ => inferInstanceAs (Decidable True)

theorem mirrors_apply (mirrors : Mirrors projectId disk) {action : Action Content}
    (completes : Completes digests projectId disk action) :
    Mirrors projectId (apply digests projectId disk action) := by
  have retagged : ∀ after, SameButTags disk after → Mirrors projectId after := by
    rintro after ⟨tags, rfl⟩
    exact mirrors.of_objects rfl rfl fun _ _ => id
  cases action with
  | archive call file =>
    exact (((mirrors_archives completes.1).ensures mirrors mirrors.loads call.listing call.config
      call.nowMs).split (fun _ _ => trivial) call.faults).2 completes.2
  | lookup call key => exact absurd completes id
  | fetchOffloaded call key =>
    exact (((mirrors_fetches key).ensures mirrors mirrors.loads call.listing call.config).split
      (fun _ _ => trivial) call.faults).2 completes
  | rotate call keep dryRun =>
    refine (((ensures_rotate_with mirrors.loads mirrors_rotates (fun _ => mirrors) call.listing
      dryRun call.nowMs).weaken ?_ fun _ _ => trivial).split (fun _ _ => trivial)
      call.faults).2 completes
    rintro _ after ⟨_, _, _, held⟩
    exact held
  | gc call keep purging =>
    exact ((mirrors_gc mirrors call.listing call.config keep purging call.nowMs).split
      (fun _ _ => trivial) call.faults).2 completes
  | tagAdd call name pins =>
    exact retagged _ (apply_effect digests projectId mirrors.loads (.tagAdd call name pins))
  | tagRemove call name =>
    exact retagged _ (apply_effect digests projectId mirrors.loads (.tagRemove call name))
  | disturbTags tags => exact retagged _ ⟨tags, rfl⟩

/-- After any sequence of calls that returned, rebuilding the index from the sidecars, in
whatever order they are listed, gives the entries of the saved index. -/
theorem sidecars_rebuild_index (digests : Digests Content) (projectId : String) (tags : TagsDir)
    (stores : Place → String → Option Content) (disk : Disk Content)
    (run : Run (system digests projectId) (Completes digests projectId)
      (Disk.fresh tags stores) disk) (listing : Listing) :
    ∃ rebuilt, (rebuildFromSidecars listing projectId).outcome disk [] = .done rebuilt ∧
      ∀ key, rebuilt.get key = (disk.saved projectId).get key := by
  have mirrors : Mirrors projectId disk :=
    run.invariant (Mirrors projectId) (mirrors_fresh tags stores)
      fun before action _ completes held => mirrors_apply held completes
  exact ⟨_, congrArg Prod.fst (passes_rebuildFromSidecars listing).yields,
    mirrors.rebuilt listing⟩

/-- Two versions of one content, one of them moved away. -/
def movingShared : List (Action Unit) :=
  [.archive (sampleCall 1) (sampleFile "a.bin"), .archive (sampleCall 1) (sampleFile "b.bin"),
    .rotate (sampleCall 2) [("b.bin", 1)] false]

/-- The saved index has an entry that was moved, and the rebuilt one has it too. -/
theorem moved_version_rebuilt :
    ∃ rebuilt entry, (rebuildFromSidecars .plain "p").outcome
        (movingShared.foldl (apply sampleDigests "p") sampleStart) [] = .done rebuilt ∧
      rebuilt.get ("a.bin", 1) = some entry ∧ entry.offloaded ≠ none := by
  obtain ⟨rebuilt, returned, same⟩ := sidecars_rebuild_index sampleDigests "p" .missing
    (fun _ _ => none) _ (Run.follow movingShared .start
      ⟨trivial, by decide +kernel, trivial, by decide +kernel, trivial, by decide +kernel, trivial⟩)
    .plain
  have saved : ((movingShared.foldl (apply sampleDigests "p") sampleStart).saved "p").get
      ("a.bin", 1) = some ⟨emptyHash, 0, 0, 1, "peer", "published",
        some ⟨"local_path", sampleProjectHash ++ "/" ++ emptyHash,
          some (.localPath "/mnt/a")⟩⟩ := by
    decide +kernel
  exact ⟨rebuilt, _, returned, (same _).trans saved, by simp⟩

end Synergos.HistoryRebuild
