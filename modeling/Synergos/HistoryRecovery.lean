import Mathlib.Data.Set.Function
import Synergos.HistoryWorld

/-!
# Recoverability of history

An entry of the saved index is recoverable if its content is in the store, or in the
external store that the entry records. Moving a version away and fetching it back
both delete one of the two copies, and several versions may share one content.

Fetching deletes the external copy before the index is saved. If it stops in between,
the entry still records an external object that is gone and depends on the local
copy, which rotation of a sibling version to another place does not count as a
reference. The result about runs therefore asks, where rotation runs, that the
versions recorded at other places are still held there.
-/

namespace Synergos.HistoryRecovery

open Faults Faults.Program HistoryFiles HistoryTags HistoryRetention HistoryStore HistorySteps
open HistoryWorld Runs HistoryIndex

variable {Content : Type}

section Recovery

variable (digests : Digests Content) (projectId : String)

/-- The external store that the entry records holds its content. -/
def HeldAway (disk : Disk Content) (entry : IndexEntry) : Prop :=
  ∃ offloaded config content, entry.offloaded = some offloaded ∧ offloaded.config = some config ∧
    disk.stores config.place offloaded.key = some content ∧
    genuine digests entry.hash entry.size entry.crc content = true

/-- Every entry of the saved index can be recovered. -/
def Recoverable (disk : Disk Content) : Prop :=
  ∀ key entry, (disk.saved projectId).get key = some entry →
    Kept digests disk entry.hash entry.size entry.crc ∨ HeldAway digests disk entry

/-- The record of an offloaded entry is one that rotation writes. -/
def RecordedBy (configs : Set RotationBackendConfig) (entry : IndexEntry)
    (offloaded : OffloadedRef) : Prop :=
  offloaded.key = objectKey digests projectId entry.hash ∧ ∃ config ∈ configs,
    offloaded.config = some config ∧ offloaded.backend = backendName config

/-- What every call keeps. -/
structure Sound (configs : Set RotationBackendConfig) (disk : Disk Content) : Prop where
  loads : disk.Loads projectId
  addressed : ∀ hash content, disk.objects.lookup hash = some content →
    digests.blake3 content = hash
  recorded : ∀ key entry offloaded, (disk.saved projectId).get key = some entry →
    entry.offloaded = some offloaded → RecordedBy digests projectId configs entry offloaded
  recoverable : Recoverable digests projectId disk

/-- Versions recorded at other places are held there. -/
def OthersHeld (config : RotationBackendConfig) (disk : Disk Content) : Prop :=
  ∀ key entry offloaded other, (disk.saved projectId).get key = some entry →
    entry.offloaded = some offloaded → offloaded.config = some other → other ≠ config →
    HeldAway digests disk entry

end Recovery

section Steps

variable {digests : Digests Content} {projectId : String} {configs : Set RotationBackendConfig}
  {disk after : Disk Content}

theorem sound_fresh (tags : TagsDir) (stores : Place → String → Option Content) :
    Sound digests projectId configs (Disk.fresh tags stores) where
  loads := loads_fresh projectId tags stores
  addressed := by simp [Disk.fresh]
  recorded := by simp [Disk.fresh, Disk.saved]
  recoverable := fun key entry found => by simp [Disk.fresh, Disk.saved] at found

/-- Contents with the digests of one entry are equal. -/
theorem genuine_unique (collisionFree : Function.Injective digests.blake3) {hash : String}
    {size : UInt64} {crc : UInt32} {content other : Content}
    (right : genuine digests hash size crc content = true)
    (same : digests.blake3 other = hash) : other = content :=
  collisionFree (same.trans (genuine_hash digests right).symm)

variable {other : String} {key : Key} {entry : IndexEntry}

section

variable (collisionFree : Function.Injective digests.blake3)

include collisionFree

/-- A recoverable entry has a content, and every content with its hash is that one. -/
theorem Recoverable.genuine (recoverable : Recoverable digests projectId disk)
    (found : (disk.saved projectId).get key = some entry) {content : Content}
    (same : digests.blake3 content = entry.hash) :
    HistoryStore.genuine digests entry.hash entry.size entry.crc content = true := by
  rcases recoverable key entry found with ⟨held, _, right⟩ | ⟨_, _, held, _, _, _, right⟩
  · rw [genuine_unique collisionFree right same]
    exact right
  · rw [genuine_unique collisionFree right same]
    exact right

/-- An object put in place keeps what was recoverable. -/
theorem Sound.withObject (sound : Sound digests projectId configs disk) (content : Content) :
    Sound digests projectId configs (disk.withObject (digests.blake3 content) content) where
  loads := ⟨sound.loads.readable, sound.loads.sound⟩
  addressed := by
    intro hash other held
    by_cases same : hash = digests.blake3 content
    · rw [same] at held ⊢
      rw [Disk.withObject, AList.lookup_insert] at held
      rw [Option.some.inj held]
    · rw [Disk.withObject, AList.lookup_insert_ne same] at held
      exact sound.addressed hash other held
  recorded := sound.recorded
  recoverable := by
    intro key entry found
    by_cases same : entry.hash = digests.blake3 content
    · have right := sound.recoverable.genuine collisionFree found same.symm
      exact .inl ⟨content, by rw [same, Disk.withObject, AList.lookup_insert], right⟩
    · rcases sound.recoverable key entry found with ⟨held, present, right⟩ | away
      · refine .inl ⟨held, ?_, right⟩
        rw [Disk.withObject, AList.lookup_insert_ne same]
        exact present
      · exact .inr away

omit collisionFree in
/-- A local entry whose object is in the store may be entered. -/
theorem Sound.enter (sound : Sound digests projectId configs disk)
    (validKey : isValidKey key = true) (here : entry.offloaded = none)
    (kept : Kept digests disk entry.hash entry.size entry.crc) :
    Sound digests projectId configs
      (disk.withIndex ((disk.saved projectId).insert key entry)) where
  loads := ⟨by simp [Disk.withIndex], sound.loads.sound.insert validKey kept.validHash⟩
  addressed := sound.addressed
  recorded := by
    intro other old offloaded found
    refine forall_insert (fun away => ?_) (fun other old _ found =>
      sound.recorded other old offloaded found) other old found
    simp [here] at away
  recoverable := forall_insert (.inl kept) fun other old _ =>
    sound.recoverable other old

theorem sound_archive {mayReplace : IndexEntry → Prop} (validKey : isValidKey key = true)
    (step : ArchiveStep digests projectId key mayReplace disk after)
    (sound : Sound digests projectId configs disk) : Sound digests projectId configs after := by
  cases step with
  | sidecars =>
    exact ⟨⟨sound.loads.readable, sound.loads.sound⟩, sound.addressed, sound.recorded,
      sound.recoverable⟩
  | object content => exact sound.withObject collisionFree content
  | enter entry here kept replaces => exact sound.enter validKey here kept

omit collisionFree in
/-- The external object of a fetched version may be deleted: no other version that
records it relies on it. -/
theorem Sound.delete (distinct : Set.InjOn RotationBackendConfig.place configs)
    (sound : Sound digests projectId configs disk) {offloaded : OffloadedRef} {place : Place}
    (away : Away digests projectId key disk entry offloaded place)
    (kept : Kept digests disk entry.hash entry.size entry.crc)
    (alone : hasOtherReference (disk.saved projectId) key offloaded = false) :
    Recoverable digests projectId (disk.withoutStored place offloaded.key) := by
  obtain ⟨_, config, configured, recorded, backend⟩ :=
    sound.recorded key entry offloaded away.found away.away
  intro other old found
  change (disk.saved projectId).get other = some old at found
  rcases sound.recoverable other old found with here | ⟨itsRef, itsConfig, content, itsAway,
    itsRecorded, held, right⟩
  · exact .inl here
  obtain rfl | itself := eq_or_ne other key
  · rw [away.found] at found
    cases found
    exact .inl kept
  refine .inr ⟨itsRef, itsConfig, content, itsAway, itsRecorded, ?_, right⟩
  have elsewhere : ¬ (itsConfig.place = place ∧ itsRef.key = offloaded.key) := by
    rintro ⟨samePlace, sameKey⟩
    obtain ⟨_, named, isConfigured, itsName, itsBackend⟩ :=
      sound.recorded other old itsRef found itsAway
    rw [itsRecorded] at itsName
    cases itsName
    have sameConfig : itsConfig = config :=
      distinct isConfigured configured (samePlace.trans (away.placed config recorded).symm)
    have shared : hasOtherReference (disk.saved projectId) key offloaded = true := by
      refine List.any_eq_true.mpr ⟨(other, old), mem_iterAll.mpr found, ?_⟩
      simp [itself, itsAway, sameKey, itsRecorded, recorded, itsBackend, backend, sameConfig]
    simp [alone] at shared
  simpa [Disk.withoutStored, Disk.withStored, elsewhere] using held

theorem sound_fetch (distinct : Set.InjOn RotationBackendConfig.place configs)
    (step : FetchStep digests projectId key disk after)
    (sound : Sound digests projectId configs disk) : Sound digests projectId configs after := by
  cases step with
  | sidecars =>
    exact ⟨⟨sound.loads.readable, sound.loads.sound⟩, sound.addressed, sound.recorded,
      sound.recoverable⟩
  | object content => exact sound.withObject collisionFree content
  | delete entry offloaded place away kept alone =>
    exact ⟨⟨sound.loads.readable, sound.loads.sound⟩, sound.addressed, sound.recorded,
      sound.delete distinct away kept alone⟩
  | restore entry offloaded place away kept freed =>
    exact sound.enter (sound.loads.sound.valid key entry away.found).1 rfl kept

omit collisionFree in
theorem objectKey_inj {hash : String}
    (same : objectKey digests projectId hash = objectKey digests projectId other) :
    hash = other := by
  unfold objectKey at same
  exact (String.append_right_inj _).mp same

/-- An upload puts the content that is already there, if anything is recorded there. -/
theorem HeldAway.upload (sound : Sound digests projectId configs disk)
    (found : (disk.saved projectId).get key = some entry) (held : HeldAway digests disk entry)
    {place : Place} {hash : String} {content : Content}
    (object : disk.objects.lookup hash = some content) :
    HeldAway digests
      (disk.withStored place (objectKey digests projectId hash) (some content)) entry := by
  obtain ⟨offloaded, config, stored, away, recorded, present, right⟩ := held
  refine ⟨offloaded, config, ?_⟩
  by_cases here : config.place = place ∧ offloaded.key = objectKey digests projectId hash
  · have sameHash : entry.hash = hash :=
      objectKey_inj ((sound.recorded key entry offloaded found away).1.symm.trans here.2)
    have same : content = stored :=
      genuine_unique collisionFree right ((sound.addressed hash content object).trans
        sameHash.symm)
    exact ⟨stored, away, recorded, by simp [Disk.withStored, here, same], right⟩
  · exact ⟨stored, away, recorded, by simpa [Disk.withStored, here] using present, right⟩

end

theorem addressed_withoutObject {hash : String}
    (addressed : ∀ hash content, disk.objects.lookup hash = some content →
      digests.blake3 content = hash) (other : String) (content : Content)
    (held : (disk.withoutObject hash).objects.lookup other = some content) :
    digests.blake3 content = other := by
  by_cases same : other = hash
  · rw [same, Disk.withoutObject, AList.lookup_erase] at held
    cases held
  · rw [Disk.withoutObject, AList.lookup_erase_ne same] at held
    exact addressed other content held

/-- Removing the object of another hash. -/
theorem kept_withoutObject {hash : String} {size : UInt64} {crc : UInt32}
    (different : hash ≠ other) (kept : Kept digests disk hash size crc) :
    Kept digests (disk.withoutObject other) hash size crc := by
  obtain ⟨content, held, right⟩ := kept
  exact ⟨content, (AList.lookup_erase_ne different).trans held, right⟩

/-- What rotation to a place keeps. -/
structure Rotated (digests : Digests Content) (projectId : String)
    (configs : Set RotationBackendConfig) (config : RotationBackendConfig)
    (disk : Disk Content) : Prop extends Sound digests projectId configs disk where
  othersHeld : OthersHeld digests projectId config disk

section

variable (collisionFree : Function.Injective digests.blake3)

include collisionFree

theorem Rotated.upload {config : RotationBackendConfig}
    (rotated : Rotated digests projectId configs config disk)
    {hash : String} {content : Content} (object : disk.objects.lookup hash = some content) :
    Rotated digests projectId configs config
      (disk.withStored config.place (objectKey digests projectId hash) (some content)) where
  loads := ⟨rotated.loads.readable, rotated.loads.sound⟩
  addressed := rotated.addressed
  recorded := rotated.recorded
  recoverable := by
    intro key entry found
    rcases rotated.recoverable key entry found with here | held
    · exact .inl here
    · exact .inr (held.upload collisionFree rotated.toSound found object)
  othersHeld := by
    intro key entry offloaded other found away recorded different
    exact (rotated.othersHeld key entry offloaded other found away recorded different).upload
      collisionFree rotated.toSound found object

omit collisionFree in
theorem Rotated.record {config : RotationBackendConfig} (configured : config ∈ configs)
    (rotated : Rotated digests projectId configs config disk) {content : Content}
    (found : (disk.saved projectId).get key = some entry)
    (held : disk.stores config.place (objectKey digests projectId entry.hash) = some content)
    (right : genuine digests entry.hash entry.size entry.crc content = true) :
    Rotated digests projectId configs config
      { disk.withIndex ((disk.saved projectId).insert key
          (moved config (objectKey digests projectId entry.hash) entry)) with
        recorded := (config.place, objectKey digests projectId entry.hash) :: disk.recorded } := by
  obtain ⟨validKey, validHash⟩ := rotated.loads.sound.valid key entry found
  have heldAway : HeldAway digests disk
      (moved config (objectKey digests projectId entry.hash) entry) :=
    ⟨_, config, content, rfl, rfl, held, right⟩
  refine ⟨⟨⟨by simp [Disk.withIndex], rotated.loads.sound.insert validKey validHash⟩,
    rotated.addressed, ?_, ?_⟩, ?_⟩
  · intro other old offloaded present
    refine forall_insert ?_ (fun other old _ found =>
      rotated.recorded other old offloaded found) other old present
    rintro ⟨⟩
    exact ⟨rfl, config, configured, rfl, rfl⟩
  · exact forall_insert (.inr heldAway) fun other old _ =>
      rotated.recoverable other old
  · intro other old offloaded itsConfig present
    exact forall_insert (fun _ _ _ => heldAway) (fun other old _ found =>
      rotated.othersHeld other old offloaded itsConfig found) other old present

/-- The local copy may go: every version of the content is held away. -/
theorem Rotated.drop {config : RotationBackendConfig}
    (rotated : Rotated digests projectId configs config disk) {hash : String} {content : Content}
    (unused : hasLocalReference (disk.saved projectId) hash = false)
    (held : disk.stores config.place (objectKey digests projectId hash) = some content)
    (right : digests.blake3 content = hash) :
    Rotated digests projectId configs config (disk.withoutObject hash) where
  loads := ⟨rotated.loads.readable, rotated.loads.sound⟩
  addressed := addressed_withoutObject rotated.addressed
  recorded := rotated.recorded
  recoverable := by
    intro key entry found
    change (disk.saved projectId).get key = some entry at found
    by_cases same : entry.hash = hash
    · cases away : entry.offloaded with
      | none =>
        have used : hasLocalReference (disk.saved projectId) hash = true :=
          List.any_eq_true.mpr ⟨(key, entry), mem_iterAll.mpr found, by
            simp [same, away]⟩
        simp [unused] at used
      | some offloaded =>
        obtain ⟨itsKey, itsConfig, _, recorded, _⟩ :=
          rotated.recorded key entry offloaded found away
        by_cases current : itsConfig = config
        · have genuinely := rotated.recoverable.genuine collisionFree found (right.trans same.symm)
          rw [current] at recorded
          exact .inr ⟨offloaded, config, content, away, recorded, by rw [itsKey, same]; exact held,
            genuinely⟩
        · exact .inr (rotated.othersHeld key entry offloaded itsConfig found away recorded current)
    · exact (rotated.recoverable key entry found).imp (kept_withoutObject same) id
  othersHeld := rotated.othersHeld

theorem rotated_step {config : RotationBackendConfig} (configured : config ∈ configs)
    {guarded : List Key} (step : RotateStep digests projectId config guarded disk after)
    (rotated : Rotated digests projectId configs config disk) :
    Rotated digests projectId configs config after := by
  cases step with
  | sidecars =>
    exact ⟨⟨⟨rotated.loads.readable, rotated.loads.sound⟩, rotated.addressed, rotated.recorded,
      rotated.recoverable⟩, rotated.othersHeld⟩
  | upload hash content object => exact rotated.upload collisionFree object
  | record key entry content free found here held right =>
    exact rotated.record configured found held right
  | drop hash content unused held right => exact rotated.drop collisionFree unused held right

end

theorem sound_sweep {guarded : List Key} (step : SweepStep projectId guarded disk after)
    (sound : Sound digests projectId configs disk) : Sound digests projectId configs after := by
  have loads := step.loads sound.loads
  cases step with
  | sidecars => exact ⟨loads, sound.addressed, sound.recorded, sound.recoverable⟩
  | shrink index format project subset keeps =>
    exact ⟨loads, sound.addressed,
      fun key entry offloaded found => sound.recorded key entry offloaded (subset key entry found),
      fun key entry found => sound.recoverable key entry (subset key entry found)⟩
  | drop hash unused =>
    refine ⟨loads, addressed_withoutObject sound.addressed, sound.recorded, ?_⟩
    intro key entry found
    have different : entry.hash ≠ hash := fun same =>
      unused (mem_referencedHashes.mpr ⟨key, entry, found, same⟩)
    exact (sound.recoverable key entry found).imp (kept_withoutObject different) id

end Steps

/-- Rotation is always to one of the given configurations. -/
def UsesConfigs (configs : Set RotationBackendConfig) : Action Content → Prop
  | .rotate call _ _ => call.config.rotation.backend ∈ configs
  | _ => True

/-- What keeps history recoverable: archiving takes only valid paths and versions, and
where rotation runs, versions recorded under another configuration are still held there. -/
def KeepsHistory (digests : Digests Content) (projectId : String) (disk : Disk Content) :
    Action Content → Prop
  | .archive _ file => isValidKey file.key = true
  | .rotate call _ _ => OthersHeld digests projectId call.config.rotation.backend disk
  | _ => True

theorem sound_apply {digests : Digests Content} {projectId : String}
    {configs : Set RotationBackendConfig} {disk : Disk Content} {action : Action Content}
    (collisionFree : Function.Injective digests.blake3)
    (distinct : Set.InjOn RotationBackendConfig.place configs)
    (uses : UsesConfigs configs action) (keeps : KeepsHistory digests projectId disk action)
    (sound : Sound digests projectId configs disk) :
    Sound digests projectId configs (apply digests projectId disk action) := by
  have effect := apply_effect digests projectId sound.loads action
  cases action with
  | rotate call keep dryRun =>
    rcases effect with same | ⟨_, guarded, _, steps⟩
    · rw [same]
      exact sound
    · exact (chain_keeps _ (fun before next step => rotated_step collisionFree uses step) steps
        ⟨sound, keeps⟩).toSound
  | archive call file =>
    exact chain_keeps (Sound digests projectId configs)
      (fun before next step => sound_archive collisionFree keeps step) effect sound
  | _ =>
    refine effect_keeps digests projectId (Sound digests projectId configs) effect ?_
      (fun key before next step => sound_fetch collisionFree distinct step) ?_
      (fun guarded before next step => sound_sweep step) ?_ sound
    · intro call file impossible
      cases impossible
    · intro call keep dryRun impossible
      cases impossible
    · intro before tags held
      exact ⟨⟨held.loads.readable, held.loads.sound⟩, held.addressed, held.recorded,
        held.recoverable⟩

/-- In every run that keeps to the condition, whatever fails and wherever the process
stops, every entry of the saved index is recoverable. -/
theorem history_recoverable (digests : Digests Content) (projectId : String)
    (configs : Set RotationBackendConfig) (collisionFree : Function.Injective digests.blake3)
    (distinct : Set.InjOn RotationBackendConfig.place configs)
    (tags : TagsDir) (stores : Place → String → Option Content) (disk : Disk Content)
    (run : Run (system digests projectId)
      (fun disk action => UsesConfigs configs action ∧ KeepsHistory digests projectId disk action)
      (Disk.fresh tags stores) disk) :
    Recoverable digests projectId disk := by
  refine (run.invariant (Sound digests projectId configs) (sound_fresh tags stores) ?_).recoverable
  rintro before action _ ⟨uses, keeps⟩ sound
  exact sound_apply collisionFree distinct uses keeps sound

/-- Nothing is recorded anywhere else while every version is local. -/
theorem othersHeld_of_local {digests : Digests Content} {projectId : String}
    {config : RotationBackendConfig} {disk : Disk Content}
    (allLocal : (disk.saved projectId).iterAll.all (fun item => item.2.offloaded.isNone) = true) :
    OthersHeld digests projectId config disk := by
  intro key entry offloaded other found away
  have here := List.all_eq_true.mp allLocal (key, entry) (mem_iterAll.mpr found)
  simp [away] at here

/-- The configurations of a run that moves a version to one place. -/
def movingConfigs : Set RotationBackendConfig := {.localPath "/mnt/a"}

/-- A version that was archived and moved is recoverable. -/
theorem moved_version_recoverable :
    ((moving.foldl (apply sampleDigests "p") sampleStart).saved "p").get ("a.bin", 1) ≠ none ∧
    Recoverable sampleDigests "p" (moving.foldl (apply sampleDigests "p") sampleStart) := by
  refine ⟨by decide +kernel, history_recoverable sampleDigests "p" movingConfigs
    (fun _ _ _ => rfl) (Set.injOn_singleton _ _) .missing (fun _ _ => none) _
    (Run.follow moving .start ?_)⟩
  exact ⟨trivial, ⟨trivial, (by decide +kernel : isValidKey ("a.bin", 1) = true)⟩, trivial,
    ⟨rfl, othersHeld_of_local (by decide +kernel)⟩, trivial⟩

/-! ### A fetch that stops half way -/

/-- The call that stops after so many steps. -/
def crashingCall (steps : Nat) : Call :=
  ⟨sampleConfig "/mnt/a", .plain, 4, List.replicate steps Fault.none ++ [.crash]⟩

/-- Two versions share one content. The first is moved to one place, its fetch stops after
the external object is deleted, and the second is moved to another place. -/
def losing : List (Action Unit) :=
  [.archive (sampleCall 1) (sampleFile "a.bin"), .archive (sampleCall 1) (sampleFile "b.bin"),
    .rotate (sampleCall 2) [("b.bin", 1)] false, .fetchOffloaded (crashingCall 7) ("a.bin", 1),
    .rotate ⟨sampleConfig "/mnt/b", .plain, 5, []⟩ [] false]

/-- The disk after these calls. -/
def lostDisk : Disk Unit := losing.foldl (apply sampleDigests "p") sampleStart

/-- What the index says about the first version. -/
def lostRef : OffloadedRef :=
  ⟨"local_path", sampleProjectHash ++ "/" ++ emptyHash, some (.localPath "/mnt/a")⟩

def lostEntry : IndexEntry := ⟨emptyHash, 0, 0, 1, "peer", "published", some lostRef⟩

/-- An entry of which both copies are gone. -/
theorem not_recoverable {digests : Digests Content} {projectId : String} {disk : Disk Content}
    {key : Key} {entry : IndexEntry} {offloaded : OffloadedRef} {config : RotationBackendConfig}
    (found : (disk.saved projectId).get key = some entry)
    (away : entry.offloaded = some offloaded) (recorded : offloaded.config = some config)
    (object : disk.objects.lookup entry.hash = none)
    (external : disk.stores config.place offloaded.key = none) :
    ¬ Recoverable digests projectId disk := by
  intro recoverable
  rcases recoverable key entry found with ⟨content, held, _⟩ |
    ⟨itsRef, itsConfig, content, itsAway, itsRecorded, held, _⟩
  · simp [object] at held
  · rw [away] at itsAway
    cases itsAway
    rw [recorded] at itsRecorded
    cases itsRecorded
    simp [external] at held

/-- The entry of the first version names an external object that is gone, and its content
is not in the store. -/
theorem lostDisk_content :
    (lostDisk.saved "p").get ("a.bin", 1) = some lostEntry ∧
    lostDisk.objects.lookup lostEntry.hash = none ∧
    lostDisk.stores (RotationBackendConfig.localPath "/mnt/a").place lostRef.key = none := by
  decide +kernel

theorem interrupted_fetch_loses_history :
    Function.Injective sampleDigests.blake3 ∧
    Set.InjOn RotationBackendConfig.place
      {RotationBackendConfig.localPath "/mnt/a", RotationBackendConfig.localPath "/mnt/b"} ∧
    Reaches (system sampleDigests "p") sampleStart lostDisk ∧
    ¬ Recoverable sampleDigests "p" lostDisk := by
  refine ⟨fun _ _ _ => rfl, ?_, Run.follow losing .start ?_, ?_⟩
  · rintro left (rfl | rfl) right (rfl | rfl) same
    · rfl
    · exact absurd same (by decide)
    · exact absurd same (by decide)
    · rfl
  · exact ⟨trivial, trivial, trivial, trivial, trivial, trivial, trivial, trivial, trivial, trivial,
      trivial⟩
  · obtain ⟨found, object, external⟩ := lostDisk_content
    exact not_recoverable found rfl rfl object external

end Synergos.HistoryRecovery
