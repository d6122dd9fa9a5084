import Synergos.FaultRuns
import Synergos.HistoryRebuild

/-!
# When archiving changes nothing

A version whose content is in the store under the hash the index has for it can be
archived again without a change to the index or the objects, whatever fails on the
way. There are also versions that archiving refuses before it writes either: the
store cannot be opened, the index belongs to another project, or the index has
another content for the version. In every other case some failure leaves a changed
index or a new object behind.
-/

namespace Synergos.HistoryArchive

open Faults Faults.Program FaultRuns HistoryFiles HistoryTags HistoryStore HistorySteps
open HistoryRebuild

variable {Content : Type}

/-- The settings of the store are accepted. -/
def Opens (config : HistoryConfig) : Prop :=
  ¬ (config.enabled = true ∧ config.projects = []) ∧
    (config.rotation.enabled = true → config.rotation.backend.validate = .ok ())

/-- The index was written for another project or in another format. -/
def Foreign (projectId : String) (disk : Disk Content) : Prop :=
  ∃ index, disk.index = some (.holds index) ∧ (index.format ≠ 1 ∨ index.projectId ≠ projectId)

/-- The sidecar of a hash cannot be read. -/
def Spoilt (disk : Disk Content) (hash : String) : Prop :=
  disk.sidecars.lookup hash = some .garbled

section Archiving

variable (digests : Digests Content) (projectId : String)

/-- The index has another content for the version. -/
def Contradicted (disk : Disk Content) (file : Submission Content) : Prop :=
  ∃ entry, (disk.saved projectId).get file.key = some entry ∧
    entry.hash ≠ digests.blake3 file.content

/-- Archiving the version leaves the index and the objects alone. -/
def Quiet (config : HistoryConfig) (disk : Disk Content) (file : Submission Content) : Prop :=
  config.covers projectId = true → Opens config → ¬ Foreign projectId disk →
    disk.Loads projectId ∧ (Contradicted digests projectId disk file ∨
      (Kept digests disk (digests.blake3 file.content) file.size file.crc ∧
        (((disk.saved projectId).get file.key).isSome = true ∨
          Spoilt disk (digests.blake3 file.content))))

/-- A version that archiving leaves alone is refused. -/
def Stops (config : HistoryConfig) (disk : Disk Content) (file : Submission Content) : Prop :=
  config.covers projectId = true ∧ (¬ Opens config ∨ Foreign projectId disk ∨
    Contradicted digests projectId disk file ∨ Spoilt disk (digests.blake3 file.content))

/-- Index and objects are the same, and so are the sidecars that cannot be read. -/
structure SameStore (disk after : Disk Content) : Prop where
  index : after.index = disk.index
  objects : after.objects = disk.objects
  spoilt : ∀ hash, Spoilt after hash ↔ Spoilt disk hash

theorem SameStore.refl (disk : Disk Content) : SameStore disk disk :=
  ⟨rfl, rfl, fun _ => Iff.rfl⟩

variable {digests projectId} {config : HistoryConfig} {disk : Disk Content}
  {file : Submission Content} {listing : Listing} {nowMs : UInt64}

section

variable {after : Disk Content} (same : SameStore disk after)

include same

theorem SameStore.saved :
    after.saved projectId = disk.saved projectId := by
  unfold Disk.saved
  rw [same.index]

theorem SameStore.foreign :
    Foreign projectId after ↔ Foreign projectId disk := by
  unfold Foreign
  rw [same.index]

theorem SameStore.contradicted :
    Contradicted digests projectId after file ↔ Contradicted digests projectId disk file := by
  unfold Contradicted
  rw [same.saved]

theorem SameStore.loads :
    after.Loads projectId ↔ disk.Loads projectId := by
  constructor
  · rintro ⟨readable, sound⟩
    exact ⟨same.index ▸ readable, same.saved ▸ sound⟩
  · rintro ⟨readable, sound⟩
    exact ⟨same.index ▸ readable, same.saved ▸ sound⟩

theorem SameStore.quiet :
    Quiet digests projectId config after file ↔ Quiet digests projectId config disk file := by
  unfold Quiet Kept
  rw [same.foreign, same.loads, same.contradicted, same.spoilt, same.saved, same.objects]

theorem SameStore.stops :
    Stops digests projectId config after file ↔ Stops digests projectId config disk file := by
  unfold Stops
  rw [same.foreign, same.contradicted, same.spoilt]

end

/-! ### Opening the store -/

end Archiving

end Synergos.HistoryArchive
