import Synergos.HistoryWorld

/-!
# What interrupted operations leave behind

Archiving, rotation and fetching may stop at any step. What they leave behind is an
object or a sidecar that the index does not name yet, an object whose versions are all
recorded as offloaded, or a temporary file. `Covered` is what holds at every step of
them: each version has its record and, if it is local, its object, and no sidecar is
without an object or a version.

Which temporary files an interrupted operation leaves is chosen by the environment, among
those the operation writes.
-/

namespace Synergos.HistoryLeftovers

open Faults Faults.Program
open HistoryFiles HistoryTags HistoryRetention HistoryStore HistorySteps HistoryWorld Runs List
open HistoryIndex

variable {Content : Type}

/-! ### Temporary files -/

/-- The text that makes the name of a temporary file new. -/
structure Uuid where
  text : String
  shape : text.toList.all (fun char => isHexDigit char || char == '-') = true
  deriving DecidableEq

structure ObjectHash where
  text : String
  valid : isValidObjectHash text = true
  deriving DecidableEq

/-- The temporary files that the operations write, by what they are for. -/
inductive Temporary where
  | index (uuid : Uuid)
  | snapshot (uuid : Uuid)
  | sidecar (hash : ObjectHash) (uuid : Uuid)
  /-- What came back of an upload. -/
  | verification (hash : ObjectHash) (uuid : Uuid)
  | fetched (hash : ObjectHash) (uuid : Uuid)
  deriving DecidableEq

inductive Directory where
  | store
  | objects
  | shard (name : String)
  deriving DecidableEq

/-- The directory of an object and the files beside it. -/
def ObjectHash.shard (hash : ObjectHash) : Directory :=
  .shard (String.ofList (hash.text.toList.take 2))

def Temporary.directory : Temporary → Directory
  | .index _ => .store
  | .snapshot _ => .objects
  | .sidecar hash _ | .verification hash _ | .fetched hash _ => hash.shard

def Temporary.name : Temporary → String
  | .index uuid => "index-" ++ uuid.text ++ ".tmp"
  | .snapshot uuid => ".archive-" ++ uuid.text ++ ".tmp"
  | .sidecar hash uuid => hash.text ++ ".meta.tmp-" ++ uuid.text
  | .verification hash uuid => hash.text ++ ".rotation-verify-" ++ uuid.text ++ ".tmp"
  | .fetched hash uuid => hash.text ++ ".fetch-" ++ uuid.text ++ ".tmp"

/-! ### Operations that stop -/

/-- The store of a project with the temporary files in it. -/
structure Depot (Content : Type) where
  disk : Disk Content
  temporaries : List Temporary

def Depot.fresh (tags : TagsDir) (stores : Place → String → Option Content) : Depot Content :=
  ⟨Disk.fresh tags stores, []⟩

/-- An operation and the temporary files it leaves. -/
structure Operation (Content : Type) where
  action : Action Content
  left : List Temporary

/-- The temporary files that an operation writes. -/
def writes : Action Content → Temporary → Bool
  | .archive _ _, .index _ | .archive _ _, .snapshot _ | .archive _ _, .sidecar _ _ => true
  | .rotate _ _ _, .index _ | .rotate _ _ _, .sidecar _ _ | .rotate _ _ _, .verification _ _ =>
    true
  | .fetchOffloaded _ _, .index _ | .fetchOffloaded _ _, .sidecar _ _
  | .fetchOffloaded _ _, .fetched _ _ => true
  | _, _ => false

/-- The faults of an operation that changes versions, if it is one of these. -/
def faultsOf : Action Content → Option (List Fault)
  | .archive call _ | .rotate call _ _ | .fetchOffloaded call _ => some call.faults
  | _ => none

/-- Files are left of an operation of its own kind, and only if a step met a fault. -/
structure Possible (operation : Operation Content) : Prop where
  faulted : ∃ faults, faultsOf operation.action = some faults ∧
    (operation.left ≠ [] → ∃ fault ∈ faults, fault ≠ .none)
  own : ∀ temporary ∈ operation.left, writes operation.action temporary = true

def system (digests : Digests Content) (projectId : String) :
    System (Depot Content) (Operation Content) where
  enabled := fun _ operation => Possible operation
  apply := fun depot operation =>
    ⟨HistoryWorld.apply digests projectId depot.disk operation.action,
      operation.left ++ depot.temporaries⟩

/-- Every version has its record and, if it is local, its object; no sidecar is without
an object or a version. -/
structure Covered (projectId : String) (disk : Disk Content) : Prop where
  loads : disk.Loads projectId
  listed : ∀ key entry, (disk.saved projectId).get key = some entry →
    ∃ reference ∈ disk.refsAt entry.hash, reference.key = key
  present : ∀ key entry, (disk.saved projectId).get key = some entry →
    entry.offloaded = none → entry.hash ∈ disk.objects
  attached : ∀ hash, hash ∈ disk.sidecars →
    hash ∈ disk.objects ∨ hash ∈ (disk.saved projectId).referencedHashes
  addressed : ∀ hash, hash ∈ disk.objects → isValidObjectHash hash = true

section Covering

variable {digests : Digests Content} {projectId : String} {disk after : Disk Content}

section

variable (covered : Covered projectId disk)

include covered

/-- Tags and external objects do not matter. -/
theorem Covered.of_external (index : after.index = disk.index)
    (sidecars : after.sidecars = disk.sidecars) (objects : after.objects = disk.objects) :
    Covered projectId after := by
  have saved : after.saved projectId = disk.saved projectId := by
    simp [Disk.saved, index]
  have refs : ∀ hash, after.refsAt hash = disk.refsAt hash := by
    intro hash
    simp [Disk.refsAt, sidecars]
  constructor
  · exact ⟨index ▸ covered.loads.readable, saved ▸ covered.loads.sound⟩
  · intro key entry found
    rw [refs]
    exact covered.listed key entry (saved ▸ found)
  · intro key entry found here
    rw [objects]
    exact covered.present key entry (saved ▸ found) here
  · rw [sidecars, objects, saved]
    exact covered.attached
  · rw [objects]
    exact covered.addressed

theorem Covered.withObject {hash : String} (content : Content)
    (valid : isValidObjectHash hash = true) :
    Covered projectId (disk.withObject hash content) where
  loads := ⟨covered.loads.readable, covered.loads.sound⟩
  listed := covered.listed
  present := fun key entry found here =>
    AList.mem_insert _ |>.mpr (.inr (covered.present key entry found here))
  attached := fun other member =>
    (covered.attached other member).imp_left fun kept => AList.mem_insert _ |>.mpr (.inr kept)
  addressed := by
    intro other member
    rcases (AList.mem_insert _).mp member with rfl | kept
    · exact valid
    · exact covered.addressed other kept

/-- A record may be appended for a content that is in the store or has a version. -/
theorem Covered.appended {hash : String} (reference : ObjectRef)
    (known : hash ∈ disk.objects ∨ hash ∈ (disk.saved projectId).referencedHashes) :
    Covered projectId (disk.appended projectId hash reference) where
  loads := ⟨covered.loads.readable, covered.loads.sound⟩
  listed := by
    intro key entry found
    obtain ⟨old, member, named⟩ := covered.listed key entry found
    by_cases same : entry.hash = hash
    · rw [same] at member ⊢
      rw [refsAt_appended_self]
      by_cases replaced : key = reference.key
      · exact ⟨reference, mem_append_right _ mem_cons_self, replaced.symm⟩
      · refine ⟨old, mem_append_left _ (mem_withoutKey.mpr ⟨member, ?_⟩), named⟩
        rw [named]
        exact replaced
    · rw [refsAt_appended_ne reference same]
      exact ⟨old, member, named⟩
  present := covered.present
  attached := by
    intro other member
    rcases (AList.mem_insert _).mp member with rfl | old
    · exact known
    · exact covered.attached other old
  addressed := covered.addressed

/-- A version that has its record may be entered. -/
theorem Covered.entered {key : Key} {entry : IndexEntry}
    (validKey : isValidKey key = true) (validHash : isValidObjectHash entry.hash = true)
    (recorded : ∃ reference ∈ disk.refsAt entry.hash, reference.key = key)
    (replaces : ∀ old, (disk.saved projectId).get key = some old → old.hash = entry.hash)
    (object : entry.offloaded = none → entry.hash ∈ disk.objects) :
    Covered projectId (disk.withIndex ((disk.saved projectId).insert key entry)) where
  loads := ⟨by simp [Disk.withIndex], covered.loads.sound.insert validKey validHash⟩
  listed := forall_insert recorded fun other old _ => covered.listed other old
  present := forall_insert object fun other old _ => covered.present other old
  attached := by
    intro hash member
    refine (covered.attached hash member).imp_right fun referenced => ?_
    change hash ∈ ((disk.saved projectId).insert key entry).referencedHashes
    obtain ⟨other, old, found, named⟩ := mem_referencedHashes.mp referenced
    rw [mem_referencedHashes]
    obtain rfl | same := eq_or_ne other key
    · exact ⟨other, entry, get_insert_self _ other entry,
        (replaces old found).symm.trans named⟩
    · exact ⟨other, old, (get_insert_ne _ entry same).trans found, named⟩
  addressed := covered.addressed

/-- The object of a content may go when a version names it and none is local. -/
theorem Covered.withoutObject {hash : String}
    (referenced : hash ∈ (disk.saved projectId).referencedHashes)
    (unused : hasLocalReference (disk.saved projectId) hash = false) :
    Covered projectId (disk.withoutObject hash) where
  loads := ⟨covered.loads.readable, covered.loads.sound⟩
  listed := covered.listed
  present := by
    intro key entry found here
    refine AList.mem_erase.mpr ⟨?_, covered.present key entry found here⟩
    intro same
    exact hasLocalReference_eq_false_iff.mp unused key entry found same here
  attached := by
    intro other member
    by_cases same : other = hash
    · exact .inr (same ▸ referenced)
    · exact (covered.attached other member).imp_left
        fun kept => AList.mem_erase.mpr ⟨same, kept⟩
  addressed := fun other member => covered.addressed other (AList.mem_erase.mp member).2

omit covered in
theorem mem_objects_of_kept {hash : String} {size : UInt64} {crc : UInt32}
    (kept : Kept digests disk hash size crc) :
    hash ∈ disk.objects ∧ isValidObjectHash hash = true := by
  obtain ⟨content, found, _⟩ := id kept
  exact ⟨AList.lookup_isSome.mp (by simp [found]), kept.validHash⟩

/-! ### The operations, wherever they stop -/

/-- Entering a version whose object is in the store. -/
theorem Covered.enter {key : Key} (entry : IndexEntry) (validKey : isValidKey key = true)
    (kept : Kept digests disk entry.hash entry.size entry.crc)
    (replaces : ∀ old, (disk.saved projectId).get key = some old → old.hash = entry.hash) :
    Covered projectId (disk.appended projectId entry.hash (entry.reference key)) ∧
      Covered projectId ((disk.appended projectId entry.hash (entry.reference key)).withIndex
        ((disk.saved projectId).insert key entry)) := by
  obtain ⟨object, validHash⟩ := mem_objects_of_kept kept
  have appended := covered.appended (entry.reference key) (.inl object)
  have recorded : ∃ reference ∈ (disk.appended projectId entry.hash
      (entry.reference key)).refsAt entry.hash, reference.key = key := by
    rw [refsAt_appended_self]
    exact ⟨entry.reference key, mem_append_right _ mem_cons_self, rfl⟩
  exact ⟨appended, appended.entered validKey validHash recorded replaces fun _ => object⟩

theorem Covered.record {config : RotationBackendConfig}
    {key : Key} {entry : IndexEntry} (found : (disk.saved projectId).get key = some entry) :
    Covered projectId (withRecord digests projectId config key entry disk) ∧
      Covered projectId
        (withEntry digests projectId config (disk.saved projectId) key entry disk) := by
  let away := movedEntry digests projectId config entry
  obtain ⟨validKey, validHash⟩ := covered.loads.sound.valid key entry found
  have appended : Covered projectId (withRecord digests projectId config key entry disk) :=
    covered.appended _ (.inr (mem_referencedHashes.mpr ⟨key, entry, found, rfl⟩))
  have noted : ∃ reference ∈ (withRecord digests projectId config key entry disk).refsAt
      away.hash, reference.key = key := by
    refine ⟨away.reference key, ?_, rfl⟩
    change _ ∈ (disk.appended projectId entry.hash (away.reference key)).refsAt entry.hash
    rw [refsAt_appended_self]
    exact mem_append_right _ mem_cons_self
  have replaces : ∀ old, (disk.saved projectId).get key = some old → old.hash = away.hash := by
    intro old present
    rw [found] at present
    cases present
    rfl
  have inserted : Covered projectId ((withRecord digests projectId config key entry
      disk).withIndex ((disk.saved projectId).insert key away)) :=
    appended.entered validKey validHash noted replaces
      fun here => absurd here (Option.some_ne_none _)
  exact ⟨appended, inserted.of_external rfl rfl rfl⟩

end

end Covering

end Synergos.HistoryLeftovers
