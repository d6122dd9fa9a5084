import Mathlib
import Synergos.HistoryLeftovers
import Synergos.TakenSteps

/-!
# What collection leaves of interrupted operations

Collection removes the objects that no version names, with their sidecars, and the
temporary files whose names it knows. It does not look for the files that rotation
downloads to check an upload, nor for those that fetching downloads, and it keeps an
object that only offloaded versions name: after an interrupted fetch that object may be
the last copy.

A removal that fails is ignored, so that what is left is said of collections in which no
step is refused. The size of a temporary file, which is added to the bytes freed, is left
out.
-/

namespace Synergos.HistoryCollection

open Faults Faults.Program FaultRuns TakenSteps
open HistoryFiles HistoryTags HistoryRetention HistoryStore HistorySteps HistoryWorld
open HistoryLeftovers Runs List HistoryIndex

variable {Content : Type}

/-! ### The sweep of temporary files -/

def startsWith (name start : String) : Bool := start.toList.isPrefixOf name.toList

def endsWith (name ending : String) : Bool := ending.toList.isSuffixOf name.toList

def contains (name part : String) : Bool := decide (part.toList <:+: name.toList)

section Collecting

variable {digests : Digests Content} {projectId : String} {disk : Disk Content}

variable {index : HistoryIndex} (listing : Listing) (config : HistoryConfig) (report : GcReport)
  (version : Key × String)

/-- The records of some versions were removed since the index was saved. -/
structure Trimmed (start : Disk Content) (index : HistoryIndex) (taken : List (Key × String))
    (disk : Disk Content) : Prop where
  saved : disk.index = some (.holds index)
  objects : disk.objects = start.objects
  sidecars : ∀ hash, hash ∈ disk.sidecars → hash ∈ start.sidecars
  refs : ∀ hash reference, reference ∈ disk.refsAt hash ↔
    reference ∈ start.refsAt hash ∧ (reference.key, hash) ∉ taken

theorem mem_sidecars_withoutRef {hash other : String} {key : Key}
    (member : other ∈ (disk.withoutRef hash key).sidecars) : other ∈ disk.sidecars := by
  unfold Disk.withoutRef at member
  split at member
  next old present =>
    split_ifs at member
    · exact (AList.mem_erase.mp member).2
    · rcases (AList.mem_insert _).mp member with rfl | kept
      · exact AList.lookup_isSome.mp (by simp [present])
      · exact kept
  next => exact member

theorem trimmed_removeRecord {start : Disk Content} {taken : List (Key × String)}
    (trimmed : Trimmed start index taken disk) :
    Ensures (removeRecord report version)
      (fun _ => Trimmed start index (taken ++ [version])) (fun _ => True) disk := by
  refine ensures_bind ((ensures_removeObjectRef version.2 version.1 disk).weaken ?_
    fun _ _ => trivial)
  rintro _ after rfl
  have rest := withoutRef_sidecars disk version.2 version.1
  refine ensures_pure ⟨?_, ?_, ?_, ?_⟩
  · rw [rest]
    exact trimmed.saved
  · rw [rest]
    exact trimmed.objects
  · intro hash member
    exact trimmed.sidecars hash (mem_sidecars_withoutRef member)
  · intro hash reference
    obtain ⟨key, name⟩ := version
    simp [mem_refsAt_withoutRef, trimmed.refs, and_assoc, and_comm (a := hash = name)]

end Collecting

/-! ### Temporary files -/

/-- The name is one that the sweep looks for in that directory. -/
def isStale (temporary : Temporary) : Bool :=
  match temporary.directory with
  | .store => startsWith temporary.name "index-" && endsWith temporary.name ".tmp"
  | .objects => startsWith temporary.name ".archive-" && endsWith temporary.name ".tmp"
  | .shard _ => contains temporary.name ".meta.tmp-"

theorem startsWith_append (start rest : String) : startsWith (start ++ rest) start = true := by
  simp [startsWith, String.toList_append]

variable {gone : Temporary → Prop} {action : Action Unit} {faults : List Fault}
  {depot : Depot Content} (temporary : Temporary)

/-- The temporary files of a kind are gone, and nothing else is changed. -/
structure Cleared (gone : Temporary → Prop) (depot after : Depot Content) : Prop where
  disk : after.disk = depot.disk
  left : ∀ temporary, temporary ∈ after.temporaries ↔
    temporary ∈ depot.temporaries ∧ ¬ gone temporary

theorem Cleared.trans {more : Temporary → Prop} {middle after : Depot Content}
    (first : Cleared gone depot middle) (second : Cleared more middle after) :
    Cleared (fun temporary => gone temporary ∨ more temporary) depot after where
  disk := second.disk.trans first.disk
  left := by
    intro temporary
    rw [second.left, first.left, not_or, and_assoc]

theorem Cleared.congr {same : Temporary → Prop} {after : Depot Content}
    (cleared : Cleared gone depot after)
    (agree : ∀ temporary ∈ depot.temporaries, gone temporary ↔ same temporary) :
    Cleared same depot after where
  disk := cleared.disk
  left := by
    intro temporary
    rw [cleared.left]
    exact and_congr_right fun member => not_congr (agree temporary member)

/-- Only live objects are left: those of local versions, one sidecar for each hash that a
version has, and no temporary file. -/
structure Exact (projectId : String) (depot : Depot Content) : Prop where
  objects : ∀ hash, hash ∈ depot.disk.objects ↔
    hasLocalReference (depot.disk.saved projectId) hash = true
  sidecars : ∀ hash, hash ∈ depot.disk.sidecars ↔
    hash ∈ (depot.disk.saved projectId).referencedHashes
  temporaries : depot.temporaries = []

def sampleUuid : Uuid := ⟨"0f8fad5b-d9cb-469f-a165-70867728950e", by decide⟩

theorem emptyHash_valid : isValidObjectHash emptyHash = true := by decide +kernel

def emptyObject : ObjectHash := ⟨emptyHash, emptyHash_valid⟩

/-- The process stops at a step of the call. -/
def stopping (call : Call) (step : Nat) : Call :=
  { call with faults := List.replicate step .none ++ [.crash] }

/-- Archiving stops beside its snapshot, a rotation stops while it checks the upload, and
the next one stops after it has saved the index. -/
def interrupted : List (Operation Unit) :=
  [⟨.archive (stopping (sampleCall 1) 2) (sampleFile "b.bin"), [.snapshot sampleUuid]⟩,
    ⟨.archive (sampleCall 1) (sampleFile "a.bin"), []⟩,
    ⟨.rotate (stopping (sampleCall 2) 8) [] false, [.verification emptyObject sampleUuid]⟩,
    ⟨.rotate (stopping (sampleCall 3) 13) [] false, []⟩]

end Synergos.HistoryCollection
