import Synergos.FaultRuns
import Synergos.HistoryWorld

/-!
# Moving versions to a store that is not trusted

An external store answers each call as it likes: it may fail, lie about what it holds,
and answer differently from one call to the next. A version is moved to it by putting
its object there, asking for it back and comparing what arrives, then by writing the
version's sidecar, saving the index and, when no version of the content is local any
more, removing the object.

The model keeps, beside the disk and whatever the store remembers, the contents that
the store has handed back.
-/

namespace Synergos.UntrustedBackend

open Faults Faults.Program FaultRuns HistoryFiles HistoryRetention HistoryStore HistorySteps List
open HistoryIndex

variable {Memory Content α : Type}

/-! ### Calls -/

/-- An external store. Each answer may depend on everything it was asked before. -/
structure Backend (Memory Content : Type) where
  put : String → Option Content → Memory → Except IoError Unit × Memory
  existsAt : String → Memory → Except IoError Bool × Memory
  size : String → Memory → Except IoError (Option UInt64) × Memory
  get : String → Memory → Except IoError Content × Memory

/-- The disk, what the store remembers, and what it has handed back under which key. -/
structure Site (Memory Content : Type) where
  disk : Disk Content
  memory : Memory
  got : List (String × Content)

def onDisk (program : Store Content α) : Program (Site Memory Content) IoError α :=
  within Site.disk (fun disk site => { site with disk := disk }) program

def ask (answer : Site Memory Content → Except IoError α × Memory) :
    Program (Site Memory Content) IoError α :=
  consult fun site => ((answer site).1, { site with memory := (answer site).2 })

/-- What a call for a content has brought. -/
def brought (key : String) : Except IoError Content → List (String × Content)
  | .ok content => [(key, content)]
  | .error _ => []

def download (backend : Backend Memory Content) (key : String) :
    Program (Site Memory Content) IoError Content :=
  consult fun site =>
    let answer := backend.get key site.memory
    (answer.1, { site with memory := answer.2, got := brought key answer.1 ++ site.got })

section Operations

variable (digests : Digests Content) (backend : Backend Memory Content)

def upload (index : HistoryIndex) (config : RotationBackendConfig) (external hash : String) :
    Program (Site Memory Content) IoError Unit := do
  unless alreadyOffloaded index config hash = true do
    ask fun site => backend.put external (site.disk.objects.lookup hash) site.memory

def checkUpload (external : String) (entry : IndexEntry) :
    Program (Site Memory Content) IoError Unit := do
  unless ← ask fun site => backend.existsAt external site.memory do
    throw ⟨.other, "object not found at backend"⟩
  match ← ask fun site => backend.size external site.memory with
  | none => throw ⟨.other, "object not found at backend"⟩
  | some size =>
    if size ≠ entry.size then
      throw ⟨.other, "expected " ++ toString entry.size ++ " bytes, backend has " ++
        toString size⟩
  let content ← download backend external
  unless ← onDisk (validateFetched digests content entry) do
    throw ⟨.other, "downloaded object failed integrity validation"⟩

/-- Move one version; a version that the store does not give back is skipped. -/
def offload (projectId : String) (config : RotationBackendConfig)
    (progress : HistoryIndex × RotationReport) (key : Key) :
    Program (Site Memory Content) IoError (HistoryIndex × RotationReport) := do
  match progress.1.get key with
  | none => return progress
  | some entry =>
    if entry.offloaded.isSome = true then return progress
    let external := objectKey digests projectId entry.hash
    match ← attempt (upload backend progress.1 config external entry.hash) with
    | .error error =>
      return (progress.1, { progress.2 with
        skipped := progress.2.skipped ++ [(key, "put failed: " ++ error.message)] })
    | .ok _ =>
    match ← attempt (checkUpload digests backend external entry) with
    | .error error =>
      return (progress.1, { progress.2 with
        skipped := progress.2.skipped ++
          [(key, "post-put verification failed: " ++ error.message)] })
    | .ok _ =>
      let index ← onDisk (settleMove digests projectId config progress.1 key entry)
      return (index, { progress.2 with
        offloaded := progress.2.offloaded ++ [key]
        bytesOffloaded := saturatingAdd progress.2.bytesOffloaded entry.size })

/-- Move the versions of a list, one after another. -/
def offloadAll (projectId : String) (config : RotationBackendConfig) (index : HistoryIndex)
    (candidates : List Key) :
    Program (Site Memory Content) IoError (HistoryIndex × RotationReport) :=
  loop (offload digests backend projectId config) (index, ⟨[], 0, candidates, []⟩) candidates

end Operations

/-! ### What a version is like during a run -/

/-- The records of a version in the sidecar of a hash. -/
def recordsOf (disk : Disk Content) (hash : String) (key : Key) : List ObjectRef :=
  (disk.refsAt hash).filter fun reference => reference.key = key

section Standing

variable (digests : Digests Content) (projectId : String) (config : RotationBackendConfig)

/-- The store has handed back the entry's content under the key it is recorded at. -/
def Verified (site : Site Memory Content) (entry : IndexEntry) : Prop :=
  ∃ content, (objectKey digests projectId entry.hash, content) ∈ site.got ∧
    genuine digests entry.hash entry.size entry.crc content = true

/-- The version's entry and its record are as they were. -/
def Same (start : Disk Content) (index : HistoryIndex) (site : Site Memory Content)
    (key : Key) : Prop :=
  (site.disk.saved projectId).get key = index.get key ∧
    ∀ entry, index.get key = some entry →
      recordsOf site.disk entry.hash key = recordsOf start entry.hash key

/-- The version is recorded as moved, after its content came back. -/
def Moved (index : HistoryIndex) (site : Site Memory Content) (key : Key) : Prop :=
  ∃ entry, index.get key = some entry ∧ entry.offloaded = none ∧
    Verified digests projectId site entry ∧
    (site.disk.saved projectId).get key = some (movedEntry digests projectId config entry) ∧
    recordsOf site.disk entry.hash key = [(movedEntry digests projectId config entry).reference key]

/-- The content came back and the entry is as it was; the record may be the new one. -/
def Interrupted (index : HistoryIndex) (site : Site Memory Content) (key : Key) : Prop :=
  ∃ entry, index.get key = some entry ∧ entry.offloaded = none ∧
    Verified digests projectId site entry ∧
    (site.disk.saved projectId).get key = some entry

/-- The object is as it was, or gone with all its versions moved and its content handed back. -/
def ObjectSafe (start : Disk Content) (index : HistoryIndex) (site : Site Memory Content)
    (hash : String) : Prop :=
  site.disk.objects.lookup hash = start.objects.lookup hash ∨
    hasLocalReference (site.disk.saved projectId) hash = false ∧
      ∃ key entry, index.get key = some entry ∧ entry.hash = hash ∧
        Moved digests projectId config index site key

/-- Where a run stands: `listed` are the versions that may have been moved, `half` those
at which it may have stopped between two writes. -/
structure Standing (start : Disk Content) (index : HistoryIndex) (listed half : Key → Prop)
    (site : Site Memory Content) : Prop where
  versions : ∀ key, Same projectId start index site key ∨
    listed key ∧ Moved digests projectId config index site key ∨
    half key ∧ Interrupted digests projectId index site key
  objects : ∀ hash, ObjectSafe digests projectId config start index site hash

end Standing

section Proofs

variable {digests : Digests Content} {backend : Backend Memory Content} {projectId : String}
variable {config : RotationBackendConfig} {site : Site Memory Content}

/-! ### Calls leave the disk alone -/

/-- Only what the store remembers and hands back has changed. -/
def Consulted (site after : Site Memory Content) : Prop :=
  after.disk = site.disk ∧ ∀ pair ∈ site.got, pair ∈ after.got

theorem Consulted.refl (site : Site Memory Content) : Consulted site site :=
  ⟨rfl, fun _ => id⟩

theorem Consulted.trans {first second third : Site Memory Content}
    (before : Consulted first second) (after : Consulted second third) : Consulted first third :=
  ⟨after.1.trans before.1, fun pair member => after.2 pair (before.2 pair member)⟩

theorem ensures_ask {answer : Site Memory Content → Except IoError α × Memory} :
    Keeps (ask answer) (Consulted site) site :=
  ensures_consult (.refl site) ⟨rfl, fun _ => id⟩
    fun _ _ => ⟨rfl, fun _ => id⟩

theorem ensures_download (key : String) :
    Ensures (download backend key)
      (fun content after => Consulted site after ∧ (key, content) ∈ after.got)
      (Consulted site) site := by
  refine ensures_consult (.refl site) ⟨rfl, fun _ member => mem_append_right _ member⟩ ?_
  intro content answered
  refine ⟨⟨rfl, fun _ member => mem_append_right _ member⟩, ?_⟩
  simp only at answered
  simp [answered, brought]

theorem ensures_upload (index : HistoryIndex) (external hash : String) :
    Keeps (upload backend index config external hash) (Consulted site) site := by
  unfold upload
  by_cases already : alreadyOffloaded index config hash = true
  · simp only [if_pos already]
    exact ensures_pure (.refl site)
  · simp only [if_neg already]
    exact ensures_ask

theorem ensures_checkUpload (entry : IndexEntry) :
    Ensures (checkUpload digests backend (objectKey digests projectId entry.hash) entry)
      (fun _ after => Consulted site after ∧ Verified digests projectId after entry)
      (Consulted site) site := by
  refine (ensures_ask).bind ?_
  intro present first askedPresent
  cases present with
  | false => exact ensures_bind (ensures_throw askedPresent)
  | true =>
    refine ensures_bind ((ensures_ask).weaken ?_ fun _ later => askedPresent.trans later)
    intro answer second askedSize
    have asked := askedPresent.trans askedSize
    cases answer with
    | none => exact ensures_bind (ensures_throw asked)
    | some size =>
      by_cases wrong : size ≠ entry.size
      · simp only [if_pos wrong]
        exact ensures_bind (ensures_throw asked)
      simp only [if_neg wrong]
      refine ensures_bind ((ensures_download _).weaken ?_ fun _ later => asked.trans later)
      rintro content third ⟨later, member⟩
      refine ensures_bind (ensures_within ((ensures_validateFetched digests content entry
        third.disk).weaken ?_ ?_))
      · rintro valid disk ⟨rfl, right⟩
        cases valid with
        | true => exact ensures_pure ⟨asked.trans later, content, member, right rfl⟩
        | false => exact ensures_throw (asked.trans later)
      · rintro disk rfl
        exact asked.trans later

/-! ### Records and references after a write -/

theorem recordsOf_appended_self (disk : Disk Content) (hash : String) (reference : ObjectRef) :
    recordsOf (disk.appended projectId hash reference) hash reference.key = [reference] := by
  have others : (withoutKey (disk.refsAt hash) reference.key).filter
      (fun other => decide (other.key = reference.key)) = [] := by
    rw [filter_eq_nil_iff]
    intro other member same
    rw [decide_eq_true_eq] at same
    exact (mem_withoutKey.mp member).2 same
  rw [recordsOf, refsAt_appended_self, filter_append, others]
  simp

theorem recordsOf_appended_ne (disk : Disk Content) (hash other : String) (reference : ObjectRef)
    {key : Key} (different : key ≠ reference.key) :
    recordsOf (disk.appended projectId hash reference) other key = recordsOf disk other key := by
  obtain rfl | same := eq_or_ne other hash
  · have last : ([reference].filter fun record => decide (record.key = key)) = [] := by
      simp [different.symm]
    rw [recordsOf, refsAt_appended_self, filter_append, last, append_nil, withoutKey, filter_filter,
      recordsOf]
    apply filter_congr
    intro record _
    by_cases its : record.key = key
    · have kept : ¬ (record.rel = reference.key.1 ∧ record.version = reference.key.2) := by
        rintro ⟨rel, version⟩
        exact different (its.symm.trans (Prod.ext rel version))
      simp [its]
      tauto
    · simp [its]
  · rw [recordsOf, refsAt_appended_ne reference same, recordsOf]

theorem unused_insert_moved {index : HistoryIndex} {hash : String} (key : Key) (entry : IndexEntry)
    (unused : hasLocalReference index hash = false) :
    hasLocalReference (index.insert key (movedEntry digests projectId config entry)) hash =
      false := by
  rw [hasLocalReference_eq_false_iff] at unused ⊢
  exact forall_insert (fun _ => Option.some_ne_none _) fun other found _ =>
    unused other found

/-! ### One version after another -/

section Standings

variable {start : Disk Content} {index : HistoryIndex} {listed half : Key → Prop}

theorem Verified.of_got {after : Site Memory Content} {entry : IndexEntry}
    (kept : ∀ pair ∈ site.got, pair ∈ after.got)
    (verified : Verified digests projectId site entry) :
    Verified digests projectId after entry := by
  obtain ⟨content, member, right⟩ := verified
  exact ⟨content, kept _ member, right⟩

theorem Moved.of_disk {after : Site Memory Content} {key : Key}
    (isMoved : Moved digests projectId config index site key)
    (kept : ∀ pair ∈ site.got, pair ∈ after.got)
    (saved : (after.disk.saved projectId).get key = (site.disk.saved projectId).get key)
    (records : ∀ hash, recordsOf after.disk hash key = recordsOf site.disk hash key) :
    Moved digests projectId config index after key := by
  obtain ⟨entry, found, here, verified, present, record⟩ := isMoved
  exact ⟨entry, found, here, verified.of_got kept, saved.trans present,
    (records entry.hash).trans record⟩

section

variable (standing : Standing digests projectId config start index listed half site)

include standing

/-- A step that writes of some versions: nothing else changes, and what was moved stays so. -/
theorem Standing.step {after : Site Memory Content} {moreListed moreHalf : Key → Prop}
    (touched : Key → Prop)
    (got : ∀ pair ∈ site.got, pair ∈ after.got)
    (others : ∀ key, ¬ touched key →
      (after.disk.saved projectId).get key = (site.disk.saved projectId).get key ∧
      ∀ hash, recordsOf after.disk hash key = recordsOf site.disk hash key)
    (its : ∀ key, touched key → moreListed key ∧ Moved digests projectId config index after key ∨
      moreHalf key ∧ Interrupted digests projectId index after key)
    (unmoved : ∀ key, touched key → Moved digests projectId config index site key →
      Moved digests projectId config index after key)
    (allListed : ∀ key, listed key → moreListed key) (allHalf : ∀ key, half key → moreHalf key)
    (objects : ∀ hash, after.disk.objects.lookup hash = site.disk.objects.lookup hash ∧
        (hasLocalReference (site.disk.saved projectId) hash = false →
          hasLocalReference (after.disk.saved projectId) hash = false) ∨
      ObjectSafe digests projectId config start index after hash) :
    Standing digests projectId config start index moreListed moreHalf after := by
  have movedStill : ∀ key, Moved digests projectId config index site key →
      Moved digests projectId config index after key := by
    intro key isMoved
    by_cases written : touched key
    · exact unmoved key written isMoved
    · exact isMoved.of_disk got (others key written).1 (others key written).2
  constructor
  · intro key
    by_cases written : touched key
    · exact .inr (its key written)
    obtain ⟨entries, records⟩ := others key written
    rcases standing.versions key with unchanged | ⟨isListed, isMoved⟩ | ⟨isHalf, interrupted⟩
    · exact .inl ⟨entries.trans unchanged.1, fun old isOld =>
        (records old.hash).trans (unchanged.2 old isOld)⟩
    · exact .inr (.inl ⟨allListed key isListed, movedStill key isMoved⟩)
    · obtain ⟨entry, found, here, verified, present⟩ := interrupted
      exact .inr (.inr ⟨allHalf key isHalf, entry, found, here, verified.of_got got,
        entries.trans present⟩)
  · intro hash
    rcases objects hash with ⟨unchanged, unused⟩ | safe
    · rcases standing.objects hash with before | ⟨free, key, entry, found, named, isMoved⟩
      · exact .inl (unchanged.trans before)
      · exact .inr ⟨unused free, key, entry, found, named, movedStill key isMoved⟩
    · exact safe

theorem Standing.consulted {after : Site Memory Content} (consulted : Consulted site after) :
    Standing digests projectId config start index listed half after := by
  obtain ⟨same, kept⟩ := consulted
  refine standing.step (fun _ => False) kept ?_ (fun _ => False.elim) (fun _ => False.elim)
    (fun _ => id) (fun _ => id) fun hash => .inl ?_
  · exact fun key _ => ⟨by rw [same], fun _ => by rw [same]⟩
  · rw [same]
    exact ⟨rfl, id⟩

theorem Standing.weaken {moreListed moreHalf : Key → Prop}
    (allListed : ∀ key, listed key → moreListed key) (allHalf : ∀ key, half key → moreHalf key) :
    Standing digests projectId config start index moreListed moreHalf site :=
  standing.step (fun _ => False) (fun _ => id) (fun _ _ => ⟨rfl, fun _ => rfl⟩)
    (fun _ => False.elim) (fun _ => False.elim) allListed allHalf fun _ => .inl ⟨rfl, id⟩

/-- A version whose entry is local now was local at the start. -/
theorem Standing.entry {key : Key} {entry : IndexEntry}
    (found : (site.disk.saved projectId).get key = some entry)
    (here : entry.offloaded = none) : index.get key = some entry := by
  rcases standing.versions key with unchanged | ⟨_, isMoved⟩ | ⟨_, interrupted⟩
  · rw [← unchanged.1, found]
  · obtain ⟨_, _, _, _, present, _⟩ := isMoved
    rw [found] at present
    cases present
    cases here
  · obtain ⟨old, isOld, _, _, present⟩ := interrupted
    rw [found] at present
    cases present
    exact isOld

end

variable {key : Key} {entry : IndexEntry}

section

variable (standing : Standing digests projectId config start index listed (fun _ => False) site)

include standing

/-- The sidecar is written first: for this version alone the run may stop here. -/
theorem Standing.record (found : (site.disk.saved projectId).get key = some entry)
    (here : entry.offloaded = none) (verified : Verified digests projectId site entry) :
    Standing digests projectId config start index listed (· = key)
      { site with disk := withRecord digests projectId config key entry site.disk } := by
  refine standing.step (· = key) (fun _ => id) ?_ ?_ ?_ (fun _ => id) (fun _ => False.elim)
    fun hash => .inl ⟨rfl, id⟩
  · intro other different
    exact ⟨rfl, fun hash => recordsOf_appended_ne site.disk entry.hash hash _ different⟩
  · rintro other rfl
    exact .inr ⟨rfl, entry, standing.entry found here, here, verified, found⟩
  · rintro other rfl ⟨_, _, _, _, present, _⟩
    rw [found] at present
    cases present
    cases here

/-- The index is saved and, if no version of the content is local, the object removed. -/
theorem Standing.move (found : (site.disk.saved projectId).get key = some entry)
    (here : entry.offloaded = none)
    (verified : Verified digests projectId site entry) {after : Disk Content}
    (recorded : Recorded digests projectId config (site.disk.saved projectId) key entry site.disk
      after) :
    Standing digests projectId config start index (fun other => listed other ∨ other = key)
      (fun _ => False) { site with disk := after } := by
  have wasEntry := standing.entry found here
  have saved : after.saved projectId = (site.disk.saved projectId).insert key
      (movedEntry digests projectId config entry) := by
    rcases recorded with rfl | ⟨_, rfl⟩ <;> rfl
  have refs : ∀ hash, after.refsAt hash =
      (withRecord digests projectId config key entry site.disk).refsAt hash := by
    rcases recorded with rfl | ⟨_, rfl⟩ <;> exact fun _ => rfl
  have nowMoved : Moved digests projectId config index { site with disk := after } key := by
    refine ⟨entry, wasEntry, here, verified, ?_, ?_⟩
    · change (after.saved projectId).get key = _
      rw [saved, get_insert_self]
    · change recordsOf after entry.hash key = _
      rw [recordsOf, refs]
      exact recordsOf_appended_self site.disk entry.hash
        ((movedEntry digests projectId config entry).reference key)
  refine standing.step (· = key) (fun _ => id) ?_ ?_ ?_ (fun _ => .inl) (fun _ => id) fun hash => ?_
  · intro other different
    refine ⟨by rw [saved, get_insert_ne _ _ different], fun hash => ?_⟩
    rw [recordsOf, refs]
    exact recordsOf_appended_ne site.disk entry.hash hash _ different
  · rintro other rfl
    exact .inl ⟨.inr rfl, nowMoved⟩
  · rintro other rfl _
    exact nowMoved
  · have unused : hasLocalReference (site.disk.saved projectId) hash = false →
        hasLocalReference (after.saved projectId) hash = false := by
      rw [saved]
      exact unused_insert_moved key entry
    rcases recorded with rfl | ⟨gone, rfl⟩
    · exact .inl ⟨rfl, unused⟩
    · obtain rfl | its := eq_or_ne entry.hash hash
      · exact .inr (.inr ⟨gone, key, entry, wasEntry, rfl, nowMoved⟩)
      · exact .inl ⟨AList.lookup_erase_ne (Ne.symm its), unused⟩

end

/-- Where a run stands that has not been stopped. -/
def Running (digests : Digests Content) (projectId : String) (config : RotationBackendConfig)
    (start : Disk Content) (index : HistoryIndex) (progress : HistoryIndex × RotationReport)
    (site : Site Memory Content) : Prop :=
  site.disk.saved projectId = progress.1 ∧
    Standing digests projectId config start index (· ∈ progress.2.offloaded) (fun _ => False) site

/-- Where a run stands that was stopped: at most one version is between two writes. -/
def Stopped (digests : Digests Content) (projectId : String) (config : RotationBackendConfig)
    (start : Disk Content) (index : HistoryIndex) (site : Site Memory Content) : Prop :=
  ∃ last, Standing digests projectId config start index (fun _ => True) (· = last) site

theorem Standing.stopped (standing : Standing digests projectId config start index listed
    (fun _ => False) site) (last : Key) : Stopped digests projectId config start index site :=
  ⟨last, standing.weaken (fun _ _ => trivial) fun _ impossible => impossible.elim⟩

variable {progress : HistoryIndex × RotationReport}

section

variable (running : Running digests projectId config start index progress site)

include running

theorem Running.consulted {after : Site Memory Content} (consulted : Consulted site after) :
    Running digests projectId config start index progress after :=
  ⟨by rw [consulted.1]; exact running.1, running.2.consulted consulted⟩

/-- Verified contents are recorded, and the version joins those that were moved. -/
theorem ensures_settle (found : progress.1.get key = some entry) (here : entry.offloaded = none)
    (verified : Verified digests projectId site entry) :
    Ensures (onDisk (settleMove digests projectId config progress.1 key entry))
      (fun current after => after.disk.saved projectId = current ∧
        Standing digests projectId config start index
          (fun other => other ∈ progress.2.offloaded ∨ other = key) (fun _ => False) after)
      (Stopped digests projectId config start index) site := by
  obtain ⟨saved, standing⟩ := running
  rw [← saved] at found ⊢
  refine ensures_within ((ensures_settleMove_writes config (site.disk.saved projectId) key entry
    site.disk).weaken ?_ ?_)
  · rintro current after ⟨rfl, recorded⟩
    refine ⟨?_, standing.move found here verified recorded⟩
    rcases recorded with rfl | ⟨_, rfl⟩ <;> rfl
  · rintro after (rfl | rfl | recorded)
    · exact standing.stopped key
    · exact ⟨key, (standing.record found here verified).weaken (fun _ _ => trivial)
        fun _ => id⟩
    · exact (standing.move found here verified recorded).stopped key

theorem ensures_offload :
    Ensures (offload digests backend projectId config progress key)
      (Running digests projectId config start index)
      (Stopped digests projectId config start index) site := by
  unfold offload
  cases found : progress.1.get key with
  | none => exact ensures_pure running
  | some entry =>
    by_cases away : entry.offloaded.isSome = true
    · simp only [if_pos away]
      exact ensures_pure running
    simp only [if_neg away]
    have here : entry.offloaded = none := by simpa using away
    refine ensures_bind (ensures_attempt ((ensures_upload progress.1 _ entry.hash).weaken ?_ ?_))
    · intro _ uploaded consulted
      have still := running.consulted consulted
      refine ensures_bind (ensures_attempt ((ensures_checkUpload entry).weaken ?_ ?_))
      · rintro _ checked ⟨asked, verified⟩
        refine (ensures_settle (still.consulted asked) found here verified).bind ?_
        rintro current after ⟨saved, standing⟩
        refine ensures_pure ⟨saved, standing.weaken ?_ fun _ => id⟩
        rintro other (earlier | rfl)
        · exact mem_append_left _ earlier
        · exact mem_append_right _ mem_cons_self
      · intro checked asked
        have skipped := still.consulted asked
        exact ⟨skipped.2.stopped key, fun error => ensures_pure skipped⟩
    · intro uploaded consulted
      have skipped := running.consulted consulted
      exact ⟨skipped.2.stopped key, fun error => ensures_pure skipped⟩

end

/-- A run over any list of candidates, from a disk whose index is the one in hand. -/
theorem ensures_offloadAll (disk : Disk Content) (memory : Memory) (index : HistoryIndex)
    (candidates : List Key) :
    Ensures (offloadAll digests backend projectId config index candidates)
      (Running digests projectId config (disk.withIndex index) index)
      (Stopped digests projectId config (disk.withIndex index) index)
      ⟨disk.withIndex index, memory, []⟩ := by
  refine ensures_loop _ ⟨rfl, ?_⟩ fun key _ progress site running => ensures_offload running
  constructor
  · exact fun key => .inl ⟨rfl, fun _ _ => rfl⟩
  · exact fun hash => .inl rfl

end Standings

/-! ### What moving versions can do -/

/-- The version's entry, record and object are as they were. -/
def Untouched (projectId : String) (start : Disk Content) (index : HistoryIndex)
    (site : Site Memory Content) (key : Key) : Prop :=
  Same projectId start index site key ∧
    ∀ entry, index.get key = some entry → entry.offloaded = none →
      site.disk.objects.lookup entry.hash = start.objects.lookup entry.hash

/-- While the entry of a local version is as it was, so is its object. -/
theorem ObjectSafe.kept {start : Disk Content} {index : HistoryIndex} {key : Key}
    {entry : IndexEntry} (safe : ObjectSafe digests projectId config start index site entry.hash)
    (found : (site.disk.saved projectId).get key = some entry) (here : entry.offloaded = none) :
    site.disk.objects.lookup entry.hash = start.objects.lookup entry.hash := by
  rcases safe with unchanged | ⟨unused, _⟩
  · exact unchanged
  · exact absurd here (hasLocalReference_eq_false_iff.mp unused key entry found rfl)

theorem Standing.untouched {start : Disk Content} {index : HistoryIndex} {listed half : Key → Prop}
    (standing : Standing digests projectId config start index listed half site) {key : Key}
    (same : Same projectId start index site key) : Untouched projectId start index site key := by
  refine ⟨same, fun entry found here => ?_⟩
  exact (standing.objects entry.hash).kept (by rw [same.1, found]) here

end Proofs

/-- Whatever the store answers, wherever a step fails and wherever the process stops: an
entry is marked as offloaded, and an object removed, only if the store has handed back the
entry's content under the recorded key. A version that was not moved keeps its entry, its
record in the sidecar and its object; the one version at which a run is stopped keeps its
entry and object, or is recorded as moved, with its record written first. -/
theorem moved_only_after_content_returned (digests : Digests Content)
    (backend : Backend Memory Content) (projectId : String) (config : RotationBackendConfig)
    (index : HistoryIndex) (candidates : List Key) (disk : Disk Content) (memory : Memory)
    (faults : List Fault) :
    let start := disk.withIndex index
    let run := offloadAll digests backend projectId config index candidates
    let after := run.after ⟨start, memory, []⟩ faults
    (∀ key, (after.disk.saved projectId).get key = index.get key ∨
      Moved digests projectId config index after key) ∧
    (∀ hash, ObjectSafe digests projectId config start index after hash) ∧
    (∀ progress, run.outcome ⟨start, memory, []⟩ faults = .done progress →
      ∀ key, key ∉ progress.2.offloaded → Untouched projectId start index after key) ∧
    ∃ last, ∀ key, Untouched projectId start index after key ∨
      Moved digests projectId config index after key ∨
      key = last ∧ Interrupted digests projectId index after key := by
  intro start run after
  have ended := @ensures_offloadAll Memory Content digests backend projectId config disk memory
    index candidates
  have stopped : Stopped digests projectId config start index after :=
    (ended.weaken (fun _ _ running => running.2.stopped ("", 0)) fun _ => id).after faults
  obtain ⟨last, standing⟩ := stopped
  refine ⟨fun key => ?_, standing.objects, fun progress returned key unlisted => ?_,
    last, fun key => ?_⟩
  · rcases standing.versions key with same | ⟨_, isMoved⟩ | ⟨_, interrupted⟩
    · exact .inl same.1
    · exact .inr isMoved
    · obtain ⟨entry, found, _, _, present⟩ := interrupted
      exact .inl (present.trans found.symm)
  · have running := ended.done returned
    rcases running.2.versions key with same | ⟨isListed, _⟩ | ⟨impossible, _⟩
    · exact running.2.untouched same
    · exact absurd isListed unlisted
    · exact impossible.elim
  · rcases standing.versions key with same | ⟨_, isMoved⟩ | interrupted
    · exact .inl (standing.untouched same)
    · exact .inr (.inl isMoved)
    · exact .inr (.inr interrupted)

/-! ### Sidecars that change -/

/-- A store that refuses the first object it is offered and then does all it is asked to. -/
def reluctant : Backend Bool Unit where
  put _ _ warmed := if warmed then (.ok (), true) else (.error ⟨.other, "busy"⟩, true)
  existsAt _ warmed := (.ok true, warmed)
  size _ warmed := (.ok (some 0), warmed)
  get _ warmed := (.ok (), warmed)

def sampleEntry : IndexEntry := ⟨HistoryWorld.emptyHash, 0, 0, 1, "peer", "published", none⟩

/-- Two versions of one content. -/
def sampleIndex : HistoryIndex :=
  ((new "p").insert ("a.bin", 1) sampleEntry).insert ("b.bin", 1) sampleEntry

def sampleDisk : Disk Unit :=
  { HistoryWorld.sampleStart.withIndex sampleIndex with
    objects := (∅ : AList fun _ : String => Unit).insert HistoryWorld.emptyHash ()
    sidecars := (∅ : AList fun _ : String => Parsed ObjectMeta).insert HistoryWorld.emptyHash
      (.holds ⟨"p", [sampleEntry.reference ("a.bin", 1), sampleEntry.reference ("b.bin", 1)]⟩) }

def sampleRun (memory : Bool) (candidates : List Key) (faults : List Fault) :
    Outcome IoError (HistoryIndex × RotationReport) × Site Bool Unit :=
  let ended := offloadAll HistoryWorld.sampleDigests reluctant "p" (.localPath "/mnt/a") sampleIndex
    candidates ⟨sampleDisk, memory, []⟩ faults
  (ended.1, ended.2.1)

/-- The index is not saved, and the sidecar says already that the version was moved; and a
version that is skipped has a sidecar that another version of its content changes. -/
theorem failed_move_changes_sidecar :
    let failed := sampleRun true [("a.bin", 1)] (List.replicate 8 .none ++ [.fail "disk full"])
    let shared := sampleRun false [("a.bin", 1), ("b.bin", 1)] []
    failed.1.isDone = false ∧
    (failed.2.disk.saved "p").get ("a.bin", 1) = some sampleEntry ∧
    (recordsOf failed.2.disk HistoryWorld.emptyHash ("a.bin", 1)).map ObjectRef.offloaded ≠
      (recordsOf sampleDisk HistoryWorld.emptyHash ("a.bin", 1)).map ObjectRef.offloaded ∧
    (shared.2.disk.saved "p").get ("a.bin", 1) = some sampleEntry ∧
    shared.2.disk.sidecars.lookup HistoryWorld.emptyHash ≠
      sampleDisk.sidecars.lookup HistoryWorld.emptyHash := by
  decide +kernel

end Synergos.UntrustedBackend
