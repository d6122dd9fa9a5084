import Mathlib.Data.List.Induction
import Mathlib.Logic.Relation
import Synergos.HistoryStore
import Synergos.Runs

/-!
# What the operations of a history store can do

Each operation changes the disk by a few kinds of steps, and each step is taken only
where the code has made sure of something first. The relations below say what these
steps are and what is known when one is taken; an operation, stopped anywhere by a
failure or a crash, has taken some of them. Every property of whole runs is then
proved step by step, without looking at the code of the operations again.
-/

namespace Synergos.HistorySteps

open Faults Faults.Program HistoryFiles HistoryTags HistoryRetention HistoryStore List
open HistoryIndex
open Relation (ReflTransGen)

variable {Content : Type}

/-! ### Reading steps -/

theorem ensures_storeDir (config : HistoryConfig) (disk : Disk Content) :
    Looks (storeDir config) (fun _ => True) disk := by
  refine ensures_ite (fun _ => ensures_bind (ensures_throw rfl)) fun _ => ?_
  refine ensures_ite (fun _ => ?_) fun _ => ensures_pass rfl ⟨rfl, trivial⟩
  exact ensures_bind (ensures_settle (fun _ _ => ensures_pass rfl ⟨rfl, trivial⟩) fun _ _ => rfl)

section Opening

variable {α : Type} {returns : α → Disk Content → Prop} {stops : Disk Content → Prop}
  {disk : Disk Content} {projectId : String}

theorem ensures_opened (config : HistoryConfig) {next : Unit → Store Content α}
    (stopped : stops disk) (second : Ensures (next ()) returns stops disk) :
    Ensures (storeDir config >>= next) returns stops disk :=
  (ensures_storeDir config disk).bind stopped fun _ _ => second

/-- The index that loads is the saved one. -/
theorem ensures_loaded (loads : disk.Loads projectId) (listing : Listing)
    {next : HistoryIndex → Store Content α} (stopped : stops disk)
    (second : Ensures (next (disk.saved projectId)) returns stops disk) :
    Ensures (loadOrRebuild listing projectId >>= next) returns stops disk := by
  refine ensures_bind ((ensures_loadOrRebuild loads listing).weaken ?_ fun _ same => same ▸ stopped)
  rintro index _ ⟨rfl, rfl⟩
  exact second

end Opening

section Digests

variable (digests : Digests Content)

/-- The entry's content is in the store. -/
def Kept (disk : Disk Content) (hash : String) (size : UInt64) (crc : UInt32) : Prop :=
  ∃ content, disk.objects.lookup hash = some content ∧
    genuine digests hash size crc content = true

theorem ensures_validateObject (hash : String) (size : UInt64) (crc : UInt32)
    (disk : Disk Content) :
    Looks (validateObject digests hash size crc)
      (fun valid => valid = true ↔ Kept digests disk hash size crc) disk := by
  refine ensures_bind (ensures_read rfl ?_)
  unfold Kept
  cases found : disk.objects.lookup hash with
  | none => exact ensures_pure ⟨rfl, by simp⟩
  | some content =>
    refine ensures_ite (fun wrong => ensures_pure ⟨rfl, ?_⟩) fun _ =>
      ensures_bind (ensures_pass rfl (ensures_pure ⟨rfl, by simp⟩))
    have foreign : genuine digests hash size crc content = false := by
      rcases wrong with wrong | wrong <;> simp [genuine, wrong]
    simp [foreign]

theorem ensures_validateFetched (content : Content) (entry : IndexEntry) (disk : Disk Content) :
    Looks (validateFetched digests content entry) (fun valid => valid = true →
      genuine digests entry.hash entry.size entry.crc content = true) disk := by
  refine ensures_bind (ensures_pass rfl (ensures_ite (fun _ => ?_) fun _ => ?_))
  · exact ensures_pure ⟨rfl, nofun⟩
  · refine ensures_bind (ensures_pass rfl (ensures_pure ⟨rfl, ?_⟩))
    intro valid
    exact (Bool.and_eq_true_iff.mp valid).1

variable {config : RotationBackendConfig} {guarded victims : List Key} {index : HistoryIndex}
  {key : Key} {mayReplace : IndexEntry → Prop} {result : HistoryIndex × List (Key × String)}
  {offloaded : OffloadedRef} {content : Content}

theorem genuine_hash {hash : String} {size : UInt64} {crc : UInt32}
    (right : genuine digests hash size crc content = true) : digests.blake3 content = hash := by
  simp only [genuine, Bool.and_eq_true, beq_iff_eq] at right
  exact right.2

variable {digests} in
theorem Kept.validHash {disk : Disk Content} {hash : String} {size : UInt64} {crc : UInt32}
    (kept : Kept digests disk hash size crc) : isValidObjectHash hash = true := by
  obtain ⟨content, _, right⟩ := kept
  rw [← genuine_hash digests right]
  exact digests.blake3_valid content

theorem ensures_createSnapshot (content : Content) (size : UInt64) (crc : UInt32)
    (disk : Disk Content) :
    Looks (createSnapshot digests content size crc) (fun hash => hash = digests.blake3 content ∧
      genuine digests hash size crc content = true) disk := by
  refine ensures_bind (ensures_pass rfl (ensures_ite (fun _ => ?_) fun wrong => ?_))
  · exact ensures_bind (ensures_throw rfl)
  · refine ensures_bind (ensures_pass rfl (ensures_pure ⟨rfl, rfl, ?_⟩))
    simp only [not_or, not_not] at wrong
    simp [genuine, wrong]

/-! ### Archiving -/

/-- The steps of archiving a version. `mayReplace` says which offloaded entries
may be overwritten. -/
inductive ArchiveStep (projectId : String) (key : Key) (mayReplace : IndexEntry → Prop) :
    Disk Content → Disk Content → Prop
  | sidecars (disk : Disk Content) (sidecars : AList fun _ : String => Parsed ObjectMeta) :
      ArchiveStep projectId key mayReplace disk { disk with sidecars := sidecars }
  | object (disk : Disk Content) (content : Content) :
      ArchiveStep projectId key mayReplace disk
        (disk.withObject (digests.blake3 content) content)
  | enter (disk : Disk Content) (entry : IndexEntry) (here : entry.offloaded = none)
      (kept : Kept digests disk entry.hash entry.size entry.crc)
      (replaces : ∀ old, (disk.saved projectId).get key = some old →
        old.hash = entry.hash ∧ (old.offloaded ≠ none → mayReplace old)) :
      ArchiveStep projectId key mayReplace disk
        (disk.withIndex ((disk.saved projectId).insert key entry))

variable {digests} in
/-- A version under a valid key keeps an index that loads. -/
theorem ArchiveStep.loads {projectId : String} {disk after : Disk Content}
    (valid : isValidKey key = true) (step : ArchiveStep digests projectId key mayReplace disk after)
    (loads : disk.Loads projectId) : after.Loads projectId := by
  cases step with
  | enter entry here kept replaces =>
    exact ⟨by simp [Disk.withIndex], loads.sound.insert valid kept.validHash⟩
  | _ => exact ⟨loads.readable, loads.sound⟩

/-- A record is appended and then the index is saved. -/
theorem ensures_enter (projectId : String) (index : HistoryIndex) (key : Key)
    (entry : IndexEntry) (disk : Disk Content) :
    Ensures (enter projectId index key entry)
      (fun _ after => after = (disk.appended projectId entry.hash
        (entry.reference key)).withIndex (index.insert key entry))
      (fun after => after = disk ∨
        after = disk.appended projectId entry.hash (entry.reference key) ∨
        after = (disk.appended projectId entry.hash (entry.reference key)).withIndex
          (index.insert key entry)) disk := by
  refine ensures_bind ((ensures_appendObjectRef projectId entry.hash (entry.reference key)
    disk).weaken ?_ ?_)
  · rintro _ after rfl
    exact ensures_write (.inr (.inl rfl)) rfl (.inr (.inr rfl))
  · rintro after (same | appended)
    · exact .inl same
    · exact .inr (.inl appended)

variable {digests} {projectId : String} {disk : Disk Content}

section Upheld

variable {holds stops : Disk Content → Prop} {key : Key} {mayReplace : IndexEntry → Prop}

/-- A property that holds before and after a version is entered, and one that holds
wherever entering it stops. -/
theorem ensures_entered {entry : IndexEntry} (before : stops disk)
    (appended : stops (disk.appended projectId entry.hash (entry.reference key)))
    (entered : holds ((disk.appended projectId entry.hash (entry.reference key)).withIndex
      ((disk.saved projectId).insert key entry))) (stopped : ∀ after, holds after → stops after) :
    Ensures (enter projectId (disk.saved projectId) key entry) (fun _ => holds) stops disk := by
  refine (ensures_enter projectId (disk.saved projectId) key entry disk).weaken ?_ ?_
  · rintro _ after rfl
    exact entered
  · rintro after (rfl | rfl | rfl)
    · exact before
    · exact appended
    · exact stopped _ entered

variable (digests projectId key) in
/-- A property that archiving upholds, and one that holds wherever it stops. -/
structure Archives (mayReplace : IndexEntry → Prop) (holds stops : Disk Content → Prop) :
    Prop where
  stopped : ∀ disk, holds disk → stops disk
  object : ∀ disk content, holds disk → holds (disk.withObject (digests.blake3 content) content)
  again : ∀ disk entry, holds disk → (disk.saved projectId).get key = some entry →
    holds (disk.appended projectId entry.hash (entry.reference key))
  enter : ∀ disk entry, holds disk → entry.offloaded = none →
    Kept digests disk entry.hash entry.size entry.crc →
    (∀ old, (disk.saved projectId).get key = some old →
      old.hash = entry.hash ∧ (old.offloaded ≠ none → mayReplace old)) →
    stops (disk.appended projectId entry.hash (entry.reference key)) ∧
      holds ((disk.appended projectId entry.hash (entry.reference key)).withIndex
        ((disk.saved projectId).insert key entry))

/-- Entering a version whose object is in the store. -/
theorem Archives.entered (archives : Archives digests projectId key mayReplace holds stops)
    (held : holds disk) {entry : IndexEntry} (here : entry.offloaded = none)
    (kept : Kept digests disk entry.hash entry.size entry.crc)
    (replaces : ∀ old, (disk.saved projectId).get key = some old →
      old.hash = entry.hash ∧ (old.offloaded ≠ none → mayReplace old)) (outcome : ArchiveOutcome) :
    Ensures (do
        HistoryStore.enter projectId (disk.saved projectId) key entry
        return outcome) (fun _ => holds) stops disk := by
  obtain ⟨appended, entered⟩ := archives.enter disk entry held here kept replaces
  exact ensures_bind ((ensures_entered (archives.stopped disk held) appended entered
    archives.stopped).weaken (fun _ _ after => ensures_pure after) fun _ => id)

/-- The object is put in place and its version entered. -/
theorem Archives.stored (archives : Archives digests projectId key mayReplace holds stops)
    (held : holds disk) (entry : IndexEntry) (here : entry.offloaded = none)
    (right : genuine digests entry.hash entry.size entry.crc content = true)
    (replaces : ∀ old, (disk.saved projectId).get key = some old →
      old.hash = entry.hash ∧ (old.offloaded ≠ none → mayReplace old)) :
    Ensures (do
        write fun disk => disk.withObject entry.hash content
        HistoryStore.enter projectId (disk.saved projectId) key entry
        return ArchiveOutcome.stored) (fun _ => holds) stops disk := by
  have placed : holds (disk.withObject entry.hash content) := by
    rw [← genuine_hash digests right]
    exact archives.object disk content held
  have kept : Kept digests (disk.withObject entry.hash content) entry.hash entry.size
      entry.crc := ⟨content, by simp [Disk.withObject], right⟩
  exact ensures_bind (ensures_write (archives.stopped disk held)
    (archives.entered placed here kept replaces .stored) (archives.stopped _ placed))

/-- An entry of the same content that archiving overwrites: no valid object was in the
store. -/
def Overwritten (digests : Digests Content) (disk : Disk Content) (file : Submission Content)
    (old : IndexEntry) : Prop :=
  old.hash = digests.blake3 file.content ∧
    ¬ Kept digests disk (digests.blake3 file.content) file.size file.crc

theorem Archives.ensures {file : Submission Content}
    (archives : Archives digests projectId file.key (Overwritten digests disk file) holds stops)
    (held : holds disk) (loads : disk.Loads projectId) (listing : Listing)
    (config : HistoryConfig) (nowMs : UInt64) :
    Ensures (archive digests listing config projectId file nowMs) (fun _ => holds) stops disk := by
  have before := archives.stopped disk held
  refine ensures_ite (fun _ => ensures_pure held) fun _ => ensures_opened config before ?_
  refine (ensures_createSnapshot digests file.content file.size file.crc disk).bind before ?_
  rintro _ ⟨rfl, right⟩
  refine ensures_loaded loads listing before ?_
  let entry := file.entry (digests.blake3 file.content) nowMs
  have checked := ensures_validateObject digests (digests.blake3 file.content) file.size
    file.crc disk
  cases present : (disk.saved projectId).get file.key with
  | none =>
    refine checked.bind before fun valid found => ?_
    have replaces : ∀ old, (disk.saved projectId).get file.key = some old →
        old.hash = digests.blake3 file.content ∧
          (old.offloaded ≠ none → Overwritten digests disk file old) := by
      intro old found
      simp [present] at found
    cases valid with
    | true => exact archives.entered held rfl (found.mp rfl) replaces .deduplicated
    | false => exact archives.stored held entry rfl right replaces
  | some existing =>
    refine ensures_ite (fun _ => ensures_bind (ensures_throw before)) fun same => ?_
    have named := not_not.mp same
    refine checked.bind before fun valid found => ?_
    cases valid with
    | true =>
      have again := archives.again disk existing held present
      refine ensures_bind ((ensures_appendObjectRef projectId existing.hash
        (existing.reference file.key) disk).weaken ?_ ?_)
      · rintro _ later rfl
        exact ensures_pure again
      · rintro later (rfl | rfl)
        · exact before
        · exact archives.stopped _ again
    | false =>
      refine archives.stored held entry rfl right ?_
      intro old present'
      rw [present] at present'
      cases present'
      exact ⟨named, fun _ => ⟨named, fun kept => by cases found.mpr kept⟩⟩

theorem archives_steps (start : Disk Content) :
    Archives digests projectId key mayReplace
      (ReflTransGen (ArchiveStep digests projectId key mayReplace) start)
      (ReflTransGen (ArchiveStep digests projectId key mayReplace) start) where
  stopped _ reached := reached
  object disk content reached := reached.tail (.object disk content)
  again disk entry reached _ := reached.tail (.sidecars disk _)
  enter disk entry reached here kept replaces :=
    have appended := reached.tail (.sidecars disk _)
    ⟨appended, appended.tail (.enter _ entry here kept replaces)⟩

theorem ensures_archive (loads : disk.Loads projectId) (listing : Listing)
    (config : HistoryConfig) (file : Submission Content) (nowMs : UInt64) :
    Keeps (archive digests listing config projectId file nowMs)
      (ReflTransGen (ArchiveStep digests projectId file.key
        (Overwritten digests disk file)) disk) disk :=
  (archives_steps disk).ensures .refl loads listing config nowMs

end Upheld

/-! ### Fetching -/

/-- The version is recorded as offloaded, and the place is the one recorded. -/
structure Away (digests : Digests Content) (projectId : String) (key : Key) (disk : Disk Content)
    (entry : IndexEntry) (offloaded : OffloadedRef) (place : Place) : Prop where
  found : (disk.saved projectId).get key = some entry
  away : entry.offloaded = some offloaded
  external : offloaded.key = objectKey digests projectId entry.hash
  placed : ∀ config, offloaded.config = some config → config.place = place

variable (digests projectId) in
/-- The steps of fetching a version. The external object is deleted only when the
content is in the store and no other version is recorded at it. -/
inductive FetchStep (key : Key) : Disk Content → Disk Content → Prop
  | sidecars (disk : Disk Content) (sidecars : AList fun _ : String => Parsed ObjectMeta) :
      FetchStep key disk { disk with sidecars := sidecars }
  | object (disk : Disk Content) (content : Content) :
      FetchStep key disk (disk.withObject (digests.blake3 content) content)
  | delete (disk : Disk Content) (entry : IndexEntry) (offloaded : OffloadedRef) (place : Place)
      (away : Away digests projectId key disk entry offloaded place)
      (kept : Kept digests disk entry.hash entry.size entry.crc)
      (alone : hasOtherReference (disk.saved projectId) key offloaded = false) :
      FetchStep key disk (disk.withoutStored place offloaded.key)
  | restore (disk : Disk Content) (entry : IndexEntry) (offloaded : OffloadedRef) (place : Place)
      (away : Away digests projectId key disk entry offloaded place)
      (kept : Kept digests disk entry.hash entry.size entry.crc)
      (freed : hasOtherReference (disk.saved projectId) key offloaded = true ∨
        (place, offloaded.key) ∉ disk.recorded) :
      FetchStep key disk
        (disk.withIndex ((disk.saved projectId).insert key { entry with offloaded := none }))

theorem ensures_localIsValid (entry : IndexEntry) :
    Looks (localIsValid digests entry) (fun valid => valid = true →
      Kept digests disk entry.hash entry.size entry.crc) disk := by
  have inside : Looks (do
        let content ← readObject entry.hash
        validateFetched digests content entry)
      (fun valid => valid = true → Kept digests disk entry.hash entry.size entry.crc) disk := by
    refine ensures_bind (ensures_step rfl ?_)
    intro content after taken
    cases found : disk.objects.lookup entry.hash with
    | none => simp [found] at taken
    | some object =>
      simp only [found, Except.ok.injEq, Prod.mk.injEq] at taken
      obtain ⟨rfl, rfl⟩ := taken
      refine ⟨(ensures_validateFetched digests object entry disk).weaken ?_
        fun _ => id, rfl⟩
      rintro valid after ⟨rfl, right⟩
      exact ⟨rfl, fun isValid => ⟨object, found, right isValid⟩⟩
  refine ensures_bind (ensures_attempt (inside.weaken (fun _ _ held => ensures_pure held) ?_))
  rintro after rfl
  exact ⟨rfl, fun error => ensures_pure ⟨rfl, nofun⟩⟩

theorem ensures_getAt {place : Place} {key : String} :
    Looks (getAt place key) (fun content => disk.stores place key = some content) disk := by
  refine ensures_step rfl ?_
  intro content after taken
  cases found : disk.stores place key with
  | none => simp [found] at taken
  | some object =>
    simp only [found, Except.ok.injEq, Prod.mk.injEq] at taken
    obtain ⟨rfl, rfl⟩ := taken
    exact ⟨⟨rfl, rfl⟩, rfl⟩

/-- The disk with an object of the recorded content. -/
def Retrieved (digests : Digests Content) (disk : Disk Content) (entry : IndexEntry)
    (after : Disk Content) : Prop :=
  ∃ content, genuine digests entry.hash entry.size entry.crc content = true ∧
    after = disk.withObject entry.hash content

theorem ensures_retrieve (place : Place) (key : Key) (entry : IndexEntry)
    (offloaded : OffloadedRef) :
    Ensures (retrieve digests place key entry offloaded)
      (fun _ => Retrieved digests disk entry)
      (fun after => after = disk ∨ Retrieved digests disk entry after) disk := by
  refine Looks.bind (ensures_relabel ensures_getAt) (.inl rfl) fun content _ => ?_
  refine (ensures_validateFetched digests content entry disk).bind (.inl rfl) fun valid right => ?_
  cases valid with
  | true =>
    have placed : Retrieved digests disk entry (disk.withObject entry.hash content) :=
      ⟨content, right rfl, rfl⟩
    exact ensures_write (.inl rfl) placed (.inr placed)
  | false => exact ensures_throw (.inl rfl)

/-- A download puts an object with the recorded content in place, or changes nothing. -/
theorem ensures_download (place : Place) (key : Key) (entry : IndexEntry)
    (offloaded : OffloadedRef) :
    Ensures (download digests place key entry offloaded)
      (fun _ => Retrieved digests disk entry)
      (fun after => after = disk ∨ Retrieved digests disk entry after) disk := by
  refine ensures_bind (ensures_relabel (ensures_read (.inl rfl) ?_))
  cases (disk.stores place offloaded.key).map digests.size with
  | none => exact ensures_throw (.inl rfl)
  | some actual =>
    exact ensures_ite (fun _ => ensures_throw (.inl rfl)) fun _ =>
      ensures_retrieve place key entry offloaded

theorem Retrieved.kept {entry : IndexEntry} {after : Disk Content}
    (retrieved : Retrieved digests disk entry after) :
    Kept digests after entry.hash entry.size entry.crc := by
  obtain ⟨content, right, rfl⟩ := retrieved
  exact ⟨content, by simp [Disk.withObject], right⟩

section Upheld

variable {holds stops : Disk Content → Prop} {key : Key}

variable (digests projectId key) in
/-- A property that fetching upholds, and one that holds wherever it stops. -/
structure Fetches (holds stops : Disk Content → Prop) : Prop where
  stopped : ∀ disk, holds disk → stops disk
  object : ∀ disk content, holds disk → holds (disk.withObject (digests.blake3 content) content)
  delete : ∀ disk entry offloaded place, holds disk →
    Away digests projectId key disk entry offloaded place →
    Kept digests disk entry.hash entry.size entry.crc →
    hasOtherReference (disk.saved projectId) key offloaded = false →
    holds (disk.withoutStored place offloaded.key)
  restore : ∀ disk entry offloaded place, holds disk →
    Away digests projectId key disk entry offloaded place →
    Kept digests disk entry.hash entry.size entry.crc →
    (hasOtherReference (disk.saved projectId) key offloaded = true ∨
      (place, offloaded.key) ∉ disk.recorded) →
    let restored : IndexEntry := { entry with offloaded := none }
    stops (disk.appended projectId entry.hash (restored.reference key)) ∧
      holds ((disk.appended projectId entry.hash (restored.reference key)).withIndex
        ((disk.saved projectId).insert key restored))

variable (fetches : Fetches digests projectId key holds stops)

include fetches

theorem Fetches.retrieved (held : holds disk) {entry : IndexEntry} {after : Disk Content}
    (retrieved : Retrieved digests disk entry after) : holds after := by
  obtain ⟨content, right, rfl⟩ := retrieved
  rw [← genuine_hash digests right]
  exact fetches.object disk content held

omit fetches in
theorem Retrieved.away {entry other : IndexEntry}
    {place : Place} {after : Disk Content} (retrieved : Retrieved digests disk other after)
    (away : Away digests projectId key disk entry offloaded place) :
    Away digests projectId key after entry offloaded place ∧
      after.saved projectId = disk.saved projectId := by
  obtain ⟨content, right, rfl⟩ := retrieved
  exact ⟨⟨away.found, away.away, away.external, away.placed⟩, rfl⟩

/-- From an object that is in the store to the end of a fetch. -/
theorem Fetches.release (held : holds disk) {entry : IndexEntry}
    {place : Place} (away : Away digests projectId key disk entry offloaded place)
    (kept : Kept digests disk entry.hash entry.size entry.crc) :
    Ensures (release projectId place (disk.saved projectId) key entry offloaded)
      (fun _ => holds) stops disk := by
  refine ensures_ite (fun alone => ?_) fun alone => ?_
  · have deleted := fetches.delete disk entry offloaded place held away kept alone
    have still : Away digests projectId key (disk.withoutStored place offloaded.key) entry
        offloaded place := ⟨away.found, away.away, away.external, away.placed⟩
    obtain ⟨appended, restored⟩ := fetches.restore _ entry offloaded place deleted still kept
      (.inr (by simp [Disk.withoutStored]))
    exact ensures_bind (ensures_relabel (ensures_write (fetches.stopped disk held)
      (ensures_entered (fetches.stopped _ deleted) appended restored fetches.stopped)
      (fetches.stopped _ deleted)))
  · obtain ⟨appended, restored⟩ := fetches.restore disk entry offloaded place held away kept
      (.inl (by simpa using alone))
    exact ensures_entered (fetches.stopped disk held) appended restored fetches.stopped

theorem Fetches.fetch (held : holds disk) {place : Place}
    (placed : ∀ entry offloaded config, (disk.saved projectId).get key = some entry →
      entry.offloaded = some offloaded → offloaded.config = some config → config.place = place) :
    Ensures (HistoryStore.fetch digests projectId place (disk.saved projectId) key)
      (fun _ => holds) stops disk := by
  have before := fetches.stopped disk held
  unfold HistoryStore.fetch
  cases found : (disk.saved projectId).get key with
  | none => exact ensures_throw before
  | some entry =>
    cases gone : entry.offloaded with
    | none =>
      simp only [gone]
      exact ensures_pure held
    | some offloaded =>
      simp only [gone]
      refine ensures_ite (fun _ => ensures_bind (ensures_throw before)) fun native => ?_
      simp only [not_or, not_not] at native
      have away : Away digests projectId key disk entry offloaded place :=
        ⟨found, gone, native.1, fun config recorded => placed entry offloaded config found gone
          recorded⟩
      refine ensures_bind (ensures_pass before ?_)
      refine (ensures_localIsValid entry).bind before fun valid kept => ?_
      cases valid with
      | true => exact fetches.release held away (kept rfl)
      | false =>
        refine ensures_bind ((ensures_download place key entry offloaded).weaken ?_ ?_)
        · intro _ later retrieved
          obtain ⟨still, same⟩ := retrieved.away away
          rw [← same]
          exact fetches.release (fetches.retrieved held retrieved) still retrieved.kept
        · rintro later (rfl | retrieved)
          · exact before
          · exact fetches.stopped _ (fetches.retrieved held retrieved)

end Upheld

theorem withCredentials_place (recorded current : RotationBackendConfig) :
    (withCredentials recorded current).place = recorded.place := by
  cases recorded <;> cases current <;> rfl

theorem buildBackend_place {place : Place}
    (built : buildBackend config = .ok place) : config.place = place := by
  unfold buildBackend at built
  split at built
  · cases built
  · exact Except.ok.inj built

theorem Fetches.ensures {holds stops : Disk Content → Prop}
    (fetches : Fetches digests projectId key holds stops) (held : holds disk)
    (loads : disk.Loads projectId) (listing : Listing) (config : HistoryConfig) :
    Ensures (fetchOffloaded digests listing config projectId key) (fun _ => holds) stops disk := by
  have before := fetches.stopped disk held
  refine ensures_ite (fun _ => ensures_bind (ensures_throw before)) fun _ => ?_
  refine ensures_opened config before (ensures_loaded loads listing before ?_)
  refine ensures_bind (ensures_settle ?_ fun _ _ => before)
  intro place built
  refine fetches.fetch held ?_
  intro entry offloaded recorded found away kept
  rw [← buildBackend_place built, withCredentials_place]
  simp [recordedConfig, found, away, kept]

theorem fetches_steps (start : Disk Content) (key : Key) :
    Fetches digests projectId key (ReflTransGen (FetchStep digests projectId key) start)
      (ReflTransGen (FetchStep digests projectId key) start) where
  stopped _ reached := reached
  object disk content reached := reached.tail (.object disk content)
  delete disk entry offloaded place reached away kept alone :=
    reached.tail (.delete disk entry offloaded place away kept alone)
  restore disk entry offloaded place reached away kept freed :=
    have appended := reached.tail (.sidecars disk _)
    ⟨appended, appended.tail (.restore _ entry offloaded place
      ⟨away.found, away.away, away.external, away.placed⟩ kept freed)⟩

theorem ensures_fetchOffloaded (loads : disk.Loads projectId) (listing : Listing)
    (config : HistoryConfig) (key : Key) :
    Keeps (fetchOffloaded digests listing config projectId key)
      (ReflTransGen (FetchStep digests projectId key) disk) disk :=
  (fetches_steps disk key).ensures .refl loads listing config

/-- Fetching keeps an index that loads. -/
theorem FetchStep.loads {after : Disk Content}
    (step : FetchStep digests projectId key disk after) (loads : disk.Loads projectId) :
    after.Loads projectId := by
  cases step with
  | restore entry offloaded place away kept freed =>
    obtain ⟨validKey, validHash⟩ := loads.sound.valid key entry away.found
    exact ⟨by simp [Disk.withIndex], loads.sound.insert validKey validHash⟩
  | _ => exact ⟨loads.readable, loads.sound⟩

theorem ensures_lookup (loads : disk.Loads projectId) (listing : Listing)
    (config : HistoryConfig) (key : Key) :
    Keeps (lookup digests listing config projectId key)
      (ReflTransGen (FetchStep digests projectId key) disk) disk := by
  have fetchedLoads : ∀ after, ReflTransGen (FetchStep digests projectId key) disk after →
      after.Loads projectId :=
    fun after steps => Runs.chain_keeps _ (fun _ _ step => step.loads) steps loads
  refine ensures_ite (fun _ => ensures_pure .refl) fun _ => ?_
  refine ensures_opened config .refl (ensures_loaded loads listing .refl ?_)
  cases found : (disk.saved projectId).get key with
  | none => exact ensures_pure .refl
  | some entry =>
    refine ensures_ite (fun _ => ensures_ite (fun _ => ensures_pure .refl) fun _ => ?_) fun _ => ?_
    · refine ensures_bind (ensures_attempt ((ensures_fetchOffloaded loads listing config
        key).weaken ?_ ?_))
      · intro _ later steps
        exact ensures_loaded (fetchedLoads later steps) listing steps (ensures_pure steps)
      · intro later steps
        exact ⟨steps, fun error => ensures_pure steps⟩
    · refine ensures_bind (ensures_attempt ((ensures_validateObject digests entry.hash entry.size
        entry.crc disk).weaken ?_ ?_))
      · rintro valid later ⟨rfl, _⟩
        cases valid with
        | true | false => exact ensures_pure .refl
      · rintro later rfl
        exact ⟨.refl, fun error => ensures_pure .refl⟩

/-! ### What is protected -/

/-- The list has every version that is to be kept or is pinned. -/
def Guards (projectId : String) (keep : List Key) (tags : TagsDir) (guarded : List Key) : Prop :=
  ∀ key, key ∈ keep ∨ Pinned projectId tags key → key ∈ guarded

/-- What is protected has every version to keep and every pinned one, and the tags
could all be read; otherwise the call fails. Nothing is changed. -/
theorem ensures_protectedVersions (loads : disk.Loads projectId) (listing : Listing)
    (config : HistoryConfig) (keep : List Key) :
    Looks (protectedVersions listing config projectId keep) (fun guarded =>
      ¬ Malformed projectId disk.tags ∧ Guards projectId keep disk.tags guarded) disk := by
  refine ensures_opened config rfl ?_
  refine Looks.bind (ensures_allPins listing projectId disk) rfl ?_
  rintro pins ⟨pinned, wellFormed⟩
  have gathered : ¬ Malformed projectId disk.tags ∧ Guards projectId keep disk.tags (keep ++ pins) :=
    ⟨wellFormed, fun key either => mem_append.mpr (either.imp_right (pinned key))⟩
  exact ensures_ite (fun _ => ensures_pure ⟨rfl, gathered⟩) fun _ =>
    ensures_loaded loads listing rfl (ensures_pure ⟨rfl, gathered⟩)

/-! ### Rotation -/

variable (digests projectId) in
/-- The steps of rotation. A version is recorded as moved only when the external store
holds its content, and an object is removed only when no version of it is local and
the external store holds it. -/
inductive RotateStep (config : RotationBackendConfig) (guarded : List Key) :
    Disk Content → Disk Content → Prop
  | sidecars (disk : Disk Content) (sidecars : AList fun _ : String => Parsed ObjectMeta) :
      RotateStep config guarded disk { disk with sidecars := sidecars }
  | upload (disk : Disk Content) (hash : String) (content : Content)
      (object : disk.objects.lookup hash = some content) :
      RotateStep config guarded disk
        (disk.withStored config.place (objectKey digests projectId hash) (some content))
  | record (disk : Disk Content) (key : Key) (entry : IndexEntry) (content : Content)
      (free : key ∉ guarded) (found : (disk.saved projectId).get key = some entry)
      (here : entry.offloaded = none)
      (held : disk.stores config.place (objectKey digests projectId entry.hash) = some content)
      (right : genuine digests entry.hash entry.size entry.crc content = true) :
      RotateStep config guarded disk
        { disk.withIndex ((disk.saved projectId).insert key
            (moved config (objectKey digests projectId entry.hash) entry)) with
          recorded := (config.place, objectKey digests projectId entry.hash) :: disk.recorded }
  | drop (disk : Disk Content) (hash : String) (content : Content)
      (unused : hasLocalReference (disk.saved projectId) hash = false)
      (held : disk.stores config.place (objectKey digests projectId hash) = some content)
      (right : digests.blake3 content = hash) :
      RotateStep config guarded disk (disk.withoutObject hash)

theorem RotateStep.loads {after : Disk Content}
    (step : RotateStep digests projectId config guarded disk after)
    (loads : disk.Loads projectId) : after.Loads projectId := by
  cases step with
  | record key entry content free found here held right =>
    obtain ⟨validKey, validHash⟩ := loads.sound.valid key entry found
    exact ⟨by simp [Disk.withIndex], loads.sound.insert validKey validHash⟩
  | _ => exact ⟨loads.readable, loads.sound⟩

/-- The object was put in the external store, or nothing was changed. -/
def Uploaded (digests : Digests Content) (projectId : String) (config : RotationBackendConfig)
    (hash : String) (disk after : Disk Content) : Prop :=
  after = disk ∨ ∃ content, disk.objects.lookup hash = some content ∧
    after = disk.withStored config.place (objectKey digests projectId hash) (some content)

theorem ensures_upload (index : HistoryIndex) (config : RotationBackendConfig) (hash : String) :
    Keeps (upload index config (objectKey digests projectId hash) hash)
      (Uploaded digests projectId config hash disk) disk := by
  refine ensures_ite (fun _ => ensures_pure (.inl rfl)) fun _ => ensures_step (.inl rfl) ?_
  intro _ after put
  cases object : disk.objects.lookup hash with
  | none => simp [object] at put
  | some content =>
    simp only [object, Except.ok.injEq, Prod.mk.injEq] at put
    obtain ⟨_, rfl⟩ := put
    exact ⟨.inr ⟨content, object, rfl⟩, .inr ⟨content, object, rfl⟩⟩

theorem ensures_checkUpload (place : Place) (external : String) (entry : IndexEntry) :
    Looks (checkUpload digests place external entry) (fun _ => ∃ content,
      disk.stores place external = some content ∧
        genuine digests entry.hash entry.size entry.crc content = true) disk := by
  refine ensures_bind (ensures_read rfl ?_)
  cases (disk.stores place external).isSome with
  | false => exact ensures_bind (ensures_throw rfl)
  | true =>
    refine ensures_bind (ensures_read rfl ?_)
    cases (disk.stores place external).map digests.size with
    | none => exact ensures_bind (ensures_throw rfl)
    | some size =>
      refine ensures_ite (fun _ => ensures_bind (ensures_throw rfl)) fun _ => ?_
      refine ensures_getAt.bind rfl fun content held => ?_
      refine (ensures_validateFetched digests content entry disk).bind rfl fun valid right => ?_
      cases valid with
      | true => exact ensures_pure ⟨rfl, content, held, right rfl⟩
      | false => exact ensures_throw rfl

theorem hasLocalReference_eq_false_iff {hash : String} :
    hasLocalReference index hash = false ↔
      ∀ key entry, index.get key = some entry → entry.hash = hash → entry.offloaded ≠ none := by
  rw [hasLocalReference, any_eq_false]
  constructor
  · intro unused key entry found named here
    exact unused (key, entry) (mem_iterAll.mpr found) (by simp [named, here])
  · rintro unused ⟨key, entry⟩ listed
    have away := unused key entry (mem_iterAll.mp listed)
    simpa [Option.isNone_iff_eq_none] using away

/-- The entry of a version that was moved. -/
def movedEntry (digests : Digests Content) (projectId : String) (config : RotationBackendConfig)
    (entry : IndexEntry) : IndexEntry :=
  moved config (objectKey digests projectId entry.hash) entry

/-- The disk with the version's new record. -/
def withRecord (digests : Digests Content) (projectId : String) (config : RotationBackendConfig)
    (key : Key) (entry : IndexEntry) (disk : Disk Content) : Disk Content :=
  disk.appended projectId entry.hash ((movedEntry digests projectId config entry).reference key)

/-- The disk with the version's new record and new entry. -/
def withEntry (digests : Digests Content) (projectId : String) (config : RotationBackendConfig)
    (index : HistoryIndex) (key : Key) (entry : IndexEntry) (disk : Disk Content) : Disk Content :=
  { (withRecord digests projectId config key entry disk).withIndex
      (index.insert key (movedEntry digests projectId config entry)) with
    recorded := (config.place, objectKey digests projectId entry.hash) :: disk.recorded }

/-- The version is recorded as moved; its object may be gone if no version of it is local. -/
def Recorded (digests : Digests Content) (projectId : String) (config : RotationBackendConfig)
    (index : HistoryIndex) (key : Key) (entry : IndexEntry) (disk after : Disk Content) : Prop :=
  after = withEntry digests projectId config index key entry disk ∨
    hasLocalReference (index.insert key (movedEntry digests projectId config entry)) entry.hash =
        false ∧
      after = (withEntry digests projectId config index key entry disk).withoutObject entry.hash

theorem ensures_settleMove_writes (config : RotationBackendConfig) (index : HistoryIndex)
    (key : Key) (entry : IndexEntry) (disk : Disk Content) :
    Ensures (settleMove digests projectId config index key entry)
      (fun current after =>
        current = index.insert key (movedEntry digests projectId config entry) ∧
          Recorded digests projectId config index key entry disk after)
      (fun after => after = disk ∨ after = withRecord digests projectId config key entry disk ∨
        Recorded digests projectId config index key entry disk after) disk := by
  refine ensures_bind ((ensures_appendObjectRef projectId entry.hash
    ((movedEntry digests projectId config entry).reference key) disk).weaken ?_ ?_)
  · rintro _ after rfl
    refine ensures_bind (ensures_write (.inr (.inl rfl)) ?_ (.inr (.inr (.inl rfl))))
    by_cases unused : hasLocalReference
        (index.insert key (movedEntry digests projectId config entry)) entry.hash = false
    · have dropped : Recorded digests projectId config index key entry disk
          ((withEntry digests projectId config index key entry disk).withoutObject entry.hash) :=
        .inr ⟨unused, rfl⟩
      simp only [movedEntry] at unused
      simp only [if_pos unused]
      exact ensures_ignored (ensures_write ⟨.inr (.inr (.inl rfl)), ensures_pure ⟨rfl, .inl rfl⟩⟩
        (ensures_pure ⟨rfl, dropped⟩) ⟨.inr (.inr dropped), ensures_pure ⟨rfl, dropped⟩⟩)
    · simp only [movedEntry] at unused
      simp only [if_neg unused]
      exact ensures_pure ⟨rfl, .inl rfl⟩
  · rintro after (rfl | rfl)
    · exact .inl rfl
    · exact .inr (.inl rfl)

section Upheld

variable {holds stops : Disk Content → Prop}

variable (digests projectId) in
/-- A property that rotation upholds, and one that holds wherever it stops. -/
structure Rotates (config : RotationBackendConfig) (guarded : List Key)
    (holds stops : Disk Content → Prop) : Prop where
  stopped : ∀ disk, holds disk → stops disk
  upload : ∀ disk hash content, holds disk → disk.objects.lookup hash = some content →
    holds (disk.withStored config.place (objectKey digests projectId hash) (some content))
  record : ∀ disk key entry content, holds disk → key ∉ guarded →
    (disk.saved projectId).get key = some entry → entry.offloaded = none →
    disk.stores config.place (objectKey digests projectId entry.hash) = some content →
    genuine digests entry.hash entry.size entry.crc content = true →
    stops (withRecord digests projectId config key entry disk) ∧
      holds (withEntry digests projectId config (disk.saved projectId) key entry disk)
  drop : ∀ disk hash content, holds disk → hash ∈ (disk.saved projectId).referencedHashes →
    hasLocalReference (disk.saved projectId) hash = false →
    disk.stores config.place (objectKey digests projectId hash) = some content →
    digests.blake3 content = hash → holds (disk.withoutObject hash)

variable (rotates : Rotates digests projectId config guarded holds stops)

include rotates

theorem Rotates.settleMove {entry : IndexEntry}
    (holding : holds disk)
    (free : key ∉ guarded) (found : (disk.saved projectId).get key = some entry)
    (here : entry.offloaded = none)
    (held : disk.stores config.place (objectKey digests projectId entry.hash) = some content)
    (right : genuine digests entry.hash entry.size entry.crc content = true) :
    Ensures (settleMove digests projectId config (disk.saved projectId) key entry)
      (fun index after => index = after.saved projectId ∧ holds after) stops disk := by
  obtain ⟨appended, recorded⟩ := rotates.record disk key entry content holding free found here
    held right
  have settled : ∀ after, Recorded digests projectId config (disk.saved projectId) key entry disk
      after → (disk.saved projectId).insert key (movedEntry digests projectId config entry) =
        after.saved projectId ∧ holds after := by
    rintro after (rfl | ⟨unused, rfl⟩)
    · exact ⟨rfl, recorded⟩
    · have named : entry.hash ∈ (withEntry digests projectId config (disk.saved projectId) key entry
          disk |>.saved projectId).referencedHashes :=
        mem_referencedHashes.mpr ⟨key, movedEntry digests projectId config entry,
          get_insert_self _ key _, rfl⟩
      exact ⟨rfl, rotates.drop _ entry.hash content recorded named unused held
        (genuine_hash digests right)⟩
  refine (ensures_settleMove_writes config (disk.saved projectId) key entry disk).weaken ?_ ?_
  · rintro index after ⟨rfl, moved⟩
    exact settled after moved
  · rintro after (rfl | rfl | moved)
    · exact rotates.stopped _ holding
    · exact appended
    · exact rotates.stopped _ (settled after moved).2

theorem Rotates.offload {progress : HistoryIndex × RotationReport}
    (current : progress.1 = disk.saved projectId) (holding : holds disk) (free : key ∉ guarded) :
    Ensures (HistoryStore.offload digests projectId config progress key)
      (fun progress after => progress.1 = after.saved projectId ∧ holds after) stops disk := by
  unfold HistoryStore.offload
  cases found : progress.1.get key with
  | none => exact ensures_pure ⟨current, holding⟩
  | some entry =>
    refine ensures_ite (fun _ => ensures_pure ⟨current, holding⟩) fun away => ?_
    have here : entry.offloaded = none := by simpa using away
    -- Only the external store may have changed by the upload.
    have uploaded : ∀ after, Uploaded digests projectId config entry.hash disk after →
        progress.1 = after.saved projectId ∧ holds after := by
      rintro after (rfl | ⟨content, object, rfl⟩)
      · exact ⟨current, holding⟩
      · exact ⟨current, rotates.upload disk entry.hash content holding object⟩
    refine ensures_bind (ensures_attempt ((ensures_upload progress.1 config entry.hash).weaken
      ?_ ?_))
    · intro _ after changed
      obtain ⟨same, still⟩ := uploaded after changed
      refine ensures_bind (ensures_attempt ((ensures_checkUpload config.place
        (objectKey digests projectId entry.hash) entry).weaken ?_ ?_))
      · rintro _ later ⟨rfl, content, held, right⟩
        rw [same] at found
        simp only [same]
        exact ensures_bind ((rotates.settleMove still free found here held right).weaken
          (fun index last moved => ensures_pure moved) fun last moved => moved)
      · rintro later rfl
        exact ⟨rotates.stopped _ still, fun error => ensures_pure ⟨same, still⟩⟩
    · intro after changed
      exact ⟨rotates.stopped _ (uploaded after changed).2,
        fun error => ensures_pure (uploaded after changed)⟩

end Upheld

/-- All tags could be read, and the steps taken respect what is protected. -/
def RespectsTags (projectId : String) (keep : List Key)
    (steps : List Key → Disk Content → Disk Content → Prop) (disk after : Disk Content) : Prop :=
  ¬ Malformed projectId disk.tags ∧ ∃ guarded, Guards projectId keep disk.tags guarded ∧
    ReflTransGen (steps guarded) disk after

/-- Rotation fails without a change, or moves versions that are not protected. -/
theorem ensures_rotate_with {holds stops : List Key → Disk Content → Prop} {keep : List Key}
    {config : HistoryConfig} (loads : disk.Loads projectId)
    (rotates : ∀ guarded, Rotates digests projectId config.rotation.backend guarded (holds guarded)
      (stops guarded)) (initial : ∀ guarded, holds guarded disk) (listing : Listing)
    (dryRun : Bool) (nowMs : UInt64) :
    Ensures (rotate digests listing config projectId keep dryRun nowMs)
      (fun _ after => ¬ Malformed projectId disk.tags ∧ ∃ guarded,
        Guards projectId keep disk.tags guarded ∧ holds guarded after)
      (fun after => after = disk ∨ ¬ Malformed projectId disk.tags ∧ ∃ guarded,
        Guards projectId keep disk.tags guarded ∧ stops guarded after) disk := by
  refine ensures_ite (fun _ => ensures_bind (ensures_throw (.inl rfl))) fun _ => ?_
  refine ensures_opened config (.inl rfl) (ensures_loaded loads listing (.inl rfl) ?_)
  refine (ensures_protectedVersions loads listing config keep).bind (.inl rfl) ?_
  rintro guarded ⟨wellFormed, guards⟩
  cases dryRun with
  | true => exact ensures_pure ⟨wellFormed, guarded, guards, initial guarded⟩
  | false =>
    refine ensures_bind (ensures_settle (fun _ _ => ?_) fun _ _ => .inl rfl)
    refine ensures_bind (Ensures.weaken (ensures_loop (fun progress after =>
      progress.1 = after.saved projectId ∧ holds guarded after) ⟨rfl, initial guarded⟩ ?_)
      ?_ fun _ held => .inr ⟨wellFormed, guarded, guards, held⟩)
    · rintro key candidate progress later ⟨current, still⟩
      exact (rotates guarded).offload current still (mem_selectCandidates candidate).unguarded
    · rintro progress later ⟨_, still⟩
      exact ensures_pure ⟨wellFormed, guarded, guards, still⟩

theorem rotates_steps (start : Disk Content) :
    Rotates digests projectId config guarded
      (ReflTransGen (RotateStep digests projectId config guarded) start)
      (ReflTransGen (RotateStep digests projectId config guarded) start) where
  stopped _ reached := reached
  upload disk hash content reached object := reached.tail (.upload disk hash content object)
  record disk key entry content reached free found here held right :=
    have appended := reached.tail (.sidecars disk _)
    ⟨appended, appended.tail (.record _ key entry content free found here held right)⟩
  drop disk hash content reached _ unused held right :=
    reached.tail (.drop disk hash content unused held right)

/-- Rotation fails without a change, or takes steps that respect what is protected. -/
theorem ensures_rotate (loads : disk.Loads projectId) (listing : Listing) (config : HistoryConfig)
    (keep : List Key) (dryRun : Bool) (nowMs : UInt64) :
    Ensures (rotate digests listing config projectId keep dryRun nowMs)
      (fun _ => RespectsTags projectId keep
        (RotateStep digests projectId config.rotation.backend) disk)
      (fun after => after = disk ∨ RespectsTags projectId keep
        (RotateStep digests projectId config.rotation.backend) disk after) disk :=
  ensures_rotate_with loads (fun _ => rotates_steps disk) (fun _ => .refl) listing dryRun nowMs

/-! ### Collection -/

variable (projectId) in
/-- The steps of collection. The index loses only local versions that are not guarded,
and an object is removed only when no version refers to it. -/
inductive SweepStep (guarded : List Key) : Disk Content → Disk Content → Prop
  | sidecars (disk : Disk Content) (sidecars : AList fun _ : String => Parsed ObjectMeta) :
      SweepStep guarded disk { disk with sidecars := sidecars }
  | shrink (disk : Disk Content) (index : HistoryIndex)
      (format : index.format = (disk.saved projectId).format)
      (project : index.projectId = (disk.saved projectId).projectId)
      (subset : ∀ key entry, index.get key = some entry →
        (disk.saved projectId).get key = some entry)
      (keeps : ∀ key entry, (disk.saved projectId).get key = some entry →
        entry.offloaded ≠ none ∨ key ∈ guarded → index.get key = some entry) :
      SweepStep guarded disk (disk.withIndex index)
  | drop (disk : Disk Content) (hash : String)
      (unused : hash ∉ (disk.saved projectId).referencedHashes) :
      SweepStep guarded disk (disk.withoutObject hash)

theorem SweepStep.loads {after : Disk Content}
    (step : SweepStep projectId guarded disk after) (loads : disk.Loads projectId) :
    after.Loads projectId := by
  cases step with
  | shrink index format project subset keeps =>
    exact ⟨by simp [Disk.withIndex], loads.sound.of_subset format project subset⟩
  | _ => exact ⟨loads.readable, loads.sound⟩

/-- What taking versions out of the index gives. -/
structure Removed (index : HistoryIndex) (victims : List Key)
    (result : HistoryIndex × List (Key × String)) : Prop where
  format : result.1.format = index.format
  project : result.1.projectId = index.projectId
  get : ∀ key, result.1.get key = if key ∈ victims then none else index.get key
  listed : ∀ key hash, (key, hash) ∈ result.2 ↔
    key ∈ victims ∧ ∃ entry, index.get key = some entry ∧ entry.hash = hash

/-- One more victim that is not in the index changes nothing. -/
theorem Removed.absent (removed : Removed index victims result) (absent : result.1.get key = none) :
    Removed index (victims ++ [key]) result where
  format := removed.format
  project := removed.project
  get := by
    intro other
    by_cases same : other = key
    · rw [same, absent]
      simp
    · rw [removed.get other]
      simp [same]
  listed := by
    intro other hash
    rw [removed.listed, mem_append, mem_singleton]
    constructor
    · rintro ⟨member, held⟩
      exact ⟨.inl member, held⟩
    · rintro ⟨member | rfl, entry, found, same⟩
      · exact ⟨member, entry, found, same⟩
      · by_cases member : other ∈ victims
        · exact ⟨member, entry, found, same⟩
        · simp [removed.get other, if_neg member, found] at absent

/-- One more victim is taken out and noted with its hash. -/
theorem Removed.present (removed : Removed index victims result) {entry : IndexEntry}
    (present : result.1.get key = some entry) :
    Removed index (victims ++ [key])
      (result.1.remove key, result.2 ++ [(key, entry.hash)]) where
  format := removed.format
  project := removed.project
  get := by
    intro other
    rw [get_remove, removed.get other]
    by_cases same : other = key <;> simp [same]
  listed := by
    have held : index.get key = some entry := by
      rw [removed.get key] at present
      split_ifs at present
      exact present
    intro other hash
    rw [mem_append, removed.listed, mem_singleton, mem_append, mem_singleton]
    constructor
    · rintro (⟨member, found⟩ | same)
      · exact ⟨.inl member, found⟩
      · cases same
        exact ⟨.inr rfl, entry, held, rfl⟩
    · rintro ⟨member | rfl, other, found, same⟩
      · exact .inl ⟨member, other, found, same⟩
      · rw [held] at found
        cases found
        exact .inr (by rw [same])

theorem removeVictims_removed (index : HistoryIndex) (victims : List Key) :
    Removed index victims (removeVictims index victims) := by
  -- The induction takes the last victim off, as the fold does.
  induction victims using List.reverseRecOn with
  | nil => exact ⟨rfl, rfl, fun key => by simp [removeVictims], by simp [removeVictims]⟩
  | append_singleton earlier last ih =>
    have unfolded : removeVictims index (earlier ++ [last]) =
        removeVictim (removeVictims index earlier) last := by simp [removeVictims]
    rw [unfolded]
    unfold removeVictim
    cases present : (removeVictims index earlier).1.get last with
    | none => exact ih.absent present
    | some entry => exact ih.present present

theorem withoutRef_sidecars (disk : Disk Content) (hash : String) (key : Key) :
    disk.withoutRef hash key =
      { disk with sidecars := (disk.withoutRef hash key).sidecars } := by
  unfold Disk.withoutRef
  split
  · split_ifs <;> rfl
  · rfl

theorem ensures_objectSize (hash : String) :
    Looks (objectSize digests hash) (fun _ => True) disk := by
  refine ensures_bind (ensures_attempt (ensures_read ⟨rfl, fun error => ?_⟩ ?_))
  · exact ensures_pure ⟨rfl, trivial⟩
  · cases disk.objects.lookup hash with
    | none | some content => exact ensures_pure ⟨rfl, trivial⟩

/-- The saved index is the given one, and the disk was reached by steps of collection. -/
def Sweeping (projectId : String) (guarded : List Key) (start : Disk Content)
    (index : HistoryIndex) (after : Disk Content) : Prop :=
  after.saved projectId = index ∧ ReflTransGen (SweepStep projectId guarded) start after

theorem ensures_discard {start : Disk Content} {hash : String}
    (unused : hash ∉ index.referencedHashes)
    (sweeping : Sweeping projectId guarded start index disk) :
    Keeps (discard hash) (Sweeping projectId guarded start index) disk := by
  obtain ⟨saved, steps⟩ := sweeping
  have dropped : Sweeping projectId guarded start index (disk.withoutObject hash) :=
    ⟨saved, steps.tail (.drop disk hash (saved ▸ unused))⟩
  have cleared : ∀ later, Sweeping projectId guarded start index later →
      Sweeping projectId guarded start index (later.withoutSidecar hash) :=
    fun later held => ⟨held.1, held.2.tail (.sidecars later _)⟩
  have second : ∀ later, Sweeping projectId guarded start index later →
      Keeps (do let _ ← attempt (write fun disk => disk.withoutSidecar hash) : Store Content Unit)
        (Sweeping projectId guarded start index) later :=
    fun later held => ensures_ignored (ensures_write ⟨held, ensures_pure held⟩
      (ensures_pure (cleared later held)) ⟨cleared later held, ensures_pure (cleared later held)⟩)
  exact ensures_ignored (ensures_write ⟨⟨saved, steps⟩, second _ ⟨saved, steps⟩⟩
    (second _ dropped) ⟨dropped, second _ dropped⟩)

theorem ensures_collect {start : Disk Content} (report : GcReport) (hash : String)
    (sweeping : Sweeping projectId guarded start index disk) :
    Keeps (collect digests index.referencedHashes report hash)
      (Sweeping projectId guarded start index) disk := by
  refine ensures_bind (ensures_pass sweeping ?_)
  refine ensures_ite (fun _ => ensures_pure sweeping) fun used => ?_
  refine (ensures_objectSize hash).bind sweeping fun size _ => ?_
  have unused : hash ∉ index.referencedHashes := by simpa using used
  exact ensures_bind ((ensures_discard unused sweeping).weaken
    (fun _ later held => ensures_pure held) fun later held => held)

theorem ensures_removeRecord {start : Disk Content} (report : GcReport) (version : Key × String)
    (sweeping : Sweeping projectId guarded start index disk) :
    Keeps (removeRecord report version) (Sweeping projectId guarded start index) disk := by
  have removed : Sweeping projectId guarded start index
      (disk.withoutRef version.2 version.1) := by
    rw [withoutRef_sidecars]
    exact ⟨sweeping.1, sweeping.2.tail (.sidecars disk _)⟩
  refine ensures_bind ((ensures_removeObjectRef version.2 version.1 disk).weaken ?_ ?_)
  · rintro _ after rfl
    exact ensures_pure removed
  · rintro after (rfl | rfl)
    · exact sweeping
    · exact removed

theorem ensures_sweep (listing : Listing)
    (evictable : ∀ key ∈ victims, Evictable (disk.saved projectId) guarded key) :
    Keeps (sweep digests listing (disk.saved projectId) victims)
      (ReflTransGen (SweepStep projectId guarded) disk) disk := by
  obtain ⟨format, project, get, _⟩ := removeVictims_removed (disk.saved projectId) victims
  have shrunk : Sweeping projectId guarded disk (removeVictims (disk.saved projectId) victims).1
      (disk.withIndex (removeVictims (disk.saved projectId) victims).1) := by
    refine ⟨rfl, .single (.shrink disk _ format project ?_ ?_)⟩
    · intro key entry found
      rw [get key] at found
      split_ifs at found
      exact found
    · intro key entry found reason
      rw [get key]
      split_ifs with victim
      · obtain ⟨free, other, present, here⟩ := evictable key victim
        rw [found] at present
        cases present
        exact reason.elim (absurd here) fun member => absurd member free
      · exact found
  have stops : ∀ after, Sweeping projectId guarded disk
      (removeVictims (disk.saved projectId) victims).1 after →
      ReflTransGen (SweepStep projectId guarded) disk after := fun after held => held.2
  refine ensures_bind (ensures_write .refl ?_ shrunk.2)
  refine ensures_bind (Ensures.weaken (ensures_loop (fun _ => Sweeping projectId guarded disk
    (removeVictims (disk.saved projectId) victims).1) shrunk
    fun version _ report after => ensures_removeRecord report version) ?_ stops)
  intro report after held
  refine ensures_bind (ensures_bind (ensures_read held.2 (ensures_pure ?_)))
  refine ensures_bind (Ensures.weaken (ensures_loop (fun _ => Sweeping projectId guarded disk
    (removeVictims (disk.saved projectId) victims).1) held
    fun hash _ report after => ensures_collect report hash) ?_ stops)
  intro report after held
  exact ensures_bind (ensures_pass held.2 (ensures_pure held.2))

/-- Objects go when the index is empty. -/
theorem ensures_removeObjects (listing : Listing) {start : Disk Content}
    (sweeping : Sweeping projectId [] start (.new projectId) disk) :
    Keeps (removeObjects listing) (Sweeping projectId [] start (.new projectId)) disk := by
  have unused : ∀ hash, hash ∉ (new projectId).referencedHashes := by
    intro hash member
    obtain ⟨key, entry, found, _⟩ := mem_referencedHashes.mp member
    simp at found
  refine ensures_bind (ensures_read sweeping ?_)
  refine Ensures.bind (ensures_loop
    (fun _ => Sweeping projectId [] start (.new projectId)) sweeping ?_) ?_
  · intro hash _ _ after held
    have dropped : Sweeping projectId [] start (.new projectId) (after.withoutObject hash) :=
      ⟨held.1, held.2.tail (.drop after hash (held.1 ▸ unused hash))⟩
    exact ensures_write held dropped dropped
  · intro _ after held
    refine ensures_bind (ensures_read held ?_)
    refine ensures_loop _ held ?_
    intro hash _ _ later held
    have erased : Sweeping projectId [] start (.new projectId) (later.withoutSidecar hash) :=
      ⟨held.1, held.2.tail (.sidecars later _)⟩
    exact ensures_write held erased erased

theorem ensures_addSizes (freed : UInt64) (hashes : List String) :
    Looks (loop (addSize digests) freed hashes) (fun _ => True) disk := by
  refine ensures_loop _ ⟨rfl, trivial⟩ ?_
  rintro hash _ sum after ⟨rfl, _⟩
  exact (ensures_objectSize hash).bind rfl fun _ _ => ensures_pure ⟨rfl, trivial⟩

theorem ensures_purge (loads : disk.Loads projectId) (listing : Listing) :
    Keeps (purge digests listing projectId (disk.saved projectId))
      (ReflTransGen (SweepStep projectId []) disk) disk := by
  refine ensures_ite (fun _ => ensures_bind (ensures_throw .refl)) fun offloaded => ?_
  have allLocal : ∀ key entry, (disk.saved projectId).get key = some entry →
      entry.offloaded = none := by
    intro key entry found
    by_contra away
    refine offloaded (length_pos_of_mem (mem_filter.mpr
      ⟨mem_iterAll.mpr found, ?_⟩))
    simpa [Option.isSome_iff_ne_none] using away
  have cleared : Sweeping projectId [] disk (.new projectId)
      (disk.withIndex (.new projectId)) := by
    refine ⟨rfl, .single (.shrink disk _ loads.sound.format.symm loads.sound.project.symm ?_ ?_)⟩
    · intro key entry found
      simp at found
    · intro key entry found reason
      rcases reason with away | member
      · exact absurd (allLocal key entry found) away
      · cases member
  refine (ensures_addSizes 0 _).bind .refl fun _ _ => ?_
  refine ensures_bind (ensures_write .refl ?_ cleared.2)
  refine ensures_bind ((ensures_removeObjects listing cleared).weaken ?_ fun _ held => held.2)
  intro _ later held
  exact ensures_bind (ensures_pass held.2 (ensures_pure held.2))

/-- Collection fails without a change, or takes steps that respect what is protected. -/
theorem ensures_gc (loads : disk.Loads projectId) (listing : Listing) (config : HistoryConfig)
    (keep : List Key) (nowMs : UInt64) :
    Ensures (gc digests listing config projectId keep false nowMs)
      (fun _ => RespectsTags projectId keep (SweepStep projectId) disk)
      (fun after => after = disk ∨ RespectsTags projectId keep (SweepStep projectId) disk after)
      disk := by
  refine ensures_opened config (.inl rfl) (ensures_loaded loads listing (.inl rfl) ?_)
  refine (ensures_protectedVersions loads listing config keep).bind (.inl rfl) ?_
  rintro guarded ⟨wellFormed, guards⟩
  refine (ensures_sweep listing fun key victim => mem_applyRetention victim).weaken ?_ ?_
  · intro _ later steps
    exact ⟨wellFormed, guarded, guards, steps⟩
  · intro later steps
    exact .inr ⟨wellFormed, guarded, guards, steps⟩

/-- A purge only shrinks the index and removes objects. -/
theorem ensures_gc_purge (loads : disk.Loads projectId) (listing : Listing)
    (config : HistoryConfig) (keep : List Key) (nowMs : UInt64) :
    Keeps (gc digests listing config projectId keep true nowMs)
      (ReflTransGen (SweepStep projectId []) disk) disk :=
  ensures_opened config .refl (ensures_loaded loads listing .refl (ensures_purge loads listing))

end Digests

/-! ### Tags -/

/-- Only the tags differ. -/
def SameButTags (disk after : Disk Content) : Prop := ∃ tags, after = { disk with tags := tags }

variable {disk : Disk Content}

theorem SameButTags.refl (disk : Disk Content) : SameButTags disk disk := ⟨disk.tags, rfl⟩

theorem ensures_openTagsDir {start : Disk Content} (same : SameButTags start disk) :
    Keeps openTagsDir (SameButTags start) disk := by
  refine ensures_bind (ensures_read same ?_)
  cases disk.tags with
  | missing => exact ensures_pure same
  | irregular => exact ensures_throw same
  | files files => exact ensures_bind (ensures_pass same (ensures_pure same))

theorem ensures_prepareTagsDir :
    Keeps prepareTagsDir (SameButTags disk) disk := by
  refine ensures_bind (ensures_write (.refl disk) ?_ ?_)
  · refine Ensures.bind (ensures_openTagsDir ?_) ?_
    · split
      · exact ⟨.files ∅, rfl⟩
      · exact .refl disk
    · intro files after held
      cases files with
      | none => exact ensures_throw held
      | some files => exact ensures_pure held
  · split
    · exact ⟨.files ∅, rfl⟩
    · exact .refl disk

theorem SameButTags.with {start : Disk Content} (same : SameButTags start disk) (tags : TagsDir) :
    SameButTags start { disk with tags := tags } := by
  obtain ⟨other, rfl⟩ := same
  exact ⟨tags, rfl⟩

theorem ensures_saveTag (projectId name : String) (createdAt : UInt64)
    (pins : AList fun _ : String => UInt64) :
    Keeps (saveTag projectId name createdAt pins) (SameButTags disk) disk := by
  refine ensures_bind (ensures_settle (fun file _ => ?_) fun _ _ => .refl disk)
  refine ensures_ite (fun _ => ensures_bind (ensures_throw (.refl disk))) fun _ => ?_
  refine ensures_prepareTagsDir.bind ?_
  intro files after held
  refine ensures_bind (ensures_pass held (ensures_ite (fun _ => ?_) fun _ => ?_))
  · exact ensures_bind (ensures_throw held)
  · exact ensures_bind (ensures_write held (ensures_pure (held.with _)) (held.with _))

theorem ensures_loadTag (projectId name : String) :
    Keeps (loadTag projectId name) (SameButTags disk) disk := by
  refine ensures_bind (ensures_settle (fun file _ => ?_) fun _ _ => .refl disk)
  refine (ensures_openTagsDir (.refl disk)).bind ?_
  intro files after held
  cases files with
  | none => exact ensures_pure held
  | some files =>
    refine ensures_bind (ensures_pass held ?_)
    cases files.lookup file with
    | none => exact ensures_pure held
    | some content =>
      cases content with
      | irregular | unreadable | garbled => exact ensures_throw held
      | holds tag =>
        refine ensures_bind (ensures_pass held ?_)
        exact ensures_bind (ensures_settle (fun _ _ => ensures_pure held) fun _ _ => held)

theorem ensures_removeTag (projectId name : String) :
    Keeps (removeTag projectId name) (SameButTags disk) disk := by
  refine ensures_bind (ensures_settle (fun file _ => ?_) fun _ _ => .refl disk)
  refine (ensures_loadTag projectId name).bind ?_
  intro tag after held
  cases tag with
  | none => exact ensures_pure held
  | some tag =>
    refine (ensures_openTagsDir held).bind ?_
    intro files later held
    cases files with
    | none => exact ensures_pure held
    | some files =>
      exact ensures_bind (ensures_write held (ensures_pure (held.with _)) (held.with _))

theorem ensures_tagAdd (config : HistoryConfig) (projectId name : String)
    (pins : AList fun _ : String => UInt64) (nowMs : UInt64) :
    Keeps (tagAdd config projectId name pins nowMs) (SameButTags disk) disk := by
  refine ensures_ite (fun _ => ensures_bind (ensures_throw (.refl disk))) fun _ => ?_
  exact ensures_opened config (.refl disk) (ensures_saveTag projectId name nowMs pins)

theorem ensures_tagRemove (config : HistoryConfig) (projectId name : String) :
    Keeps (tagRemove config projectId name) (SameButTags disk) disk := by
  refine ensures_ite (fun _ => ensures_bind (ensures_throw (.refl disk))) fun _ => ?_
  exact ensures_opened config (.refl disk) (ensures_removeTag projectId name)

end Synergos.HistorySteps
