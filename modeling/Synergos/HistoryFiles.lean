import Mathlib.Data.List.AList
import Mathlib.Data.List.Dedup
import Mathlib.Data.List.Sort
import Synergos.Faults
import Synergos.SafePath

/-!
# The index and the sidecars of a history store

A history node keeps the content of every version it has seen under the content's
hash, in `objects/`. `index.json` says which content belongs to a version of a
path; beside each object a sidecar lists the versions that refer to it, so that a
corrupt index can be rebuilt. Index and sidecars are replaced by a rename, so each
of these writes is one step. Temporary files have fresh names and are read by
nothing; they are left out.

The digests of a file's content are parameters, and so is the order in which a
directory is listed.
-/

namespace Synergos.HistoryFiles

open Faults Faults.Program SafePath List

/-! ### Errors and configuration -/

inductive ErrorKind where
  | notFound
  | alreadyExists
  | invalidInput
  | invalidData
  | permissionDenied
  | other
  deriving DecidableEq, Repr

structure IoError where
  kind : ErrorKind
  message : String
  deriving DecidableEq, Repr

/-- A fault of the environment is never reported as a missing file. -/
instance : Reports IoError := ⟨fun reason => ⟨.other, reason⟩⟩

inductive RotationBackendConfig where
  | s3 (bucket keyPrefix region : String)
  | localPath (path : String)
  | gdrive (folderId credentialsFile : String)
  | unset
  deriving DecidableEq, Repr

/-- The characters that are trimmed from both ends of a setting. -/
def isWhitespace (char : Char) : Bool :=
  (9 ≤ char.toNat && char.toNat ≤ 13) || (0x2000 ≤ char.toNat && char.toNat ≤ 0x200a) ||
    [0x20, 0x85, 0xa0, 0x1680, 0x2028, 0x2029, 0x202f, 0x205f, 0x3000].contains char.toNat

def isBlank (setting : String) : Bool := setting.toList.all isWhitespace

def RotationBackendConfig.validate : RotationBackendConfig → Except String Unit
  | .s3 bucket _ region =>
    if isBlank bucket then .error "history.rotation.backend.bucket must not be empty"
    else if isBlank region then .error "history.rotation.backend.region must not be empty"
    else .ok ()
  | .localPath path =>
    if isBlank path then .error "history.rotation.backend.path must not be empty" else .ok ()
  | .gdrive folderId credentialsFile =>
    if isBlank folderId then .error "history.rotation.backend.folder_id must not be empty"
    else if isBlank credentialsFile then
      .error "history.rotation.backend.credentials_file must not be empty"
    else .ok ()
  | .unset => .error ("history.rotation.backend must be one of s3 / local_path / gdrive " ++
      "when rotation.enabled = true")

structure HistoryRotationConfig where
  enabled : Bool
  offloadAfterDays : UInt64
  backend : RotationBackendConfig
  deriving DecidableEq, Repr

structure HistoryConfig where
  enabled : Bool
  projects : List String
  maxVersionsPerFile : UInt64
  maxAgeDays : UInt64
  maxBytes : UInt64
  rotation : HistoryRotationConfig
  deriving DecidableEq, Repr

def HistoryConfig.covers (config : HistoryConfig) (projectId : String) : Bool :=
  config.enabled && config.projects.any fun project => project == "*" || project == projectId

/-- The store that a configuration leads to. Credentials open a folder, they do not
name another one. -/
inductive Place where
  | s3 (bucket keyPrefix region : String)
  | localPath (path : String)
  | gdrive (folderId : String)
  | unset
  deriving DecidableEq, Repr

def RotationBackendConfig.place : RotationBackendConfig → Place
  | .s3 bucket keyPrefix region => .s3 bucket keyPrefix region
  | .localPath path => .localPath path
  | .gdrive folderId _ => .gdrive folderId
  | .unset => .unset

/-! ### Entries -/

/-- Where a version was moved to. -/
structure OffloadedRef where
  backend : String
  key : String
  config : Option RotationBackendConfig
  deriving DecidableEq, Repr

/-- One version of one path. -/
structure IndexEntry where
  hash : String
  size : UInt64
  crc : UInt32
  storedAt : UInt64
  publisher : String
  source : String
  offloaded : Option OffloadedRef
  deriving DecidableEq, Repr

/-- A path and a version. -/
abbrev Key := String × UInt64

instance : LawfulBEq Key := inferInstanceAs (LawfulBEq (String × UInt64))

/-- Paths in the order of their text, versions of one path ascending. -/
def Key.before (left right : Key) : Prop :=
  left.1 < right.1 ∨ (left.1 = right.1 ∧ left.2 ≤ right.2)

instance : DecidableRel Key.before := fun left right =>
  inferInstanceAs (Decidable (left.1 < right.1 ∨ (left.1 = right.1 ∧ left.2 ≤ right.2)))

structure HistoryIndex where
  format : UInt32
  projectId : String
  entries : AList (fun _ : Key => IndexEntry)
  deriving DecidableEq

namespace HistoryIndex

def new (projectId : String) : HistoryIndex := ⟨1, projectId, ∅⟩

def get (index : HistoryIndex) (key : Key) : Option IndexEntry := index.entries.lookup key

def insert (index : HistoryIndex) (key : Key) (entry : IndexEntry) : HistoryIndex :=
  { index with entries := index.entries.insert key entry }

def remove (index : HistoryIndex) (key : Key) : HistoryIndex :=
  { index with entries := index.entries.erase key }

/-- All entries, in the order of the nested maps. -/
def iterAll (index : HistoryIndex) : List (Key × IndexEntry) :=
  (index.entries.entries.map fun item => (item.1, item.2)).insertionSort
    fun left right => Key.before left.1 right.1

def referencedHashes (index : HistoryIndex) : List String :=
  (index.iterAll.map fun item => item.2.hash).dedup

theorem mem_iterAll {index : HistoryIndex} {key : Key} {entry : IndexEntry} :
    (key, entry) ∈ index.iterAll ↔ index.get key = some entry := by
  rw [iterAll, get, mem_insertionSort, ← Option.mem_def, AList.mem_lookup_iff]
  constructor
  · intro member
    obtain ⟨item, listed, same⟩ := mem_map.mp member
    cases same
    exact listed
  · intro listed
    exact mem_map.mpr ⟨⟨key, entry⟩, listed, rfl⟩

theorem mem_referencedHashes {index : HistoryIndex} {hash : String} :
    hash ∈ index.referencedHashes ↔ ∃ key entry, index.get key = some entry ∧ entry.hash = hash := by
  rw [referencedHashes, mem_dedup, mem_map]
  constructor
  · rintro ⟨⟨key, entry⟩, listed, same⟩
    exact ⟨key, entry, mem_iterAll.mp listed, same⟩
  · rintro ⟨key, entry, found, same⟩
    exact ⟨(key, entry), mem_iterAll.mpr found, same⟩

@[simp] theorem get_new (projectId : String) (key : Key) : (new projectId).get key = none := by
  simp [get, new]

variable (index : HistoryIndex) (key other : Key) (entry : IndexEntry)

@[simp] theorem get_insert_self :
    (index.insert key entry).get key = some entry := by
  simp [get, insert]

theorem get_insert_ne {key other : Key} (different : other ≠ key) :
    (index.insert key entry).get other = index.get other := by
  simp [get, insert, AList.lookup_insert_ne different]

theorem get_insert :
    (index.insert key entry).get other = if other = key then some entry else index.get other := by
  split_ifs with same
  · rw [same, get_insert_self]
  · exact get_insert_ne index entry same

/-- What holds of the new entry and of the old ones that stay. -/
theorem forall_insert {index : HistoryIndex} {key : Key} {entry : IndexEntry}
    {holds : Key → IndexEntry → Prop} (new : holds key entry)
    (old : ∀ other found, other ≠ key → index.get other = some found → holds other found)
    (other : Key) (found : IndexEntry) (present : (index.insert key entry).get other = some found) :
    holds other found := by
  rw [get_insert] at present
  split_ifs at present with same
  · cases present
    rw [same]
    exact new
  · exact old other found same present

theorem get_remove :
    (index.remove key).get other = if other = key then none else index.get other := by
  split_ifs with same
  · rw [same]
    simp [get, remove]
  · simp [get, remove, AList.lookup_erase_ne same]

end HistoryIndex

/-- A sidecar's record of one version. -/
structure ObjectRef where
  rel : String
  version : UInt64
  size : UInt64
  crc : UInt32
  storedAt : UInt64
  publisher : String
  source : String
  offloaded : Option OffloadedRef
  deriving DecidableEq, Repr

structure ObjectMeta where
  projectId : String
  refs : List ObjectRef
  deriving DecidableEq, Repr

def ObjectRef.key (reference : ObjectRef) : Key := (reference.rel, reference.version)

/-- The record of an entry. -/
def IndexEntry.reference (entry : IndexEntry) (key : Key) : ObjectRef :=
  ⟨key.1, key.2, entry.size, entry.crc, entry.storedAt, entry.publisher, entry.source,
    entry.offloaded⟩

/-- The entry that a record in the sidecar of a hash stands for. -/
def ObjectRef.entry (reference : ObjectRef) (hash : String) : IndexEntry :=
  ⟨hash, reference.size, reference.crc, reference.storedAt, reference.publisher,
    reference.source, reference.offloaded⟩

variable {projectId : String} {index : HistoryIndex} (entry : IndexEntry) (key : Key)

@[simp] theorem reference_key :
    (entry.reference key).key = key := rfl

@[simp] theorem reference_entry :
    (entry.reference key).entry entry.hash = entry := rfl

def isHexDigit (char : Char) : Bool :=
  ('0' ≤ char && char ≤ '9') || ('a' ≤ char && char ≤ 'f') || ('A' ≤ char && char ≤ 'F')

def isValidObjectHash (hash : String) : Bool :=
  hash.toList.length == 64 && hash.toList.all isHexDigit

/-- A path and a version that a loaded index may contain. -/
def isValidKey (key : Key) : Bool :=
  (safeRelToLocal key.1).isSome && 0 < key.2 && key.2 < 0xffffffffffffffff

/-! ### The disk -/

/-- What a JSON file holds when it is read. -/
inductive Parsed (α : Type) where
  | garbled
  | holds (value : α)
  deriving DecidableEq, Repr

/-- One tag: versions under a name. -/
structure Tag where
  format : UInt32
  projectId : String
  name : String
  createdAt : UInt64
  pins : AList (fun _ : String => UInt64)
  deriving DecidableEq

inductive TagFile where
  /-- A directory or a link. -/
  | irregular
  | unreadable
  | garbled
  | holds (tag : Tag)
  deriving DecidableEq

/-- The directory `tags/`, with its files by name. -/
inductive TagsDir where
  | missing
  | irregular
  | files (files : AList (fun _ : String => TagFile))
  deriving DecidableEq

/-- The store of one project and the external stores. `recorded` is no file: it has
the external objects that a saved index has named as offloaded and that were not
deleted since. -/
structure Disk (Content : Type) where
  index : Option (Parsed HistoryIndex)
  objects : AList (fun _ : String => Content)
  sidecars : AList (fun _ : String => Parsed ObjectMeta)
  tags : TagsDir
  stores : Place → String → Option Content
  recorded : List (Place × String)

/-- A project without a store, beside whatever tags and external objects there are. -/
def Disk.fresh {Content : Type} (tags : TagsDir) (stores : Place → String → Option Content) :
    Disk Content :=
  ⟨none, ∅, ∅, tags, stores, []⟩

/-- The digests of a file's content, and the digest of a project's name. Hashes are
written in hexadecimal. -/
structure Digests (Content : Type) where
  blake3 : Content → String
  blake3_valid : ∀ content, isValidObjectHash (blake3 content) = true
  size : Content → UInt64
  crc32 : Content → UInt32
  blake3Text : String → String
  blake3Text_valid : ∀ text, isValidObjectHash (blake3Text text) = true

/-- The order in which directories are listed. -/
structure Listing where
  order : List String → List String
  complete : ∀ names, (order names).Perm names

/-- The directory order in which the model keeps names. -/
def Listing.plain : Listing := ⟨id, fun names => List.Perm.refl names⟩

variable {Content : Type}

/-- The disk with another index. -/
def Disk.withIndex (disk : Disk Content) (index : HistoryIndex) : Disk Content :=
  { disk with index := some (.holds index) }

/-- The disk with an object. -/
def Disk.withObject (disk : Disk Content) (hash : String) (content : Content) : Disk Content :=
  { disk with objects := disk.objects.insert hash content }

def Disk.withoutObject (disk : Disk Content) (hash : String) : Disk Content :=
  { disk with objects := disk.objects.erase hash }

def Disk.withoutSidecar (disk : Disk Content) (hash : String) : Disk Content :=
  { disk with sidecars := disk.sidecars.erase hash }

/-- The disk with what an external store holds under a key. -/
def Disk.withStored (disk : Disk Content) (place : Place) (key : String)
    (content : Option Content) : Disk Content :=
  { disk with
    stores := fun otherPlace otherKey =>
      if otherPlace = place ∧ otherKey = key then content else disk.stores otherPlace otherKey }

/-- The disk after an external object was deleted. -/
def Disk.withoutStored (disk : Disk Content) (place : Place) (key : String) : Disk Content :=
  { disk.withStored place key none with
    recorded := disk.recorded.filter fun pair => pair != (place, key) }

/-- Programs over the store of a project. -/
abbrev Store (Content α : Type) := Program (Disk Content) IoError α

/-- A step that reads nothing the model keeps. -/
def pass : Store Content Unit := read fun _ => ()

/-- The saved index; a missing file counts as an empty one. -/
def Disk.saved (disk : Disk Content) (projectId : String) : HistoryIndex :=
  match disk.index with
  | some (.holds index) => index
  | _ => .new projectId

def save (index : HistoryIndex) : Store Content Unit :=
  write fun disk => disk.withIndex index

/-! ### Sidecars -/

/-- The records other than the one of a version. -/
def withoutKey (refs : List ObjectRef) (key : Key) : List ObjectRef :=
  refs.filter fun reference => !(reference.rel == key.1 && reference.version == key.2)

def appendObjectRef (projectId hash : String) (reference : ObjectRef) : Store Content Unit := do
  let found ← read fun disk => disk.sidecars.lookup hash
  let refs ← match found with
    | none => pure []
    | some .garbled => throw ⟨.invalidData, "sidecar is not valid JSON"⟩
    | some (.holds objectMeta) => pure objectMeta.refs
  write fun disk => { disk with
    sidecars := disk.sidecars.insert hash
      (.holds ⟨projectId, withoutKey refs reference.key ++ [reference]⟩) }

def removeObjectRef (hash : String) (key : Key) : Store Content Unit := do
  let found ← read fun disk => disk.sidecars.lookup hash
  match found with
  | none => pure ()
  | some .garbled => throw ⟨.invalidData, "sidecar is not valid JSON"⟩
  | some (.holds objectMeta) =>
    if withoutKey objectMeta.refs key = [] then
      write fun disk => { disk with sidecars := disk.sidecars.erase hash }
    else
      write fun disk => { disk with
        sidecars := disk.sidecars.insert hash
          (.holds ⟨objectMeta.projectId, withoutKey objectMeta.refs key⟩) }

/-- Put back the entry of one record, unless its content is lost. -/
def restoreRef (hash : String) (objectExists : Bool) (index : HistoryIndex)
    (reference : ObjectRef) : HistoryIndex :=
  if isValidKey reference.key = false then index
  else if objectExists = false ∧ reference.offloaded = none then index
  else index.insert reference.key (reference.entry hash)

/-- Put back the entries of one sidecar. -/
def restoreSidecar (projectId : String) (index : HistoryIndex) (hash : String) :
    Store Content HistoryIndex := do
  pass
  if isValidObjectHash hash = false then return index
  match ← attempt (read fun disk => disk.sidecars.lookup hash) with
  | .ok (some (.holds objectMeta)) =>
    if objectMeta.projectId ≠ "" ∧ objectMeta.projectId ≠ projectId then return index
    match ← attempt (read fun disk => (disk.objects.lookup hash).isSome) with
    | .ok objectExists => return objectMeta.refs.foldl (restoreRef hash objectExists) index
    | .error _ => return objectMeta.refs.foldl (restoreRef hash false) index
  | _ => return index

def rebuildFromSidecars (listing : Listing) (projectId : String) : Store Content HistoryIndex := do
  let hashes ← read fun disk => listing.order disk.sidecars.keys
  loop (restoreSidecar projectId) (.new projectId) hashes

/-! ### Loading the index -/

def entryIsValid (item : Key × IndexEntry) : Bool :=
  isValidKey item.1 && isValidObjectHash item.2.hash

def loadOrRebuild (listing : Listing) (projectId : String) : Store Content HistoryIndex := do
  match ← read fun disk => disk.index with
  | none => return .new projectId
  | some .garbled =>
    let rebuilt ← rebuildFromSidecars listing projectId
    save rebuilt
    return rebuilt
  | some (.holds index) =>
    if index.format ≠ 1 ∨ index.projectId ≠ projectId then
      throw ⟨.invalidData, "history index belongs to project " ++ index.projectId ++
        " (format " ++ toString index.format ++ "), expected " ++ projectId⟩
    else if index.iterAll.all entryIsValid = false then
      let rebuilt ← rebuildFromSidecars listing projectId
      save rebuilt
      return rebuilt
    else return index

/-! ### What loading and the sidecar writes do -/

/-- An index that is loaded as it is. -/
structure Sound (projectId : String) (index : HistoryIndex) : Prop where
  format : index.format = 1
  project : index.projectId = projectId
  valid : ∀ key entry, index.get key = some entry →
    isValidKey key = true ∧ isValidObjectHash entry.hash = true

theorem sound_new (projectId : String) : Sound projectId (.new projectId) where
  format := rfl
  project := rfl
  valid := fun key entry found => by simp at found

theorem Sound.insert (sound : Sound projectId index)
    {key : Key} {entry : IndexEntry} (validKey : isValidKey key = true)
    (validHash : isValidObjectHash entry.hash = true) :
    Sound projectId (index.insert key entry) where
  format := sound.format
  project := sound.project
  valid := HistoryIndex.forall_insert ⟨validKey, validHash⟩ fun other found _ =>
    sound.valid other found

/-- Entries may be left out. -/
theorem Sound.of_subset {smaller : HistoryIndex}
    (sound : Sound projectId index) (format : smaller.format = index.format)
    (project : smaller.projectId = index.projectId)
    (subset : ∀ key entry, smaller.get key = some entry → index.get key = some entry) :
    Sound projectId smaller where
  format := format.trans sound.format
  project := project.trans sound.project
  valid := fun key entry found => sound.valid key entry (subset key entry found)

/-- The saved index is loaded as it is. -/
structure Disk.Loads (projectId : String) (disk : Disk Content) : Prop where
  readable : disk.index ≠ some .garbled
  sound : Sound projectId (disk.saved projectId)

theorem loads_fresh (projectId : String) (tags : TagsDir)
    (stores : Place → String → Option Content) : (Disk.fresh tags stores).Loads projectId where
  readable := by simp [Disk.fresh]
  sound := sound_new projectId

/-- A sound index passes the checks that are made when it is loaded. -/
theorem Sound.accepted (sound : Sound projectId index) :
    ¬ (index.format ≠ 1 ∨ index.projectId ≠ projectId) ∧
      index.iterAll.all entryIsValid = true := by
  refine ⟨by simp [sound.format, sound.project], ?_⟩
  rw [all_eq_true]
  rintro ⟨key, entry⟩ listed
  have found := sound.valid key entry (HistoryIndex.mem_iterAll.mp listed)
  simp [entryIsValid, found]

theorem ensures_loadOrRebuild {disk : Disk Content}
    (loads : disk.Loads projectId) (listing : Listing) :
    Ensures (loadOrRebuild listing projectId)
      (fun index after => index = disk.saved projectId ∧ after = disk) (· = disk) disk := by
  obtain ⟨readable, sound⟩ := loads
  refine ensures_bind (ensures_read rfl ?_)
  unfold Disk.saved at sound ⊢
  cases file : disk.index with
  | none => exact ensures_pure ⟨rfl, rfl⟩
  | some parsed =>
    cases parsed with
    | garbled => exact absurd file readable
    | holds index =>
      rw [file] at sound
      obtain ⟨same, valid⟩ := sound.accepted
      simp only [if_neg same, valid, Bool.true_eq_false, if_false]
      exact ensures_pure ⟨rfl, rfl⟩

/-- The records in the sidecar of a hash. -/
def Disk.refsAt (disk : Disk Content) (hash : String) : List ObjectRef :=
  match disk.sidecars.lookup hash with
  | some (.holds objectMeta) => objectMeta.refs
  | _ => []

/-- The disk after a record was appended. -/
def Disk.appended (disk : Disk Content) (projectId hash : String) (reference : ObjectRef) :
    Disk Content :=
  { disk with
    sidecars := disk.sidecars.insert hash
      (.holds ⟨projectId, withoutKey (disk.refsAt hash) reference.key ++ [reference]⟩) }

theorem ensures_appendObjectRef (projectId hash : String) (reference : ObjectRef)
    (disk : Disk Content) :
    Ensures (appendObjectRef projectId hash reference)
      (fun _ after => after = disk.appended projectId hash reference)
      (fun after => after = disk ∨ after = disk.appended projectId hash reference) disk := by
  refine ensures_bind (ensures_read (.inl rfl) ?_)
  have written : ∀ refs, refs = disk.refsAt hash →
      Ensures (write fun disk => { disk with
          sidecars := disk.sidecars.insert hash
            (.holds ⟨projectId, withoutKey refs reference.key ++ [reference]⟩) } :
          Store Content Unit)
        (fun _ after => after = disk.appended projectId hash reference)
        (fun after => after = disk ∨ after = disk.appended projectId hash reference) disk := by
    intro refs same
    subst same
    exact ensures_write (.inl rfl) rfl (.inr rfl)
  cases found : disk.sidecars.lookup hash with
  | none => exact ensures_bind (ensures_pure (written [] (by simp [Disk.refsAt, found])))
  | some parsed =>
    cases parsed with
    | garbled => exact ensures_bind (ensures_throw (.inl rfl))
    | holds objectMeta =>
      exact ensures_bind (ensures_pure (written objectMeta.refs (by simp [Disk.refsAt, found])))

/-- The disk after a record was removed. -/
def Disk.withoutRef (disk : Disk Content) (hash : String) (key : Key) : Disk Content :=
  match disk.sidecars.lookup hash with
  | some (.holds objectMeta) =>
    if withoutKey objectMeta.refs key = [] then
      { disk with sidecars := disk.sidecars.erase hash }
    else
      { disk with
        sidecars := disk.sidecars.insert hash
          (.holds ⟨objectMeta.projectId, withoutKey objectMeta.refs key⟩) }
  | _ => disk

theorem ensures_removeObjectRef (hash : String) (key : Key) (disk : Disk Content) :
    Ensures (removeObjectRef hash key) (fun _ after => after = disk.withoutRef hash key)
      (fun after => after = disk ∨ after = disk.withoutRef hash key) disk := by
  refine ensures_bind (ensures_read (.inl rfl) ?_)
  unfold Disk.withoutRef
  cases found : disk.sidecars.lookup hash with
  | none => exact ensures_pure rfl
  | some parsed =>
    cases parsed with
    | garbled => exact ensures_throw (.inl rfl)
    | holds objectMeta =>
      by_cases empty : withoutKey objectMeta.refs key = []
      · simp only [if_pos empty]
        exact ensures_write (.inl rfl) rfl (.inr rfl)
      · simp only [if_neg empty]
        exact ensures_write (.inl rfl) rfl (.inr rfl)

/-! ### Records of a sidecar -/

section Records

variable {projectId : String} {disk : Disk Content}

variable {other : String} {reference : ObjectRef}

theorem mem_withoutKey {refs : List ObjectRef} {key : Key} :
    reference ∈ withoutKey refs key ↔ reference ∈ refs ∧ reference.key ≠ key := by
  rw [withoutKey, mem_filter]
  have differs : (!(reference.rel == key.1 && reference.version == key.2)) = true ↔
      reference.key ≠ key := by
    simp only [ObjectRef.key, Bool.not_eq_true', Bool.and_eq_false_iff, beq_eq_false_iff_ne, ne_eq,
      Prod.ext_iff, not_and_or]
  rw [differs]

theorem refsAt_appended_self (hash : String) (reference : ObjectRef) :
    (disk.appended projectId hash reference).refsAt hash =
      withoutKey (disk.refsAt hash) reference.key ++ [reference] := by
  simp [Disk.refsAt, Disk.appended]

theorem refsAt_appended_ne {hash : String} (reference : ObjectRef) (different : other ≠ hash) :
    (disk.appended projectId hash reference).refsAt other = disk.refsAt other := by
  simp [Disk.refsAt, Disk.appended, AList.lookup_insert_ne different]

theorem mem_refsAt_appended {hash : String} {appended : ObjectRef}
    (member : reference ∈ (disk.appended projectId hash appended).refsAt other) :
    (reference ∈ disk.refsAt other ∧ (other = hash → reference.key ≠ appended.key)) ∨
      (other = hash ∧ reference = appended) := by
  obtain rfl | same := eq_or_ne other hash
  · rw [refsAt_appended_self, mem_append, mem_singleton, mem_withoutKey] at member
    rcases member with ⟨old, different⟩ | new
    · exact .inl ⟨old, fun _ => different⟩
    · exact .inr ⟨rfl, new⟩
  · rw [refsAt_appended_ne appended same] at member
    exact .inl ⟨member, fun equal => absurd equal same⟩

theorem refsAt_withoutRef_self (hash : String) (key : Key) :
    (disk.withoutRef hash key).refsAt hash = withoutKey (disk.refsAt hash) key := by
  unfold Disk.withoutRef
  cases found : disk.sidecars.lookup hash with
  | none => simp [Disk.refsAt, found, withoutKey]
  | some parsed =>
    cases parsed with
    | garbled => simp [Disk.refsAt, found, withoutKey]
    | holds objectMeta =>
      by_cases empty : withoutKey objectMeta.refs key = []
      · simp [Disk.refsAt, found, empty]
      · simp [Disk.refsAt, found, empty]

theorem refsAt_withoutRef_ne {hash : String} (different : other ≠ hash) :
    (disk.withoutRef hash key).refsAt other = disk.refsAt other := by
  unfold Disk.withoutRef
  split
  · split_ifs
    · simp [Disk.refsAt, AList.lookup_erase_ne different]
    · simp [Disk.refsAt, AList.lookup_insert_ne different]
  · rfl

theorem mem_refsAt_withoutRef {hash : String} {key : Key} :
    reference ∈ (disk.withoutRef hash key).refsAt other ↔
      reference ∈ disk.refsAt other ∧ ¬ (other = hash ∧ reference.key = key) := by
  obtain rfl | same := eq_or_ne other hash
  · rw [refsAt_withoutRef_self, mem_withoutKey]
    simp
  · rw [refsAt_withoutRef_ne key same]
    simp [same]

end Records

end Synergos.HistoryFiles
