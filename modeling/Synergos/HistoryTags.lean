import Synergos.HistoryFiles

/-!
# Tags of a history store

A tag pins versions of paths under a name, in a file of its own below `tags/`.
Collection and rotation read every tag of the project first. A tag that cannot be
read or does not pass its check stops them, because skipping it could give up a
version that it pins; tags of another project are skipped.
-/

namespace Synergos.HistoryTags

open Faults Faults.Program HistoryFiles

variable {Content : Type}

def isTagChar (char : Char) : Bool :=
  ('a' ≤ char && char ≤ 'z') || ('A' ≤ char && char ≤ 'Z') || ('0' ≤ char && char ≤ '9') ||
    ['.', '_', '-'].contains char

def isValidTagName (name : String) : Bool :=
  !name.toList.isEmpty && name.toList.length ≤ 64 && name != "." && name != ".." &&
    name.toList.all isTagChar

/-- The file of a tag. -/
def tagPath (name : String) : Except IoError String :=
  if isValidTagName name = false then
    .error ⟨.invalidInput, "tag name must match [A-Za-z0-9._-]\x7b1,64\x7d: " ++ name⟩
  else .ok (name ++ ".json")

/-- The name of a tag from the name of its file. -/
def tagStem (file : String) : Option String :=
  if ".json".toList.isSuffixOf file.toList = true then
    some (String.ofList (file.toList.take (file.toList.length - ".json".toList.length)))
  else none

def pinsAreValid (pins : AList (fun _ : String => UInt64)) : Bool :=
  pins.entries.all fun pin => isValidKey (pin.1, pin.2)

def validateTag (tag : Tag) (projectId expectedName : String) : Except IoError Unit :=
  if tag.format ≠ 1 then
    .error ⟨.invalidData, "unsupported tag format: " ++ toString tag.format⟩
  else if tag.projectId ≠ projectId then
    .error ⟨.invalidData, "tag belongs to a different project"⟩
  else if tag.name ≠ expectedName ∨ isValidTagName tag.name = false then
    .error ⟨.invalidData, "tag name does not match its file name"⟩
  else if pinsAreValid tag.pins = false then
    .error ⟨.invalidData, "tag contains an invalid file path or version"⟩
  else .ok ()

/-- The files below `tags/`, if the directory is there. -/
def openTagsDir : Store Content (Option (AList fun _ : String => TagFile)) := do
  match ← read fun disk => disk.tags with
  | .missing => return none
  | .irregular => throw ⟨.permissionDenied, "history tags path must be a real directory"⟩
  | .files files =>
    pass
    return some files

def prepareTagsDir : Store Content (AList fun _ : String => TagFile) := do
  write fun disk => match disk.tags with
    | .missing => { disk with tags := .files ∅ }
    | _ => disk
  match ← openTagsDir with
  | none => throw ⟨.notFound, "history tags directory disappeared during creation"⟩
  | some files => return files

/-- Create or replace a tag. -/
def saveTag (projectId name : String) (createdAt : UInt64)
    (pins : AList (fun _ : String => UInt64)) : Store Content Tag := do
  let file ← settle (tagPath name)
  if pinsAreValid pins = false then
    throw ⟨.invalidInput, "tag contains an invalid file path or version"⟩
  let files ← prepareTagsDir
  pass
  if files.lookup file = some .irregular then
    throw ⟨.permissionDenied, "history tag path must be a regular file"⟩
  write fun disk => { disk with
    tags := .files (files.insert file (.holds ⟨1, projectId, name, createdAt, pins⟩)) }
  return ⟨1, projectId, name, createdAt, pins⟩

def loadTag (projectId name : String) : Store Content (Option Tag) := do
  let file ← settle (tagPath name)
  match ← openTagsDir with
  | none => return none
  | some files =>
    pass
    match files.lookup file with
    | none => return none
    | some .irregular => throw ⟨.permissionDenied, "history tag path must be a regular file"⟩
    | some .unreadable => throw ⟨.other, "tag cannot be read"⟩
    | some .garbled => throw ⟨.invalidData, "tag is not valid JSON"⟩
    | some (.holds tag) =>
      pass
      settle (validateTag tag projectId name)
      return some tag

/-- Delete a tag; false if there is none. -/
def removeTag (projectId name : String) : Store Content Bool := do
  let file ← settle (tagPath name)
  match ← loadTag projectId name with
  | none => return false
  | some _ =>
    match ← openTagsDir with
    | none => return false
    | some files =>
      write fun disk => { disk with tags := .files (files.erase file) }
      return true

/-- The versions that a tag pins. -/
def tagPins (tag : Tag) : List Key := tag.pins.entries.map fun pin => (pin.1, pin.2)

/-- Add the pins of one file of the directory. -/
def addPins (projectId : String) (files : AList fun _ : String => TagFile) (pins : List Key)
    (file : String) : Store Content (List Key) := do
  pass
  match tagStem file with
  | none => return pins
  | some stem =>
    if isValidTagName stem = false then return pins
    pass
    match files.lookup file with
    | none => return pins
    | some .irregular => throw ⟨.permissionDenied, "history tag path must be a regular file"⟩
    | some .unreadable => throw ⟨.other, "tag cannot be read"⟩
    | some .garbled => throw ⟨.invalidData, "tag is not valid JSON"⟩
    | some (.holds tag) =>
      pass
      if tag.projectId ≠ projectId then return pins
      settle (validateTag tag projectId stem)
      return pins ++ tagPins tag

/-- The versions that the project's tags pin. -/
def allPins (listing : Listing) (projectId : String) : Store Content (List Key) := do
  match ← openTagsDir with
  | none => return []
  | some files =>
    let names ← read fun _ => listing.order files.keys
    loop (addPins projectId files) [] names

/-! ### What the pins are -/

/-- A file that stands for a tag. -/
def IsTagFile (tags : TagsDir) (stem : String) (content : TagFile) : Prop :=
  ∃ files file, tags = .files files ∧ files.lookup file = some content ∧
    tagStem file = some stem ∧ isValidTagName stem = true

/-- A tag of the project pins the version. -/
def Pinned (projectId : String) (tags : TagsDir) (key : Key) : Prop :=
  ∃ stem tag, IsTagFile tags stem (.holds tag) ∧ tag.projectId = projectId ∧
    tag.pins.lookup key.1 = some key.2

/-- The content of a tag's file is no tag, or a tag of the project that does not
pass its check. -/
def IsMalformed (projectId stem : String) : TagFile → Prop
  | .irregular | .unreadable | .garbled => True
  | .holds tag => tag.projectId = projectId ∧ ∃ error, validateTag tag projectId stem = .error error

/-- Some tag cannot be read or does not pass its check. -/
def Malformed (projectId : String) (tags : TagsDir) : Prop :=
  tags = .irregular ∨ ∃ stem content, IsTagFile tags stem content ∧
    IsMalformed projectId stem content

theorem mem_tagPins {tag : Tag} {key : Key} :
    key ∈ tagPins tag ↔ tag.pins.lookup key.1 = some key.2 := by
  rw [tagPins, ← Option.mem_def, AList.mem_lookup_iff, List.mem_map]
  constructor
  · rintro ⟨⟨rel, version⟩, listed, same⟩
    cases same
    exact listed
  · intro listed
    exact ⟨⟨key.1, key.2⟩, listed, rfl⟩

/-- What one file of the directory contributed. -/
structure Gathered (projectId : String) (files : AList fun _ : String => TagFile)
    (pins : List Key) (file : String) : Prop where
  wellFormed : ∀ stem content, tagStem file = some stem → isValidTagName stem = true →
    files.lookup file = some content → ¬ IsMalformed projectId stem content
  pinned : ∀ stem tag key, tagStem file = some stem → isValidTagName stem = true →
    files.lookup file = some (.holds tag) → tag.projectId = projectId →
    tag.pins.lookup key.1 = some key.2 → key ∈ pins

theorem Gathered.mono {projectId file : String} {files : AList fun _ : String => TagFile}
    {pins more : List Key} (gathered : Gathered projectId files pins file)
    (subset : pins ⊆ more) : Gathered projectId files more file where
  wellFormed := gathered.wellFormed
  pinned := fun stem tag key named valid found own pinned =>
    subset (gathered.pinned stem tag key named valid found own pinned)

theorem ensures_pass {returns : Unit → Disk Content → Prop} {stops : Disk Content → Prop}
    {disk : Disk Content} (before : stops disk) (ok : returns () disk) :
    Ensures pass returns stops disk :=
  ensures_read before ok

/-- One file: the pins only grow, and the file has contributed. -/
theorem ensures_addPins (projectId : String) (files : AList fun _ : String => TagFile)
    (pins : List Key) (file : String) (disk : Disk Content) :
    Ensures (addPins projectId files pins file)
      (fun more after => after = disk ∧ pins ⊆ more ∧ Gathered projectId files more file)
      (· = disk) disk := by
  have skipped : (∀ stem, tagStem file = some stem → isValidTagName stem = true →
        files.lookup file = none) →
      Gathered projectId files pins file := by
    intro nothing
    constructor
    · intro stem content named valid found
      simp [nothing stem named valid] at found
    · intro stem tag key named valid found
      simp [nothing stem named valid] at found
  refine ensures_bind (ensures_pass rfl ?_)
  cases named : tagStem file with
  | none =>
    refine ensures_pure ⟨rfl, fun _ => id, skipped ?_⟩
    intro stem found
    simp [named] at found
  | some stem =>
    by_cases invalid : isValidTagName stem = false
    · simp only [if_pos invalid]
      refine ensures_pure ⟨rfl, fun _ => id, skipped ?_⟩
      intro other found valid
      rw [named] at found
      cases found
      simp [invalid] at valid
    simp only [if_neg invalid]
    refine ensures_bind (ensures_pass rfl ?_)
    cases found : files.lookup file with
    | none => exact ensures_pure ⟨rfl, fun _ => id, skipped fun _ _ _ => found⟩
    | some content =>
      cases content with
      | irregular | unreadable | garbled => exact ensures_throw rfl
      | holds tag =>
        refine ensures_bind (ensures_pass rfl ?_)
        by_cases own : tag.projectId = projectId
        · simp only [own, ne_eq, not_true_eq_false, if_false]
          refine ensures_bind (ensures_settle ?_ fun _ _ => rfl)
          intro _ checked
          refine ensures_pure ⟨rfl, List.subset_append_left pins _, ?_⟩
          constructor
          · intro other content same _ present
            rw [named] at same
            cases same
            rw [found] at present
            cases present
            rintro ⟨_, error, failed⟩
            simp [checked] at failed
          · intro other content key same _ present _ pinned
            rw [found] at present
            cases present
            exact List.mem_append_right pins (mem_tagPins.mpr pinned)
        · simp only [ne_eq, own, not_false_eq_true, if_true]
          refine ensures_pure ⟨rfl, fun _ => id, ?_⟩
          constructor
          · intro other content _ _ present
            rw [found] at present
            cases present
            exact fun malformed => own malformed.1
          · intro other content key _ _ present mine
            rw [found] at present
            cases present
            exact absurd mine own

/-- Every pin of the project is found, and no tag is malformed, or the call fails;
nothing is changed. -/
theorem ensures_allPins (listing : Listing) (projectId : String) (disk : Disk Content) :
    Ensures (allPins listing projectId)
      (fun pins after => after = disk ∧ (∀ key, Pinned projectId disk.tags key → key ∈ pins) ∧
        ¬ Malformed projectId disk.tags)
      (· = disk) disk := by
  refine ensures_bind (ensures_bind (ensures_read rfl ?_))
  cases directory : disk.tags with
  | missing =>
    refine ensures_pure (ensures_pure ⟨rfl, ?_, ?_⟩)
    · rintro key ⟨stem, tag, ⟨files, file, present, _⟩, _⟩
      cases present
    · rintro (irregular | ⟨stem, content, ⟨files, file, present, _⟩, _⟩)
      · cases irregular
      · cases present
  | irregular => exact ensures_throw rfl
  | files files =>
    refine ensures_bind (ensures_pass rfl (ensures_pure ?_))
    refine ensures_bind (ensures_read rfl ?_)
    refine Ensures.weaken (ensures_loop_taken
      (fun taken pins after => after = disk ∧
        ∀ file ∈ taken, Gathered projectId files pins file) ⟨rfl, by simp⟩ ?_) ?_ fun _ => id
    · rintro taken file rest split pins after ⟨rfl, gathered⟩
      refine (ensures_addPins projectId files pins file after).weaken ?_ fun _ => id
      rintro more after ⟨rfl, subset, added⟩
      refine ⟨rfl, fun other member => ?_⟩
      rcases List.mem_append.mp member with earlier | last
      · exact (gathered other earlier).mono subset
      · rw [List.mem_singleton.mp last]
        exact added
    · rintro pins after ⟨rfl, gathered⟩
      have listed : ∀ file content, files.lookup file = some content →
          Gathered projectId files pins file := by
        intro file content found
        have present : file ∈ files.keys :=
          AList.mem_keys.mp (AList.lookup_isSome.mp (by simp [found]))
        exact gathered file ((listing.complete files.keys).mem_iff.mpr present)
      refine ⟨rfl, ?_, ?_⟩
      · rintro key ⟨stem, tag, ⟨same, file, present, found, named, valid⟩, own, pinned⟩
        cases present
        exact (listed file _ found).pinned stem tag key named valid found own pinned
      · rintro (irregular | ⟨stem, content, ⟨same, file, present, found, named, valid⟩, bad⟩)
        · cases irregular
        · cases present
          exact (listed file _ found).wellFormed stem content named valid found bad

end Synergos.HistoryTags
