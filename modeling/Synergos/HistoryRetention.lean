import Synergos.HistoryFiles

/-!
# Which versions are given up and which are moved away

Retention looks at an index and a policy and names the versions to remove: those
beyond the newest few of a path, those older than a limit, and then the oldest ones
until the remaining content fits. Rotation names the versions old enough to be
moved to an external store. Both leave out what is guarded and what is already
offloaded, whatever the policy.
-/

namespace Synergos.HistoryRetention

open HistoryFiles List

/-! ### Saturating arithmetic -/

def saturatingAdd (left right : UInt64) : UInt64 :=
  UInt64.ofNat (min (left.toNat + right.toNat) 0xffffffffffffffff)

def saturatingSub (left right : UInt64) : UInt64 := UInt64.ofNat (left.toNat - right.toNat)

def saturatingMul (left right : UInt64) : UInt64 :=
  UInt64.ofNat (min (left.toNat * right.toNat) 0xffffffffffffffff)

/-- The time so many days before now, in milliseconds. -/
def cutoff (days nowMs : UInt64) : UInt64 :=
  saturatingSub nowMs
    (saturatingMul (saturatingMul (saturatingMul (saturatingMul days 24) 60) 60) 1000)

/-! ### Retention -/

/-- The paths of an index. -/
def rels (index : HistoryIndex) : List String := (index.iterAll.map fun item => item.1.1).dedup

/-- The versions of a path that are kept locally, newest first. -/
def localVersions (index : HistoryIndex) (rel : String) : List UInt64 :=
  ((index.iterAll.filter fun item => item.1.1 == rel && item.2.offloaded.isNone).map
    fun item => item.1.2).insertionSort (· ≥ ·)

/-- The versions beyond the newest few of each path. -/
def surplus (index : HistoryIndex) (config : HistoryConfig) (guarded : List Key) : List Key :=
  if 0 < config.maxVersionsPerFile then
    (rels index).flatMap fun rel =>
      (((localVersions index rel).drop config.maxVersionsPerFile.toNat).map
        fun version => (rel, version)).filter fun key => !guarded.contains key
  else []

/-- The versions older than the limit. -/
def expired (index : HistoryIndex) (config : HistoryConfig) (guarded : List Key)
    (nowMs : UInt64) : List Key :=
  if 0 < config.maxAgeDays then
    (index.iterAll.filter fun item => item.2.offloaded.isNone &&
      item.2.storedAt < cutoff config.maxAgeDays nowMs && !guarded.contains item.1).map
        fun item => item.1
  else []

/-- For each hash, how many versions refer to it and how large its object is. -/
abbrev ObjectRefs := AList (fun _ : String => Nat × UInt64)

def countRef (victims : List Key) (refs : ObjectRefs) (item : Key × IndexEntry) : ObjectRefs :=
  if item.2.offloaded.isSome = true ∨ item.1 ∈ victims then refs
  else
    match refs.lookup item.2.hash with
    | some (count, size) => refs.insert item.2.hash (count + 1, size)
    | none => refs.insert item.2.hash (1, item.2.size)

def objectRefs (index : HistoryIndex) (victims : List Key) : ObjectRefs :=
  index.iterAll.foldl (countRef victims) ∅

def totalSize (refs : ObjectRefs) : UInt64 :=
  refs.entries.foldl (fun sum item => saturatingAdd sum item.2.2) 0

/-- By age, then by path and version. -/
def Older (left right : UInt64 × Key) : Prop :=
  left.1 < right.1 ∨ (left.1 = right.1 ∧ Key.before left.2 right.2)

instance : DecidableRel Older := fun left right =>
  inferInstanceAs (Decidable (left.1 < right.1 ∨ (left.1 = right.1 ∧ Key.before left.2 right.2)))

/-- The versions that may be given up, oldest first. -/
def oldest (index : HistoryIndex) (guarded : List Key) : List Key :=
  (((index.iterAll.filter fun item => item.2.offloaded.isNone && !guarded.contains item.1).map
    fun item => (item.2.storedAt, item.1)).insertionSort Older).map fun item => item.2

/-- Give up one version after another until the rest fits. -/
def evict (index : HistoryIndex) (maxBytes : UInt64) :
    List Key → List Key → ObjectRefs → UInt64 → List Key
  | [], victims, _, _ => victims
  | key :: rest, victims, refs, total =>
    if total ≤ maxBytes then victims
    else if key ∈ victims then evict index maxBytes rest victims refs total
    else
      match index.get key with
      | none => evict index maxBytes rest (key :: victims) refs total
      | some entry =>
        match refs.lookup entry.hash with
        | none => evict index maxBytes rest (key :: victims) refs total
        | some (count, size) =>
          evict index maxBytes rest (key :: victims)
            (refs.insert entry.hash (count - 1, size))
            (if count - 1 = 0 then saturatingSub total size else total)

/-- The versions before the limit on the total size is applied. -/
def outdated (index : HistoryIndex) (config : HistoryConfig) (keep : List Key)
    (nowMs : UInt64) : List Key :=
  surplus index config keep ++ expired index config keep nowMs

def applyRetention (index : HistoryIndex) (config : HistoryConfig) (keep : List Key)
    (nowMs : UInt64) : List Key :=
  let victims := outdated index config keep nowMs
  let victims :=
    if 0 < config.maxBytes then
      evict index config.maxBytes (oldest index keep) victims (objectRefs index victims)
        (totalSize (objectRefs index victims))
    else victims
  victims.dedup.insertionSort Key.before

/-- The versions that rotation moves to the external store. -/
def selectCandidates (index : HistoryIndex) (offloadAfterDays nowMs : UInt64)
    (guarded : List Key) : List Key :=
  ((index.iterAll.filter fun item => item.2.offloaded.isNone &&
    item.2.storedAt < cutoff offloadAfterDays nowMs && !guarded.contains item.1).map
      fun item => item.1).insertionSort Key.before

/-! ### What is never named -/

/-- A version that may be given up: kept locally and not guarded. -/
structure Evictable (index : HistoryIndex) (guarded : List Key) (key : Key) : Prop where
  unguarded : key ∉ guarded
  present : ∃ entry, index.get key = some entry ∧ entry.offloaded = none

variable {index : HistoryIndex} {guarded : List Key}

theorem evictable_of_item {item : Key × IndexEntry} (listed : item ∈ index.iterAll)
    (here : item.2.offloaded.isNone = true) (free : (!guarded.contains item.1) = true) :
    Evictable index guarded item.1 where
  unguarded := by simpa using free
  present := ⟨item.2, HistoryIndex.mem_iterAll.mp listed, by simpa using here⟩

variable {config : HistoryConfig} {nowMs : UInt64} {key : Key}

theorem mem_surplus (member : key ∈ surplus index config guarded) :
    Evictable index guarded key := by
  unfold surplus at member
  split_ifs at member with limited
  · obtain ⟨rel, _, inside⟩ := mem_flatMap.mp member
    obtain ⟨dropped, free⟩ := mem_filter.mp inside
    obtain ⟨version, old, same⟩ := mem_map.mp dropped
    have kept := mem_insertionSort _ |>.mp (mem_of_mem_drop old)
    obtain ⟨item, filtered, itsVersion⟩ := mem_map.mp kept
    obtain ⟨listed, isLocal⟩ := mem_filter.mp filtered
    obtain ⟨itsRel, here⟩ := Bool.and_eq_true_iff.mp isLocal
    have itsKey : item.1 = key := by
      rw [← same, ← itsVersion, ← beq_iff_eq.mp itsRel]
    rw [← itsKey] at free ⊢
    exact evictable_of_item listed here free
  · cases member

theorem mem_expired (member : key ∈ expired index config guarded nowMs) :
    Evictable index guarded key := by
  unfold expired at member
  split_ifs at member with limited
  · obtain ⟨item, filtered, rfl⟩ := mem_map.mp member
    obtain ⟨listed, conditions⟩ := mem_filter.mp filtered
    obtain ⟨young, free⟩ := Bool.and_eq_true_iff.mp conditions
    exact evictable_of_item listed (Bool.and_eq_true_iff.mp young).1 free
  · cases member

theorem mem_oldest (member : key ∈ oldest index guarded) :
    Evictable index guarded key := by
  obtain ⟨aged, sorted, rfl⟩ := mem_map.mp member
  obtain ⟨item, filtered, rfl⟩ := mem_map.mp (mem_insertionSort _ |>.mp sorted)
  obtain ⟨listed, conditions⟩ := mem_filter.mp filtered
  obtain ⟨here, free⟩ := Bool.and_eq_true_iff.mp conditions
  exact evictable_of_item listed here free

/-- Eviction adds only versions from the list it is given. -/
theorem mem_evict {maxBytes : UInt64} {order victims : List Key} {refs : ObjectRefs}
    {total : UInt64} (member : key ∈ evict index maxBytes order victims refs total) :
    key ∈ order ∨ key ∈ victims := by
  induction order generalizing victims refs total with
  | nil => exact .inr member
  | cons head rest ih =>
    have added : key ∈ rest ∨ key ∈ head :: victims → key ∈ head :: rest ∨ key ∈ victims := by
      rintro (later | chosen)
      · exact .inl (mem_cons_of_mem head later)
      · rcases mem_cons.mp chosen with same | earlier
        · exact .inl (same ▸ mem_cons_self)
        · exact .inr earlier
    unfold evict at member
    split_ifs at member with fits old
    · exact .inr member
    · rcases ih member with later | earlier
      · exact .inl (mem_cons_of_mem head later)
      · exact .inr earlier
    · split at member
      · exact added (ih member)
      · split at member
        · exact added (ih member)
        · exact added (ih member)

/-- Whatever the policy, retention names only versions that may be given up. -/
theorem mem_applyRetention (member : key ∈ applyRetention index config guarded nowMs) :
    Evictable index guarded key := by
  have early : key ∈ outdated index config guarded nowMs → Evictable index guarded key := by
    intro inside
    rcases mem_append.mp inside with beyond | old
    · exact mem_surplus beyond
    · exact mem_expired old
  unfold applyRetention at member
  have chosen := mem_dedup.mp (mem_insertionSort _ |>.mp member)
  split_ifs at chosen with limited
  · rcases mem_evict chosen with aged | inside
    · exact mem_oldest aged
    · exact early inside
  · exact early chosen

theorem mem_selectCandidates {offloadAfterDays : UInt64}
    (member : key ∈ selectCandidates index offloadAfterDays nowMs guarded) :
    Evictable index guarded key := by
  obtain ⟨item, filtered, rfl⟩ := mem_map.mp (mem_insertionSort _ |>.mp member)
  obtain ⟨listed, conditions⟩ := mem_filter.mp filtered
  obtain ⟨young, free⟩ := Bool.and_eq_true_iff.mp conditions
  exact evictable_of_item listed (Bool.and_eq_true_iff.mp young).1 free

end Synergos.HistoryRetention
