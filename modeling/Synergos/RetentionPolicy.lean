import Mathlib
import Synergos.HistoryRetention

/-!
# The retention policy is enforced

What retention names is compared with what the policy asks for. The loop that gives
up versions until the rest fits carries two counts by hand: for each hash the number
of versions that still refer to it, and the bytes of the objects that are still
needed. Both are counts of one finite set, the local versions that were not given up;
giving up a version takes one element out of that set.
-/

namespace Synergos.RetentionPolicy

open HistoryFiles HistoryRetention List HistoryIndex

/-! ### The remaining versions -/

/-- The local versions that are not given up. -/
def remaining (index : HistoryIndex) (victims : List Key) : Finset (Key × IndexEntry) :=
  index.iterAll.toFinset.filter fun item => item.2.offloaded = none ∧ item.1 ∉ victims

/-- The hashes of some versions. -/
def hashes (items : Finset (Key × IndexEntry)) : Finset String :=
  items.image fun item => item.2.hash

/-- How many of the versions have the hash. -/
def users (items : Finset (Key × IndexEntry)) (hash : String) : Nat :=
  (items.filter fun item => item.2.hash = hash).card

/-- The bytes of the distinct objects of some versions. -/
def bytes (sizeOf : String → UInt64) (items : Finset (Key × IndexEntry)) : Nat :=
  ∑ hash ∈ hashes items, (sizeOf hash).toNat

variable {index : HistoryIndex} {victims keep : List Key} {sizeOf : String → UInt64}
  {items : Finset (Key × IndexEntry)} {refs : ObjectRefs}

variable {config : HistoryConfig} {item : Key × IndexEntry} {rel : String} {nowMs version : UInt64}
  {key : Key} {entry : IndexEntry}

theorem mem_remaining :
    (key, entry) ∈ remaining index victims ↔
      index.get key = some entry ∧ entry.offloaded = none ∧ key ∉ victims := by
  simp [remaining, mem_iterAll]

theorem remaining_cons (found : index.get key = some entry) :
    remaining index (key :: victims) = (remaining index victims).erase (key, entry) := by
  ext ⟨other, old⟩
  rw [mem_remaining, Finset.mem_erase, mem_remaining, mem_cons, not_or]
  constructor
  · rintro ⟨present, here, different, free⟩
    exact ⟨fun same => different (congrArg Prod.fst same), present, here, free⟩
  · rintro ⟨different, present, here, free⟩
    refine ⟨present, here, fun same => different ?_, free⟩
    rw [same, found] at present
    cases present
    rw [same]

theorem mem_hashes {hash : String} :
    hash ∈ hashes items ↔ ∃ item ∈ items, item.2.hash = hash := by
  simp [hashes]

theorem users_pos_iff {hash : String} : 0 < users items hash ↔ hash ∈ hashes items := by
  rw [users, Finset.card_pos, mem_hashes]
  constructor
  · rintro ⟨item, member⟩
    exact ⟨item, (Finset.mem_filter.mp member).1, (Finset.mem_filter.mp member).2⟩
  · rintro ⟨item, member, same⟩
    exact ⟨item, Finset.mem_filter.mpr ⟨member, same⟩⟩

theorem users_erase_self (member : item ∈ items) :
    users (items.erase item) item.2.hash = users items item.2.hash - 1 := by
  rw [users, Finset.filter_erase]
  exact Finset.card_erase_of_mem (Finset.mem_filter.mpr ⟨member, rfl⟩)

theorem users_erase_ne {hash : String} (different : item.2.hash ≠ hash) :
    users (items.erase item) hash = users items hash := by
  rw [users, Finset.filter_erase, Finset.erase_eq_of_notMem]
  · rfl
  · exact fun member => different (Finset.mem_filter.mp member).2

/-- An object whose last version goes is no longer counted. -/
theorem hashes_erase_last (last : users (items.erase item) item.2.hash = 0) :
    hashes (items.erase item) = (hashes items).erase item.2.hash := by
  ext hash
  by_cases same : hash = item.2.hash
  · rw [same, ← users_pos_iff, last]
    simp
  · rw [Finset.mem_erase, ← users_pos_iff, ← users_pos_iff, users_erase_ne (Ne.symm same)]
    exact ⟨fun held => ⟨same, held⟩, fun held => held.2⟩

/-- An object with another version is still counted. -/
theorem hashes_erase_shared (shared : users (items.erase item) item.2.hash ≠ 0) :
    hashes (items.erase item) = hashes items := by
  ext hash
  obtain rfl | same := eq_or_ne hash item.2.hash
  · have still : item.2.hash ∈ hashes (items.erase item) :=
      users_pos_iff.mp (Nat.pos_of_ne_zero shared)
    refine ⟨fun held => ?_, fun _ => still⟩
    obtain ⟨other, member, named⟩ := mem_hashes.mp held
    exact mem_hashes.mpr ⟨other, Finset.mem_of_mem_erase member, named⟩
  · rw [← users_pos_iff, ← users_pos_iff, users_erase_ne (Ne.symm same)]

theorem bytes_mono {smaller : Finset (Key × IndexEntry)} (subset : smaller ⊆ items) :
    bytes sizeOf smaller ≤ bytes sizeOf items :=
  Finset.sum_le_sum_of_subset (Finset.image_subset_image subset)

/-! ### The counts -/

/-- The table counts the versions of each hash and knows the sizes of the objects. -/
structure Counts (sizeOf : String → UInt64) (items : Finset (Key × IndexEntry))
    (refs : ObjectRefs) : Prop where
  count : ∀ hash count size, refs.lookup hash = some (count, size) →
    count = users items hash ∧ size = sizeOf hash
  listed : ∀ hash ∈ hashes items, (refs.lookup hash).isSome = true

/-- The table after the entry of one hash was replaced by a new count. -/
theorem Counts.replace (counts : Counts sizeOf items refs) {others : Finset (Key × IndexEntry)}
    {hash : String} {size : UInt64} (right : size = sizeOf hash)
    (kept : ∀ other, other ≠ hash → users others other = users items other) :
    Counts sizeOf others (refs.insert hash (users others hash, size)) where
  count := by
    intro other count bytes present
    obtain rfl | same := eq_or_ne other hash
    · rw [AList.lookup_insert] at present
      cases present
      exact ⟨rfl, right⟩
    · rw [AList.lookup_insert_ne same] at present
      rw [kept other same]
      exact counts.count other count bytes present
  listed := by
    intro other held
    obtain rfl | same := eq_or_ne other hash
    · simp
    · rw [AList.lookup_insert_ne same]
      rw [← users_pos_iff, kept other same, users_pos_iff] at held
      exact counts.listed other held

/-- The table after one version was given up. -/
theorem Counts.erase (counts : Counts sizeOf items refs) (member : item ∈ items) {count : Nat}
    {size : UInt64} (found : refs.lookup item.2.hash = some (count, size)) :
    Counts sizeOf (items.erase item) (refs.insert item.2.hash (count - 1, size)) := by
  obtain ⟨counted, sized⟩ := counts.count _ _ _ found
  rw [counted, ← users_erase_self member]
  exact counts.replace sized fun other different => users_erase_ne (Ne.symm different)

theorem countRef_skipped (skipped : ¬ (item.2.offloaded = none ∧ item.1 ∉ victims)) :
    countRef victims refs item = refs := by
  rw [countRef, if_pos]
  by_contra both
  refine skipped ⟨?_, fun member => both (.inr member)⟩
  simpa using fun away => both (.inl away)

/-- The table after one more version was counted. -/
theorem Counts.count_item (counts : Counts sizeOf items refs) (new : item ∉ items)
    (sized : item.2.size = sizeOf item.2.hash)
    (here : item.2.offloaded = none) (free : item.1 ∉ victims) :
    Counts sizeOf (insert item items) (countRef victims refs item) := by
  have counted : ¬ (item.2.offloaded.isSome = true ∨ item.1 ∈ victims) := by simp [here, free]
  have own : users (insert item items) item.2.hash = users items item.2.hash + 1 := by
    rw [users, Finset.filter_insert, if_pos rfl, Finset.card_insert_of_notMem]
    · rfl
    · exact fun member => new (Finset.mem_filter.mp member).1
  have others : ∀ hash, hash ≠ item.2.hash → users (insert item items) hash = users items hash := by
    intro hash different
    rw [users, Finset.filter_insert, if_neg (Ne.symm different)]
    rfl
  -- In both branches the entry of the hash is replaced by the new count.
  have replaced : ∀ size, size = sizeOf item.2.hash →
      Counts sizeOf (insert item items)
        (refs.insert item.2.hash (users items item.2.hash + 1, size)) := by
    intro size right
    rw [← own]
    exact counts.replace right others
  rw [countRef, if_neg counted]
  cases found : refs.lookup item.2.hash with
  | some pair =>
    obtain ⟨count, size⟩ := pair
    obtain ⟨number, right⟩ := counts.count _ _ _ found
    subst number
    exact replaced size right
  | none =>
    have unused : users items item.2.hash = 0 := by
      by_contra used
      have present := counts.listed _ (users_pos_iff.mp (Nat.pos_of_ne_zero used))
      simp [found] at present
    have first := replaced item.2.size sized
    rw [unused] at first
    exact first

theorem keys_countRef {hash : String}
    (known : hash ∈ countRef victims refs item) :
    hash ∈ refs ∨ (hash = item.2.hash ∧ item.2.offloaded = none ∧ item.1 ∉ victims) := by
  unfold countRef at known
  split_ifs at known with skipped
  · exact .inl known
  · simp only [not_or] at skipped
    have inside : hash = item.2.hash ∨ hash ∈ refs := by
      split at known <;> exact AList.mem_insert refs |>.mp known
    rcases inside with same | old
    · exact .inr ⟨same, by simpa using skipped.1, skipped.2⟩
    · exact .inl old

/-- Counting all versions gives the counts of those that remain. -/
theorem counts_foldl {listed : List (Key × IndexEntry)} (nodup : listed.Nodup)
    (sized : ∀ item ∈ listed, item.2.size = sizeOf item.2.hash) :
    Counts sizeOf
      (listed.toFinset.filter fun item => item.2.offloaded = none ∧ item.1 ∉ victims)
      (listed.foldl (countRef victims) ∅) ∧
    ∀ hash, hash ∈ listed.foldl (countRef victims) ∅ →
      hash ∈ hashes (listed.toFinset.filter fun item =>
        item.2.offloaded = none ∧ item.1 ∉ victims) := by
  -- The induction takes the last version off, as the fold does.
  induction listed using List.reverseRecOn with
  | nil =>
    refine ⟨⟨fun hash count size present => by simp at present, fun hash held => ?_⟩,
      fun hash known => by simp at known⟩
    simp [hashes] at held
  | append_singleton earlier last ih =>
    obtain ⟨early, _, apart⟩ := nodup_append.mp nodup
    obtain ⟨counts, known⟩ := ih early fun item member =>
      sized item (mem_append_left _ member)
    have split : (earlier ++ [last]).toFinset = insert last earlier.toFinset := by
      ext item
      simp
    rw [foldl_append, foldl_cons, foldl_nil, split, Finset.filter_insert]
    by_cases counted : last.2.offloaded = none ∧ last.1 ∉ victims
    · rw [if_pos counted]
      have new : last ∉ earlier.toFinset.filter fun item =>
          item.2.offloaded = none ∧ item.1 ∉ victims := by
        intro member
        have again := mem_toFinset.mp (Finset.mem_filter.mp member).1
        exact apart last again last mem_cons_self rfl
      refine ⟨counts.count_item new (sized last (mem_append_right _ mem_cons_self))
        counted.1 counted.2, ?_⟩
      intro hash member
      rcases keys_countRef member with old | ⟨same, _⟩
      · obtain ⟨item, inside, named⟩ := mem_hashes.mp (known hash old)
        exact mem_hashes.mpr ⟨item, Finset.mem_insert_of_mem inside, named⟩
      · exact mem_hashes.mpr ⟨last, Finset.mem_insert_self last _, same.symm⟩
    · rw [if_neg counted, countRef_skipped counted]
      exact ⟨counts, known⟩

/-! ### Sums of machine numbers -/

theorem toNat_saturatingSub (left right : UInt64) :
    (saturatingSub left right).toNat = left.toNat - right.toNat := by
  have bound := left.toNat_lt
  simp only [saturatingSub, UInt64.toNat_ofNat']
  exact Nat.mod_eq_of_lt (by omega)

theorem toNat_saturatingAdd {left right : UInt64} (fits : left.toNat + right.toNat < 2 ^ 64) :
    (saturatingAdd left right).toNat = left.toNat + right.toNat := by
  simp only [saturatingAdd, UInt64.toNat_ofNat']
  omega

/-- A sum that fits is not cut off. -/
theorem toNat_foldl_saturatingAdd {α : Type} (size : α → UInt64) (list : List α) (start : UInt64)
    (fits : start.toNat + (list.map fun item => (size item).toNat).sum < 2 ^ 64) :
    (list.foldl (fun sum item => saturatingAdd sum (size item)) start).toNat =
      start.toNat + (list.map fun item => (size item).toNat).sum := by
  induction list generalizing start with
  | nil => simp
  | cons first rest ih =>
    rw [map_cons, sum_cons] at fits ⊢
    have one := @toNat_saturatingAdd start (size first) (by omega)
    rw [foldl_cons, ih _ (by omega), one]
    omega

theorem toNat_totalSize (counts : Counts sizeOf items refs)
    (known : ∀ hash, hash ∈ refs → hash ∈ hashes items) (fits : bytes sizeOf items < 2 ^ 64) :
    (totalSize refs).toNat = bytes sizeOf items := by
  have keys : refs.keys.toFinset = hashes items := by
    ext hash
    rw [mem_toFinset, ← AList.mem_keys]
    exact ⟨known hash, fun held => AList.lookup_isSome.mp (counts.listed hash held)⟩
  have sizes : (refs.entries.map fun item => item.2.2.toNat).sum = bytes sizeOf items := by
    rw [bytes, ← keys, sum_toFinset _ refs.keys_nodup, AList.keys, List.keys, map_map]
    refine congrArg List.sum (map_congr_left fun item member => ?_)
    have found : refs.lookup item.1 = some item.2 := AList.mem_lookup_iff.mpr member
    exact congrArg UInt64.toNat (counts.count item.1 item.2.1 item.2.2 found).2
  have whole := toNat_foldl_saturatingAdd (fun item : (_ : String) × Nat × UInt64 => item.2.2)
    refs.entries 0
  rw [sizes] at whole
  rw [totalSize, whole (by simpa using fits)]
  simp

/-! ### Giving up versions until the rest fits -/

/-- The loop with a counter that refuses to go below zero. -/
def evictChecked (index : HistoryIndex) (maxBytes : UInt64) :
    List Key → List Key → ObjectRefs → UInt64 → Option (List Key)
  | [], victims, _, _ => some victims
  | key :: rest, victims, refs, total =>
    if total ≤ maxBytes then some victims
    else if key ∈ victims then evictChecked index maxBytes rest victims refs total
    else
      match index.get key with
      | none => evictChecked index maxBytes rest (key :: victims) refs total
      | some entry =>
        match refs.lookup entry.hash with
        | none => evictChecked index maxBytes rest (key :: victims) refs total
        | some (0, _) => none
        | some (count + 1, size) =>
          evictChecked index maxBytes rest (key :: victims)
            (refs.insert entry.hash (count, size))
            (if count = 0 then saturatingSub total size else total)

/-- The table and the total are those of the versions that remain. -/
structure Accounted (sizeOf : String → UInt64) (index : HistoryIndex) (victims : List Key)
    (refs : ObjectRefs) (total : UInt64) : Prop where
  counts : Counts sizeOf (remaining index victims) refs
  total : total.toNat = bytes sizeOf (remaining index victims)

/-- The counter of a version that remains is positive, and the accounts are right after
the version was given up. -/
theorem Accounted.step {total : UInt64} (accounted : Accounted sizeOf index victims refs total)
    (found : index.get key = some entry) (here : entry.offloaded = none) (free : key ∉ victims) :
    ∃ count size, refs.lookup entry.hash = some (count + 1, size) ∧
      Accounted sizeOf index (key :: victims) (refs.insert entry.hash (count, size))
        (if count = 0 then saturatingSub total size else total) := by
  have member : (key, entry) ∈ remaining index victims := mem_remaining.mpr ⟨found, here, free⟩
  have held : entry.hash ∈ hashes (remaining index victims) := mem_hashes.mpr ⟨_, member, rfl⟩
  obtain ⟨⟨number, size⟩, present⟩ := Option.isSome_iff_exists.mp (accounted.counts.listed _ held)
  obtain ⟨counted, sized⟩ := accounted.counts.count _ _ _ present
  have positive : 0 < number := counted ▸ users_pos_iff.mpr held
  obtain ⟨count, rfl⟩ : ∃ count, number = count + 1 := ⟨number - 1, by omega⟩
  have left : users ((remaining index victims).erase (key, entry)) entry.hash = count := by
    have fewer := users_erase_self member
    rw [← counted] at fewer
    exact fewer
  refine ⟨count, size, present, ⟨?_, ?_⟩⟩
  · rw [remaining_cons found]
    exact accounted.counts.erase member present
  · rw [remaining_cons found, bytes]
    split_ifs with last
    · subst last
      rw [toNat_saturatingSub, accounted.total, hashes_erase_last left, sized, bytes,
        ← Finset.sum_erase_add _ _ held, Nat.add_sub_cancel]
    · rw [hashes_erase_shared (left ▸ last)]
      exact accounted.total

theorem remaining_congr {others : List Key} (same : ∀ key, key ∈ victims ↔ key ∈ others) :
    remaining index victims = remaining index others := by
  simp [remaining, same]

/-- What the loop gives up is a beginning of the list, as long as needed and no longer. -/
structure EvictsPrefix (sizeOf : String → UInt64) (index : HistoryIndex) (maxBytes : UInt64)
    (victims : List Key) (taken rest result : List Key) : Prop where
  members : ∀ key, key ∈ result ↔ key ∈ victims ∨ key ∈ taken
  enough : rest = [] ∨ bytes sizeOf (remaining index result) ≤ maxBytes.toNat
  needed : ∀ before key after, taken = before ++ key :: after →
    maxBytes.toNat < bytes sizeOf (remaining index (victims ++ before))

/-- One more version in front, which is given up or was before. -/
theorem EvictsPrefix.cons {maxBytes : UInt64} {before taken rest result : List Key}
    (evicts : EvictsPrefix sizeOf index maxBytes before taken rest result)
    (grown : ∀ other, other ∈ before ↔ other ∈ victims ∨ other = key)
    (excess : maxBytes.toNat < bytes sizeOf (remaining index victims)) :
    EvictsPrefix sizeOf index maxBytes victims (key :: taken) rest result where
  members := by
    intro other
    rw [evicts.members, grown, mem_cons, or_assoc]
  enough := evicts.enough
  needed := by
    intro early other late split
    cases early with
    | nil => simpa using excess
    | cons first more =>
      rw [cons_append, cons.injEq] at split
      obtain ⟨rfl, split⟩ := split
      have same : remaining index (victims ++ key :: more) = remaining index (before ++ more) := by
        refine remaining_congr fun item => ?_
        rw [mem_append, mem_append, mem_cons, grown, or_assoc]
      rw [same]
      exact evicts.needed more other late split

theorem evict_spec {maxBytes total : UInt64} {order : List Key}
    (accounted : Accounted sizeOf index victims refs total)
    (evictable : ∀ key ∈ order, Evictable index keep key) :
    ∃ taken rest, order = taken ++ rest ∧
      EvictsPrefix sizeOf index maxBytes victims taken rest
        (evict index maxBytes order victims refs total) ∧
      evictChecked index maxBytes order victims refs total =
        some (evict index maxBytes order victims refs total) := by
  induction order generalizing victims refs total with
  | nil => exact ⟨[], [], rfl, ⟨by simp [evict], .inl rfl, by simp⟩, rfl⟩
  | cons key rest ih =>
    have later : ∀ other ∈ rest, Evictable index keep other :=
      fun other member => evictable other (mem_cons_of_mem key member)
    unfold evict evictChecked
    by_cases fits : total ≤ maxBytes
    · simp only [if_pos fits]
      refine ⟨[], key :: rest, rfl, ⟨by simp, .inr ?_, by simp⟩, trivial⟩
      rw [← accounted.total]
      exact UInt64.le_iff_toNat_le.mp fits
    simp only [if_neg fits]
    have excess : maxBytes.toNat < bytes sizeOf (remaining index victims) := by
      rw [← accounted.total]
      exact UInt64.lt_iff_toNat_lt.mp (UInt64.not_le.mp fits)
    by_cases old : key ∈ victims
    · simp only [if_pos old]
      obtain ⟨taken, left, split, evicts, checked⟩ := ih accounted later
      refine ⟨key :: taken, left, by rw [split, cons_append], evicts.cons ?_ excess, checked⟩
      intro other
      constructor
      · exact .inl
      · rintro (member | rfl)
        · exact member
        · exact old
    simp only [if_neg old]
    obtain ⟨entry, found, here⟩ := (evictable key mem_cons_self).present
    obtain ⟨count, size, present, next⟩ := accounted.step found here old
    simp only [found, present, Nat.add_sub_cancel]
    obtain ⟨taken, left, split, evicts, checked⟩ := ih next later
    refine ⟨key :: taken, left, by rw [split, cons_append], evicts.cons ?_ excess, checked⟩
    intro other
    rw [mem_cons, or_comm]

/-! ### The three passes -/

theorem nodup_iterAll (index : HistoryIndex) : index.iterAll.Nodup := by
  unfold iterAll
  refine (perm_insertionSort _ _).nodup_iff.mpr ?_
  refine index.entries.nodupKeys.nodup.map ?_
  rintro ⟨key, entry⟩ ⟨other, old⟩ same
  cases same
  rfl

theorem mem_localVersions :
    version ∈ localVersions index rel ↔
      ∃ entry, index.get (rel, version) = some entry ∧ entry.offloaded = none := by
  rw [localVersions, mem_insertionSort, mem_map]
  constructor
  · rintro ⟨⟨key, entry⟩, member, rfl⟩
    obtain ⟨listed, isLocal⟩ := mem_filter.mp member
    obtain ⟨same, here⟩ := Bool.and_eq_true_iff.mp isLocal
    have itsRel : key.1 = rel := beq_iff_eq.mp same
    refine ⟨entry, ?_, by simpa using here⟩
    rw [← itsRel]
    exact mem_iterAll.mp listed
  · rintro ⟨entry, found, here⟩
    refine ⟨((rel, version), entry), mem_filter.mpr
      ⟨mem_iterAll.mpr found, by simp [here]⟩, rfl⟩

/-- In a descending list, fewer than `count` members exceed one of the first `count`. -/
theorem length_filter_lt_of_notMem_drop {list : List UInt64} (sorted : list.Pairwise (· ≥ ·))
    {count : Nat} {value : UInt64} (member : value ∈ list) (early : value ∉ list.drop count) :
    (list.filter fun other => value < other).length < count := by
  have parts := take_append_drop count list
  rw [← parts, pairwise_append] at sorted
  rw [← parts, mem_append] at member
  have first : value ∈ list.take count := member.resolve_right early
  have none : (list.drop count).filter (fun other => value < other) = [] := by
    rw [filter_eq_nil_iff]
    intro other late larger
    exact absurd (sorted.2.2 value first other late)
      (UInt64.not_le.mpr (by simpa using larger))
  have fewer : ((list.take count).filter fun other => value < other).length <
      (list.take count).length :=
    length_filter_lt_length_iff_exists.mpr ⟨value, first, by simp⟩
  rw [← parts, filter_append, none, append_nil]
  exact lt_of_lt_of_le fewer (length_take_le count list)

/-- A version that is not surplus has fewer than the allowed number of newer ones. -/
theorem newer_of_notMem_surplus (limited : 0 < config.maxVersionsPerFile)
    (evictable : Evictable index keep (rel, version))
    (kept : (rel, version) ∉ surplus index config keep) :
    ((localVersions index rel).filter fun newer => version < newer).length <
      config.maxVersionsPerFile.toNat := by
  obtain ⟨free, entry, found, here⟩ := evictable
  refine length_filter_lt_of_notMem_drop (pairwise_insertionSort _ _)
    (mem_localVersions.mpr ⟨entry, found, here⟩) fun late => kept ?_
  rw [surplus, if_pos limited]
  refine mem_flatMap.mpr ⟨rel, ?_, mem_filter.mpr
    ⟨mem_map.mpr ⟨version, late, rfl⟩, by simpa using free⟩⟩
  exact mem_dedup.mpr (mem_map.mpr
    ⟨((rel, version), entry), mem_iterAll.mpr found, rfl⟩)

/-- A version that has not expired is not older than the limit. -/
theorem recent_of_notMem_expired (limited : 0 < config.maxAgeDays)
    (found : index.get key = some entry) (here : entry.offloaded = none) (free : key ∉ keep)
    (kept : key ∉ expired index config keep nowMs) :
    cutoff config.maxAgeDays nowMs ≤ entry.storedAt := by
  by_contra old
  refine kept ?_
  rw [expired, if_pos limited]
  refine mem_map.mpr ⟨(key, entry), mem_filter.mpr
    ⟨mem_iterAll.mpr found, ?_⟩, rfl⟩
  simpa [here, free] using old

theorem mem_oldest_iff : key ∈ oldest index keep ↔ Evictable index keep key := by
  refine ⟨mem_oldest, ?_⟩
  rintro ⟨free, entry, found, here⟩
  refine mem_map.mpr ⟨(entry.storedAt, key), (mem_insertionSort _).mpr
    (mem_map.mpr ⟨(key, entry), mem_filter.mpr
      ⟨mem_iterAll.mpr found, ?_⟩, rfl⟩), rfl⟩
  simp [here, free]

theorem before_eq_lex : Key.before = Prod.Lex (· < ·) (· ≤ ·) := by
  funext left right
  exact propext (Prod.lex_def ..).symm

theorem older_eq_lex : Older = Prod.Lex (· < ·) Key.before := by
  funext left right
  exact propext (Prod.lex_def ..).symm

instance : Std.Total Key.before := before_eq_lex ▸ inferInstance

instance : IsTrans Key Key.before := before_eq_lex ▸ inferInstance

instance : Std.Total Older := older_eq_lex ▸ inferInstance

instance : IsTrans (UInt64 × Key) Older := older_eq_lex ▸ inferInstance

/-- The list of versions that may be given up has the older ones first. -/
theorem oldest_sorted (index : HistoryIndex) (keep : List Key) :
    (oldest index keep).Pairwise fun left right => ∀ first second,
      index.get left = some first → index.get right = some second →
      first.storedAt ≤ second.storedAt := by
  have aged : ∀ item ∈ ((index.iterAll.filter fun item => item.2.offloaded.isNone &&
      !keep.contains item.1).map fun item => (item.2.storedAt, item.1)).insertionSort Older,
      ∀ entry, index.get item.2 = some entry → entry.storedAt = item.1 := by
    intro item member entry found
    obtain ⟨listed, filtered, rfl⟩ := mem_map.mp (mem_insertionSort _ |>.mp member)
    have itself := mem_iterAll.mp (mem_filter.mp filtered).1
    rw [itself] at found
    cases found
    rfl
  rw [oldest, pairwise_map]
  refine (pairwise_insertionSort Older _).imp_of_mem ?_
  intro left right leftMember rightMember older first second leftFound rightFound
  rw [aged left leftMember first leftFound, aged right rightMember second rightFound]
  rcases older with before | ⟨same, _⟩
  · exact UInt64.le_of_lt before
  · exact same ▸ UInt64.le_refl _

/-! ### The policy as a whole -/

/-- What the policy asks of the versions that are given up. Newest and older speak of the
local versions of a path; a limit of zero stands for no limit. -/
structure Enforces (sizeOf : String → UInt64) (index : HistoryIndex) (config : HistoryConfig)
    (keep : List Key) (nowMs : UInt64) (victims : List Key) : Prop where
  /-- Only local versions that are not protected are given up. -/
  sound : ∀ key ∈ victims, Evictable index keep key
  /-- A version that is left is among the newest of its path. -/
  newest : 0 < config.maxVersionsPerFile → ∀ rel version, Evictable index keep (rel, version) →
    (rel, version) ∉ victims →
    ((localVersions index rel).filter fun newer => version < newer).length <
      config.maxVersionsPerFile.toNat
  /-- A version that is left is not older than the limit. -/
  recent : 0 < config.maxAgeDays → ∀ key entry, index.get key = some entry →
    Evictable index keep key → key ∉ victims → cutoff config.maxAgeDays nowMs ≤ entry.storedAt
  /-- The objects that are left fit, or nothing more could be given up. -/
  fits : 0 < config.maxBytes → bytes sizeOf (remaining index victims) ≤ config.maxBytes.toNat ∨
    ∀ key, Evictable index keep key → key ∈ victims
  /-- For their size, versions are given up from the oldest on, each one while the rest does
  not fit. -/
  oldestFirst : 0 < config.maxBytes → ∃ taken rest, oldest index keep = taken ++ rest ∧
    (∀ key, key ∈ victims ↔ key ∈ outdated index config keep nowMs ∨ key ∈ taken) ∧
    ∀ before key after, taken = before ++ key :: after →
      config.maxBytes.toNat <
        bytes sizeOf (remaining index (outdated index config keep nowMs ++ before))
  /-- The versions that may be given up are listed by age. -/
  ordered : (∀ key, key ∈ oldest index keep ↔ Evictable index keep key) ∧
    (oldest index keep).Pairwise fun left right => ∀ first second,
      index.get left = some first → index.get right = some second →
      first.storedAt ≤ second.storedAt
  /-- No counter is lowered below zero on the way. -/
  counters : 0 < config.maxBytes →
    evictChecked index config.maxBytes (oldest index keep) (outdated index config keep nowMs)
      (objectRefs index (outdated index config keep nowMs))
      (totalSize (objectRefs index (outdated index config keep nowMs))) =
    some (evict index config.maxBytes (oldest index keep) (outdated index config keep nowMs)
      (objectRefs index (outdated index config keep nowMs))
      (totalSize (objectRefs index (outdated index config keep nowMs))))

/-- The accounts with which the loop starts. -/
theorem accounted_start (victims : List Key)
    (sized : ∀ key entry, index.get key = some entry → entry.size = sizeOf entry.hash)
    (fits : bytes sizeOf (remaining index []) < 2 ^ 64) :
    Accounted sizeOf index victims (objectRefs index victims)
      (totalSize (objectRefs index victims)) := by
  obtain ⟨counts, known⟩ := @counts_foldl victims sizeOf index.iterAll (nodup_iterAll index)
    fun item member => sized item.1 item.2 (mem_iterAll.mp member)
  have smaller : remaining index victims ⊆ remaining index [] := by
    rintro ⟨key, entry⟩ member
    obtain ⟨found, here, _⟩ := mem_remaining.mp member
    exact mem_remaining.mpr ⟨found, here, not_mem_nil⟩
  exact ⟨counts, toNat_totalSize counts known (lt_of_le_of_lt (bytes_mono smaller) fits)⟩

section

variable (sized : ∀ key entry, index.get key = some entry → entry.size = sizeOf entry.hash)

include sized

/-- Where a limit on the total size is set, the loop goes on from the outdated versions. -/
theorem applyRetention_evicts (fits : bytes sizeOf (remaining index []) < 2 ^ 64)
    (limited : 0 < config.maxBytes) :
    ∃ taken rest, oldest index keep = taken ++ rest ∧
      EvictsPrefix sizeOf index config.maxBytes (outdated index config keep nowMs) taken rest
        (applyRetention index config keep nowMs) := by
  obtain ⟨taken, rest, split, evicts, _⟩ := @evict_spec _ _ keep _ _ config.maxBytes _ _
    (accounted_start (outdated index config keep nowMs) sized fits)
    fun key member => mem_oldest member
  have same : ∀ key, key ∈ applyRetention index config keep nowMs ↔
      key ∈ evict index config.maxBytes (oldest index keep) (outdated index config keep nowMs)
        (objectRefs index (outdated index config keep nowMs))
        (totalSize (objectRefs index (outdated index config keep nowMs))) := by
    intro key
    simp [applyRetention, if_pos limited, mem_insertionSort, mem_dedup]
  refine ⟨taken, rest, split, ⟨fun key => (same key).trans (evicts.members key), ?_,
    evicts.needed⟩⟩
  rw [remaining_congr same]
  exact evicts.enough

theorem mem_applyRetention_of_outdated (fits : bytes sizeOf (remaining index []) < 2 ^ 64)
    (member : key ∈ outdated index config keep nowMs) :
    key ∈ applyRetention index config keep nowMs := by
  by_cases limited : 0 < config.maxBytes
  · obtain ⟨taken, rest, _, evicts⟩ := applyRetention_evicts sized fits limited
    exact (evicts.members key).mpr (.inl member)
  · simp only [applyRetention, if_neg limited, mem_insertionSort, mem_dedup]
    exact member

end

/-- Whatever the index, the policy and what is protected: if a hash determines the size of
its object and the sizes of all local objects add up to a machine number, retention
enforces the policy. -/
theorem retention_enforced (sizeOf : String → UInt64) (index : HistoryIndex)
    (config : HistoryConfig) (keep : List Key) (nowMs : UInt64)
    (sized : ∀ key entry, index.get key = some entry → entry.size = sizeOf entry.hash)
    (fits : bytes sizeOf (remaining index []) < 2 ^ 64) :
    Enforces sizeOf index config keep nowMs (applyRetention index config keep nowMs) where
  sound := fun key member => mem_applyRetention member
  newest := by
    intro limited rel version evictable kept
    refine newer_of_notMem_surplus limited evictable fun beyond => kept ?_
    exact mem_applyRetention_of_outdated sized fits (mem_append_left _ beyond)
  recent := by
    rintro limited key entry found ⟨free, other, present, here⟩ kept
    rw [found] at present
    cases present
    refine recent_of_notMem_expired limited found here free fun old => kept ?_
    exact mem_applyRetention_of_outdated sized fits (mem_append_right _ old)
  fits := by
    intro limited
    obtain ⟨taken, rest, split, evicts⟩ := applyRetention_evicts sized fits limited
    rcases evicts.enough with rfl | small
    · refine .inr fun key evictable => (evicts.members key).mpr (.inr ?_)
      rw [← append_nil taken, ← split]
      exact mem_oldest_iff.mpr evictable
    · exact .inl small
  oldestFirst := by
    intro limited
    obtain ⟨taken, rest, split, evicts⟩ := applyRetention_evicts sized fits limited
    exact ⟨taken, rest, split, evicts.members, evicts.needed⟩
  ordered := ⟨fun key => mem_oldest_iff, oldest_sorted index keep⟩
  counters := by
    intro _
    obtain ⟨_, _, _, _, checked⟩ := @evict_spec _ _ keep _ _ config.maxBytes _ _
      (accounted_start (outdated index config keep nowMs) sized fits)
      fun key member => mem_oldest member
    exact checked

/-- Four versions, two of them of one content. -/
def sharedIndex : HistoryIndex :=
  let entry (hash : String) (storedAt : UInt64) : IndexEntry :=
    ⟨hash, 100, 0, storedAt, "", "", none⟩
  (((new "p").insert ("a", 1) (entry "h1" 1000)).insert ("a", 2)
    (entry "h2" 2000)).insert ("a", 3) (entry "h3" 3000) |>.insert ("b", 1) (entry "h1" 1500)

/-- At most two hundred bytes. -/
def smallConfig : HistoryConfig := ⟨true, [], 0, 0, 200, ⟨false, 0, .unset⟩⟩

/-- The oldest version shares its content with the second oldest, so both are given up. -/
theorem shared_content_given_up :
    applyRetention sharedIndex smallConfig [] 10000 = [("a", 1), ("b", 1)] ∧
    Enforces (fun _ => 100) sharedIndex smallConfig [] 10000
      (applyRetention sharedIndex smallConfig [] 10000) := by
  refine ⟨by decide +kernel, retention_enforced (fun _ => 100) sharedIndex smallConfig [] 10000 ?_
    (by decide +kernel)⟩
  have all : ∀ item ∈ sharedIndex.iterAll, item.2.size = 100 := by decide +kernel
  intro key entry found
  exact all (key, entry) (mem_iterAll.mpr found)

end Synergos.RetentionPolicy
