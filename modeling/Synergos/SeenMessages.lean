import Mathlib.Data.List.Sort
import Mathlib.Data.Finset.Card
import Synergos.GossipNodes
import Synergos.Runs

/-!
# What the cache of seen messages remembers

Messages arrive one after another, each later than those before it. The hash map
of the cache lists its entries in any order when the oldest quarter is dropped;
since no two entries have the same time, what goes is always the oldest quarter.

So the cache holds the last of the messages that were inserted, and once it has
dropped some it holds more than three quarters of its size: a message is
forgotten only after that many others.
-/

namespace Synergos.SeenMessages

open GossipNodes Runs List

abbrev Entry := MessageId × Nat

/-! ### The calls, for every order in which the entries are listed -/

def gc (cache : MessageCache) (listing : List Entry) : MessageCache :=
  let target := max (cache.maxSize / 4) 1
  if cache.seen.length ≤ target then { cache with seen := [] }
  else
    let oldest := listing.foldl (keepOldest target) []
    { cache with seen := cache.seen.filter fun entry => !oldest.any fun old => old.1 = entry.1 }

def checkAndInsert (cache : MessageCache) (listing : List Entry) (id : MessageId) (now : Nat) :
    Bool × MessageCache :=
  if cache.seen.any (fun entry => entry.1 = id) then (true, cache)
  else
    let cache := if cache.maxSize ≤ cache.seen.length then gc cache listing else cache
    (false, { cache with seen := cache.seen ++ [(id, now)] })

/-- The node lists the entries in the order of their insertion. -/
theorem checkAndInsert_seen_order (cache : MessageCache) (id : MessageId) (now : Nat) :
    cache.checkAndInsert id now = checkAndInsert cache cache.seen id now := rfl

/-! ### Runs -/

structure World where
  cache : MessageCache
  /-- The time of the latest arrival. -/
  clock : Option Nat
  /-- Everything that was ever inserted, in this order. -/
  inserted : List Entry

structure Arrival where
  id : MessageId
  now : Nat
  listing : List Entry

def enabled (world : World) (arrival : Arrival) : Prop :=
  (∀ last ∈ world.clock, last < arrival.now) ∧ arrival.listing.Perm world.cache.seen

def apply (world : World) (arrival : Arrival) : World :=
  let answer := checkAndInsert world.cache arrival.listing arrival.id arrival.now
  { cache := answer.2
    clock := some arrival.now
    inserted := if answer.1 then world.inserted
      else world.inserted ++ [(arrival.id, arrival.now)] }

def system : System World Arrival := ⟨enabled, apply⟩

def World.initial (maxSize : Nat) : World := ⟨⟨[], maxSize⟩, none, []⟩

/-- How many entries are left when the oldest quarter is dropped. -/
def retained (maxSize : Nat) : Nat := maxSize - max (maxSize / 4) 1

/-! ### The oldest entries -/

theorem newest_spec (oldest : List Entry) (some_entry : oldest ≠ []) :
    ∃ top, newest oldest = some top ∧ top ∈ oldest ∧ ∀ entry ∈ oldest, entry.2 ≤ top.2 := by
  induction oldest with
  | nil => exact absurd rfl some_entry
  | cons entry rest ih =>
    cases rest with
    | nil => exact ⟨entry, rfl, by simp, by simp⟩
    | cons next more =>
      obtain ⟨top, found, member, latest⟩ := ih (by simp)
      rw [newest, found]
      by_cases older : entry.2 < top.2
      · refine ⟨top, by simp [older], mem_cons_of_mem _ member, ?_⟩
        rintro other (_ | ⟨_, inside⟩)
        · exact older.le
        · exact latest other inside
      · refine ⟨entry, by simp [older], mem_cons_self, ?_⟩
        rintro other (_ | ⟨_, inside⟩)
        · exact le_rfl
        · exact (latest other inside).trans (not_lt.mp older)

/-- The scan has split what it saw into as many entries as it may keep and others, none of
which is older. -/
structure Scanned (target : Nat) (seen kept others : List Entry) : Prop where
  split : seen.Perm (kept ++ others)
  size : kept.length = min target seen.length
  older : ∀ entry ∈ kept, ∀ other ∈ others, entry.2 ≤ other.2

variable {target maxSize : Nat} {seen : List Entry} {world : World} {listing kept : List Entry}
  {arrival : Arrival} {others : List Entry}

theorem Scanned.step (scanned : Scanned target seen kept others) (positive : 0 < target)
    (entry : Entry) :
    ∃ more, Scanned target (seen ++ [entry]) (keepOldest target kept entry) more := by
  have count := scanned.split.length_eq
  have size := scanned.size
  have last := (perm_append_singleton entry seen).trans (scanned.split.cons entry)
  rw [length_append] at count
  unfold keepOldest
  by_cases room : kept.length < target
  · obtain rfl : others = [] := eq_nil_of_length_eq_zero (by omega)
    rw [if_pos room]
    exact ⟨[], last, by simp only [length_cons, length_append]; omega, by simp⟩
  · obtain ⟨top, found, member, latest⟩ := newest_spec kept fun none => by
      simp only [none, length_nil] at room
      omega
    simp only [if_neg room, found]
    by_cases older : entry.2 < top.2
    · have erased := perm_cons_erase member
      have length := erased.length_eq
      rw [if_pos older]
      refine ⟨top :: others, ?_, ?_, ?_⟩
      · exact last.trans (((erased.append_right others).trans perm_middle.symm).cons entry)
      · simp only [length_cons, length_append] at length ⊢
        omega
      · intro inner inside other outside
        have before : inner.2 ≤ top.2 := by
          rcases mem_cons.mp inside with rfl | inside
          · exact older.le
          · exact latest _ (mem_of_mem_erase inside)
        rcases mem_cons.mp outside with rfl | outside
        · exact before
        · exact before.trans (scanned.older top member other outside)
    · rw [if_neg older]
      refine ⟨entry :: others, last.trans perm_middle.symm, ?_, ?_⟩
      · simp only [length_append]
        omega
      · intro inner inside other outside
        rcases mem_cons.mp outside with rfl | outside
        · exact (latest inner inside).trans (not_lt.mp older)
        · exact scanned.older inner inside other outside

theorem scanned_foldl (positive : 0 < target) (listing : List Entry) :
    ∃ others, Scanned target listing (listing.foldl (keepOldest target) []) others := by
  induction listing using List.reverseRecOn with
  | nil => exact ⟨[], .refl _, by simp, by simp⟩
  | append_singleton before entry ih =>
    obtain ⟨others, scanned⟩ := ih
    rw [foldl_concat]
    exact scanned.step positive entry

/-- Of entries in the order of their times the scan keeps the first. -/
theorem Scanned.kept_perm (scanned : Scanned target listing kept others)
    (listed : listing.Perm seen)
    (ordered : seen.Pairwise (·.2 < ·.2)) (enough : target ≤ seen.length) :
    kept.Perm (seen.take target) := by
  let before (left right : Entry) : Bool := left.2 ≤ right.2
  have sorts (entries : List Entry) : (entries.mergeSort before).Pairwise (·.2 ≤ ·.2) := by
    refine (pairwise_mergeSort ?_ ?_ entries).imp fun le => by simpa [before] using le
    · intro a b c
      simpa [before] using le_trans
    · intro a b
      simpa [before] using le_total a.2 b.2
  have same : kept.mergeSort before ++ others.mergeSort before = seen := by
    have rearranged := listed.symm.trans (scanned.split.trans
      ((mergeSort_perm kept before).symm.append (mergeSort_perm others before).symm))
    have first : (kept.mergeSort before ++ others.mergeSort before).Pairwise (·.2 ≤ ·.2) := by
      refine pairwise_append.mpr ⟨sorts kept, sorts others, ?_⟩
      intro left inside right outside
      exact scanned.older left (mem_mergeSort.mp inside) right (mem_mergeSort.mp outside)
    have different : seen.Pairwise (·.2 ≠ ·.2) := ordered.imp ne_of_lt
    have : Std.Symm (fun left right : Entry => left.2 ≠ right.2) := ⟨fun _ _ => Ne.symm⟩
    refine rearranged.symm.eq_of_pairwise ?_ first (ordered.imp le_of_lt)
    intro left right inside present le ge
    by_contra ne
    exact different.forall (rearranged.symm.subset inside) present ne (le_antisymm le ge)
  have length : (kept.mergeSort before).length = target := by
    rw [length_mergeSort, scanned.size, listed.length_eq]
    omega
  rw [← same, take_left' length]
  exact (mergeSort_perm kept before).symm

/-- Whatever the order of the listing, the oldest quarter goes. -/
theorem gc_eq {cache : MessageCache} (listed : listing.Perm cache.seen)
    (ordered : cache.seen.Pairwise (·.2 < ·.2)) (distinct : (cache.seen.map Prod.fst).Nodup) :
    gc cache listing =
      { cache with seen := cache.seen.drop (max (cache.maxSize / 4) 1) } := by
  unfold gc
  generalize positive : max (cache.maxSize / 4) 1 = target
  by_cases few : cache.seen.length ≤ target
  · simp [if_pos few, drop_eq_nil_of_le few]
  · simp only [if_neg few]
    obtain ⟨others, scanned⟩ := scanned_foldl (show 0 < target by omega) listing
    have taken := scanned.kept_perm listed ordered (by omega)
    generalize listing.foldl (keepOldest target) [] = kept at taken
    generalize cache.seen = seen at distinct taken ⊢
    have apart : ∀ old ∈ seen.take target, ∀ entry ∈ seen.drop target, old.1 ≠ entry.1 := by
      rw [← take_append_drop target seen, map_append] at distinct
      intro old before entry after same
      exact disjoint_of_nodup_append distinct (mem_map_of_mem before)
        (same ▸ mem_map_of_mem after)
    conv_lhs => rw [← take_append_drop target seen, filter_append]
    rw [filter_eq_nil_iff.mpr, filter_eq_self.mpr, nil_append]
    · intro entry after
      simpa using fun id old inside => apart (id, old) (taken.subset inside) entry after
    · intro entry before
      have found : kept.any (fun old => old.1 = entry.1) = true :=
        any_eq_true.mpr ⟨entry, taken.symm.subset before, by simp⟩
      simp [found]

/-! ### What holds in every run -/

/-- The cache holds the last of what was inserted, and much of it. -/
structure Remembers (maxSize : Nat) (world : World) : Prop where
  size : world.cache.maxSize = maxSize
  bound : world.cache.seen.length ≤ maxSize
  last : world.cache.seen <:+ world.inserted
  enough : world.cache.seen = world.inserted ∨ retained maxSize < world.cache.seen.length
  distinct : (world.cache.seen.map Prod.fst).Nodup
  ordered : world.inserted.Pairwise (·.2 < ·.2)
  past : ∀ entry ∈ world.inserted, ∃ last ∈ world.clock, entry.2 ≤ last

theorem remembers_initial (maxSize : Nat) : Remembers maxSize (World.initial maxSize) :=
  ⟨rfl, Nat.zero_le _, suffix_rfl, .inl rfl, nodup_nil, .nil, nofun⟩

/-- Inserting a new id into what is left of the cache. -/
theorem Remembers.insert (remembers : Remembers maxSize world)
    (later : ∀ last ∈ world.clock, last < arrival.now)
    (unseen : ∀ entry ∈ world.cache.seen, entry.1 ≠ arrival.id) {left : List Entry}
    (suffix : left <:+ world.cache.seen) (room : left.length < maxSize)
    (enough : left = world.inserted ∨ retained maxSize ≤ left.length) :
    Remembers maxSize ⟨⟨left ++ [(arrival.id, arrival.now)], world.cache.maxSize⟩,
      some arrival.now, world.inserted ++ [(arrival.id, arrival.now)]⟩ where
  size := remembers.size
  bound := by simpa using room
  last := by
    obtain ⟨gone, split⟩ := suffix.trans remembers.last
    exact ⟨gone, by rw [← split, append_assoc]⟩
  enough := by
    rcases enough with all | many
    · exact .inl (by rw [all])
    · exact .inr (by simpa using Nat.lt_succ_of_le many)
  distinct := by
    rw [map_append, nodup_append]
    refine ⟨remembers.distinct.sublist (suffix.sublist.map _), by simp, ?_⟩
    simpa using fun id time inside => unseen (id, time) (suffix.subset inside)
  ordered := by
    refine pairwise_append.mpr ⟨remembers.ordered, pairwise_singleton _ _, ?_⟩
    intro entry inside other new
    obtain ⟨last, clock, before⟩ := remembers.past entry inside
    rw [mem_singleton.mp new]
    exact before.trans_lt (later last clock)
  past := by
    intro entry inside
    refine ⟨arrival.now, rfl, ?_⟩
    rcases mem_append.mp inside with old | new
    · obtain ⟨last, clock, before⟩ := remembers.past entry old
      exact before.trans (later last clock).le
    · rw [mem_singleton.mp new]

theorem remembers_step (positive : 1 ≤ maxSize) (possible : enabled world arrival)
    (remembers : Remembers maxSize world) :
    Remembers maxSize (apply world arrival) := by
  obtain ⟨later, listed⟩ := possible
  unfold apply checkAndInsert
  by_cases known : world.cache.seen.any (fun entry => entry.1 = arrival.id) = true
  · simp only [if_pos known]
    refine { remembers with past := fun entry inside => ⟨arrival.now, rfl, ?_⟩ }
    obtain ⟨last, clock, before⟩ := remembers.past entry inside
    exact before.trans (later last clock).le
  · have unseen : ∀ entry ∈ world.cache.seen, entry.1 ≠ arrival.id := fun entry inside same =>
      known (any_eq_true.mpr ⟨entry, inside, by simpa using same⟩)
    simp only [if_neg known, Bool.false_eq_true, if_false]
    have bound := remembers.bound
    by_cases full : world.cache.maxSize ≤ world.cache.seen.length
    · have left := gc_eq listed (remembers.ordered.sublist remembers.last.sublist)
        remembers.distinct
      simp only [if_pos full, left]
      rw [remembers.size] at full
      have size := remembers.size
      refine remembers.insert later unseen (drop_suffix _ _) ?_ (.inr ?_)
      · rw [length_drop]
        omega
      · rw [length_drop, retained]
        omega
    · simp only [if_neg full]
      rw [remembers.size] at full
      exact remembers.insert later unseen suffix_rfl (by omega)
        (remembers.enough.imp_right le_of_lt)

/-- What is not in the cache any more was followed by more others than the cache retains. -/
theorem Remembers.forgotten (remembers : Remembers maxSize world)
    {before after : List Entry} {entry : Entry} (split : world.inserted = before ++ entry :: after)
    (unseen : ∀ other ∈ world.cache.seen, other.1 ≠ entry.1) :
    retained maxSize < ((after.map Prod.fst).toFinset.erase entry.1).card := by
  have many : retained maxSize < world.cache.seen.length := by
    refine remembers.enough.resolve_left fun all => unseen entry ?_ rfl
    simp [all, split]
  have inside : world.cache.seen ⊆ after := by
    rcases Nat.lt_or_ge after.length world.cache.seen.length with long | short
    · have longer := suffix_of_suffix_length_le ⟨before, split.symm⟩ remembers.last long
      exact absurd rfl (unseen entry (longer.subset mem_cons_self))
    · exact (suffix_of_suffix_length_le remembers.last
        ⟨before ++ [entry], by simp [split]⟩ short).subset
  calc retained maxSize
    _ < world.cache.seen.length := many
    _ = (world.cache.seen.map Prod.fst).toFinset.card := by
      rw [toFinset_card_of_nodup remembers.distinct, length_map]
    _ ≤ ((after.map Prod.fst).toFinset.erase entry.1).card := by
      refine Finset.card_le_card fun id member => ?_
      obtain ⟨other, present, rfl⟩ := mem_map.mp (mem_toFinset.mp member)
      refine Finset.mem_erase.mpr ⟨unseen other present, ?_⟩
      exact mem_toFinset.mpr (mem_map_of_mem (inside present))

/-- The cache never holds more ids than its size, and a message that was inserted is
reported as a duplicate as long as fewer distinct others were inserted since than are left
when the oldest quarter is dropped. -/
theorem duplicates_reported (maxSize : Nat) (positive : 1 ≤ maxSize) (world : World)
    (run : Reaches system (World.initial maxSize) world) :
    world.cache.seen.length ≤ maxSize ∧
    ∀ id noted before after, world.inserted = before ++ (id, noted) :: after →
      ((after.map Prod.fst).toFinset.erase id).card < maxSize - max (maxSize / 4) 1 →
      ∀ listing now, (checkAndInsert world.cache listing id now).1 = true := by
  have remembers : Remembers maxSize world := run.invariant (Remembers maxSize)
    (remembers_initial maxSize) fun state arrival possible _ held =>
      remembers_step positive possible held
  refine ⟨remembers.bound, ?_⟩
  intro id noted before after split few listing now
  by_cases known : world.cache.seen.any (fun entry => entry.1 = id) = true
  · rw [checkAndInsert, if_pos known]
  · have unseen : ∀ entry ∈ world.cache.seen, entry.1 ≠ id := fun entry inside same =>
      known (any_eq_true.mpr ⟨entry, inside, by simpa using same⟩)
    exact absurd (remembers.forgotten split unseen) (not_lt.mpr few.le)

section Samples

/-- An id of one byte, padded. -/
def sampleId (byte : UInt8) : MessageId := ⟨byte :: List.replicate 31 0, by simp⟩

/-- Three messages arrive at a cache for four: the second is known afterwards. -/
theorem second_message_known : ∃ world, Reaches system (World.initial 4) world ∧
    world.cache.seen.length ≤ 4 ∧ (checkAndInsert world.cache [] (sampleId 2) 6).1 = true := by
  let arrivals : List Arrival := [⟨sampleId 1, 1, []⟩, ⟨sampleId 2, 2, [(sampleId 1, 1)]⟩,
    ⟨sampleId 3, 3, [(sampleId 2, 2), (sampleId 1, 1)]⟩]
  have run : Reaches system (World.initial 4) (arrivals.foldl apply (World.initial 4)) :=
    Run.follow arrivals .start ⟨⟨nofun, .refl _⟩, trivial, ⟨by decide +kernel, .refl _⟩, trivial,
      ⟨by decide +kernel, .swap ..⟩, trivial, trivial⟩
  have reported := duplicates_reported 4 (by decide) _ run
  exact ⟨_, run, reported.1, reported.2 _ 2 [(sampleId 1, 1)] [(sampleId 3, 3)] rfl
    (by decide +kernel) [] 6⟩

end Samples

end Synergos.SeenMessages
