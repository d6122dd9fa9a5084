import Mathlib.Data.List.Basic
import Synergos.Runs

/-!
# Locks of the custody store

A call takes the lock of a key from a map of weak references: the mutex of a key lives as
long as a call waits for it or holds it, and the map forgets it some time after. In every
interleaving a key has one living mutex, and so at most one guard.
-/

namespace Synergos.CustodyStore

open Runs List Function

/-- A call of `lock` that waits for the mutex of its key or has its guard. -/
structure Call where
  id : Nat
  key : String
  mutex : Nat
  deriving DecidableEq

structure Locks where
  /-- The weak references. -/
  map : List (String × Nat)
  /-- The strong references. -/
  calls : List Call
  /-- The call whose guard a mutex has given out. -/
  owner : Nat → Option Call
  /-- How many mutexes were made so far. -/
  created : Nat

namespace Locks

def empty : Locks := ⟨[], [], fun _ => none, 0⟩

variable (locks : Locks)

/-- Whether a strong reference is left. -/
def live (mutex : Nat) : Bool := locks.calls.any fun call => call.mutex = mutex

/-- Dead entries are dropped once the map is large. -/
def prune : Locks :=
  { locks with
    map := if 1024 < locks.map.length then locks.map.filter fun entry => locks.live entry.2
      else locks.map }

def upgrade (key : String) : Option Nat := (locks.map.lookup key).filter locks.live

/-- The mutex of the key, and the locks with the call that waits for it. -/
def enter (id : Nat) (key : String) : Nat × Locks :=
  let locks := locks.prune
  match locks.upgrade key with
  | some existing => (existing, { locks with calls := ⟨id, key, existing⟩ :: locks.calls })
  | none => (locks.created,
      { locks with
        map := (key, locks.created) :: locks.map.filter fun entry => entry.1 ≠ key
        calls := ⟨id, key, locks.created⟩ :: locks.calls
        created := locks.created + 1 })

def acquire (call : Call) : Locks :=
  { locks with owner := update locks.owner call.mutex (some call) }

/-- A call gives up waiting or drops its guard. -/
def leave (call : Call) : Locks :=
  { locks with
    calls := locks.calls.erase call
    owner := if locks.owner call.mutex = some call then
      update locks.owner call.mutex none else locks.owner }

end Locks

inductive Action where
  | lock (id : Nat) (key : String)
  | acquire (call : Call)
  | leave (call : Call)

def enabled (locks : Locks) : Action → Prop
  | .lock id _ => ∀ call ∈ locks.calls, call.id ≠ id
  | .acquire call => call ∈ locks.calls ∧ locks.owner call.mutex = none
  | .leave call => call ∈ locks.calls

def apply (locks : Locks) : Action → Locks
  | .lock id key => (locks.enter id key).2
  | .acquire call => locks.acquire call
  | .leave call => locks.leave call

def system : System Locks Action := ⟨enabled, apply⟩

/-- The call has the guard of its key. -/
def Locks.Guards (locks : Locks) (call : Call) : Prop :=
  call ∈ locks.calls ∧ locks.owner call.mutex = some call

/-- Every mutex that is referred to is the one that the map has for its key. -/
structure Sound (locks : Locks) : Prop where
  held : ∀ call ∈ locks.calls, locks.map.lookup call.key = some call.mutex
  owned : ∀ mutex call, locks.owner mutex = some call → call ∈ locks.calls ∧ call.mutex = mutex

section Locking

variable {locks : Locks} {key : String} {mutex : Nat}

/-- An entry that is kept is still found. -/
theorem lookup_filter {keep : String × Nat → Bool} {map : List (String × Nat)}
    (found : map.lookup key = some mutex) (kept : keep (key, mutex) = true) :
    (map.filter keep).lookup key = some mutex := by
  obtain ⟨before, behind, rfl, others⟩ := lookup_eq_some_iff.mp found
  refine lookup_eq_some_iff.mpr ⟨before.filter keep, behind.filter keep, by simp [kept], ?_⟩
  exact fun entry member => others entry (mem_of_mem_filter member)

theorem live_of_mem {call : Call} (member : call ∈ locks.calls) : locks.live call.mutex = true :=
  any_eq_true.mpr ⟨call, member, by simp⟩

theorem Sound.prune (sound : Sound locks) : Sound locks.prune := by
  refine ⟨fun call member => ?_, sound.owned⟩
  unfold Locks.prune
  dsimp only
  split
  · exact lookup_filter (sound.held call member) (live_of_mem member)
  · exact sound.held call member

/-- A key with a waiting call or a guard has a mutex to share. -/
theorem Sound.upgrade_of_mem (sound : Sound locks) {call : Call} (member : call ∈ locks.calls) :
    locks.upgrade call.key = some call.mutex := by
  rw [Locks.upgrade, sound.held call member, Option.filter_some, if_pos (live_of_mem member)]

/-- A call enters with the mutex that the map has for its key from then on. -/
theorem Sound.enter (sound : Sound locks) (id : Nat) (key : String) :
    Sound (locks.enter id key).2 := by
  have pruned := sound.prune
  unfold Locks.enter
  generalize locks.prune = locks at pruned
  have owned {entered : Call} : ∀ mutex call, locks.owner mutex = some call →
      call ∈ entered :: locks.calls ∧ call.mutex = mutex :=
    fun mutex call given => (pruned.owned mutex call given).imp_left (.tail _)
  dsimp only
  split
  next existing found =>
    obtain ⟨listed, _⟩ := Option.filter_eq_some_iff.mp found
    refine ⟨?_, owned⟩
    rintro call (_ | ⟨_, member⟩)
    · exact listed
    · exact pruned.held call member
  next missing =>
    refine ⟨?_, owned⟩
    rintro call (_ | ⟨_, member⟩)
    · simp
    · have other : call.key ≠ key := by
        rintro rfl
        simp [pruned.upgrade_of_mem member] at missing
      have kept := @lookup_filter _ _ (fun entry => entry.1 ≠ key) _ (pruned.held call member)
        (by simpa using other)
      rw [lookup_cons, beq_false_of_ne other]
      exact kept

theorem Sound.apply (sound : Sound locks) {action : Action} (possible : enabled locks action) :
    Sound (apply locks action) := by
  cases action with
  | lock id key => exact sound.enter id key
  | acquire call =>
    refine ⟨sound.held, ?_⟩
    intro mutex other given
    obtain rfl | same := eq_or_ne mutex call.mutex
    · cases (update_self ..).symm.trans given
      exact ⟨possible.1, rfl⟩
    · exact sound.owned mutex other ((update_of_ne same ..).symm.trans given)
  | leave call =>
    refine ⟨fun other member => sound.held other (mem_of_mem_erase member), ?_⟩
    intro mutex other given
    simp only [CustodyStore.apply, Locks.leave] at given
    have before : locks.owner mutex = some other ∧ other ≠ call := by
      split_ifs at given with guard
      · have apart : mutex ≠ call.mutex := by
          rintro rfl
          cases (update_self ..).symm.trans given
        have before := (update_of_ne apart ..).symm.trans given
        refine ⟨before, ?_⟩
        rintro rfl
        exact apart (sound.owned mutex other before).2.symm
      · refine ⟨given, ?_⟩
        rintro rfl
        exact guard ((sound.owned mutex other given).2 ▸ given)
    exact (sound.owned mutex other before.1).imp_left (mem_erase_of_ne before.2).mpr

theorem sound_empty : Sound .empty := by
  constructor <;> simp [Locks.empty]

theorem sound_of_reaches (run : Reaches system .empty locks) : Sound locks :=
  run.invariant Sound sound_empty fun _ _ possible _ sound => sound.apply possible

/-- In every interleaving of calls that enter, take their guard, drop it or give up, also where
entries are pruned and made again, a key has at most one guard. -/
theorem guards_exclusive (run : Reaches system .empty locks) (call other : Call)
    (guard : locks.Guards call) (guardOther : locks.Guards other) (same : call.key = other.key) :
    call = other := by
  have sound := sound_of_reaches run
  have mutex := (sound.held call guard.1).symm
  rw [same, sound.held other guardOther.1] at mutex
  have owner := guardOther.2
  rw [← Option.some.inj mutex, guard.2] at owner
  exact Option.some.inj owner

/-- A key is locked, dropped and locked again with a new mutex. -/
theorem guarded_again :
    ∃ locks, Reaches system .empty locks ∧ locks.Guards ⟨1, "k", 1⟩ ∧
      ∀ other, locks.Guards other → other.key = "k" → other = ⟨1, "k", 1⟩ := by
  let calls : List Action := [.lock 0 "k", .acquire ⟨0, "k", 0⟩, .leave ⟨0, "k", 0⟩, .lock 1 "k",
    .acquire ⟨1, "k", 1⟩]
  have reached : Reaches system .empty (calls.foldl apply .empty) := Run.follow calls .start
    ⟨nofun, trivial, ⟨by decide, rfl⟩, trivial, mem_cons_self, trivial, nofun, trivial,
      ⟨by decide, rfl⟩, trivial, trivial⟩
  have guard : (calls.foldl apply .empty).Guards ⟨1, "k", 1⟩ := ⟨by decide, by decide⟩
  exact ⟨_, reached, guard, fun other held same => guards_exclusive reached other _ held guard same⟩

end Locking

end Synergos.CustodyStore
