import Synergos.Runs
import Synergos.Journal

/-!
# Appends, failures and reopening of the custody journal

A journal file is opened, appended to and opened again in any order, and any
write or flush may fail with a part of the row on disk. As long as no write has
failed the owner knows exactly what recovery of the file finds; after a failed
write it refuses every call, and the file has at most a part of one row more
than was acknowledged.
-/

namespace Synergos.JournalWorld

open JsonText Base64url Envelope Identity Lct Logs Runs JournalRow Journal
open Jcs hiding append

/-- The file, its owner if it was opened, and the rows that were recovered or
acknowledged. -/
structure World where
  file : List UInt8
  owner : Option State
  acknowledged : List UInt8

/-- A file that nobody has opened. -/
def World.start (file : List UInt8) : World := ⟨file, none, []⟩

inductive Action where
  | reopen (stream : String) (delivered : Nat → Nat)
  | append (input : List UInt8) (disk : Disk)

section Worlds

variable (reader : String → Option Json) (sha256 : List UInt8 → Bytes 32) (scheme : Scheme)

/-- The rows that are acknowledged after an append. -/
def acknowledge (world : World) (state : State) (input : List UInt8) (disk : Disk) : List UInt8 :=
  match nextRow reader sha256 state input, (append reader sha256 state world.file input disk).1 with
  | .ok (line, _), .ok _ => world.acknowledged ++ line
  | _, _ => world.acknowledged

def apply (world : World) : Action → World
  | .reopen stream delivered =>
    match openJournal reader sha256 stream world.file delivered with
    | .ok state => ⟨world.file, some state, world.file⟩
    | .error _ => ⟨world.file, none, []⟩
  | .append input disk =>
    match world.owner with
    | none => world
    | some state =>
      ⟨(append reader sha256 state world.file input disk).2.2,
        some (append reader sha256 state world.file input disk).2.1,
        acknowledge reader sha256 world state input disk⟩

def enabled (world : World) : Action → Prop
  | .reopen _ _ => True
  | .append _ _ => world.owner.isSome

def system : System World Action where
  enabled := enabled
  apply := apply reader sha256

/-- What is asked of a journal with an owner. -/
structure Agreement (world : World) (state : State) : Prop where
  /-- A refused append changes nothing. -/
  rejected : ∀ input disk failure, nextRow reader sha256 state input = .error failure →
    append reader sha256 state world.file input disk = (.error failure, state, world.file)
  /-- What is left of the spool is computed without wrapping. -/
  left : (UInt64.ofNat journalSpoolBytes - state.bytes).toNat + state.bytes.toNat =
    journalSpoolBytes
  /-- The new byte count is computed without wrapping. -/
  grows : ∀ input line next, nextRow reader sha256 state input = .ok (line, next) →
    (UInt64.ofNat line.length).toNat = line.length ∧
    (state.bytes + UInt64.ofNat line.length).toNat = state.bytes.toNat + line.length
  /-- Opening the file again finds what the owner knows. -/
  reopens : state.poisoned = false → world.file = world.acknowledged ∧
    ∀ delivered, openJournal reader sha256 state.stream world.file delivered = .ok state
  /-- A failed write leaves a part of one row behind and the owner poisoned. -/
  fails : ∀ input disk line next failure, nextRow reader sha256 state input = .ok (line, next) →
    (appendAndFlush disk world.file line).2 = .error failure →
    (append reader sha256 state world.file input disk).1 = .error failure ∧
    (append reader sha256 state world.file input disk).2.1 = { state with poisoned := true } ∧
    ∃ count, (append reader sha256 state world.file input disk).2.2 =
      world.file ++ line.take count
  /-- A poisoned owner refuses every call, and its file has at most one row more
  than was acknowledged. -/
  refuses : state.poisoned = true →
    (∀ input disk, ∃ failure, append reader sha256 state world.file input disk =
      (.error failure, state, world.file)) ∧
    (∃ failure, head state = .error failure) ∧
    (∀ kid key ts, ∃ failure, checkpoint reader scheme state kid key ts = .error failure) ∧
    (∀ delivered, openJournal reader sha256 state.stream world.acknowledged delivered =
      .ok { state with poisoned := false }) ∧
    ∃ input line next count,
      nextRow reader sha256 { state with poisoned := false } input = .ok (line, next) ∧
      world.file = world.acknowledged ++ line.take count

end Worlds

/-! ### One append -/

/-- A write takes some part of the row, and all of it if it succeeds. -/
theorem writeRow_part (disk : Disk) (call : Nat) (file row : List UInt8) :
    (∃ count, (writeRow disk call file row).1 = file ++ row.take count) ∧
      ((writeRow disk call file row).2 = .ok () →
        (writeRow disk call file row).1 = file ++ row) := by
  fun_induction writeRow disk call file row with
  | case1 call file => exact ⟨⟨0, by simp⟩, fun _ => by simp⟩
  | case2 call file row rest failed =>
    refine ⟨⟨0, by simp⟩, ?_⟩
    exact nofun
  | case3 call file row rest taken found zero =>
    refine ⟨⟨0, by simp⟩, ?_⟩
    exact nofun
  | case4 call file row rest taken found some ih =>
    obtain ⟨⟨count, part⟩, whole⟩ := ih
    constructor
    · refine ⟨min taken (min row.length (64 * 1024)) + count, ?_⟩
      rw [part, List.append_assoc, ← List.take_add]
    · intro done
      rw [whole done, List.append_assoc, List.take_append_drop]

theorem appendAndFlush_part (disk : Disk) (file row : List UInt8) :
    (∃ count, (appendAndFlush disk file row).1 = file ++ row.take count) ∧
      ((appendAndFlush disk file row).2 = .ok () →
        (appendAndFlush disk file row).1 = file ++ row) := by
  obtain ⟨part, whole⟩ := writeRow_part disk 0 file row
  unfold appendAndFlush
  split_ifs with seeks flushes
  · split
    · rename_i written failure result
      rw [result] at part
      refine ⟨part, ?_⟩
      exact nofun
    · rename_i written result
      rw [result] at part whole
      exact ⟨part, fun _ => whole rfl⟩
  · split
    · rename_i written failure result
      rw [result] at part
      refine ⟨part, ?_⟩
      exact nofun
    · rename_i written result
      rw [result] at part
      refine ⟨part, ?_⟩
      exact nofun
  · refine ⟨⟨0, by simp⟩, ?_⟩
    exact nofun

section Appends

variable {reader : String → Option Json} {sha256 : List UInt8 → Bytes 32}

theorem nextRow_ok (state : State) (input line : List UInt8) (next : JournalHead) :
    nextRow reader sha256 state input = .ok (line, next) ↔
      state.poisoned = false ∧ ∃ event row, journalEvent reader input = .ok event ∧
        journalRow reader sha256 state.stream state.head event = .ok row ∧
        journalRowHead reader row = .ok next ∧ line = utf8 row ++ [10] ∧
        ¬ UInt64.ofNat journalSpoolBytes - state.bytes < UInt64.ofNat line.length := by
  simp only [nextRow, bind_ok]
  constructor
  · rintro ⟨event, accepted, _, healthy, row, built, found, reached, done⟩
    unfold requireHealthy at healthy
    split_ifs at healthy with poisoned
    split_ifs at done with full
    obtain ⟨rfl, rfl⟩ := Prod.mk.inj ((pure_ok _ _).mp done)
    exact ⟨Bool.not_eq_true _ ▸ poisoned, event, row, accepted, built, reached, rfl, full⟩
  · rintro ⟨healthy, event, row, accepted, built, reached, rfl, room⟩
    refine ⟨event, accepted, (), ?_, row, built, next, reached, ?_⟩
    · simp [requireHealthy, healthy]
    · rw [if_neg room, pure_ok]

/-- A poisoned owner has no next row. -/
theorem nextRow_poisoned (state : State) (poisoned : state.poisoned = true) (input : List UInt8) :
    ∃ failure, nextRow reader sha256 state input = .error failure := by
  cases result : nextRow reader sha256 state input with
  | error failure => exact ⟨failure, rfl⟩
  | ok made =>
    have healthy := ((nextRow_ok state input made.1 made.2).mp result).1
    simp [poisoned] at healthy

/-- The reply and the effect of an append by what it wrote. -/
theorem append_written {state : State} (file input line : List UInt8) {next : JournalHead}
    (disk : Disk) (made : nextRow reader sha256 state input = .ok (line, next)) :
    ((appendAndFlush disk file line).2 = .ok () →
      append reader sha256 state file input disk = (.ok next,
        { state with bytes := state.bytes + UInt64.ofNat line.length, head := next },
        file ++ line)) ∧
    ∀ failure, (appendAndFlush disk file line).2 = .error failure →
      append reader sha256 state file input disk = (.error failure,
        { state with poisoned := true }, (appendAndFlush disk file line).1) := by
  have whole := (appendAndFlush_part disk file line).2
  simp only [append, made]
  cases flushed : appendAndFlush disk file line with
  | mk written result =>
    rw [flushed] at whole
    constructor
    · rintro rfl
      have all : written = file ++ line := whole rfl
      rw [all]
    · rintro failure rfl
      rfl

/-- The limit on the spool is kept by machine arithmetic. -/
theorem spool_left {bytes : UInt64} (within : bytes.toNat ≤ journalSpoolBytes) :
    (UInt64.ofNat journalSpoolBytes - bytes).toNat = journalSpoolBytes - bytes.toNat := by
  have limit : (UInt64.ofNat journalSpoolBytes).toNat = journalSpoolBytes := by decide
  have below : bytes ≤ UInt64.ofNat journalSpoolBytes := by
    rw [UInt64.le_iff_toNat_le, limit]
    exact within
  rw [UInt64.toNat_sub_of_le _ _ below, limit]

/-! ### All runs -/

/-- What is true of an owner in every reachable world: what was acknowledged is
recovered as the owner knows it, and the file has it, with a part of one more
row after a failed write. -/
structure Sound (reader : String → Option Json) (sha256 : List UInt8 → Bytes 32) (world : World)
    (state : State) : Prop where
  recovered : ∀ delivered, openJournal reader sha256 state.stream world.acknowledged delivered =
    .ok { state with poisoned := false }
  healthy : state.poisoned = false → world.file = world.acknowledged
  torn : state.poisoned = true → ∃ input line next count,
    nextRow reader sha256 { state with poisoned := false } input = .ok (line, next) ∧
    world.file = world.acknowledged ++ line.take count

theorem Sound.spool {world : World} {state : State} (sound : Sound reader sha256 world state) :
    state.bytes.toNat = world.acknowledged.length ∧
      world.acknowledged.length ≤ journalSpoolBytes := by
  obtain ⟨_, bounded, shape, _⟩ := (openJournal_iff _ _ _ _).mp (sound.recovered (fun _ => 0))
  have bytes : state.bytes = UInt64.ofNat world.acknowledged.length :=
    congrArg State.bytes shape
  have limit : journalSpoolBytes < UInt64.size := by decide
  refine ⟨?_, bounded⟩
  rw [bytes]
  exact UInt64.toNat_ofNat_of_lt' (Nat.lt_of_le_of_lt bounded limit)

/-- The next row fits in the spool, and its length in a machine word. -/
theorem Sound.room (law : ReadsCompact reader) (short : ReadsNoShorter reader) {world : World}
    {state : State} (sound : Sound reader sha256 world state) {input line : List UInt8}
    {next : JournalHead} (made : nextRow reader sha256 state input = .ok (line, next)) :
    (UInt64.ofNat line.length).toNat = line.length ∧
      state.bytes.toNat + line.length ≤ journalSpoolBytes := by
  obtain ⟨count, bounded⟩ := sound.spool
  obtain ⟨_, event, row, accepted, built, _, rfl, room⟩ := (nextRow_ok _ _ _ _).mp made
  obtain ⟨value, settled, rfl, _⟩ := journalEvent_ok law short accepted
  obtain ⟨hashed, _, built⟩ := journalRow_ok law settled built
  have size : (utf8 row ++ [10]).length ≤ journalRowBytes := by
    rw [List.length_append, utf8_length]
    exact built.small
  have limit : journalRowBytes < UInt64.size := by decide
  have number : (UInt64.ofNat (utf8 row ++ [10]).length).toNat = (utf8 row ++ [10]).length :=
    UInt64.toNat_ofNat_of_lt' (Nat.lt_of_le_of_lt size limit)
  rw [UInt64.lt_iff_toNat_lt, number, spool_left (by omega)] at room
  exact ⟨number, by omega⟩

/-- One more acknowledged row is recovered with the rows before it. -/
theorem Sound.acknowledged (law : ReadsCompact reader) (short : ReadsNoShorter reader)
    {world : World} {state : State} (sound : Sound reader sha256 world state)
    {input line : List UInt8} {next : JournalHead}
    (made : nextRow reader sha256 state input = .ok (line, next)) (delivered : Nat → Nat) :
    openJournal reader sha256 state.stream (world.acknowledged ++ line) delivered =
      .ok ⟨state.stream, next, state.bytes + UInt64.ofNat line.length, false⟩ := by
  obtain ⟨count, _⟩ := sound.spool
  obtain ⟨_, room⟩ := sound.room law short made
  obtain ⟨named, bounded, shape, lines, whole, readable, verified⟩ :=
    (openJournal_iff _ _ _ _).mp (sound.recovered delivered)
  obtain ⟨_, event, row, accepted, built, reached, rfl, _⟩ := (nextRow_ok _ _ _ _).mp made
  have first := (verify_iff law short state.stream state.head next (utf8 row)).mpr
    ⟨input, event, row, accepted, built, reached, rfl⟩
  have bytes : state.bytes = UInt64.ofNat world.acknowledged.length :=
    congrArg State.bytes shape
  refine (openJournal_iff _ _ _ _).mpr ⟨named, ?_, ?_, lines ++ [utf8 row], ?_, ?_, ?_⟩
  · rw [List.length_append]
    omega
  · rw [bytes, ← UInt64.ofNat_add, ← List.length_append]
  · rw [log_append, whole, log_cons]
    rfl
  · intro other present
    rcases List.mem_append.mp present with old | new
    · exact readable other old
    · rw [List.mem_singleton.mp new]
      exact verify_readable law short first
  · exact (foldlM_snoc _ _ _ _).mpr ⟨state.head, verified, first⟩

/-- Every owner of a world is sound. -/
def Held (reader : String → Option Json) (sha256 : List UInt8 → Bytes 32) (world : World) : Prop :=
  ∀ state, world.owner = some state → Sound reader sha256 world state

theorem held_reopen (world : World) (stream : String) (delivered : Nat → Nat) :
    Held reader sha256 (apply reader sha256 world (.reopen stream delivered)) := by
  intro state owner
  simp only [apply] at owner ⊢
  cases opened : openJournal reader sha256 stream world.file delivered with
  | error failure =>
    simp [opened] at owner
  | ok found =>
    rw [opened] at owner
    obtain rfl := Option.some.inj owner
    obtain ⟨named, bounded, shape, lines⟩ := (openJournal_iff _ _ _ _).mp opened
    have healthy : found.poisoned = false := congrArg State.poisoned shape
    have name : found.stream = stream := congrArg State.stream shape
    refine ⟨?_, fun _ => rfl, ?_⟩
    · intro other
      refine (openJournal_iff _ _ _ _).mpr ?_
      rw [name]
      refine ⟨named, bounded, ?_, lines⟩
      rw [shape]
    · intro poisoned
      simp [healthy] at poisoned

theorem held_append (law : ReadsCompact reader) (short : ReadsNoShorter reader) (world : World)
    (held : Held reader sha256 world) (input : List UInt8) (disk : Disk) :
    Held reader sha256 (apply reader sha256 world (.append input disk)) := by
  intro after owner
  simp only [apply] at owner ⊢
  cases owned : world.owner with
  | none =>
    rw [owned] at owner
    simp [owned] at owner
  | some state =>
    rw [owned] at owner
    have sound := held state owned
    simp only [Option.some.injEq] at owner ⊢
    cases made : nextRow reader sha256 state input with
    | error failure =>
      have kept : append reader sha256 state world.file input disk =
          (.error failure, state, world.file) := by
        rw [append, made]
      rw [kept] at owner
      subst owner
      have same : acknowledge reader sha256 world state input disk = world.acknowledged := by
        rw [acknowledge, made]
      rw [kept, same]
      exact ⟨sound.recovered, sound.healthy, sound.torn⟩
    | ok result =>
      obtain ⟨line, next⟩ := result
      obtain ⟨done, failed⟩ := append_written world.file input line disk made
      have healthy := ((nextRow_ok _ _ _ _).mp made).1
      cases flushed : (appendAndFlush disk world.file line).2 with
      | ok _ =>
        have whole := done flushed
        rw [whole] at owner
        subst owner
        have more : acknowledge reader sha256 world state input disk =
            world.acknowledged ++ line := by
          rw [acknowledge, made, whole]
        rw [whole, more]
        refine ⟨?_, ?_, ?_⟩
        · exact sound.acknowledged law short made
        · intro _
          rw [sound.healthy healthy]
        · intro poisoned
          simp [healthy] at poisoned
      | error failure =>
        have torn := failed failure flushed
        rw [torn] at owner
        subst owner
        have same : acknowledge reader sha256 world state input disk = world.acknowledged := by
          rw [acknowledge, made, torn]
        rw [torn, same]
        have before : ({ state with poisoned := false } : State) = state := by
          rw [← healthy]
        obtain ⟨count, part⟩ := (appendAndFlush_part disk world.file line).1
        refine ⟨?_, ?_, ?_⟩
        · exact sound.recovered
        · exact nofun
        · intro _
          refine ⟨input, line, next, count, ?_, ?_⟩
          · exact before ▸ made
          · rw [part, sound.healthy healthy]

theorem held_run (law : ReadsCompact reader) (short : ReadsNoShorter reader) {file : List UInt8}
    {world : World} (run : Reaches (system reader sha256) (World.start file) world) :
    Held reader sha256 world := by
  refine Run.invariant (Held reader sha256) ?_ ?_ run
  · intro state owner
    cases owner
  · intro world action _ _ held
    cases action with
    | reopen stream delivered => exact held_reopen world stream delivered
    | append input disk => exact held_append law short world held input disk

variable (scheme : Scheme)

theorem poisoned_refuses (file : List UInt8) (state : State) (poisoned : state.poisoned = true) :
    (∀ input disk, ∃ failure, append reader sha256 state file input disk =
      (.error failure, state, file)) ∧
    (∃ failure, head state = .error failure) ∧
    ∀ kid key ts, ∃ failure, checkpoint reader scheme state kid key ts = .error failure := by
  have unhealthy : requireHealthy state =
      .error (.runtime "Custody journal requires recovery after uncertain write") :=
    if_pos poisoned
  refine ⟨?_, ?_, ?_⟩
  · intro input disk
    obtain ⟨failure, refused⟩ := @nextRow_poisoned reader sha256 state poisoned input
    exact ⟨failure, by rw [append, refused]⟩
  · exact ⟨_, by rw [head, unhealthy]; rfl⟩
  · intro kid key ts
    cases replied : checkpoint reader scheme state kid key ts with
    | error failure => exact ⟨failure, rfl⟩
    | ok signed =>
      simp only [checkpoint, bind_ok] at replied
      obtain ⟨_, _, replied⟩ := replied
      split_ifs at replied with early
      rw [unhealthy] at replied
      cases replied

/-- Whatever is appended and however writes fail, the owner of a journal and the
recovery of its file agree. -/
theorem append_agrees_with_recovery (law : ReadsCompact reader) (short : ReadsNoShorter reader)
    (file : List UInt8) (world : World)
    (run : Reaches (system reader sha256) (World.start file) world) (state : State)
    (owner : world.owner = some state) : Agreement reader sha256 scheme world state := by
  have sound := held_run law short run state owner
  obtain ⟨count, bounded⟩ := sound.spool
  refine ⟨?_, ?_, ?_, ?_, ?_, ?_⟩
  · intro input disk failure refused
    rw [append, refused]
  · rw [spool_left (by omega)]
    omega
  · intro input line next made
    obtain ⟨number, room⟩ := sound.room law short made
    refine ⟨number, ?_⟩
    have limit : journalSpoolBytes < 2 ^ 64 := by decide
    rw [UInt64.toNat_add, number, Nat.mod_eq_of_lt (by omega)]
  · intro healthy
    have same := sound.healthy healthy
    refine ⟨same, ?_⟩
    intro delivered
    rw [same, sound.recovered delivered, ← healthy]
  · intro input disk line next failure made failed
    have torn := (append_written world.file input line disk made).2 failure failed
    rw [torn]
    exact ⟨rfl, rfl, (appendAndFlush_part disk world.file line).1⟩
  · intro poisoned
    obtain ⟨appends, heads, checkpoints⟩ := poisoned_refuses scheme world.file state poisoned
    exact ⟨appends, heads, checkpoints, sound.recovered, sound.torn poisoned⟩

end Appends

/-- A system whose first write takes the whole row. -/
def sampleDisk : Disk := ⟨true, fun _ => some (64 * 1024), true⟩

theorem sampleDisk_writes {file row : List UInt8} (short : row.length ≤ 64 * 1024)
    (some : row ≠ []) : (appendAndFlush sampleDisk file row).2 = .ok () := by
  have all : min (64 * 1024) (min row.length (64 * 1024)) = row.length := by omega
  have positive : row.length ≠ 0 := fun none => some (List.length_eq_zero_iff.mp none)
  have taken : sampleDisk.writes 0 = .some (64 * 1024) := rfl
  have written : writeRow sampleDisk 0 file row = (file ++ row, .ok ()) := by
    rw [writeRow, if_neg some, taken]
    simp only [all, if_neg positive, List.take_length, List.drop_length]
    rw [writeRow, if_pos rfl]
  have seeks : sampleDisk.seeks = true := rfl
  have flushes : sampleDisk.flushes = true := rfl
  rw [appendAndFlush, if_pos seeks, written]
  simp [if_pos flushes]

/-- The owner of a new journal. -/
def sampleOwner : State := ⟨"custody", genesis, 0, false⟩

theorem sampleOwner_opens (delivered : Nat → Nat) :
    openJournal readCompact sampleSha256 "custody" [] delivered = .ok sampleOwner :=
  (openJournal_iff _ _ _ _).mpr ⟨by decide, by decide, rfl, [], rfl, by simp, rfl⟩

theorem sampleOwner_next : nextRow readCompact sampleSha256 sampleOwner
    (utf8 (String.ofList (render sampleEvent))) =
      .ok (utf8 sampleRow ++ [10], ⟨1, sampleHash⟩) := by
  refine (nextRow_ok _ _ _ _).mpr ⟨rfl, _, _, sampleEvent_accepted, sampleRow_built,
    sampleRow_head, rfl, ?_⟩
  have number : (UInt64.ofNat (utf8 sampleRow ++ [10]).length).toNat =
      (utf8 sampleRow ++ [10]).length :=
    UInt64.toNat_ofNat_of_lt' (Nat.lt_of_le_of_lt sampleRow_length (by decide))
  rw [UInt64.lt_iff_toNat_lt, number]
  exact Nat.not_lt.mpr (Nat.le_trans sampleRow_small (by decide))

/-- A new journal after its first row. -/
theorem first_row_agrees : ∃ world state,
    Reaches (system readCompact sampleSha256) (World.start []) world ∧
    world.owner = some state ∧ state.head = ⟨1, sampleHash⟩ ∧
    Agreement readCompact sampleSha256 stamp world state := by
  have opened : Reaches (system readCompact sampleSha256) (World.start [])
      ⟨[], some sampleOwner, []⟩ := by
    refine Run.start.to (.reopen "custody" fun _ => 0) trivial trivial ?_
    simp [system, apply, World.start, sampleOwner_opens]
  have done := (append_written [] _ _ sampleDisk sampleOwner_next).1
    (sampleDisk_writes sampleRow_length (by simp))
  have run := opened.next (.append (utf8 (String.ofList (render sampleEvent))) sampleDisk) rfl
    trivial
  have owner : (apply readCompact sampleSha256 ⟨[], some sampleOwner, []⟩
      (.append (utf8 (String.ofList (render sampleEvent))) sampleDisk)).owner =
      some { sampleOwner with
        bytes := sampleOwner.bytes + UInt64.ofNat (utf8 sampleRow ++ [10]).length,
        head := ⟨1, sampleHash⟩ } := by
    simp [apply, done]
  exact ⟨_, _, run, owner, rfl, append_agrees_with_recovery stamp readsCompact_readCompact
    readsNoShorter_readCompact [] _ run _ owner⟩

end Synergos.JournalWorld
