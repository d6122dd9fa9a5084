import Synergos.FileExchange
import Synergos.Runs

/-!
# Serving wants

A want is answered in two steps: the handler reads the record of the file and
spawns a task, and the task shares the file before it sends it. Sharing writes
the record again. If the version came from the history store, what is written is
the old version with the path of the stored object; if the record has changed
since the want was handled, the task puts the old record back.

As long as no version is served from history and no record is written while a
task for its file is waiting, serving leaves every record as it was, and so the
answers to later wants and offers.
-/

namespace Synergos.ServedWants

open Base64url Envelope Identity ByteText Gossip GossipNodes FileExchange Runs List

/-- The exchange with the tasks that its handlers have spawned. -/
structure World where
  exchange : Exchange
  tasks : List Task

inductive Action where
  /-- A call from outside, at a time. -/
  | call (made : FileExchange.Call) (now : Moment)
  /-- One of the tasks runs. The history store answers a lookup. -/
  | perform (task : Task) (hit : Option HistoryHit) (id : TransferId) (now : Moment)

/-- The task that a call spawns. -/
def spawned : Outcome → List Task
  | .task task => task.toList
  | .offered outcome => outcome.pull.toList
  | _ => []

section System

variable (blake3 : List UInt8 → Bytes 32) (scheme : Scheme) (crc32 : List UInt8 → UInt32)

/-- What a task does to the exchange before the bytes are sent. -/
def performTask (exchange : Exchange) (hit : Option HistoryHit) (id : TransferId) (now : Moment) :
    Task → Exchange
  | .shareAndSend request => (shareFile blake3 scheme exchange request id now).2
  | .serveHistory projectId requester fileId version =>
      match hit with
      | none => exchange
      | some hit => (shareFile blake3 scheme exchange
          (historyShare projectId requester fileId version hit) id now).2
  | .fetch request => (fetchFile blake3 scheme exchange request id now).2

def enabled (world : World) : Action → Prop
  | .call _ _ => True
  | .perform task _ _ _ => task ∈ world.tasks

def apply (world : World) : Action → World
  | .call made now =>
      let answer := FileExchange.call blake3 scheme crc32 world.exchange now made
      ⟨answer.2, world.tasks ++ spawned answer.1⟩
  | .perform task hit id now =>
      ⟨performTask blake3 scheme world.exchange hit id now task, world.tasks.erase task⟩

def system : System World Action := ⟨enabled, apply blake3 scheme crc32⟩

end System

/-! ## What is asked of a run -/

/-- The files whose records a call writes. -/
def written : FileExchange.Call → List (ProjectId × FileId)
  | .shareFile request _ => [(request.projectId, request.fileId)]
  | .publishUpdates projectId files _ => files.map fun file => (projectId, file.fileId)
  | .registerReceived header _ _ _ => [(header.projectId, header.fileId)]
  | .restoreSharedFile fileId record => [(record.projectId, fileId)]
  | _ => []

/-- A share of the file is waiting. -/
def Waiting (tasks : List Task) (file : ProjectId × FileId) : Prop :=
  ∃ request, Task.shareAndSend request ∈ tasks ∧ (request.projectId, request.fileId) = file

/-- Records are not written while a share of their file is waiting, and the
history store has none of the versions it is asked for. -/
def Undisturbed (world : World) : Action → Prop
  | .call made _ => ∀ file ∈ written made, ¬ Waiting world.tasks file
  | .perform (.serveHistory _ _ _ _) hit _ _ => hit = none
  | .perform _ _ _ _ => True

/-! ## Records -/

section Proofs

variable {blake3 : List UInt8 → Bytes 32} {scheme : Scheme} {crc32 : List UInt8 → UInt32}

/-- Every record is kept under its own project. -/
def Keyed (exchange : Exchange) : Prop :=
  ∀ projectId fileId record, exchange.sharedFiles (projectId, fileId) = some record →
    record.projectId = projectId

variable {exchange : Exchange} {id : TransferId} (world : World)

theorem Keyed.insertShared (keyed : Keyed exchange) (fileId : FileId)
    (record : SharedFileRecord) : Keyed (insertShared exchange fileId record) := by
  intro projectId other found held
  by_cases same : (projectId, other) = (record.projectId, fileId)
  · rw [same] at held
    have here : record = found := by simpa [FileExchange.insertShared] using held
    rw [← here]
    exact (congrArg Prod.fst same).symm
  · exact keyed projectId other found (by simpa [FileExchange.insertShared, same] using held)

theorem Keyed.of_shared {before after : Exchange} (keyed : Keyed before)
    (same : after.sharedFiles = before.sharedFiles) : Keyed after := by
  intro projectId fileId record held
  exact keyed projectId fileId record (by rw [← same]; exact held)

theorem shared_insertShared {fileId : FileId} {record : SharedFileRecord}
    {file : ProjectId × FileId} (other : file ≠ (record.projectId, fileId)) :
    (insertShared exchange fileId record).sharedFiles file = exchange.sharedFiles file := by
  simp [insertShared, other]

/-- The records a batch leaves alone. -/
theorem shared_publish_fold (now : Moment) (files : List PublishNotification)
    (progress : Exchange × UInt32) (keyed : Keyed progress.1) :
    Keyed (files.foldl (publishUpdate blake3 scheme crc32 now) progress).1 ∧
      ∀ file, (∀ notif ∈ files, file ≠ (notif.projectId, notif.fileId)) →
        (files.foldl (publishUpdate blake3 scheme crc32 now) progress).1.sharedFiles file =
          progress.1.sharedFiles file := by
  induction files generalizing progress with
  | nil => exact ⟨keyed, fun _ _ => rfl⟩
  | cons notif rest ih =>
    have offered : Keyed (clearFetchPin (offerLocally progress.1 notif.fileId notif.version
        notif.fileSize notif.crc now) notif.projectId notif.fileId) := keyed.of_shared rfl
    have entered := offered.insertShared notif.fileId
      ⟨notif.projectId, notif.filePath, notif.fileSize, notif.crc, notif.version⟩
    have step : Keyed (publishUpdate blake3 scheme crc32 now progress notif).1 :=
      entered.of_shared rfl
    obtain ⟨later, kept⟩ := ih _ step
    refine ⟨later, fun file others => ?_⟩
    rw [foldl_cons, kept file fun other member =>
      others other (mem_cons_of_mem notif member)]
    exact shared_insertShared
      (others notif mem_cons_self)

theorem shared_registerReceived (exchange : Exchange) (header : TransferHeader)
    (finalPath : PathBuf) (crc : UInt32) (pinned : Bool) :
    (registerReceived exchange header finalPath crc pinned).sharedFiles =
      (insertShared exchange header.fileId ⟨header.projectId, finalPath, header.totalSize, crc,
        header.effectiveVersion⟩).sharedFiles := by
  unfold registerReceived
  dsimp only
  split <;> rfl

theorem shared_enterFetch (exchange : Exchange) (request : FetchRequest) (id : TransferId)
    (now : Moment) : (enterFetch exchange request id now).sharedFiles = exchange.sharedFiles := by
  obtain ⟨_, same⟩ := enterFetch_frame exchange request id now
  rw [same]

/-- A call keeps records under their projects and writes only those it names. -/
theorem shared_call (exchange : Exchange) (keyed : Keyed exchange) (now : Moment)
    (made : FileExchange.Call) :
    Keyed (FileExchange.call blake3 scheme crc32 exchange now made).2 ∧
      ∀ file ∉ written made,
        (FileExchange.call blake3 scheme crc32 exchange now made).2.sharedFiles file =
          exchange.sharedFiles file := by
  have unchanged : ∀ after : Exchange, after.sharedFiles = exchange.sharedFiles →
      Keyed after ∧ ∀ file ∉ written made, after.sharedFiles file = exchange.sharedFiles file :=
    fun after same => ⟨keyed.of_shared same, fun file _ => by rw [same]⟩
  cases made with
  | shareFile request id =>
    have entered : Keyed (offerLocally (setTransfer exchange (request.transfer id)) request.fileId
        request.version request.fileSize request.crc now) := keyed.of_shared rfl
    refine ⟨(entered.insertShared request.fileId ⟨request.projectId, request.filePath,
      request.fileSize, request.crc, request.version⟩).of_shared rfl, fun file others => ?_⟩
    exact shared_insertShared fun same => others (by simp [written, same])
  | publishUpdates projectId files catalogCid =>
    obtain ⟨published, kept⟩ := @shared_publish_fold blake3 scheme crc32 now
      (files.map fun file => file.notification projectId) (exchange, 0) keyed
    obtain ⟨_, whole⟩ := publishUpdates_fold blake3 scheme crc32 exchange
      (files.map fun file => file.notification projectId) catalogCid now
    have same := congrArg Exchange.sharedFiles whole
    refine ⟨published.of_shared same, fun file others => ?_⟩
    show (publishUpdates blake3 scheme crc32 exchange _ catalogCid now).2.sharedFiles file = _
    rw [same]
    refine kept file fun notif member => ?_
    obtain ⟨entry, among, rfl⟩ := mem_map.mp member
    intro here
    exact others (mem_map.mpr ⟨entry, among, here.symm⟩)
  | registerReceived header finalPath crc pinned =>
    have same := shared_registerReceived exchange header finalPath crc pinned
    refine ⟨(keyed.insertShared header.fileId ⟨header.projectId, finalPath, header.totalSize, crc,
      header.effectiveVersion⟩).of_shared same, fun file others => ?_⟩
    show (registerReceived exchange header finalPath crc pinned).sharedFiles file = _
    rw [same]
    exact shared_insertShared fun here => others (by simp [written, here])
  | restoreSharedFile fileId record =>
    have cleared : Keyed (clearFetchPin exchange record.projectId fileId) := keyed.of_shared rfl
    refine ⟨cleared.insertShared fileId record, fun file others => ?_⟩
    exact shared_insertShared fun here => others (by simp [written, here])
  | _ => exact unchanged _ ((call_frame blake3 scheme crc32 exchange now _).shared rfl)

/-! ## Waiting shares -/

/-- What the record of a file says when a share of it is waiting. -/
def SharedAs (exchange : Exchange) (request : ShareRequest) : Prop :=
  exchange.sharedFiles (request.projectId, request.fileId) = some
    ⟨request.projectId, request.filePath, request.fileSize, request.crc, request.version⟩

/-- Every waiting share agrees with the record of its file. -/
structure Sound (world : World) : Prop where
  keyed : Keyed world.exchange
  waiting : ∀ request, Task.shareAndSend request ∈ world.tasks → SharedAs world.exchange request

/-- Sharing what the record says already leaves all records as they are. -/
theorem shared_shareFile {request : ShareRequest} (id : TransferId)
    (now : Moment) (same : SharedAs exchange request) :
    (shareFile blake3 scheme exchange request id now).2.sharedFiles = exchange.sharedFiles :=
  Function.update_eq_self_iff.mpr same.symm

/-- A share that a want spawns is that of the record. -/
theorem spawned_want (exchange : Exchange) (keyed : Keyed exchange) (projectId : ProjectId)
    (requester : PeerId) (fileId : FileId) (version : UInt64) (request : ShareRequest)
    (spawns : handleFileWant exchange projectId requester fileId version =
      some (.shareAndSend request)) : SharedAs exchange request := by
  have history : serveFromHistory exchange projectId requester fileId version ≠
      some (.shareAndSend request) := by
    unfold serveFromHistory
    split <;> simp
  unfold handleFileWant at spawns
  split at spawns
  · cases spawns
  split at spawns
  · cases spawns
  split at spawns
  · exact absurd spawns history
  · rename_i record found
    split at spawns
    · exact absurd spawns history
    · obtain rfl : record.share requester fileId = request := by simpa using spawns
      have owner := keyed projectId fileId record found
      show exchange.sharedFiles (record.projectId, fileId) = some record
      rw [owner]
      exact found

theorem spawned_call (keyed : Keyed exchange) {now : Moment}
    {made : FileExchange.Call} {request : ShareRequest} (spawns : Task.shareAndSend request ∈
      spawned (FileExchange.call blake3 scheme crc32 exchange now made).1) :
    SharedAs exchange request ∧ written made = [] := by
  cases made with
  | fileWant projectId requester fileId version =>
    refine ⟨spawned_want exchange keyed projectId requester fileId version request ?_, rfl⟩
    simpa [FileExchange.call, spawned] using spawns
  | fileOffer projectId projectOpen sender fileId version size crc =>
    exfalso
    simp only [FileExchange.call, spawned, onFileOffer, offerOutcome, Option.mem_toList] at spawns
    split at spawns
    · simp at spawns
    split at spawns
    · simp at spawns
    split at spawns <;> simp at spawns
  | _ => exact absurd spawns not_mem_nil

theorem sound_call (sound : Sound world) (made : FileExchange.Call) (now : Moment)
    (undisturbed : Undisturbed world (.call made now)) :
    Sound (apply blake3 scheme crc32 world (.call made now)) := by
  obtain ⟨keyed, kept⟩ := @shared_call blake3 scheme crc32 world.exchange sound.keyed now made
  refine ⟨keyed, fun request member => ?_⟩
  rcases mem_append.mp member with old | new
  · have there : (request.projectId, request.fileId) ∉ written made := fun touched =>
      undisturbed _ touched ⟨request, old, rfl⟩
    exact (kept _ there).trans (sound.waiting request old)
  · obtain ⟨same, nothing⟩ := spawned_call sound.keyed new
    exact (kept _ (by rw [nothing]; exact not_mem_nil)).trans same

/-- A task that runs leaves all records as they are. -/
theorem shared_perform {world : World} (sound : Sound world) {task : Task}
    {hit : Option HistoryHit} {id : TransferId} {now : Moment} (waits : task ∈ world.tasks)
    (undisturbed : Undisturbed world (.perform task hit id now)) :
    (apply blake3 scheme crc32 world (.perform task hit id now)).exchange.sharedFiles =
      world.exchange.sharedFiles := by
  cases task with
  | shareAndSend request => exact shared_shareFile id now (sound.waiting request waits)
  | serveHistory projectId requester fileId version =>
    have missing : hit = none := undisturbed
    subst missing
    rfl
  | fetch request => exact shared_enterFetch _ request id now

theorem sound_step (action : Action) (possible : enabled world action)
    (undisturbed : Undisturbed world action) (sound : Sound world) :
    Sound (apply blake3 scheme crc32 world action) := by
  cases action with
  | call made now => exact sound_call world sound made now undisturbed
  | perform task hit id now =>
    have same := @shared_perform blake3 scheme crc32 world sound task hit id now possible
      undisturbed
    refine ⟨sound.keyed.of_shared same, fun request member => ?_⟩
    have waiting := sound.waiting request (mem_of_mem_erase member)
    unfold SharedAs at waiting ⊢
    rw [same]
    exact waiting

/-- Tasks do not change how the node is set up. -/
theorem settings_perform (world : World) (task : Task) (hit : Option HistoryHit)
    (id : TransferId) (now : Moment) :
    let after := (apply blake3 scheme crc32 world (.perform task hit id now)).exchange
    after.localPeerId = world.exchange.localPeerId ∧
      after.quicAttached = world.exchange.quicAttached ∧
      after.historyAttached = world.exchange.historyAttached := by
  cases task with
  | shareAndSend request => exact ⟨rfl, rfl, rfl⟩
  | serveHistory projectId requester fileId version =>
    cases hit with
    | none | some hit => exact ⟨rfl, rfl, rfl⟩
  | fetch request =>
    simp only [apply, performTask, fetchFile, broadcastWant, broadcast, enterFetch]
    split <;> exact ⟨rfl, rfl, rfl⟩

/-- A node that has just started, with its transports and stores attached or not. -/
def World.start (localPeerId : PeerId) (gossip : Option GossipNode)
    (quicAttached historyAttached : Bool) : World :=
  ⟨{ withNetwork localPeerId gossip with quicAttached, historyAttached }, []⟩

theorem sound_start (localPeerId : PeerId) (gossip : Option GossipNode)
    (quicAttached historyAttached : Bool) :
    Sound (World.start localPeerId gossip quicAttached historyAttached) where
  keyed _ _ _ held := by cases held
  waiting _ member := by cases member

end Proofs

/-! ## Serving leaves the records alone -/

/-- The steps in which a want is handled. -/
def Serving : Action → Prop
  | .call (.fileWant _ _ _ _) _ => True
  | .perform _ _ _ _ => True
  | _ => False

/-- The two exchanges share the same files and answer wants and offers alike. -/
structure AnswersAlike (before after : Exchange) : Prop where
  records : after.sharedFiles = before.sharedFiles
  wants : ∀ projectId requester fileId version,
    handleFileWant after projectId requester fileId version =
      handleFileWant before projectId requester fileId version
  offers : ∀ projectOpen projectId sender fileId version size crc actions,
    offerOutcome projectOpen after projectId sender fileId version size crc actions =
      offerOutcome projectOpen before projectId sender fileId version size crc actions

theorem answersAlike_of_records {before after : Exchange}
    (records : after.sharedFiles = before.sharedFiles)
    (peer : after.localPeerId = before.localPeerId)
    (quic : after.quicAttached = before.quicAttached)
    (history : after.historyAttached = before.historyAttached) : AnswersAlike before after := by
  cases before
  cases after
  dsimp only at records peer quic history
  subst records peer quic history
  exact ⟨rfl, fun _ _ _ _ => rfl, fun _ _ _ _ _ _ _ _ => rfl⟩

/-- In a run in which no record is written while a share of its file is waiting
and nothing is served from history, every step that handles a want leaves the
records, and with them the answers to wants and offers, as they were. -/
theorem serving_keeps_records (blake3 : List UInt8 → Bytes 32) (scheme : Scheme)
    (crc32 : List UInt8 → UInt32) (localPeerId : PeerId) (gossip : Option GossipNode)
    (quicAttached historyAttached : Bool) (world : World)
    (run : Run (system blake3 scheme crc32) Undisturbed
      (World.start localPeerId gossip quicAttached historyAttached) world)
    (action : Action) (possible : enabled world action) (undisturbed : Undisturbed world action)
    (serving : Serving action) :
    AnswersAlike world.exchange (apply blake3 scheme crc32 world action).exchange := by
  have sound : Sound world := run.invariant Sound
    (sound_start localPeerId gossip quicAttached historyAttached)
    fun state step possible met sound => sound_step state step possible met sound
  cases action with
  | call made now =>
    cases made with
    | fileWant projectId requester fileId version =>
      exact answersAlike_of_records rfl rfl rfl rfl
    | _ => exact absurd serving id
  | perform task hit id now =>
    obtain ⟨peer, quic, history⟩ :=
      @settings_perform blake3 scheme crc32 world task hit id now
    exact answersAlike_of_records (shared_perform sound possible undisturbed)
      peer quic history

/-! ## A version from history -/

section Samples

def sampleStart : World := .start "bob" none true true

def samplePath : PathBuf := ["p", "a.txt"]

def publishAction (version : UInt64) : Action :=
  .call (.publishUpdates "p" [⟨"a.txt", samplePath, 5, 77, version⟩] none) ⟨0, 0⟩

def wantAction (version : UInt64) : Action := .call (.fileWant "p" "alice" "a.txt" version) ⟨1, 1⟩

/-- Version one as the history store keeps it. -/
def sampleHit : HistoryHit := ⟨["p", ".synergos", "history", "objects", "3f"], 4, 11⟩

def follow (actions : List Action) : World :=
  actions.foldl (apply sampleDigest stamp fun _ => 0) sampleStart

/-- The share that a want for the newest version leads to. -/
def sampleShare : Task := .shareAndSend
  ⟨"p", "a.txt", samplePath, 5, 77, .interactive, some "alice", 2⟩

/-- A want for the newest version is served from its record. -/
theorem newest_served : ∃ world, Run (system sampleDigest stamp fun _ => 0) Undisturbed sampleStart
    world ∧ sampleShare ∈ world.tasks ∧ AnswersAlike world.exchange
      (apply sampleDigest stamp (fun _ => 0) world (.perform sampleShare none "t" ⟨2, 2⟩)).exchange := by
  have published : Run (system sampleDigest stamp fun _ => 0) Undisturbed sampleStart
      (follow [publishAction 2]) := by
    refine Run.next .start (publishAction 2) trivial ?_
    rintro file _ ⟨request, member, _⟩
    cases member
  have wanted : Run (system sampleDigest stamp fun _ => 0) Undisturbed sampleStart
      (follow [publishAction 2, wantAction 2]) := by
    refine Run.next published (wantAction 2) trivial ?_
    intro file member
    cases member
  have waits : sampleShare ∈ (follow [publishAction 2, wantAction 2]).tasks := by decide +kernel
  exact ⟨_, wanted, waits, serving_keeps_records sampleDigest stamp (fun _ => 0) "bob" none true true
    _ wanted (.perform sampleShare none "t" ⟨2, 2⟩) waits trivial trivial⟩

/-- A want for version one, served from history, makes version one with the path
of the stored object the shared record, and the newest version is no longer
served from the working tree. -/
theorem history_replaces_record :
    let task : Task := .serveHistory "p" "alice" "a.txt" 1
    let before := follow [publishAction 1, publishAction 2, wantAction 1]
    let after := follow [publishAction 1, publishAction 2, wantAction 1,
      .perform task (some sampleHit) "t" ⟨2, 2⟩]
    Reaches (system sampleDigest stamp fun _ => 0) sampleStart before ∧ task ∈ before.tasks ∧
      before.exchange.sharedFiles ("p", "a.txt") = some ⟨"p", samplePath, 5, 77, 2⟩ ∧
      after.exchange.sharedFiles ("p", "a.txt") = some ⟨"p", sampleHit.path, 4, 11, 1⟩ ∧
      handleFileWant before.exchange "p" "carol" "a.txt" 2 = some (.shareAndSend
        ⟨"p", "a.txt", samplePath, 5, 77, .interactive, some "carol", 2⟩) ∧
      handleFileWant after.exchange "p" "carol" "a.txt" 2 =
        some (.serveHistory "p" "carol" "a.txt" 2) := by
  refine ⟨?_, by decide +kernel⟩
  refine Run.follow [publishAction 1, publishAction 2, wantAction 1] .start ?_
  exact ⟨trivial, trivial, trivial, trivial, trivial, trivial, trivial⟩

end Samples

end Synergos.ServedWants
