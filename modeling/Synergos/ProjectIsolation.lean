import Synergos.FileExchange

/-!
# Projects that share one exchange

The records of shared files and the pins are kept by project; the ledger of
wants and offers is kept by file and version alone. An offer for one project is
therefore matched with a fetch of the same path and version in another one.

As long as no file and version (and no transfer id) is named both for a project
and outside it, nothing that happens in the project can be seen from another:
the view of the exchange without the project's entries moves by the other calls
alone.
-/

namespace Synergos.ProjectIsolation

open Base64url Envelope Identity ByteText Gossip GossipNodes FileExchange Machines List

/-! ## What a call is about -/

/-- The call is made for the project, or is gossip on its topic. -/
def about (projectId : ProjectId) : FileExchange.Call → Bool
  | .fetchFile request _ => request.projectId = projectId
  | .shareFile request _ => request.projectId = projectId
  | .publishUpdates owner _ _ => owner = projectId
  | .fileWant owner _ _ _ => owner = projectId
  | .fileOffer owner _ _ _ _ _ _ => owner = projectId
  | .admitTransfer header _ => header.projectId = projectId
  | .registerReceived header _ _ _ => header.projectId = projectId
  | .finishReceived header _ _ => header.projectId = projectId
  | .restoreSharedFile _ record => record.projectId = projectId
  | .pinFetchVersion owner _ _ _ => owner = projectId
  | .unpinFetchVersion owner _ _ => owner = projectId
  | .gossip made => made.carried.any fun carried => carried.1 = projectTopic projectId
  | _ => false

/-- The files and versions under which a call enters something. -/
def enteredKeys : FileExchange.Call → List LedgerKey
  | .fetchFile request _ => [(request.fileId, request.version)]
  | .shareFile request _ => [(request.fileId, request.version)]
  | .publishUpdates _ files _ => files.map fun file => (file.fileId, file.version)
  | .fileOffer _ _ _ fileId version _ _ => [(fileId, version)]
  | .finishReceived header _ _ => [(header.fileId, header.effectiveVersion)]
  | _ => []

/-- The ids under which a call enters a transfer. -/
def enteredIds : FileExchange.Call → List TransferId
  | .fetchFile _ id => [id]
  | .shareFile _ id => [id]
  | .finishReceived header _ _ => [header.transferId]
  | _ => []

/-- Nothing is entered both for the project and outside it under one file and
version or one transfer id. -/
def Separated (projectId : ProjectId) (calls : List FileExchange.Call) : Prop :=
  ∀ own ∈ calls, about projectId own = true → ∀ other ∈ calls, about projectId other = false →
    (∀ key ∈ enteredKeys own, key ∉ enteredKeys other) ∧
      ∀ id ∈ enteredIds own, id ∉ enteredIds other

instance (projectId : ProjectId) (calls : List FileExchange.Call) :
    Decidable (Separated projectId calls) := by
  unfold Separated
  infer_instance

/-! ## The view from outside -/

/-- A project with what its calls enter. -/
structure Territory where
  project : ProjectId
  keys : List LedgerKey
  ids : List TransferId

/-- The territory of a project in the given calls. -/
def territory (projectId : ProjectId) (calls : List FileExchange.Call) : Territory where
  project := projectId
  keys := (calls.filter (about projectId)).flatMap enteredKeys
  ids := (calls.filter (about projectId)).flatMap enteredIds

namespace Territory

variable (own : Territory)

def ownsKey (key : LedgerKey) : Bool := key ∈ own.keys

def ownsId (id : TransferId) : Bool := id ∈ own.ids

def ownsFile (file : ProjectId × FileId) : Bool := file.1 = own.project

def ledgerView (ledger : TransferLedger) : TransferLedger :=
  ⟨hide own.ownsKey [] ledger.wants, hide own.ownsKey none ledger.offers⟩

/-- The exchange without the entries of the project and without gossip. -/
def view (exchange : Exchange) : Exchange :=
  { exchange with
    transfers := hide own.ownsId none exchange.transfers
    ledger := own.ledgerView exchange.ledger
    gossip := none
    sharedFiles := hide own.ownsFile none exchange.sharedFiles
    pinnedFetches := hide own.ownsFile none exchange.pinnedFetches }

/-- A call of the project stays in the territory, any other stays out of it. -/
def Allows (made : FileExchange.Call) : Prop :=
  if about own.project made = true then
    enteredKeys made ⊆ own.keys ∧ enteredIds made ⊆ own.ids
  else (∀ key ∈ enteredKeys made, key ∉ own.keys) ∧ ∀ id ∈ enteredIds made, id ∉ own.ids

/-- Transfers under ids of the territory are the project's. -/
def Confines (exchange : Exchange) : Prop :=
  ∀ id ∈ own.ids, ∀ transfer, exchange.transfers id = some transfer →
    transfer.projectId = own.project ∧ (transfer.fileId, transfer.version) ∈ own.keys

end Territory

variable {own : Territory}

/-! ## The tables -/

variable {id : TransferId} (exchange : Exchange) (transfer : ActiveTransfer) (fileId : FileId)
  (version fileSize : UInt64) (crc : UInt32) (now : Moment)

theorem view_transfers (outside : id ∉ own.ids) :
    (own.view exchange).transfers id = exchange.transfers id :=
  hide_shown exchange.transfers (decide_eq_false outside)

theorem view_transfers_hidden (inside : id ∈ own.ids) :
    (own.view exchange).transfers id = none :=
  hide_hidden exchange.transfers (decide_eq_true inside)

theorem view_sharedFiles {projectId : ProjectId} (outside : projectId ≠ own.project) :
    (own.view exchange).sharedFiles (projectId, fileId) =
      exchange.sharedFiles (projectId, fileId) :=
  hide_shown exchange.sharedFiles (decide_eq_false outside)

theorem view_modifyTransfer (id : TransferId) (change : ActiveTransfer → ActiveTransfer) :
    own.view (modifyTransfer exchange id change) =
      modifyTransfer (own.view exchange) id change := by
  simp only [Territory.view, modifyTransfer]
  rw [hide_update_change exchange.transfers id (Option.map change) rfl]

theorem view_unpin (projectId : ProjectId) :
    own.view (unpinFetchVersion exchange projectId fileId version) =
      unpinFetchVersion (own.view exchange) projectId fileId version := by
  simp only [Territory.view, unpinFetchVersion]
  rw [hide_update_change exchange.pinnedFetches (projectId, fileId)
    (Option.filter fun pin => pin.version ≠ version) rfl]

variable {mine : Bool} {key : LedgerKey}

theorem tracks_transfers (its : own.ownsId id = mine)
    (change : Option ActiveTransfer → Option ActiveTransfer) :
    Tracks own.view mine fun exchange => { exchange with
      transfers := Function.update exchange.transfers id (change (exchange.transfers id)) } := by
  subst its
  intro exchange
  simp only [Territory.view, hide_update exchange.transfers]
  split_ifs <;> rfl

theorem tracks_sharedFiles (file : ProjectId × FileId) (its : own.ownsFile file = mine)
    (change : Option SharedFileRecord → Option SharedFileRecord) :
    Tracks own.view mine fun exchange => { exchange with
      sharedFiles := Function.update exchange.sharedFiles file
        (change (exchange.sharedFiles file)) } := by
  subst its
  intro exchange
  simp only [Territory.view, hide_update exchange.sharedFiles]
  split_ifs <;> rfl

theorem tracks_pinnedFetches (file : ProjectId × FileId) (its : own.ownsFile file = mine)
    (change : Option PinnedFetch → Option PinnedFetch) :
    Tracks own.view mine fun exchange => { exchange with
      pinnedFetches := Function.update exchange.pinnedFetches file
        (change (exchange.pinnedFetches file)) } := by
  subst its
  intro exchange
  simp only [Territory.view, hide_update exchange.pinnedFetches]
  split_ifs <;> rfl

/-! ## The ledger -/

variable (ledger : TransferLedger) (want : WantEntry) (requester : PeerId)
  (state : LedgerEntryState)

theorem ledgerView_settleWants (key : LedgerKey) :
    own.ledgerView (ledger.settleWants key requester state) =
      (own.ledgerView ledger).settleWants key requester state := by
  simp only [Territory.ledgerView, TransferLedger.settleWants, TransferLedger.mk.injEq, and_true]
  exact hide_update_change ledger.wants key _ rfl

theorem ledgerView_settleWants_hidden (inside : key ∈ own.keys) :
    own.ledgerView (ledger.settleWants key requester state) = own.ledgerView ledger := by
  have secret : own.ownsKey key = true := decide_eq_true inside
  simp only [Territory.ledgerView, TransferLedger.settleWants]
  rw [hide_update ledger.wants key, if_pos secret]

theorem tracks_registerOffer (offer : OfferEntry)
    (its : own.ownsKey (offer.fileId, offer.version) = mine) :
    Tracks own.ledgerView mine fun ledger => (ledger.registerOffer offer).2 := by
  subst its
  intro ledger
  simp only [Territory.ledgerView, TransferLedger.registerOffer]
  rw [hide_update ledger.offers _ fun _ => some offer]
  split_ifs <;> rfl

theorem registerOffer_view (offer : OfferEntry)
    (shown : own.ownsKey (offer.fileId, offer.version) = false) :
    ((own.ledgerView ledger).registerOffer offer).1 = (ledger.registerOffer offer).1 := by
  simp [TransferLedger.registerOffer, Territory.ledgerView, hide_shown ledger.wants shown]

theorem tracks_ledger {step : PeerId → TransferLedger → TransferLedger}
    (tracked : ∀ peer, Tracks own.ledgerView mine (step peer)) :
    Tracks own.view mine fun exchange =>
      { exchange with ledger := step exchange.localPeerId exchange.ledger } := by
  intro exchange
  simp only [Territory.view, tracked exchange.localPeerId exchange.ledger]
  split_ifs <;> rfl

theorem ledgerView_registerWant_hidden (secret : own.ownsKey (want.fileId, want.version) = true) :
    own.ledgerView (ledger.registerWant want).2 = own.ledgerView ledger := by
  simp only [TransferLedger.registerWant]
  split
  · rfl
  · split
    · rfl
    · simp only [Territory.ledgerView]
      rw [hide_update ledger.wants _ fun wants => wants ++ [want], if_pos secret]

theorem registerWant_ledgerView (shown : own.ownsKey (want.fileId, want.version) = false) :
    (own.ledgerView ledger).registerWant want =
      ((ledger.registerWant want).1, own.ledgerView (ledger.registerWant want).2) := by
  have sameWanted : (own.ledgerView ledger).wanted want = ledger.wanted want := by
    simp [TransferLedger.wanted, Territory.ledgerView, hide_shown ledger.wants shown]
  have sameOffer : (own.ledgerView ledger).pendingOffer (want.fileId, want.version) =
      ledger.pendingOffer (want.fileId, want.version) := by
    simp [TransferLedger.pendingOffer, Territory.ledgerView, hide_shown ledger.offers shown]
  simp only [TransferLedger.registerWant, sameWanted, sameOffer]
  split
  · rfl
  · split
    · rfl
    · simp only [Territory.ledgerView]
      rw [hide_update ledger.wants _ fun wants => wants ++ [want], if_neg (by simp [shown])]

/-! ## Sharing, fetching and publishing -/

section Calls

variable {blake3 : List UInt8 → Bytes 32} {scheme : Scheme} {crc32 : List UInt8 → UInt32}

variable {made : FileExchange.Call} {projectId : ProjectId} (projectOpen : Bool)
  (request : FetchRequest) (header : TransferHeader) (sender : PeerId) (finalPath : PathBuf)

theorem tracks_offerLocally (its : own.ownsKey (fileId, version) = mine) :
    Tracks own.view mine (offerLocally · fileId version fileSize crc now) := by
  have noted := tracks_ledger fun peer => tracks_registerOffer ⟨peer, fileId, version, fileSize, crc,
    now.ms, .pending⟩ its
  exact noted

/-- What is published cannot be seen in the view, which has no node to publish with. -/
theorem tracks_shareFile (request : ShareRequest) (id : TransferId) (itsId : own.ownsId id = mine)
    (itsKey : own.ownsKey (request.fileId, request.version) = mine)
    (its : decide (request.projectId = own.project) = mine) :
    Tracks own.view mine fun exchange => (shareFile blake3 scheme exchange request id now).2 := by
  have entered := tracks_transfers itsId fun _ => some (request.transfer id)
  have offered := tracks_offerLocally request.fileId request.version request.fileSize request.crc
    now itsKey
  have recorded := tracks_sharedFiles (request.projectId, request.fileId) its fun _ => some
    ⟨request.projectId, request.filePath, request.fileSize, request.crc, request.version⟩
  exact (entered.followed offered).followed recorded

theorem view_enterFetch (id : TransferId) (itsId : own.ownsId id = mine)
    (itsKey : own.ownsKey (request.fileId, request.version) = mine) :
    own.view (enterFetch exchange request id now) =
      if mine then own.view exchange else enterFetch (own.view exchange) request id now := by
  have entered : own.view (setTransfer exchange (request.transfer id)) = _ :=
    tracks_transfers itsId (fun _ => some (request.transfer id)) exchange
  cases mine with
  | true =>
    have noted : own.view { setTransfer exchange (request.transfer id) with
        ledger := (registerFetch (setTransfer exchange (request.transfer id)) request now).2 } =
        own.view exchange := by
      refine Eq.trans ?_ entered
      simp only [Territory.view, registerFetch]
      rw [ledgerView_registerWant_hidden _ _ itsKey]
    unfold enterFetch
    dsimp only
    split
    · exact (tracks_transfers itsId _ _).trans noted
    · exact noted
    · exact noted
  | false =>
    have registered : registerFetch (own.view (setTransfer exchange (request.transfer id))) request
        now = ((registerFetch (setTransfer exchange (request.transfer id)) request now).1,
          own.ledgerView (registerFetch (setTransfer exchange (request.transfer id)) request
            now).2) := registerWant_ledgerView _ _ itsKey
    have set : setTransfer (own.view exchange) (request.transfer id) =
        own.view (setTransfer exchange (request.transfer id)) := entered.symm
    simp only [enterFetch, set, registered, Bool.false_eq_true, if_false]
    cases (registerFetch (setTransfer exchange (request.transfer id)) request now).1 with
    | matched sender fileSize => exact view_modifyTransfer ..
    | duplicate | queued => rfl

theorem tracks_publishUpdate (notif : PublishNotification) (totalCrc : UInt32)
    (itsKey : own.ownsKey (notif.fileId, notif.version) = mine)
    (its : decide (notif.projectId = own.project) = mine) :
    Tracks own.view mine fun exchange =>
      (publishUpdate blake3 scheme crc32 now (exchange, totalCrc) notif).1 := by
  have offered := tracks_offerLocally notif.fileId notif.version notif.fileSize notif.crc now itsKey
  have cleared := tracks_pinnedFetches (notif.projectId, notif.fileId) its fun _ => none
  have recorded := tracks_sharedFiles (notif.projectId, notif.fileId) its fun _ => some
    ⟨notif.projectId, notif.filePath, notif.fileSize, notif.crc, notif.version⟩
  exact (offered.followed cleared).followed recorded

theorem tracks_publishUpdates (notifications : List PublishNotification) (catalogCid : Option Cid)
    (itsKeys : ∀ notif ∈ notifications, own.ownsKey (notif.fileId, notif.version) = mine)
    (its : ∀ notif ∈ notifications, decide (notif.projectId = own.project) = mine) :
    Tracks own.view mine fun exchange =>
      (publishUpdates blake3 scheme crc32 exchange notifications catalogCid now).2 := by
  have each : ∀ totalCrc, Tracks own.view mine fun exchange =>
      (notifications.foldl (publishUpdate blake3 scheme crc32 now) (exchange, totalCrc)).1 := by
    induction notifications with
    | nil => exact fun _ exchange => (ite_self _).symm
    | cons notif rest ih =>
      intro totalCrc
      have first := @tracks_publishUpdate own now mine blake3 scheme crc32 notif totalCrc
        (itsKeys notif mem_cons_self) (its notif mem_cons_self)
      have later := ih (fun other member => itsKeys other (mem_cons_of_mem notif member))
        (fun other member => its other (mem_cons_of_mem notif member))
        (crc32 (le32 totalCrc) ^^^ notif.crc)
      exact first.followed later
  intro exchange
  have published := each 0 exchange
  unfold publishUpdates
  dsimp only
  cases notifications.head? with
  | none => exact published
  | some first =>
    cases mine with
    | true => exact published
    | false =>
      have same : (notifications.foldl (publishUpdate blake3 scheme crc32 now)
        (own.view exchange, 0)).1 = own.view _ := published.symm
      simp only [Bool.false_eq_true, if_false, same]
      rfl

/-! ## Wants, offers and incoming transfers -/

theorem handleFileWant_view (outside : projectId ≠ own.project) :
    handleFileWant (own.view exchange) projectId requester fileId version =
      handleFileWant exchange projectId requester fileId version := by
  rw [handleFileWant, view_sharedFiles exchange fileId outside]
  rfl

theorem view_handleFileOffer (its : own.ownsKey (fileId, version) = mine) :
    own.view (handleFileOffer exchange sender fileId version fileSize crc now).2 =
        (if mine then own.view exchange
        else (handleFileOffer (own.view exchange) sender fileId version fileSize crc now).2) ∧
      (mine = false →
        (handleFileOffer (own.view exchange) sender fileId version fileSize crc now).1 =
          (handleFileOffer exchange sender fileId version fileSize crc now).1) := by
  let offer : OfferEntry := ⟨sender, fileId, version, fileSize, crc, now.ms, .pending⟩
  by_cases self : sender = exchange.localPeerId
  · have ignored : ∀ state : Exchange, state.localPeerId = exchange.localPeerId →
        handleFileOffer state sender fileId version fileSize crc now = ([], state) :=
      fun state same => if_pos (self.trans same.symm)
    rw [ignored exchange rfl, ignored (own.view exchange) rfl]
    exact ⟨(ite_self _).symm, fun _ => rfl⟩
  · have entered : ∀ state : Exchange, state.localPeerId = exchange.localPeerId →
        handleFileOffer state sender fileId version fileSize crc now =
          ((state.ledger.registerOffer offer).1,
            { state with ledger := (state.ledger.registerOffer offer).2 }) :=
      fun state same => if_neg (same ▸ self)
    have noted := tracks_ledger fun _ => tracks_registerOffer offer its
    rw [entered exchange rfl, entered (own.view exchange) rfl]
    exact ⟨noted exchange, fun shown => registerOffer_view exchange.ledger offer (its.trans shown)⟩

theorem tracks_onFileOffer (its : own.ownsKey (fileId, version) = mine) :
    Tracks own.view mine fun exchange =>
      (onFileOffer projectOpen exchange projectId sender fileId version fileSize crc now).2 := by
  intro exchange
  unfold onFileOffer
  by_cases refused : version = 0 ∨ version = 0xffffffffffffffff
  · simp [if_pos refused, ite_self]
  · simp only [if_neg refused]
    exact (view_handleFileOffer exchange fileId version fileSize crc now sender its).1

theorem onFileOffer_view (outside : projectId ≠ own.project)
    (shown : own.ownsKey (fileId, version) = false) :
    (onFileOffer projectOpen (own.view exchange) projectId sender fileId version fileSize crc
        now).1 =
      (onFileOffer projectOpen exchange projectId sender fileId version fileSize crc now).1 := by
  obtain ⟨state, actions⟩ :=
    view_handleFileOffer exchange fileId version fileSize crc now sender shown
  have noted : handleFileOffer (own.view exchange) sender fileId version fileSize crc now =
      ((handleFileOffer exchange sender fileId version fileSize crc now).1,
        own.view (handleFileOffer exchange sender fileId version fileSize crc now).2) :=
    Prod.ext (actions rfl) state.symm
  have decided : ∀ (state : Exchange) (actions : List LedgerAction),
      offerOutcome projectOpen (own.view state) projectId sender fileId version fileSize crc
          actions =
        offerOutcome projectOpen state projectId sender fileId version fileSize crc actions := by
    intro state actions
    rw [offerOutcome, sharedFileRecord, hasSharedFile, view_sharedFiles _ fileId outside]
    rfl
  simp only [onFileOffer, noted, decided]
  split <;> rfl

theorem pinnedFetch_view (outside : projectId ≠ own.project) :
    pinnedFetch (own.view exchange) projectId fileId version now =
      ((pinnedFetch exchange projectId fileId version now).1,
        own.view (pinnedFetch exchange projectId fileId version now).2) := by
  have same : (own.view exchange).pinnedFetches (projectId, fileId) = _ :=
    hide_shown exchange.pinnedFetches (decide_eq_false outside)
  unfold pinnedFetch
  rw [same]
  split
  · rfl
  · split
    · rw [view_unpin]
    · rfl

theorem view_admitTransfer_hidden (inside : header.projectId = own.project) :
    own.view (admitTransfer exchange header crc now).2 = own.view exchange := by
  rcases admitTransfer_cases exchange header crc now with same | ⟨version, same⟩ <;> rw [same]
  exact tracks_pinnedFetches (header.projectId, header.fileId) (decide_eq_true inside) _ _

theorem admitTransfer_view (outside : header.projectId ≠ own.project) :
    admitTransfer (own.view exchange) header crc now =
      ((admitTransfer exchange header crc now).1,
        own.view (admitTransfer exchange header crc now).2) := by
  have looked := pinnedFetch_view exchange header.fileId header.effectiveVersion now outside
  simp only [admitTransfer, looked, sharedFileRecord, view_sharedFiles _ header.fileId outside]
  split
  · rfl
  split
  · rfl
  split
  · rfl
  split <;> rfl

theorem tracks_registerReceived (pinned : Bool)
    (its : decide (header.projectId = own.project) = mine) :
    Tracks own.view mine (registerReceived · header finalPath crc pinned) := by
  have recorded := tracks_sharedFiles (header.projectId, header.fileId) its fun _ => some
    ⟨header.projectId, finalPath, header.totalSize, crc, header.effectiveVersion⟩
  cases pinned with
  | true => exact recorded.followed (tracks_pinnedFetches (header.projectId, header.fileId) its
      (Option.filter fun pin => pin.version ≠ header.effectiveVersion))
  | false => exact recorded.followed (tracks_pinnedFetches (header.projectId, header.fileId) its
      fun _ => none)

/-! ## Calls by transfer id -/

/-- A transfer that is not there can be changed without effect. -/
theorem modifyTransfer_view (inside : id ∈ own.ids) (change : ActiveTransfer → ActiveTransfer) :
    own.view (modifyTransfer exchange id change) = own.view exchange :=
  tracks_transfers (decide_eq_true inside) (Option.map change) exchange

theorem completeTransfer_view (id : TransferId) (confined : own.Confines exchange) :
    completeTransfer (own.view exchange) id = own.view (completeTransfer exchange id) := by
  unfold completeTransfer
  by_cases inside : id ∈ own.ids
  · rw [view_transfers_hidden exchange inside]
    cases found : exchange.transfers id with
    | none => rfl
    | some transfer =>
      have ownKey := (confined id inside transfer found).2
      have modified := modifyTransfer_view exchange inside fun transfer =>
        { transfer with state := .completed, bytesTransferred := transfer.fileSize }
      refine modified.symm.trans ?_
      simp only [Territory.view, TransferLedger.markFulfilled]
      rw [ledgerView_settleWants_hidden _ _ _ ownKey]
  · rw [view_transfers exchange inside]
    split
    · rfl
    · simp only [← view_modifyTransfer, TransferLedger.markFulfilled]
      simp [Territory.view, ledgerView_settleWants]

theorem cancelTransfer_view (id : TransferId) (confined : own.Confines exchange) :
    (cancelTransfer (own.view exchange) id).2 = own.view (cancelTransfer exchange id).2 := by
  unfold cancelTransfer
  by_cases inside : id ∈ own.ids
  · rw [view_transfers_hidden exchange inside]
    cases found : exchange.transfers id with
    | none => rfl
    | some transfer =>
      obtain ⟨ownProject, ownKey⟩ := confined id inside transfer found
      have modified := modifyTransfer_view exchange inside
        fun transfer => { transfer with state := .cancelled }
      dsimp only
      split
      · have unpinned := tracks_pinnedFetches (transfer.projectId, transfer.fileId)
          (decide_eq_true ownProject) (Option.filter fun pin => pin.version ≠ transfer.version)
          (modifyTransfer exchange id fun transfer => { transfer with state := .cancelled })
        refine (unpinned.trans modified).symm.trans ?_
        simp only [Territory.view, TransferLedger.cancelWant]
        rw [ledgerView_settleWants_hidden _ _ _ ownKey]
        rfl
      · exact modified.symm
  · rw [view_transfers exchange inside]
    split
    · rfl
    · dsimp only
      split
      · simp only [← view_modifyTransfer, ← view_unpin, TransferLedger.cancelWant]
        simp [Territory.view, ledgerView_settleWants]
      · exact (view_modifyTransfer _ _ _).symm

theorem switchTransfer_view (id : TransferId) (source target : TransferState) :
    (switchTransfer (own.view exchange) id source target).2 =
      own.view (switchTransfer exchange id source target).2 := by
  unfold switchTransfer
  by_cases inside : id ∈ own.ids
  · rw [view_transfers_hidden exchange inside]
    cases exchange.transfers id with
    | none => rfl
    | some transfer => exact (modifyTransfer_view exchange inside _).symm
  · rw [view_transfers exchange inside]
    split
    · rfl
    · exact (view_modifyTransfer _ _ _).symm

/-- The end of an incoming transfer. -/
theorem view_finishReceived (confined : own.Confines
      (setTransfer exchange (header.transfer sender finalPath)))
    (itsId : own.ownsId header.transferId = mine) :
    own.view (finishReceived exchange header sender finalPath) =
      if mine then own.view exchange
      else finishReceived (own.view exchange) header sender finalPath := by
  have entered : own.view (setTransfer exchange (header.transfer sender finalPath)) = _ :=
    tracks_transfers itsId (fun _ => some (header.transfer sender finalPath)) exchange
  rw [finishReceived, ← completeTransfer_view _ _ confined, entered]
  cases mine with
  | false => rfl
  | true =>
    have absent := view_transfers_hidden exchange (of_decide_eq_true itsId)
    simp [completeTransfer, absent]

theorem gcFinishedTransfers_view :
    gcFinishedTransfers (own.view exchange) = own.view (gcFinishedTransfers exchange) := by
  simp only [gcFinishedTransfers, Territory.view, Exchange.mk.injEq, and_true, true_and]
  funext id
  cases secret : own.ownsId id with
  | true =>
    rw [hide_hidden _ secret, hide_hidden _ secret]
    rfl
  | false => rw [hide_shown _ secret, hide_shown _ secret]

/-! ## Transfers stay in their territory -/

theorem Territory.Confines.of_transfers {before after : Exchange} (confined : own.Confines before)
    (same : after.transfers = before.transfers) : own.Confines after := by
  intro id inside transfer found
  exact confined id inside transfer (by rw [← same]; exact found)

theorem Territory.Confines.setTransfer {exchange : Exchange} (confined : own.Confines exchange)
    (transfer : ActiveTransfer) (entered : transfer.transferId ∈ own.ids →
      transfer.projectId = own.project ∧ (transfer.fileId, transfer.version) ∈ own.keys) :
    own.Confines (setTransfer exchange transfer) := by
  intro id inside other found
  obtain rfl | same := eq_or_ne id transfer.transferId
  · have here : transfer = other := by simpa [FileExchange.setTransfer] using found
    subst here
    exact entered inside
  · exact confined id inside other (by simpa [FileExchange.setTransfer, same] using found)

theorem Territory.Confines.modifyTransfer {exchange : Exchange} (confined : own.Confines exchange)
    (id : TransferId) (change : ActiveTransfer → ActiveTransfer)
    (names : ∀ transfer, (change transfer).projectId = transfer.projectId ∧
      (change transfer).fileId = transfer.fileId ∧ (change transfer).version = transfer.version) :
    own.Confines (modifyTransfer exchange id change) := by
  intro other inside transfer found
  obtain rfl | same := eq_or_ne other id
  · have changed : (exchange.transfers other).map change = some transfer := by
      simpa [FileExchange.modifyTransfer] using found
    obtain ⟨old, was, becomes⟩ := Option.map_eq_some_iff.mp changed
    obtain ⟨sameProject, sameFile, sameVersion⟩ := names old
    rw [← becomes, sameProject, sameFile, sameVersion]
    exact confined other inside old was
  · exact confined other inside transfer
      (by simpa [FileExchange.modifyTransfer, same] using found)

theorem confines_completeTransfer (id : TransferId)
    (confined : own.Confines exchange) : own.Confines (completeTransfer exchange id) := by
  refine Territory.Confines.of_transfers ?_ transfers_completeTransfer
  exact confined.modifyTransfer id _ fun _ => ⟨rfl, rfl, rfl⟩

theorem confines_cancelTransfer (id : TransferId)
    (confined : own.Confines exchange) : own.Confines (cancelTransfer exchange id).2 := by
  refine Territory.Confines.of_transfers ?_ transfers_cancelTransfer
  exact confined.modifyTransfer id _ fun _ => ⟨rfl, rfl, rfl⟩

theorem confines_switchTransfer (id : TransferId)
    (source target : TransferState) (confined : own.Confines exchange) :
    own.Confines (switchTransfer exchange id source target).2 := by
  refine Territory.Confines.of_transfers (confined.modifyTransfer id _ fun transfer => ?_)
    (transfers_switchTransfer source target)
  split <;> exact ⟨rfl, rfl, rfl⟩

theorem confines_enterFetch (id : TransferId)
    (now : Moment) (confined : own.Confines exchange) (entered : id ∈ own.ids →
      request.projectId = own.project ∧ (request.fileId, request.version) ∈ own.keys) :
    own.Confines (enterFetch exchange request id now) := by
  have set : own.Confines (FileExchange.setTransfer exchange (request.transfer id)) :=
    confined.setTransfer (request.transfer id) entered
  unfold enterFetch
  dsimp only
  split
  · exact Territory.Confines.modifyTransfer (set.of_transfers rfl) id _
      fun _ => ⟨rfl, rfl, rfl⟩
  · exact set.of_transfers rfl
  · exact set.of_transfers rfl

theorem confines_gcFinishedTransfers (confined : own.Confines exchange) :
    own.Confines (gcFinishedTransfers exchange) := by
  intro id inside transfer found
  exact confined id inside transfer (Option.eq_some_of_filter_eq_some found)

/-! ## Every call -/

/-- What an allowed call enters is in the territory exactly if the call is about the project. -/
theorem Territory.Allows.owns (allowed : own.Allows made) :
    (∀ key ∈ enteredKeys made, own.ownsKey key = about own.project made) ∧
      ∀ id ∈ enteredIds made, own.ownsId id = about own.project made := by
  unfold Territory.Allows at allowed
  cases mine : about own.project made with
  | true =>
    rw [if_pos mine] at allowed
    exact ⟨fun key entered => decide_eq_true (allowed.1 entered),
      fun id entered => decide_eq_true (allowed.2 entered)⟩
  | false =>
    rw [if_neg (by simp [mine])] at allowed
    exact ⟨fun key entered => decide_eq_false (allowed.1 key entered),
      fun id entered => decide_eq_false (allowed.2 id entered)⟩

/-- A transfer entered under an id of the territory is the project's. -/
theorem Territory.Allows.entered (allowed : own.Allows made)
    (enters : id ∈ enteredIds made) (under : key ∈ enteredKeys made)
    (owner : about own.project made = decide (projectId = own.project)) (inside : id ∈ own.ids) :
    projectId = own.project ∧ key ∈ own.keys := by
  obtain ⟨itsKeys, itsIds⟩ := allowed.owns
  have mine : about own.project made = true :=
    (itsIds id enters).symm.trans (decide_eq_true inside)
  exact ⟨of_decide_eq_true (owner.symm.trans mine),
    of_decide_eq_true ((itsKeys key under).trans mine)⟩

theorem confines_call (made : FileExchange.Call)
    (allowed : own.Allows made) (confined : own.Confines exchange) :
    own.Confines (FileExchange.call blake3 scheme crc32 exchange now made).2 := by
  cases made with
  | fetchFile request id =>
    refine (confines_enterFetch exchange request id now confined fun inside => ?_).of_transfers rfl
    exact allowed.entered mem_cons_self mem_cons_self rfl inside
  | shareFile request id =>
    refine Territory.Confines.of_transfers (confined.setTransfer _ fun inside => ?_) rfl
    exact allowed.entered mem_cons_self mem_cons_self rfl inside
  | finishReceived header sender finalPath =>
    refine confines_completeTransfer _ _ (confined.setTransfer _ fun inside => ?_)
    exact allowed.entered mem_cons_self mem_cons_self rfl inside
  | cancelTransfer id => exact confines_cancelTransfer exchange id confined
  | pauseTransfer id | resumeTransfer id => exact confines_switchTransfer exchange id _ _ confined
  | updateProgress id bytesTransferred speedBps | failTransfer id reason =>
    exact confined.modifyTransfer id _ fun _ => ⟨rfl, rfl, rfl⟩
  | completeTransfer id => exact confines_completeTransfer exchange id confined
  | gcFinishedTransfers => exact confines_gcFinishedTransfers exchange confined
  | _ => exact confined.of_transfers ((call_frame blake3 scheme crc32 exchange now _).transfers rfl)

/-- A call of the project leaves the view alone, and any other call does in the view what it
does in the exchange. -/
theorem view_call (allowed : own.Allows made)
    (confined : own.Confines exchange) :
    own.view (FileExchange.call blake3 scheme crc32 exchange now made).2 =
      if about own.project made then own.view exchange
      else (FileExchange.call blake3 scheme crc32 (own.view exchange) now made).2 := by
  obtain ⟨itsKeys, itsIds⟩ := allowed.owns
  cases made with
  | fetchFile request id =>
    have entered := view_enterFetch exchange now request id (itsIds id mem_cons_self)
      (itsKeys _ mem_cons_self)
    cases mine : about own.project (.fetchFile request id) with
    | true => exact entered.trans (if_pos mine)
    | false =>
      have same : enterFetch (own.view exchange) request id now = own.view _ :=
        (entered.trans (if_neg (by simp [mine]))).symm
      show _ = broadcastWant blake3 scheme (enterFetch (own.view exchange) request id now) _ _ _ now
      rw [same]
      rfl
  | shareFile request id =>
    exact tracks_shareFile now request id (itsIds id mem_cons_self)
      (itsKeys _ mem_cons_self) rfl exchange
  | publishUpdates projectId files catalogCid =>
    refine tracks_publishUpdates now _ catalogCid ?_ ?_ exchange
    · intro notif member
      obtain ⟨file, among, rfl⟩ := mem_map.mp member
      exact itsKeys _ (mem_map_of_mem among)
    · intro notif member
      obtain ⟨file, _, rfl⟩ := mem_map.mp member
      rfl
  | fileWant projectId requester fileId version | gossip made => exact (ite_self _).symm
  | fileOffer projectId projectOpen sender fileId version size crc =>
    exact tracks_onFileOffer _ _ _ _ _ _ _ (itsKeys _ mem_cons_self) exchange
  | admitTransfer header crc =>
    split_ifs with mine
    · exact view_admitTransfer_hidden _ _ _ _ (of_decide_eq_true mine)
    · have others := admitTransfer_view exchange crc now header fun same => mine (decide_eq_true same)
      exact (congrArg Prod.snd others).symm
  | registerReceived header finalPath crc pinned =>
    exact tracks_registerReceived _ _ _ _ rfl exchange
  | finishReceived header sender finalPath =>
    refine view_finishReceived _ _ _ _ ?_ (itsIds _ mem_cons_self)
    exact confined.setTransfer _ fun inside =>
      allowed.entered mem_cons_self mem_cons_self rfl inside
  | restoreSharedFile fileId record =>
    exact ((tracks_pinnedFetches (record.projectId, fileId) rfl fun _ => none).followed
      (tracks_sharedFiles (record.projectId, fileId) rfl fun _ => some record)) exchange
  | pinFetchVersion projectId fileId version expectedSizeCrc =>
    exact tracks_pinnedFetches (projectId, fileId) rfl (fun _ => some _) exchange
  | unpinFetchVersion projectId fileId version =>
    exact tracks_pinnedFetches (projectId, fileId) rfl
      (Option.filter fun pin => pin.version ≠ version) exchange
  | cancelTransfer id => exact (cancelTransfer_view exchange id confined).symm
  | pauseTransfer id | resumeTransfer id => exact (switchTransfer_view exchange id _ _).symm
  | updateProgress id bytesTransferred speedBps | failTransfer id reason =>
    exact view_modifyTransfer _ _ _
  | completeTransfer id => exact (completeTransfer_view exchange id confined).symm
  | gcFinishedTransfers => exact (gcFinishedTransfers_view exchange).symm

/-- What a call about another project answers can be read off the view. -/
theorem call_answer_view
    (observed : about projectId made = true)
    (allowed : own.Allows made) (others : about own.project made = false)
    (confined : own.Confines exchange) :
    (FileExchange.call blake3 scheme crc32 (own.view exchange) now made).1 =
      (FileExchange.call blake3 scheme crc32 exchange now made).1 := by
  have next := @view_call own exchange now blake3 scheme crc32 made allowed confined
  obtain ⟨itsKeys, itsIds⟩ := allowed.owns
  rw [others] at next itsKeys itsIds
  have entered : ∀ id ∈ enteredIds made,
      (FileExchange.call blake3 scheme crc32 (own.view exchange) now made).2.transfers id =
        (FileExchange.call blake3 scheme crc32 exchange now made).2.transfers id := by
    intro id enters
    have same := congrArg (fun state : Exchange => state.transfers id) next
    exact same.symm.trans (view_transfers _ (of_decide_eq_false (itsIds id enters)))
  cases made with
  | fetchFile request id | shareFile request id =>
    exact congrArg (Outcome.started (.ok id)) (entered id mem_cons_self)
  | publishUpdates owner files catalogCid =>
    simp only [FileExchange.call, publishUpdates]
    split <;> rfl
  | fileWant owner requester fileId version =>
    exact congrArg Outcome.task (handleFileWant_view _ _ _ _ (of_decide_eq_false others))
  | fileOffer owner projectOpen sender fileId version size crc =>
    exact congrArg Outcome.offered (onFileOffer_view exchange fileId version size crc now projectOpen
      sender (of_decide_eq_false others) (itsKeys _ mem_cons_self))
  | admitTransfer header crc =>
    have same := congrArg Prod.fst
      (admitTransfer_view exchange crc now header (of_decide_eq_false others))
    exact congrArg Outcome.admitted same
  | cancelTransfer id | pauseTransfer id | resumeTransfer id => cases observed
  | _ => rfl

end Calls

/-! ## Two runs -/

theorem projectTopic_injective {projectId other : ProjectId}
    (same : projectTopic projectId = projectTopic other) : projectId = other := by
  have letters := congrArg String.toList same
  simp only [projectTopic, String.toList_append] at letters
  exact String.toList_injective (append_cancel_left letters)

/-- A call is about one project only. -/
theorem about_unique {projectId other : ProjectId} (different : other ≠ projectId)
    {made : FileExchange.Call} (observed : about other made = true) :
    about projectId made = false := by
  cases made with
  | gossip made =>
    simp only [about] at observed ⊢
    cases carried : made.carried with
    | none => rfl
    | some message =>
      rw [carried] at observed
      have topic : message.1 = projectTopic other := by simpa using observed
      have apart : message.1 ≠ projectTopic projectId := fun same =>
        different (projectTopic_injective (topic.symm.trans same))
      simpa using apart
  | _ =>
    first
    | cases observed
    | exact decide_eq_false fun same => different ((of_decide_eq_true observed).symm.trans same)

theorem allows_of_separated {projectId : ProjectId} {calls : List FileExchange.Call}
    (separated : Separated projectId calls) {made : FileExchange.Call} (member : made ∈ calls) :
    (territory projectId calls).Allows made := by
  unfold Territory.Allows
  split
  · rename_i mine
    have among : made ∈ calls.filter (about projectId) := mem_filter.mpr ⟨member, mine⟩
    exact ⟨fun key entered => mem_flatMap.mpr ⟨made, among, entered⟩,
      fun id entered => mem_flatMap.mpr ⟨made, among, entered⟩⟩
  · rename_i others
    have outside : about projectId made = false := Bool.eq_false_iff.mpr others
    constructor
    · intro key entered inside
      obtain ⟨own, among, owned⟩ := mem_flatMap.mp inside
      obtain ⟨present, mine⟩ := mem_filter.mp among
      exact (separated own present mine made member outside).1 key owned entered
    · intro id entered inside
      obtain ⟨own, among, owned⟩ := mem_flatMap.mp inside
      obtain ⟨present, mine⟩ := mem_filter.mp among
      exact (separated own present mine made member outside).2 id owned entered

/-- The exchange seen from another project, call by call. -/
theorem unwinding (blake3 : List UInt8 → Bytes 32) (scheme : Scheme) (crc32 : List UInt8 → UInt32)
    (own : Territory) (other : ProjectId) (different : other ≠ own.project) :
    Unwinding (machine blake3 scheme crc32) own.view (fun input => about own.project input.1)
      (fun input => about other input.1) (fun input => own.Allows input.1) own.Confines where
  observed_shown input observed := about_unique different observed
  kept state input allowed confined := confines_call state input.2 input.1 allowed confined
  hidden_view state input allowed mine confined :=
    (view_call state input.2 allowed confined).trans (if_pos mine)
  shown_view state input allowed others confined :=
    ((view_call state input.2 allowed confined).trans (if_neg (by simp [others]))).symm
  shown_output state input allowed observed confined :=
    call_answer_view state input.2 observed allowed
      (about_unique different observed) confined

/-- The transfers of one project. -/
def transfersOf (projectId : ProjectId) (exchange : Exchange) (id : TransferId) :
    Option ActiveTransfer :=
  (exchange.transfers id).filter fun transfer => transfer.projectId = projectId

/-- The transfers of another project can be read off the view. -/
theorem transfersOf_view {other : ProjectId} (different : other ≠ own.project)
    {exchange : Exchange} (confined : own.Confines exchange) :
    transfersOf other (own.view exchange) = transfersOf other exchange := by
  funext id
  unfold transfersOf
  by_cases inside : id ∈ own.ids
  · rw [view_transfers_hidden exchange inside]
    cases found : exchange.transfers id with
    | none => rfl
    | some transfer =>
      have owner : transfer.projectId ≠ other := by
        rw [(confined id inside transfer found).1]
        exact different.symm
      simp [Option.filter, owner]
  · rw [view_transfers exchange inside]

/-- Two runs that differ in calls about one project alone, and in which nothing
is entered both for the project and outside it under one file and version or one
transfer id: all calls about another project are answered alike, and its
transfers end up the same. -/
theorem projects_isolated_of_separated (blake3 : List UInt8 → Bytes 32) (scheme : Scheme)
    (crc32 : List UInt8 → UInt32) (start : Exchange) (fresh : ∀ id, start.transfers id = none)
    (projectId other : ProjectId) (different : other ≠ projectId)
    (left right : List (FileExchange.Call × Moment))
    (same : (left.filter fun input => !about projectId input.1) =
      right.filter fun input => !about projectId input.1)
    (separated : Separated projectId ((left ++ right).map Prod.fst)) :
    let leftRun := (machine blake3 scheme crc32).run start left
    let rightRun := (machine blake3 scheme crc32).run start right
    answers (fun input => about other input.1) leftRun.1 =
        answers (fun input => about other input.1) rightRun.1 ∧
      transfersOf other leftRun.2 = transfersOf other rightRun.2 := by
  intro leftRun rightRun
  let own := territory projectId ((left ++ right).map Prod.fst)
  have unwound := unwinding blake3 scheme crc32 own other different
  have initial : own.Confines start := fun id _ transfer found => by
    simp [fresh id] at found
  have allowed : ∀ input ∈ left ++ right, own.Allows input.1 := fun input member =>
    allows_of_separated separated (mem_map_of_mem member)
  have leftAllowed : ∀ input ∈ left, own.Allows input.1 := fun input member =>
    allowed input (mem_append_left right member)
  have rightAllowed : ∀ input ∈ right, own.Allows input.1 := fun input member =>
    allowed input (mem_append_right left member)
  obtain ⟨sameAnswers, sameView⟩ :=
    unwound.runs_agree left right start initial leftAllowed rightAllowed same
  have leftConfined := unwound.run_invariant left start initial leftAllowed
  have rightConfined := unwound.run_invariant right start initial rightAllowed
  refine ⟨sameAnswers, ?_⟩
  rw [← transfersOf_view different leftConfined,
    ← transfersOf_view different rightConfined]
  exact congrArg (transfersOf other) sameView

/-! ## The same path in two projects -/

section Samples

def sampleStart : Exchange := withNetwork "bob" none

/-- Alice offers a file of project a. -/
def offerInA (fileId : FileId) : FileExchange.Call × Moment :=
  (.fileOffer "a" true "alice" fileId 1 10 7, ⟨0, 0⟩)

/-- A file of project b is fetched. -/
def fetchInB (fileId : FileId) : FileExchange.Call × Moment :=
  (.fetchFile ⟨"b", fileId, none, .interactive, 1⟩ "t", ⟨1, 1⟩)

def sampleRun (calls : List (FileExchange.Call × Moment)) : Exchange :=
  ((machine sampleDigest stamp fun _ => 0).run sampleStart calls).2

/-- With different paths the offer makes no difference to the fetch. -/
theorem different_paths_isolated :
    Separated "a" [(offerInA "notes.txt").1, (fetchInB "readme.txt").1, (fetchInB "readme.txt").1] ∧
      transfersOf "b" (sampleRun [offerInA "notes.txt", fetchInB "readme.txt"]) =
        transfersOf "b" (sampleRun [fetchInB "readme.txt"]) := by
  have separated : Separated "a"
      [(offerInA "notes.txt").1, (fetchInB "readme.txt").1, (fetchInB "readme.txt").1] := by
    decide
  exact ⟨separated, (projects_isolated_of_separated sampleDigest stamp (fun _ => 0) sampleStart
    (fun _ => rfl) "a" "b" (by decide) [offerInA "notes.txt", fetchInB "readme.txt"]
    [fetchInB "readme.txt"] rfl separated).2⟩

/-- With the same path the offer for project a starts the transfer in project b
and names its source and size. -/
theorem same_path_matched_across_projects :
    ([offerInA "readme.txt", fetchInB "readme.txt"].filter fun input => !about "a" input.1) =
        ([fetchInB "readme.txt"].filter fun input => !about "a" input.1) ∧
      (transfersOf "b" (sampleRun [offerInA "readme.txt", fetchInB "readme.txt"]) "t").map
          (fun transfer => (transfer.state, transfer.peerId, transfer.fileSize)) =
        some (.running, "alice", 10) ∧
      (transfersOf "b" (sampleRun [fetchInB "readme.txt"]) "t").map
          (fun transfer => (transfer.state, transfer.peerId, transfer.fileSize)) =
        some (.queued, "any", 0) := by
  refine ⟨rfl, ?_⟩
  decide +kernel

end Samples

end Synergos.ProjectIsolation
