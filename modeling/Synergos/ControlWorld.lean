import Synergos.ControlStore
import Synergos.Runs

/-!
# Concurrent requests to the control server

A handler runs from one await point to the next. At some it calls the store, which
holds its lock during the call; at others it calls the network service, which may
answer anything. Between two such points other handlers run.

A task is a handler at one of these points. A step takes it to the next one in an
environment: fresh ids and keys, the clock, the answers of the service and whether
the registry can be saved. Requests that only read the registry are left out.
-/

namespace Synergos.ControlWorld

open ControlStore Runs Function

/-! ### The service of the mesh network -/

structure MeshConnector where
  id : String
  name : String
  status : Option String
  createdAt : Option String
  deletedAt : Option String
  deriving DecidableEq, Repr

structure DeviceRegistration where
  id : String
  name : Option String
  userEmail : Option String
  virtualIpv4 : Option String
  lastSeenAt : Option String
  revokedAt : Option String
  deriving DecidableEq, Repr

/-! ### Reconciliation -/

structure NodeRef where
  nodeId : String
  orgId : String
  displayName : String
  ownerEmail : String
  deriving DecidableEq, Repr

def nodeRef (node : Node) : NodeRef := ⟨node.id, node.orgId, node.displayName, node.ownerEmail⟩

structure MeshIpMismatch where
  node : NodeRef
  reportedMeshIp : Option String
  expectedMeshIp : Option String
  deriving DecidableEq, Repr

structure ReconcileReport where
  generatedAtMs : UInt64
  knownConnectors : List (MeshConnector × NodeRef)
  darkConnectors : List MeshConnector
  missingConnectors : List NodeRef
  knownDevices : List (DeviceRegistration × List String)
  darkDevices : List DeviceRegistration
  meshIpMismatches : List MeshIpMismatch
  actions : List String
  deriving DecidableEq, Repr

/-- The node of a connector. -/
def nodeOfConnector (nodes : List Node) (connector : MeshConnector) : Option Node :=
  nodes.find? fun node => node.cfConnectorId == some connector.id

def meshIpMismatch (node : Node) : Option MeshIpMismatch :=
  match node.reportedMeshIp, node.meshIp with
  | some reported, some expected =>
    if reported ≠ expected then some ⟨nodeRef node, some reported, some expected⟩ else none
  | _, _ => none

/-- The organisations that the user of a device is a member of. -/
def ownerOrgIds (orgs : List Org) (registration : DeviceRegistration) : List String :=
  match registration.userEmail with
  | none => []
  | some email => (orgs.filter fun org => hasMember org email).map Org.id

/-- Compare what the service lists with a registry. -/
def classify (orgs : List Org) (nodes : List Node) (connectors : List MeshConnector)
    (registrations : List DeviceRegistration) (nowMs : UInt64) : ReconcileReport where
  generatedAtMs := nowMs
  knownConnectors := connectors.filterMap fun connector =>
    (nodeOfConnector nodes connector).map fun node => (connector, nodeRef node)
  darkConnectors := connectors.filter fun connector => (nodeOfConnector nodes connector).isNone
  missingConnectors := (nodes.filter fun node => node.kind == .meshNode &&
    node.cfConnectorId.any fun id => !connectors.any fun connector => connector.id == id).map nodeRef
  knownDevices := (registrations.filter fun registration => registration.revokedAt.isNone &&
    !(ownerOrgIds orgs registration).isEmpty).map fun registration =>
      (registration, ownerOrgIds orgs registration)
  darkDevices := registrations.filter fun registration => registration.revokedAt.isNone &&
    (ownerOrgIds orgs registration).isEmpty
  meshIpMismatches := connectors.filterMap fun connector =>
    (nodeOfConnector nodes connector).bind meshIpMismatch
  actions := []

/-! ### Requests -/

inductive Request where
  | createOrg (request : CreateOrgRequest)
  | updateOrg (orgId : String) (request : UpdateOrgRequest)
  | registerNode (orgId : String) (request : RegisterNodeRequest)
  | patchNode (orgId nodeId : String) (request : PatchNodeRequest)
  | removeNode (orgId nodeId : String)
  | heartbeat (bearer : Option String) (request : HeartbeatRequest)
  | reissueNodeKey (orgId nodeId : String)
  | reconcile (revokeDark : Bool)
  deriving DecidableEq, Repr

/-- A node as it is answered: without the hash of its key. -/
structure NodeView where
  id : String
  orgId : String
  displayName : String
  ownerEmail : String
  kind : NodeKind
  cfConnectorId : Option String
  synergosPeerId : Option String
  meshIp : Option String
  reportedMeshIp : Option String
  lastHeartbeatMs : Option UInt64
  synergosVersion : Option String
  createdAtMs : UInt64
  updatedAtMs : UInt64
  deriving DecidableEq, Repr

def nodeView (node : Node) : NodeView :=
  ⟨node.id, node.orgId, node.displayName, node.ownerEmail, node.kind, node.cfConnectorId,
    node.synergosPeerId, node.meshIp, node.reportedMeshIp, node.lastHeartbeatMs,
    node.synergosVersion, node.createdAtMs, node.updatedAtMs⟩

inductive Answer where
  | org (org : Org)
  | node (view : NodeView)
  | registered (view : NodeView) (connectorToken : Option String) (nodeKey enrollHint : String)
  | nodeKey (nodeKey : String)
  | accepted
  | report (report : ReconcileReport)
  deriving DecidableEq, Repr

/-- What a step finds around it. -/
structure Environment where
  /-- Whether the registry can be saved. -/
  saved : Bool
  nodeId : String
  nodeKey : String
  /-- Two readings of the clock. -/
  nowMs : UInt64
  laterMs : UInt64
  /-- The id of the connector that the service creates. -/
  connector : ControlResult String
  token : ControlResult String
  /-- The answer to a deletion or a revocation. -/
  deleted : ControlResult Unit
  connectors : ControlResult (List MeshConnector)
  registrations : ControlResult (List DeviceRegistration)

/-! ### Tasks -/

/-- A registration whose owner was checked. -/
structure Registering where
  orgId : String
  request : RegisterNodeRequest
  nodeId : String
  nodeKey : String
  createdAtMs : UInt64
  updatedAtMs : UInt64
  deriving DecidableEq, Repr

inductive Task where
  | createOrg (request : CreateOrgRequest)
  | updateOrg (orgId : String) (request : UpdateOrgRequest)
  /-- The record was read; it is about to be written back. -/
  | updateOrgWrite (orgId : String) (request : UpdateOrgRequest) (read : Org)
  | register (orgId : String) (request : RegisterNodeRequest)
  /-- A connector is about to be created. -/
  | registerConnect (registering : Registering)
  /-- The connector was created; its token is asked for. -/
  | registerToken (registering : Registering) (connector : String)
  /-- The node is about to be inserted. -/
  | registerInsert (registering : Registering) (connector token : Option String)
  /-- The connector is about to be deleted again. -/
  | registerCleanup (registering : Registering) (connector : String) (error : ControlError)
  | patch (orgId nodeId : String) (request : PatchNodeRequest)
  /-- The node was found; the owner is about to be checked. -/
  | patchOwner (orgId nodeId : String) (request : PatchNodeRequest)
  /-- The parts were checked; the node is about to be changed. -/
  | patchWrite (orgId nodeId : String) (request : PatchNodeRequest)
      (ownerEmail meshIp : Option String)
  | remove (orgId nodeId : String)
  | removeConnector (orgId nodeId connector : String)
  | removeWrite (orgId nodeId : String)
  | heartbeat (bearer : Option String) (request : HeartbeatRequest)
  | reissueNodeKey (orgId nodeId : String)
  | reconcile (revokeDark : Bool)
  /-- The registry was read; the connectors are asked for. -/
  | reconcileConnectors (revokeDark : Bool) (snapshot : Registry)
  | reconcileDevices (revokeDark : Bool) (snapshot : Registry) (connectors : List MeshConnector)
  /-- The devices of the report are about to be revoked. -/
  | reconcileRevoke (report : ReconcileReport)
  /-- The first of the connectors is about to be deleted. -/
  | reconcileDelete (report : ReconcileReport) (connectors : List MeshConnector)

def Request.task : Request → Task
  | .createOrg request => .createOrg request
  | .updateOrg orgId request => .updateOrg orgId request
  | .registerNode orgId request => .register orgId request
  | .patchNode orgId nodeId request => .patch orgId nodeId request
  | .removeNode orgId nodeId => .remove orgId nodeId
  | .heartbeat bearer request => .heartbeat bearer request
  | .reissueNodeKey orgId nodeId => .reissueNodeKey orgId nodeId
  | .reconcile revokeDark => .reconcile revokeDark

/-- The request that a task serves. -/
def Task.request : Task → Request
  | .createOrg request => .createOrg request
  | .updateOrg orgId request | .updateOrgWrite orgId request _ => .updateOrg orgId request
  | .register orgId request => .registerNode orgId request
  | .registerConnect registering | .registerToken registering _
  | .registerInsert registering _ _ | .registerCleanup registering _ _ =>
    .registerNode registering.orgId registering.request
  | .patch orgId nodeId request | .patchOwner orgId nodeId request
  | .patchWrite orgId nodeId request _ _ => .patchNode orgId nodeId request
  | .remove orgId nodeId | .removeConnector orgId nodeId _ | .removeWrite orgId nodeId =>
    .removeNode orgId nodeId
  | .heartbeat bearer request => .heartbeat bearer request
  | .reissueNodeKey orgId nodeId => .reissueNodeKey orgId nodeId
  | .reconcile revokeDark | .reconcileConnectors revokeDark _ | .reconcileDevices revokeDark _ _ =>
    .reconcile revokeDark
  -- Only a reconciliation that revokes comes this far.
  | .reconcileRevoke _ | .reconcileDelete _ _ => .reconcile true

/-- What a task does between two await points. -/
inductive Progress where
  | goes (task : Task)
  | fails (error : ControlError)
  | answers (answer : Answer) (registry : Registry)

section Handlers

variable (blake3 : String → String)

/-- A result of the store is kept only if it was saved. -/
def commit {α : Type} (saved : Bool) (answer : α → Answer) :
    ControlResult (α × Registry) → Progress
  | .error error => .fails error
  | .ok (value, registry) =>
    if saved then .answers (answer value) registry else .fails (.store "registry was not saved")

def createOrg (registry : Registry) (env : Environment) (request : CreateOrgRequest) : Progress :=
  match validateSlug request.id with
  | .error error => .fails error
  | .ok _ =>
    match normalizeMembers [] request.members with
    | .error error => .fails error
    | .ok members =>
      commit env.saved .org (registry.insertOrg ⟨request.id, request.name, members, env.nowMs⟩)

def updateOrgWrite (registry : Registry) (env : Environment) (request : UpdateOrgRequest)
    (read : Org) : Progress :=
  match request.edit read with
  | .error error => .fails error
  | .ok org => commit env.saved .org (registry.updateOrg org)

/-- The record of a node that is registered. -/
def Registering.node (registering : Registering) (connector : Option String) : Node where
  id := registering.nodeId
  orgId := registering.orgId
  displayName := registering.request.displayName
  ownerEmail := normalizeEmail registering.request.ownerEmail
  kind := registering.request.kind
  cfConnectorId := connector
  synergosPeerId := registering.request.synergosPeerId
  meshIp := none
  reportedMeshIp := none
  nodeKeyHash := some (blake3 registering.nodeKey)
  lastHeartbeatMs := none
  synergosVersion := none
  createdAtMs := registering.createdAtMs
  updatedAtMs := registering.updatedAtMs

def enrollHint : NodeKind → String
  | .meshNode =>
    "run on the node: sudo warp-cli connector new <connector_token> && sudo warp-cli connect"
  | .clientDevice => "enroll via Cloudflare One Client with the org team name; " ++
      "reconcile matches the device by owner_email"

/-- A registration with a fresh id and key; only a mesh node needs a connector. -/
def startRegistering (env : Environment) (orgId : String) (request : RegisterNodeRequest) : Task :=
  let registering := ⟨orgId, request, env.nodeId, env.nodeKey, env.nowMs, env.laterMs⟩
  match request.kind with
  | .meshNode => .registerConnect registering
  | .clientDevice => .registerInsert registering none none

/-- Read the organisation and check the owner. -/
def register (registry : Registry) (env : Environment) (orgId : String)
    (request : RegisterNodeRequest) : Progress :=
  match registry.getOrg orgId with
  | .error error => .fails error
  | .ok org =>
    let ownerEmail := normalizeEmail request.ownerEmail
    if '@' ∉ ownerEmail.toList then
      .fails (.invalidRequest "owner_email must be an email address")
    else if ownerEmail ∉ org.members then
      .fails (.invalidRequest ("owner " ++ ownerEmail ++ " is not a member of org " ++ orgId ++
        "; add them to org members first"))
    else .goes (startRegistering env orgId request)

/-- A connector that was created for a node does not outlive a failure. -/
def cleanUp (registering : Registering) : Option String → Progress → Progress
  | some connector, .fails error => .goes (.registerCleanup registering connector error)
  | _, progress => progress

def registerInsert (registry : Registry) (env : Environment) (registering : Registering)
    (connector token : Option String) : Progress :=
  cleanUp registering connector (commit env.saved
    (fun node => .registered (nodeView node) token registering.nodeKey
      (enrollHint registering.request.kind))
    (registry.insertNode (registering.node blake3 connector)))

/-- The parts of a patch that are checked before the lock is taken. -/
def patchParts (orgId nodeId : String) (request : PatchNodeRequest) (ownerEmail : Option String) :
    Progress :=
  match normalizeMeshIp? request.meshIp with
  | .error error => .fails error
  | .ok meshIp => .goes (.patchWrite orgId nodeId request ownerEmail meshIp)

/-- The owner of a patch must be a member. -/
def patchOwner (registry : Registry) (orgId nodeId : String) (request : PatchNodeRequest) :
    Progress :=
  match request.ownerEmail with
  | none => patchParts orgId nodeId request none
  | some requested =>
    match registry.getOrg orgId with
    | .error error => .fails error
    | .ok org =>
      let ownerEmail := normalizeEmail requested
      if ownerEmail ∉ org.members then
        .fails (.invalidRequest ("owner " ++ ownerEmail ++ " is not a member of org " ++ orgId))
      else patchParts orgId nodeId request (some ownerEmail)

def patchWrite (registry : Registry) (env : Environment) (orgId nodeId : String)
    (request : PatchNodeRequest) (ownerEmail meshIp : Option String) : Progress :=
  commit env.saved (fun node => .node (nodeView node))
    (registry.tryMutateNode (some orgId) nodeId fun node =>
      .ok (request.edit ownerEmail meshIp env.nowMs node))

/-- The connector of a node is deleted before the node. -/
def remove (registry : Registry) (orgId nodeId : String) : Progress :=
  match registry.getNode orgId nodeId with
  | .error error => .fails error
  | .ok node =>
    match node.cfConnectorId with
    | none => .goes (.removeWrite orgId nodeId)
    | some connector => .goes (.removeConnector orgId nodeId connector)

/-- A node that does not exist is answered like a wrong key. -/
def hideMissing : Progress → Progress
  | .fails (.notFound _) => .fails .unauthorized
  | progress => progress

def receiveHeartbeat (registry : Registry) (env : Environment) (bearer : Option String)
    (request : HeartbeatRequest) : Progress :=
  match bearer with
  | none => .fails .unauthorized
  | some key =>
    hideMissing (commit env.saved (fun _ => .accepted) (registry.tryMutateNode none request.nodeId
      (request.edit (blake3 key) env.nowMs env.laterMs)))

def reissueNodeKey (registry : Registry) (env : Environment) (orgId nodeId : String) : Progress :=
  commit env.saved (fun _ => .nodeKey env.nodeKey)
    (registry.tryMutateNode (some orgId) nodeId fun node =>
      .ok { node with nodeKeyHash := some (blake3 env.nodeKey), updatedAtMs := env.nowMs })

/-- The listings are complete; what is dark is revoked only if that was asked for. -/
def reconcileDevices (registry : Registry) (env : Environment) (revokeDark : Bool)
    (snapshot : Registry) (connectors : List MeshConnector) : Progress :=
  match env.registrations with
  | .error error => .fails error
  | .ok registrations =>
    let report := classify snapshot.orgs snapshot.nodes connectors registrations env.nowMs
    if revokeDark then .goes (.reconcileRevoke report) else .answers (.report report) registry

/-- What was done about the devices, in the report. -/
def noteRevoked (report : ReconcileReport) (result : ControlResult Unit) : ReconcileReport :=
  let count := toString report.darkDevices.length
  if report.darkDevices.isEmpty then report
  else { report with actions := report.actions ++ [match result with
    | .ok _ => "revoked " ++ count ++ " dark device(s)"
    | .error _ => "FAILED to revoke " ++ count ++ " dark device(s)"] }

/-- What was done about a connector, in the report. -/
def noteDeleted (report : ReconcileReport) (connector : MeshConnector)
    (result : ControlResult Unit) : ReconcileReport :=
  { report with actions := report.actions ++ [match result with
    | .ok _ => "deleted dark connector " ++ connector.id
    | .error _ => "FAILED to delete dark connector " ++ connector.id] }

/-- Go on with a result that the service or the store gave. -/
def andThen {α : Type} (next : α → Progress) : ControlResult α → Progress
  | .error error => .fails error
  | .ok value => next value

/-- The next step of a task. -/
def advance (registry : Registry) (env : Environment) : Task → Progress
  | .createOrg request => createOrg registry env request
  | .updateOrg orgId request =>
    andThen (fun org => .goes (.updateOrgWrite orgId request org)) (registry.getOrg orgId)
  | .updateOrgWrite _ request read => updateOrgWrite registry env request read
  | .register orgId request => register registry env orgId request
  | .registerConnect registering =>
    andThen (fun connector => .goes (.registerToken registering connector)) env.connector
  | .registerToken registering connector =>
    cleanUp registering (some connector)
      (andThen (fun token => .goes (.registerInsert registering (some connector) (some token)))
        env.token)
  | .registerInsert registering connector token =>
    registerInsert blake3 registry env registering connector token
  -- A failure to delete is only logged.
  | .registerCleanup _ _ error => .fails error
  | .patch orgId nodeId request =>
    andThen (fun _ => .goes (.patchOwner orgId nodeId request)) (registry.getNode orgId nodeId)
  | .patchOwner orgId nodeId request => patchOwner registry orgId nodeId request
  | .patchWrite orgId nodeId request ownerEmail meshIp =>
    patchWrite registry env orgId nodeId request ownerEmail meshIp
  | .remove orgId nodeId => remove registry orgId nodeId
  | .removeConnector orgId nodeId _ =>
    andThen (fun _ => .goes (.removeWrite orgId nodeId)) env.deleted
  | .removeWrite orgId nodeId =>
    commit env.saved (fun node => .node (nodeView node)) (registry.removeNode orgId nodeId)
  | .heartbeat bearer request => receiveHeartbeat blake3 registry env bearer request
  | .reissueNodeKey orgId nodeId => reissueNodeKey blake3 registry env orgId nodeId
  | .reconcile revokeDark => .goes (.reconcileConnectors revokeDark registry)
  | .reconcileConnectors revokeDark snapshot =>
    andThen (fun connectors => .goes (.reconcileDevices revokeDark snapshot connectors))
      env.connectors
  | .reconcileDevices revokeDark snapshot connectors =>
    reconcileDevices registry env revokeDark snapshot connectors
  | .reconcileRevoke report =>
    .goes (.reconcileDelete (noteRevoked report env.deleted) report.darkConnectors)
  | .reconcileDelete report [] => .answers (.report report) registry
  | .reconcileDelete report (connector :: rest) =>
    .goes (.reconcileDelete (noteDeleted report connector env.deleted) rest)

/-! ### The server -/

abbrev TaskId := Nat

structure World where
  registry : Registry
  tasks : TaskId → Option Task
  /-- The requests that were answered with success, in the order of their last steps. -/
  acknowledged : List (Request × Answer)

def World.initial (registry : Registry) : World := ⟨registry, fun _ => none, []⟩

inductive Action where
  /-- A request arrives. -/
  | arrive (id : TaskId) (request : Request)
  /-- A task runs to its next await point. -/
  | run (id : TaskId) (env : Environment)

/-- What the progress of one task makes of the world. -/
def World.take (world : World) (id : TaskId) (request : Request) : Progress → World
  | .goes task => { world with tasks := update world.tasks id (some task) }
  | .fails _ => { world with tasks := update world.tasks id none }
  | .answers answer registry =>
    ⟨registry, update world.tasks id none, world.acknowledged ++ [(request, answer)]⟩

def apply (world : World) : Action → World
  | .arrive id request =>
    { world with tasks := update world.tasks id (some request.task) }
  | .run id env =>
    match world.tasks id with
    | none => world
    | some task => world.take id task.request (advance blake3 world.registry env task)

/-- Each request has a task of its own. -/
def system : System World Action where
  enabled world
    | .arrive id _ => world.tasks id = none
    | .run id _ => (world.tasks id).isSome = true
  apply := apply blake3

/-! ### One request alone -/

/-- A task that runs to its end while no other does. -/
def alone (registry : Registry) : Task → List Environment → Option (Answer × Registry)
  | _, [] => none
  | task, env :: rest =>
    match advance blake3 registry env task with
    | .goes next => alone registry next rest
    | .fails _ => none
    | .answers answer after => some (answer, after)

/-- A request can be answered so, and change the registry so, when it runs alone. -/
def Performs (registry : Registry) (request : Request) (answer : Answer) (after : Registry) :
    Prop :=
  ∃ envs, alone blake3 registry request.task envs = some (answer, after)

end Handlers

/-! ### What a step can do -/

section Steps

variable {blake3 : String → String} {registry after : Registry} {env : Environment} {task next : Task}
  {answer : Answer}

variable {α : Type} {registering : Registering} {orgId nodeId : String} {saved : Bool}
  {progress : Progress} {request : PatchNodeRequest} {ownerEmail : Option String}

variable (blake3 registry) in
/-- A task that is answered, with the operation of the store that its answer rests on. -/
inductive Commits : Task → Answer → Registry → Prop
  | createOrg {request : CreateOrgRequest} {members : List String} {nowMs : UInt64} {stored : Org}
      {after : Registry} (normal : normalizeMembers [] request.members = .ok members)
      (inserted : registry.insertOrg ⟨request.id, request.name, members, nowMs⟩ =
        .ok (stored, after)) :
      Commits (.createOrg request) (.org stored) after
  | updateOrg {orgId : String} {request : UpdateOrgRequest} {read org stored : Org}
      {after : Registry} (edited : request.edit read = .ok org)
      (written : registry.updateOrg org = .ok (stored, after)) :
      Commits (.updateOrgWrite orgId request read) (.org stored) after
  | register {registering : Registering} {connector token : Option String} {node : Node}
      {after : Registry}
      (inserted : registry.insertNode (registering.node blake3 connector) = .ok (node, after)) :
      Commits (.registerInsert registering connector token)
        (.registered (nodeView node) token registering.nodeKey
          (enrollHint registering.request.kind)) after
  | patch {orgId nodeId : String} {request : PatchNodeRequest} {ownerEmail meshIp : Option String}
      {nowMs : UInt64} {node : Node} {after : Registry}
      (mutated : registry.tryMutateNode (some orgId) nodeId (fun node =>
        .ok (request.edit ownerEmail meshIp nowMs node)) = .ok (node, after)) :
      Commits (.patchWrite orgId nodeId request ownerEmail meshIp) (.node (nodeView node)) after
  | remove {orgId nodeId : String} {node : Node} {after : Registry}
      (removed : registry.removeNode orgId nodeId = .ok (node, after)) :
      Commits (.removeWrite orgId nodeId) (.node (nodeView node)) after
  | heartbeat {key : String} {request : HeartbeatRequest} {nowMs laterMs : UInt64} {node : Node}
      {after : Registry} (mutated : registry.tryMutateNode none request.nodeId
        (request.edit (blake3 key) nowMs laterMs) = .ok (node, after)) :
      Commits (.heartbeat (some key) request) .accepted after
  | reissue {orgId nodeId nodeKey : String} {nowMs : UInt64} {node : Node} {after : Registry}
      (mutated : registry.tryMutateNode (some orgId) nodeId (fun node =>
        .ok { node with nodeKeyHash := some (blake3 nodeKey), updatedAtMs := nowMs }) =
          .ok (node, after)) :
      Commits (.reissueNodeKey orgId nodeId) (.nodeKey nodeKey) after
  | report {task : Task} {report : ReconcileReport} {revokeDark : Bool}
      (reconciles : task.request = .reconcile revokeDark) :
      Commits task (.report report) registry

variable (registry) in
/-- The stages of the handlers, with what is known of the registry between them. -/
inductive Follows : Task → Task → Prop
  | read {orgId : String} {request : UpdateOrgRequest} {org : Org}
      (found : registry.org? orgId = some org) :
      Follows (.updateOrg orgId request) (.updateOrgWrite orgId request org)
  | check {orgId : String} {request : RegisterNodeRequest} {org : Org} {env : Environment}
      (found : registry.org? orgId = some org)
      (address : '@' ∈ (normalizeEmail request.ownerEmail).toList)
      (listed : normalizeEmail request.ownerEmail ∈ org.members) :
      Follows (.register orgId request) (startRegistering env orgId request)
  | connect {registering : Registering} {connector : String} :
      Follows (.registerConnect registering) (.registerToken registering connector)
  | token {registering : Registering} {connector token : String} :
      Follows (.registerToken registering connector)
        (.registerInsert registering (some connector) (some token))
  | tokenRefused {registering : Registering} {connector : String} {error : ControlError} :
      Follows (.registerToken registering connector) (.registerCleanup registering connector error)
  | refused {registering : Registering} {connector : String} {token : Option String}
      {error : ControlError} :
      Follows (.registerInsert registering (some connector) token)
        (.registerCleanup registering connector error)
  | found {orgId nodeId : String} {request : PatchNodeRequest} :
      Follows (.patch orgId nodeId request) (.patchOwner orgId nodeId request)
  | ownerKept {orgId nodeId : String} {request : PatchNodeRequest} {meshIp : Option String}
      (unasked : request.ownerEmail = none) (normal : normalizeMeshIp? request.meshIp = .ok meshIp) :
      Follows (.patchOwner orgId nodeId request) (.patchWrite orgId nodeId request none meshIp)
  | ownerChecked {orgId nodeId requested : String} {request : PatchNodeRequest} {org : Org}
      {meshIp : Option String} (asked : request.ownerEmail = some requested)
      (found : registry.org? orgId = some org) (listed : normalizeEmail requested ∈ org.members)
      (normal : normalizeMeshIp? request.meshIp = .ok meshIp) :
      Follows (.patchOwner orgId nodeId request)
        (.patchWrite orgId nodeId request (some (normalizeEmail requested)) meshIp)
  | unconnected {orgId nodeId : String} : Follows (.remove orgId nodeId) (.removeWrite orgId nodeId)
  | connected {orgId nodeId connector : String} :
      Follows (.remove orgId nodeId) (.removeConnector orgId nodeId connector)
  | disconnected {orgId nodeId connector : String} :
      Follows (.removeConnector orgId nodeId connector) (.removeWrite orgId nodeId)
  | snapshot {revokeDark : Bool} :
      Follows (.reconcile revokeDark) (.reconcileConnectors revokeDark registry)
  | listed {revokeDark : Bool} {snapshot : Registry} {connectors : List MeshConnector} :
      Follows (.reconcileConnectors revokeDark snapshot)
        (.reconcileDevices revokeDark snapshot connectors)
  | classified {snapshot : Registry} {connectors : List MeshConnector}
      {registrations : List DeviceRegistration} {nowMs : UInt64} :
      Follows (.reconcileDevices true snapshot connectors)
        (.reconcileRevoke (classify snapshot.orgs snapshot.nodes connectors registrations nowMs))
  | revoked {report : ReconcileReport} {result : ControlResult Unit} :
      Follows (.reconcileRevoke report)
        (.reconcileDelete (noteRevoked report result) report.darkConnectors)
  | deleted {report : ReconcileReport} {connector : MeshConnector} {rest : List MeshConnector}
      {result : ControlResult Unit} :
      Follows (.reconcileDelete report (connector :: rest))
        (.reconcileDelete (noteDeleted report connector result) rest)

variable (blake3 registry) in
/-- A task goes to the next stage of its handler, fails, or is answered by one operation of the
store or with a report. -/
inductive Proper (task : Task) : Progress → Prop
  | goes {next : Task} (follows : Follows registry task next) : Proper task (.goes next)
  | fails {error : ControlError} : Proper task (.fails error)
  | answers {answer : Answer} {after : Registry}
      (commits : Commits blake3 registry task answer after) : Proper task (.answers answer after)

theorem proper_commit {answerOf : α → Answer} {result : ControlResult (α × Registry)}
    (commits : ∀ value after, result = .ok (value, after) →
      Commits blake3 registry task (answerOf value) after) :
    Proper blake3 registry task (commit saved answerOf result) := by
  unfold commit
  split
  · exact .fails
  · split_ifs
    · exact .answers (commits _ _ rfl)
    · exact .fails

theorem proper_andThen {step : α → Progress} {result : ControlResult α}
    (proper : ∀ value, result = .ok value → Proper blake3 registry task (step value)) :
    Proper blake3 registry task (andThen step result) := by
  cases result with
  | error error => exact .fails
  | ok value => exact proper value rfl

theorem proper_cleanUp {connector : Option String} (proper : Proper blake3 registry task progress)
    (cleans : ∀ id error, connector = some id →
      Follows registry task (.registerCleanup registering id error)) :
    Proper blake3 registry task (cleanUp registering connector progress) := by
  unfold cleanUp
  split
  · exact .goes (cleans _ _ rfl)
  · exact proper

theorem proper_hideMissing (proper : Proper blake3 registry task progress) :
    Proper blake3 registry task (hideMissing progress) := by
  unfold hideMissing
  split
  · exact .fails
  · exact proper

theorem proper_createOrg {request : CreateOrgRequest} :
    Proper blake3 registry (.createOrg request) (createOrg registry env request) := by
  unfold createOrg
  split
  · exact .fails
  · split
    · exact .fails
    · rename_i members normal
      exact proper_commit fun _ _ inserted => .createOrg normal inserted

theorem proper_register {request : RegisterNodeRequest} :
    Proper blake3 registry (.register orgId request) (register registry env orgId request) := by
  unfold register
  split
  · exact .fails
  · rename_i org found
    dsimp only
    split_ifs with address listed
    · exact .goes (.check (Registry.getOrg_eq_ok.mp found) address listed)
    · exact .fails
    · exact .fails

theorem proper_patchParts (follows : ∀ meshIp, normalizeMeshIp? request.meshIp = .ok meshIp →
      Follows registry task (.patchWrite orgId nodeId request ownerEmail meshIp)) :
    Proper blake3 registry task (patchParts orgId nodeId request ownerEmail) := by
  unfold patchParts
  split
  · exact .fails
  · rename_i meshIp normal
    exact .goes (follows meshIp normal)

theorem proper_patchOwner :
    Proper blake3 registry (.patchOwner orgId nodeId request)
      (patchOwner registry orgId nodeId request) := by
  unfold patchOwner
  split
  · rename_i unasked
    exact proper_patchParts fun _ normal => .ownerKept unasked normal
  · rename_i requested asked
    split
    · exact .fails
    · rename_i org found
      dsimp only
      split_ifs with listed
      · exact proper_patchParts fun _ normal =>
          .ownerChecked asked (Registry.getOrg_eq_ok.mp found) listed normal
      · exact .fails

theorem proper_remove :
    Proper blake3 registry (.remove orgId nodeId) (remove registry orgId nodeId) := by
  unfold remove
  split
  · exact .fails
  · split
    · exact .goes .unconnected
    · exact .goes .connected

theorem proper_advance (registry : Registry) (env : Environment) (task : Task) :
    Proper blake3 registry task (advance blake3 registry env task) := by
  cases task with
  | createOrg request => exact proper_createOrg
  | updateOrg orgId request =>
    exact proper_andThen fun _ found => .goes (.read (Registry.getOrg_eq_ok.mp found))
  | updateOrgWrite orgId request read =>
    simp only [advance, updateOrgWrite]
    split
    · exact .fails
    · rename_i org edited
      exact proper_commit fun _ _ written => .updateOrg edited written
  | register orgId request => exact proper_register
  | registerConnect registering => exact proper_andThen fun _ _ => .goes .connect
  | registerToken registering connector =>
    refine proper_cleanUp (proper_andThen fun _ _ => .goes .token) ?_
    rintro _ error ⟨⟩
    exact .tokenRefused
  | registerInsert registering connector token =>
    refine proper_cleanUp (proper_commit fun _ _ inserted => .register inserted) ?_
    rintro id error rfl
    exact .refused
  | registerCleanup registering connector error => exact .fails
  | patch orgId nodeId request => exact proper_andThen fun _ _ => .goes .found
  | patchOwner orgId nodeId request => exact proper_patchOwner
  | patchWrite orgId nodeId request ownerEmail meshIp =>
    exact proper_commit fun _ _ mutated => .patch mutated
  | remove orgId nodeId => exact proper_remove
  | removeConnector orgId nodeId connector => exact proper_andThen fun _ _ => .goes .disconnected
  | removeWrite orgId nodeId => exact proper_commit fun _ _ removed => .remove removed
  | heartbeat bearer request =>
    simp only [advance, receiveHeartbeat]
    split
    · exact .fails
    · exact proper_hideMissing (proper_commit fun _ _ mutated => .heartbeat mutated)
  | reissueNodeKey orgId nodeId => exact proper_commit fun _ _ mutated => .reissue mutated
  | reconcile revokeDark => exact .goes .snapshot
  | reconcileConnectors revokeDark snapshot => exact proper_andThen fun _ _ => .goes .listed
  | reconcileDevices revokeDark snapshot connectors =>
    simp only [advance, reconcileDevices]
    split
    · exact .fails
    · split_ifs with revoking
      · subst revoking
        exact .goes .classified
      · exact .answers (.report rfl)
  | reconcileRevoke report => exact .goes .revoked
  | reconcileDelete report connectors =>
    cases connectors with
    | nil => exact .answers (.report rfl)
    | cons connector rest => exact .goes .deleted

theorem commits_of_advance (answered : advance blake3 registry env task = .answers answer after) :
    Commits blake3 registry task answer after := by
  have proper := @proper_advance blake3 registry env task
  rw [answered] at proper
  cases proper with
  | answers commits => exact commits

theorem follows_of_advance (goes : advance blake3 registry env task = .goes next) :
    Follows registry task next := by
  have proper := @proper_advance blake3 registry env task
  rw [goes] at proper
  cases proper with
  | goes follows => exact follows

/-! ### What an action can do -/

variable {world : World} {action : Action}

/-- A task after an action was there before, has just arrived or is the next stage of one. -/
theorem tasks_apply {id : TaskId} (held : (apply blake3 world action).tasks id = some task) :
    world.tasks id = some task ∨
      (apply blake3 world action).registry = world.registry ∧
        ((∃ request, action = .arrive id request ∧ task = request.task) ∨
          ∃ old env, action = .run id env ∧ world.tasks id = some old ∧
            Follows world.registry old task) := by
  cases action with
  | arrive other request =>
    obtain rfl | its := eq_or_ne id other
    · simp only [apply, update_self, Option.some.injEq] at held
      exact .inr ⟨rfl, .inl ⟨request, rfl, held.symm⟩⟩
    · simp only [apply, update_of_ne its] at held
      exact .inl held
  | run other env =>
    cases running : world.tasks other with
    | none =>
      simp only [apply, running] at held
      exact .inl held
    | some old =>
      simp only [apply, running] at held ⊢
      obtain rfl | its := eq_or_ne id other
      · cases step : advance blake3 world.registry env old with
        | goes next =>
          simp only [step, World.take, update_self, Option.some.injEq] at held
          subst held
          exact .inr ⟨rfl, .inr ⟨old, env, rfl, running, follows_of_advance step⟩⟩
        | fails error | answers answer after => simp [step, World.take] at held
      · cases step : advance blake3 world.registry env old with
        | goes next | fails error | answers answer after =>
          simp only [step, World.take, update_of_ne its] at held
          exact .inl held

/-- An action changes the registry only where it answers a request. -/
theorem registry_apply (blake3 : String → String) (world : World) (action : Action) :
    (apply blake3 world action).registry = world.registry ∧
        (apply blake3 world action).acknowledged = world.acknowledged ∨
      ∃ id env task answer, action = .run id env ∧ world.tasks id = some task ∧
        advance blake3 world.registry env task = .answers answer (apply blake3 world action).registry ∧
        (apply blake3 world action).acknowledged = world.acknowledged ++ [(task.request, answer)] := by
  cases action with
  | arrive id request => exact .inl ⟨rfl, rfl⟩
  | run id env =>
    cases running : world.tasks id with
    | none =>
      have same : apply blake3 world (.run id env) = world := by simp only [apply, running]
      rw [same]
      exact .inl ⟨rfl, rfl⟩
    | some task =>
      cases step : advance blake3 world.registry env task with
      | goes next | fails error =>
        refine .inl ⟨?_, ?_⟩
        · simp [apply, running, step, World.take]
        · simp [apply, running, step, World.take]
      | answers answer after =>
        refine .inr ⟨id, env, task, answer, rfl, running, ?_, ?_⟩
        · simp [apply, running, step, World.take]
        · simp [apply, running, step, World.take]

end Steps

end Synergos.ControlWorld
