import Synergos.ControlWorld

/-!
# No lost registry updates

Requests that change the registry are compared with the same requests one after
another, in the order in which they were answered. The handlers of nodes check again
under the lock what they read before it, so that the last step alone decides. An
update of an organisation writes back a record that it read under an earlier lock:
it is as if alone exactly where the fields that it leaves out are still as it read
them.
-/

namespace Synergos.RegistryUpdates

open ControlStore ControlWorld Runs List ControlStore.Registry

/-! ### Fields -/

inductive OrgField where
  | name
  | members
  | createdAtMs
  deriving DecidableEq, Repr

inductive NodeField where
  | displayName
  | ownerEmail
  | kind
  | cfConnectorId
  | synergosPeerId
  | meshIp
  | reportedMeshIp
  | nodeKeyHash
  | lastHeartbeatMs
  | synergosVersion
  | createdAtMs
  | updatedAtMs
  deriving DecidableEq, Repr

/-- A field of an organisation or of a node in the registry. -/
inductive Field where
  | org (orgId : String) (field : OrgField)
  | node (orgId nodeId : String) (field : NodeField)
  deriving DecidableEq, Repr

inductive Value where
  | text (value : Option String)
  | texts (values : List String)
  | time (value : Option UInt64)
  | kind (value : NodeKind)
  deriving DecidableEq, Repr

def OrgField.of (org : Org) : OrgField → Value
  | .name => .text org.name
  | .members => .texts org.members
  | .createdAtMs => .time org.createdAtMs

def NodeField.of (node : Node) : NodeField → Value
  | .displayName => .text node.displayName
  | .ownerEmail => .text node.ownerEmail
  | .kind => .kind node.kind
  | .cfConnectorId => .text node.cfConnectorId
  | .synergosPeerId => .text node.synergosPeerId
  | .meshIp => .text node.meshIp
  | .reportedMeshIp => .text node.reportedMeshIp
  | .nodeKeyHash => .text node.nodeKeyHash
  | .lastHeartbeatMs => .time node.lastHeartbeatMs
  | .synergosVersion => .text node.synergosVersion
  | .createdAtMs => .time node.createdAtMs
  | .updatedAtMs => .time node.updatedAtMs

def Field.read (registry : Registry) : Field → Option Value
  | .org orgId field => (registry.org? orgId).map fun org => field.of org
  | .node orgId nodeId field => (registry.node? (some orgId) nodeId).map fun node => field.of node

/-- The fields that an update of an organisation sets. -/
def orgFields (request : UpdateOrgRequest) : OrgField → Bool
  | .name => request.name.isSome
  | .members => request.members.isSome
  | .createdAtMs => false

/-- The fields that a patch of a node sets. -/
def patchFields (request : PatchNodeRequest) : NodeField → Bool
  | .displayName => request.displayName.isSome
  | .ownerEmail => request.ownerEmail.isSome
  | .synergosPeerId => request.synergosPeerId.isSome
  | .meshIp => request.meshIp.isSome
  | .updatedAtMs => true
  | _ => false

def heartbeatFields : NodeField → Bool
  | .synergosPeerId | .reportedMeshIp | .synergosVersion | .lastHeartbeatMs | .updatedAtMs => true
  | _ => false

def reissueFields : NodeField → Bool
  | .nodeKeyHash | .updatedAtMs => true
  | _ => false

/-- Whether an answered request itself sets a field. A request that creates or removes
a record sets all its fields. -/
def Sets : Request × Answer → Field → Prop
  | (.createOrg request, _), .org orgId _ => orgId = request.id
  | (.updateOrg itsOrg request, _), .org orgId field =>
    orgId = itsOrg ∧ orgFields request field = true
  | (.registerNode itsOrg _, .registered view _ _ _), .node orgId nodeId _ =>
    orgId = itsOrg ∧ nodeId = view.id
  | (.patchNode itsOrg itsNode request, _), .node orgId nodeId field =>
    orgId = itsOrg ∧ nodeId = itsNode ∧ patchFields request field = true
  | (.removeNode itsOrg itsNode, _), .node orgId nodeId _ => orgId = itsOrg ∧ nodeId = itsNode
  | (.heartbeat _ request, _), .node _ nodeId field =>
    nodeId = request.nodeId ∧ heartbeatFields field = true
  | (.reissueNodeKey itsOrg itsNode, _), .node orgId nodeId field =>
    orgId = itsOrg ∧ nodeId = itsNode ∧ reissueFields field = true
  | _, _ => False

/-! ### One request after another -/

/-- Every request but a reconciliation, which only reads the registry. -/
def updates : Request × Answer → Bool
  | (.reconcile _, _) => false
  | _ => true

/-- The requests are answered so, and the registry becomes the last one, when each runs
alone after the one before it. -/
def Serial (blake3 : String → String) : Registry → List (Request × Answer) → Registry → Prop
  | registry, [], last => last = registry
  | registry, (request, answer) :: rest, last =>
    ∃ after, Performs blake3 registry request answer after ∧ Serial blake3 after rest last

section Serial

variable {blake3 : String → String} {registry after last : Registry}

theorem serial_append {items : List (Request × Answer)} {request : Request} {answer : Answer}
    (serial : Serial blake3 registry items after)
    (performed : Performs blake3 after request answer last) :
    Serial blake3 registry (items ++ [(request, answer)]) last := by
  induction items generalizing registry with
  | nil =>
    cases serial
    exact ⟨last, performed, rfl⟩
  | cons item rest ih =>
    obtain ⟨middle, first, others⟩ := serial
    exact ⟨middle, first, ih others⟩

variable (blake3 registry) in
/-- One stage of a task in the registry. -/
def Leads (task next : Task) : Prop := ∃ env, advance blake3 registry env task = .goes next

/-- A request whose stages lead to a task that is answered is answered alone. -/
theorem performs_of_leads {request : Request} {task : Task} {answer : Answer} {env : Environment}
    (leads : Relation.ReflTransGen (Leads blake3 registry) request.task task)
    (answered : advance blake3 registry env task = .answers answer after) :
    Performs blake3 registry request answer after := by
  unfold Performs
  generalize request.task = start at leads ⊢
  induction leads using Relation.ReflTransGen.head_induction_on with
  | refl => exact ⟨[env], by simp only [alone, answered]⟩
  | head leads _ ih =>
    obtain ⟨first, goes⟩ := leads
    obtain ⟨envs, performed⟩ := ih
    exact ⟨first :: envs, by simp only [alone, goes, performed]⟩

end Serial

/-! ### What a task relies on -/

/-- Where the check of the store would accept the owner, the check of the handler would. -/
def Owned (registry : Registry) (orgId email : String) : Prop :=
  ∃ org, registry.org? orgId = some org ∧ (hasMember org email = true → email ∈ org.members)

def Checked (registry : Registry) (registering : Registering) : Prop :=
  '@' ∈ (normalizeEmail registering.request.ownerEmail).toList ∧
    Owned registry registering.orgId (normalizeEmail registering.request.ownerEmail)

/-- What is still true of a task's earlier stages when other tasks have run since. -/
def Grounded (registry : Registry) : Task → Prop
  | .updateOrgWrite orgId _ read => read.id = orgId ∧
    ∃ current, registry.org? orgId = some current ∧ current.createdAtMs = read.createdAtMs
  | .registerConnect registering | .registerToken registering _ =>
    Checked registry registering ∧ registering.request.kind = .meshNode
  | .registerInsert registering connector token => Checked registry registering ∧
    (registering.request.kind = .clientDevice ∧ connector = none ∧ token = none ∨
      ∃ id given, registering.request.kind = .meshNode ∧ connector = some id ∧ token = some given)
  | .patchWrite orgId _ request ownerEmail meshIp =>
    normalizeMeshIp? request.meshIp = .ok meshIp ∧
      ownerEmail = request.ownerEmail.map normalizeEmail ∧
      ∀ email ∈ ownerEmail, Owned registry orgId email
  | _ => True

/-- The fields that a write of an organisation leaves out are as it read them. -/
def Current (registry : Registry) : Task → Prop
  | .updateOrgWrite orgId request read => ∀ current ∈ registry.org? orgId,
    (request.name = none → current.name = read.name) ∧
      (request.members = none → current.members = read.members)
  | _ => True

instance (registry : Registry) : (task : Task) → Decidable (Current registry task)
  | .updateOrgWrite orgId request read => inferInstanceAs (Decidable (∀ current ∈ registry.org? orgId,
    (request.name = none → current.name = read.name) ∧
      (request.members = none → current.members = read.members)))
  | .createOrg _ | .updateOrg _ _ | .register _ _ | .registerConnect _ | .registerToken _ _
  | .registerInsert _ _ _ | .registerCleanup _ _ _ | .patch _ _ _ | .patchOwner _ _ _
  | .patchWrite _ _ _ _ _ | .remove _ _ | .removeConnector _ _ _ | .removeWrite _ _
  | .heartbeat _ _ | .reissueNodeKey _ _ | .reconcile _ | .reconcileConnectors _ _
  | .reconcileDevices _ _ _ | .reconcileRevoke _ | .reconcileDelete _ _ =>
    inferInstanceAs (Decidable True)

/-- What another task leaves of the organisations. -/
def Carries (registry after : Registry) : Prop :=
  ∀ orgId org, registry.org? orgId = some org → ∃ kept, after.org? orgId = some kept ∧
    kept.createdAtMs = org.createdAtMs ∧ (kept.members = org.members ∨ Normal kept.members)

section Tasks

variable {blake3 : String → String} {registry after : Registry} {task next : Task}
  {answer : Answer} {env : Environment}

theorem carries_of_orgs (same : after.orgs = registry.orgs) : Carries registry after := by
  intro orgId org found
  refine ⟨org, ?_, rfl, .inl rfl⟩
  rw [org?, same]
  exact found

variable {orgId nodeId : String} {registering : Registering} {request : PatchNodeRequest}
  {org : Org} {node old : Node} {ownerEmail meshIp : Option String} {nowMs : UInt64}

theorem Owned.carry {email : String} (owned : Owned registry orgId email)
    (lower : toAsciiLowercase email = email) (carries : Carries registry after) :
    Owned after orgId email := by
  obtain ⟨org, found, listed⟩ := owned
  obtain ⟨kept, foundAfter, _, members⟩ := carries orgId org found
  refine ⟨kept, foundAfter, fun member => ?_⟩
  rcases members with same | normal
  · rw [same]
    refine listed ?_
    simpa only [hasMember, same] using member
  · exact mem_of_hasMember normal lower member

theorem Checked.carry (checked : Checked registry registering)
    (carries : Carries registry after) : Checked after registering :=
  ⟨checked.1, checked.2.carry (normalizeEmail_lower _) carries⟩

/-- A task that does not run keeps its ground. -/
theorem Grounded.carry (grounded : Grounded registry task) (carries : Carries registry after) :
    Grounded after task := by
  cases task with
  | updateOrgWrite orgId request read =>
    obtain ⟨itsId, current, found, created⟩ := grounded
    obtain ⟨kept, foundAfter, same, _⟩ := carries orgId current found
    exact ⟨itsId, kept, foundAfter, same.trans created⟩
  | registerConnect registering | registerToken registering connector
  | registerInsert registering connector token => exact ⟨grounded.1.carry carries, grounded.2⟩
  | patchWrite orgId nodeId request ownerEmail meshIp =>
    obtain ⟨normal, itsOwner, owned⟩ := grounded
    refine ⟨normal, itsOwner, fun email asked => (owned email asked).carry ?_ carries⟩
    rw [itsOwner] at asked
    obtain ⟨requested, _, rfl⟩ := Option.mem_map.mp asked
    exact normalizeEmail_lower requested
  | _ => trivial

theorem grounded_startRegistering {request : RegisterNodeRequest}
    (address : '@' ∈ (normalizeEmail request.ownerEmail).toList)
    (owned : Owned registry orgId (normalizeEmail request.ownerEmail)) :
    Grounded registry (startRegistering env orgId request) := by
  unfold startRegistering
  cases kind : request.kind with
  | meshNode => exact ⟨⟨address, owned⟩, kind⟩
  | clientDevice => exact ⟨⟨address, owned⟩, .inl ⟨kind, rfl, rfl⟩⟩

/-- The next stage has its ground. -/
theorem Grounded.follow (grounded : Grounded registry task) (follows : Follows registry task next) :
    Grounded registry next := by
  cases follows with
  | read found => exact ⟨id_of_org? found, _, found, rfl⟩
  | check found address listed =>
    exact grounded_startRegistering address ⟨_, found, fun _ => listed⟩
  | connect => exact grounded
  | token => exact ⟨grounded.1, .inr ⟨_, _, grounded.2, rfl, rfl⟩⟩
  | ownerKept unasked normal =>
    refine ⟨normal, by rw [unasked]; rfl, ?_⟩
    intro email asked
    cases asked
  | ownerChecked asked found listed normal =>
    refine ⟨normal, by rw [asked]; rfl, ?_⟩
    intro email itsEmail
    rw [← Option.mem_some.mp itsEmail]
    exact ⟨_, found, fun _ => listed⟩
  | _ => trivial

theorem grounded_task (request : Request) :
    Grounded registry request.task := by
  cases request <;> trivial

/-- On a record that still has the fields left out, an update does what it did on the
record it read. -/
theorem edit_current {request : UpdateOrgRequest} {read current : Org}
    (itsId : current.id = read.id) (created : current.createdAtMs = read.createdAtMs)
    (name : request.name = none → current.name = read.name)
    (members : request.members = none → current.members = read.members) :
    request.edit current = request.edit read := by
  obtain ⟨_, currentName, currentMembers, _⟩ := current
  obtain ⟨readId, readName, readMembers, readCreated⟩ := read
  obtain ⟨newName, newMembers⟩ := request
  simp only at itsId created name members
  subst itsId created
  cases newName with
  | none =>
    cases newMembers with
    | none =>
      rw [name rfl, members rfl]
    | some list =>
      rw [name rfl]
      rfl
  | some text =>
    cases newMembers with
    | none =>
      rw [members rfl]
      rfl
    | some list => rfl

theorem edit_keeps {request : UpdateOrgRequest} {read : Org}
    (edited : request.edit read = .ok org) :
    org.id = read.id ∧ org.createdAtMs = read.createdAtMs ∧
      (request.name = none → org.name = read.name) ∧
      (request.members = none → org.members = read.members) ∧
      (request.members ≠ none → Normal org.members) := by
  obtain ⟨name, members⟩ := request
  cases members with
  | none =>
    cases edited
    refine ⟨rfl, rfl, ?_, fun _ => rfl, absurd rfl⟩
    rintro rfl
    rfl
  | some list =>
    unfold UpdateOrgRequest.edit at edited
    cases normalized : normalizeMembers [] list with
    | error error => simp [normalized, Except.map] at edited
    | ok result =>
      simp only [normalized, Except.map, Except.ok.injEq] at edited
      subst edited
      refine ⟨rfl, rfl, ?_, ?_, fun _ => ?_⟩
      · rintro rfl
        rfl
      · exact nofun
      · exact normal_normalizeMembers (fun _ absent => absurd absent not_mem_nil) normalized

/-- What an answered request leaves of the organisations. -/
theorem carries_of_commits (commits : Commits blake3 registry task answer after)
    (grounded : Grounded registry task) (current : Current registry task) :
    Carries registry after := by
  cases commits with
  | createOrg normal inserted =>
    obtain ⟨_, _, rfl⟩ := insertOrg_eq_ok inserted
    intro orgId org found
    refine ⟨org, ?_, rfl, .inl rfl⟩
    rw [org?] at found ⊢
    rw [List.find?_append, found]
    rfl
  | @updateOrg itsOrg request read org stored _ edited written =>
    obtain ⟨_, _, rfl⟩ := updateOrg_eq_ok written
    obtain ⟨itsId, now, foundNow, created⟩ := grounded
    obtain ⟨orgId, orgCreated, _, members, normal⟩ := edit_keeps edited
    intro other old found
    rw [org?_withOrg]
    split_ifs with its
    · have same : other = itsOrg := its.trans (orgId.trans itsId)
      subst same
      cases foundNow.symm.trans found
      refine ⟨org, by rw [found]; rfl, orgCreated.trans created.symm, ?_⟩
      by_cases unset : request.members = none
      · exact .inl ((members unset).trans ((current _ found).2 unset).symm)
      · exact .inr (normal unset)
    · exact ⟨old, found, rfl, .inl rfl⟩
  | register inserted =>
    obtain ⟨_, _, _, rfl⟩ := insertNode_eq_ok inserted
    exact carries_of_orgs rfl
  | patch mutated | heartbeat mutated | reissue mutated =>
    obtain ⟨_, _, _, _, _, _, rfl⟩ := tryMutateNode_eq_ok mutated
    exact carries_of_orgs rfl
  | remove removed =>
    obtain ⟨_, rfl⟩ := removeNode_eq_ok removed
    exact carries_of_orgs rfl
  | report _ => exact carries_of_orgs rfl

/-! ### A request is answered as if alone -/

/-- An environment where everything succeeds. -/
def calm : Environment := ⟨true, "", "", 0, 0, .ok "", .ok "", .ok (), .ok [], .ok []⟩

/-- The environment that a registration drew its id, key and times from. -/
def drawn (registering : Registering) : Environment :=
  { calm with
    nodeId := registering.nodeId
    nodeKey := registering.nodeKey
    nowMs := registering.createdAtMs
    laterMs := registering.updatedAtMs }

theorem leads_check (found : registry.org? registering.orgId = some org)
    (address : '@' ∈ (normalizeEmail registering.request.ownerEmail).toList)
    (listed : normalizeEmail registering.request.ownerEmail ∈ org.members) :
    Leads blake3 registry (.register registering.orgId registering.request)
      (startRegistering (drawn registering) registering.orgId registering.request) := by
  refine ⟨drawn registering, ?_⟩
  simp [advance, register, getOrg_eq_ok.mpr found, address, listed]

/-- A registration that can be inserted can be made from its start. -/
theorem leads_register {connector token : Option String}
    (grounded : Grounded registry (.registerInsert registering connector token))
    (inserted : registry.insertNode (registering.node blake3 connector) = .ok (node, after)) :
    Relation.ReflTransGen (Leads blake3 registry) (.register registering.orgId registering.request)
      (.registerInsert registering connector token) := by
  obtain ⟨⟨address, org, found, listed⟩, kinds⟩ := grounded
  obtain ⟨_, ⟨itsOrg, foundItsOrg, member⟩, _⟩ := insertNode_eq_ok inserted
  cases found.symm.trans foundItsOrg
  have checked : Leads blake3 registry (.register registering.orgId registering.request)
      (startRegistering (drawn registering) registering.orgId registering.request) :=
    leads_check found address (listed member)
  rcases kinds with ⟨kind, rfl, rfl⟩ | ⟨id, given, kind, rfl, rfl⟩
  · simp only [startRegistering, kind] at checked
    exact .single checked
  · simp only [startRegistering, kind] at checked
    have connected : Leads blake3 registry (.registerConnect registering)
        (.registerToken registering id) := ⟨{ calm with connector := .ok id }, rfl⟩
    have given : Leads blake3 registry (.registerToken registering id)
        (.registerInsert registering (some id) (some given)) := ⟨{ calm with token := .ok given }, rfl⟩
    exact ((Relation.ReflTransGen.single checked).tail connected).tail given

theorem leads_patch
    (grounded : Grounded registry (.patchWrite orgId nodeId request ownerEmail meshIp))
    (found : registry.node? (some orgId) nodeId = some old)
    (members : ∀ org, registry.org? orgId = some org →
      ∀ email ∈ ownerEmail, hasMember org email = true) :
    Relation.ReflTransGen (Leads blake3 registry) (.patch orgId nodeId request)
      (.patchWrite orgId nodeId request ownerEmail meshIp) := by
  obtain ⟨normal, itsOwner, owned⟩ := grounded
  have read : Leads blake3 registry (.patch orgId nodeId request) (.patchOwner orgId nodeId request) :=
    ⟨calm, by simp only [advance, getNode_eq_ok.mpr found, andThen]⟩
  refine (Relation.ReflTransGen.single read).tail ⟨calm, ?_⟩
  cases asked : request.ownerEmail with
  | none =>
    rw [asked] at itsOwner
    subst itsOwner
    simp [advance, patchOwner, asked, patchParts, normal]
  | some requested =>
    rw [asked] at itsOwner
    subst itsOwner
    obtain ⟨org, foundOrg, listed⟩ := owned _ rfl
    have member := listed (members org foundOrg _ rfl)
    simp [advance, patchOwner, asked, getOrg_eq_ok.mpr foundOrg, member, patchParts, normal]

theorem leads_remove (found : registry.node? (some orgId) nodeId = some node) :
    Relation.ReflTransGen (Leads blake3 registry) (.remove orgId nodeId) (.removeWrite orgId nodeId) := by
  cases connected : node.cfConnectorId with
  | none =>
    refine .single ⟨calm, ?_⟩
    simp [advance, remove, getNode_eq_ok.mpr found, connected]
  | some connector =>
    have read : Leads blake3 registry (.remove orgId nodeId)
        (.removeConnector orgId nodeId connector) :=
      ⟨calm, by simp only [advance, remove, getNode_eq_ok.mpr found, connected]⟩
    have deleted : Leads blake3 registry (.removeConnector orgId nodeId connector)
        (.removeWrite orgId nodeId) := ⟨calm, rfl⟩
    exact (Relation.ReflTransGen.single read).tail deleted

theorem isNode_of_patched (found : registry.node? (some orgId) nodeId = some old) :
    (request.edit ownerEmail meshIp nowMs old).orgId = orgId :=
  (isNode_some.mp (isNode_of_node? found)).2

/-- A task that is answered is answered as if its request had run alone just then. -/
theorem performs_of_answers (grounded : Grounded registry task) (current : Current registry task)
    (updating : updates (task.request, answer) = true)
    (answered : advance blake3 registry env task = .answers answer after) :
    Performs blake3 registry task.request answer after := by
  cases commits_of_advance answered with
  | createOrg normal inserted | heartbeat mutated | reissue mutated =>
    exact performs_of_leads .refl answered
  | @updateOrg orgId request read org stored _ edited written =>
    obtain ⟨itsId, now, found, created⟩ := grounded
    obtain ⟨name, members⟩ := current now found
    have same : request.edit now = request.edit read :=
      edit_current ((id_of_org? found).trans itsId.symm) created name members
    have leads : Leads blake3 registry (Request.updateOrg orgId request).task
        (.updateOrgWrite orgId request now) :=
      ⟨calm, by simp only [Request.task, advance, getOrg_eq_ok.mpr found, andThen]⟩
    have written : advance blake3 registry env (.updateOrgWrite orgId request now) =
        .answers (.org stored) after := by
      simpa only [advance, updateOrgWrite, same] using answered
    exact performs_of_leads (.single leads) written
  | register inserted => exact performs_of_leads (leads_register grounded inserted) answered
  | patch mutated =>
    obtain ⟨old, org, found, edited, foundOrg, member, _⟩ := tryMutateNode_eq_ok mutated
    refine performs_of_leads (leads_patch grounded found ?_) answered
    cases edited
    intro itsOrg foundItsOrg email asked
    rw [isNode_of_patched found] at foundOrg
    cases foundItsOrg.symm.trans foundOrg
    cases asked
    exact member
  | remove removed =>
    exact performs_of_leads (leads_remove (removeNode_eq_ok removed).1) answered
  | report reconciles =>
    rw [reconciles] at updating
    cases updating

/-! ### Fields that a request does not set -/

/-- A changed node has every field as before, up to those that the change sets. -/
theorem read_mutated (sets : NodeField → Bool) {orgId : Option String} {updated : Node}
    {field : Field} (found : registry.node? orgId nodeId = some old) (sameId : updated.id = old.id)
    (sameOrg : updated.orgId = old.orgId)
    (kept : ∀ field, sets field = false → NodeField.of updated field = NodeField.of old field)
    (unset : ∀ itsField, field = .node old.orgId old.id itsField → sets itsField = false) :
    field.read ⟨registry.orgs, modifyFirst (isNode orgId nodeId)
      (fun _ => updated) registry.nodes⟩ = field.read registry := by
  cases field with
  | org itsOrg itsField => rfl
  | node itsOrg itsId itsField =>
    simp only [Field.read]
    rcases node?_modified found sameId sameOrg itsOrg itsId with same | ⟨before, changed⟩
    · rw [same]
    · obtain ⟨rfl, rfl⟩ := isNode_some.mp (isNode_of_node? before)
      rw [before, changed, Option.map_some, Option.map_some, kept itsField (unset itsField rfl)]

theorem patch_keeps (old : Node) (normal : normalizeMeshIp? request.meshIp = .ok meshIp)
    (field : NodeField) (unset : patchFields request field = false) :
    NodeField.of (request.edit (request.ownerEmail.map normalizeEmail) meshIp nowMs old) field =
      NodeField.of old field := by
  cases field with
  | meshIp =>
    have unasked : request.meshIp = none := by simpa [patchFields] using unset
    rw [unasked] at normal
    cases normal
    rfl
  | displayName | ownerEmail | synergosPeerId =>
    have unasked := Option.isSome_eq_false_iff.mp unset
    simp [NodeField.of, PatchNodeRequest.edit, Option.isNone_iff_eq_none.mp unasked]
  | updatedAtMs => cases unset
  | _ => rfl

theorem find?_concat {α : Type} {wanted : α → Bool} {item : α} {items : List α}
    (other : ¬ wanted item = true) : (items ++ [item]).find? wanted = items.find? wanted := by
  rw [List.find?_append, List.find?_cons_of_neg other, List.find?_nil, Option.or_none]

variable (commits : Commits blake3 registry task answer after)

include commits

/-- An answered request leaves the fields that it does not set. -/
theorem read_of_commits (grounded : Grounded registry task) (current : Current registry task)
    {field : Field}
    (unset : ¬ Sets (task.request, answer) field) : field.read after = field.read registry := by
  cases commits with
  | @createOrg request members nowMs stored _ normal inserted =>
    obtain ⟨_, fresh, rfl⟩ := insertOrg_eq_ok inserted
    cases field with
    | org orgId itsField =>
      have apart : orgId ≠ request.id := unset
      simp only [Field.read, org?]
      rw [find?_concat (by simpa using apart.symm)]
    | node orgId nodeId itsField => rfl
  | @updateOrg itsOrg request read org stored _ edited written =>
    obtain ⟨_, _, rfl⟩ := updateOrg_eq_ok written
    obtain ⟨itsId, now, foundNow, created⟩ := grounded
    obtain ⟨orgId, orgCreated, name, members, _⟩ := edit_keeps edited
    obtain ⟨nameNow, membersNow⟩ := current now foundNow
    cases field with
    | node orgId nodeId itsField => rfl
    | org other itsField =>
      simp only [Field.read, org?_withOrg]
      split_ifs with its
      · have same : other = itsOrg := its.trans (orgId.trans itsId)
        subst same
        have unsetField : orgFields request itsField = false := by
          simpa [Sets, Task.request] using unset
        rw [foundNow, Option.map_some, Option.map_some, Option.map_some]
        congr 1
        cases itsField with
        | name =>
          have unasked : request.name = none := by simpa [orgFields] using unsetField
          simp [OrgField.of, name unasked, nameNow unasked]
        | members =>
          have unasked : request.members = none := by simpa [orgFields] using unsetField
          simp [OrgField.of, members unasked, membersNow unasked]
        | createdAtMs => simp [OrgField.of, orgCreated, created]
      · rfl
  | @register registering connector token node _ inserted =>
    obtain ⟨rfl, _, fresh, rfl⟩ := insertNode_eq_ok inserted
    cases field with
    | org orgId itsField => rfl
    | node orgId nodeId itsField =>
      have other : ¬ isNode (some orgId) nodeId (registering.node blake3 connector) =
      true := by
        intro its
        obtain ⟨sameId, sameOrg⟩ := isNode_some.mp its
        exact unset ⟨sameOrg.symm, sameId.symm⟩
      simp only [Field.read, node?]
      rw [find?_concat other]
  | @patch orgId nodeId request ownerEmail meshIp nowMs node _ mutated =>
    obtain ⟨old, _, found, edited, _, _, rfl⟩ := tryMutateNode_eq_ok mutated
    obtain ⟨normal, itsOwner, _⟩ := grounded
    obtain ⟨itsId, itsOrg⟩ := isNode_some.mp (isNode_of_node? found)
    cases edited
    subst itsOwner
    refine read_mutated _ found rfl rfl (patch_keeps old normal) ?_
    rintro itsField rfl
    by_contra set
    exact unset ⟨itsOrg, itsId, by simpa using set⟩
  | @remove orgId nodeId node _ removed =>
    obtain ⟨found, rfl⟩ := removeNode_eq_ok removed
    cases field with
    | org itsOrg itsField => rfl
    | node itsOrg itsId itsField =>
      have apart : ∀ other : Node, isNode (some orgId) nodeId other = true →
          isNode (some itsOrg) itsId other = false := by
        intro other chosen
        by_contra its
        obtain ⟨sameId, sameOrg⟩ := isNode_some.mp chosen
        obtain ⟨itsSameId, itsSameOrg⟩ := isNode_some.mp (by simpa using its)
        exact unset ⟨itsSameOrg.symm.trans sameOrg, itsSameId.symm.trans sameId⟩
      simp [Field.read, node?, find?_eraseP _ apart]
  | @heartbeat key request nowMs laterMs node _ mutated =>
    obtain ⟨old, _, found, edited, _, _, rfl⟩ := tryMutateNode_eq_ok mutated
    obtain ⟨reported, rfl⟩ := heartbeat_eq_ok edited
    refine read_mutated heartbeatFields found rfl rfl (fun field unset => ?_) ?_
    · cases field <;> first | rfl | cases unset
    rintro itsField rfl
    by_contra set
    have itsId : old.id = request.nodeId := by
      simpa [isNode] using isNode_of_node? found
    exact unset ⟨itsId, by simpa using set⟩
  | @reissue orgId nodeId nodeKey nowMs node _ mutated =>
    obtain ⟨old, _, found, edited, _, _, rfl⟩ := tryMutateNode_eq_ok mutated
    obtain ⟨itsId, itsOrg⟩ := isNode_some.mp (isNode_of_node? found)
    cases edited
    refine read_mutated reissueFields found rfl rfl (fun field unset => ?_) ?_
    · cases field <;> first | rfl | cases unset
    rintro itsField rfl
    by_contra set
    exact unset ⟨itsOrg, itsId, by simpa using set⟩
  | report _ => rfl

theorem registry_of_reading (reading : updates (task.request, answer) = false) : after = registry :=
    by
  cases commits with
  | report _ => rfl
  | _ => cases reading

/-- A write of an organisation that finds another value in a field it leaves out puts
back the value it read. -/
theorem lost_of_stale (grounded : Grounded registry task) (stale : ¬ Current registry task) :
    ∃ field, ¬ Sets (task.request, answer) field ∧ field.read after ≠ field.read registry := by
  cases commits with
  | @updateOrg orgId request read org stored _ edited written =>
    obtain ⟨_, _, rfl⟩ := updateOrg_eq_ok written
    obtain ⟨itsId, now, found, _⟩ := grounded
    obtain ⟨sameId, _, name, members, _⟩ := edit_keeps edited
    have its : orgId = org.id := (sameId.trans itsId).symm
    have written : (registry.withOrg org).org? orgId = some org := by
      rw [org?_withOrg, if_pos its, found, Option.map_some]
    have changed : ¬ ((request.name = none → now.name = read.name) ∧
        (request.members = none → now.members = read.members)) := by
      intro same
      refine stale fun current itsCurrent => ?_
      cases found.symm.trans itsCurrent
      exact same
    by_cases renamed : request.name = none → now.name = read.name
    · have enlarged : ¬ (request.members = none → now.members = read.members) :=
        fun same => changed ⟨renamed, same⟩
      obtain ⟨unasked, differs⟩ := Classical.not_imp.mp enlarged
      refine ⟨.org orgId .members, by simp [Sets, Task.request, orgFields, unasked], ?_⟩
      simp only [Field.read, written, found, Option.map_some, OrgField.of, members unasked]
      intro same
      exact differs (Value.texts.inj (Option.some.inj same)).symm
    · obtain ⟨unasked, differs⟩ := Classical.not_imp.mp renamed
      refine ⟨.org orgId .name, by simp [Sets, Task.request, orgFields, unasked], ?_⟩
      simp only [Field.read, written, found, Option.map_some, OrgField.of, name unasked]
      intro same
      exact differs (Option.some.inj (Value.text.inj (Option.some.inj same))).symm
  | report reconciles =>
    exfalso
    cases task <;> first | exact stale trivial | cases reconciles
  | _ => exact absurd trivial stale

end Tasks

/-! ### Runs -/

/-- Each update of an organisation that writes finds the fields it leaves out as it read
them. -/
def Fits (world : World) : Action → Prop
  | .arrive _ _ => True
  | .run id _ => ∀ task ∈ world.tasks id, Current world.registry task

/-- Every task has its ground. -/
def AllGrounded (world : World) : Prop :=
  ∀ id task, world.tasks id = some task → Grounded world.registry task

/-- What a world has in common with an earlier one. -/
structure Since (blake3 : String → String) (start world : World) : Prop where
  grounded : AllGrounded world
  acknowledged : ∃ added, world.acknowledged = start.acknowledged ++ added ∧
    Serial blake3 start.registry (added.filter updates) world.registry ∧
    ∀ field, (∀ item ∈ added, ¬ Sets item field) →
      field.read world.registry = field.read start.registry

section Runs

variable {blake3 : String → String} {start world later : World} {action : Action}

theorem Fits.current {id : TaskId} {env : Environment} {task : Task}
    (fits : Fits world (.run id env)) (held : world.tasks id = some task) :
    Current world.registry task :=
  fits task held

theorem allGrounded_apply (grounded : AllGrounded world) (fits : Fits world action) :
    AllGrounded (apply blake3 world action) := by
  intro id task held
  rcases tasks_apply held with before | ⟨unchanged, ⟨request, _, rfl⟩ | ⟨old, env, _, running, follows⟩⟩
  · rcases registry_apply blake3 world action with ⟨same, _⟩ | ⟨other, env, its, answer, rfl, running,
      answered, _⟩
    · rw [same]
      exact grounded id task before
    · exact (grounded id task before).carry (carries_of_commits (commits_of_advance answered)
        (grounded other its running) (fits.current running))
  · exact grounded_task request
  · rw [unchanged]
    exact (grounded id old running).follow follows

/-- One action. -/
theorem Since.apply (since : Since blake3 start world) (fits : Fits world action) :
    Since blake3 start (apply blake3 world action) := by
  refine ⟨allGrounded_apply since.grounded fits, ?_⟩
  obtain ⟨added, acknowledged, serial, kept⟩ := since.acknowledged
  rcases registry_apply blake3 world action with ⟨same, unchanged⟩ | ⟨id, env, task, answer, rfl,
    running, answered, appended⟩
  · rw [same, unchanged]
    exact ⟨added, acknowledged, serial, kept⟩
  · have grounded := since.grounded id task running
    have current := fits.current running
    refine ⟨added ++ [(task.request, answer)], ?_, ?_, ?_⟩
    · rw [appended, acknowledged, append_assoc]
    · rw [filter_append]
      by_cases updating : updates (task.request, answer) = true
      · rw [filter_cons_of_pos updating]
        exact serial_append serial (performs_of_answers grounded current updating answered)
      · rw [filter_cons_of_neg updating, filter_nil, append_nil]
        rw [registry_of_reading (commits_of_advance answered) (by simpa using updating)]
        exact serial
    · intro field unset
      have last := unset (task.request, answer) (mem_append_right _ mem_cons_self)
      rw [read_of_commits (commits_of_advance answered) grounded current last]
      exact kept field fun item listed => unset item (mem_append_left _ listed)

theorem since_self (grounded : AllGrounded start) : Since blake3 start start :=
  ⟨grounded, [], by simp, rfl, fun _ _ => rfl⟩

theorem allGrounded_initial (registry : Registry) : AllGrounded (World.initial registry) := by
  intro id task held
  cases held

theorem since_of_run (grounded : AllGrounded start)
    (run : Run (system blake3) Fits start world) : Since blake3 start world :=
  run.invariant (Since blake3 start) (since_self grounded)
    fun _ _ _ fits since => since.apply fits

/-- In a run whose writes of organisations all find the fields they leave out as they read
them, the registry and the answers are those of the answered requests one after another,
and a field keeps its value until a request that sets it is answered. Of the requests
that are answered in such a run, exactly those that find these fields so keep what they
do not set. -/
theorem updates_not_lost (registry : Registry)
    (run : Run (system blake3) Fits (World.initial registry) world)
    (more : Run (system blake3) Fits world later) :
    Serial blake3 registry (world.acknowledged.filter updates) world.registry ∧
    (∃ added, later.acknowledged = world.acknowledged ++ added ∧
      ∀ field, (∀ item ∈ added, ¬ Sets item field) →
        field.read later.registry = field.read world.registry) ∧
    ∀ id env task answer after, world.tasks id = some task →
      advance blake3 world.registry env task = .answers answer after →
      ((∀ field, ¬ Sets (task.request, answer) field →
        field.read after = field.read world.registry) ↔ Current world.registry task) := by
  have since := since_of_run (allGrounded_initial registry) run
  have since' := since_of_run since.grounded more
  refine ⟨?_, ?_, ?_⟩
  · obtain ⟨added, acknowledged, serial, _⟩ := since.acknowledged
    rw [acknowledged]
    exact serial
  · obtain ⟨added, acknowledged, _, kept⟩ := since'.acknowledged
    exact ⟨added, acknowledged, kept⟩
  · intro id env task answer after held answered
    have grounded := since.grounded id task held
    constructor
    · intro kept
      by_contra stale
      obtain ⟨field, unset, changed⟩ := lost_of_stale (commits_of_advance answered) grounded stale
      exact changed (kept field unset)
    · intro current field unset
      exact read_of_commits (commits_of_advance answered) grounded current unset

end Runs

/-! ### Two updates of one organisation -/

def acme : Registry := ⟨[⟨"acme", "Acme", ["alice@acme.test"], 1⟩], []⟩

/-- A new name, and no members. -/
def rename : Request := .updateOrg "acme" ⟨some "Acme Corporation", none⟩

/-- New members, and no name. -/
def enlarge : Request :=
  .updateOrg "acme" ⟨none, some ["alice@acme.test", " Bob@acme.test"]⟩

def oneAfterAnother : List Action :=
  [.arrive 0 rename, .arrive 1 enlarge, .run 0 calm, .run 0 calm, .run 1 calm, .run 1 calm]

theorem both_updates_kept :
    Serial id acme ((oneAfterAnother.foldl (apply id) (World.initial acme)).acknowledged.filter updates)
        (oneAfterAnother.foldl (apply id) (World.initial acme)).registry ∧
      (oneAfterAnother.foldl (apply id) (World.initial acme)).registry =
        ⟨[⟨"acme", "Acme Corporation", ["alice@acme.test", "bob@acme.test"], 1⟩], []⟩ := by
  refine ⟨(updates_not_lost acme (.follow oneAfterAnother .start ?_) .start).1, by decide +kernel⟩
  refine ⟨rfl, trivial, rfl, trivial, rfl, ?_, rfl, ?_, rfl, ?_, rfl, ?_, trivial⟩
  all_goals
    intro task held
    cases held
    decide +kernel

/-- Both updates read the record before the first is answered. -/
def bothRead : List Action :=
  [.arrive 0 rename, .arrive 1 enlarge, .run 0 calm, .run 1 calm, .run 0 calm]

/-- The name that an answered update gave is gone after an update of the members alone. -/
theorem name_lost : ∃ world later : World,
    Reaches (system id) (World.initial acme) world ∧ Reaches (system id) world later ∧
    (world.acknowledged.map Prod.fst = [rename] ∧
      Field.read world.registry (.org "acme" .name) = some (.text "Acme Corporation")) ∧
    later.acknowledged.map Prod.fst = [rename, enlarge] ∧
    (∀ answer, ¬ Sets (enlarge, answer) (.org "acme" .name)) ∧
    Field.read later.registry (.org "acme" .name) = some (.text "Acme") := by
  refine ⟨bothRead.foldl (apply id) (World.initial acme),
    [Action.run 1 calm].foldl (apply id) (bothRead.foldl (apply id) (World.initial acme)),
    .follow bothRead .start ?_, .follow [Action.run 1 calm] .start ?_, ⟨?_, ?_⟩, ?_, ?_, ?_⟩
  · exact ⟨rfl, trivial, rfl, trivial, rfl, trivial, rfl, trivial, rfl, trivial, trivial⟩
  · exact ⟨rfl, trivial, trivial⟩
  · decide +kernel
  · decide +kernel
  · decide +kernel
  · intro answer set
    exact absurd set.2 (by decide)
  · decide +kernel

end Synergos.RegistryUpdates
