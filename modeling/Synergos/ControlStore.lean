import Mathlib
import Synergos.HistoryFiles

/-!
# The registry of the control server

The control server keeps organisations with their members and the nodes that belong
to them. Each operation of the store holds the lock from its first read to its last
write, the save of the file included: it computes the next registry, which becomes
the registry only if it could be saved.

A registry is the value that the lock guards. The file, the log and the HTTP layer
are left out.
-/

namespace Synergos.ControlStore

open List

open HistoryFiles (isWhitespace)
open SafePath (isControl)

/-! ### Records -/

structure Org where
  id : String
  name : String
  members : List String
  createdAtMs : UInt64
  deriving DecidableEq, Repr

inductive NodeKind where
  | meshNode
  | clientDevice
  deriving DecidableEq, Repr

structure Node where
  id : String
  orgId : String
  displayName : String
  ownerEmail : String
  kind : NodeKind
  cfConnectorId : Option String
  synergosPeerId : Option String
  meshIp : Option String
  reportedMeshIp : Option String
  nodeKeyHash : Option String
  lastHeartbeatMs : Option UInt64
  synergosVersion : Option String
  createdAtMs : UInt64
  updatedAtMs : UInt64
  deriving DecidableEq, Repr

structure Registry where
  orgs : List Org
  nodes : List Node
  deriving DecidableEq, Repr

inductive ControlError where
  | config (text : String)
  | store (text : String)
  | notFound (text : String)
  | conflict (text : String)
  | invalidRequest (text : String)
  | cloudflare (text : String)
  | unauthorized
  deriving DecidableEq, Repr

abbrev ControlResult (α : Type) := Except ControlError α

/-! ### Texts -/

def toAsciiLowercase (text : String) : String := String.ofList (text.toList.map Char.toLower)

def eqIgnoreAsciiCase (left right : String) : Bool :=
  toAsciiLowercase left == toAsciiLowercase right

def trim (text : String) : String :=
  String.ofList ((text.toList.dropWhile isWhitespace).reverse.dropWhile isWhitespace).reverse

/-- An address as it is stored. -/
def normalizeEmail (text : String) : String := toAsciiLowercase (trim text)

def hasMember (org : Org) (email : String) : Bool :=
  org.members.any fun member => eqIgnoreAsciiCase member email

/-! ### The operations -/

def notFoundOrg (orgId : String) : ControlError := .notFound ("org " ++ orgId)

def notFoundNode (nodeId : String) : ControlError := .notFound ("node " ++ nodeId)

namespace Registry

/-- The first organisation with an id. -/
def org? (registry : Registry) (orgId : String) : Option Org :=
  registry.orgs.find? fun org => org.id == orgId

/-- Whether a node is the one that is asked for, of one organisation or of any. -/
def isNode (orgId : Option String) (nodeId : String) (node : Node) : Bool :=
  node.id == nodeId && match orgId with
    | some org => node.orgId == org
    | none => true

/-- The first node with an id, of one organisation or of any. -/
def node? (registry : Registry) (orgId : Option String) (nodeId : String) : Option Node :=
  registry.nodes.find? (isNode orgId nodeId)

def getOrg (registry : Registry) (orgId : String) : ControlResult Org :=
  match registry.org? orgId with
  | some org => .ok org
  | none => .error (notFoundOrg orgId)

def getNode (registry : Registry) (orgId nodeId : String) : ControlResult Node :=
  match registry.node? (some orgId) nodeId with
  | some node => .ok node
  | none => .error (notFoundNode nodeId)

def insertOrg (registry : Registry) (org : Org) : ControlResult (Org × Registry) :=
  if registry.orgs.any fun other => other.id == org.id then
    .error (.conflict ("org " ++ org.id ++ " already exists"))
  else .ok (org, { registry with orgs := registry.orgs ++ [org] })

/-- Change the first member of a list with a property. -/
def modifyFirst {α : Type} (chosen : α → Bool) (change : α → α) : List α → List α
  | [] => []
  | item :: rest => if chosen item then change item :: rest else item :: modifyFirst chosen change rest

/-- Put a record in the place of the first organisation with its id. -/
def withOrg (registry : Registry) (org : Org) : Registry :=
  { registry with orgs := modifyFirst (fun other => other.id == org.id) (fun _ => org) registry.orgs }

def updateOrg (registry : Registry) (org : Org) : ControlResult (Org × Registry) :=
  match registry.nodes.find? fun node => node.orgId == org.id && !hasMember org node.ownerEmail with
  | some node => .error (.conflict ("member " ++ node.ownerEmail ++ " still owns node " ++ node.id ++
      "; transfer or remove the node first"))
  | none =>
    match registry.org? org.id with
    | none => .error (notFoundOrg org.id)
    | some _ => .ok (org, registry.withOrg org)

def insertNode (registry : Registry) (node : Node) : ControlResult (Node × Registry) :=
  match registry.org? node.orgId with
  | none => .error (notFoundOrg node.orgId)
  | some org =>
    if hasMember org node.ownerEmail = false then
      .error (.conflict ("owner " ++ node.ownerEmail ++ " is no longer a member of org " ++
        node.orgId))
    else if registry.nodes.any fun existing => existing.id == node.id then
      .error (.conflict ("node " ++ node.id ++ " already exists"))
    else .ok (node, { registry with nodes := registry.nodes ++ [node] })

/-- Change a node under the lock; its owner must be a member afterwards. -/
def tryMutateNode (registry : Registry) (orgId : Option String) (nodeId : String)
    (mutate : Node → ControlResult Node) : ControlResult (Node × Registry) :=
  match registry.node? orgId nodeId with
  | none => .error (notFoundNode nodeId)
  | some node =>
    match mutate node with
    | .error error => .error error
    | .ok updated =>
      match registry.org? updated.orgId with
      | none => .error (notFoundOrg updated.orgId)
      | some org =>
        if hasMember org updated.ownerEmail = false then
          .error (.conflict ("owner " ++ updated.ownerEmail ++ " is not a member of org " ++
            updated.orgId))
        else .ok (updated, { registry with
          nodes := modifyFirst (isNode orgId nodeId) (fun _ => updated) registry.nodes })

def removeNode (registry : Registry) (orgId nodeId : String) : ControlResult (Node × Registry) :=
  match registry.node? (some orgId) nodeId with
  | none => .error (notFoundNode nodeId)
  | some node =>
    .ok (node, { registry with nodes := registry.nodes.eraseP (isNode (some orgId) nodeId) })

end Registry

/-! ### Requests -/

structure CreateOrgRequest where
  id : String
  name : String
  members : List String
  deriving DecidableEq, Repr

structure UpdateOrgRequest where
  name : Option String
  members : Option (List String)
  deriving DecidableEq, Repr

structure RegisterNodeRequest where
  displayName : String
  ownerEmail : String
  kind : NodeKind
  synergosPeerId : Option String
  deriving DecidableEq, Repr

structure PatchNodeRequest where
  displayName : Option String
  ownerEmail : Option String
  synergosPeerId : Option String
  meshIp : Option String
  deriving DecidableEq, Repr

structure HeartbeatRequest where
  nodeId : String
  peerId : String
  meshIp : Option String
  synergosVersion : Option String
  deriving DecidableEq, Repr

def validateSlug (id : String) : ControlResult Unit :=
  if id.toList ≠ [] ∧ id.utf8ByteSize ≤ 64 ∧
      id.toList.all (fun char => ('a' ≤ char && char ≤ 'z') || ('0' ≤ char && char ≤ '9') ||
        char == '-') = true then .ok ()
  else .error (.invalidRequest "org id must be a lowercase slug ([a-z0-9-], max 64 chars)")

/-- The members of a request: trimmed, in lower case, each once. -/
def normalizeMembers : List String → List String → ControlResult (List String)
  | normalized, [] => .ok normalized
  | normalized, member :: rest =>
    let email := normalizeEmail member
    if email.toList = [] ∨ '@' ∉ email.toList then
      .error (.invalidRequest ("member must be an email address: " ++ reprStr email))
    else normalizeMembers (if email ∈ normalized then normalized else normalized ++ [email]) rest

/-- A decimal number of an address: at most 255 and without a leading zero. -/
def isOctet (chars : List Char) : Bool :=
  chars.length != 0 && chars.length ≤ 3 && chars.all Char.isDigit &&
    (chars.length == 1 || chars.head? != some '0') && decide (chars.foldl octetValue 0 ≤ 255)
where
  octetValue (value : Nat) (char : Char) : Nat := 10 * value + (char.toNat - '0'.toNat)

/-- An address of the mesh. A text that is an address is its own normal form. -/
def normalizeMeshIp (value : String) : ControlResult String :=
  match value.toList.splitOn '.' with
  | [first, second, third, fourth] =>
    if ([first, second, third, fourth].all isOctet) = false then
      .error (.invalidRequest "mesh_ip must be an IPv4 address")
    else if first.foldl isOctet.octetValue 0 ≠ 100 ∨
        ¬ (96 ≤ second.foldl isOctet.octetValue 0 ∧ second.foldl isOctet.octetValue 0 ≤ 111) then
      .error (.invalidRequest "mesh_ip must be in Cloudflare Mesh range 100.96.0.0/12")
    else .ok value
  | _ => .error (.invalidRequest "mesh_ip must be an IPv4 address")

/-- The address of a request, if it has one. -/
def normalizeMeshIp? : Option String → ControlResult (Option String)
  | none => .ok none
  | some value => (normalizeMeshIp value).map some

/-- The record that an update writes in the place of the one it read. -/
def UpdateOrgRequest.edit (request : UpdateOrgRequest) (org : Org) : ControlResult Org :=
  let named := { org with name := request.name.getD org.name }
  match request.members with
  | none => .ok named
  | some members => (normalizeMembers [] members).map fun members => { named with members }

/-- The changes of a patch whose parts have been checked. -/
def PatchNodeRequest.edit (request : PatchNodeRequest) (ownerEmail meshIp : Option String)
    (nowMs : UInt64) (node : Node) : Node :=
  { node with
    displayName := request.displayName.getD node.displayName
    ownerEmail := ownerEmail.getD node.ownerEmail
    synergosPeerId := request.synergosPeerId.orElse fun _ => node.synergosPeerId
    meshIp := meshIp.orElse fun _ => node.meshIp
    updatedAtMs := nowMs }

/-- A text of a heartbeat: not too long and without control characters. -/
def isPrintable (limit : Nat) (text : String) : Bool :=
  decide (text.utf8ByteSize ≤ limit) && !text.toList.any isControl

/-- The changes of a heartbeat, for a node whose key it has. The clock is read twice. -/
def HeartbeatRequest.edit (request : HeartbeatRequest) (providedHash : String)
    (nowMs laterMs : UInt64) (node : Node) : ControlResult Node :=
  if node.nodeKeyHash ≠ some providedHash then .error .unauthorized
  else if request.peerId.toList = [] ∨ isPrintable 256 request.peerId = false then
    .error (.invalidRequest "peer_id must be 1..=256 printable characters")
  else if request.synergosVersion.any fun version => !isPrintable 128 version then
    .error (.invalidRequest "synergos_version must be at most 128 printable characters")
  else
    (normalizeMeshIp? request.meshIp).map fun reported =>
      { node with
        synergosPeerId := some request.peerId
        reportedMeshIp := reported
        synergosVersion := request.synergosVersion
        lastHeartbeatMs := some nowMs
        updatedAtMs := laterMs }

theorem heartbeat_eq_ok {request : HeartbeatRequest} {providedHash : String}
    {nowMs laterMs : UInt64}
    {node updated : Node} (edited : request.edit providedHash nowMs laterMs node = .ok updated) :
    ∃ reported, updated = { node with
      synergosPeerId := some request.peerId
      reportedMeshIp := reported
      synergosVersion := request.synergosVersion
      lastHeartbeatMs := some nowMs
      updatedAtMs := laterMs } := by
  unfold HeartbeatRequest.edit at edited
  split_ifs at edited
  cases normalized : normalizeMeshIp? request.meshIp with
  | error error => simp [normalized, Except.map] at edited
  | ok reported =>
    simp only [normalized, Except.map, Except.ok.injEq] at edited
    exact ⟨reported, edited.symm⟩

/-! ### What the operations change -/

namespace Registry

section ModifyFirst

variable {α : Type} {chosen wanted : α → Bool} {change : α → α}

theorem mem_modifyFirst {items : List α} {item : α}
    (member : item ∈ modifyFirst chosen change items) :
    item ∈ items ∨ ∃ old, items.find? chosen = some old ∧ item = change old := by
  induction items with
  | nil => exact .inl member
  | cons head rest ih =>
    by_cases first : chosen head = true
    · rw [modifyFirst, if_pos first] at member
      rcases mem_cons.mp member with changed | other
      · exact .inr ⟨head, List.find?_cons_of_pos first, changed⟩
      · exact .inl (mem_cons_of_mem _ other)
    · rw [modifyFirst, if_neg first] at member
      rcases mem_cons.mp member with same | other
      · exact .inl (same ▸ mem_cons_self)
      · rcases ih other with kept | ⟨old, found, changed⟩
        · exact .inl (mem_cons_of_mem _ kept)
        · exact .inr ⟨old, by rw [List.find?_cons_of_neg first, found], changed⟩

/-- A search finds what it found, or the changed item in its place. -/
theorem find?_modifyFirst {items : List α}
    (alike : ∀ old, items.find? chosen = some old → wanted (change old) = wanted old) :
    (modifyFirst chosen change items).find? wanted = items.find? wanted ∨
      ∃ old, items.find? wanted = some old ∧ items.find? chosen = some old ∧
        (modifyFirst chosen change items).find? wanted = some (change old) := by
  induction items with
  | nil => exact .inl rfl
  | cons head rest ih =>
    by_cases first : chosen head = true
    · have same := alike head (List.find?_cons_of_pos first)
      rw [modifyFirst, if_pos first]
      by_cases sought : wanted head = true
      · exact .inr ⟨head, List.find?_cons_of_pos sought, List.find?_cons_of_pos first,
          List.find?_cons_of_pos (same.trans sought)⟩
      · have unsought : ¬ wanted (change head) = true := by rwa [same]
        rw [List.find?_cons_of_neg sought, List.find?_cons_of_neg unsought]
        exact .inl rfl
    · rw [List.find?_cons_of_neg first] at alike
      rw [modifyFirst, if_neg first, List.find?_cons_of_neg first]
      by_cases sought : wanted head = true
      · rw [List.find?_cons_of_pos sought, List.find?_cons_of_pos sought]
        exact .inl rfl
      · rw [List.find?_cons_of_neg sought, List.find?_cons_of_neg sought]
        exact ih alike

/-- The chosen item is found changed. -/
theorem find?_modifyFirst_self {items : List α} {old : α} (found : items.find? chosen = some old)
    (still : chosen (change old) = true) :
    (modifyFirst chosen change items).find? chosen = some (change old) := by
  induction items with
  | nil => cases found
  | cons head rest ih =>
    by_cases first : chosen head = true
    · rw [List.find?_cons_of_pos first] at found
      cases found
      rw [modifyFirst, if_pos first, List.find?_cons_of_pos still]
    · rw [List.find?_cons_of_neg first] at found
      rw [modifyFirst, if_neg first, List.find?_cons_of_neg first]
      exact ih found

end ModifyFirst

variable {registry after : Registry} {org stored : Org} {node updated : Node}

variable {orgId nodeId : String}

theorem getOrg_eq_ok : registry.getOrg orgId = .ok org ↔
    registry.org? orgId = some org := by
  unfold getOrg
  cases registry.org? orgId with
  | none | some found => simp

theorem getNode_eq_ok : registry.getNode orgId nodeId = .ok node ↔
    registry.node? (some orgId) nodeId = some node := by
  unfold getNode
  cases registry.node? (some orgId) nodeId with
  | none | some found => simp

theorem id_of_org? (found : registry.org? orgId = some org) : org.id = orgId := by
  simpa using List.find?_some found

theorem isNode_of_node? {orgId : Option String} (found : registry.node? orgId nodeId = some node) :
    isNode orgId nodeId node = true :=
  List.find?_some found

theorem isNode_some :
    isNode (some orgId) nodeId node = true ↔ node.id = nodeId ∧ node.orgId = orgId := by
  simp [isNode]

theorem insertOrg_eq_ok (inserted : registry.insertOrg org = .ok (stored, after)) :
    stored = org ∧ registry.org? org.id = none ∧ after = ⟨registry.orgs ++ [org], registry.nodes⟩ := by
  unfold insertOrg at inserted
  split_ifs at inserted with taken
  cases inserted
  refine ⟨rfl, ?_, rfl⟩
  rw [org?, List.find?_eq_none]
  intro other listed same
  exact taken (any_eq_true.mpr ⟨other, listed, same⟩)

theorem updateOrg_eq_ok (written : registry.updateOrg org = .ok (stored, after)) :
    stored = org ∧ (∃ old, registry.org? org.id = some old) ∧ after = registry.withOrg org := by
  unfold updateOrg at written
  split at written
  · cases written
  · split at written
    · cases written
    · rename_i old found
      cases written
      exact ⟨rfl, ⟨old, found⟩, rfl⟩

/-- An inserted node has an id of its own and an owner among the members. -/
theorem insertNode_eq_ok (inserted : registry.insertNode node = .ok (updated, after)) :
    updated = node ∧ (∃ org, registry.org? node.orgId = some org ∧
      hasMember org node.ownerEmail = true) ∧ (∀ other ∈ registry.nodes, other.id ≠ node.id) ∧
      after = ⟨registry.orgs, registry.nodes ++ [node]⟩ := by
  unfold insertNode at inserted
  split at inserted
  · cases inserted
  · rename_i org found
    split_ifs at inserted with stranger taken
    cases inserted
    refine ⟨rfl, ⟨org, found, by simpa using stranger⟩, ?_, rfl⟩
    intro other listed same
    exact taken (any_eq_true.mpr ⟨other, listed, by simpa using same⟩)

theorem tryMutateNode_eq_ok {orgId : Option String} {mutate : Node → ControlResult Node}
    (mutated : registry.tryMutateNode orgId nodeId mutate = .ok (updated, after)) :
    ∃ old org, registry.node? orgId nodeId = some old ∧ mutate old = .ok updated ∧
      registry.org? updated.orgId = some org ∧ hasMember org updated.ownerEmail = true ∧
      after = ⟨registry.orgs, modifyFirst (isNode orgId nodeId) (fun _ => updated) registry.nodes⟩ := by
  unfold tryMutateNode at mutated
  split at mutated
  · cases mutated
  · rename_i old found
    split at mutated
    · cases mutated
    · rename_i changed edited
      split at mutated
      · cases mutated
      · rename_i org listed
        split_ifs at mutated with stranger
        cases mutated
        exact ⟨old, org, found, edited, listed, by simpa using stranger, rfl⟩

theorem removeNode_eq_ok (removed : registry.removeNode orgId nodeId = .ok (node, after)) :
    registry.node? (some orgId) nodeId = some node ∧
      after = ⟨registry.orgs, registry.nodes.eraseP (isNode (some orgId) nodeId)⟩ := by
  unfold removeNode at removed
  split at removed
  · cases removed
  · rename_i old found
    cases removed
    exact ⟨found, rfl⟩

/-- Another organisation is found as before; the written one is found if there was one. -/
theorem org?_withOrg (orgId : String) : (registry.withOrg org).org? orgId =
    if orgId = org.id then (registry.org? orgId).map fun _ => org else registry.org? orgId := by
  split_ifs with its
  · subst its
    cases found : registry.org? org.id with
    | none =>
      refine List.find?_eq_none.mpr ?_
      intro other listed same
      have absent := List.find?_eq_none.mp found
      rcases mem_modifyFirst listed with kept | ⟨old, sought, _⟩
      · exact absent other kept same
      · simp [org?, sought] at found
    | some old => exact find?_modifyFirst_self found (beq_self_eq_true _)
  · have alike : ∀ old, registry.orgs.find? (fun other => other.id == org.id) = some old →
        (org.id == orgId) = (old.id == orgId) := by
      intro old found
      have oldId : old.id = org.id := id_of_org? found
      rw [oldId]
    rcases @find?_modifyFirst Org (fun other => other.id == org.id)
      (fun other => other.id == orgId) (fun _ => org) registry.orgs alike with same | changed
    · exact same
    · obtain ⟨old, sought, found, _⟩ := changed
      have oldId : old.id = orgId := id_of_org? sought
      have newId : old.id = org.id := id_of_org? found
      exact absurd (oldId.symm.trans newId) its

/-- A node whose id and organisation the change keeps is found as before or changed. -/
theorem node?_modified {orgId : Option String} {old : Node}
    (found : registry.node? orgId nodeId = some old) (sameId : updated.id = old.id)
    (sameOrg : updated.orgId = old.orgId) (itsOrg itsId : String) :
    (Registry.mk registry.orgs
        (modifyFirst (isNode orgId nodeId) (fun _ => updated) registry.nodes)).node?
          (some itsOrg) itsId = registry.node? (some itsOrg) itsId ∨
      registry.node? (some itsOrg) itsId = some old ∧
        (Registry.mk registry.orgs
          (modifyFirst (isNode orgId nodeId) (fun _ => updated) registry.nodes)).node?
            (some itsOrg) itsId = some updated := by
  have alike : ∀ first, registry.nodes.find? (isNode orgId nodeId) = some first →
      isNode (some itsOrg) itsId updated = isNode (some itsOrg) itsId first := by
    intro first sought
    cases found.symm.trans sought
    simp [isNode, sameId, sameOrg]
  rcases find?_modifyFirst alike with same | ⟨first, sought, chosen, changed⟩
  · exact .inl same
  · cases found.symm.trans chosen
    exact .inr ⟨sought, changed⟩

/-- Taking one node out leaves every other in its place. -/
theorem find?_eraseP {α : Type} {chosen wanted : α → Bool} (items : List α)
    (apart : ∀ item, chosen item = true → wanted item = false) :
    (items.eraseP chosen).find? wanted = items.find? wanted := by
  induction items with
  | nil => rfl
  | cons head rest ih =>
    by_cases first : chosen head = true
    · have unsought : ¬ wanted head = true := by simp [apart head first]
      rw [eraseP_cons_of_pos first, List.find?_cons_of_neg unsought]
    · rw [eraseP_cons_of_neg first]
      by_cases sought : wanted head = true
      · rw [List.find?_cons_of_pos sought, List.find?_cons_of_pos sought]
      · rw [List.find?_cons_of_neg sought, List.find?_cons_of_neg sought, ih]

end Registry

/-! ### Members -/

/-- Addresses as the handlers store them. -/
def Normal (members : List String) : Prop := ∀ member ∈ members, toAsciiLowercase member = member

theorem toAsciiLowercase_idem {text : String} :
    toAsciiLowercase (toAsciiLowercase text) = toAsciiLowercase text := by
  simp only [toAsciiLowercase, String.toList_ofList, map_map]
  congr 2
  funext char
  exact Char.toLower_toLower_eq_toLower char

theorem normalizeEmail_lower (text : String) :
    toAsciiLowercase (normalizeEmail text) = normalizeEmail text :=
  toAsciiLowercase_idem

theorem normal_normalizeMembers {normalized members result : List String}
    (normal : Normal normalized)
    (accepted : normalizeMembers normalized members = .ok result) : Normal result := by
  induction members generalizing normalized with
  | nil =>
    cases accepted
    exact normal
  | cons member rest ih =>
    simp only [normalizeMembers] at accepted
    split_ifs at accepted with refused known
    · exact ih normal accepted
    · refine ih ?_ accepted
      intro email listed
      rcases mem_append.mp listed with old | new
      · exact normal email old
      · rw [mem_singleton.mp new]
        exact normalizeEmail_lower member

/-- Among stored addresses, one in lower case is a member exactly if it is listed. -/
theorem mem_of_hasMember {org : Org} {email : String} (normal : Normal org.members)
    (lower : toAsciiLowercase email = email) (member : hasMember org email = true) :
    email ∈ org.members := by
  obtain ⟨listed, inOrg, same⟩ := any_eq_true.mp member
  have equal : toAsciiLowercase listed = toAsciiLowercase email := by
    simpa [eqIgnoreAsciiCase] using same
  rw [normal listed inOrg, lower] at equal
  exact equal ▸ inOrg

end Synergos.ControlStore
