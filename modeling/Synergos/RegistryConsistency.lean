import Synergos.RegistryUpdates

/-!
# The registry in every run

Whatever requests run at the same time and whichever saves fail, organisations and nodes have
ids of their own, and the owner of a node is a member of its organisation. A heartbeat is let in
with the key that was issued last for its node.
-/

namespace Synergos.RegistryConsistency

open ControlStore ControlWorld Registry RegistryUpdates Runs List

structure Consistent (registry : Registry) : Prop where
  orgs : (registry.orgs.map Org.id).Nodup
  nodes : (registry.nodes.map Node.id).Nodup
  owners : ∀ node ∈ registry.nodes, ∃ org, registry.org? node.orgId = some org ∧
    hasMember org node.ownerEmail = true

section Operations

variable {registry after : Registry} {org stored : Org} {node updated : Node}
  {orgId : Option String} {nodeId : String} {mutate : Node → ControlResult Node}

/-- A change of one item that keeps a field keeps the list of that field. -/
theorem map_modifyFirst {α β : Type} {chosen : α → Bool} {change : α → α} {items : List α}
    (field : α → β)
    (kept : ∀ old, items.find? chosen = some old → field (change old) = field old) :
    (modifyFirst chosen change items).map field = items.map field := by
  induction items with
  | nil => rfl
  | cons head rest ih =>
    by_cases first : chosen head = true
    · simp [modifyFirst, first, kept head (List.find?_cons_of_pos first)]
    · simp only [List.find?_cons_of_neg first] at kept
      simp [modifyFirst, first, ih kept]

/-- The nodes after a change are the nodes before it and the changed one. -/
theorem forall_mutated {holds : Node → Prop}
    (mutated : registry.tryMutateNode orgId nodeId mutate = .ok (updated, after))
    (others : ∀ other ∈ registry.nodes, holds other)
    (its : ∀ old ∈ registry.nodes, mutate old = .ok updated → holds updated) :
    ∀ other ∈ after.nodes, holds other := by
  obtain ⟨old, _, found, edited, _, _, rfl⟩ := tryMutateNode_eq_ok mutated
  intro other listed
  rcases mem_modifyFirst listed with kept | ⟨_, _, rfl⟩
  · exact others other kept
  · exact its old (mem_of_find?_eq_some found) edited

variable (consistent : Consistent registry)

include consistent

theorem Consistent.insertOrg (inserted : registry.insertOrg org = .ok (stored, after)) :
    Consistent after := by
  obtain ⟨_, fresh, rfl⟩ := insertOrg_eq_ok inserted
  refine ⟨?_, consistent.nodes, ?_⟩
  · simpa [nodup_append, consistent.orgs, org?] using fresh
  · intro node listed
    obtain ⟨itsOrg, found, member⟩ := consistent.owners node listed
    unfold org? at found ⊢
    exact ⟨itsOrg, by rw [find?_append, found, Option.some_or], member⟩

/-- An organisation is only written if the owners of its nodes stay members. -/
theorem Consistent.updateOrg (written : registry.updateOrg org = .ok (stored, after)) :
    Consistent after := by
  obtain ⟨_, _, rfl⟩ := updateOrg_eq_ok written
  refine ⟨?_, consistent.nodes, ?_⟩
  · rw [withOrg, map_modifyFirst Org.id fun old found => (id_of_org? found).symm]
    exact consistent.orgs
  · intro node listed
    obtain ⟨itsOrg, found, member⟩ := consistent.owners node listed
    rw [org?_withOrg]
    split_ifs with its
    · refine ⟨org, by rw [found, Option.map_some], ?_⟩
      unfold Registry.updateOrg at written
      split at written
      · cases written
      · rename_i none
        simpa [its] using find?_eq_none.mp none node listed
    · exact ⟨itsOrg, found, member⟩

theorem Consistent.insertNode (inserted : registry.insertNode node = .ok (updated, after)) :
    Consistent after := by
  obtain ⟨_, owner, fresh, rfl⟩ := insertNode_eq_ok inserted
  refine ⟨consistent.orgs, by simpa [nodup_append, consistent.nodes] using fresh, ?_⟩
  exact forall_mem_append.mpr ⟨consistent.owners, forall_mem_singleton.mpr owner⟩

theorem Consistent.tryMutateNode
    (mutated : registry.tryMutateNode orgId nodeId mutate = .ok (updated, after))
    (sameId : ∀ old, mutate old = .ok updated → updated.id = old.id) : Consistent after := by
  obtain ⟨old, org, found, edited, foundOrg, member, rfl⟩ := tryMutateNode_eq_ok mutated
  refine ⟨consistent.orgs, ?_, ?_⟩
  · rw [map_modifyFirst Node.id]
    · exact consistent.nodes
    · intro first sought
      cases found.symm.trans sought
      exact sameId old edited
  · exact forall_mutated mutated consistent.owners fun _ _ _ => ⟨org, foundOrg, member⟩

theorem Consistent.commits {blake3 : String → String} {task : Task} {answer : Answer}
    (commits : Commits blake3 registry task answer after) : Consistent after := by
  cases commits with
  | createOrg _ inserted => exact consistent.insertOrg inserted
  | updateOrg _ written => exact consistent.updateOrg written
  | register inserted => exact consistent.insertNode inserted
  | patch mutated | reissue mutated =>
    refine consistent.tryMutateNode mutated ?_
    rintro old ⟨⟩
    rfl
  | remove removed =>
    obtain ⟨_, rfl⟩ := removeNode_eq_ok removed
    exact ⟨consistent.orgs, consistent.nodes.sublist (eraseP_sublist.map Node.id),
      fun other listed => consistent.owners other (mem_of_mem_eraseP listed)⟩
  | heartbeat mutated =>
    refine consistent.tryMutateNode mutated fun old edited => ?_
    obtain ⟨_, rfl⟩ := heartbeat_eq_ok edited
    rfl
  | report _ => exact consistent

end Operations

/-! ### Runs -/

section Runs

variable {blake3 : String → String} {registry after start : Registry} {task : Task}
  {answer : Answer} {world : World}

/-- What every answered request keeps holds in every run. -/
theorem registry_invariant (holds : Registry → List (Request × Answer) → Prop)
    (initial : holds start [])
    (step : ∀ {registry acknowledged task answer after}, holds registry acknowledged →
      Commits blake3 registry task answer after →
      holds after (acknowledged ++ [(task.request, answer)]))
    (run : Reaches (system blake3) (World.initial start) world) :
    holds world.registry world.acknowledged := by
  refine run.invariant (fun world => holds world.registry world.acknowledged) initial ?_
  intro world action _ _ held
  change holds (apply blake3 world action).registry (apply blake3 world action).acknowledged
  rcases registry_apply blake3 world action with
    ⟨same, listed⟩ | ⟨_, _, _, _, _, _, answered, listed⟩
  · rwa [same, listed]
  · rw [listed]
    exact step held (commits_of_advance answered)

/-- In every interleaving of requests, with any save failing, ids stay unique and every node
belongs to an organisation that has its owner as a member. -/
theorem registry_consistent (blake3 : String → String) (start : Registry)
    (consistent : Consistent start) (world : World)
    (run : Reaches (system blake3) (World.initial start) world) : Consistent world.registry :=
  registry_invariant (fun registry _ => Consistent registry) consistent
    (fun held commits => held.commits commits) run

/-! ### Keys -/

/-- The hash of a node's key after one more request was answered. -/
def hashAfter (blake3 : String → String) (nodeId : String) (hash : Option String) :
    Request × Answer → Option String
  | (_, .registered view _ key _) => if view.id = nodeId then some (blake3 key) else hash
  | (.reissueNodeKey _ reissued, .nodeKey key) =>
    if reissued = nodeId then some (blake3 key) else hash
  | _ => hash

/-- The hash of the key that was issued last for a node, if the start has these hashes. -/
def issuedHash (blake3 : String → String) (hashes : String → Option String)
    (acknowledged : List (Request × Answer)) (nodeId : String) : Option String :=
  acknowledged.foldl (hashAfter blake3 nodeId) (hashes nodeId)

theorem keyed_commits (hashes : String → Option String) (consistent : Consistent registry)
    (commits : Commits blake3 registry task answer after)
    (keyed : ∀ node ∈ registry.nodes, node.nodeKeyHash = hashes node.id) :
    ∀ node ∈ after.nodes,
      node.nodeKeyHash = hashAfter blake3 node.id (hashes node.id) (task.request, answer) := by
  have now := consistent.commits commits
  cases commits with
  | createOrg _ inserted =>
    obtain ⟨_, _, rfl⟩ := insertOrg_eq_ok inserted
    exact keyed
  | updateOrg _ written =>
    obtain ⟨_, _, rfl⟩ := updateOrg_eq_ok written
    exact keyed
  | register inserted =>
    obtain ⟨rfl, _, fresh, rfl⟩ := insertNode_eq_ok inserted
    refine forall_mem_append.mpr ⟨fun node earlier => ?_, ?_⟩
    · simpa [hashAfter, nodeView, (fresh node earlier).symm] using keyed node earlier
    · simp [hashAfter, nodeView, Registering.node]
  | patch mutated =>
    refine forall_mutated mutated keyed ?_
    rintro old listed ⟨⟩
    exact keyed old listed
  | remove removed =>
    obtain ⟨_, rfl⟩ := removeNode_eq_ok removed
    exact fun node listed => keyed node (mem_of_mem_eraseP listed)
  | heartbeat mutated =>
    refine forall_mutated mutated keyed fun old listed edited => ?_
    obtain ⟨_, rfl⟩ := heartbeat_eq_ok edited
    exact keyed old listed
  | @reissue orgId nodeId nodeKey nowMs updated _ mutated =>
    obtain ⟨old, _, found, edited, _, _, rfl⟩ := tryMutateNode_eq_ok mutated
    have before := isNode_some.mp (isNode_of_node? found)
    have its : isNode (some orgId) nodeId updated = true := by
      cases edited
      exact isNode_some.mpr before
    have written := @find?_modifyFirst_self _ _ (fun _ => updated) _ _ found its
    intro node listed
    by_cases same : nodeId = node.id
    · -- No other node has the id of the one that was changed.
      obtain rfl := inj_on_of_nodup_map now.nodes listed (mem_of_find?_eq_some written)
        (same.symm.trans (isNode_some.mp its).1.symm)
      cases edited
      simp [hashAfter, Task.request, same]
    · rcases mem_modifyFirst listed with kept | ⟨_, _, rfl⟩
      · simpa [hashAfter, Task.request, same] using keyed node kept
      · exact absurd (isNode_some.mp its).1.symm same
  | report _ => exact keyed

/-- In every run, a heartbeat is only let in with the key that was issued last for its node, in
an answer of the run or before it. -/
theorem heartbeat_has_last_key (blake3 : String → String) (start : Registry)
    (consistent : Consistent start) (hashes : String → Option String)
    (stored : ∀ node ∈ start.nodes, node.nodeKeyHash = hashes node.id) (world : World)
    (run : Reaches (system blake3) (World.initial start) world) (key : String)
    (request : HeartbeatRequest) (env : Environment) (answer : Answer) (after : Registry)
    (accepted : advance blake3 world.registry env (.heartbeat (some key) request) =
      .answers answer after) :
    issuedHash blake3 hashes world.acknowledged request.nodeId = some (blake3 key) := by
  obtain ⟨_, keyed⟩ : Consistent world.registry ∧ ∀ node ∈ world.registry.nodes,
      node.nodeKeyHash = issuedHash blake3 hashes world.acknowledged node.id := by
    refine registry_invariant (fun registry acknowledged => Consistent registry ∧
      ∀ node ∈ registry.nodes, node.nodeKeyHash = issuedHash blake3 hashes acknowledged node.id)
      ⟨consistent, stored⟩ ?_ run
    rintro registry acknowledged task answer after ⟨now, keyed⟩ commits
    refine ⟨now.commits commits, ?_⟩
    simpa [issuedHash] using keyed_commits (issuedHash blake3 hashes acknowledged) now commits keyed
  cases commits_of_advance accepted with
  | heartbeat mutated =>
    obtain ⟨old, _, found, edited, _⟩ := tryMutateNode_eq_ok mutated
    have its : old.id = request.nodeId := by simpa [isNode] using isNode_of_node? found
    rw [← its, ← keyed old (mem_of_find?_eq_some found)]
    unfold HeartbeatRequest.edit at edited
    split_ifs at edited with wrong
    exact not_not.mp wrong
  | report reconciles => cases reconciles

end Runs

/-! ### A device is registered -/

def enrolling : List Action :=
  [.arrive 0 (.registerNode "acme" ⟨"Laptop", "alice@acme.test", .clientDevice, none⟩),
    .run 0 calm, .run 0 calm]

def enrolled : World := enrolling.foldl (apply id) (World.initial acme)

theorem enrolled_reached : Reaches (system id) (World.initial acme) enrolled :=
  .follow enrolling .start ⟨rfl, trivial, rfl, trivial, rfl, trivial, trivial⟩

theorem acme_consistent : Consistent acme := ⟨by decide, by decide, nofun⟩

theorem enrolled_consistent : enrolled.registry.nodes ≠ [] ∧ Consistent enrolled.registry :=
  ⟨by decide +kernel, registry_consistent id acme acme_consistent _ enrolled_reached⟩

theorem enrolled_heartbeat :
    issuedHash id (fun _ => none) enrolled.acknowledged calm.nodeId = some calm.nodeKey :=
  heartbeat_has_last_key id acme acme_consistent _ nofun _ enrolled_reached calm.nodeKey
    ⟨calm.nodeId, "peer", none, none⟩ calm _ _ rfl

end Synergos.RegistryConsistency
