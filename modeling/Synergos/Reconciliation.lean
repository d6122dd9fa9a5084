import Synergos.ControlWorld

/-!
# Reconciliation and registered participants

A reconciliation reads the registry, then asks the service for its connectors and
devices, and revokes what the registry that it read does not account for. Meanwhile a
registration may have created a connector that is in no registry yet, or have put it
there since, and an organisation may have got a member.

Where no registration has a connector of its own when the registry is read, and no
connector is created and no organisation written until the reconciliation is done,
what it revokes belongs to nobody.
-/

namespace Synergos.Reconciliation

open ControlStore ControlWorld Runs List ControlStore.Registry

/-! ### What is dark -/

variable {orgs : List Org} {nodes : List Node} {connectors : List MeshConnector}
  {registrations : List DeviceRegistration} {nowMs : UInt64}

theorem unknown_of_dark {connector : MeshConnector}
    (dark : connector ∈ (classify orgs nodes connectors registrations nowMs).darkConnectors)
    {node : Node} (listed : node ∈ nodes) : node.cfConnectorId ≠ some connector.id := by
  have unmatched : nodeOfConnector nodes connector = none := by
    simpa using (mem_filter.mp dark).2
  have differs := List.find?_eq_none.mp unmatched node listed
  simpa using differs

theorem stranger_of_dark {device : DeviceRegistration}
    (dark : device ∈ (classify orgs nodes connectors registrations nowMs).darkDevices)
    {email : String} (itsUser : device.userEmail = some email) {org : Org} (listed : org ∈ orgs) :
    hasMember org email = false := by
  have unowned : ownerOrgIds orgs device = [] := by
    simpa using (Bool.and_eq_true_iff.mp (mem_filter.mp dark).2).2
  simp only [ownerOrgIds, itsUser, map_eq_nil_iff, filter_eq_nil_iff] at unowned
  simpa using unowned org listed

/-! ### Tasks -/

/-- The connector of a registration in progress that may still succeed. -/
def holding : Task → Option String
  | .registerToken _ connector => some connector
  | .registerInsert _ connector _ => connector
  | _ => none

/-- A reconciliation that has read the registry and is to revoke what is dark. -/
def revoking : Task → Bool
  | .reconcileConnectors revokeDark _ | .reconcileDevices revokeDark _ _ => revokeDark
  | .reconcileRevoke _ | .reconcileDelete _ _ => true
  | _ => false

/-- The task creates a connector, or writes an organisation, when it runs. -/
def enlarging : Task → Bool
  | .registerConnect _ | .createOrg _ | .updateOrgWrite _ _ _ => true
  | _ => false

/-- No node has one of the connectors. -/
def Unclaimed (registry : Registry) (connectors : List MeshConnector) : Prop :=
  ∀ connector ∈ connectors, ∀ node ∈ registry.nodes, node.cfConnectorId ≠ some connector.id

/-- No user of one of the devices is a member of an organisation. -/
def Strangers (registry : Registry) (devices : List DeviceRegistration) : Prop :=
  ∀ device ∈ devices, ∀ email, device.userEmail = some email →
    ∀ org ∈ registry.orgs, hasMember org email = false

/-- The organisations are the same and each connector is one of the other registry. -/
structure Within (registry snapshot : Registry) : Prop where
  orgs : registry.orgs = snapshot.orgs
  connectors : ∀ node ∈ registry.nodes, ∀ connector, node.cfConnectorId = some connector →
    ∃ old ∈ snapshot.nodes, old.cfConnectorId = some connector

/-- What a reconciliation has found out is still true of the registry. -/
def Accurate (registry : Registry) : Task → Prop
  | .reconcileConnectors true snapshot | .reconcileDevices true snapshot _ =>
    Within registry snapshot
  | .reconcileRevoke report =>
    Unclaimed registry report.darkConnectors ∧ Strangers registry report.darkDevices
  | .reconcileDelete _ connectors => Unclaimed registry connectors
  | _ => True

section Tasks

variable {blake3 : String → String} {registry after snapshot : Registry} {task next : Task}
  {answer : Answer}

theorem Within.refl (registry : Registry) : Within registry registry :=
  ⟨rfl, fun node listed _ its => ⟨node, listed, its⟩⟩

theorem Within.trans {middle : Registry} (first : Within after middle)
    (second : Within middle snapshot) : Within after snapshot := by
  refine ⟨first.orgs.trans second.orgs, ?_⟩
  intro node listed connector its
  obtain ⟨old, oldListed, oldIts⟩ := first.connectors node listed connector its
  exact second.connectors old oldListed connector oldIts

variable (request : Request)

theorem Unclaimed.within (unclaimed : Unclaimed registry connectors)
    (within : Within after registry) : Unclaimed after connectors := by
  intro connector dark node listed its
  obtain ⟨old, oldListed, oldIts⟩ := within.connectors node listed connector.id its
  exact unclaimed connector dark old oldListed oldIts

theorem Strangers.within {devices : List DeviceRegistration}
    (strangers : Strangers registry devices)
    (within : Within after registry) : Strangers after devices := by
  intro device dark email itsUser org listed
  rw [within.orgs] at listed
  exact strangers device dark email itsUser org listed

/-- What a reconciliation has found out outlives a change that brings nothing new. -/
theorem Accurate.within (accurate : Accurate registry task) (within : Within after registry) :
    Accurate after task := by
  cases task with
  | reconcileConnectors revokeDark snapshot | reconcileDevices revokeDark snapshot connectors =>
    cases revokeDark with
    | true => exact within.trans accurate
    | false => trivial
  | reconcileRevoke report => exact ⟨accurate.1.within within, accurate.2.within within⟩
  | reconcileDelete report connectors => exact Unclaimed.within accurate within
  | _ => trivial

/-- A task that is not revoking has found out nothing. -/
theorem accurate_of_idle (idle : revoking task = false) : Accurate registry task := by
  cases task with
  | reconcileConnectors revokeDark snapshot | reconcileDevices revokeDark snapshot connectors =>
    cases idle
    trivial
  | reconcileRevoke report | reconcileDelete report connectors => cases idle
  | _ => trivial

/-- The next stage of a reconciliation concludes from what the one before found out. -/
theorem Accurate.follow (accurate : Accurate registry task) (follows : Follows registry task next) :
    Accurate registry next := by
  cases follows with
  | @check orgId request org env found address listed =>
    refine accurate_of_idle ?_
    unfold startRegistering
    split <;> rfl
  | @snapshot revokeDark =>
    cases revokeDark with
    | true => exact Within.refl registry
    | false => trivial
  | @listed revokeDark snapshot connectors =>
    cases revokeDark with
    | true => exact accurate
    | false => trivial
  | @classified snapshot connectors registrations nowMs =>
    have within : Within registry snapshot := accurate
    refine ⟨?_, ?_⟩
    · have unknown : Unclaimed snapshot
          (classify snapshot.orgs snapshot.nodes connectors registrations nowMs).darkConnectors :=
        fun connector dark node listed => unknown_of_dark dark listed
      exact unknown.within within
    · have strangers : Strangers snapshot
          (classify snapshot.orgs snapshot.nodes connectors registrations nowMs).darkDevices :=
        fun device dark email itsUser org listed => stranger_of_dark dark itsUser listed
      exact strangers.within within
  | revoked => exact accurate.1
  | deleted => exact fun connector dark => accurate connector (mem_cons_of_mem _ dark)
  | _ => trivial

theorem within_mutated {orgId : Option String} {nodeId : String} {old updated : Node}
    (found : registry.node? orgId nodeId = some old)
    (same : updated.cfConnectorId = old.cfConnectorId) :
    Within ⟨registry.orgs, modifyFirst (isNode orgId nodeId) (fun _ => updated)
      registry.nodes⟩ registry := by
  refine ⟨rfl, ?_⟩
  intro node listed connector its
  rcases mem_modifyFirst listed with kept | ⟨first, sought, changed⟩
  · exact ⟨node, kept, its⟩
  · subst changed
    exact ⟨old, mem_of_find?_eq_some found, same.symm.trans its⟩

/-- A task that writes no organisation and has no connector of its own brings nothing new. -/
theorem within_of_commits (commits : Commits blake3 registry task answer after)
    (small : enlarging task = false) (empty : holding task = none) : Within after registry := by
  cases commits with
  | createOrg _ _ | updateOrg _ _ => cases small
  | @register registering connector token node _ inserted =>
    obtain ⟨_, _, _, rfl⟩ := insertNode_eq_ok inserted
    refine ⟨rfl, ?_⟩
    intro other listed its itsConnector
    rcases mem_append.mp listed with old | new
    · exact ⟨other, old, itsConnector⟩
    · have unconnected : connector = none := empty
      rw [mem_singleton.mp new, unconnected] at itsConnector
      cases itsConnector
  | patch mutated | reissue mutated =>
    obtain ⟨old, _, found, edited, _, _, rfl⟩ := tryMutateNode_eq_ok mutated
    cases edited
    exact within_mutated found rfl
  | remove removed =>
    obtain ⟨_, rfl⟩ := removeNode_eq_ok removed
    exact ⟨rfl, fun node listed _ its => ⟨node, mem_of_mem_eraseP listed, its⟩⟩
  | heartbeat mutated =>
    obtain ⟨old, _, found, edited, _, _, rfl⟩ := tryMutateNode_eq_ok mutated
    obtain ⟨reported, rfl⟩ := heartbeat_eq_ok edited
    exact within_mutated found rfl
  | report _ => exact Within.refl registry

/-- Only a registration that creates a connector comes to hold one. -/
theorem holding_of_follows (follows : Follows registry task next) (small : enlarging task = false)
    (empty : holding task = none) : holding next = none := by
  cases follows with
  | check _ _ _ =>
    unfold startRegistering
    split <;> rfl
  | connect => cases small
  | token => cases empty
  | _ => rfl

theorem holding_task : holding request.task = none := by
  cases request <;> rfl

theorem revoking_task : revoking request.task = false := by
  cases request <;> rfl

/-- A task that starts to revoke has just read the registry, or did so before. -/
theorem revoking_of_follows (follows : Follows registry task next)
    (revokes : revoking next = true) :
    revoking task = true ∨ task = .reconcile true := by
  cases follows with
  | check _ _ _ =>
    unfold startRegistering at revokes
    split at revokes <;> cases revokes
  | snapshot =>
    cases revokes
    exact .inr rfl
  | listed => exact .inl revokes
  | classified | revoked | deleted => exact .inl rfl
  | _ => cases revokes

end Tasks

/-! ### Runs -/

/-- No registration in progress has a connector of its own. -/
def NoneHolding (world : World) : Prop :=
  ∀ id task, world.tasks id = some task → holding task = none

def NoneRevoking (world : World) : Prop :=
  ∀ id task, world.tasks id = some task → revoking task = false

/-- A reconciliation that is to revoke reads the registry while no registration has a
connector of its own; until it is done no connector is created and no organisation is
written. -/
def Exclusive (world : World) : Action → Prop
  | .arrive _ _ => True
  | .run id _ =>
    (world.tasks id = some (.reconcile true) → NoneHolding world) ∧
    ∀ task, world.tasks id = some task → enlarging task = true → NoneRevoking world

/-- What a reconciliation is about to revoke belongs to nobody. -/
structure Spares (world : World) : Prop where
  connectors : ∀ id report connector rest,
    world.tasks id = some (.reconcileDelete report (connector :: rest)) →
      (∀ node ∈ world.registry.nodes, node.cfConnectorId ≠ some connector.id) ∧
      ∀ other task, world.tasks other = some task → holding task ≠ some connector.id
  devices : ∀ id report, world.tasks id = some (.reconcileRevoke report) →
    ∀ device ∈ report.darkDevices, ∀ email, device.userEmail = some email →
      ∀ org ∈ world.registry.orgs, hasMember org email = false

/-- Every reconciliation that is to revoke is accurate, and no registration has a
connector of its own meanwhile. -/
structure Sound (world : World) : Prop where
  accurate : ∀ id task, world.tasks id = some task → Accurate world.registry task
  excluded : ∀ id task, world.tasks id = some task → revoking task = true → NoneHolding world

section Runs

variable {blake3 : String → String} {world : World} {action : Action}

theorem sound_initial (registry : Registry) : Sound (World.initial registry) := by
  refine ⟨?_, ?_⟩
  · intro id task held
    cases held
  · intro id task held
    cases held

/-- The task that runs beside a reconciliation that is to revoke. -/
theorem Exclusive.beside {id : TaskId} {env : Environment} {task : Task}
    (exclusive : Exclusive world (.run id env)) (running : world.tasks id = some task)
    {other : TaskId} {its : Task} (held : world.tasks other = some its)
    (revokes : revoking its = true) : enlarging task = false := by
  by_contra enlarges
  have idle := exclusive.2 task running (by simpa using enlarges) other its held
  simp [revokes] at idle

theorem noneHolding_apply (exclusive : Exclusive world action) (empty : NoneHolding world)
    {id : TaskId} {task : Task} (held : world.tasks id = some task)
    (revokes : revoking task = true) :
    NoneHolding (apply blake3 world action) := by
  intro other its itsHeld
  rcases tasks_apply itsHeld with before | ⟨_, ⟨request, _, rfl⟩ | ⟨old, env, rfl, running, follows⟩⟩
  · exact empty other its before
  · exact holding_task request
  · exact holding_of_follows follows (exclusive.beside running held revokes)
      (empty other old running)

/-- The world just after a registry was read for a revocation. -/
theorem noneHolding_snapshot {id : TaskId} {env : Environment}
    (empty : NoneHolding world) (running : world.tasks id = some (.reconcile true)) :
    NoneHolding (apply blake3 world (.run id env)) := by
  intro other its itsHeld
  rcases tasks_apply itsHeld with before | ⟨_, ⟨request, same, _⟩ | ⟨old, itsEnv, same, itsRunning,
    follows⟩⟩
  · exact empty other its before
  · cases same
  · cases same
    cases running.symm.trans itsRunning
    cases follows
    rfl

theorem Sound.apply (sound : Sound world) (exclusive : Exclusive world action) :
    Sound (apply blake3 world action) := by
  refine ⟨?_, ?_⟩
  · intro id task held
    rcases tasks_apply held with before | ⟨unchanged, ⟨request, _, rfl⟩ | ⟨old, env, _, running,
      follows⟩⟩
    · by_cases revokes : revoking task = true
      · rcases registry_apply blake3 world action with ⟨same, _⟩ | ⟨other, env, its, answer, rfl,
          running, answered, _⟩
        · rw [same]
          exact sound.accurate id task before
        · exact (sound.accurate id task before).within (within_of_commits
            (commits_of_advance answered) (exclusive.beside running before revokes)
            (sound.excluded id task before revokes other its running))
      · exact accurate_of_idle (by simpa using revokes)
    · exact accurate_of_idle (revoking_task request)
    · rw [unchanged]
      exact (sound.accurate id old running).follow follows
  · intro id task held revokes
    rcases tasks_apply held with before | ⟨_, ⟨request, _, rfl⟩ | ⟨old, env, rfl, running, follows⟩⟩
    · exact noneHolding_apply exclusive (sound.excluded id task before revokes) before revokes
    · simp [revoking_task request] at revokes
    · rcases revoking_of_follows follows revokes with already | rfl
      · exact noneHolding_apply exclusive (sound.excluded id old running already) running already
      · exact noneHolding_snapshot (exclusive.1 running) running

theorem Sound.spares (sound : Sound world) : Spares world := by
  refine ⟨?_, ?_⟩
  · intro id report connector rest held
    refine ⟨sound.accurate id _ held connector mem_cons_self, ?_⟩
    intro other task itsHeld its
    simp [sound.excluded id _ held rfl other task itsHeld] at its
  · intro id report held
    exact (sound.accurate id _ held).2

end Runs

/-! ### A registration and a reconciliation -/

def acme : Registry := ⟨[⟨"acme", "Acme", ["alice@acme.test"], 1⟩], []⟩

def connector (id : String) : MeshConnector := ⟨id, "syn-acme", none, none, none⟩

/-- A service that gives out one connector and lists some. -/
def service (connectors : List MeshConnector) : Environment :=
  ⟨true, "11111111-2222", "key", 1, 1, .ok "cf-1", .ok "token", .ok (), .ok connectors, .ok []⟩

/-- There is at most one task. -/
def OnlyTask (world : World) (id : TaskId) : Prop :=
  ∀ other task, world.tasks other = some task → other = id

theorem OnlyTask.exclusive {world : World} {id : TaskId} (only : OnlyTask world id)
    (env : Environment) : Exclusive world (.run id env) := by
  refine ⟨?_, ?_⟩
  · intro running other task held
    cases only other task held
    cases running.symm.trans held
    rfl
  · intro task running enlarges other its held
    cases only other its held
    cases running.symm.trans held
    cases task <;> first | rfl | cases enlarges

theorem OnlyTask.run {world : World} {id : TaskId} (only : OnlyTask world id)
    (env : Environment) (blake3 : String → String) :
    OnlyTask (apply blake3 world (.run id env)) id := by
  intro other task held
  rcases tasks_apply held with before | ⟨_, ⟨request, same, _⟩ | ⟨old, itsEnv, same, _, _⟩⟩
  · exact only other task before
  · cases same
  · cases same
    rfl

/-- A reconciliation beside nothing, until it is about to delete. -/
def undisturbed : List Action :=
  let env := service [connector "cf-1", connector "cf-2"]
  [.arrive 1 (.reconcile true), .run 1 env, .run 1 env, .run 1 env, .run 1 env]

def registration : Request := .registerNode "acme" ⟨"server", "alice@acme.test", .meshNode, none⟩

end Synergos.Reconciliation
