import FleetUpgrade.Proofs.CommandRuns
import FleetUpgrade.Proofs.StepCollections
import FleetUpgrade.Proofs.UpdatedModels

/-! # The fleet of an upgraded store

The second step of the upgrade writes the controller's UUID into every model, and
no later step is about models. The agents are then told the UUID that the first
model of the store holds, which is that of the upgrade.
-/

namespace FleetUpgrade

open CollectionName
open SnapshotStore (snapshot)

/-! ## Models that are pointed at a controller -/

/-- There are models, and every one is pointed at the controller. -/
structure Snapshot.ModelsOf (s : Snapshot) (uuid : String) : Prop where
  inhabited : ∃ id d, s.find? models id = some d
  pointed : ∀ id d, s.find? models id = some d → d.get? "controller-uuid" = some (.string uuid)

section

variable {s s' : Snapshot} {uuid : String} {disk : Disk} {vars vars' : Variables} {plan : StepPlan}

theorem Snapshot.ModelsOf.congr (h : s.ModelsOf uuid)
    (hsame : s'.collections.get? models = s.collections.get? models) : s'.ModelsOf uuid := by
  have hfind := Snapshot.find?_congr hsame
  exact ⟨hfind ▸ h.inhabited, hfind ▸ h.pointed⟩

/-- The controller step finds the controller's own model, and leaves the models and the UUID. -/
theorem model_of_updateController {directory : String}
    (hplan : (updateController directory).plan s.view disk vars = .ok (plan, vars'))
    (happly : plan.applyTo s = .ok s') :
    (∃ id d, s'.find? models id = some d) ∧ vars'.controllerUuid = vars.controllerUuid := by
  have havoids : (updateController directory).Avoids models :=
    (updateController_confined directory).avoids (by decide)
  obtain ⟨hops, hdrops⟩ := havoids hplan
  have hsame := Snapshot.find?_congr (StepPlan.applyTo_other happly hops hdrops)
  obtain ⟨facts, hfacts, hplanned⟩ := Except.map_eq_ok.1 hplan
  cases hplanned
  unfold ControllerFacts.read at hfacts
  obtain ⟨_, -, hfacts⟩ := Except.bind_eq_ok.1 hfacts
  obtain ⟨_, -, hfacts⟩ := Except.bind_eq_ok.1 hfacts
  obtain ⟨id, -, hfacts⟩ := Except.bind_eq_ok.1 hfacts
  obtain ⟨d, hmodel, -⟩ := Except.bind_eq_ok.1 hfacts
  rw [hsame]
  exact ⟨⟨id, d, fetch_eq_ok_iff.1 hmodel⟩, rfl⟩

theorem modelsOf_of_updateModels {agentVersion : String} (hk : s.Keyed)
    (hinhabited : ∃ id d, s.find? models id = some d)
    (hplan : (updateModels agentVersion).plan s.view disk vars = .ok (plan, vars'))
    (happly : plan.applyTo s = .ok s') : s'.ModelsOf vars.controllerUuid := by
  obtain ⟨after, hdone, rfl⟩ := StepPlan.applyTo_ok_iff.1 happly
  obtain ⟨cloud, credential, -, -, hdrops, -, -, hupdated⟩ :=
    ModelUpdate.modelsUpdated_of_apply hk hplan hdone
  rw [hdrops]
  change after.ModelsOf vars.controllerUuid
  constructor
  · obtain ⟨id, d, hd⟩ := hinhabited
    obtain ⟨d', hd', -⟩ := hupdated.model id d hd
    exact ⟨id, d', hd'⟩
  · intro id d' hd'
    obtain ⟨_, -, hpointed⟩ := hupdated.model_origin hd'
    exact hpointed.controller

end

namespace Migration

variable {σ : Type} [DocumentStore σ] [SnapshotStore σ]

/-- The models are pointed at the controller by the first two steps, and no later one is about
them. -/
theorem modelsOf_of_takeSteps (options : UpgradeOptions) {vars : Variables} {site : Site σ}
    {reports : List StepReport} (hk : (snapshot site.store).Keyed)
    (h : (takeSteps .live (upgradeSteps options) vars site).result = .ok reports) :
    (snapshot (takeSteps .live (upgradeSteps options) vars site).site.store).ModelsOf
      vars.controllerUuid := by
  have hsteps : upgradeSteps options = updateController options.certDirectory ::
      updateModels options.agentVersion :: (upgradeSteps options).drop 2 := rfl
  rw [hsteps] at h ⊢
  obtain ⟨plan, vars', after, rest, hplan, hexecute, htail, -⟩ := takeSteps_cons_ok h
  obtain ⟨plan', vars'', pointed, rest', hplan', hexecute', hlater, -⟩ := takeSteps_cons_ok htail
  rw [takeSteps_cons _ hplan hexecute, takeSteps_cons _ hplan' hexecute']
  rw [SnapshotStore.view_eq] at hplan hplan'
  have happly := (StepPlan.execute_live_ok SnapshotStore.followed hexecute).1
  have happly' := (StepPlan.execute_live_ok SnapshotStore.followed hexecute').1
  obtain ⟨hinhabited, huuid⟩ := model_of_updateController hplan happly
  have hmodels := modelsOf_of_updateModels (StepPlan.applyTo_keyed hk happly) hinhabited hplan'
    happly'
  rw [huuid] at hmodels
  exact hmodels.congr ((taken_of_takeSteps hlater).avoided
    (upgradeSteps_avoid options (by decide) (by decide) (by decide)))

theorem modelsOf_of_upgrade (options : UpgradeOptions) {vars : Variables} {site : Site σ}
    {reports : List StepReport} (hk : (snapshot site.store).Keyed)
    (hempty : (snapshot site.store).pending = [])
    (h : ((upgrade options).run .live vars site).result = .ok reports) :
    (snapshot ((upgrade options).run .live vars site).site.store).ModelsOf vars.controllerUuid := by
  obtain ⟨ready, hstart, hrun⟩ := takeSteps_of_run rfl hempty h
  rw [hrun] at h ⊢
  rw [← hstart] at hk
  exact modelsOf_of_takeSteps options hk h

end Migration

/-! ## The UUID that the agents are told -/

theorem Inventory.documents_view (s : Snapshot) (name : String) :
    documents s.view name = .ok (s.documents name) := by
  have hall : s.select name .all = s.documents name := List.filter_eq_self.2 fun _ _ => rfl
  change Except.ok (s.select name .all) = _
  rw [hall]

/-- The reader looks at one model, and any would do. -/
theorem Snapshot.ModelsOf.controllerUuid {s : Snapshot} {uuid : String} (h : s.ModelsOf uuid)
    (hne : uuid ≠ "") : Inventory.controllerUuid s.view = .ok uuid := by
  unfold Inventory.controllerUuid
  rw [Inventory.documents_view]
  cases hdocs : s.documents models with
  | nil =>
      obtain ⟨id, d, hd⟩ := h.inhabited
      have hmem : d ∈ s.documents models := (Table.mem_values_iff _ _).2 ⟨id, hd⟩
      rw [hdocs] at hmem
      exact absurd hmem List.not_mem_nil
  | cons first rest =>
      have hmem : first ∈ s.documents models := hdocs ▸ List.mem_cons_self
      obtain ⟨id, hfirst⟩ := (Table.mem_values_iff _ _).1 hmem
      have hplain : Path.segments "controller-uuid" = ["controller-uuid"] := by decide +kernel
      have hfield := (Document.getString?_eq_ok_some_iff hplain).2 (h.pointed id first hfirst)
      simp [hfield, Inventory.inEntry, Except.mapError, hne, bind, Except.bind]

/-! ## The command that tells the agents -/

namespace Command

theorem withAddress_eq (addresses : List String) (machines : List FleetMachine) :
    withAddress addresses machines =
      machines.filter fun m => addresses = [] ∨ m.address ∈ addresses := by
  unfold withAddress
  cases addresses with
  | nil => simp
  | cons address addresses => simp

theorem upgradeAgents_sends {σ : Type} [DocumentStore σ] {session : Session σ} {inv : Inventory}
    {uuid : String}
    (huuid : Inventory.controllerUuid (DocumentStore.view session.site.store) = .ok uuid)
    (hload : Inventory.load (DocumentStore.view session.site.store) = .ok inv)
    (tools : String) (addresses : List String) :
    (upgradeAgents tools addresses).Sends
      (upgradeAgentsJob session.config session.context tools uuid)
      (inv.allMachines.filter fun m => addresses = [] ∨ m.address ∈ addresses) session := by
  refine .of_run ?_
  unfold upgradeAgents
  rw [run_bind_ok run_get, run_bind_ok run_view, run_bind_ok (run_ofInventory huuid),
    run_bind_ok (run_inventory hload), withAddress_eq]

end Command

/-! ## From the upgrade of the store to that of the agents -/

namespace Migration

def mannedController : Snapshot :=
  let entries : List Sample.Entry :=
    [Sample.machine "m" "0" "10.0.0.1", Sample.machine "m" "1" "10.0.0.2",
      Sample.machine "m" "2" "10.0.0.2"]
  ⟨entries.foldl Sample.Entry.addTo bareController.collections, []⟩

def mannedSite : Site MemoryStore := ⟨⟨mannedController⟩, .ofDirectories ["/w"], .empty⟩

def liveSession (store : MemoryStore) : Session MemoryStore :=
  ⟨.standard, ⟨.live, .normal⟩, ⟨Dispatcher.defaultUser, .ofHosts fun _ => none, Dispatcher.inOrder⟩,
    ⟨store, .empty, .empty⟩, .empty, []⟩

end Migration
end FleetUpgrade
