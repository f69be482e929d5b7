import FleetUpgrade.Proofs.CollectionPlans
import FleetUpgrade.Proofs.LiveSteps

/-! # Which collections the steps are about

Whatever a store holds, a step of the upgrade plans operations and drops for a
few collections only, which its text names. Footprints are finer, but hold only
for stores whose documents and models have orderly ids.
-/

namespace FleetUpgrade

open CollectionName

namespace Step

variable {title description : String} {names : List String}

theorem confined_ofTransaction {plan : StoreView → Except StepError Transaction}
    (h : ∀ view ops, plan view = .ok ops → ∀ op ∈ ops, op.collection ∈ names) :
    (Step.ofTransaction title description plan).Confined names := by
  intro view disk vars vars' p hp
  obtain ⟨ops, hops, hpair⟩ := Except.map_eq_ok.1 hp
  cases hpair
  exact ⟨h view ops hops, List.nil_subset _⟩

theorem confined_planEach {collection : String}
    {planOne : Document → Except StepError Transaction}
    (h : ∀ d part, planOne d = .ok part → ∀ op ∈ part, op.collection ∈ names) :
    (Step.ofTransaction title description fun view =>
      view.planEach collection planOne).Confined names := by
  refine confined_ofTransaction fun view ops hplan op hop => ?_
  obtain ⟨d, part, hpart, hmem⟩ := StoreView.planEach_ok_of_mem hplan hop
  exact h d part hpart op hmem

theorem confined_moveEach {collection : String} {move : Document → Except StepError Transaction}
    (hmove : MovesWithin collection move) :
    (Step.ofTransaction title description fun view =>
      view.planEach collection move).Confined [collection] := by
  refine confined_planEach fun d part hpart op hop => ?_
  obtain ⟨id, -, rfl | ⟨newId, body, rfl⟩⟩ := hmove hpart
  · exact absurd hop List.not_mem_nil
  · simp only [relocate, List.mem_cons, List.not_mem_nil, or_false] at hop
    rcases hop with rfl | rfl
    · simp [Operation.remove]
    · simp [Operation.insert]

theorem confined_editEach {collection : String}
    {editFor : Document → Except StepError Transaction}
    (hedit : EditsWithin collection editFor) :
    (Step.ofTransaction title description fun view =>
      view.planEach collection editFor).Confined [collection] := by
  refine confined_planEach fun d part hpart op hop => ?_
  obtain ⟨id, -, rfl | ⟨u, rfl⟩⟩ := hedit hpart
  · exact absurd hop List.not_mem_nil
  · rw [List.mem_singleton.1 hop]
    simp [Operation.update]

end Step

theorem FieldEdit.confined (r : FieldEdit) : r.step.Confined r.collections := by
  refine Step.confined_ofTransaction fun view ops hplan op hop => ?_
  obtain ⟨parts, hparts, rfl⟩ := Except.map_eq_ok.1 hplan
  obtain ⟨part, hpart, hmem⟩ := List.mem_flatten.1 hop
  obtain ⟨name, hname, hpiece⟩ := List.mapM_ok_of_mem hparts hpart
  rw [collection_of_mem_planEach hpiece hmem]
  exact hname

theorem RekeyRule.confined (rule : RekeyRule) (collection : String) :
    (rule.step collection).Confined [collection] := by
  refine Step.confined_moveEach fun d part hpart => ?_
  obtain ⟨id, hid, ⟨-, hnone⟩ | ⟨newId, -, -, hmove⟩⟩ := move?_spec hpart
  · exact ⟨id, hid, Or.inl hnone⟩
  · exact ⟨id, hid, Or.inr ⟨newId, _, hmove⟩⟩

theorem ProviderIds.confined (collection kind : String) :
    (ProviderIds.step collection kind).Confined [collection, providerIds] := by
  refine Step.confined_planEach fun d part hpart op hop => ?_
  obtain ⟨id, -, rfl | ⟨u, newId, body, rfl⟩⟩ := ProviderIds.editFor_spec hpart
  · exact absurd hop List.not_mem_nil
  · simp only [List.mem_cons, List.not_mem_nil, or_false] at hop
    rcases hop with rfl | rfl
    · simp [Operation.update]
    · simp [Operation.insert]

theorem servicesToApplications_confined :
    servicesToApplications.Confined [services, applications, storageConstraints, refcounts] := by
  refine Step.confined_ofTransaction fun view ops hplan op hop => ?_
  obtain ⟨moves, hread, rfl⟩ := Except.map_eq_ok.1 hplan
  have hmoves : ∀ move ∈ moves, ∃ d, ServiceMove.ofDocument view d = .ok move := by
    intro move hmove
    exact StoreView.readEach_ok_of_mem hread hmove
  exact ServiceMove.collection_of_mem_plan hmoves hop

theorem updateController_confined (directory : String) : (updateController directory).Confined
    [controllers, clouds, cloudCredentials, permissions, controllerUsers] := by
  intro view disk vars vars' plan hplan
  obtain ⟨facts, -, hpair⟩ := Except.map_eq_ok.1 hplan
  cases hpair
  refine ⟨fun op hop => ?_, List.nil_subset _⟩
  simp only [ControllerFacts.transaction, List.mem_cons, List.not_mem_nil, or_false] at hop
  rcases hop with rfl | rfl | rfl | rfl | rfl | rfl
  all_goals simp [Operation.update, Operation.insert, grantAdmin]

theorem updateModels_confined (agentVersion : String) : (updateModels agentVersion).Confined
    [models, permissions, settings, userModelName] := by
  intro view disk vars vars' plan hplan
  obtain ⟨_, _, parts, -, -, hread, rfl, -⟩ := updateModels_spec hplan
  refine ⟨fun op hop => ?_, List.nil_subset _⟩
  rcases List.mem_append.1 hop with hmodel | hrename
  · obtain ⟨ops, hops, hin⟩ := List.mem_flatten.1 hmodel
    obtain ⟨part, hpart, rfl⟩ := List.mem_map.1 hops
    obtain ⟨d, hone⟩ := StoreView.readEach_ok_of_mem hread hpart
    obtain ⟨uuid, name, -, -, rfl⟩ := ModelUpdate.ofDocument_spec hone
    simp only [List.mem_cons, List.not_mem_nil, or_false] at hin
    rcases hin with rfl | rfl | rfl
    all_goals simp [Operation.update, Operation.insert, grantAdmin]
  · have hname := ModelUpdate.collection_of_mem_adminRenamed (ModelUpdate.mem_adminRenamed hrename)
    simp [hname]

theorem dropLegacyCollections_confined :
    dropLegacyCollections.Confined [services, settingsRefs, legacyIpAddresses] := by
  intro view disk vars vars' plan hplan
  cases hplan
  exact ⟨fun op hop => absurd hop List.not_mem_nil, List.Subset.refl _⟩

theorem registerTools_confined (path version : String) :
    (registerTools path version).Confined [CollectionName.toolsMetadata] := by
  intro view disk vars vars' plan hplan
  simp only [registerTools] at hplan
  split at hplan
  · cases hplan
  · cases hplan
    refine ⟨fun op hop => ?_, List.nil_subset _⟩
    rw [List.mem_singleton.1 hop]
    simp [Operation.insert]

/-- What the steps that need no archive are about, in their order. -/
def storeCollections : List (List String) :=
  [[controllers, clouds, cloudCredentials, permissions, controllerUsers],
    [models, permissions, settings, userModelName],
    [services, applications, storageConstraints, refcounts], [units], [leases],
    [modelEntityRefs], [relations], [resources], [annotations], [constraints],
    [endpointBindings], [settings], [statuses], [statusesHistory], [sequence],
    [services, settingsRefs, legacyIpAddresses], [users], [modelUsers], [machines],
    [cloudImageMetadata], [spaces, providerIds], [subnets, providerIds],
    [linkLayerDevices, providerIds], [ipAddresses, providerIds], [machines, units]]

theorem storeSteps_confined (options : UpgradeOptions) :
    List.Forall₂ Step.Confined (storeSteps options) storeCollections :=
  .cons (updateController_confined options.certDirectory) <|
  .cons (updateModels_confined options.agentVersion) <|
  .cons servicesToApplications_confined <|
  .cons (FieldEdit.confined _) <|
  .cons (Step.confined_moveEach Lease.movesWithin) <|
  .cons (FieldEdit.confined _) <|
  .cons (FieldEdit.confined _) <|
  .cons (FieldEdit.confined _) <|
  .cons (RekeyRule.confined _ _) <|
  .cons (RekeyRule.confined _ _) <|
  .cons (RekeyRule.confined _ _) <|
  .cons (RekeyRule.confined _ _) <|
  .cons (RekeyRule.confined _ _) <|
  .cons (Step.confined_editEach StatusHistory.editsWithin) <|
  .cons (Step.confined_moveEach Sequence.movesWithin) <|
  .cons dropLegacyCollections_confined <|
  .cons (FieldEdit.confined _) <|
  .cons (FieldEdit.confined _) <|
  .cons (Step.confined_editEach MachineContainers.editsWithin) <|
  .cons (Step.confined_moveEach ImageMetadata.movesWithin) <|
  .cons (ProviderIds.confined _ _) <|
  .cons (ProviderIds.confined _ _) <|
  .cons (ProviderIds.confined _ _) <|
  .cons (ProviderIds.confined _ _) <|
  .cons (FieldEdit.confined _) .nil

/-- From some step on, no step is about a collection that is not listed from there on. -/
theorem upgradeSteps_avoid (options : UpgradeOptions) {n : Nat} {name : String}
    (hn : n ≤ storeCollections.length) (hno : ∀ about ∈ storeCollections.drop n, name ∉ about)
    (hname : name ≠ CollectionName.toolsMetadata) :
    ∀ step ∈ (upgradeSteps options).drop n, step.Avoids name := by
  have hlength : n ≤ (storeSteps options).length := hn
  intro step hstep
  unfold upgradeSteps at hstep
  rw [List.drop_append_of_le_length hlength] at hstep
  rcases List.mem_append.1 hstep with hearly | htools
  · have hconfined := List.forall₂_drop n (storeSteps_confined options)
    obtain ⟨about, habout, hstep⟩ := List.exists_of_mem_forall₂ hconfined hearly
    exact hstep.avoids (hno about habout)
  · split at htools
    · next path _ =>
        rw [List.mem_singleton.1 htools]
        exact (registerTools_confined path options.toolsVersion).avoids (by simpa using hname)
    · exact absurd htools List.not_mem_nil

/-- Registering an archive comes last and leaves all but the archives alone. -/
theorem Taken.upgrade_split {options : UpgradeOptions} {s s' : Snapshot}
    (h : Taken (upgradeSteps options) s s') :
    ∃ between, Taken (storeSteps options) s between ∧
      ∀ name, name ≠ CollectionName.toolsMetadata →
        s'.collections.get? name = between.collections.get? name := by
  unfold upgradeSteps at h
  obtain ⟨between, hstore, htools⟩ := h.append
  refine ⟨between, hstore, fun name hname => ?_⟩
  split at htools
  · next path _ =>
      have hconfined : List.Forall₂ Step.Confined [registerTools path options.toolsVersion]
          [[CollectionName.toolsMetadata]] := .cons (registerTools_confined _ _) .nil
      exact htools.other hconfined (by simpa using hname)
  · exact htools.other .nil (by simp)

end FleetUpgrade
