import FleetUpgrade.Proofs.Footprint
import FleetUpgrade.Store.Faulty

/-! # Cursors that are lost

A cursor may yield documents and then fail. The steps that read a collection plan
document by document, so a part of the plan is there when the cursor fails; none
of it comes out, because reading gives back all parts or none.
-/

namespace FleetUpgrade

open CollectionName

/-- Reading a collection begins and then fails, perhaps after some documents. -/
def StoreView.Loses (view : StoreView) (name : String) : Prop :=
  ∃ cursor cause, view.scan name .all = .ok cursor ∧ cursor.failure = some cause

/-- A step that has no plan when reading a collection fails on the way. -/
def Step.Needs (step : Step) (name : String) : Prop :=
  ∀ ⦃view : StoreView⦄, view.Loses name → ∀ disk vars planned, step.plan view disk vars ≠ .ok planned

theorem FaultyStore.loses {σ : Type} [DocumentStore σ] {f : FaultyStore σ} {name : String} {n : Nat}
    {cursor : Cursor} (hreadable : name ∉ f.faults.unreadable)
    (hfault : f.faults.cursor = some (name, n))
    (hscan : DocumentStore.scan f.inner name .all = .ok cursor) :
    (DocumentStore.view f).Loses name := by
  refine ⟨⟨cursor.documents.take n, some (.read name "cursor lost")⟩, _, ?_, rfl⟩
  show f.guarded name ((DocumentStore.scan f.inner name .all).map (f.interrupted name)) = _
  rw [guarded, if_neg (by simp [hreadable]), hscan]
  simp [Except.map, interrupted, hfault]

namespace StoreView

variable {view : StoreView} {name : String}

theorem readEach_ne_ok {β : Type} {readOne : Document → Except StepError β} {parts : List β}
    (h : view.Loses name) : view.readEach name readOne ≠ .ok parts := by
  intro hread
  obtain ⟨cursor, cause, hscan, hfails⟩ := h
  obtain ⟨documents, hwhole, -⟩ := readEach_ok hread
  rw [hscan, Except.ok.injEq] at hwhole
  rw [hwhole] at hfails
  cases hfails

theorem planEach_ne_ok {planOne : Document → Except StepError Transaction} {ops : Transaction}
    (h : view.Loses name) : view.planEach name planOne ≠ .ok ops := by
  intro hplan
  obtain ⟨parts, hparts, -⟩ := Except.map_eq_ok.1 hplan
  exact readEach_ne_ok h hparts

end StoreView

/-! ## The steps that read -/

namespace Step

variable {title description name : String}

theorem needs_ofTransaction {plan : StoreView → Except StepError Transaction}
    (h : ∀ view ops, view.Loses name → plan view ≠ .ok ops) :
    (Step.ofTransaction title description plan).Needs name := by
  intro view hlost disk vars planned hplanned
  obtain ⟨ops, hops, -⟩ := Except.map_eq_ok.1 hplanned
  exact h view ops hlost hops

theorem needs_planEach (planOne : Document → Except StepError Transaction) :
    (Step.ofTransaction title description fun view => view.planEach name planOne).Needs name :=
  needs_ofTransaction fun _ _ hlost => StoreView.planEach_ne_ok hlost

end Step

theorem FieldEdit.needs {r : FieldEdit} {name : String} (hname : name ∈ r.collections) :
    r.step.Needs name := by
  refine Step.needs_ofTransaction fun view ops hlost hplan => ?_
  obtain ⟨parts, hparts, -⟩ := Except.map_eq_ok.1 hplan
  obtain ⟨part, hpart⟩ := List.exists_ok_of_mapM_ok hparts hname
  exact StoreView.planEach_ne_ok hlost hpart

theorem servicesToApplications_needs : servicesToApplications.Needs services := by
  refine Step.needs_ofTransaction fun view ops hlost hplan => ?_
  obtain ⟨moves, hmoves, -⟩ := Except.map_eq_ok.1 hplan
  exact StoreView.readEach_ne_ok hlost hmoves

theorem updateModels_needs (agentVersion : String) : (updateModels agentVersion).Needs models := by
  intro view hlost disk vars planned hplan
  unfold updateModels at hplan
  obtain ⟨tag, -, hplan⟩ := Except.bind_eq_ok.1 hplan
  obtain ⟨credential, -, hplan⟩ := Except.bind_eq_ok.1 hplan
  obtain ⟨cloud, -, hplan⟩ := Except.bind_eq_ok.1 hplan
  obtain ⟨parts, hparts, -⟩ := Except.bind_eq_ok.1 hplan
  exact StoreView.readEach_ne_ok hlost hparts

theorem Cleanups.needs : Cleanups.step.Needs cleanups := Step.needs_planEach _

/-- The collections that the steps read from end to end, in the order of the steps. -/
def scannedCollections : List (List String) :=
  [[], [models], [services], [units], [leases], [modelEntityRefs], [relations], [resources],
    [annotations], [constraints], [endpointBindings], [settings], [statuses], [statusesHistory],
    [sequence], [], [users], [modelUsers], [machines], [cloudImageMetadata], [spaces], [subnets],
    [linkLayerDevices], [ipAddresses], [machines, units]]

theorem Step.Needs.only {step : Step} {name : String} (h : step.Needs name) :
    ∀ other ∈ [name], step.Needs other := by
  intro other hother
  rwa [List.mem_singleton.1 hother]

/-- No step of the upgrade makes a plan of a collection that it could not read to the end. -/
theorem storeSteps_need (options : UpgradeOptions) :
    List.Forall₂ (fun step names => ∀ name ∈ names, Step.Needs step name) (storeSteps options)
      scannedCollections :=
  have hnone : ∀ step : Step, ∀ name ∈ [], step.Needs name :=
    fun _ _ hname => absurd hname List.not_mem_nil
  .cons (hnone _) <|
  .cons (updateModels_needs _).only <|
  .cons servicesToApplications_needs.only <|
  .cons (fun _ hname => FieldEdit.needs hname) <|
  .cons (Step.needs_planEach _).only <|
  .cons (fun _ hname => FieldEdit.needs hname) <|
  .cons (fun _ hname => FieldEdit.needs hname) <|
  .cons (fun _ hname => FieldEdit.needs hname) <|
  .cons (Step.needs_planEach _).only <|
  .cons (Step.needs_planEach _).only <|
  .cons (Step.needs_planEach _).only <|
  .cons (Step.needs_planEach _).only <|
  .cons (Step.needs_planEach _).only <|
  .cons (Step.needs_planEach _).only <|
  .cons (Step.needs_planEach _).only <|
  .cons (hnone _) <|
  .cons (fun _ hname => FieldEdit.needs hname) <|
  .cons (fun _ hname => FieldEdit.needs hname) <|
  .cons (Step.needs_planEach _).only <|
  .cons (Step.needs_planEach _).only <|
  .cons (Step.needs_planEach _).only <|
  .cons (Step.needs_planEach _).only <|
  .cons (Step.needs_planEach _).only <|
  .cons (Step.needs_planEach _).only <|
  .cons (fun _ hname => FieldEdit.needs hname) .nil

end FleetUpgrade
