import FleetUpgrade.Proofs.LiveSteps
import FleetUpgrade.Proofs.LostCursors

/-! # Where a live run stops

A run that ends in an error at a step has taken all steps before it: each was
planned on what the ones before it left, and its plan was carried out to the last
drop. If the step has no plan, or if the store refuses its transaction, nothing of
the step itself is in the store or in the log, so the run stops between two steps.

A store can fail in one more place, when a collection is dropped after the
transaction. It fails there only by a write, and by then the transaction is in.
-/

namespace FleetUpgrade

open TransactionalStore (contents)

variable {σ : Type} [DocumentStore σ]

/-! ## Steps that were taken -/

/-- Steps that were planned and carried out one after another, with their plans. -/
inductive Completed (mode : RunMode) :
    List Step → Variables → Site σ → List StepPlan → Variables → Site σ → Prop where
  | nil (vars : Variables) (site : Site σ) : Completed mode [] vars site [] vars site
  | cons {step : Step} {steps : List Step} {vars vars' vars'' : Variables}
      {site site' site'' : Site σ} {plan : StepPlan} {plans : List StepPlan}
      (hplan : step.plan (DocumentStore.view site.store) site.disk vars = .ok (plan, vars'))
      (hexecute : plan.execute mode site = (.ok (), site'))
      (hrest : Completed mode steps vars' site' plans vars'' site'') :
      Completed mode (step :: steps) vars site (plan :: plans) vars'' site''

def StepPlan.reports (steps : List Step) (plans : List StepPlan) : List StepReport :=
  List.zipWith (fun step plan => plan.report step.name) steps plans

/-- How a step ends a run: it has no plan, or its plan cannot be carried out. -/
inductive Step.Stops (mode : RunMode) (step : Step) (vars : Variables) (site : Site σ) :
    MigrationError → Site σ → Prop where
  | unplanned {cause : StepError}
      (hplan : step.plan (DocumentStore.view site.store) site.disk vars = .error cause) :
      Stops mode step vars site (.step step.name cause) site
  | failed {cause : RunnerError} {plan : StepPlan} {vars' : Variables} {after : Site σ}
      (hplan : step.plan (DocumentStore.view site.store) site.disk vars = .ok (plan, vars'))
      (hexecute : plan.execute mode site = (.error cause, after)) :
      Stops mode step vars site (.apply step.name cause) after

namespace Migration

variable {mode : RunMode} {done : List Step} {vars vars' : Variables} {site reached : Site σ}
  {plans : List StepPlan}

/-- After steps that were taken, a run goes on as one that begins where they ended. -/
theorem takeSteps_of_completed (h : Completed mode done vars site plans vars' reached)
    (rest : List Step) :
    takeSteps mode (done ++ rest) vars site =
      { takeSteps mode rest vars' reached with
        result := (takeSteps mode rest vars' reached).result.map
          (StepPlan.reports done plans ++ ·) } := by
  induction h with
  | nil vars site =>
      have hsame : (takeSteps mode rest vars site).result.map (StepPlan.reports [] [] ++ ·) =
          (takeSteps mode rest vars site).result := by
        cases (takeSteps mode rest vars site).result <;> rfl
      rw [List.nil_append, hsame]
  | @cons _ _ _ _ vars'' _ _ site'' _ _ hplan hexecute _ ih =>
      rw [List.cons_append, takeSteps_cons _ hplan hexecute, ih]
      cases hrest : (takeSteps mode rest vars'' site'').result with
      | error e => rfl
      | ok reports => rfl

/-- The steps of a run that succeeds were all taken. -/
theorem completed_of_takeSteps {reports : List StepReport}
    (h : (takeSteps mode done vars site).result = .ok reports) :
    ∃ plans vars' reached, Completed mode done vars site plans vars' reached ∧
      takeSteps mode done vars site = ⟨.ok (StepPlan.reports done plans), vars', reached⟩ := by
  induction done generalizing vars site reports with
  | nil => exact ⟨[], vars, site, .nil vars site, rfl⟩
  | cons step done ih =>
      obtain ⟨plan, vars', between, rest, hplan, hexecute, hrest, -⟩ := takeSteps_cons_ok h
      obtain ⟨plans, last, reached, hdone, hall⟩ := ih hrest
      refine ⟨plan :: plans, last, reached, .cons hplan hexecute hdone, ?_⟩
      rw [takeSteps_cons done hplan hexecute, hall]
      rfl

/-- A run that fails has taken the steps before the one that ends it. -/
theorem stops_of_takeSteps {steps : List Step} {e : MigrationError}
    (h : (takeSteps mode steps vars site).result = .error e) :
    ∃ done step rest plans vars' reached, steps = done ++ step :: rest ∧
      Completed mode done vars site plans vars' reached ∧
      step.Stops mode vars' reached e (takeSteps mode steps vars site).site := by
  induction steps generalizing vars site with
  | nil => cases h
  | cons step steps ih =>
      cases hplan : step.plan (DocumentStore.view site.store) site.disk vars with
      | error cause =>
          rw [takeSteps, hplan] at h ⊢
          cases h
          exact ⟨[], step, steps, [], vars, site, rfl, .nil vars site, .unplanned hplan⟩
      | ok planned =>
          obtain ⟨plan, next⟩ := planned
          cases hexecute : plan.execute mode site with
          | mk result between =>
              cases result with
              | error cause =>
                  rw [takeSteps, hplan] at h ⊢
                  simp only [hexecute] at h ⊢
                  cases h
                  exact ⟨[], step, steps, [], vars, site, rfl, .nil vars site,
                    .failed hplan hexecute⟩
              | ok =>
                  rw [takeSteps_cons steps hplan hexecute] at h ⊢
                  have hrest : (takeSteps mode steps next between).result = .error e := by
                    cases hr : (takeSteps mode steps next between).result with
                    | error cause =>
                        rw [hr] at h
                        exact h
                    | ok reports =>
                        rw [hr] at h
                        cases h
                  obtain ⟨done, last, rest, plans, vars', reached, rfl, hdone, hstops⟩ := ih hrest
                  exact ⟨step :: done, last, rest, plan :: plans, vars', reached, rfl,
                    .cons hplan hexecute hdone, hstops⟩

/-- How a step ends a run does not depend on the steps after it. -/
theorem takeSteps_of_stops {step : Step} {e : MigrationError} {after : Site σ}
    (h : step.Stops mode vars site e after) :
    ∃ last, ∀ later, takeSteps mode (step :: later) vars site = ⟨.error e, last, after⟩ := by
  cases h with
  | unplanned hplan => exact ⟨vars, fun later => by rw [takeSteps, hplan]⟩
  | @failed cause plan vars' after hplan hexecute =>
      refine ⟨vars', fun later => ?_⟩
      rw [takeSteps, hplan]
      simp only [hexecute]

end Migration

/-! ## What was taken, in the store and in the log -/

namespace Site

variable {site after : Site σ}

/-- A transaction that the store refuses is neither in the store nor in the log. -/
theorem apply_live_refused [LawfulStore σ] {ops : Transaction} {cause : StoreError}
    (h : site.apply .live ops = (.error (.store cause), after)) :
    contents after.store = contents site.store ∧ after.audit = site.audit := by
  rcases apply_live_cases ops site with
    ⟨rfl, hdone⟩ | ⟨cause', refused, hdone, hresult, hstore, haudit⟩ | ⟨stored, -, -, -, hdone⟩
  · rw [hdone] at h
    cases h
  · rw [hdone] at h
    cases h
    exact ⟨by rw [hstore, LawfulStore.apply_refused hresult], haudit⟩
  · rw [hdone] at h
    have he := (stopsRecording h).1
    cases he

/-- A collection cannot be dropped only if the store cannot write. -/
theorem forEach_drop_live_error [LawfulStore σ] {names : List String} {cause : RunnerError}
    (h : site.forEach (drop .live) names = (.error cause, after)) :
    ∃ file, cause = .store (.io file) := by
  obtain ⟨-, name, -, reached, -, -, hfails⟩ := forEach_error h
  simp only [drop, change, Prod.mk.injEq] at hfails
  cases hresult : (DocumentStore.drop name reached.store reached.disk).result with
  | ok => simp [hresult, Except.mapError] at hfails
  | error e =>
      obtain ⟨file, rfl⟩ := LawfulStore.drop_error hresult
      simp only [hresult, Except.mapError, Except.error.injEq] at hfails
      exact ⟨file, hfails.1.symm⟩

end Site

namespace StepPlan

variable {plan : StepPlan} {site after : Site σ}

/-- The transaction of a plan was applied, and a collection could not be dropped after it. -/
def DropFails (plan : StepPlan) (site : Site σ) (cause : StoreError) : Prop :=
  ∃ written applied, site.forEach (Site.writeFile .live) plan.files = (.ok (), written) ∧
    written.apply .live plan.transaction = (.ok (), applied) ∧ ∃ file, cause = .io file

/-- A plan that the store does not carry out left nothing in the store and in the log, unless it was
a drop that failed. -/
theorem execute_live_refused [LawfulStore σ] {cause : StoreError}
    (h : plan.execute .live site = (.error (.store cause), after)) :
    (contents after.store = contents site.store ∧ after.audit = site.audit) ∨
      plan.DropFails site cause := by
  have hfiles := Site.forEach_writeFile .live plan.files site
  unfold execute at h
  split at h
  · next hfails =>
      cases h
      obtain ⟨-, file, -, reached, -, -, hfile⟩ := Site.forEach_error hfails
      have hcause := Site.writeFile_error hfile
      cases hcause
  · next written hwritten =>
      rw [hwritten] at hfiles
      split at h
      · next hfails =>
          cases h
          obtain ⟨hstore, haudit⟩ := Site.apply_live_refused hfails
          exact Or.inl ⟨by rw [hstore, hfiles.1], by rw [haudit, hfiles.2]⟩
      · next applied happly =>
          obtain ⟨file, hfile⟩ := Site.forEach_drop_live_error h
          cases hfile
          exact Or.inr ⟨written, applied, hwritten, happly, file, rfl⟩

end StepPlan

/-- The store holds what carrying plans out makes of a snapshot, and the log has the records of
their operations after the ones it had. -/
structure CarriedOut [TransactionalStore σ] (plans : List StepPlan) (start : Snapshot)
    (before : List AuditRecord) (after : Site σ) : Prop where
  store : plans.foldlM (fun s plan => plan.applyTo s) start = .ok (contents after.store)
  records : after.audit.records =
    before ++ (plans.flatMap StepPlan.transaction).map .ofOperation

theorem Completed.carriedOut [TransactionalStore σ] [AtomicStore σ] {steps : List Step}
    {vars vars' : Variables} {site reached : Site σ} {plans : List StepPlan}
    (h : Completed .live steps vars site plans vars' reached) :
    CarriedOut plans (contents site.store) site.audit.records reached := by
  induction h with
  | nil vars site => exact ⟨rfl, by simp⟩
  | cons hplan hexecute _ ih =>
      obtain ⟨hstore, hrecords⟩ := StepPlan.execute_live_ok AtomicStore.followed hexecute
      refine ⟨?_, ?_⟩
      · rw [List.foldlM_cons, hstore]
        exact ih.store
      · rw [ih.records, hrecords]
        simp

/-! ## Where a run stops -/

/-- A step has no plan, or the store did not do what its plan asks for. -/
def MigrationError.IsRefusal : MigrationError → Prop
  | .step _ _ => True
  | .apply _ (.store _) => True
  | _ => False

/-- The transaction of a step was applied, and a collection could not be dropped after it. -/
def Step.DropFails (step : Step) (vars : Variables) (site : Site σ) (e : MigrationError) : Prop :=
  ∃ plan vars' cause, step.plan (DocumentStore.view site.store) site.disk vars = .ok (plan, vars') ∧
    plan.DropFails site cause ∧ e = .apply step.name (.store cause)

theorem Step.Stops.refused [LawfulStore σ] {step : Step} {vars : Variables} {site after : Site σ}
    {e : MigrationError} (h : step.Stops .live vars site e after) (he : e.IsRefusal) :
    (contents after.store = contents site.store ∧ after.audit = site.audit) ∨
      step.DropFails vars site e := by
  cases h with
  | unplanned hplan => exact Or.inl ⟨rfl, rfl⟩
  | @failed cause plan vars' after hplan hexecute =>
      cases cause with
      | store cause =>
          have hrefused := StepPlan.execute_live_refused hexecute
          exact hrefused.imp_right fun hdrop => ⟨plan, vars', cause, hplan, hdrop, rfl⟩
      | audit => exact he.elim
      | file path => exact he.elim

theorem Step.Stops.stepName {mode : RunMode} {step : Step} {vars : Variables} {site after : Site σ}
    {e : MigrationError} (h : step.Stops mode vars site e after) :
    e.stepName? = some step.name := by
  cases h with
  | unplanned hplan => rfl
  | failed hplan hexecute => rfl

/-- A live run takes some of its steps, with these plans, and comes to the next. -/
structure Migration.Reaches (m : Migration) (vars : Variables) (site : Site σ) (done : List Step)
    (step : Step) (plans : List StepPlan) (vars' : Variables) (reached : Site σ) : Prop where
  steps : ∃ rest, m.steps = done ++ step :: rest
  taken : ∃ ready, m.prepare .live site = (.ok (), ready) ∧
    Completed .live done vars ready plans vars' reached

namespace Migration

variable {m : Migration} {vars vars' : Variables} {site reached : Site σ} {done : List Step}
  {step : Step} {plans : List StepPlan}

theorem run_of_prepare {mode : RunMode} {ready : Site σ}
    (h : m.prepare mode site = (.ok (), ready)) (steps : List Step) :
    { m with steps := steps }.run mode vars site = takeSteps mode steps vars ready := by
  have hprepare : { m with steps := steps }.prepare mode site = (.ok (), ready) := h
  rw [run, hprepare]

/-- A run that is ended by a step reached it. -/
theorem reaches_of_run {e : MigrationError} (h : (m.run .live vars site).result = .error e)
    (hstep : e.stepName? ≠ none) :
    ∃ done step plans vars' reached, m.Reaches vars site done step plans vars' reached ∧
      step.Stops .live vars' reached e (m.run .live vars site).site := by
  unfold run at h ⊢
  cases hready : m.prepare .live site with
  | mk result ready =>
      cases result with
      | error cause =>
          simp only [hready, Except.error.injEq] at h
          rw [← h] at hstep
          exact absurd (prepare_stepName hready) hstep
      | ok =>
          simp only [hready] at h ⊢
          obtain ⟨done, step, rest, plans, vars', reached, hsteps, hdone, hstops⟩ :=
            stops_of_takeSteps h
          exact ⟨done, step, plans, vars', reached, ⟨⟨rest, hsteps⟩, ready, hready, hdone⟩, hstops⟩

namespace Reaches

theorem carriedOut [TransactionalStore σ] [AtomicStore σ]
    (h : m.Reaches vars site done step plans vars' reached) :
    CarriedOut plans (m.start (contents site.store)) site.audit.records reached := by
  obtain ⟨-, ready, hready, hdone⟩ := h
  have hstart := prepare_live_contents hready
  rw [← hstart.1, ← hstart.2]
  exact hdone.carriedOut

/-- With other steps in place of those that are left, the run goes on from where it came. -/
theorem run_with (h : m.Reaches vars site done step plans vars' reached) (rest : List Step) :
    { m with steps := done ++ rest }.run .live vars site =
      { takeSteps .live rest vars' reached with
        result := (takeSteps .live rest vars' reached).result.map
          (StepPlan.reports done plans ++ ·) } := by
  obtain ⟨-, ready, hready, hdone⟩ := h
  rw [run_of_prepare hready, takeSteps_of_completed hdone]

/-- Without the step and those after it, the run ends well where the step begins. -/
theorem run_done (h : m.Reaches vars site done step plans vars' reached) :
    { m with steps := done }.run .live vars site =
      ⟨.ok (StepPlan.reports done plans), vars', reached⟩ := by
  have hall := h.run_with []
  rw [List.append_nil] at hall
  rw [hall]
  simp [takeSteps, Except.map]

/-- A step that ends the run does so whatever comes after it. -/
theorem run_stops (h : m.Reaches vars site done step plans vars' reached) {e : MigrationError}
    {after : Site σ} (hstops : step.Stops .live vars' reached e after) :
    ∃ last, m.run .live vars site = ⟨.error e, last, after⟩ ∧
      ∀ later, { m with steps := done ++ step :: later }.run .live vars site =
        ⟨.error e, last, after⟩ := by
  obtain ⟨last, hlast⟩ := takeSteps_of_stops hstops
  have hall : ∀ later, { m with steps := done ++ step :: later }.run .live vars site =
      ⟨.error e, last, after⟩ := by
    intro later
    rw [h.run_with, hlast]
    rfl
  obtain ⟨rest, hsteps⟩ := h.steps
  have hsame := hall rest
  rw [← hsteps] at hsame
  exact ⟨last, hsame, hall⟩

end Reaches

/-- A live run that a step ends, because it has no plan or because the store refuses its
transaction, stops before that step: the store holds what resuming the journal and carrying out the
plans of the steps before makes of it, the log has their operations, and nothing depends on the
steps after. In particular a step that needs a collection whose cursor is lost leaves nothing, and
each step of the upgrade and of the clean-up needs the collections that it reads. -/
theorem failed_run_at_boundary [LawfulStore σ] (m : Migration) (vars : Variables) (site : Site σ) :
    (∀ e, (m.run .live vars site).result = .error e → e.IsRefusal →
      ∃ done step plans vars' reached, m.Reaches vars site done step plans vars' reached ∧
        e.stepName? = some step.name ∧
        { m with steps := done }.run .live vars site =
          ⟨.ok (StepPlan.reports done plans), vars', reached⟩ ∧
        (∀ later, { m with steps := done ++ step :: later }.run .live vars site =
          m.run .live vars site) ∧
        (CarriedOut plans (m.start (contents site.store)) site.audit.records
            (m.run .live vars site).site ∨
          step.DropFails vars' reached e)) ∧
      (∀ done step plans vars' reached name, m.Reaches vars site done step plans vars' reached →
        step.Needs name → (DocumentStore.view reached.store).Loses name →
        (∃ cause, (m.run .live vars site).result = .error (.step step.name cause)) ∧
          CarriedOut plans (m.start (contents site.store)) site.audit.records
            (m.run .live vars site).site) ∧
      (∀ options, List.Forall₂ (fun step names => ∀ name ∈ names, Step.Needs step name)
        (storeSteps options) scannedCollections) ∧
      ∀ step ∈ cleanupSteps, step.Needs CollectionName.cleanups := by
  refine ⟨?_, ?_, storeSteps_need, ?_⟩
  · intro e he hrefusal
    have hnamed : e.stepName? ≠ none := by
      cases e with
      | step name cause => simp [MigrationError.stepName?]
      | apply name cause => simp [MigrationError.stepName?]
      | precheckFailed name count => exact hrefusal.elim
      | precheckRead name cause => exact hrefusal.elim
      | resume cause => exact hrefusal.elim
    obtain ⟨done, step, plans, vars', reached, hreaches, hstops⟩ := reaches_of_run he hnamed
    obtain ⟨last, hrun, hlater⟩ := hreaches.run_stops hstops
    have hbefore := hreaches.carriedOut
    refine ⟨done, step, plans, vars', reached, hreaches, hstops.stepName, hreaches.run_done, ?_, ?_⟩
    · intro later
      rw [hlater, hrun]
    · rcases hstops.refused hrefusal with ⟨hstore, haudit⟩ | hdrop
      · left
        exact ⟨by rw [hstore, hbefore.store], by rw [haudit, hbefore.records]⟩
      · exact Or.inr hdrop
  · intro done step plans vars' reached name hreaches hneeds hlost
    have hunplanned :
        ∃ cause, step.plan (DocumentStore.view reached.store) reached.disk vars' = .error cause := by
      cases hplan : step.plan (DocumentStore.view reached.store) reached.disk vars' with
      | error cause => exact ⟨cause, rfl⟩
      | ok planned => exact absurd hplan (hneeds hlost reached.disk vars' planned)
    obtain ⟨cause, hplan⟩ := hunplanned
    obtain ⟨last, hrun, -⟩ := hreaches.run_stops (.unplanned hplan)
    rw [hrun]
    exact ⟨⟨cause, rfl⟩, hreaches.carriedOut⟩
  · intro step hstep
    rw [List.mem_singleton.1 hstep]
    exact Cleanups.needs

def twoEdits : Migration :=
  ⟨[], true,
    [(FieldEdit.ofCollection "machines" "machines" [.set "series" "xenial"]).step,
      (FieldEdit.ofCollection "units" "units" [.unset "ports"]).step]⟩

/-- A machine, and two units of which a cursor yields one. -/
def lossySite (journal : List Transaction) : Site (FaultyStore MemoryStore) :=
  let snapshot : Snapshot :=
    ⟨.ofList
      [("machines", .ofList [("0", textFields [("_id", "0")])]),
        ("units", .ofList
          [("db/0", textFields [("_id", "db/0")]), ("db/1", textFields [("_id", "db/1")])])],
      journal⟩
  ⟨⟨⟨snapshot⟩, ⟨[], false, some ("units", 1)⟩, 0⟩, .empty, .empty⟩

/-- The machines are edited, the unit that was read is not. -/
theorem failed_run_at_boundary_lost_cursor :
    let site := lossySite [[.insert "machines" "1" .empty]]
    let e := MigrationError.step "units" (.read "units" (.read "units" "cursor lost"))
    let after := (twoEdits.run .live (.ofUuid "u") site).site
    (twoEdits.run .live (.ofUuid "u") site).result = .error e ∧ e.IsRefusal ∧
      (∃ done step plans vars' reached,
        twoEdits.Reaches (.ofUuid "u") site done step plans vars' reached ∧
          e.stepName? = some step.name) ∧
      ∃ done step plans vars' reached,
        twoEdits.Reaches (.ofUuid "u") site done step plans vars' reached ∧
          step.Needs "units" ∧ (DocumentStore.view reached.store).Loses "units" ∧
          CarriedOut plans (twoEdits.start (contents site.store)) [] after := by
  intro site e after
  have hresult : (twoEdits.run .live (.ofUuid "u") site).result = .error e := by
    decide +kernel
  obtain ⟨hfails, hlost, -⟩ := failed_run_at_boundary twoEdits (.ofUuid "u") site
  obtain ⟨done, step, plans, vars', reached, hreaches, hname, -⟩ := hfails e hresult trivial
  refine ⟨hresult, trivial, ⟨done, step, plans, vars', reached, hreaches, hname⟩, ?_⟩
  let machines := (FieldEdit.ofCollection "machines" "machines" [.set "series" "xenial"]).step
  let units := (FieldEdit.ofCollection "units" "units" [.unset "ports"]).step
  let ready := (twoEdits.prepare .live site).2
  have hready : twoEdits.prepare .live site = (.ok (), ready) := rfl
  have hmachines : (takeSteps .live [machines] (.ofUuid "u") ready).result.isOk = true := by
    decide +kernel
  obtain ⟨reports, hreports⟩ := exists_ok_of_isOk hmachines
  obtain ⟨plans, vars', reached, hdone, htaken⟩ := completed_of_takeSteps hreports
  have hreaches : twoEdits.Reaches (.ofUuid "u") site [machines] units plans vars' reached :=
    ⟨⟨[], rfl⟩, ready, hready, hdone⟩
  have hneeds : units.Needs "units" := FieldEdit.needs (by decide)
  have hfaults : (takeSteps .live [machines] (.ofUuid "u") ready).site.store.faults =
      ⟨[], false, some ("units", 1)⟩ := rfl
  rw [htaken] at hfaults
  have hview : (DocumentStore.view reached.store).Loses "units" := by
    refine FaultyStore.loses (n := 1) ?_ ?_ rfl
    · rw [hfaults]
      exact List.not_mem_nil
    · rw [hfaults]
  have hstops := hlost [machines] units plans vars' reached "units" hreaches hneeds hview
  exact ⟨[machines], units, plans, vars', reached, hreaches, hneeds, hview, hstops.2⟩

end Migration
end FleetUpgrade
