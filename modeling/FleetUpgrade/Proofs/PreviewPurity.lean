import FleetUpgrade.Proofs.RunInvariants

/-! # What a preview leaves

A preview puts operations to the audit sink and does nothing else. The store is
the one it was, whatever kind of store it is, and the disk changes at most by what
the sink itself writes. The changing calls of the store are not even made: with
others in their place a preview goes the same way.
-/

namespace FleetUpgrade

variable {σ α : Type}

/-! ## Records alone -/

namespace Site

variable [AuditSink α]

/-- The site after operations were put to its sink, taken or not. -/
def recorded (ops : Transaction) (site : Site σ α) : Site σ α :=
  ops.foldl (fun now op => (record op now).2) site

theorem recorded_append (first second : Transaction) (site : Site σ α) :
    site.recorded (first ++ second) = (site.recorded first).recorded second :=
  List.foldl_append

theorem recorded_store (ops : Transaction) (site : Site σ α) :
    (site.recorded ops).store = site.store := by
  induction ops generalizing site with
  | nil => rfl
  | cons op ops ih =>
      have hrest := ih (record op site).2
      have hone := record_store op site
      exact hrest.trans hone

/-- A site differs from another by records alone. -/
def OnlyRecords (site after : Site σ α) : Prop :=
  ∃ ops, after = site.recorded ops

theorem onlyRecords_record (site : Site σ α) (op : Operation) :
    Keeps (OnlyRecords site) (record op) := by
  rintro now ⟨ops, rfl⟩
  exact ⟨ops ++ [op], (recorded_append ops [op] site).symm⟩

theorem recorded_disk {site : Site σ} (h : site.audit.file = none) (ops : Transaction) :
    (site.recorded ops).disk = site.disk := by
  induction ops generalizing site with
  | nil => rfl
  | cons op ops ih =>
      have hone : (record op site).2.disk = site.disk ∧ (record op site).2.audit.file = none := by
        obtain ⟨store, disk, ⟨records, capacity, file⟩⟩ := site
        obtain rfl : file = none := h
        simp only [record, AuditSink.record, AuditLog.record?]
        by_cases hfull : (AuditLog.mk records capacity none).isFull = true
        · rw [if_pos hfull]
          exact ⟨rfl, rfl⟩
        · rw [if_neg hfull]
          exact ⟨rfl, rfl⟩
      have hrest := ih hone.2
      exact hrest.trans hone.1

end Site

/-! ## Calls and their sequences -/

inductive RunnerCall where
  | apply (ops : Transaction)
  | resume
  | drop (collection : String)
  | writeFile (file : PlannedFile)

namespace RunnerCall

variable [DocumentStore σ] [AuditSink α]

def perform (mode : RunMode) : RunnerCall → Site σ α → Except RunnerError Unit × Site σ α
  | .apply ops => Site.apply mode ops
  | .resume => Site.resume mode
  | .drop collection => Site.drop mode collection
  | .writeFile file => Site.writeFile mode file

/-- The answers to calls made one after another, whether they fail or not, and the site they
leave. -/
def performAll (mode : RunMode) :
    List RunnerCall → Site σ α → List (Except RunnerError Unit) × Site σ α
  | [], site => ([], site)
  | call :: calls, site =>
      let first := call.perform mode site
      let rest := performAll mode calls first.2
      (first.1 :: rest.1, rest.2)

theorem perform_preview (call : RunnerCall) (site : Site σ α) :
    Site.Keeps site.OnlyRecords (call.perform .preview) := by
  intro now hnow
  cases call with
  | apply ops =>
      show site.OnlyRecords (now.apply .preview ops).2
      unfold Site.apply
      by_cases hnone : ops.isEmpty = true
      · rw [if_pos hnone]
        exact hnow
      · rw [if_neg hnone]
        exact Site.Keeps.forEach (fun op _ => Site.onlyRecords_record site op) now hnow
  | resume => exact hnow
  | drop collection => exact hnow
  | writeFile file => exact hnow

theorem performAll_preview (calls : List RunnerCall) (site now : Site σ α)
    (h : site.OnlyRecords now) : site.OnlyRecords (performAll .preview calls now).2 := by
  induction calls generalizing now with
  | nil => exact h
  | cons call calls ih => exact ih _ (perform_preview call site now h)

end RunnerCall

theorem Migration.run_preview [DocumentStore σ] [AuditSink α] (m : Migration) (vars : Variables)
    (site : Site σ α) : site.OnlyRecords (m.run .preview vars site).site := by
  have hcalls := fun call => RunnerCall.perform_preview (σ := σ) (α := α) call site
  refine run_keeps (P := site.OnlyRecords) (hcalls .resume) ?_ vars site ⟨[], rfl⟩
  intro step _ view disk vars vars' plan _
  exact StepPlan.execute_keeps (fun file _ => hcalls (.writeFile file))
    (hcalls (.apply plan.transaction)) fun name _ => hcalls (.drop name)

/-! ## Other changing calls -/

structure ChangingCalls (σ : Type) where
  apply : Transaction → σ → Disk → Outcome σ
  resume : σ → Disk → Outcome σ
  drop : String → σ → Disk → Outcome σ

/-- A store that is read as it was and changed by these calls. -/
abbrev ChangingCalls.on (calls : ChangingCalls σ) (reads : DocumentStore σ) : DocumentStore σ :=
  { reads with apply := calls.apply, resume := calls.resume, drop := calls.drop }

section

variable [reads : DocumentStore σ] [AuditSink α] (other : ChangingCalls σ)

theorem RunnerCall.performAll_preview_other (calls : List RunnerCall) (site : Site σ α) :
    @performAll σ α (other.on reads) _ .preview calls site = performAll .preview calls site := by
  induction calls generalizing site with
  | nil => rfl
  | cons call calls ih =>
      have hone : @perform σ α (other.on reads) _ .preview call site =
          call.perform .preview site := by
        cases call <;> rfl
      simp only [performAll, hone, ih]

theorem Migration.takeSteps_preview_other (steps : List Step) (vars : Variables)
    (site : Site σ α) :
    @takeSteps σ α (other.on reads) _ .preview steps vars site =
      takeSteps .preview steps vars site := by
  induction steps generalizing vars site with
  | nil => rfl
  | cons step steps ih =>
      have hexecute : ∀ plan : StepPlan, @StepPlan.execute σ α (other.on reads) _ plan .preview =
          plan.execute .preview := fun _ => rfl
      simp only [takeSteps, hexecute, ih]
      rfl

theorem Migration.run_preview_other (m : Migration) (vars : Variables) (site : Site σ α) :
    @run σ α (other.on reads) _ m .preview vars site = m.run .preview vars site := by
  have hprepare : @prepare σ α (other.on reads) m .preview site = m.prepare .preview site := rfl
  unfold run
  rw [hprepare]
  simp only [takeSteps_preview_other]

end

/-- A preview, of a migration or of any calls, leaves the store as it was and the rest of the site
as the audit sink left it, and it never makes a changing call of the store: whatever these calls
did, the preview would go the same way. Where the sink has no file, no file is written at all. -/
theorem preview_pure [reads : DocumentStore σ] [AuditSink α] (m : Migration) (vars : Variables)
    (calls : List RunnerCall) (site : Site σ α) :
    ((m.run .preview vars site).site.store = site.store ∧
        site.OnlyRecords (m.run .preview vars site).site ∧
        ∀ other : ChangingCalls σ,
          @Migration.run σ α (other.on reads) _ m .preview vars site =
            m.run .preview vars site) ∧
      ((RunnerCall.performAll .preview calls site).2.store = site.store ∧
        site.OnlyRecords (RunnerCall.performAll .preview calls site).2 ∧
        ∀ other : ChangingCalls σ,
          @RunnerCall.performAll σ α (other.on reads) _ .preview calls site =
            RunnerCall.performAll .preview calls site) ∧
      ∀ unfiled : Site σ, unfiled.audit.file = none →
        (m.run .preview vars unfiled).site.disk = unfiled.disk ∧
          (RunnerCall.performAll .preview calls unfiled).2.disk = unfiled.disk := by
  have hrun := m.run_preview vars site
  have hcalls := RunnerCall.performAll_preview calls site site ⟨[], rfl⟩
  have hstore : ∀ after, site.OnlyRecords after → after.store = site.store := by
    rintro after ⟨ops, rfl⟩
    exact Site.recorded_store ops site
  refine ⟨⟨hstore _ hrun, hrun, ?_⟩, ⟨hstore _ hcalls, hcalls, ?_⟩, ?_⟩
  · exact fun other => Migration.run_preview_other other m vars site
  · exact fun other => RunnerCall.performAll_preview_other other calls site
  · intro unfiled hfile
    have hdisk : ∀ after, unfiled.OnlyRecords after → after.disk = unfiled.disk := by
      rintro after ⟨ops, rfl⟩
      exact Site.recorded_disk hfile ops
    exact ⟨hdisk _ (m.run_preview vars unfiled),
      hdisk _ (RunnerCall.performAll_preview calls unfiled unfiled ⟨[], rfl⟩)⟩

/-- The sink refuses the second of two machines, and the calls after that do nothing. -/
theorem preview_pure_cramped :
    let calls := [.apply Site.twoMachines, .resume, .drop "machines",
      .writeFile (.ownerOnly "key.pem" "k")]
    let previewed := RunnerCall.performAll .preview calls Site.crampedSite
    Site.crampedSite.audit.file = none ∧
      previewed.1 = [.error .audit, .ok (), .ok (), .ok ()] ∧
      previewed.2.store = Site.crampedSite.store ∧ previewed.2.disk = Site.crampedSite.disk := by
  intro calls previewed
  obtain ⟨-, ⟨hstore, -⟩, hdisk⟩ :=
    preview_pure Migration.cleanup (.ofUuid "u") calls Site.crampedSite
  exact ⟨rfl, by decide +kernel, hstore, (hdisk Site.crampedSite rfl).2⟩

end FleetUpgrade
