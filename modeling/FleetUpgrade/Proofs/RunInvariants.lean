import FleetUpgrade.Proofs.LawfulStore
import FleetUpgrade.Run.Migration

/-! # What runs keep

A run is made of a few calls: files are written, transactions applied, collections
dropped, and the journal is resumed. A property of the site that each of these
keeps, a run keeps, however far it gets: the calls return a site also when they
fail, and the property is asked of that one too.
-/

namespace FleetUpgrade

open TransactionalStore (contents)

variable {σ α : Type}

/-! ## Calls -/

/-- A call leaves a property of the site in force, whether it succeeds or fails. -/
def Site.Keeps {ε : Type} (P : Site σ α → Prop) (call : Site σ α → Except ε Unit × Site σ α) :
    Prop :=
  ∀ site, P site → P (call site).2

namespace Site

variable {P : Site σ α → Prop}

theorem Keeps.forEach {ι ε : Type} {act : ι → Site σ α → Except ε Unit × Site σ α}
    {items : List ι} (hact : ∀ item ∈ items, Keeps P (act item)) :
    Keeps P (Site.forEach act items) := by
  induction items with
  | nil => exact fun site h => h
  | cons item items ih =>
      intro site h
      have hone := hact item List.mem_cons_self site h
      have hrest := ih fun other hother => hact other (List.mem_cons_of_mem _ hother)
      unfold Site.forEach
      split
      · next hfails => rwa [hfails] at hone
      · next reached hdone =>
          rw [hdone] at hone
          exact hrest reached hone

theorem writeFile_spares (mode : RunMode) (file : PlannedFile) (site : Site σ α) :
    (site.writeFile mode file).2.store = site.store ∧
      (site.writeFile mode file).2.audit = site.audit := by
  unfold writeFile
  split
  · exact ⟨rfl, rfl⟩
  · split
    · exact ⟨rfl, rfl⟩
    · split
      · exact ⟨rfl, rfl⟩
      · split <;> exact ⟨rfl, rfl⟩

theorem forEach_writeFile (mode : RunMode) (files : List PlannedFile) (site : Site σ α) :
    (site.forEach (writeFile mode) files).2.store = site.store ∧
      (site.forEach (writeFile mode) files).2.audit = site.audit := by
  refine Keeps.forEach (P := fun now => now.store = site.store ∧ now.audit = site.audit) ?_ site
    ⟨rfl, rfl⟩
  intro file _ now h
  have hspares := writeFile_spares mode file now
  exact ⟨hspares.1.trans h.1, hspares.2.trans h.2⟩

theorem writeFile_error {mode : RunMode} {file : PlannedFile} {site after : Site σ α}
    {cause : RunnerError} (h : site.writeFile mode file = (.error cause, after)) :
    cause = .file file.path := by
  unfold writeFile at h
  split at h
  · cases h
  · split at h
    · cases h
      rfl
    · split at h
      · cases h
        rfl
      · split at h <;> cases h
        rfl

end Site

/-! ## Runs -/

section

variable [DocumentStore σ] [AuditSink α] {P : Site σ α → Prop} {mode : RunMode}

theorem StepPlan.execute_keeps {plan : StepPlan}
    (hfiles : ∀ file ∈ plan.files, Site.Keeps P (Site.writeFile mode file))
    (happly : Site.Keeps P (Site.apply mode plan.transaction))
    (hdrops : ∀ name ∈ plan.droppedCollections, Site.Keeps P (Site.drop mode name)) :
    Site.Keeps P (plan.execute mode) := by
  intro site h
  have hwritten := Site.Keeps.forEach hfiles site h
  unfold StepPlan.execute
  split
  · next hfails => rwa [hfails] at hwritten
  · next written hdone =>
      rw [hdone] at hwritten
      have happlied := happly written hwritten
      split
      · next hfails => rwa [hfails] at happlied
      · next applied hdone =>
          rw [hdone] at happlied
          exact Site.Keeps.forEach hdrops applied happlied

namespace Migration

variable {steps : List Step}

/-- A run whose first step was planned leaves what carrying the plan out leaves, if the later steps
keep it. -/
theorem takeSteps_cons_keeps {step : Step} {vars vars' : Variables} {site : Site σ α}
    {plan : StepPlan}
    (hplan : step.plan (DocumentStore.view site.store) site.disk vars = .ok (plan, vars'))
    (hdone : P (plan.execute mode site).2)
    (hrest : ∀ vars site, P site → P (takeSteps mode steps vars site).site) :
    P (takeSteps mode (step :: steps) vars site).site := by
  rw [takeSteps, hplan]
  simp only []
  split
  · next hfails => rwa [hfails] at hdone
  · next reached hok =>
      rw [hok] at hdone
      exact hrest vars' reached hdone

theorem takeSteps_keeps
    (hsteps : ∀ step ∈ steps, ∀ view disk vars vars' plan,
      step.plan view disk vars = .ok (plan, vars') → Site.Keeps P (plan.execute mode))
    (vars : Variables) (site : Site σ α) (h : P site) : P (takeSteps mode steps vars site).site := by
  induction steps generalizing vars site with
  | nil => exact h
  | cons step steps ih =>
      have hstep := hsteps step List.mem_cons_self
      have hrest := ih fun other hother => hsteps other (List.mem_cons_of_mem _ hother)
      cases hplan : step.plan (DocumentStore.view site.store) site.disk vars with
      | error e =>
          rw [takeSteps, hplan]
          exact h
      | ok planned =>
          exact takeSteps_cons_keeps hplan (hstep _ _ _ _ _ hplan site h) hrest

omit [AuditSink α] in
theorem prepare_keeps {m : Migration} (hresume : Site.Keeps P (Site.resume mode)) :
    Site.Keeps P (m.prepare mode) := by
  intro site h
  have hresumed : P (if m.resumes then site.resume mode else (.ok (), site)).2 := by
    split
    · exact hresume site h
    · exact h
  unfold prepare
  split
  · exact h
  · split
    · next hfails => rwa [hfails] at hresumed
    · next hdone => rwa [hdone] at hresumed

/-- What resuming the journal and carrying out each plan of its steps keeps, a migration keeps. -/
theorem run_keeps {m : Migration} (hresume : Site.Keeps P (Site.resume mode))
    (hsteps : ∀ step ∈ m.steps, ∀ view disk vars vars' plan,
      step.plan view disk vars = .ok (plan, vars') → Site.Keeps P (plan.execute mode))
    (vars : Variables) (site : Site σ α) (h : P site) : P (m.run mode vars site).site := by
  have hprepared := prepare_keeps (m := m) hresume site h
  unfold run
  split
  · next hfails => rwa [hfails] at hprepared
  · next ready hdone =>
      rw [hdone] at hprepared
      exact takeSteps_keeps hsteps vars ready hprepared

end Migration

end

/-! ## Live calls -/

namespace Site

section

variable [DocumentStore σ] [TransactionalStore σ]

/-- All that a live transaction can do: nothing at all, for an empty one, or what the store does,
followed by its records unless the store fails. -/
theorem apply_live_cases [AuditSink α] (ops : Transaction) (site : Site σ α) :
    (ops = [] ∧ site.apply .live ops = (.ok (), site)) ∨
      (∃ cause after, site.apply .live ops = (.error (.store cause), after) ∧
        (DocumentStore.apply ops site.store site.disk).result = .error cause ∧
        after.store = (DocumentStore.apply ops site.store site.disk).store ∧
        after.audit = site.audit) ∨
      ∃ stored : Site σ α, (DocumentStore.apply ops site.store site.disk).result = .ok () ∧
        (contents site.store).apply ops = .ok (contents stored.store) ∧
        stored.audit = site.audit ∧ site.apply .live ops = stored.forEach record ops := by
  unfold Site.apply
  by_cases hnone : ops.isEmpty = true
  · rw [if_pos hnone]
    exact Or.inl ⟨List.isEmpty_iff.1 hnone, rfl⟩
  · rw [if_neg hnone]
    right
    simp only [change]
    cases hresult : (DocumentStore.apply ops site.store site.disk).result with
    | error cause => exact Or.inl ⟨cause, _, rfl, rfl, rfl, rfl⟩
    | ok =>
        have hdone := TransactionalStore.apply_ok hresult
        exact Or.inr ⟨{ site with
          store := (DocumentStore.apply ops site.store site.disk).store
          disk := (DocumentStore.apply ops site.store site.disk).disk }, rfl, hdone, rfl, rfl⟩

variable [AtomicStore σ]

theorem drop_live_contents (name : String) (site : Site σ α) :
    contents (site.drop .live name).2.store = (contents site.store).dropCollection name :=
  AtomicStore.drop_contents name site.store site.disk

theorem resume_live_contents (site : Site σ α) :
    contents (site.resume .live).2.store = (contents site.store).resume.2 :=
  AtomicStore.resume_contents site.store site.disk

/-- Whatever becomes of a live transaction, the store has all of it or nothing. -/
theorem apply_live_contents [AuditSink α] (ops : Transaction) (site : Site σ α) :
    contents (site.apply .live ops).2.store = contents site.store ∨
      (contents site.store).apply ops = .ok (contents (site.apply .live ops).2.store) := by
  rcases apply_live_cases ops site with
    ⟨-, hdone⟩ | ⟨cause, after, hdone, -, hstore, -⟩ | ⟨stored, -, happly, -, hdone⟩
  · exact Or.inl (by rw [hdone])
  · rw [hdone, hstore]
    exact AtomicStore.apply_whole ops site.store site.disk
  · have hstore := forEach_store record_store ops stored
    right
    rw [hdone, hstore, happly]

end

section

variable {site : Site σ}

theorem record_unbounded (op : Operation) (h : site.audit.capacity = none) :
    ∃ after, site.record op = (.ok (), after) ∧ after.audit.capacity = none := by
  obtain ⟨store, disk, ⟨records, capacity, file⟩⟩ := site
  obtain rfl : capacity = none := h
  cases file with
  | none => exact ⟨_, rfl, rfl⟩
  | some file => exact ⟨_, rfl, rfl⟩

theorem forEach_record_unbounded (ops : Transaction) (h : site.audit.capacity = none) :
    ∃ after, site.forEach record ops = (.ok (), after) ∧ after.audit.capacity = none := by
  induction ops generalizing site with
  | nil => exact ⟨site, rfl, h⟩
  | cons op ops ih =>
      obtain ⟨reached, hrecord, hreached⟩ := record_unbounded op h
      obtain ⟨after, hrest, hafter⟩ := ih hreached
      refine ⟨after, ?_, hafter⟩
      simp only [forEach, hrecord, hrest]

end

end Site

/-! ## Before the steps -/

namespace Migration

theorem checkEmpty_stepName {view : StoreView} {names : List String} {e : MigrationError}
    (h : checkEmpty view names = .error e) : e.stepName? = none := by
  induction names with
  | nil => cases h
  | cons name names ih =>
      unfold checkEmpty at h
      split at h
      · cases h
        rfl
      · exact ih h
      · cases h
        rfl

theorem prepare_stepName [DocumentStore σ] {m : Migration} {mode : RunMode} {e : MigrationError}
    {site after : Site σ α} (h : m.prepare mode site = (.error e, after)) :
    e.stepName? = none := by
  unfold prepare at h
  split at h
  · next hcheck =>
      cases h
      exact checkEmpty_stepName hcheck
  · split at h
    · cases h
      rfl
    · cases h

/-- The snapshot with which the first step of a live run begins: the journal of the store was
carried out, if the migration asks for it. -/
def start (m : Migration) (s : Snapshot) : Snapshot :=
  if m.resumes then s.resume.2 else s

variable [DocumentStore σ] {m : Migration} {site ready : Site σ α}

theorem prepare_live_contents [TransactionalStore σ] [AtomicStore σ]
    (h : m.prepare .live site = (.ok (), ready)) :
    contents ready.store = m.start (contents site.store) ∧ ready.audit = site.audit := by
  unfold prepare at h
  split at h
  · cases h
  · unfold start
    by_cases hresumes : m.resumes = true
    · rw [if_pos hresumes] at h ⊢
      have hstore := Site.resume_live_contents site
      have haudit : (site.resume .live).2.audit = site.audit := rfl
      split at h
      · cases h
      · next resumed hresumed =>
          cases h
          rw [hresumed] at hstore haudit
          exact ⟨hstore, haudit⟩
    · rw [if_neg hresumes] at h ⊢
      cases h
      exact ⟨rfl, rfl⟩

/-- The journal that is resumed before the steps was carried out to its end. -/
theorem prepare_live_resumed [LawfulStore σ] (hresumes : m.resumes = true)
    (h : m.prepare .live site = (.ok (), ready)) :
    ∃ n, (contents site.store).resume = (.ok n, contents ready.store) := by
  have hstore := (prepare_live_contents h).1
  rw [start, if_pos hresumes] at hstore
  unfold prepare at h
  split at h
  · cases h
  · rw [if_pos hresumes] at h
    simp only [Site.resume, Site.change] at h
    cases hresult : (DocumentStore.resume site.store site.disk).result with
    | error e => simp [hresult, Except.mapError] at h
    | ok =>
        obtain ⟨n, hn⟩ := LawfulStore.resume_ok hresult
        exact ⟨n, Prod.ext hn hstore.symm⟩

end Migration

end FleetUpgrade
