import FleetUpgrade.Proofs.StepBoundaries
import Mathlib.Algebra.GroupWithZero.Nat

/-! # The log of a live run, replayed

Each record determines its operation, and the operations of the plans that were
carried out are in the log. So the operations of the log, applied one at a time to
the store as it was, make the documents of the store as it is, whether the run went
to its end or not.

There is one exception. A store in a file carries a transaction out before it
writes the outcome; when that write fails, so does the transaction, and the run
ends without a record of what the store has. Then the store is ahead of the log by
this transaction.
-/

namespace FleetUpgrade

open TransactionalStore (contents)

/-! ## One operation at a time -/

namespace Snapshot

/-- Apply operations one at a time, each as a transaction of its own. -/
def applyEach (s : Snapshot) (ops : Transaction) : Except StoreError Snapshot :=
  ops.foldlM (fun now op => now.apply [op]) s

theorem applyEach_of_execute {ops : Transaction} {s : Snapshot} {docs : Documents}
    (h : ops.execute s.find? = .ok docs) : ∃ s', s.applyEach ops = .ok s' ∧ s'.find? = docs := by
  induction ops generalizing s with
  | nil =>
      cases h
      exact ⟨s, rfl, rfl⟩
  | cons op ops ih =>
      obtain ⟨between, hop, hrest⟩ := Transaction.execute_cons_ok.1 h
      have hone : Transaction.execute [op] s.find? = .ok between :=
        Transaction.execute_cons_ok.2 ⟨between, hop, rfl⟩
      have hsame := apply_sameOutcome s [op]
      rw [hone] at hsame
      cases happly : s.apply [op] with
      | error e =>
          rw [happly] at hsame
          cases hsame
      | ok next =>
          have hnext := (apply_ok happly).1
          rw [hone, Except.ok.injEq] at hnext
          rw [hnext] at hrest
          obtain ⟨s', hall, hdocs⟩ := ih hrest
          refine ⟨s', ?_, hdocs⟩
          unfold applyEach at hall ⊢
          rw [List.foldlM_cons, happly]
          exact hall

end Snapshot

/-! ## Records -/

namespace AuditRecord

theorem ofOperation_eq_iff {r : AuditRecord} {op : Operation} (h : r = ofOperation op)
    (other : Operation) : ofOperation other = r ↔ other = r.toOperation := by
  subst h
  rw [toOperation_ofOperation]
  constructor
  · intro hsame
    rw [← toOperation_ofOperation other, hsame, toOperation_ofOperation]
  · intro hsame
    rw [hsame]

theorem map_toOperation_ofOperation (ops : Transaction) :
    (ops.map ofOperation).map toOperation = ops := by
  induction ops with
  | nil => rfl
  | cons op ops ih => simp only [List.map_cons, toOperation_ofOperation, ih]

end AuditRecord

/-! ## What the log has and what the store has -/

/-- Plans that drop nothing make of a snapshot what their operations make of its documents. -/
theorem StepPlan.execute_of_applyTo {plans : List StepPlan} {s s' : Snapshot}
    (hdrops : ∀ plan ∈ plans, plan.droppedCollections = [])
    (h : plans.foldlM (fun s plan => plan.applyTo s) s = .ok s') :
    Transaction.execute (plans.flatMap transaction) s.find? = .ok s'.find? := by
  induction plans generalizing s with
  | nil =>
      cases h
      rfl
  | cons plan plans ih =>
      obtain ⟨hplan, hplans⟩ := List.forall_mem_cons.1 hdrops
      rw [List.foldlM_cons] at h
      obtain ⟨between, hfirst, hrest⟩ := Except.bind_eq_ok.1 h
      obtain ⟨applied, happly, rfl⟩ := applyTo_ok_iff.1 hfirst
      rw [hplan] at hrest
      rw [List.flatMap_cons]
      exact Transaction.execute_append_ok.2 ⟨_, (Snapshot.apply_ok happly).1, ih hplans hrest⟩

variable {σ : Type} [DocumentStore σ]

section

variable [TransactionalStore σ]

/-- The log gained the records of operations that make the documents of the store out of those of a
snapshot. -/
def Logged (start : Snapshot) (before : List AuditRecord) (now : Site σ) : Prop :=
  ∃ ops : Transaction, now.audit.records = before ++ ops.map .ofOperation ∧
    ops.execute start.find? = .ok (contents now.store).find?

theorem CarriedOut.logged {plans : List StepPlan} {start : Snapshot} {before : List AuditRecord}
    {now : Site σ} (h : CarriedOut plans start before now)
    (hdrops : ∀ plan ∈ plans, plan.droppedCollections = []) : Logged start before now :=
  ⟨plans.flatMap StepPlan.transaction, h.records, StepPlan.execute_of_applyTo hdrops h.store⟩

namespace Logged

variable {start : Snapshot} {before : List AuditRecord} {now after : Site σ}

theorem of_same (h : Logged start before now)
    (hdocs : (contents after.store).find? = (contents now.store).find?)
    (hrecords : after.audit.records = now.audit.records) : Logged start before after := by
  unfold Logged
  rw [hdocs, hrecords]
  exact h

theorem documents_eq (h : Logged start before now) (hafter : Logged start before after)
    (hrecords : after.audit.records = now.audit.records) :
    (contents after.store).find? = (contents now.store).find? := by
  obtain ⟨ops, hops, hexecute⟩ := h
  obtain ⟨others, hothers, hexecute'⟩ := hafter
  rw [hops, hothers, List.append_cancel_left_eq] at hrecords
  have hsame := congrArg (List.map AuditRecord.toOperation) hrecords
  rw [AuditRecord.map_toOperation_ofOperation, AuditRecord.map_toOperation_ofOperation] at hsame
  rw [hsame, hexecute, Except.ok.injEq] at hexecute'
  exact hexecute'.symm

theorem replay (h : Logged start before now) :
    ∃ emitted s, now.audit.records = before ++ emitted ∧
      (∀ r ∈ emitted, ∀ op, AuditRecord.ofOperation op = r ↔ op = r.toOperation) ∧
      start.applyEach (emitted.map AuditRecord.toOperation) = .ok s ∧
      s.find? = (contents now.store).find? := by
  obtain ⟨ops, hrecords, hexecute⟩ := h
  obtain ⟨s, happly, hdocs⟩ := Snapshot.applyEach_of_execute hexecute
  refine ⟨ops.map .ofOperation, s, hrecords, ?_, ?_, hdocs⟩
  · intro r hr op
    obtain ⟨logged, -, hlogged⟩ := List.mem_map.1 hr
    exact AuditRecord.ofOperation_eq_iff hlogged.symm op
  · rw [AuditRecord.map_toOperation_ofOperation]
    exact happly

end Logged

/-! ## Transactions that the log misses -/

/-- The store fails a transaction and has changed its documents all the same. -/
def Site.Unlogged (ops : Transaction) (site : Site σ) : Prop :=
  ops ≠ [] ∧ (DocumentStore.apply ops site.store site.disk).result ≠ .ok () ∧
    (contents (DocumentStore.apply ops site.store site.disk).store).find? ≠
      (contents site.store).find?

/-- The store can only have changed because a write failed, and then it has the whole transaction
and the log has nothing of it. -/
theorem Site.Unlogged.carriedOut [AtomicStore σ] {ops : Transaction} {site : Site σ}
    (h : site.Unlogged ops) :
    ∃ file after, site.apply .live ops = (.error (.store (.io file)), after) ∧
      after.audit = site.audit ∧
      ops.execute (contents site.store).find? = .ok (contents after.store).find? ∧
      (contents after.store).find? ≠ (contents site.store).find? := by
  obtain ⟨hsome, hfails, hchanged⟩ := h
  rcases apply_live_cases ops site with
    ⟨hnone, -⟩ | ⟨cause, after, hdone, hresult, hstore, haudit⟩ | ⟨stored, hresult, -, -, -⟩
  · exact absurd hnone hsome
  · -- any other error leaves the store
    have hio : ∃ file, cause = .io file := by
      by_contra hno
      have hsame := TransactionalStore.apply_error hresult fun file he => hno ⟨file, he⟩
      exact hchanged (congrArg Snapshot.find? hsame)
    obtain ⟨file, rfl⟩ := hio
    rw [← hstore] at hchanged
    refine ⟨file, after, hdone, haudit, ?_, hchanged⟩
    rcases AtomicStore.apply_whole ops site.store site.disk with hsame | hops
    · rw [← hstore] at hsame
      exact absurd (congrArg Snapshot.find? hsame) hchanged
    · rw [← hstore] at hops
      exact (Snapshot.apply_ok hops).1
  · exact absurd hresult hfails

theorem Site.same_or_unlogged {ops : Transaction} {site after : Site σ} {cause : RunnerError}
    (h : site.apply .live ops = (.error cause, after)) (hunbounded : site.audit.capacity = none) :
    ((contents after.store).find? = (contents site.store).find? ∧ after.audit = site.audit) ∨
      site.Unlogged ops := by
  rcases apply_live_cases ops site with
    ⟨-, hdone⟩ | ⟨refusal, refused, hdone, hresult, hstore, haudit⟩ |
      ⟨stored, -, -, haudit, hdone⟩
  · rw [hdone] at h
    cases h
  · have hsome : ops ≠ [] := by
      intro hnone
      rw [hnone] at hdone
      cases hdone
    have hfails : (DocumentStore.apply ops site.store site.disk).result ≠ .ok () := by
      simp [hresult]
    rw [hdone] at h
    cases h
    by_cases hsame : (contents after.store).find? = (contents site.store).find?
    · exact Or.inl ⟨hsame, haudit⟩
    · rw [hstore] at hsame
      exact Or.inr ⟨hsome, hfails, hsame⟩
  · -- the log takes every record, so nothing fails once the store has the transaction
    obtain ⟨recorded, hrecord, -⟩ :=
      forEach_record_unbounded ops (haudit ▸ hunbounded : stored.audit.capacity = none)
    rw [hdone, hrecord] at h
    cases h

end

/-- In memory, or on a disk without faults, the log misses nothing. -/
theorem LawfulStore.not_unlogged [LawfulStore σ] (ops : Transaction) (site : Site σ) :
    ¬site.Unlogged ops := by
  rintro ⟨-, hfails, hchanged⟩
  cases hresult : (DocumentStore.apply ops site.store site.disk).result with
  | error cause => exact hchanged (congrArg Snapshot.find? (apply_refused hresult))
  | ok => exact hfails hresult

/-- However its snapshots are written, a store in a file has a transaction that it failed just when
it wrote the record and could not write the outcome. -/
theorem WritingStore.unlogged_iff (ops : Transaction) (site : Site WritingStore) :
    site.Unlogged ops ↔
      ops ≠ [] ∧ ∃ recorded s,
        site.store.write (site.store.file.snapshot.stage ops) site.disk = (.ok (), recorded) ∧
        site.store.file.snapshot.apply ops = .ok s ∧
        (site.store.write s recorded).1 ≠ .ok () ∧
        s.find? ≠ site.store.file.snapshot.find? :=
  and_congr_right fun _ =>
    FileStore.failed_applyWith_changes_iff site.store.write site.store.file site.disk ops

/-! ## How many records -/

theorem MigrationSummary.totalOperations_eq (summary : MigrationSummary) :
    summary.totalOperations = (summary.steps.map StepReport.operations).sum := by
  have hfrom : ∀ (steps : List StepReport) (total : Nat),
      steps.foldl (fun total step => total + step.operations) total =
        total + (steps.map StepReport.operations).sum := by
    intro steps
    induction steps with
    | nil => simp
    | cons step steps ih =>
        intro total
        rw [List.foldl_cons, ih, List.map_cons, List.sum_cons]
        omega
  have hall := hfrom summary.steps 0
  rwa [Nat.zero_add] at hall

theorem Completed.sum_operations {mode : RunMode} {steps : List Step} {vars vars' : Variables}
    {site reached : Site σ} {plans : List StepPlan}
    (h : Completed mode steps vars site plans vars' reached) :
    ((StepPlan.reports steps plans).map StepReport.operations).sum =
      (plans.flatMap StepPlan.transaction).length := by
  induction h with
  | nil vars site => rfl
  | @cons step steps _ _ _ _ _ _ plan plans _ _ _ ih =>
      have hreports : StepPlan.reports (step :: steps) (plan :: plans) =
          plan.report step.name :: StepPlan.reports steps plans := rfl
      rw [hreports, List.map_cons, List.sum_cons, ih, List.flatMap_cons, List.length_append]
      rfl

/-! ## Runs -/

def Step.DropsNothing (step : Step) : Prop :=
  ∀ ⦃view : StoreView⦄ ⦃disk : Disk⦄ ⦃vars vars' : Variables⦄ ⦃plan : StepPlan⦄,
    step.plan view disk vars = .ok (plan, vars') → plan.droppedCollections = []

theorem Step.dropsNothing_ofTransaction (name description : String)
    (plan : StoreView → Except StepError Transaction) :
    (Step.ofTransaction name description plan).DropsNothing := by
  intro view disk vars vars' p hp
  obtain ⟨ops, -, hpair⟩ := Except.map_eq_ok.1 hp
  cases hpair
  rfl

/-- A step ends a live run by a transaction that the store has and the log has not. -/
def Step.EndsUnlogged [TransactionalStore σ] (step : Step) (vars : Variables) (site : Site σ)
    (ops : Transaction) : Prop :=
  ∃ plan vars' written, step.plan (DocumentStore.view site.store) site.disk vars =
      .ok (plan, vars') ∧
    site.forEach (Site.writeFile .live) plan.files = (.ok (), written) ∧
    plan.transaction = ops ∧ written.Unlogged ops

theorem Step.EndsUnlogged.stops [TransactionalStore σ] [AtomicStore σ] {step : Step}
    {vars : Variables} {site : Site σ} {ops : Transaction} (h : step.EndsUnlogged vars site ops) :
    ∃ file after, step.Stops .live vars site (.apply step.name (.store (.io file))) after ∧
      after.audit = site.audit ∧
      ops.execute (contents site.store).find? = .ok (contents after.store).find? ∧
      (contents after.store).find? ≠ (contents site.store).find? := by
  obtain ⟨plan, vars', written, hplan, hwritten, rfl, hunlogged⟩ := h
  have hfiles := Site.forEach_writeFile .live plan.files site
  rw [hwritten] at hfiles
  obtain ⟨file, after, happly, haudit, hexecute, hchanged⟩ := hunlogged.carriedOut
  rw [hfiles.1] at hexecute hchanged
  rw [hfiles.2] at haudit
  refine ⟨file, after, .failed hplan ?_, haudit, hexecute, hchanged⟩
  unfold StepPlan.execute
  simp only [hwritten, happly]

/-- A step that ends a live run leaves the documents and the log, if it drops nothing and the log
takes every record, unless it does so by a transaction that the log misses. -/
theorem Step.Stops.same_or_unlogged [TransactionalStore σ] {step : Step} {vars : Variables}
    {site after : Site σ} {e : MigrationError} (h : step.Stops .live vars site e after)
    (hdrops : step.DropsNothing) (hunbounded : site.audit.capacity = none) :
    ((contents after.store).find? = (contents site.store).find? ∧
        after.audit.records = site.audit.records) ∨
      ∃ ops, step.EndsUnlogged vars site ops := by
  cases h with
  | unplanned hplan => exact Or.inl ⟨rfl, rfl⟩
  | @failed cause plan vars' after hplan hexecute =>
      have hfiles := Site.forEach_writeFile .live plan.files site
      unfold StepPlan.execute at hexecute
      split at hexecute
      · next hfails =>
          cases hexecute
          rw [hfails] at hfiles
          exact Or.inl ⟨by rw [hfiles.1], by rw [hfiles.2]⟩
      · next written hwritten =>
          rw [hwritten] at hfiles
          have hroom : written.audit.capacity = none := by rw [hfiles.2, hunbounded]
          split at hexecute
          · next happly =>
              cases hexecute
              rcases Site.same_or_unlogged happly hroom with ⟨hdocs, haudit⟩ | hunlogged
              · exact Or.inl ⟨by rw [hdocs, hfiles.1], by rw [haudit, hfiles.2]⟩
              · exact Or.inr ⟨_, plan, vars', written, hplan, hwritten, rfl, hunlogged⟩
          · -- with nothing to drop, carrying the plan out succeeds
            rw [hdrops hplan] at hexecute
            cases hexecute

theorem StepPlan.unbounded_execute [TransactionalStore σ] (plan : StepPlan) :
    Site.Keeps (fun now : Site σ => now.audit.capacity = none) (plan.execute .live) := by
  refine execute_keeps ?_ ?_ (fun name _ now h => h)
  · intro file _ now h
    rw [(Site.writeFile_spares .live file now).2]
    exact h
  · intro now h
    rcases Site.apply_live_cases plan.transaction now with
      ⟨-, hdone⟩ | ⟨_, after, hdone, -, -, haudit⟩ | ⟨stored, -, -, haudit, hdone⟩
    · rwa [hdone]
    · rw [hdone, haudit]
      exact h
    · obtain ⟨after, hrecord, hafter⟩ :=
        Site.forEach_record_unbounded plan.transaction (haudit ▸ h : stored.audit.capacity = none)
      rw [hdone, hrecord]
      exact hafter

namespace Completed

variable {mode : RunMode} {steps : List Step} {vars vars' : Variables} {site reached : Site σ}
  {plans : List StepPlan}

theorem dropsNothing (h : Completed mode steps vars site plans vars' reached)
    (hdrops : ∀ step ∈ steps, step.DropsNothing) :
    ∀ plan ∈ plans, plan.droppedCollections = [] := by
  induction h with
  | nil => simp
  | cons hplan _ _ ih =>
      obtain ⟨hstep, hsteps⟩ := List.forall_mem_cons.1 hdrops
      exact List.forall_mem_cons.2 ⟨hstep hplan, ih hsteps⟩

theorem unbounded [TransactionalStore σ]
    (h : Completed .live steps vars site plans vars' reached)
    (hunbounded : site.audit.capacity = none) : reached.audit.capacity = none := by
  induction h with
  | nil => exact hunbounded
  | @cons _ _ _ _ _ site _ _ plan _ _ hexecute _ ih =>
      have hdone := plan.unbounded_execute site hunbounded
      rw [hexecute] at hdone
      exact ih hdone

end Completed

namespace Migration

variable {m : Migration} {site : Site σ}

/-- A live run ends at a transaction that the store has and the log has not. -/
def EndsUnlogged [TransactionalStore σ] (m : Migration) (vars : Variables) (site : Site σ)
    (ops : Transaction) : Prop :=
  ∃ done step plans vars' reached, m.Reaches vars site done step plans vars' reached ∧
    step.EndsUnlogged vars' reached ops

theorem not_endsUnlogged [LawfulStore σ] (vars : Variables) (ops : Transaction) :
    ¬m.EndsUnlogged vars site ops := by
  rintro ⟨_, _, _, _, _, -, _, _, written, -, -, -, hunlogged⟩
  exact LawfulStore.not_unlogged ops written hunlogged

theorem start_of_empty {s : Snapshot} (hjournal : s.pending = []) : m.start s = s := by
  unfold start
  rw [Snapshot.resume_of_empty hjournal, ite_self]

section

variable [TransactionalStore σ] [AtomicStore σ]

theorem prepare_live_of_empty (hjournal : (contents site.store).pending = []) :
    contents (m.prepare .live site).2.store = contents site.store ∧
      (m.prepare .live site).2.audit = site.audit := by
  refine prepare_keeps
    (P := fun now => contents now.store = contents site.store ∧ now.audit = site.audit) ?_ site
    ⟨rfl, rfl⟩
  rintro now ⟨hstore, haudit⟩
  refine ⟨?_, haudit⟩
  rw [Site.resume_live_contents, hstore, Snapshot.resume_of_empty hjournal]

theorem Reaches.logged {vars vars' : Variables} {done : List Step} {step : Step}
    {plans : List StepPlan} {reached : Site σ}
    (h : m.Reaches vars site done step plans vars' reached)
    (hdrops : ∀ step ∈ m.steps, step.DropsNothing)
    (hjournal : (contents site.store).pending = []) :
    Logged (contents site.store) site.audit.records reached := by
  have hdone := h.carriedOut
  rw [start_of_empty hjournal] at hdone
  obtain ⟨⟨rest, hsteps⟩, ready, -, hcompleted⟩ := h
  refine hdone.logged (hcompleted.dropsNothing fun step hstep => hdrops step ?_)
  rw [hsteps]
  exact List.mem_append_left _ hstep

/-- A live run without drops ends with a log that tells the documents of the store, or else at a
transaction that the log misses. -/
theorem logged_or_endsUnlogged (vars : Variables) (hdrops : ∀ step ∈ m.steps, step.DropsNothing)
    (hjournal : (contents site.store).pending = []) (hunbounded : site.audit.capacity = none) :
    Logged (contents site.store) site.audit.records (m.run .live vars site).site ∨
      ∃ ops, m.EndsUnlogged vars site ops := by
  obtain ⟨hstore, haudit⟩ := prepare_live_of_empty (m := m) hjournal
  unfold run
  cases hready : m.prepare .live site with
  | mk result ready =>
      simp only [hready] at hstore haudit
      cases result with
      | error e => exact Or.inl ⟨[], by simp [haudit], by rw [hstore]; rfl⟩
      | ok =>
          simp only []
          cases htaken : (takeSteps .live m.steps vars ready).result with
          | ok reports =>
              obtain ⟨plans, vars', reached, hdone, hall⟩ := completed_of_takeSteps htaken
              have hcarried := hdone.carriedOut
              rw [hstore, haudit] at hcarried
              rw [hall]
              exact Or.inl (hcarried.logged (hdone.dropsNothing hdrops))
          | error e =>
              obtain ⟨done, step, rest, plans, vars', reached, hsteps, hdone, hstops⟩ :=
                stops_of_takeSteps htaken
              have hreaches : m.Reaches vars site done step plans vars' reached :=
                ⟨⟨rest, hsteps⟩, ready, hready, hdone⟩
              have hroom : reached.audit.capacity = none :=
                hdone.unbounded (by rw [haudit, hunbounded])
              have hstep : step.DropsNothing := hdrops step (by rw [hsteps]; simp)
              rcases hstops.same_or_unlogged hstep hroom with ⟨hdocs, hrecords⟩ | ⟨ops, hends⟩
              · exact Or.inl ((hreaches.logged hdrops hjournal).of_same hdocs hrecords)
              · exact Or.inr ⟨ops, done, step, plans, vars', reached, hreaches, hends⟩

/-- The log of a run that ends at a transaction that it misses tells the documents without it. -/
theorem EndsUnlogged.ahead {vars : Variables} {ops : Transaction}
    (h : m.EndsUnlogged vars site ops) (hdrops : ∀ step ∈ m.steps, step.DropsNothing)
    (hjournal : (contents site.store).pending = []) :
    (∃ name file, (m.run .live vars site).result = .error (.apply name (.store (.io file)))) ∧
      ∃ reached : Site σ, Logged (contents site.store) site.audit.records reached ∧
        (m.run .live vars site).site.audit.records = reached.audit.records ∧
        ops.execute (contents reached.store).find? =
          .ok (contents (m.run .live vars site).site.store).find? ∧
        (contents (m.run .live vars site).site.store).find? ≠ (contents reached.store).find? := by
  obtain ⟨done, step, plans, vars', reached, hreaches, hends⟩ := h
  obtain ⟨file, after, hstops, haudit, hexecute, hchanged⟩ := hends.stops
  obtain ⟨last, hrun, -⟩ := hreaches.run_stops hstops
  rw [hrun]
  exact ⟨⟨step.name, file, rfl⟩, reached, hreaches.logged hdrops hjournal, by rw [haudit],
    hexecute, hchanged⟩

/-- The log of a run tells the documents of some site: the last one, or the one before the
transaction that it misses. -/
theorem exists_logged (vars : Variables) (hdrops : ∀ step ∈ m.steps, step.DropsNothing)
    (hjournal : (contents site.store).pending = []) (hunbounded : site.audit.capacity = none) :
    ∃ told : Site σ, Logged (contents site.store) site.audit.records told ∧
      (m.run .live vars site).site.audit.records = told.audit.records ∧
      ((contents told.store).find? = (contents (m.run .live vars site).site.store).find? ∨
        ∃ ops, m.EndsUnlogged vars site ops) := by
  rcases logged_or_endsUnlogged vars hdrops hjournal hunbounded with hlogged | ⟨ops, hends⟩
  · exact ⟨_, hlogged, rfl, Or.inl rfl⟩
  · obtain ⟨-, reached, hlogged, hrecords, -, -⟩ := hends.ahead hdrops hjournal
    exact ⟨reached, hlogged, hrecords, Or.inr ⟨ops, hends⟩⟩

theorem EndsUnlogged.ahead_of_logged {vars : Variables} {ops : Transaction} {told : Site σ}
    (h : m.EndsUnlogged vars site ops) (hdrops : ∀ step ∈ m.steps, step.DropsNothing)
    (hjournal : (contents site.store).pending = [])
    (htold : Logged (contents site.store) site.audit.records told)
    (hrecords : (m.run .live vars site).site.audit.records = told.audit.records) :
    ops.execute (contents told.store).find? =
        .ok (contents (m.run .live vars site).site.store).find? ∧
      (contents (m.run .live vars site).site.store).find? ≠ (contents told.store).find? := by
  obtain ⟨-, reached, hlogged, hsame, hexecute, hchanged⟩ := h.ahead hdrops hjournal
  rw [htold.documents_eq hlogged (hsame.symm.trans hrecords)] at hexecute hchanged
  exact ⟨hexecute, hchanged⟩

theorem records_of_reports {vars : Variables} {reports : List StepReport}
    (h : (m.run .live vars site).result = .ok reports) :
    (m.run .live vars site).site.audit.records.length =
      site.audit.records.length + (MigrationSummary.mk .live reports).totalOperations := by
  unfold run at h ⊢
  cases hready : m.prepare .live site with
  | mk result ready =>
      cases result with
      | error e => simp [hready] at h
      | ok =>
          simp only [hready] at h ⊢
          have haudit := (prepare_live_contents hready).2
          obtain ⟨plans, vars', reached, hdone, htaken⟩ := completed_of_takeSteps h
          rw [htaken, Except.ok.injEq] at h
          rw [htaken, hdone.carriedOut.records, haudit, MigrationSummary.totalOperations_eq, ← h,
            hdone.sum_operations]
          simp

/-- The records that a live run puts to an unbounded log determine their operations, and applied one
at a time to the store as it was these make a snapshot, as many as a run that succeeds reports. The
snapshot has the documents of the store as it is, however the run ended, unless it ended at a
transaction that the store carried out and failed all the same, because it could not write what
became of it: then the store is ahead of the log by this transaction. -/
theorem log_replays_iff (m : Migration) (vars : Variables) (site : Site σ)
    (hdrops : ∀ step ∈ m.steps, step.DropsNothing)
    (hjournal : (contents site.store).pending = []) (hunbounded : site.audit.capacity = none) :
    let after := m.run .live vars site
    ∃ emitted s, after.site.audit.records = site.audit.records ++ emitted ∧
      (∀ r ∈ emitted, ∀ op, AuditRecord.ofOperation op = r ↔ op = r.toOperation) ∧
      (contents site.store).applyEach (emitted.map AuditRecord.toOperation) = .ok s ∧
      (∀ reports, after.result = .ok reports →
        emitted.length = (MigrationSummary.mk .live reports).totalOperations) ∧
      ((∀ name id, s.find? name id = (contents after.site.store).find? name id) ↔
        ¬∃ ops, m.EndsUnlogged vars site ops) ∧
      ∀ ops, m.EndsUnlogged vars site ops →
        (∃ name file, after.result = .error (.apply name (.store (.io file)))) ∧
          ops.execute s.find? = .ok (contents after.site.store).find? := by
  intro after
  obtain ⟨told, htold, hrecords, hends⟩ :=
    exists_logged (m := m) vars hdrops hjournal hunbounded
  obtain ⟨emitted, s, hemitted, hunique, happly, hdocs⟩ := htold.replay
  refine ⟨emitted, s, hrecords.trans hemitted, hunique, happly, ?_, ⟨?_, ?_⟩, ?_⟩
  · intro reports hreports
    have hlength := records_of_reports hreports
    rw [hrecords, hemitted, List.length_append] at hlength
    omega
  · rintro hagree ⟨ops, hunlogged⟩
    refine (hunlogged.ahead_of_logged hdrops hjournal htold hrecords).2 ?_
    rw [← hdocs]
    funext name id
    exact (hagree name id).symm
  · intro hnone name id
    rcases hends with hsame | hunlogged
    · rw [hdocs, hsame]
    · exact absurd hunlogged hnone
  · intro ops hunlogged
    rw [hdocs]
    exact ⟨(hunlogged.ahead hdrops hjournal).1,
      (hunlogged.ahead_of_logged hdrops hjournal htold hrecords).1⟩

end

end Migration

/-! ## A disk that takes one file -/

namespace FileStore

/-- Write as long as no file was made on the disk. -/
def persistOnce (path : String) : Writing := fun s disk =>
  if disk.made = 0 then persist path s disk else (.error (.io (temporaryPath path)), disk)

theorem persistOnce_failsByIo (path : String) : Writing.FailsByIo (persistOnce path) := by
  intro s disk e h
  unfold persistOnce at h
  split at h
  · exact persist_failsByIo path h
  · cases h
    exact ⟨_, rfl⟩

end FileStore

namespace Migration

def oneWriteSite : Site WritingStore :=
  let snapshot : Snapshot :=
    ⟨.ofList [("machines", .ofList [("0", textFields [("_id", "0")])])], []⟩
  ⟨⟨⟨"/store.json", snapshot⟩, FileStore.persistOnce "/store.json",
    FileStore.persistOnce_failsByIo "/store.json"⟩, .empty, .empty⟩

def machineEdit : Transaction :=
  [.update "machines" "0" ⟨textFields [("series", "xenial")], []⟩]

def hasSeries (found : Option Document) : Bool :=
  found.any fun d => (d.get? "series").isSome

theorem twoEdits_dropsNothing : ∀ step ∈ twoEdits.steps, step.DropsNothing := by
  intro step hstep
  simp only [twoEdits, List.mem_cons, List.not_mem_nil, or_false] at hstep
  rcases hstep with rfl | rfl
  · exact Step.dropsNothing_ofTransaction _ _ _
  · exact Step.dropsNothing_ofTransaction _ _ _

/-- The record of the edit is written, the edited machine is not. -/
theorem endsUnlogged_one_write :
    twoEdits.EndsUnlogged (.ofUuid "u") oneWriteSite machineEdit := by
  have hunlogged : oneWriteSite.Unlogged machineEdit := by
    refine (WritingStore.unlogged_iff machineEdit oneWriteSite).2 ⟨nofun, _, _, rfl, rfl, nofun, ?_⟩
    intro hsame
    have hseries := congrArg hasSeries (congrFun (congrFun hsame "machines") "0")
    cases hseries
  exact ⟨[], _, [], _, oneWriteSite, ⟨⟨_, rfl⟩, _, rfl, .nil _ _⟩, _, _, oneWriteSite, rfl, rfl,
    rfl, hunlogged⟩

/-- The run that loses a cursor at its second edit is in its log. The run that cannot write the
outcome of its first is not: the machine is edited, and the log does not say so. -/
theorem log_replays_iff_both_ways :
    (∀ step ∈ twoEdits.steps, step.DropsNothing) ∧
      (let site := lossySite []
        let after := twoEdits.run .live (.ofUuid "u") site
        (contents site.store).pending = [] ∧ site.audit.capacity = none ∧
          after.result.isOk = false ∧
          ∃ emitted s, after.site.audit.records = emitted ∧ emitted.length = 1 ∧
            (contents site.store).applyEach (emitted.map AuditRecord.toOperation) = .ok s ∧
            ∀ name id, s.find? name id = (contents after.site.store).find? name id) ∧
      (let site := oneWriteSite
        let after := twoEdits.run .live (.ofUuid "u") site
        (contents site.store).pending = [] ∧ site.audit.capacity = none ∧
          twoEdits.EndsUnlogged (.ofUuid "u") site machineEdit ∧
          ∃ emitted s, after.site.audit.records = emitted ∧
            (contents site.store).applyEach (emitted.map AuditRecord.toOperation) = .ok s ∧
            (¬∀ name id, s.find? name id = (contents after.site.store).find? name id) ∧
            machineEdit.execute s.find? = .ok (contents after.site.store).find?) := by
  refine ⟨twoEdits_dropsNothing, ?_, ?_⟩
  · obtain ⟨emitted, s, hrecords, -, happly, -, hagree, -⟩ :=
      log_replays_iff twoEdits (.ofUuid "u") (lossySite []) twoEdits_dropsNothing rfl rfl
    have hone : (twoEdits.run .live (.ofUuid "u") (lossySite [])).site.audit.records.length = 1 := by
      decide +kernel
    have hnone : ¬∃ ops, twoEdits.EndsUnlogged (.ofUuid "u") (lossySite []) ops := by
      rintro ⟨ops, hunlogged⟩
      exact not_endsUnlogged (.ofUuid "u") ops hunlogged
    exact ⟨rfl, rfl, by decide +kernel, emitted, s, hrecords, by rw [hrecords] at hone; exact hone,
      happly, hagree.2 hnone⟩
  · obtain ⟨emitted, s, hrecords, -, happly, -, hagree, hahead⟩ :=
      log_replays_iff twoEdits (.ofUuid "u") oneWriteSite twoEdits_dropsNothing rfl rfl
    exact ⟨rfl, rfl, endsUnlogged_one_write, emitted, s, hrecords, happly,
      fun hall => hagree.1 hall ⟨_, endsUnlogged_one_write⟩, (hahead _ endsUnlogged_one_write).2⟩

/-- The log of a live run does not always make the documents of the store. -/
theorem log_may_miss_transaction :
    ¬∀ (m : Migration) (vars : Variables) (site : Site WritingStore),
      (∀ step ∈ m.steps, step.DropsNothing) → (contents site.store).pending = [] →
      site.audit.capacity = none →
        let after := m.run .live vars site
        ∃ emitted s, after.site.audit.records = site.audit.records ++ emitted ∧
          (contents site.store).applyEach (emitted.map AuditRecord.toOperation) = .ok s ∧
          ∀ name id, s.find? name id = (contents after.site.store).find? name id := by
  intro hall
  obtain ⟨emitted, s, hrecords, happly, hdocs⟩ :=
    hall twoEdits (.ofUuid "u") oneWriteSite twoEdits_dropsNothing rfl rfl
  have hnone : (twoEdits.run .live (.ofUuid "u") oneWriteSite).site.audit.records = [] := rfl
  rw [hnone] at hrecords
  obtain rfl : emitted = [] := (List.append_eq_nil_iff.1 hrecords.symm).2
  cases happly
  have hseries := congrArg hasSeries (hdocs "machines" "0")
  cases hseries

end Migration
end FleetUpgrade
