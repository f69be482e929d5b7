import FleetUpgrade.Proofs.RunInvariants
import FleetUpgrade.Proofs.StepCollections

/-! # A store is upgraded once

The controller step inserts the settings of the controller and asks that there are
none. No later step is about the controllers, and a run begins its steps only
after the journal is empty. So from the moment at which that transaction is in the
store, whatever becomes of the run, another upgrade is refused: at the latest when
it comes to insert these settings again.
-/

namespace FleetUpgrade

open CollectionName (controllers clouds cloudCredentials permissions controllerUsers)
open TransactionalStore (contents)

/-! ## The transaction of the controller step -/

/-- An insertion is carried out only where nothing was, and what no other operation is about stays
there. -/
theorem Transaction.execute_inserted {earlier later : Transaction} {name id : String}
    {body : Document} {docs docs' : Documents}
    (h : execute (earlier ++ .insert name id body :: later) docs = .ok docs')
    (hearlier : ∀ op ∈ earlier, ¬(op.collection = name ∧ op.id = id))
    (hlater : ∀ op ∈ later, ¬(op.collection = name ∧ op.id = id)) :
    docs name id = none ∧ (docs' name id).isSome = true := by
  obtain ⟨between, hbefore, hrest⟩ := execute_append_ok.1 h
  obtain ⟨inserted, hinsert, hafter⟩ := execute_cons_ok.1 hrest
  have hold := execute_untouched hbefore hearlier
  have hnew := execute_untouched hafter hlater
  obtain ⟨hfree, hplaced⟩ := Operation.execute_insert_ok_iff.1 hinsert
  constructor
  · rw [← hold, hfree]
  · rw [hnew, hplaced, Documents.place_self]
    rfl

theorem ControllerFacts.execute_settings {facts : ControllerFacts} {uuid : String}
    {docs docs' : Documents} (h : (facts.transaction uuid).execute docs = .ok docs') :
    docs controllers "controllerSettings" = none ∧
      (docs' controllers "controllerSettings").isSome = true := by
  have hsplit : ∃ earlier body later,
      facts.transaction uuid =
        earlier ++ .insert controllers "controllerSettings" body :: later ∧
      (∀ op ∈ earlier, ¬(op.collection = controllers ∧ op.id = "controllerSettings")) ∧
      ∀ op ∈ later, ¬(op.collection = controllers ∧ op.id = "controllerSettings") := by
    have hclouds : clouds ≠ controllers := by decide
    have hcredentials : cloudCredentials ≠ controllers := by decide
    have hpermissions : permissions ≠ controllers := by decide
    have husers : controllerUsers ≠ controllers := by decide
    refine ⟨[_, _, _], _, [_, _], rfl, ?_, ?_⟩
    · simp [Operation.update, Operation.insert, hclouds, hcredentials]
    · simp [Operation.insert, grantAdmin, hpermissions, husers]
  obtain ⟨earlier, body, later, hops, hearlier, hlater⟩ := hsplit
  rw [hops] at h
  exact Transaction.execute_inserted h hearlier hlater

/-! ## Stores that were upgraded -/

/-- The settings of the controller are there, and the journal is empty. -/
structure Snapshot.Upgraded (s : Snapshot) : Prop where
  journal : s.pending = []
  settings : (s.find? controllers "controllerSettings").isSome = true

namespace Snapshot.Upgraded

variable {s s' : Snapshot}

theorem of_transaction {facts : ControllerFacts} {uuid : String} (hjournal : s.pending = [])
    (h : s.apply (facts.transaction uuid) = .ok s') : s'.Upgraded := by
  obtain ⟨hexecute, happlied⟩ := Snapshot.apply_ok h
  have hsettings := (ControllerFacts.execute_settings hexecute).2
  exact ⟨by rw [happlied.pending, hjournal], hsettings⟩

theorem not_transaction (h : s.Upgraded) (facts : ControllerFacts) (uuid : String) :
    s.apply (facts.transaction uuid) ≠ .ok s' := by
  intro happly
  have hnone := (ControllerFacts.execute_settings (Snapshot.apply_ok happly).1).1
  have hsome := h.settings
  rw [hnone] at hsome
  cases hsome

theorem apply (h : s.Upgraded) {ops : Transaction} (hops : ∀ op ∈ ops, op.collection ≠ controllers)
    (happly : s.apply ops = .ok s') : s'.Upgraded := by
  obtain ⟨hexecute, happlied⟩ := Snapshot.apply_ok happly
  have hsame : s'.find? controllers "controllerSettings" =
      s.find? controllers "controllerSettings" :=
    Transaction.execute_untouched hexecute fun op hop hplace => hops op hop hplace.1
  exact ⟨by rw [happlied.pending, h.journal], by rw [hsame, h.settings]⟩

theorem dropCollection (h : s.Upgraded) {name : String} (hname : name ≠ controllers) :
    (s.dropCollection name).Upgraded := by
  refine ⟨h.journal, ?_⟩
  rw [Snapshot.find?_dropCollection, if_neg hname, h.settings]

end Snapshot.Upgraded

/-! ## The steps after the controller step -/

def laterSteps (options : UpgradeOptions) : List Step := (upgradeSteps options).tail

theorem upgradeSteps_eq (options : UpgradeOptions) :
    upgradeSteps options = updateController options.certDirectory :: laterSteps options := rfl

theorem laterSteps_avoid (options : UpgradeOptions) :
    ∀ step ∈ laterSteps options, step.Avoids controllers := by
  unfold laterSteps
  rw [← List.drop_one]
  exact upgradeSteps_avoid options (by decide) (by decide) (by decide)

/-! ## Runs -/

section

variable {σ α : Type} [DocumentStore σ] [LawfulStore σ] [AuditSink α]

def Site.Upgraded (site : Site σ α) : Prop := (contents site.store).Upgraded

namespace Site.Upgraded

theorem apply {ops : Transaction} (hops : ∀ op ∈ ops, op.collection ≠ controllers) :
    Keeps (Upgraded (σ := σ) (α := α)) (Site.apply .live ops) := by
  intro now h
  unfold Upgraded at h ⊢
  rcases apply_live_contents ops now with hsame | happly
  · rwa [hsame]
  · exact Snapshot.Upgraded.apply h hops happly

omit [AuditSink α] in
theorem drop {name : String} (hname : name ≠ controllers) :
    Keeps (Upgraded (σ := σ) (α := α)) (Site.drop .live name) := by
  intro now h
  unfold Upgraded at h ⊢
  rw [drop_live_contents]
  exact h.dropCollection hname

omit [AuditSink α] in
theorem writeFile (file : PlannedFile) :
    Keeps (Upgraded (σ := σ) (α := α)) (Site.writeFile .live file) := by
  intro now h
  have hstore := (writeFile_spares .live file now).1
  unfold Upgraded at h ⊢
  rwa [hstore]

theorem execute {plan : StepPlan} (hops : ∀ op ∈ plan.transaction, op.collection ≠ controllers)
    (hdrops : controllers ∉ plan.droppedCollections) :
    Keeps (Upgraded (σ := σ) (α := α)) (plan.execute .live) := by
  refine StepPlan.execute_keeps (fun file _ => writeFile file) (apply hops) ?_
  intro name hname
  exact drop fun he => hdrops (he ▸ hname)

end Site.Upgraded

namespace Migration

/-- Whether a live upgrade gets the transaction of its controller step into the store. -/
def commitsController (options : UpgradeOptions) (vars : Variables) (site : Site σ α) : Bool :=
  match (upgrade options).prepare .live site with
  | (.error _, _) => false
  | (.ok _, ready) =>
      match (updateController options.certDirectory).plan (DocumentStore.view ready.store)
          ready.disk vars with
      | .error _ => false
      | .ok (plan, _) =>
          match ready.forEach (Site.writeFile .live) plan.files with
          | (.error _, _) => false
          | (.ok _, written) =>
              (DocumentStore.apply plan.transaction written.store written.disk).result.isOk

omit [LawfulStore σ] [AuditSink α] in
theorem commitsController_spec {options : UpgradeOptions} {vars : Variables} {site : Site σ α}
    (h : commitsController options vars site = true) :
    ∃ (ready : Site σ α) (facts : ControllerFacts) (written : Site σ α),
      (upgrade options).prepare .live site = (.ok (), ready) ∧
      (updateController options.certDirectory).plan (DocumentStore.view ready.store) ready.disk
          vars =
        .ok (⟨facts.transaction vars.controllerUuid, [], facts.files⟩, facts.varsAfter vars) ∧
      ready.forEach (Site.writeFile .live) facts.files = (.ok (), written) ∧
      (DocumentStore.apply (facts.transaction vars.controllerUuid) written.store
        written.disk).result = .ok () := by
  unfold commitsController at h
  split at h
  · cases h
  · next ready hready =>
      split at h
      · cases h
      · next plan vars' hplan =>
          obtain ⟨facts, hfacts, hplanned⟩ := Except.map_eq_ok.1 hplan
          cases hplanned
          split at h
          · cases h
          · next written hwritten =>
              obtain ⟨_, hcommit⟩ := exists_ok_of_isOk h
              exact ⟨ready, facts, written, hready, hplan, hwritten, hcommit⟩

theorem upgraded_of_execute {facts : ControllerFacts} {uuid : String} {ready written : Site σ α}
    (hjournal : (contents ready.store).pending = [])
    (hwritten : ready.forEach (Site.writeFile .live) facts.files = (.ok (), written))
    (hcommit : (DocumentStore.apply (facts.transaction uuid) written.store written.disk).result =
      .ok ()) :
    Site.Upgraded
      (StepPlan.execute ⟨facts.transaction uuid, [], facts.files⟩ .live ready).2 := by
  have hfiles := (Site.forEach_writeFile .live facts.files ready).1
  rw [hwritten] at hfiles
  have happlied : Site.Upgraded (written.apply .live (facts.transaction uuid)).2 := by
    rcases Site.apply_live_cases (facts.transaction uuid) written with
      ⟨hnone, -⟩ | ⟨cause, refused, -, hresult, -⟩ | ⟨stored, -, happly, -, hdone⟩
    · cases hnone
    · rw [hcommit] at hresult
      cases hresult
    · have hstore := Site.forEach_store Site.record_store (facts.transaction uuid) stored
      rw [hfiles] at happly
      unfold Site.Upgraded
      rw [hdone, hstore]
      exact .of_transaction hjournal happly
  unfold StepPlan.execute
  simp only [hwritten]
  split
  · next hfails => rwa [hfails] at happlied
  · next applied hdone => rwa [hdone] at happlied

/-- However a live upgrade ends that took the controller step, its store was upgraded. -/
theorem upgraded_of_commitsController {options : UpgradeOptions} {vars : Variables}
    {site : Site σ α} (h : commitsController options vars site = true) :
    Site.Upgraded ((upgrade options).run .live vars site).site := by
  obtain ⟨ready, facts, written, hready, hplan, hwritten, hcommit⟩ := commitsController_spec h
  obtain ⟨n, hresume⟩ := prepare_live_resumed rfl hready
  have hjournal := (Snapshot.resume_ok hresume).2.1
  have hdone := upgraded_of_execute hjournal hwritten hcommit
  have hrun : (upgrade options).run .live vars site =
      takeSteps .live (upgradeSteps options) vars ready := by
    unfold run
    rw [hready]
    rfl
  rw [hrun, upgradeSteps_eq]
  refine takeSteps_cons_keeps hplan hdone ?_
  refine takeSteps_keeps fun step hstep view disk before after plan hplanned => ?_
  obtain ⟨hops, hdrops⟩ := laterSteps_avoid options step hstep hplanned
  exact Site.Upgraded.execute hops hdrops

/-- The controller step cannot be carried out on a store that was upgraded, and leaves it. -/
theorem execute_of_upgraded (facts : ControllerFacts) (uuid : String) {ready : Site σ α}
    (h : ready.Upgraded) :
    ∃ cause after, StepPlan.execute ⟨facts.transaction uuid, [], facts.files⟩ .live ready =
        (.error cause, after) ∧
      contents after.store = contents ready.store := by
  have hfiles := (Site.forEach_writeFile .live facts.files ready).1
  unfold StepPlan.execute
  cases hwritten : ready.forEach (Site.writeFile .live) facts.files with
  | mk result written =>
      rw [hwritten] at hfiles
      cases result with
      | error cause => exact ⟨cause, written, rfl, congrArg contents hfiles⟩
      | ok =>
          rcases Site.apply_live_cases (facts.transaction uuid) written with
            ⟨hnone, -⟩ | ⟨cause, refused, hdone, hresult, hstore, -⟩ | ⟨stored, -, happly, -, -⟩
          · cases hnone
          · refine ⟨.store cause, refused, ?_, ?_⟩
            · simp only [hdone]
            · rw [hstore, LawfulStore.apply_refused hresult, hfiles]
          · rw [hfiles] at happly
            exact absurd happly (h.not_transaction facts uuid)

/-- A live upgrade of a store that was upgraded fails at the controller step or before, and leaves
all that the store holds. -/
theorem upgrade_of_upgraded (options : UpgradeOptions) (vars : Variables) {site : Site σ α}
    (h : site.Upgraded) :
    ∃ e, ((upgrade options).run .live vars site).result = .error e ∧
      (e.stepName? = none ∨ e.stepName? = some "update-controller") ∧
      contents ((upgrade options).run .live vars site).site.store = contents site.store := by
  have hprepared : contents ((upgrade options).prepare .live site).2.store =
      contents site.store := by
    refine prepare_keeps (P := fun now => contents now.store = contents site.store) ?_ site rfl
    intro now hnow
    rw [Site.resume_live_contents, hnow, Snapshot.resume_of_empty h.journal]
  unfold run
  cases hready : (upgrade options).prepare .live site with
  | mk result ready =>
      rw [hready] at hprepared
      cases result with
      | error e => exact ⟨e, rfl, Or.inl (prepare_stepName hready), hprepared⟩
      | ok =>
          have hsteps : (upgrade options).steps =
              updateController options.certDirectory :: laterSteps options := rfl
          simp only [hsteps]
          cases hplan : (updateController options.certDirectory).plan
              (DocumentStore.view ready.store) ready.disk vars with
          | error cause =>
              rw [takeSteps, hplan]
              exact ⟨_, rfl, Or.inr rfl, hprepared⟩
          | ok planned =>
              obtain ⟨facts, -, rfl⟩ := Except.map_eq_ok.1 hplan
              have hready : ready.Upgraded := by
                unfold Site.Upgraded
                rwa [hprepared]
              obtain ⟨cause, after, hexecute, hsame⟩ :=
                execute_of_upgraded facts vars.controllerUuid hready
              rw [takeSteps, hplan]
              simp only [hexecute]
              exact ⟨_, rfl, Or.inr rfl, hsame.trans hprepared⟩

end Migration

end

namespace Migration

/-- A store is upgraded at most once. After a live upgrade that got the transaction of the
controller step into the store, whether it went on to its end or failed later, a live upgrade of
what it left is refused before the controller step or at it, and changes nothing. The second run
may have other options, another controller and another kind of store with the same contents. -/
theorem upgraded_at_most_once {σ τ α β : Type} [DocumentStore σ] [LawfulStore σ] [AuditSink α]
    [DocumentStore τ] [LawfulStore τ] [AuditSink β] (options again : UpgradeOptions)
    (vars vars' : Variables) {site : Site σ α} {next : Site τ β}
    (hcommits : commitsController options vars site = true)
    (hnext : contents next.store =
      contents ((upgrade options).run .live vars site).site.store) :
    ∃ e, ((upgrade again).run .live vars' next).result = .error e ∧
      (e.stepName? = none ∨ e.stepName? = some "update-controller") ∧
      contents ((upgrade again).run .live vars' next).site.store = contents next.store := by
  have hfirst := upgraded_of_commitsController hcommits
  have hupgraded : next.Upgraded := by
    unfold Site.Upgraded
    rw [hnext]
    exact hfirst
  exact upgrade_of_upgraded again vars' hupgraded

/-- The bare controller behind a store that loses its cursor over the units. -/
def bareLossySite : Site (FaultyStore MemoryStore) :=
  ⟨⟨⟨bareController⟩, ⟨[], false, some ("units", 0)⟩, 0⟩, .empty, .empty⟩

/-- The upgrade fails at the units, and is refused when it is tried without the fault. -/
theorem upgraded_at_most_once_lost_cursor :
    commitsController .standard (.ofUuid "u") bareLossySite = true ∧
      ∃ (first : RunOutcome (FaultyStore MemoryStore)) (next : Site MemoryStore),
        (upgrade .standard).run .live (.ofUuid "u") bareLossySite = first ∧
        first.result = .error (.step "units" (.read "units" (.read "units" "cursor lost"))) ∧
        contents next.store = contents first.site.store ∧
        ∃ e, ((upgrade .standard).run .live (.ofUuid "v") next).result = .error e ∧
          (e.stepName? = none ∨ e.stepName? = some "update-controller") ∧
          contents ((upgrade .standard).run .live (.ofUuid "v") next).site.store =
            contents next.store := by
  have hcommits : commitsController .standard (.ofUuid "u") bareLossySite = true := by
    decide +kernel
  have hfails : ((upgrade .standard).run .live (.ofUuid "u") bareLossySite).result =
      .error (.step "units" (.read "units" (.read "units" "cursor lost"))) := by
    decide +kernel
  -- the outcome gets a name, or comparing two stores would evaluate the run
  obtain ⟨first, hfirst⟩ :
      ∃ first, (upgrade .standard).run .live (.ofUuid "u") bareLossySite = first := ⟨_, rfl⟩
  let next : Site MemoryStore := ⟨first.site.store.inner, .empty, .empty⟩
  have hnext : contents next.store = contents first.site.store := rfl
  have hsame := hnext
  rw [← hfirst] at hsame
  rw [hfirst] at hfails
  exact ⟨hcommits, first, next, hfirst, hfails, hnext, upgraded_at_most_once .standard .standard
    (.ofUuid "u") (.ofUuid "v") hcommits hsame⟩

end Migration
end FleetUpgrade
