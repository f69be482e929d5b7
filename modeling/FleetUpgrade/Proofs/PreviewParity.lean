import FleetUpgrade.Proofs.Precheck
import FleetUpgrade.Proofs.UpgradeFootprints

/-! # A preview describes the live run

A live run plans each step on what the steps before it left, a preview plans all
of them on the untouched store. The facets that are still to be read are the
same in both, so the plans are the same, and so are the records. What has to be
asked for is that the archive can be reached before the run and is written by
it neither as a credential file nor as the store's own file.
-/

namespace FleetUpgrade

open CollectionName (models)
open SnapshotStore (snapshot)

/-! ## The stores -/

/-- The facets that are still to be read are as they were at the start. -/
structure Undisturbed (fps : List Footprint) (start now : Snapshot) : Prop where
  start_keyed : start.Keyed
  start_plain : start.ModelIdsPlain
  keyed : now.Keyed
  modelIds : Facet.ids.Agrees models start.find? now.find?
  reads : ∀ fp ∈ fps, ∀ r ∈ fp.reads, r.2.Agrees r.1 start.find? now.find?

namespace Undisturbed

variable {fps : List Footprint} {fp : Footprint} {start now next : Snapshot} {plan : StepPlan}

theorem refl (hk : start.Keyed) (hplain : start.ModelIdsPlain) : Undisturbed fps start start :=
  ⟨hk, hplain, hk, .refl _ _ _, fun _ _ _ _ => .refl _ _ _⟩

theorem plain (h : Undisturbed fps start now) : now.ModelIdsPlain := by
  intro id hid
  rw [← h.modelIds id] at hid
  exact h.start_plain id hid

/-- A plan that keeps to its footprint disturbs no step that comes after. -/
theorem after (h : Undisturbed (fp :: fps) start now) (htouches : plan.touches ⊆ fp.changes)
    (happly : plan.applyTo now = .ok next) (hmodels : (models, Facet.ids) ∉ fp.changes)
    (hbefore : ∀ later ∈ fps, Footprint.Before fp later) : Undisturbed fps start next where
  start_keyed := h.start_keyed
  start_plain := h.start_plain
  keyed := StepPlan.applyTo_keyed h.keyed happly
  modelIds :=
    h.modelIds.trans (StepPlan.applyTo_agrees happly fun hmem => hmodels (htouches hmem))
  reads later hlater r hr := by
    refine (h.reads later (List.mem_cons_of_mem _ hlater) r hr).trans ?_
    exact StepPlan.applyTo_agrees happly fun hmem => hbefore later hlater r hr (htouches hmem)

end Undisturbed

/-! ## The sites -/

theorem Site.forEach_cons_ok {σ α ε : Type} {act : α → Site σ → Except ε Unit × Site σ} {item : α}
    {items : List α} {site site' : Site σ} :
    site.forEach act (item :: items) = (.ok (), site') ↔
      ∃ between, act item site = (.ok (), between) ∧
        between.forEach act items = (.ok (), site') := by
  rw [Site.forEach]
  cases act item site with
  | mk result between =>
      cases result with
      | error e => simp
      | ok => simp

theorem Migration.takeSteps_cons {σ : Type} [DocumentStore σ] {mode : RunMode} {step : Step}
    (steps : List Step) {vars vars' : Variables} {site site' : Site σ} {plan : StepPlan}
    (hplan : step.plan (DocumentStore.view site.store) site.disk vars = .ok (plan, vars'))
    (hexecute : plan.execute mode site = (.ok (), site')) :
    takeSteps mode (step :: steps) vars site =
      { takeSteps mode steps vars' site' with
        result := (takeSteps mode steps vars' site').result.map (plan.report step.name :: ·) } := by
  rw [takeSteps, hplan]
  simp only [hexecute]

/-- A step that was taken has a plan, and the plan was carried out. -/
theorem Migration.takeSteps_cons_ok {σ : Type} [DocumentStore σ] {mode : RunMode} {step : Step}
    {steps : List Step} {vars : Variables} {site : Site σ} {reports : List StepReport}
    (h : (takeSteps mode (step :: steps) vars site).result = .ok reports) :
    ∃ plan vars' site' rest, step.plan (DocumentStore.view site.store) site.disk vars =
        .ok (plan, vars') ∧
      plan.execute mode site = (.ok (), site') ∧
      (takeSteps mode steps vars' site').result = .ok rest ∧
      plan.report step.name :: rest = reports := by
  rw [takeSteps] at h
  split at h
  · cases h
  · next plan vars' hplan =>
      split at h
      · cases h
      · next site' hexecute =>
          obtain ⟨rest, hrest, hreports⟩ := Except.map_eq_ok.1 h
          exact ⟨plan, vars', site', rest, hplan, hexecute, hrest, hreports⟩

section

variable {σ : Type} [DocumentStore σ] [SnapshotStore σ]

/-- A live run and a preview have recorded the same, and certain files are read alike. -/
structure Parallel (start : Disk) (paths : List String) (live preview : Site σ) : Prop where
  audit : live.audit = preview.audit
  unbounded : preview.audit.capacity = none
  apart : ∀ file ∈ SnapshotStore.files live.store, ∀ path ∈ paths,
    start.place file ≠ start.place path
  alike : ∀ path ∈ paths, Disk.Alike start path live.disk preview.disk

namespace Parallel

variable {start : Disk} {paths : List String} {live live' preview : Site σ}

theorem record (h : Parallel start paths live preview) (op : Operation) :
    ∃ live' preview', live.record op = (.ok (), live') ∧ preview.record op = (.ok (), preview') ∧
      Parallel start paths live' preview' ∧ live'.store = live.store ∧
      preview'.store = preview.store := by
  obtain ⟨store, disk, ⟨records, capacity, file⟩⟩ := preview
  obtain ⟨store', disk', audit'⟩ := live
  obtain rfl : audit' = ⟨records, capacity, file⟩ := h.audit
  obtain rfl : capacity = none := h.unbounded
  cases file with
  | none => exact ⟨_, _, rfl, rfl, ⟨rfl, rfl, h.apart, h.alike⟩, rfl, rfl⟩
  | some file =>
      refine ⟨_, _, rfl, rfl, ⟨rfl, rfl, h.apart, fun path hpath => ?_⟩, rfl, rfl⟩
      exact (h.alike path hpath).writeTo file _

theorem forEach_record (h : Parallel start paths live preview) (ops : Transaction) :
    ∃ live' preview', live.forEach Site.record ops = (.ok (), live') ∧
      preview.forEach Site.record ops = (.ok (), preview') ∧
      Parallel start paths live' preview' ∧ live'.store = live.store ∧
      preview'.store = preview.store := by
  induction ops generalizing live preview with
  | nil => exact ⟨live, preview, rfl, rfl, h, rfl, rfl⟩
  | cons op ops ih =>
      obtain ⟨live₁, preview₁, hlive, hpreview, h₁, hstore, hstore'⟩ := h.record op
      obtain ⟨live₂, preview₂, hlives, hpreviews, h₂, hstores, hstores'⟩ := ih h₁
      exact ⟨live₂, preview₂, Site.forEach_cons_ok.2 ⟨live₁, hlive, hlives⟩,
        Site.forEach_cons_ok.2 ⟨preview₁, hpreview, hpreviews⟩, h₂, hstores.trans hstore,
        hstores'.trans hstore'⟩

theorem change {call : σ → Disk → Outcome σ}
    (hcall : Outcome.Discreet SnapshotStore.files call) (h : Parallel start paths live preview)
    (hdone : live.change call = (.ok (), live')) :
    (call live.store live.disk).result = .ok () ∧
      live'.store = (call live.store live.disk).store ∧ Parallel start paths live' preview := by
  unfold Site.change at hdone
  cases hresult : (call live.store live.disk).result with
  | error e => simp [hresult, Except.mapError] at hdone
  | ok =>
      obtain ⟨hfiles, hkeeps⟩ := hcall live.store live.disk hresult
      simp only [Prod.mk.injEq] at hdone
      obtain ⟨-, rfl⟩ := hdone
      refine ⟨rfl, rfl, h.audit, h.unbounded, ?_, fun path hpath => ?_⟩
      · rw [hfiles]
        exact h.apart
      · refine (h.alike path hpath).of_keeps (hkeeps _ fun file hfile => ?_)
        rw [Disk.place_of_here (h.alike path hpath).here]
        exact h.apart file hfile path hpath

theorem apply {ops : Transaction} (h : Parallel start paths live preview)
    (hdone : live.apply .live ops = (.ok (), live')) :
    (snapshot live.store).apply ops = .ok (snapshot live'.store) ∧
      ∃ preview', preview.apply .preview ops = (.ok (), preview') ∧
        preview'.store = preview.store ∧ Parallel start paths live' preview' := by
  unfold Site.apply at hdone ⊢
  split at hdone
  · next hempty =>
      rw [List.isEmpty_iff.1 hempty]
      cases hdone
      exact ⟨rfl, preview, rfl, rfl, h⟩
  · next hsome =>
      rw [if_neg hsome]
      dsimp only at hdone ⊢
      cases hchange : live.change (DocumentStore.apply ops) with
      | mk result between =>
          cases result with
          | error e => simp [hchange] at hdone
          | ok =>
              simp only [hchange] at hdone
              obtain ⟨hresult, hstore, h₁⟩ := h.change (SnapshotStore.apply_discreet ops) hchange
              obtain ⟨live₂, preview', hlive, hpreview, h₂, hkept, hkept'⟩ := h₁.forEach_record ops
              rw [hdone] at hlive
              cases hlive
              refine ⟨?_, preview', hpreview, hkept', h₂⟩
              rw [hkept, hstore]
              exact SnapshotStore.apply_ok hresult

theorem forEach_drop {names : List String} (h : Parallel start paths live preview)
    (hdone : live.forEach (Site.drop .live) names = (.ok (), live')) :
    snapshot live'.store = names.foldl Snapshot.dropCollection (snapshot live.store) ∧
      preview.forEach (Site.drop .preview) names = (.ok (), preview) ∧
      Parallel start paths live' preview := by
  induction names generalizing live with
  | nil =>
      cases hdone
      exact ⟨rfl, rfl, h⟩
  | cons name names ih =>
      obtain ⟨between, hdrop, hrest⟩ := Site.forEach_cons_ok.1 hdone
      obtain ⟨hresult, hstore, h₁⟩ := h.change (SnapshotStore.drop_discreet name) hdrop
      obtain ⟨hsnapshot, hpreview, h₂⟩ := ih h₁ hrest
      refine ⟨?_, Site.forEach_cons_ok.2 ⟨preview, rfl, hpreview⟩, h₂⟩
      rw [hsnapshot, hstore, SnapshotStore.drop_ok hresult]
      rfl

theorem writeFile {file : PlannedFile} (h : Parallel start paths live preview)
    (hfile : ∀ path ∈ paths, start.place file.path ≠ start.place path)
    (hdone : live.writeFile .live file = (.ok (), live')) :
    live'.store = live.store ∧ Parallel start paths live' preview := by
  unfold Site.writeFile at hdone
  dsimp only at hdone
  split at hdone
  · cases hdone
  · next made hmade =>
      split at hdone
      · cases hdone
      · next written hwrite =>
          split at hdone
          · cases hdone
          · next closed hmode =>
              cases hdone
              refine ⟨rfl, h.audit, h.unbounded, h.apart, fun path hpath => ?_⟩
              have halike := h.alike path hpath
              have hparents := Disk.spares_makeParents live.disk file.path (start.place path)
              rw [hmade] at hparents
              have hhere : made.here = start.here := hparents.here.trans halike.here
              have hwritten : Disk.Spares (start.place path) made written := by
                refine Disk.spares_write? hwrite ?_
                rw [Disk.place_of_here hhere]
                exact hfile path hpath
              have hclosed : Disk.Spares (start.place path) written closed := by
                refine Disk.spares_setMode? hmode ?_
                rw [Disk.place_of_here (hwritten.here.trans hhere)]
                exact hfile path hpath
              exact halike.of_keeps ((hparents.trans hwritten).trans hclosed).keeps

theorem forEach_writeFile {files : List PlannedFile} (h : Parallel start paths live preview)
    (hfiles : ∀ file ∈ files, ∀ path ∈ paths, start.place file.path ≠ start.place path)
    (hdone : live.forEach (Site.writeFile .live) files = (.ok (), live')) :
    live'.store = live.store ∧
      preview.forEach (Site.writeFile .preview) files = (.ok (), preview) ∧
      Parallel start paths live' preview := by
  induction files generalizing live with
  | nil =>
      cases hdone
      exact ⟨rfl, rfl, h⟩
  | cons file files ih =>
      obtain ⟨between, hwrite, hrest⟩ := Site.forEach_cons_ok.1 hdone
      obtain ⟨hstore, h₁⟩ := h.writeFile (hfiles file List.mem_cons_self) hwrite
      obtain ⟨hstores, hpreview, h₂⟩ :=
        ih h₁ (fun other hother => hfiles other (List.mem_cons_of_mem _ hother)) hrest
      exact ⟨hstores.trans hstore, Site.forEach_cons_ok.2 ⟨preview, rfl, hpreview⟩, h₂⟩

theorem execute {plan : StepPlan} (h : Parallel start paths live preview)
    (hfiles : ∀ file ∈ plan.files, ∀ path ∈ paths, start.place file.path ≠ start.place path)
    (hdone : plan.execute .live live = (.ok (), live')) :
    plan.applyTo (snapshot live.store) = .ok (snapshot live'.store) ∧
      ∃ preview', plan.execute .preview preview = (.ok (), preview') ∧
        preview'.store = preview.store ∧ Parallel start paths live' preview' := by
  unfold StepPlan.execute at hdone ⊢
  split at hdone
  · cases hdone
  · next written hwrite =>
      obtain ⟨hstore, hpreview, h₁⟩ := h.forEach_writeFile hfiles hwrite
      rw [hpreview]
      split at hdone
      · cases hdone
      · next applied happly =>
          obtain ⟨hsnapshot, preview', hpreview', hkept, h₂⟩ := h₁.apply happly
          obtain ⟨hdropped, hlast, h₃⟩ := h₂.forEach_drop hdone
          rw [hstore] at hsnapshot
          refine ⟨StepPlan.applyTo_ok_iff.2 ⟨_, hsnapshot, hdropped.symm⟩, preview', ?_, hkept, h₃⟩
          simp only [hpreview', hlast]

end Parallel

/-! ## The steps -/

namespace Migration

variable {start : Disk} {paths : List String} {live preview : Site σ}

/-- If a live run takes its steps, a preview describes the same ones. -/
theorem takeSteps_parallel {steps : List Step} {fps : List Footprint}
    (hwithin : List.Forall₂ Step.Within steps fps) (hpairwise : fps.Pairwise Footprint.Before)
    (hmodels : ∀ fp ∈ fps, (models, Facet.ids) ∉ fp.changes)
    (hpaths : ∀ fp ∈ fps, ∀ file ∈ fp.files, file ∈ paths) {begin : Snapshot}
    (hfiles : ∀ step ∈ steps, ∀ disk vars plan vars',
      step.plan begin.view disk vars = .ok (plan, vars') →
        ∀ file ∈ plan.files, ∀ path ∈ paths, start.place file.path ≠ start.place path)
    {vars : Variables} {reports : List StepReport} (h : Parallel start paths live preview)
    (hbegin : snapshot preview.store = begin)
    (hstore : Undisturbed fps begin (snapshot live.store))
    (hlive : (takeSteps .live steps vars live).result = .ok reports) :
    (takeSteps .preview steps vars preview).result = .ok reports ∧
      (takeSteps .preview steps vars preview).vars = (takeSteps .live steps vars live).vars ∧
      (takeSteps .preview steps vars preview).site.audit =
        (takeSteps .live steps vars live).site.audit := by
  induction hwithin generalizing vars live preview reports with
  | nil => exact ⟨hlive, rfl, h.audit.symm⟩
  | @cons step fp steps fps hstep _ ih =>
      obtain ⟨plan, vars', live', rest, hplan, hexecute, hrest, rfl⟩ := takeSteps_cons_ok hlive
      -- the facets and files that the plan depends on are the same for the preview
      have hpreview : step.plan (DocumentStore.view preview.store) preview.disk vars =
          .ok (plan, vars') := by
        rw [SnapshotStore.view_eq] at hplan ⊢
        rw [hbegin, ← hplan]
        refine hstep.reads vars hstore.start_keyed hstore.keyed
          (hstore.reads fp List.mem_cons_self) fun file hfile => ?_
        have halike := h.alike file (hpaths fp List.mem_cons_self file hfile)
        exact (halike.read? (hstep.files hplan file hfile)).symm
      have hwritten : ∀ file ∈ plan.files, ∀ path ∈ paths,
          start.place file.path ≠ start.place path := by
        rw [SnapshotStore.view_eq, hbegin] at hpreview
        exact hfiles step List.mem_cons_self preview.disk vars plan vars' hpreview
      obtain ⟨happly, preview', hexecute', hkept, h₁⟩ := h.execute hwritten hexecute
      have htouches : plan.touches ⊆ fp.changes := by
        rw [SnapshotStore.view_eq] at hplan
        exact hstep.changes hstore.keyed hstore.plain hplan
      have hnext := hstore.after htouches happly (hmodels fp List.mem_cons_self)
        (List.pairwise_cons.1 hpairwise).1
      rw [takeSteps_cons steps hplan hexecute, takeSteps_cons steps hpreview hexecute']
      obtain ⟨hresult, hvars, haudit⟩ := ih (List.pairwise_cons.1 hpairwise).2
        (fun other hother => hmodels other (List.mem_cons_of_mem _ hother))
        (fun other hother => hpaths other (List.mem_cons_of_mem _ hother))
        (fun other hother => hfiles other (List.mem_cons_of_mem _ hother)) h₁
        (by rw [hkept, hbegin]) hnext hrest
      refine ⟨?_, hvars, haudit⟩
      simp only [hresult, Except.map]

/-- With an empty journal a live run and a preview begin their steps on the same store. -/
theorem prepare_parallel {m : Migration} {ready site : Site σ}
    (h : Parallel start paths site site) (hjournal : (snapshot site.store).pending = [])
    (hready : m.prepare .live site = (.ok (), ready)) :
    m.prepare .preview site = (.ok (), site) ∧ snapshot ready.store = snapshot site.store ∧
      Parallel start paths ready site := by
  unfold prepare at hready ⊢
  cases hcheck : checkEmpty (DocumentStore.view site.store) m.precheck with
  | error e => simp [hcheck] at hready
  | ok =>
      simp only [hcheck] at hready ⊢
      cases hresumes : m.resumes with
      | false =>
          simp only [hresumes, Bool.false_eq_true, if_false, Prod.mk.injEq, true_and] at hready
          subst hready
          exact ⟨rfl, rfl, h⟩
      | true =>
          simp only [hresumes, if_true, Site.resume] at hready
          cases hchange : site.change DocumentStore.resume with
          | mk result resumed =>
              cases result with
              | error e => simp [hchange] at hready
              | ok =>
                  simp only [hchange, Prod.mk.injEq, true_and] at hready
                  subst hready
                  obtain ⟨hresult, hstore, h₁⟩ := h.change SnapshotStore.resume_discreet hchange
                  obtain ⟨n, hn⟩ := SnapshotStore.resume_ok hresult
                  rw [Snapshot.resume_of_empty hjournal, Prod.mk.injEq] at hn
                  refine ⟨rfl, ?_, h₁⟩
                  rw [hstore, ← hn.2]

/-- No credential file of the run is written over the archive. -/
def ArchiveNotCredential (options : UpgradeOptions) (site : Site σ) : Prop :=
  ∀ path ∈ options.toolsFile, ∀ facts,
    ControllerFacts.read (DocumentStore.view site.store) options.certDirectory = .ok facts →
      ∀ file ∈ facts.files, site.disk.place file.path ≠ site.disk.place path

/-- The path of the archive can be followed before the run. -/
def ArchiveReachable (options : UpgradeOptions) (site : Site σ) : Prop :=
  ∀ path ∈ options.toolsFile, (site.disk.locate path).isSome

/-- The archive is not the file that holds the store. -/
def ArchiveNotStore (options : UpgradeOptions) (site : Site σ) : Prop :=
  ∀ path ∈ options.toolsFile, ∀ file ∈ SnapshotStore.files site.store,
    site.disk.place file ≠ site.disk.place path

/-- A live upgrade that succeeds was described by a preview of the same store: the same reports,
the same variables, and the same records. -/
theorem preview_describes_live (options : UpgradeOptions) (vars : Variables) {site : Site σ}
    {reports : List StepReport} (hkeyed : (snapshot site.store).Keyed)
    (hjournal : (snapshot site.store).pending = []) (hplain : (snapshot site.store).ModelIdsPlain)
    (hunbounded : site.audit.capacity = none) (hcredential : ArchiveNotCredential options site)
    (hreachable : ArchiveReachable options site) (hnotstore : ArchiveNotStore options site)
    (hlive : ((upgrade options).run .live vars site).result = .ok reports) :
    ((upgrade options).run .preview vars site).result = .ok reports ∧
      ((upgrade options).run .preview vars site).vars =
        ((upgrade options).run .live vars site).vars ∧
      ((upgrade options).run .preview vars site).site.audit =
        ((upgrade options).run .live vars site).site.audit := by
  have hstart : Parallel site.disk options.toolsFile.toList site site := by
    refine ⟨rfl, hunbounded, fun file hfile path hpath => ?_, fun path hpath => ?_⟩
    · exact hnotstore path (Option.mem_toList.1 hpath) file hfile
    · exact .refl (hreachable path (Option.mem_toList.1 hpath))
  unfold run at hlive ⊢
  cases hready : (upgrade options).prepare .live site with
  | mk result ready =>
      cases result with
      | error e => simp [hready] at hlive
      | ok =>
          obtain ⟨hpreview, hsnapshot, h⟩ := prepare_parallel hstart hjournal hready
          simp only [hready] at hlive
          simp only [hpreview]
          refine takeSteps_parallel (upgradeSteps_within options)
            (upgradeFootprints_pairwise options) (fun fp => modelIds_not_changed)
            (fun fp hfp => files_of_upgradeFootprints hfp) ?_ h rfl ?_ hlive
          · intro step hstep disk vars plan vars' hplan file hfile path hpath
            rcases files_of_upgradeSteps hstep hplan with hnone | ⟨facts, hfacts, hfiles⟩
            · rw [hnone] at hfile
              exact absurd hfile List.not_mem_nil
            · rw [hfiles] at hfile
              rw [← SnapshotStore.view_eq] at hfacts
              exact hcredential path (Option.mem_toList.1 hpath) facts hfacts file hfile
          · rw [hsnapshot]
            exact .refl hkeyed hplain

end Migration

end

/-! ## An archive, the directory beside it, and the store -/

namespace Migration

def textFields (fields : List (String × String)) : Document :=
  .ofList (fields.map fun field => (field.1, .string field.2))

def bareController : Snapshot :=
  ⟨.ofList
    [("controllers", .ofList
        [("e", textFields [("_id", "e"), ("model-uuid", "m")]),
          ("stateServingInfo",
            textFields [("_id", "stateServingInfo"), ("apiport", "1"), ("stateport", "2")])]),
      ("models", .ofList [("m", textFields [("_id", "m"), ("name", "x"), ("owner", "o")])]),
      ("settings", .ofList
        [("m:e", .ofList [("_id", .string "m:e"), ("settings", .ofDocument (textFields
          [("type", "lxd"), ("client-cert", ""), ("client-key", ""), ("server-cert", ""),
            ("ca-cert", "")]))])])], []⟩

theorem bareController_keyed : bareController.Keyed := by decide +kernel

theorem bareController_plain : bareController.ModelIdsPlain := by decide +kernel

def archiveAt (path : String) : UpgradeOptions :=
  { UpgradeOptions.standard with toolsFile := some path, certDirectory := "/w/certs" }

def archiveSite : Site MemoryStore :=
  ⟨⟨bareController⟩, ((Disk.ofDirectories ["/w"]).write? "/w/tools.tgz" .empty).getD .empty, .empty⟩

/-- The bare controller in a file that was moved there from a leftover, with permissions to write
and not to read. -/
def leftoverSite : Site FileStore :=
  let leftover := (((Disk.ofDirectories ["/w"]).write? "/w/fleet.json.tmp" .empty).bind fun disk =>
    disk.setMode? "/w/fleet.json.tmp" 0o200).getD .empty
  ⟨⟨"/w/fleet.json", bareController⟩,
    (FileStore.create "/w/fleet.json" bareController leftover).2, .empty⟩

def credentialPlaces {σ : Type} [DocumentStore σ] (options : UpgradeOptions) (site : Site σ) :
    List Location :=
  match ControllerFacts.read (DocumentStore.view site.store) options.certDirectory with
  | .ok facts => facts.files.map fun file => site.disk.place file.path
  | .error _ => []

theorem archiveNotCredential_of_places {σ : Type} [DocumentStore σ] {path : String}
    {site : Site σ} (h : site.disk.place path ∉ credentialPlaces (archiveAt path) site) :
    ArchiveNotCredential (archiveAt path) site := by
  rintro _ ⟨⟩ facts hfacts file hfile hsame
  refine h ?_
  unfold credentialPlaces
  rw [hfacts, ← hsame]
  exact List.mem_map_of_mem hfile

/-- The upgrade of the controller, with an archive that nothing is written over. -/
theorem preview_describes_bare_upgrade :
    let options := archiveAt "/w/tools.tgz"
    (snapshot archiveSite.store).Keyed ∧ (snapshot archiveSite.store).pending = [] ∧
      (snapshot archiveSite.store).ModelIdsPlain ∧ archiveSite.audit.capacity = none ∧
      ArchiveNotCredential options archiveSite ∧ ArchiveReachable options archiveSite ∧
      ArchiveNotStore options archiveSite ∧
      ∃ reports,
        ((upgrade options).run .live (.ofUuid "u") archiveSite).result = .ok reports ∧
        ((upgrade options).run .preview (.ofUuid "u") archiveSite).result = .ok reports := by
  intro options
  have hcredential : ArchiveNotCredential options archiveSite :=
    archiveNotCredential_of_places (by decide +kernel)
  have hreachable : ArchiveReachable options archiveSite := by
    rintro path ⟨⟩
    decide +kernel
  have hnotstore : ArchiveNotStore options archiveSite := by
    rintro path ⟨⟩ file hfile
    exact absurd hfile List.not_mem_nil
  have hlive : ((upgrade options).run .live (.ofUuid "u") archiveSite).result.isOk = true := by
    decide +kernel
  obtain ⟨reports, hreports⟩ := exists_ok_of_isOk hlive
  exact ⟨bareController_keyed, rfl, bareController_plain, rfl, hcredential, hreachable, hnotstore,
    reports, hreports, (preview_describes_live options (.ofUuid "u") bareController_keyed rfl
      bareController_plain rfl hcredential hreachable hnotstore hreports).1⟩

/-- Whether, under a condition on the archive, a live upgrade that succeeds is described by a
preview. -/
def PreviewFollows (σ : Type) [DocumentStore σ] [SnapshotStore σ]
    (condition : UpgradeOptions → Site σ → Prop) : Prop :=
  ∀ (options : UpgradeOptions) (vars : Variables) (site : Site σ) (reports : List StepReport),
    (snapshot site.store).Keyed → (snapshot site.store).pending = [] →
      (snapshot site.store).ModelIdsPlain → site.audit.capacity = none →
      condition options site → ((upgrade options).run .live vars site).result = .ok reports →
      ((upgrade options).run .preview vars site).result = .ok reports ∧
        ((upgrade options).run .preview vars site).vars =
          ((upgrade options).run .live vars site).vars ∧
        ((upgrade options).run .preview vars site).site.audit =
          ((upgrade options).run .live vars site).site.audit

/-- It is not enough that no credential file is written over the archive. Its path may lead through
the directory that the live run makes for those files, and it may be the file of the store, which
the live run writes anew. -/
theorem preview_may_fail :
    ¬PreviewFollows MemoryStore ArchiveNotCredential ∧
      ¬PreviewFollows FileStore fun options site =>
        ArchiveNotCredential options site ∧ ArchiveReachable options site := by
  constructor
  · intro hfollows
    let options := archiveAt "/w/certs/../tools.tgz"
    have hlive : ((upgrade options).run .live (.ofUuid "u") archiveSite).result.isOk = true := by
      decide +kernel
    have hpreview :
        ((upgrade options).run .preview (.ofUuid "u") archiveSite).result.isOk = false := by
      decide +kernel
    obtain ⟨reports, hreports⟩ := exists_ok_of_isOk hlive
    rw [(hfollows options (.ofUuid "u") archiveSite reports bareController_keyed rfl
      bareController_plain rfl (archiveNotCredential_of_places (by decide +kernel)) hreports).1]
      at hpreview
    cases hpreview
  · intro hfollows
    let options := archiveAt "/w/fleet.json"
    have hreachable : ArchiveReachable options leftoverSite := by
      rintro path ⟨⟩
      decide +kernel
    have hlive : ((upgrade options).run .live (.ofUuid "u") leftoverSite).result.isOk = true := by
      decide +kernel
    have hpreview :
        ((upgrade options).run .preview (.ofUuid "u") leftoverSite).result.isOk = false := by
      decide +kernel
    obtain ⟨reports, hreports⟩ := exists_ok_of_isOk hlive
    rw [(hfollows options (.ofUuid "u") leftoverSite reports bareController_keyed rfl
      bareController_plain rfl
      ⟨archiveNotCredential_of_places (by decide +kernel), hreachable⟩ hreports).1] at hpreview
    cases hpreview

end Migration
end FleetUpgrade
