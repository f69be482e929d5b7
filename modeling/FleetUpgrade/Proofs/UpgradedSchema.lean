import FleetUpgrade.Proofs.StepCollections
import FleetUpgrade.Proofs.StepDocuments
import FleetUpgrade.Sample.Controller

/-! # The schema that the upgrade reaches

`UpgradedSchema` says what a store holds after the upgrade. Each part of it is
brought about by one step, or by two for machines and units, and is followed
from there to the end: no later step is about the collection.
-/

namespace FleetUpgrade

open CollectionName
open SnapshotStore (snapshot)

/-- What an upgrade leaves of the snapshot that it started from. -/
structure UpgradedSchema (options : UpgradeOptions) (start after : Snapshot) : Prop where
  dropped : ∀ name ∈ [services, settingsRefs, legacyIpAddresses],
    after.collections.contains name = false
  rekeyed : ∀ name ∈ [annotations, constraints, endpointBindings, settings, statuses],
    ∀ id d, after.find? name id = some d → ¬ServiceKey id
  units : ∀ id d, after.find? units id = some d →
    (∃ old service, start.find? units id = some old ∧ old.get? "service" = some service ∧
      d.get? "application" = some service) ∧
    (∀ field ∈ ["service", "ports", "privateaddress", "publicaddress"], d.get? field = none) ∧
    d.getPath "tools.version" = some (.string options.toolsVersion)
  machines : ∀ id d, after.find? machines id = some d →
    d.getPath "tools.version" = some (.string options.toolsVersion) ∧
    ∀ containers, d.get? "supportedcontainers" = some (.list containers) →
      .string "lxc" ∉ containers
  leases : ∀ id d, after.find? leases id = some d →
    d.get? "namespace" ≠ some (.string "service-leadership")
  history : ∀ id d, after.find? statusesHistory id = some d →
    ∀ rest, d.get? "globalkey" ≠ some (.string ("s#" ++ rest))
  sequences : ∀ id d, after.find? sequence id = some d →
    ∀ tag, d.get? "name" = some (.string tag) → ServiceTag.name? tag = none

namespace Taken

variable {options : UpgradeOptions} {s s' : Snapshot}

theorem dropped (h : Taken (storeSteps options) s s') (hk : s.Keyed) {name : String}
    (hname : name ∈ [services, settingsRefs, legacyIpAddresses]) :
    s'.collections.contains name = false := by
  have hafter : ∀ about ∈ storeCollections.drop 16, name ∉ about := by
    revert name
    decide
  have hn : (storeSteps options)[15]? = some dropLegacyCollections := rfl
  obtain ⟨before, between, disk, vars, vars', plan, -, -, hplan, happly, hend⟩ :=
    h.last hk (storeSteps_confined options) name hn hafter
  cases hplan
  obtain ⟨_, -, rfl⟩ := StepPlan.applyTo_ok_iff.1 happly
  unfold Table.contains
  rw [hend, Snapshot.get?_foldl_dropCollection, if_pos hname]
  rfl

/-- A collection that is rekeyed has no key of a service in the end. -/
theorem rekeyed (h : Taken (storeSteps options) s s') (hk : s.Keyed) {n : Nat}
    {keyField : Option String} {name : String}
    (hn : (storeSteps options)[n]? = some ((serviceKeyRule keyField).step name))
    (hafter : ∀ about ∈ storeCollections.drop (n + 1), name ∉ about) :
    ∀ id d, s'.find? name id = some d → ¬ServiceKey id := by
  obtain ⟨before, ops, docs, -, hkeyed, hplan, hexec, hend⟩ :=
    h.last_ofTransaction hk (storeSteps_confined options) name hn hafter
  rw [hend]
  refine Snapshot.planEach_moves (P := fun id _ => ¬ServiceKey id) hkeyed ?_ hplan hexec
  intro d part hpart
  obtain ⟨id, hid, hmove⟩ := RekeyRule.move?_spec hpart
  refine ⟨id, hid, ?_⟩
  rcases hmove with ⟨hnone, rfl⟩ | ⟨newId, hsome, -, rfl⟩
  · exact Or.inl ⟨rfl, RekeyRule.not_serviceKey_of_rekey?_none hnone⟩
  · exact Or.inr ⟨newId, _, rfl, RekeyRule.not_serviceKey_of_rekey?_some hsome⟩

theorem leases (h : Taken (storeSteps options) s s') (hk : s.Keyed) :
    ∀ id d, s'.find? CollectionName.leases id = some d →
      d.get? "namespace" ≠ some (.string "service-leadership") := by
  have hn : (storeSteps options)[4]? = some Lease.step := rfl
  obtain ⟨before, ops, docs, -, hkeyed, hplan, hexec, hend⟩ :=
    h.last_ofTransaction hk (storeSteps_confined options) CollectionName.leases hn (by decide)
  rw [hend]
  refine Snapshot.planEach_moves
    (P := fun _ d => d.get? "namespace" ≠ some (.string "service-leadership")) hkeyed ?_ hplan hexec
  intro d part hpart
  obtain ⟨id, hid, hmove⟩ := Lease.move_spec hpart
  refine ⟨id, hid, ?_⟩
  rcases hmove with ⟨rfl, hother⟩ | ⟨modelUuid, kind, name, hservice, -, -, -, rfl⟩
  · exact Or.inl ⟨rfl, hother⟩
  · refine Or.inr ⟨_, _, rfl, ?_⟩
    rw [Document.get?_moved hservice (by decide)]
    simp [Lease.applicationLeadership]

theorem history (h : Taken (storeSteps options) s s') (hk : s.Keyed) :
    ∀ id d, s'.find? statusesHistory id = some d →
      ∀ rest, d.get? "globalkey" ≠ some (.string ("s#" ++ rest)) := by
  have hn : (storeSteps options)[13]? = some StatusHistory.step := rfl
  obtain ⟨before, ops, docs, -, hkeyed, hplan, hexec, hend⟩ :=
    h.last_ofTransaction hk (storeSteps_confined options) statusesHistory hn (by decide)
  rw [hend]
  refine Snapshot.planEach_edits
    (P := fun d => ∀ rest, d.get? "globalkey" ≠ some (.string ("s#" ++ rest)))
    hkeyed ?_ hplan hexec
  intro d part hpart
  obtain ⟨id, hid, hedit⟩ := StatusHistory.editFor_spec hpart
  refine ⟨id, hid, ?_⟩
  rcases hedit with ⟨rfl, hother⟩ | ⟨rest, rfl⟩
  · exact Or.inl ⟨rfl, hother⟩
  · refine Or.inr ⟨_, rfl, fun d' hu other hkey => ?_⟩
    have hset := Update.execute_setting hu
    rw [Document.setPath_of_plain (by decide) (by decide)] at hset
    cases hset
    have hchars : "a#" ++ rest = "s#" ++ other := by simpa using hkey
    have hlist := congrArg String.toList hchars
    simp at hlist

theorem sequences (h : Taken (storeSteps options) s s') (hk : s.Keyed) :
    ∀ id d, s'.find? sequence id = some d →
      ∀ tag, d.get? "name" = some (.string tag) → ServiceTag.name? tag = none := by
  have hn : (storeSteps options)[14]? = some Sequence.step := rfl
  obtain ⟨before, ops, docs, -, hkeyed, hplan, hexec, hend⟩ :=
    h.last_ofTransaction hk (storeSteps_confined options) sequence hn (by decide)
  rw [hend]
  refine Snapshot.planEach_moves
    (P := fun _ d => ∀ tag, d.get? "name" = some (.string tag) → ServiceTag.name? tag = none)
    hkeyed ?_ hplan hexec
  intro d part hpart
  obtain ⟨id, old, hid, hold, hmove⟩ := Sequence.move_spec hpart
  refine ⟨id, hid, ?_⟩
  rcases hmove with ⟨rfl, hother⟩ | ⟨service, modelUuid, -, -, rfl⟩
  · refine Or.inl ⟨rfl, fun tag htag => ?_⟩
    rw [hold, Option.some.injEq, Value.string.injEq] at htag
    rw [← htag, hother]
  · refine Or.inr ⟨_, _, rfl, fun tag htag => ?_⟩
    rw [Document.get?_moved hold (by decide)] at htag
    cases htag
    exact ServiceTag.name?_application service

/-- Machines and units get their tools last. -/
theorem tools (h : Taken (storeSteps options) s s') (hk : s.Keyed) (name : String)
    (hname : name ∈ [CollectionName.machines, CollectionName.units]) :
    ∃ before, Taken ((storeSteps options).take 24) s before ∧
      ∀ id d', s'.find? name id = some d' → ∃ d, before.find? name id = some d ∧
        d'.getPath "tools.version" = some (.string options.toolsVersion) ∧
        ∀ field, field ≠ "tools" → d'.get? field = d.get? field := by
  have hafter : ∀ about ∈ storeCollections.drop 25, name ∉ about := fun _ hmem =>
    absurd hmem List.not_mem_nil
  have hn : (storeSteps options)[24]? =
      some (FieldEdit.mk "agent-tools" "Updating tools field on units and machines"
        [CollectionName.machines, CollectionName.units]
        [.set "tools.version" options.toolsVersion]).step := rfl
  obtain ⟨before, ops, docs, hearlier, hkeyed, hplan, hexec, hend⟩ :=
    h.last_ofTransaction hk (storeSteps_confined options) name hn hafter
  have hnodup : [CollectionName.machines, CollectionName.units].Nodup := by decide
  refine ⟨before, hearlier, fun id d' hd' => ?_⟩
  rw [hend] at hd'
  obtain ⟨d, u, hd, hu, hd'⟩ := FieldEdit.edited hkeyed hnodup hname hplan hexec hd'
  exact ⟨d, hd, lookups_of_tools hu hd'⟩

theorem units (h : Taken (storeSteps options) s s') (hk : s.Keyed) :
    ∀ id d, s'.find? CollectionName.units id = some d →
      (∃ old service, s.find? CollectionName.units id = some old ∧
        old.get? "service" = some service ∧ d.get? "application" = some service) ∧
      (∀ field ∈ ["service", "ports", "privateaddress", "publicaddress"], d.get? field = none) ∧
      d.getPath "tools.version" = some (.string options.toolsVersion) := by
  obtain ⟨late, hlate, htools⟩ := h.tools hk CollectionName.units (by simp)
  have hconfined := List.forall₂_take 24 (storeSteps_confined options)
  have hn : ((storeSteps options).take 24)[3]? =
      some (FieldEdit.ofCollection "units" CollectionName.units
        [.rename "service" "application", .unset "ports", .unset "privateaddress",
          .unset "publicaddress"]).step := rfl
  obtain ⟨before, ops, docs, hearlier, hkeyed, hplan, hexec, hend⟩ :=
    hlate.last_ofTransaction hk hconfined CollectionName.units hn (by decide)
  -- no step before the renaming is about units
  have hstart : before.find? CollectionName.units = s.find? CollectionName.units :=
    Snapshot.find?_congr (hearlier.other (List.forall₂_take 3 hconfined) (by decide))
  intro id d hd
  obtain ⟨middle, hmiddle, hversion, hkeep⟩ := htools id d hd
  rw [hend] at hmiddle
  obtain ⟨old, u, hold, hu, hexecute⟩ :=
    FieldEdit.edited hkeyed (by decide) (by simp [FieldEdit.ofCollection]) hplan hexec hmiddle
  obtain ⟨⟨service, hservice, happlication⟩, hgone⟩ := lookups_of_rename hu hexecute
  refine ⟨⟨old, service, hstart ▸ hold, hservice, ?_⟩, fun field hfield => ?_, hversion⟩
  · rw [hkeep _ (by decide), happlication]
  · rw [hkeep field (by rintro rfl; simp at hfield), hgone field hfield]

theorem machines (h : Taken (storeSteps options) s s') (hk : s.Keyed) :
    ∀ id d, s'.find? CollectionName.machines id = some d →
      d.getPath "tools.version" = some (.string options.toolsVersion) ∧
      ∀ containers, d.get? "supportedcontainers" = some (.list containers) →
        .string "lxc" ∉ containers := by
  obtain ⟨late, hlate, htools⟩ := h.tools hk CollectionName.machines (by simp)
  have hconfined := List.forall₂_take 24 (storeSteps_confined options)
  have hn : ((storeSteps options).take 24)[18]? = some MachineContainers.step := rfl
  obtain ⟨before, ops, docs, -, hkeyed, hplan, hexec, hend⟩ :=
    hlate.last_ofTransaction hk hconfined CollectionName.machines hn (by decide)
  have hnoretired : ∀ id d, late.find? CollectionName.machines id = some d → ∀ containers,
      d.get? "supportedcontainers" = some (.list containers) → .string "lxc" ∉ containers := by
    rw [hend]
    refine Snapshot.planEach_edits
      (P := fun d => ∀ containers, d.get? "supportedcontainers" = some (.list containers) →
        .string "lxc" ∉ containers)
      hkeyed ?_ hplan hexec
    intro d part hpart
    obtain ⟨id, hid, hedit⟩ := MachineContainers.editFor_spec hpart
    refine ⟨id, hid, ?_⟩
    rcases hedit with ⟨rfl, habsent⟩ | ⟨listed, -, rfl⟩
    · refine Or.inl ⟨rfl, fun containers hcontainers => ?_⟩
      rw [habsent] at hcontainers
      cases hcontainers
    · refine Or.inr ⟨_, rfl, fun d' hu containers hcontainers => ?_⟩
      have hset := Update.execute_setting hu
      rw [Document.setPath_of_plain (by decide) (by decide)] at hset
      cases hset
      simp only [Document.get?_insert, if_true, Option.some.injEq, Value.list.injEq] at hcontainers
      rw [← hcontainers]
      simp [Value.string?, MachineContainers.retired]
  intro id d hd
  obtain ⟨middle, hmiddle, hversion, hkeep⟩ := htools id d hd
  refine ⟨hversion, fun containers hcontainers => ?_⟩
  rw [hkeep _ (by decide)] at hcontainers
  exact hnoretired id middle hmiddle containers hcontainers

/-- The schema is reached by the steps that need no archive, and registering one keeps it. -/
theorem schema (h : Taken (upgradeSteps options) s s') (hk : s.Keyed) :
    UpgradedSchema options s s' := by
  obtain ⟨between, hstore, hsame⟩ := h.upgrade_split
  have hfind : ∀ name, name ≠ CollectionName.toolsMetadata →
      s'.find? name = between.find? name :=
    fun name hname => Snapshot.find?_congr (hsame name hname)
  constructor
  · intro name hname
    have hne : name ≠ CollectionName.toolsMetadata := by
      rintro rfl
      simp [CollectionName.toolsMetadata, services, settingsRefs, legacyIpAddresses] at hname
    unfold Table.contains
    rw [hsame name hne]
    exact hstore.dropped hk hname
  · intro name hname
    simp only [List.mem_cons, List.not_mem_nil, or_false] at hname
    rcases hname with rfl | rfl | rfl | rfl | rfl
    · rw [hfind _ (by decide)]
      exact hstore.rekeyed hk (n := 8) rfl (by decide)
    · rw [hfind _ (by decide)]
      exact hstore.rekeyed hk (n := 9) rfl (by decide)
    · rw [hfind _ (by decide)]
      exact hstore.rekeyed hk (n := 10) rfl (by decide)
    · rw [hfind _ (by decide)]
      exact hstore.rekeyed hk (n := 11) rfl (by decide)
    · rw [hfind _ (by decide)]
      exact hstore.rekeyed hk (n := 12) rfl (by decide)
  · rw [hfind _ (by decide)]
    exact hstore.units hk
  · rw [hfind _ (by decide)]
    exact hstore.machines hk
  · rw [hfind _ (by decide)]
    exact hstore.leases hk
  · rw [hfind _ (by decide)]
    exact hstore.history hk
  · rw [hfind _ (by decide)]
    exact hstore.sequences hk

end Taken

namespace Migration

/-- A live upgrade that succeeds on a store whose documents stand under their ids, and that has no
journal, reaches the schema. -/
theorem upgrade_reaches_schema {σ : Type} [DocumentStore σ] [SnapshotStore σ]
    (options : UpgradeOptions) (vars : Variables) {site : Site σ} {reports : List StepReport}
    (hk : (snapshot site.store).Keyed) (hempty : (snapshot site.store).pending = [])
    (h : ((upgrade options).run .live vars site).result = .ok reports) :
    UpgradedSchema options (snapshot site.store)
      (snapshot ((upgrade options).run .live vars site).site.store) := by
  obtain ⟨ready, hstart, hrun⟩ := takeSteps_of_run rfl hempty h
  rw [hrun] at h ⊢
  rw [← hstart] at hk ⊢
  exact (taken_of_takeSteps h).schema hk

def busyController : Snapshot :=
  let entries : List Sample.Entry :=
    [⟨"services", "m:db", [("charmurl", "cs:db"), ("unitcount", .int 1)]⟩,
      ⟨"settingsrefs", "m:s#db", []⟩,
      ⟨"storageconstraints", "m:s#db", []⟩,
      ⟨"annotations", "m:s#db", [("globalkey", "s#db")]⟩,
      ⟨"units", "m:db/0", [("service", "db"), ("ports", .list [])]⟩,
      ⟨"machines", "m:0", [("supportedcontainers", .list ["lxc", "lxd"])]⟩,
      ⟨"leases", "m:lease", [("namespace", "service-leadership"), ("model-uuid", "m"),
        ("type", "lease")]⟩,
      ⟨"statuseshistory", "1", [("globalkey", "s#db")]⟩,
      ⟨"sequence", "m:service-db", [("name", "service-db"), ("model-uuid", "m")]⟩]
  ⟨entries.foldl Sample.Entry.addTo bareController.collections, []⟩

def busySite : Site MemoryStore := ⟨⟨busyController⟩, .ofDirectories ["/w"], .empty⟩

theorem upgrade_reaches_schema_busy :
    (snapshot busySite.store).Keyed ∧ (snapshot busySite.store).pending = [] ∧
      ∃ reports, ((upgrade .standard).run .live (.ofUuid "u") busySite).result = .ok reports ∧
        UpgradedSchema .standard (snapshot busySite.store)
          (snapshot ((upgrade .standard).run .live (.ofUuid "u") busySite).site.store) := by
  have hk : busyController.Keyed := by decide +kernel
  have hlive : ((upgrade .standard).run .live (.ofUuid "u") busySite).result.isOk = true := by
    decide +kernel
  obtain ⟨reports, hreports⟩ := exists_ok_of_isOk hlive
  exact ⟨hk, rfl, reports, hreports, upgrade_reaches_schema .standard (.ofUuid "u") hk rfl hreports⟩

end Migration
end FleetUpgrade
