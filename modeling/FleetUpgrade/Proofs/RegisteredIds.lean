import FleetUpgrade.Proofs.Reordering
import FleetUpgrade.Proofs.StepDocuments
import FleetUpgrade.Store.File
import Mathlib.Data.List.Nodup

/-! # Provider ids that are registered

A provider id that begins with its model's UUID loses it and is registered under the
UUID, the kind and what is left. UUIDs and provider ids may hold colons, so different
documents can ask for the same registration; the store then takes none of them.
-/

namespace FleetUpgrade.ProviderIds

open CollectionName (providerIds)
open SnapshotStore (snapshot)

variable {collection kind : String} {s after : Snapshot}

/-- A document whose provider id is its model's UUID, a colon and a rest. -/
structure Prefixed (d : Document) (modelUuid rest : String) : Prop where
  model : d.get? "model-uuid" = some (.string modelUuid)
  provider : d.get? "providerid" = some (.string (modelUuid ++ ":" ++ rest))

def registryId (kind modelUuid rest : String) : String :=
  modelUuid ++ ":" ++ kind ++ ":" ++ rest

/-- A document of the collection asks for a registration. -/
def Registers (collection kind : String) (s : Snapshot) (id newId : String) : Prop :=
  ∃ d modelUuid rest, s.find? collection id = some d ∧ Prefixed d modelUuid rest ∧
    newId = registryId kind modelUuid rest

/-- Different documents ask for different registrations. -/
def IdsDistinct (collection kind : String) (s : Snapshot) : Prop :=
  ∀ id id' newId, Registers collection kind s id newId → Registers collection kind s id' newId →
    id' = id

/-- No document asks for a registration that is there already. -/
def IdsFree (collection kind : String) (s : Snapshot) : Prop :=
  ∀ id newId, Registers collection kind s id newId → s.find? providerIds newId = none

/-- A store before and after the provider ids of a collection were rewritten and registered. -/
structure Registered (collection kind : String) (before after : Snapshot) : Prop where
  rewritten : ∀ id d modelUuid rest, before.find? collection id = some d →
    Prefixed d modelUuid rest →
      after.find? collection id = some (d.insert "providerid" rest)
  registered : ∀ id d modelUuid rest, before.find? collection id = some d →
    Prefixed d modelUuid rest →
      after.find? providerIds (registryId kind modelUuid rest) = some
        ⟨[("_id", .string (registryId kind modelUuid rest)), ("model-uuid", .string modelUuid)]⟩
  gained : ∀ newId, before.find? providerIds newId = none →
    ((after.find? providerIds newId).isSome = true ↔ ∃! id, Registers collection kind before id newId)
  others : ∀ name id, (name = collection → ∀ newId, ¬Registers collection kind before id newId) →
    (name = providerIds → ∀ old, ¬Registers collection kind before old id) →
      after.find? name id = before.find? name id
  collections : ∀ name, after.collections.contains name = true ↔
    before.collections.contains name = true ∨ ∃ id, (after.find? name id).isSome = true
  pending : after.pending = before.pending

/-! ## The plan for one document -/

theorem unscoped?_eq_some_iff {modelUuid providerId rest : String} :
    unscoped? modelUuid providerId = some rest ↔ providerId = modelUuid ++ ":" ++ rest :=
  Text.stripLead_eq_some_iff

/-- The model's UUID and the rest of the provider id, if it begins with the UUID. -/
def prefixed? (d : Document) : Option (String × String) :=
  match d.get? "model-uuid", d.get? "providerid" with
  | some (.string modelUuid), some (.string providerId) =>
      (unscoped? modelUuid providerId).map fun rest => (modelUuid, rest)
  | _, _ => none

theorem prefixed?_eq_some_iff {d : Document} {modelUuid rest : String} :
    prefixed? d = some (modelUuid, rest) ↔ Prefixed d modelUuid rest := by
  constructor
  · intro h
    unfold prefixed? at h
    split at h
    · next modelUuid' providerId hmodel hprovider =>
        obtain ⟨rest', hrest, he⟩ := Option.map_eq_some_iff.1 h
        cases he
        rw [unscoped?_eq_some_iff] at hrest
        exact ⟨hmodel, hrest ▸ hprovider⟩
    · cases h
  · rintro ⟨hmodel, hprovider⟩
    have hrest : unscoped? modelUuid (modelUuid ++ ":" ++ rest) = some rest :=
      unscoped?_eq_some_iff.2 rfl
    simp [prefixed?, hmodel, hprovider, hrest]

structure Registration where
  id : String
  modelUuid : String
  rest : String

namespace Registration

def newId (kind : String) (r : Registration) : String :=
  registryId kind r.modelUuid r.rest

def operations (collection kind : String) (r : Registration) : Transaction :=
  [.update collection r.id (Update.empty.setting "providerid" r.rest),
    .insert providerIds (r.newId kind) (Document.empty.insert "model-uuid" r.modelUuid)]

end Registration

def registration? (entry : String × Document) : Option Registration :=
  (prefixed? entry.2).map fun parts => ⟨entry.1, parts.1, parts.2⟩

theorem editFor_eq {d : Document} {id : String} {part : Transaction} (hid : d.id = .ok id)
    (h : editFor collection kind d = .ok part) :
    part = ((registration? (id, d)).map (Registration.operations collection kind)).getD [] := by
  obtain ⟨own, hown, h⟩ := Except.bind_eq_ok.1 h
  obtain ⟨modelUuid, hmodel, h⟩ := Except.bind_eq_ok.1 h
  obtain ⟨providerId, hprovider, h⟩ := Except.bind_eq_ok.1 h
  rw [scannedId_eq_ok, hid] at hown
  cases hown
  rw [inDocument_eq_ok, Document.getString_eq_ok_iff (by decide +kernel)] at hmodel
  rw [inDocument_eq_ok] at hprovider
  have hfound : prefixed? d =
      (providerId.bind (unscoped? modelUuid)).map fun rest => (modelUuid, rest) := by
    cases providerId with
    | some text =>
        rw [Document.getString?_eq_ok_some_iff (by decide +kernel)] at hprovider
        simp [prefixed?, hmodel, hprovider]
    | none =>
        rw [Document.getString?_eq_ok_none_iff (by decide +kernel)] at hprovider
        simp [prefixed?, hmodel, hprovider]
  unfold registration?
  rw [hfound]
  cases hrest : providerId.bind (unscoped? modelUuid) with
  | none =>
      rw [hrest] at h
      cases h
      rfl
  | some rest =>
      rw [hrest] at h
      cases h
      rfl

/-! ## The whole plan -/

def registrations (collection : String) (s : Snapshot) : List Registration :=
  (s.collections.collection collection).entries.filterMap registration?

theorem mem_registrations {r : Registration} : r ∈ registrations collection s ↔
    ∃ d, s.find? collection r.id = some d ∧ Prefixed d r.modelUuid r.rest := by
  unfold registrations
  rw [List.mem_filterMap]
  constructor
  · rintro ⟨⟨id, d⟩, hentry, hr⟩
    obtain ⟨parts, hparts, rfl⟩ := Option.map_eq_some_iff.1 hr
    exact ⟨d, (Table.mem_entries_iff _ id d).1 hentry, prefixed?_eq_some_iff.1 hparts⟩
  · rintro ⟨d, hd, hprefixed⟩
    refine ⟨(r.id, d), (Table.mem_entries_iff _ r.id d).2 hd, ?_⟩
    simp [registration?, prefixed?_eq_some_iff.2 hprefixed]

theorem registers_iff {id newId : String} : Registers collection kind s id newId ↔
    ∃ r ∈ registrations collection s, r.id = id ∧ r.newId kind = newId := by
  constructor
  · rintro ⟨d, modelUuid, rest, hd, hprefixed, rfl⟩
    exact ⟨⟨id, modelUuid, rest⟩, mem_registrations.2 ⟨d, hd, hprefixed⟩, rfl, rfl⟩
  · rintro ⟨r, hr, rfl, rfl⟩
    obtain ⟨d, hd, hprefixed⟩ := mem_registrations.1 hr
    exact ⟨d, r.modelUuid, r.rest, hd, hprefixed, rfl⟩

theorem registrations_pairwise (collection : String) (s : Snapshot) :
    (registrations collection s).Pairwise fun a b => a.id ≠ b.id := by
  refine (s.collections.collection collection).sorted.filterMap registration? ?_
  rintro ⟨id, d⟩ ⟨id', d'⟩ hlt a ha b hb he
  obtain ⟨_, -, rfl⟩ := Option.map_eq_some_iff.1 ha
  obtain ⟨_, -, rfl⟩ := Option.map_eq_some_iff.1 hb
  have hsame : id = id' := he
  exact String.lt_irrefl id' (hsame ▸ hlt)

theorem plan_eq {ops : Transaction} (hk : s.Keyed)
    (h : s.view.planEach collection (editFor collection kind) = .ok ops) :
    ops = (registrations collection s).flatMap (Registration.operations collection kind) := by
  obtain ⟨parts, hread, rfl⟩ := Except.map_eq_ok.1 h
  have hdocuments : s.documents collection =
      (s.collections.collection collection).entries.map Prod.snd := rfl
  rw [Snapshot.readEach_eq, hdocuments, List.mapM_map] at hread
  have hone : ∀ entry ∈ (s.collections.collection collection).entries,
      editFor collection kind entry.2 = .ok
        (((registration? entry).map (Registration.operations collection kind)).getD []) := by
    intro entry hentry
    obtain ⟨part, hpart⟩ := List.exists_ok_of_mapM_ok hread hentry
    have hid := hk collection entry.1 entry.2 ((Table.mem_entries_iff _ _ _).1 hentry)
    exact hpart.trans (congrArg Except.ok (editFor_eq hid hpart))
  have hparts := Except.ok.inj (hread.symm.trans (List.mapM_ok_map hone))
  rw [hparts, registrations, List.filterMap_eq_flatMap_toList, List.flatMap_assoc,
    List.flatMap_def]
  congr 1
  refine List.map_congr_left fun entry _ => ?_
  cases registration? entry <;> simp

/-! ## Acceptance -/

theorem execute_setting_providerid (d : Document) (rest : String) :
    (Update.empty.setting "providerid" rest).execute d = .ok (d.insert "providerid" rest) := by
  have hone : Update.setOne d ("providerid", .string rest) = .ok (d.insert "providerid" rest) :=
    Update.setOne_of_plain (by decide +kernel) (by decide) (by decide)
  change Except.bind (Except.bind (Update.setOne d _) _) _ = _
  rw [hone]
  rfl

/-- Registrations that were accepted found their ids free, and each found another one. -/
theorem distinct_of_execute {rs : List Registration} {docs docs' : Documents}
    (h : Transaction.execute (rs.flatMap (Registration.operations collection kind)) docs =
      .ok docs') :
    (rs.map (Registration.newId kind)).Nodup ∧
      ∀ r ∈ rs, docs providerIds (r.newId kind) = none := by
  induction rs generalizing docs with
  | nil => exact ⟨List.nodup_nil, by simp⟩
  | cons r rs ih =>
      rw [List.flatMap_cons, Transaction.execute_append_ok] at h
      obtain ⟨reached, hfirst, hrest⟩ := h
      obtain ⟨hnodup, hfree⟩ := ih hrest
      obtain ⟨between, hupdate, hfirst⟩ := Transaction.execute_cons_ok.1 hfirst
      obtain ⟨done, hinsert, hdone⟩ := Transaction.execute_cons_ok.1 hfirst
      cases hdone
      obtain ⟨hnone, rfl⟩ := Operation.execute_insert_ok_iff.1 hinsert
      -- neither operation takes a document away
      have hkept : ∀ id, between providerIds id = none → docs providerIds id = none := by
        intro id hid
        have hsome : (between providerIds id).isSome = (docs providerIds id).isSome :=
          Transaction.isSome_execute_of_updates
            (Transaction.execute_cons_ok.2 ⟨between, hupdate, rfl⟩)
            (fun op hop _ => by rw [List.mem_singleton.1 hop]; rfl) id
        rw [hid] at hsome
        exact Option.isNone_iff_eq_none.1 (Option.isSome_eq_false_iff.1 hsome.symm)
      have hne : ∀ other ∈ rs, other.newId kind ≠ r.newId kind := by
        intro other hother he
        have htaken := hfree other hother
        rw [he, Documents.place_self] at htaken
        cases htaken
      refine ⟨List.nodup_cons.2 ⟨fun hin => ?_, hnodup⟩, fun other hother => ?_⟩
      · obtain ⟨other, hother, he⟩ := List.mem_map.1 hin
        exact hne other hother he
      · rcases List.mem_cons.1 hother with rfl | hlater
        · exact hkept _ hnone
        · have hlast := hfree other hlater
          rw [Documents.place_other _ _ fun hplace => hne other hlater hplace.2] at hlast
          exact hkept _ hlast

theorem operations_apart {rs : List Registration} (hother : collection ≠ providerIds)
    (hids : rs.Pairwise fun a b => a.id ≠ b.id)
    (hnew : (rs.map (Registration.newId kind)).Nodup) :
    (rs.flatMap (Registration.operations collection kind)).Pairwise Operation.Apart := by
  have hnew' : rs.Pairwise fun a b => a.newId kind ≠ b.newId kind := List.pairwise_map.1 hnew
  refine List.pairwise_flatMap.2 ⟨fun r _ => ?_, (hids.and hnew').imp ?_⟩
  · simp [Registration.operations, Operation.Apart, Operation.update, Operation.insert, hother]
  · rintro a b ⟨hid, hnewId⟩ x hx y hy
    simp only [Registration.operations, List.mem_cons, List.not_mem_nil, or_false] at hx hy
    rcases hx with rfl | rfl <;> rcases hy with rfl | rfl
    · exact fun he => hid he.2
    · exact fun he => hother he.1
    · exact fun he => hother he.1.symm
    · exact fun he => hnewId he.2

theorem idsDistinct_iff : IdsDistinct collection kind s ↔
    ((registrations collection s).map (Registration.newId kind)).Nodup := by
  have hids := registrations_pairwise collection s
  constructor
  · intro h
    refine List.pairwise_map.2 (hids.imp_of_mem fun {a b} ha hb hne he => hne ?_)
    exact (h a.id b.id (a.newId kind) (registers_iff.2 ⟨a, ha, rfl, rfl⟩)
      (registers_iff.2 ⟨b, hb, rfl, he.symm⟩)).symm
  · intro h id id' newId hid hid'
    obtain ⟨a, ha, rfl, rfl⟩ := registers_iff.1 hid
    obtain ⟨b, hb, rfl, he⟩ := registers_iff.1 hid'
    rw [List.inj_on_of_nodup_map h hb ha he]

theorem idsFree_iff : IdsFree collection kind s ↔
    ∀ r ∈ registrations collection s, s.find? providerIds (r.newId kind) = none := by
  constructor
  · exact fun h r hr => h r.id (r.newId kind) (registers_iff.2 ⟨r, hr, rfl, rfl⟩)
  · intro h id newId hid
    obtain ⟨r, hr, rfl, rfl⟩ := registers_iff.1 hid
    exact h r hr

/-- Each document that asks for a registration is there, so only what is asked for can be in the
way. -/
theorem apply_ok_iff {ops : Transaction} (hother : collection ≠ providerIds) (hk : s.Keyed)
    (h : s.view.planEach collection (editFor collection kind) = .ok ops) :
    (∃ after, s.apply ops = .ok after) ↔
      IdsDistinct collection kind s ∧ IdsFree collection kind s := by
  rw [idsDistinct_iff, idsFree_iff, plan_eq hk h]
  constructor
  · rintro ⟨after, happly⟩
    exact distinct_of_execute (Snapshot.apply_ok happly).1
  · rintro ⟨hdistinct, hfree⟩
    have hapart := operations_apart hother (registrations_pairwise collection s) hdistinct
    refine Snapshot.exists_apply_iff.2 ((Transaction.execute_ok_iff_each hapart).2 ?_)
    intro op hop
    obtain ⟨r, hr, hmem⟩ := List.mem_flatMap.1 hop
    obtain ⟨d, hd, -⟩ := mem_registrations.1 hr
    simp only [Registration.operations, List.mem_cons, List.not_mem_nil, or_false] at hmem
    rcases hmem with rfl | rfl
    · exact ⟨_, Operation.execute_update_ok hd (execute_setting_providerid d r.rest)⟩
    · exact ⟨_, Operation.execute_insert_ok_iff.2 ⟨hfree r hr, rfl⟩⟩

/-! ## What is left -/

theorem registered_of_apply {ops : Transaction} (hother : collection ≠ providerIds)
    (hk : s.Keyed) (h : s.view.planEach collection (editFor collection kind) = .ok ops)
    (happly : s.apply ops = .ok after) : Registered collection kind s after := by
  obtain ⟨hexec, happlied⟩ := Snapshot.apply_ok happly
  obtain ⟨hdistinct, hfree⟩ := (apply_ok_iff hother hk h).1 ⟨after, happly⟩
  obtain rfl := plan_eq hk h
  have hapart := operations_apart hother (registrations_pairwise collection s)
    (idsDistinct_iff.1 hdistinct)
  have heach : ∀ r ∈ registrations collection s, ∀ op ∈ r.operations collection kind,
      ∃ done, op.execute s.find? = .ok done ∧
        after.find? op.collection op.id = done op.collection op.id :=
    fun r hr op hop => Transaction.execute_each hapart hexec (List.mem_flatMap.2 ⟨r, hr, hop⟩)
  have hregistered : ∀ r ∈ registrations collection s,
      after.find? providerIds (r.newId kind) = some
        ⟨[("_id", .string (r.newId kind)), ("model-uuid", .string r.modelUuid)]⟩ := by
    intro r hr
    obtain ⟨done, hdone, hleft⟩ := heach r hr _ (List.mem_cons_of_mem _ List.mem_cons_self)
    obtain ⟨-, rfl⟩ := Operation.execute_insert_ok_iff.1 hdone
    exact hleft.trans (Documents.place_self _ _ _ _)
  have huntouched : ∀ name id, (name = collection → ∀ newId, ¬Registers collection kind s id newId) →
      (name = providerIds → ∀ old, ¬Registers collection kind s old id) →
      after.find? name id = s.find? name id := by
    intro name id hno hno'
    refine Transaction.execute_untouched hexec fun op hop hplace => ?_
    obtain ⟨r, hr, hmem⟩ := List.mem_flatMap.1 hop
    simp only [Registration.operations, List.mem_cons, List.not_mem_nil, or_false] at hmem
    rcases hmem with rfl | rfl
    · exact hno hplace.1.symm (r.newId kind) (registers_iff.2 ⟨r, hr, hplace.2, rfl⟩)
    · exact hno' hplace.1.symm r.id (registers_iff.2 ⟨r, hr, rfl, hplace.2⟩)
  refine ⟨fun id d modelUuid rest hd hprefixed => ?_, fun id d modelUuid rest hd hprefixed => ?_,
    fun newId hnone => ⟨fun hsome => ?_, ?_⟩, huntouched, happlied.names, happlied.pending⟩
  · have hr : ⟨id, modelUuid, rest⟩ ∈ registrations collection s :=
      mem_registrations.2 ⟨d, hd, hprefixed⟩
    obtain ⟨done, hdone, hleft⟩ := heach _ hr _ List.mem_cons_self
    rw [Operation.execute_update_ok hd (execute_setting_providerid d rest)] at hdone
    cases hdone
    exact hleft.trans (Documents.place_self _ _ _ _)
  · exact hregistered ⟨id, modelUuid, rest⟩ (mem_registrations.2 ⟨d, hd, hprefixed⟩)
  · obtain ⟨id, hid⟩ : ∃ id, Registers collection kind s id newId := by
      by_contra hno
      rw [huntouched providerIds newId (fun he => absurd he.symm hother)
        fun _ old hold => hno ⟨old, hold⟩, hnone] at hsome
      cases hsome
    exact ⟨id, hid, fun id' hid' => hdistinct id id' newId hid hid'⟩
  · rintro ⟨id, hid, -⟩
    obtain ⟨r, hr, -, rfl⟩ := registers_iff.1 hid
    rw [hregistered r hr]
    rfl

/-- A plan of the step is taken just if the registrations that the documents ask for are pairwise
different and none is there. Then every document that asks for one has lost its model's UUID,
there is one registration for each, and nothing else has changed. A store, in memory or in a file,
that refuses the plan holds what it held. -/
theorem registers_iff_ids_distinct_and_free {σ : Type} [DocumentStore σ] [SnapshotStore σ]
    {collection : String} (kind : String) {store : σ} {disk : Disk} {vars vars' : Variables}
    {plan : StepPlan} (hother : collection ≠ providerIds) (hk : (snapshot store).Keyed)
    (hplan : (step collection kind).plan (DocumentStore.view store) disk vars =
      .ok (plan, vars')) :
    plan.droppedCollections = [] ∧ plan.files = [] ∧ vars' = vars ∧
      ((∃ after, (snapshot store).apply plan.transaction = .ok after) ↔
        IdsDistinct collection kind (snapshot store) ∧ IdsFree collection kind (snapshot store)) ∧
      (∀ after, (snapshot store).apply plan.transaction = .ok after →
        Registered collection kind (snapshot store) after) ∧
      ∀ e, (snapshot store).apply plan.transaction = .error e → ∀ disk,
        MemoryStore.apply plan.transaction ⟨snapshot store⟩ disk =
            ⟨.error e, ⟨snapshot store⟩, disk⟩ ∧
          ∀ path write, (FileStore.applyWith write plan.transaction ⟨path, snapshot store⟩
            disk).store = ⟨path, snapshot store⟩ := by
  rw [SnapshotStore.view_eq] at hplan
  obtain ⟨ops, hops, hpair⟩ := Except.map_eq_ok.1 hplan
  cases hpair
  refine ⟨rfl, rfl, rfl, apply_ok_iff hother hk hops,
    fun after happly => registered_of_apply hother hk hops happly, fun e he disk => ⟨?_, ?_⟩⟩
  · exact MemoryStore.apply_of_refused he
  · exact fun path write => FileStore.applyWith_of_refused he

def scopedSubnets : MemoryStore :=
  let entries : List Sample.Entry :=
    [⟨"subnets", "m:a", [("model-uuid", "m"), ("providerid", "m:subnet:m:x"), ("cidr", "10.0.0.0/24")]⟩,
      ⟨"subnets", "m:b", [("providerid", "mx:y"), ("model-uuid", "m")]⟩,
      ⟨"subnets", "m:c", [("model-uuid", "m")]⟩,
      ⟨"subnets", "n:a", [("model-uuid", "m:subnet"), ("providerid", "m:subnet:")]⟩,
      ⟨providerIds, "m:subnet:x", [("model-uuid", "m")]⟩]
  ⟨entries.foldl Sample.Entry.addTo .empty, []⟩

theorem registers_scoped_subnets :
    "subnets" ≠ providerIds ∧ (snapshot scopedSubnets).Keyed ∧ ∃ plan vars after,
      (step "subnets" "subnet").plan (DocumentStore.view scopedSubnets) .empty (.ofUuid "u") =
        .ok (plan, vars) ∧
      IdsDistinct "subnets" "subnet" (snapshot scopedSubnets) ∧
      IdsFree "subnets" "subnet" (snapshot scopedSubnets) ∧
      (snapshot scopedSubnets).apply plan.transaction = .ok after ∧
      Registered "subnets" "subnet" (snapshot scopedSubnets) after := by
  have hother : "subnets" ≠ providerIds := by decide
  have hk : (snapshot scopedSubnets).Keyed := by decide +kernel
  obtain ⟨plan, vars, hplan, hdone⟩ :=
    (step "subnets" "subnet").exists_taken_plan scopedSubnets (.ofUuid "u") (by decide +kernel)
  have happly := SnapshotStore.apply_ok hdone
  obtain ⟨-, -, -, haccepted, hafter, -⟩ :=
    registers_iff_ids_distinct_and_free "subnet" hother hk hplan
  obtain ⟨hdistinct, hfree⟩ := haccepted.1 ⟨_, happly⟩
  exact ⟨hother, hk, plan, vars, _, hplan, hdistinct, hfree, happly, hafter _ happly⟩

end FleetUpgrade.ProviderIds
