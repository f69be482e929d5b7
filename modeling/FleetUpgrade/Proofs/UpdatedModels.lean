import FleetUpgrade.Proofs.CollectionPlans
import FleetUpgrade.Proofs.SnapshotStore
import FleetUpgrade.Sample.Controller

/-! # Models that are pointed at a new controller

One transaction updates every model and its settings, grants the administrator a
permission on each, and renames the administrator's model among those of the users.
Its operations are all about different places, so what is in a place afterwards can
be told from what was there before.
-/

namespace FleetUpgrade

open CollectionName (models settings permissions userModelName)
open SnapshotStore (snapshot)

/-! ## Single documents -/

namespace Update

variable {d : Document}

theorem foldl_clearing (u : Update) (names : List String) (path : String → String) :
    names.foldl (fun u name => u.clearing (path name)) u = ⟨u.set, u.unset ++ names.map path⟩ := by
  induction names generalizing u with
  | nil => simp
  | cons name names ih =>
      rw [List.foldl_cons, ih]
      simp [clearing]

theorem clear_nested {outer : String} {names : List String} {path : String → String}
    {inner : Document} (hpath : ∀ name ∈ names, Path.segments (path name) = [outer, name]) :
    (names.map path).foldlM clearOne (d.insert outer inner) =
      .ok (d.insert outer (inner.without names)) := by
  induction names generalizing inner with
  | nil => rfl
  | cons name names ih =>
      have hone : clearOne (d.insert outer inner) (path name) =
          .ok (d.insert outer (inner.remove name)) := by
        have hfirst := hpath name List.mem_cons_self
        have hinner : (d.insert outer inner).get? outer = some (.ofDocument inner) := by simp
        have hid : path name ≠ Document.idField := by
          intro he
          rw [he, Path.segments_idField] at hfirst
          cases hfirst
        unfold clearOne
        rw [if_neg hid, Document.unsetPath_of_nested hfirst hinner, Document.insert_insert]
      rw [List.map_cons, List.foldlM_cons, hone]
      exact ih fun other hother => hpath other (List.mem_cons_of_mem name hother)

end Update

namespace ModelUpdate

variable {cloud credential uuid name agentVersion : String} {d d' : Document}

/-- A model gets the cloud, the credential and the controller; the administrator's gets a name. -/
theorem execute_changes (d : Document) :
    (changes cloud credential uuid name).execute d =
      let pointed := ((d.insert "cloud" cloud).insert "cloud-credential" credential).insert
        "controller-uuid" uuid
      .ok ((if name = "admin" then pointed.insert "name" "controller" else pointed).remove
        "server-uuid") := by
  have hone : ∀ (d : Document) (value : Value), ∀ field ∈ ["cloud", "cloud-credential",
      "controller-uuid", "name"], Update.setOne d (field, value) = .ok (d.insert field value) := by
    intro d value field hfield
    have hplain : ∀ field ∈ ["cloud", "cloud-credential", "controller-uuid", "name"],
        Path.segments field = [field] ∧ field ≠ "" ∧ field ≠ Document.idField := by
      decide +kernel
    obtain ⟨hsegments, hne, hid⟩ := hplain field hfield
    exact Update.setOne_of_plain hsegments hne hid
  have hclear : ∀ d : Document, Update.clearOne d "server-uuid" = .ok (d.remove "server-uuid") :=
    fun d => Update.clearOne_of_plain (by decide +kernel) (by decide)
  have hunset : (changes cloud credential uuid name).unset = ["server-uuid"] := by
    unfold changes
    dsimp only
    split <;> rfl
  have hset : (changes cloud credential uuid name).set.fields =
      [("cloud", .string cloud), ("cloud-credential", .string credential),
        ("controller-uuid", .string uuid)] ++
        if name = "admin" then [("name", .string "controller")] else [] := by
    unfold changes
    dsimp only
    split <;> rfl
  unfold Update.execute
  rw [hset, hunset]
  split
  · simp [hone, hclear, Except.bind, bind, pure, Except.pure]
  · simp [hone, hclear, Except.bind, bind, pure, Except.pure]

def modelFields : List String :=
  ["cloud", "cloud-credential", "controller-uuid", "name", "server-uuid"]

/-- A model before and after. -/
structure Pointed (cloud credential uuid : String) (old new : Document) : Prop where
  cloud : new.get? "cloud" = some (.string cloud)
  credential : new.get? "cloud-credential" = some (.string credential)
  controller : new.get? "controller-uuid" = some (.string uuid)
  server : new.get? "server-uuid" = none
  renamed : old.get? "name" = some (.string "admin") →
    new.get? "name" = some (.string "controller")
  named : old.get? "name" ≠ some (.string "admin") → new.get? "name" = old.get? "name"
  others : new.without modelFields = old.without modelFields

theorem pointed_of_execute (hname : d.get? "name" = some (.string name))
    (h : (changes cloud credential uuid name).execute d = .ok d') :
    Pointed cloud credential uuid d d' := by
  rw [execute_changes] at h
  cases h
  by_cases hadmin : name = "admin"
  · rw [if_pos hadmin]
    refine ⟨by simp, by simp, by simp, by simp, fun _ => by simp, fun hne => ?_, ?_⟩
    · exact absurd (hadmin ▸ hname) hne
    · simp [modelFields, Document.without_remove, Document.without_insert]
  · rw [if_neg hadmin]
    refine ⟨by simp, by simp, by simp, by simp, fun he => ?_, fun _ => by simp, ?_⟩
    · rw [hname, Option.some.injEq, Value.string.injEq] at he
      exact absurd he hadmin
    · simp [modelFields, Document.without_remove, Document.without_insert]

def writtenSettings : List String :=
  ["agent-version", "provisioner-harvest-mode", "transmit-vendor-metrics"]

theorem segments_written : ∀ name ∈ writtenSettings,
    Path.segments ("settings." ++ name) = ["settings", name] ∧ name ≠ "" ∧
      Path.index? name = none := by
  decide +kernel

def clearedSettings (cloud : Cloud) : List String :=
  commonRemovedSettings ++ cloud.removedSettings

theorem segments_cleared (cloud : Cloud) : ∀ name ∈ clearedSettings cloud,
    Path.segments ("settings." ++ name) = ["settings", name] := by
  cases cloud
  · decide +kernel
  · decide +kernel

theorem mem_allRemovedSettings (cloud : Cloud) (name : String) :
    name ∈ cloud.allRemovedSettings ↔ name ∈ clearedSettings cloud := by
  have hsubset : (∀ name ∈ cloud.allRemovedSettings, name ∈ clearedSettings cloud) ∧
      ∀ name ∈ clearedSettings cloud, name ∈ cloud.allRemovedSettings := by
    cases cloud
    · decide +kernel
    · decide +kernel
  exact ⟨hsubset.1 name, hsubset.2 name⟩

def withWritten (agentVersion : String) (inner : Document) : Document :=
  ((inner.insert "agent-version" agentVersion).insert "provisioner-harvest-mode" "destroyed").insert
    "transmit-vendor-metrics" true

theorem execute_settingsChanges {removed : List String}
    (hremoved : ∀ name ∈ removed, Path.segments ("settings." ++ name) = ["settings", name])
    (h : (settingsChanges agentVersion removed).execute d = .ok d') :
    ∃ inner, d.inner? "settings" = some inner ∧
      d' = d.insert "settings"
        (.ofDocument ((withWritten agentVersion inner).without removed)) := by
  have hwrite : ∀ {before after : Document} {value : Value}, ∀ name ∈ writtenSettings,
      Update.setOne before ("settings." ++ name, value) = .ok after →
      ∃ inner, before.inner? "settings" = some inner ∧
        after = before.insert "settings" (inner.insert name value) := by
    intro before after value name hname hone
    obtain ⟨hsegments, hne, hindex⟩ := segments_written name hname
    exact (Document.setPath_of_nested hsegments (by decide) hne hindex).1 (Update.setOne_ok hone)
  have hset : (settingsChanges agentVersion []).set.fields =
      [("settings." ++ "agent-version", .string agentVersion),
        ("settings." ++ "provisioner-harvest-mode", .string "destroyed"),
        ("settings." ++ "transmit-vendor-metrics", .bool true)] := by rfl
  unfold settingsChanges at h
  rw [Update.foldl_clearing] at h
  obtain ⟨written, hwritten, hcleared⟩ := Except.bind_eq_ok.1 h
  change (settingsChanges agentVersion []).set.fields.foldlM Update.setOne d = _ at hwritten
  rw [hset] at hwritten
  obtain ⟨first, hfirst, hwritten⟩ := Except.bind_eq_ok.1 hwritten
  obtain ⟨second, hsecond, hwritten⟩ := Except.bind_eq_ok.1 hwritten
  obtain ⟨third, hthird, hwritten⟩ := Except.bind_eq_ok.1 hwritten
  cases hwritten
  -- each of the three finds the settings as the one before left them
  obtain ⟨inner, hinner, rfl⟩ := hwrite _ (by decide) hfirst
  obtain ⟨inner', hinner', rfl⟩ := hwrite _ (by decide) hsecond
  obtain ⟨inner'', hinner'', rfl⟩ := hwrite _ (by decide) hthird
  simp only [Document.inner?_insert, Option.some.injEq] at hinner' hinner''
  subst hinner' hinner''
  simp only [Document.insert_insert] at hcleared
  refine ⟨inner, hinner, ?_⟩
  have hdone := hcleared.symm.trans (Update.clear_nested hremoved)
  exact Except.ok.inj hdone

/-- The settings of a model before and after. -/
structure Configured (agentVersion : String) (cloud : Cloud) (old new : Document) : Prop where
  agentVersion : new.get? "agent-version" = some (.string agentVersion)
  harvestMode : new.get? "provisioner-harvest-mode" = some (.string "destroyed")
  metrics : new.get? "transmit-vendor-metrics" = some (.bool true)
  cleared : ∀ name ∈ clearedSettings cloud, new.get? name = none
  others : new.without (writtenSettings ++ clearedSettings cloud) =
    old.without (writtenSettings ++ clearedSettings cloud)

/-- The document that holds the settings of a model before and after. -/
structure Reconfigured (agentVersion : String) (cloud : Cloud) (old new : Document) : Prop where
  settings : ∃ before after, old.inner? "settings" = some before ∧
    new.get? "settings" = some (.ofDocument after) ∧ Configured agentVersion cloud before after
  others : new.without ["settings"] = old.without ["settings"]

theorem configured (agentVersion : String) (cloud : Cloud) (inner : Document) :
    Configured agentVersion cloud inner
      ((withWritten agentVersion inner).without cloud.allRemovedSettings) := by
  have hwritten : ∀ name ∈ writtenSettings, name ∉ cloud.allRemovedSettings := by
    simp only [mem_allRemovedSettings]
    cases cloud
    · decide +kernel
    · decide +kernel
  have hkept : ∀ name ∈ writtenSettings,
      ((withWritten agentVersion inner).without cloud.allRemovedSettings).get? name =
        (withWritten agentVersion inner).get? name :=
    fun name hname => Document.get?_without _ (hwritten name hname)
  refine ⟨?_, ?_, ?_, fun name hname => ?_, ?_⟩
  · rw [hkept _ (by decide)]
    simp [withWritten]
  · rw [hkept _ (by decide)]
    simp [withWritten]
  · rw [hkept _ (by decide)]
    simp [withWritten]
  · exact Document.get?_without_of_mem _ ((mem_allRemovedSettings cloud name).2 hname)
  · have hmore : cloud.allRemovedSettings ⊆ writtenSettings ++ clearedSettings cloud :=
      fun name hname => List.mem_append_right _ ((mem_allRemovedSettings cloud name).1 hname)
    rw [Document.without_without _ hmore]
    simp [withWritten, Document.without_insert, writtenSettings]

theorem reconfigured_of_execute {cloud : Cloud}
    (h : (settingsChanges agentVersion cloud.allRemovedSettings).execute d = .ok d') :
    Reconfigured agentVersion cloud d d' := by
  obtain ⟨inner, hinner, rfl⟩ := execute_settingsChanges
    (fun name hname => segments_cleared cloud name ((mem_allRemovedSettings cloud name).1 hname)) h
  exact ⟨⟨inner, (withWritten agentVersion inner).without cloud.allRemovedSettings, hinner,
    by simp, configured agentVersion cloud inner⟩, Document.without_insert d _ (by simp)⟩

/-! ## The transaction -/

variable {s after : Snapshot} {agentVersion credential uuid : String} {cloud : Cloud}

def permissionId (id : String) : String := "e#" ++ id ++ "#us#" ++ adminUser

def settingsId (id : String) : String := id ++ ":e"

def operations (agentVersion : String) (cloud : Cloud) (credential uuid id name : String) :
    Transaction :=
  [.update models id (changes cloud.tag credential uuid name), grantAdmin "admin" ("e#" ++ id),
    .update settings (settingsId id) (settingsChanges agentVersion cloud.allRemovedSettings)]

def nameOf (d : Document) : String := (d.getString "name").toOption.getD ""

def entries (s : Snapshot) : List (String × Document) :=
  (s.collections.collection models).entries

theorem mem_entries_iff {s : Snapshot} {id : String} {d : Document} :
    (id, d) ∈ entries s ↔ s.find? models id = some d :=
  (s.collections.collection models).mem_entries_iff id d

theorem nodup_ids (s : Snapshot) : (entries s).Pairwise fun a b => a.1 ≠ b.1 :=
  (s.collections.collection models).sorted.imp fun {a b} hlt he => by
    rw [he] at hlt
    exact String.lt_irrefl _ hlt

theorem parts_eq (hk : s.Keyed) {parts : List (Transaction × Bool)}
    (h : s.view.readEach models (ofDocument agentVersion cloud.tag credential uuid
      cloud.allRemovedSettings) = .ok parts) :
    (parts = (entries s).map fun entry =>
        (operations agentVersion cloud credential uuid entry.1 (nameOf entry.2),
          nameOf entry.2 == "admin")) ∧
      ∀ id d, s.find? models id = some d → d.get? "name" = some (.string (nameOf d)) := by
  have hdocuments : s.documents models = (entries s).map Prod.snd := rfl
  rw [Snapshot.readEach_eq, hdocuments, List.mapM_map] at h
  have hone : ∀ entry ∈ entries s, entry.2.get? "name" = some (.string (nameOf entry.2)) ∧
      ofDocument agentVersion cloud.tag credential uuid cloud.allRemovedSettings entry.2 =
        .ok (operations agentVersion cloud credential uuid entry.1 (nameOf entry.2),
          nameOf entry.2 == "admin") := by
    intro entry hentry
    obtain ⟨part, hpart⟩ := List.exists_ok_of_mapM_ok h hentry
    obtain ⟨id, name, hid, hname, rfl⟩ := ofDocument_spec hpart
    rw [hk models entry.1 entry.2 (mem_entries_iff.1 hentry)] at hid
    cases hid
    have hnamed : nameOf entry.2 = name := by
      unfold nameOf
      rw [hname]
      rfl
    rw [hnamed]
    exact ⟨(Document.getString_eq_ok_iff (by decide)).1 hname, hpart⟩
  constructor
  · have hall := List.mapM_ok_map fun entry hentry => (hone entry hentry).2
    exact Except.ok.inj (h.symm.trans hall)
  · exact fun id d hd => (hone (id, d) (mem_entries_iff.2 hd)).1

def transaction (agentVersion : String) (cloud : Cloud) (credential uuid : String) (s : Snapshot) :
    Transaction :=
  ((entries s).flatMap fun entry =>
      operations agentVersion cloud credential uuid entry.1 (nameOf entry.2)) ++
    if (entries s).any fun entry => nameOf entry.2 == "admin" then adminRenamed else []

theorem mem_operations {id name : String} {op : Operation} :
    op ∈ operations agentVersion cloud credential uuid id name ↔
      op = .update models id (changes cloud.tag credential uuid name) ∨
        op = .insert permissions (permissionId id) (adminPermission "admin" ("e#" ++ id)) ∨
        op = .update settings (settingsId id)
          (settingsChanges agentVersion cloud.allRemovedSettings) := by
  simp only [operations, List.mem_cons, List.not_mem_nil, or_false]
  rfl

theorem permissionId_inj {id id' : String} : permissionId id = permissionId id' ↔ id = id' := by
  refine ⟨fun h => String.toList_inj.1 ?_, congrArg permissionId⟩
  have hchars := congrArg String.toList h
  simpa [permissionId] using hchars

theorem settingsId_inj {id id' : String} : settingsId id = settingsId id' ↔ id = id' := by
  refine ⟨fun h => String.toList_inj.1 ?_, congrArg settingsId⟩
  have hchars := congrArg String.toList h
  simpa [settingsId] using hchars

theorem operations_apart (id name : String) :
    (operations agentVersion cloud credential uuid id name).Pairwise Operation.Apart := by
  simp [operations, Operation.Apart, Operation.update, grantAdmin, Operation.insert, models,
    permissions, settings]

theorem operations_apart_of_ne {id id' name name' : String} (hne : id ≠ id') :
    ∀ a ∈ operations agentVersion cloud credential uuid id name,
      ∀ b ∈ operations agentVersion cloud credential uuid id' name', Operation.Apart a b := by
  intro a ha b hb
  rw [mem_operations] at ha hb
  rcases ha with rfl | rfl | rfl <;> rcases hb with rfl | rfl | rfl <;>
    simp [Operation.Apart, Operation.update, Operation.insert, models, permissions, settings,
      permissionId_inj, settingsId_inj, hne]

theorem transaction_apart (s : Snapshot) :
    (transaction agentVersion cloud credential uuid s).Pairwise Operation.Apart := by
  unfold transaction
  -- ids tell the operations of two models apart, and names of collections those of one
  refine List.pairwise_append.2 ⟨List.pairwise_flatMap.2 ⟨fun entry _ => ?_, ?_⟩, ?_, ?_⟩
  · exact operations_apart entry.1 (nameOf entry.2)
  · exact (nodup_ids s).imp operations_apart_of_ne
  · split
    · simp [adminRenamed, Operation.Apart, Operation.remove, Operation.insert, adminUser]
    · exact List.Pairwise.nil
  · intro a ha b hb he
    obtain ⟨entry, -, hmem⟩ := List.mem_flatMap.1 ha
    have hother := collection_of_mem_adminRenamed (mem_adminRenamed hb)
    rw [mem_operations] at hmem
    rcases hmem with rfl | rfl | rfl
    all_goals
      rw [hother] at he
      exact absurd he.1 (by simp [Operation.update, Operation.insert, models, permissions,
        settings, userModelName])

def HasAdmin (s : Snapshot) : Prop :=
  ∃ id d, s.find? models id = some d ∧ d.get? "name" = some (.string "admin")

/-- The places that the transaction is about. -/
inductive Touched (s : Snapshot) : String → String → Prop where
  | model {id : String} (h : (s.find? models id).isSome = true) : Touched s models id
  | settings {id : String} (h : (s.find? models id).isSome = true) :
      Touched s settings (settingsId id)
  | permission {id : String} (h : (s.find? models id).isSome = true) :
      Touched s permissions (permissionId id)
  | oldName (h : HasAdmin s) : Touched s userModelName (adminUser ++ ":admin")
  | newName (h : HasAdmin s) : Touched s userModelName (adminUser ++ ":controller")

theorem isSome_of_touched {name id : String} (h : Touched s name id) (hname : name = models) :
    (s.find? models id).isSome = true := by
  cases h with
  | model h => exact h
  | settings _ => exact absurd hname (by decide)
  | permission _ => exact absurd hname (by decide)
  | oldName _ => exact absurd hname (by decide)
  | newName _ => exact absurd hname (by decide)

/-- A store before and after its models were pointed at a new controller. -/
structure ModelsUpdated (agentVersion : String) (cloud : Cloud) (credential uuid : String)
    (before after : Snapshot) : Prop where
  model : ∀ id d, before.find? models id = some d →
    ∃ d', after.find? models id = some d' ∧ Pointed cloud.tag credential uuid d d'
  settings : ∀ id d, before.find? models id = some d → ∃ old new,
    before.find? settings (settingsId id) = some old ∧
      after.find? settings (settingsId id) = some new ∧ Reconfigured agentVersion cloud old new
  permission : ∀ id d, before.find? models id = some d →
    before.find? permissions (permissionId id) = none ∧
      after.find? permissions (permissionId id) = some
        ⟨[("_id", .string (permissionId id)), ("access", .string "admin"),
          ("object-global-key", .string ("e#" ++ id)),
          ("subject-global-key", .string ("us#" ++ adminUser))]⟩
  renamed : HasAdmin before →
    (before.find? userModelName (adminUser ++ ":admin")).isSome = true ∧
      after.find? userModelName (adminUser ++ ":admin") = none ∧
      before.find? userModelName (adminUser ++ ":controller") = none ∧
      after.find? userModelName (adminUser ++ ":controller") =
        some ⟨[("_id", .string (adminUser ++ ":controller"))]⟩
  others : ∀ name id, ¬Touched before name id → after.find? name id = before.find? name id
  collections : ∀ name, after.collections.contains name = true ↔
    before.collections.contains name = true ∨ ∃ id, (after.find? name id).isSome = true
  pending : after.pending = before.pending

theorem ModelsUpdated.model_origin
    (h : ModelsUpdated agentVersion cloud credential uuid s after) {id : String} {d' : Document}
    (hd' : after.find? models id = some d') :
    ∃ d, s.find? models id = some d ∧ Pointed cloud.tag credential uuid d d' := by
  have hthere : (s.find? models id).isSome = true := by
    by_contra hno
    have hsame := h.others models id fun htouched => hno (isSome_of_touched htouched rfl)
    rw [hsame] at hd'
    exact hno (by rw [hd']; rfl)
  obtain ⟨d, hd⟩ := Option.isSome_iff_exists.1 hthere
  obtain ⟨_, hfound, hpointed⟩ := h.model id d hd
  rw [hd'] at hfound
  cases hfound
  exact ⟨d, hd, hpointed⟩

theorem any_admin_iff (hnames : ∀ id d, s.find? models id = some d →
      d.get? "name" = some (.string (nameOf d))) :
    ((entries s).any fun entry => nameOf entry.2 == "admin") = true ↔ HasAdmin s := by
  rw [List.any_eq_true]
  constructor
  · rintro ⟨⟨id, d⟩, hentry, hadmin⟩
    have hd := mem_entries_iff.1 hentry
    refine ⟨id, d, hd, ?_⟩
    rw [hnames id d hd, beq_iff_eq.1 hadmin]
  · rintro ⟨id, d, hd, hadmin⟩
    refine ⟨(id, d), mem_entries_iff.2 hd, ?_⟩
    rw [hnames id d hd, Option.some.injEq, Value.string.injEq] at hadmin
    rw [hadmin]
    rfl

theorem touched_of_mem (hnames : ∀ id d, s.find? models id = some d →
      d.get? "name" = some (.string (nameOf d))) {op : Operation}
    (hop : op ∈ transaction agentVersion cloud credential uuid s) :
    Touched s op.collection op.id := by
  rcases List.mem_append.1 hop with hmodel | hrenamed
  · obtain ⟨⟨id, d⟩, hentry, hmem⟩ := List.mem_flatMap.1 hmodel
    have hthere : (s.find? models id).isSome = true := by
      rw [mem_entries_iff.1 hentry]
      rfl
    rcases mem_operations.1 hmem with rfl | rfl | rfl
    · exact .model hthere
    · exact .permission hthere
    · exact .settings hthere
  · split at hrenamed
    · next hadmin =>
        have hhas := (any_admin_iff hnames).1 hadmin
        simp only [adminRenamed, List.mem_cons, List.not_mem_nil, or_false] at hrenamed
        rcases hrenamed with rfl | rfl
        · exact .oldName hhas
        · exact .newName hhas
    · exact absurd hrenamed List.not_mem_nil

theorem modelsUpdated_of_apply_transaction (hnames : ∀ id d, s.find? models id = some d →
      d.get? "name" = some (.string (nameOf d)))
    (h : s.apply (transaction agentVersion cloud credential uuid s) = .ok after) :
    ModelsUpdated agentVersion cloud credential uuid s after := by
  obtain ⟨hexec, happlied⟩ := Snapshot.apply_ok h
  have heach : ∀ op ∈ transaction agentVersion cloud credential uuid s,
      ∃ done, op.execute s.find? = .ok done ∧
        after.find? op.collection op.id = done op.collection op.id :=
    fun op hop => Transaction.execute_each (transaction_apart s) hexec hop
  have hmodel : ∀ {id d op}, s.find? models id = some d →
      op ∈ operations agentVersion cloud credential uuid id (nameOf d) →
      op ∈ transaction agentVersion cloud credential uuid s := fun hd hop =>
    List.mem_append_left _ (List.mem_flatMap.2 ⟨_, mem_entries_iff.2 hd, hop⟩)
  refine ⟨fun id d hd => ?_, fun id d hd => ?_, fun id d hd => ?_, fun hadmin => ?_,
    fun name id hno => ?_, happlied.names, happlied.pending⟩
  · obtain ⟨done, hdone, hafter⟩ := heach _ (hmodel hd (mem_operations.2 (.inl rfl)))
    obtain ⟨own, d', hown, hchanged, hd'⟩ := Operation.execute_update hdone
    rw [hd] at hown
    cases hown
    exact ⟨d', hafter.trans hd', pointed_of_execute (hnames id d hd) hchanged⟩
  · obtain ⟨done, hdone, hafter⟩ := heach _ (hmodel hd (mem_operations.2 (.inr (.inr rfl))))
    obtain ⟨old, new, hold, hchanged, hnew⟩ := Operation.execute_update hdone
    exact ⟨old, new, hold, hafter.trans hnew, reconfigured_of_execute hchanged⟩
  · obtain ⟨done, hdone, hafter⟩ := heach _ (hmodel hd (mem_operations.2 (.inr (.inl rfl))))
    obtain ⟨hfree, rfl⟩ := Operation.execute_insert_ok_iff.1 hdone
    exact ⟨hfree, hafter.trans (Documents.place_self _ _ _ _)⟩
  · have hany := (any_admin_iff hnames).2 hadmin
    have hrenamed : ∀ op ∈ adminRenamed, op ∈ transaction agentVersion cloud credential uuid s := by
      intro op hop
      refine List.mem_append_right _ ?_
      rw [if_pos hany]
      exact hop
    obtain ⟨done, hdone, hafter⟩ := heach _ (hrenamed _ List.mem_cons_self)
    obtain ⟨hthere, rfl⟩ := Operation.execute_remove_ok_iff.1 hdone
    obtain ⟨done', hdone', hafter'⟩ :=
      heach _ (hrenamed _ (List.mem_cons_of_mem _ (List.mem_singleton_self _)))
    obtain ⟨hfree, rfl⟩ := Operation.execute_insert_ok_iff.1 hdone'
    exact ⟨hthere, hafter.trans (Documents.place_self _ _ _ _), hfree,
      hafter'.trans (Documents.place_self _ _ _ _)⟩
  · refine Transaction.execute_untouched hexec fun op hop hplace => hno ?_
    rw [← hplace.1, ← hplace.2]
    exact touched_of_mem hnames hop

/-- A plan that points the models at a new controller, and what it leaves. -/
theorem modelsUpdated_of_apply {disk : Disk} {vars vars' : Variables} {plan : StepPlan}
    (hk : s.Keyed) (hplan : (updateModels agentVersion).plan s.view disk vars = .ok (plan, vars'))
    (h : s.apply plan.transaction = .ok after) :
    ∃ cloud credential, vars.cloud = some (Cloud.tag cloud) ∧ vars.credential = some credential ∧
      plan.droppedCollections = [] ∧ plan.files = [] ∧ vars' = vars ∧
      ModelsUpdated agentVersion cloud credential vars.controllerUuid s after := by
  obtain ⟨cloud, credential, parts, hcloud, hcredential, hread, rfl, rfl⟩ := updateModels_spec hplan
  obtain ⟨rfl, hnames⟩ := parts_eq hk hread
  refine ⟨cloud, credential, hcloud, hcredential, rfl, rfl, rfl, ?_⟩
  refine modelsUpdated_of_apply_transaction hnames ?_
  rw [← h, StepPlan.ofTransaction, List.map_map, List.any_map, transaction, List.flatMap_def]
  rfl

end ModelUpdate

/-- All models and their settings are updated, every model gains the administrator's permission,
the administrator's model is renamed among those of the users if there is one, and nothing else
changes. -/
theorem models_updated_and_nothing_else {σ : Type} [DocumentStore σ] [SnapshotStore σ]
    (agentVersion : String) (cloud : Cloud) {credential : String} {store : σ} {disk disk' : Disk}
    {vars vars' : Variables} {plan : StepPlan} (hk : (snapshot store).Keyed)
    (hcloud : vars.cloud = some cloud.tag) (hcredential : vars.credential = some credential)
    (hplan : (updateModels agentVersion).plan (DocumentStore.view store) disk vars =
      .ok (plan, vars'))
    (h : (DocumentStore.apply plan.transaction store disk').result = .ok ()) :
    plan.droppedCollections = [] ∧ plan.files = [] ∧ vars' = vars ∧
      ModelUpdate.ModelsUpdated agentVersion cloud credential vars.controllerUuid (snapshot store)
        (snapshot (DocumentStore.apply plan.transaction store disk').store) := by
  rw [SnapshotStore.view_eq] at hplan
  obtain ⟨cloud', credential', hcloud', hcredential', hdone⟩ :=
    ModelUpdate.modelsUpdated_of_apply hk hplan (SnapshotStore.apply_ok h)
  have htags : cloud' = cloud := by
    rw [hcloud, Option.some.injEq] at hcloud'
    revert hcloud'
    cases cloud <;> cases cloud' <;> decide
  rw [hcredential, Option.some.injEq] at hcredential'
  rw [htags, ← hcredential'] at hdone
  exact hdone

/-- The administrator's model, which has settings with nearly the names of those that are cleared,
and a model without settings. -/
def twoModels : MemoryStore :=
  let nearly : Value := .document
    [("api-port.old", .int 1), ("api-port", .document [("ca-cert", "x")]), ("name", "n"),
      ("nested", .document [("state-port", .int 2)]), ("agent-version", "2.0")]
  let entries : List Sample.Entry :=
    [⟨models, "a", [("name", "admin"), ("server-uuid", "old"), ("life", .int 0)]⟩,
      ⟨models, "b", [("cloud", "dummy"), ("owner", "admin@local"), ("name", "default")]⟩,
      ⟨settings, "a:e", [("settings", nearly), ("settings.ca-cert", "x")]⟩,
      ⟨settings, "b:e", [("model-uuid", "b")]⟩,
      ⟨settings, "b:s#mysql", [("settings", nearly)]⟩,
      ⟨userModelName, "admin@local:admin", []⟩,
      ⟨userModelName, "admin@local:default", []⟩]
  ⟨entries.foldl Sample.Entry.addTo .empty, []⟩

def maasVariables : Variables :=
  { Variables.ofUuid "u" with cloud := some "maas", credential := some "maas/admin@local/maas" }

theorem two_models_updated_and_nothing_else :
    (snapshot twoModels).Keyed ∧ ∃ plan vars,
      (updateModels "2.1.0").plan (DocumentStore.view twoModels) .empty maasVariables =
        .ok (plan, vars) ∧
      (DocumentStore.apply plan.transaction twoModels .empty).result = .ok () ∧
      plan.droppedCollections = [] ∧ plan.files = [] ∧ vars = maasVariables ∧
      ModelUpdate.ModelsUpdated "2.1.0" .maas "maas/admin@local/maas" "u" (snapshot twoModels)
        (snapshot (DocumentStore.apply plan.transaction twoModels .empty).store) := by
  have hk : (snapshot twoModels).Keyed := by decide +kernel
  obtain ⟨plan, vars, hplan, hdone⟩ :=
    (updateModels "2.1.0").exists_taken_plan twoModels maasVariables (by decide +kernel)
  exact ⟨hk, plan, vars, hplan, hdone,
    models_updated_and_nothing_else "2.1.0" .maas hk rfl rfl hplan hdone⟩

end FleetUpgrade
