import FleetUpgrade.Fleet.Inventory
import FleetUpgrade.Proofs.DocumentFields
import FleetUpgrade.Proofs.FailedApply
import FleetUpgrade.Sample.Controller

/-! # The machines of an inventory

An inventory lists the machines model by model, so a machine is listed once if its
model is one of the store's, and not at all otherwise. The controller's own machine
and the others are found by two further walks over the models; together they are all
machines, because a machine is known by its model and its id.
-/

namespace FleetUpgrade

open TransactionalStore (contents)

/-! ## What is read of a store -/

/-- Stores whose cursors have gone through all contents when they come to their end. -/
class ScannedStore (σ : Type) [DocumentStore σ] extends TransactionalStore σ where
  scan_end {store : σ} {name : String} {docs : List Document}
    (h : DocumentStore.scan store name .all = .ok ⟨docs, none⟩) :
    docs = (contents store).documents name

theorem Snapshot.scan_end {s : Snapshot} {name : String} {docs : List Document}
    (h : s.scan name .all = .ok ⟨docs, none⟩) : docs = s.documents name := by
  have hall : s.select name .all = s.documents name := List.filter_eq_self.2 fun _ _ => rfl
  unfold scan at h
  rw [hall] at h
  cases h
  rfl

instance : ScannedStore MemoryStore where
  scan_end h := Snapshot.scan_end h

instance : ScannedStore FileStore where
  scan_end h := Snapshot.scan_end h

instance {σ : Type} [DocumentStore σ] [ScannedStore σ] : ScannedStore (FaultyStore σ) where
  scan_end {f name docs} h := by
    change f.guarded name ((DocumentStore.scan f.inner name .all).map (f.interrupted name)) = _ at h
    unfold FaultyStore.guarded at h
    split at h
    · cases h
    · obtain ⟨cursor, hcursor, hend⟩ := Except.map_eq_ok.1 h
      -- a cursor that is cut off does not come to its end
      have hsame : cursor = ⟨docs, none⟩ := by
        unfold FaultyStore.interrupted at hend
        split at hend
        · split at hend
          · cases hend
          · exact hend
        · exact hend
      rw [hsame] at hcursor
      exact ScannedStore.scan_end hcursor

theorem Snapshot.Keyed.map_id {s : Snapshot} (hk : s.Keyed) (name : String) :
    (s.documents name).map Document.id = (s.collections.collection name).keys.map .ok := by
  unfold documents Table.values Table.keys
  rw [List.map_map, List.map_map]
  refine List.map_congr_left fun entry hentry => ?_
  exact hk name entry.1 entry.2 ((Table.mem_entries_iff _ _ _).1 hentry)

namespace Document

def text? (d : Document) (name : String) : Option String :=
  (d.get? name).bind Value.string?

theorem text?_eq_some_iff {d : Document} {name text : String} :
    d.text? name = some text ↔ d.get? name = some (.string text) := by
  unfold text?
  cases d.get? name with
  | none => simp
  | some v => cases v <;> simp [Value.string?]

theorem getString_eq_ok_iff_text? {d : Document} {name text : String}
    (hplain : Path.segments name = [name]) :
    d.getString name = .ok text ↔ d.text? name = some text := by
  rw [getString_eq_ok_iff hplain, text?_eq_some_iff]

end Document

def Document.machineKey? (d : Document) : Option String :=
  (d.text? "model-uuid").bind fun model =>
    (d.text? "machineid").map fun machine => model ++ ":" ++ machine

/-- Every machine stands under its model and its id. -/
def Snapshot.MachinesNamed (s : Snapshot) : Prop :=
  ∀ id d, s.find? CollectionName.machines id = some d → d.machineKey? = some id

instance (s : Snapshot) : Decidable s.MachinesNamed :=
  decidable_of_iff (∀ entry ∈ (s.collections.collection CollectionName.machines).entries,
      entry.2.machineKey? = some entry.1)
    ⟨fun h id d hd => h (id, d) ((Table.mem_entries_iff _ id d).2 hd),
      fun h entry hentry => h entry.1 entry.2 ((Table.mem_entries_iff _ _ _).1 hentry)⟩

/-- A machine is listed as its document has it; without an address its address is empty. -/
structure FleetMachine.Describes (m : FleetMachine) (d : Document) : Prop where
  model : d.text? "model-uuid" = some m.modelUuid
  machine : d.text? "machineid" = some m.machineId
  address : ∃ found, d.getString? "preferredpublicaddress.value" = .ok found ∧
    m.address = found.getD ""

/-- A machine is known by its model and its id. -/
def FleetMachine.place (m : FleetMachine) : String × String := (m.modelUuid, m.machineId)

def FleetMachine.standsAt (place : String × String) (m : FleetMachine) : Bool :=
  m.place = place

namespace Inventory

theorem inEntry_eq_ok {α : Type} {collection : String} {d : Document}
    {result : Except FieldError α} {a : α} :
    inEntry collection d result = .ok a ↔ result = .ok a := by
  unfold inEntry
  cases result <;> simp [Except.mapError]

theorem documents_end {σ : Type} [DocumentStore σ] [ScannedStore σ] {store : σ} {name : String}
    {docs : List Document} (h : documents (DocumentStore.view store) name = .ok docs) :
    docs = (contents store).documents name := by
  unfold documents at h
  split at h
  · cases h
  · next cursor hscan =>
      split at h
      · cases h
      · next hend =>
          cases h
          refine ScannedStore.scan_end ?_
          rw [← hend]
          exact hscan

/-- A document is read as the machine it describes if it belongs to the model, and as none if it
does not. -/
theorem machineOf_ok {uuid : String} {d : Document} {found : List FleetMachine}
    (h : machineOf uuid d = .ok found) :
    List.Forall₂ FleetMachine.Describes found
      ([d].filter fun d => d.text? "model-uuid" = some uuid) := by
  have hmodel : Path.segments "model-uuid" = ["model-uuid"] := by decide +kernel
  have hmachine : Path.segments "machineid" = ["machineid"] := by decide +kernel
  unfold machineOf at h
  obtain ⟨owner, howner, h⟩ := Except.bind_eq_ok.1 h
  rw [inEntry_eq_ok, Document.getString_eq_ok_iff_text? hmodel] at howner
  split at h
  · next hown =>
      subst hown
      obtain ⟨machineId, hid, h⟩ := Except.bind_eq_ok.1 h
      obtain ⟨address, haddress, h⟩ := Except.bind_eq_ok.1 h
      rw [inEntry_eq_ok, Document.getString_eq_ok_iff_text? hmachine] at hid
      rw [inEntry_eq_ok] at haddress
      cases h
      rw [List.filter_cons_of_pos (by simpa using howner), List.filter_nil]
      exact .cons ⟨howner, hid, address, haddress, rfl⟩ .nil
  · next hother =>
      cases h
      rw [List.filter_cons_of_neg (by simpa [howner] using hother), List.filter_nil]
      exact .nil

theorem machines_of_mapM {uuid : String} {docs : List Document} {found : List (List FleetMachine)}
    (h : docs.mapM (machineOf uuid) = .ok found) :
    List.Forall₂ FleetMachine.Describes found.flatten
      (docs.filter fun d => d.text? "model-uuid" = some uuid) := by
  have hread := List.forall₂_of_mapM_ok h
  clear h
  induction hread with
  | nil => exact .nil
  | @cons d part docs parts hone _ ih =>
      rw [show d :: docs = [d] ++ docs from rfl, List.filter_append, List.flatten_cons]
      exact List.rel_append (machineOf_ok hone) ih

/-- What an inventory has of a store: the models in the order of their ids, each with the machines
that name it. -/
structure Lists (inventory : Inventory) (s : Snapshot) (controllerModel : String) : Prop where
  uuids : inventory.models.map FleetModel.uuid =
    (s.collections.collection CollectionName.models).keys
  controller : ∀ model ∈ inventory.models, model.controller = (model.uuid == controllerModel)
  machines : ∀ model ∈ inventory.models, List.Forall₂ FleetMachine.Describes model.machines
    ((s.documents CollectionName.machines).filter fun d => d.text? "model-uuid" = some model.uuid)

theorem lists_of_load {σ : Type} [DocumentStore σ] [ScannedStore σ] {store : σ}
    {inventory : Inventory} (hk : (contents store).Keyed)
    (h : load (DocumentStore.view store) = .ok inventory) :
    ∃ controllerModel, controllerModelUuid (DocumentStore.view store) = .ok controllerModel ∧
      inventory.Lists (contents store) controllerModel := by
  unfold load at h
  obtain ⟨controllerModel, hcontroller, h⟩ := Except.bind_eq_ok.1 h
  obtain ⟨machineDocs, hmachines, h⟩ := Except.bind_eq_ok.1 h
  obtain ⟨modelDocs, hmodels, h⟩ := Except.bind_eq_ok.1 h
  obtain ⟨found, hfound, h⟩ := Except.bind_eq_ok.1 h
  cases h
  obtain rfl := documents_end hmachines
  obtain rfl := documents_end hmodels
  refine ⟨controllerModel, hcontroller, ?_⟩
  have hone : ∀ {d model},
      modelOf controllerModel ((contents store).documents CollectionName.machines) d = .ok model →
      d.id = .ok model.uuid ∧ model.controller = (model.uuid == controllerModel) ∧
      List.Forall₂ FleetMachine.Describes model.machines
        (((contents store).documents CollectionName.machines).filter fun d =>
          d.text? "model-uuid" = some model.uuid) := by
    intro d model hread
    unfold modelOf at hread
    obtain ⟨uuid, huuid, hread⟩ := Except.bind_eq_ok.1 hread
    obtain ⟨name, -, hread⟩ := Except.bind_eq_ok.1 hread
    obtain ⟨parts, hparts, hread⟩ := Except.bind_eq_ok.1 hread
    cases hread
    exact ⟨inEntry_eq_ok.1 huuid, rfl, machines_of_mapM hparts⟩
  constructor
  · have hread : List.Forall₂ (fun d model => d.id = .ok model.uuid)
        ((contents store).documents CollectionName.models) found :=
      (List.forall₂_of_mapM_ok hfound).imp fun _ _ hmodel => (hone hmodel).1
    have hids : ((contents store).documents CollectionName.models).map Document.id =
        (found.map FleetModel.uuid).map Except.ok := by
      rw [List.map_map, ← List.forall₂_eq_eq_eq, List.forall₂_map_left_iff,
        List.forall₂_map_right_iff]
      exact hread
    rw [hk.map_id, List.map_inj_right fun _ _ he => Except.ok.inj he] at hids
    exact hids.symm
  · intro model hmodel
    obtain ⟨d, -, hread⟩ := List.mapM_ok_of_mem hfound hmodel
    exact (hone hread).2.1
  · intro model hmodel
    obtain ⟨d, -, hread⟩ := List.mapM_ok_of_mem hfound hmodel
    exact (hone hread).2.2

namespace Lists

variable {inventory : Inventory} {s : Snapshot} {controllerModel : String}

theorem nodup_uuids (h : inventory.Lists s controllerModel) :
    (inventory.models.map FleetModel.uuid).Nodup := by
  rw [h.uuids]
  exact Table.keys_nodup _

theorem modelUuid_eq (h : inventory.Lists s controllerModel) {model : FleetModel}
    (hmodel : model ∈ inventory.models) {m : FleetMachine} (hm : m ∈ model.machines) :
    m.modelUuid = model.uuid := by
  obtain ⟨d, hd, hdescribes⟩ := List.exists_of_mem_forall₂ (h.machines model hmodel) hm
  have howner := hdescribes.model
  rw [of_decide_eq_true (List.mem_filter.1 hd).2] at howner
  exact (Option.some.inj howner).symm

/-- Every machine of one of the store's models is listed, once, and no other. -/
theorem allMachines_describe (h : inventory.Lists s controllerModel) :
    ∃ docs : List Document, docs.Perm ((s.documents CollectionName.machines).filter fun d =>
        (d.text? "model-uuid").any fun uuid => (s.find? CollectionName.models uuid).isSome) ∧
      List.Forall₂ FleetMachine.Describes inventory.allMachines docs := by
  refine ⟨inventory.models.flatMap fun model =>
    (s.documents CollectionName.machines).filter fun d =>
      d.text? "model-uuid" = some model.uuid, ?_, ?_⟩
  · have hperm := List.flatMap_filter_key_perm (Document.text? · "model-uuid")
      (s.documents CollectionName.machines) h.nodup_uuids
    rw [List.flatMap_map] at hperm
    have howned : (inventory.models.map FleetModel.uuid).contains =
        fun uuid => (s.find? CollectionName.models uuid).isSome := by
      funext uuid
      rw [Bool.eq_iff_iff, List.contains_iff_mem, h.uuids, Table.mem_keys_iff]
      exact Iff.rfl
    rw [howned] at hperm
    exact hperm
  · unfold allMachines
    rw [List.flatMap_def, List.flatMap_def]
    refine List.rel_flatten ?_
    rw [List.forall₂_map_left_iff, List.forall₂_map_right_iff, List.forall₂_same]
    exact h.machines

/-- Whether a machine is the controller's own can be told from its model and its id. -/
theorem otherMachines_eq (h : inventory.Lists s controllerModel) :
    inventory.otherMachines =
      inventory.allMachines.filter fun m => !m.standsAt (controllerModel, "0") := by
  unfold otherMachines allMachines
  rw [List.filter_flatMap]
  refine List.flatMap_congr fun model hmodel => List.filter_congr fun m hm => ?_
  unfold isServer FleetMachine.standsAt FleetMachine.place
  rw [h.controller model hmodel, h.modelUuid_eq hmodel hm, Bool.eq_iff_iff]
  simp

theorem serverMachine_eq (h : inventory.Lists s controllerModel) :
    inventory.serverMachine =
      match inventory.allMachines.find? (FleetMachine.standsAt (controllerModel, "0")) with
      | some m => .ok m
      | none => .error .noControllerMachine := by
  have hmachines : (inventory.models.filter FleetModel.controller).flatMap FleetModel.machines =
      inventory.allMachines.filter fun m => m.modelUuid == controllerModel := by
    refine List.flatMap_filter_eq fun model hmodel m hm => ?_
    rw [h.controller model hmodel, h.modelUuid_eq hmodel hm]
  have htest : (fun m : FleetMachine => decide ((m.modelUuid == controllerModel) = true ∧
      (m.machineId == "0") = true)) = FleetMachine.standsAt (controllerModel, "0") := by
    funext m
    simp [FleetMachine.standsAt, FleetMachine.place]
  unfold serverMachine
  cases hfound : inventory.allMachines.find? (FleetMachine.standsAt (controllerModel, "0")) with
  | none => rw [hmachines, List.find?_filter, htest, hfound]
  | some m => rw [hmachines, List.find?_filter, htest, hfound]

/-- No two machines have a place in common, because their documents would have one id. -/
theorem nodup_places (h : inventory.Lists s controllerModel) (hk : s.Keyed)
    (hnamed : s.MachinesNamed) : (inventory.allMachines.map FleetMachine.place).Nodup := by
  obtain ⟨docs, hperm, hdescribe⟩ := h.allMachines_describe
  have hids : docs.map Document.id = (inventory.allMachines.map FleetMachine.place).map
      fun place => .ok (place.1 ++ ":" ++ place.2) := by
    have hread : List.Forall₂ (fun d m => d ∈ docs ∧ FleetMachine.Describes m d) docs
        inventory.allMachines := (List.forall₂_and_left _ _).2 ⟨fun d hd => hd, hdescribe.flip⟩
    rw [List.map_map, ← List.forall₂_eq_eq_eq, List.forall₂_map_left_iff,
      List.forall₂_map_right_iff]
    refine hread.imp fun d m ⟨hd, hm⟩ => ?_
    obtain ⟨id, hid⟩ := (Table.mem_values_iff _ d).1 (List.mem_of_mem_filter (hperm.mem_iff.1 hd))
    have hkey := hnamed id d hid
    unfold Document.machineKey? at hkey
    rw [hm.model, hm.machine] at hkey
    rw [hk _ id d hid, ← Option.some.inj hkey]
    rfl
  have hnodup : (docs.map Document.id).Nodup := by
    refine ((hperm.map Document.id).nodup_iff).2 ((List.filter_sublist.map Document.id).nodup ?_)
    rw [hk.map_id]
    exact (Table.keys_nodup _).map fun _ _ he => Except.ok.inj he
  rw [hids] at hnodup
  exact hnodup.of_map _

end Lists

def twoFleets : MemoryStore :=
  let entries : List Sample.Entry :=
    [⟨"controllers", "e", [("model-uuid", "m")]⟩, ⟨"models", "m", [("name", "admin")]⟩,
      ⟨"models", "n", [("name", "default")]⟩, Sample.machine "m" "0" "10.0.0.1",
      Sample.machine "m" "0/lxc/0" "10.0.0.2", Sample.machine "n" "0" "10.0.0.3",
      Sample.machine "x" "0" "10.0.0.4"]
  ⟨entries.foldl Sample.Entry.addTo .empty, []⟩

end Inventory
end FleetUpgrade
