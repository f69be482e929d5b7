import FleetUpgrade.Proofs.Footprint
import FleetUpgrade.Proofs.StepDocuments

/-! # The footprints of the upgrade

Each step of the upgrade keeps to a footprint that does not depend on the store.
No step reads a facet that a step before it changes: the settings of models are
read by their service keys only, and machines and units, which are rewritten
before their tools are set, are then read by their ids only.
-/

namespace FleetUpgrade

open CollectionName

/-! ## Plans that visit one document after another -/

theorem touches_relocate {source oldId target newId : String} {body : Document} {op : Operation}
    (h : op ∈ relocate source oldId target newId body) :
    op.touches ⊆ Facet.whole source ++ Facet.whole target := by
  unfold relocate at h
  rcases List.mem_cons.1 h with rfl | hlast
  · exact List.Subset.trans (Operation.touches_subset_whole _) (List.subset_append_left _ _)
  · rw [List.mem_singleton.1 hlast]
    exact List.Subset.trans (Operation.touches_subset_whole _) (List.subset_append_right _ _)

theorem touches_relocate_within {collection oldId newId : String} {body : Document}
    {op : Operation} (h : op ∈ relocate collection oldId collection newId body) :
    op.touches ⊆ Facet.whole collection :=
  List.Subset.trans (touches_relocate h)
    (List.append_subset.2 ⟨List.Subset.refl _, List.Subset.refl _⟩)

theorem touches_update_subset (name id : String) (u : Update) :
    (Operation.update name id u).touches ⊆ Facet.documents name := by
  rw [Operation.touches_update]
  intro r hr
  rw [List.mem_singleton.1 hr]
  exact Facet.mem_documents_ofId name id

namespace Footprint

def edits (collection : String) : Footprint :=
  ⟨Facet.documents collection, Facet.documents collection, [], false⟩

def moves (collection : String) : Footprint :=
  ⟨Facet.documents collection, Facet.whole collection, [], false⟩

/-- Documents of services are moved within a collection. -/
def rekeys (collection : String) : Footprint :=
  ⟨[(collection, .ids), (collection, .ofServices)], Facet.whole collection, [], false⟩

/-- Documents of one collection are updated in place and their provider ids registered. -/
def registers (collection : String) : Footprint :=
  ⟨Facet.documents collection, Facet.documents collection ++ Facet.whole providerIds, [], false⟩

/-- Documents of collections are updated in place without being looked at. -/
def overwrites (collections : List String) : Footprint :=
  ⟨collections.map fun name => (name, .ids), collections.flatMap Facet.documents, [], false⟩

/-- Whatever the first may change, the second does not read. -/
def Before (first second : Footprint) : Prop := ∀ r ∈ second.reads, r ∉ first.changes

instance (first second : Footprint) : Decidable (Before first second) :=
  inferInstanceAs (Decidable (∀ r ∈ second.reads, r ∉ first.changes))

end Footprint

theorem within_planEach {name description collection : String}
    {planOne : Document → Except StepError Transaction} {changes : List (String × Facet)}
    (h : ∀ d part, planOne d = .ok part → ∀ op ∈ part, op.touches ⊆ changes) :
    (Step.ofTransaction name description fun view => view.planEach collection planOne).Within
      ⟨Facet.documents collection, changes, [], false⟩ := by
  refine Step.within_ofTransaction ?_ ?_
  · intro s s' _ _ hagree
    unfold StoreView.planEach
    rw [Snapshot.readEach_congr_of_eq (Facet.eq_of_agrees_documents hagree) fun _ => rfl]
  · intro s ops _ hplan op hop
    obtain ⟨id, d, part, -, hone, hmem⟩ := Snapshot.planEach_ok_of_mem hplan hop
    exact h d part hone op hmem

/-! ## Field edits -/

namespace FieldEdit

theorem plan_ofCollection (name collection : String) (actions : List FieldAction)
    (view : StoreView) :
    (ofCollection name collection actions).plan view =
      view.planEach collection fun d =>
        ((ofCollection name collection actions).updateFor collection d).map fun op => [op] := by
  unfold plan ofCollection
  dsimp only
  rw [List.mapM_cons, List.mapM_nil]
  cases view.planEach collection _ with
  | error e => rfl
  | ok ops => simp [bind, Except.bind, pure, Except.pure, Except.map]

theorem touches_updateFor {r : FieldEdit} {collection : String} {d : Document} {part : Transaction}
    (h : ((r.updateFor collection d).map fun op => [op]) = .ok part) :
    ∀ op ∈ part, op.touches ⊆ Facet.documents collection := by
  obtain ⟨op, hone, rfl⟩ := Except.map_eq_ok.1 h
  obtain ⟨id, u, -, -, rfl⟩ := updateFor_spec hone
  intro other hother
  rw [List.mem_singleton.1 hother]
  exact touches_update_subset collection id u

theorem within_ofCollection (name collection : String) (actions : List FieldAction) :
    (ofCollection name collection actions).step.Within (.edits collection) := by
  have hplan : (ofCollection name collection actions).plan = fun view =>
      view.planEach collection fun d =>
        ((ofCollection name collection actions).updateFor collection d).map fun op => [op] :=
    funext fun view => plan_ofCollection name collection actions view
  unfold step
  rw [hplan]
  exact within_planEach fun d part h => touches_updateFor h

/-- An edit whose actions look at no document reads ids only. -/
theorem within_of_blind {r : FieldEdit}
    (hblind : ∀ d d' : Document, extendAll d r.actions .empty = extendAll d' r.actions .empty) :
    r.step.Within (.overwrites r.collections) := by
  refine Step.within_ofTransaction ?_ ?_
  · intro s s' hk hk' hagree
    have hone : ∀ name ∈ r.collections,
        (s.view.planEach name fun d => (r.updateFor name d).map fun op => [op]) =
          s'.view.planEach name fun d => (r.updateFor name d).map fun op => [op] := by
      intro name hname
      refine Snapshot.planEach_congr (hagree _ (List.mem_map_of_mem hname)) fun id d d' hd hd' => ?_
      unfold updateFor
      rw [scannedId_eq_ok.2 (hk name id d hd), scannedId_eq_ok.2 (hk' name id d' hd')]
      simp only [hblind d d']
    unfold plan
    rw [List.mapM_congr_forall₂ (List.forall₂_same.2 hone)]
  · intro s ops _ hplan op hop
    obtain ⟨parts, hparts, rfl⟩ := Except.map_eq_ok.1 hplan
    obtain ⟨part, hpart, hmem⟩ := List.mem_flatten.1 hop
    obtain ⟨name, hname, hplan⟩ := List.mapM_ok_of_mem hparts hpart
    obtain ⟨id, d, piece, -, hpiece, hmem⟩ := Snapshot.planEach_ok_of_mem hplan hmem
    intro facet hfacet
    exact List.mem_flatMap.2 ⟨name, hname, touches_updateFor hpiece op hmem hfacet⟩

end FieldEdit

/-! ## Rekeying -/

namespace RekeyRule

theorem move?_spec {rule : RekeyRule} {collection : String} {d : Document} {part : Transaction}
    (h : (rule.move? collection d).map (fun move => move.getD []) = .ok part) :
    ∃ id, d.id = .ok id ∧ ((rule.rekey? id = none ∧ part = []) ∨
      ∃ newId, rule.rekey? id = some newId ∧ (DocId.split? newId).isSome ∧
        part = relocate collection id collection newId (rule.body newId d)) := by
  obtain ⟨move, hmove, rfl⟩ := Except.map_eq_ok.1 h
  unfold move? at hmove
  split at hmove
  · cases hmove
  · next id hid =>
      refine ⟨id, scannedId_eq_ok.1 hid, ?_⟩
      split at hmove
      · next hkey =>
          cases hmove
          exact Or.inl ⟨hkey, rfl⟩
      · next newId hkey =>
          split at hmove
          · cases hmove
          · next hsplit =>
              cases hmove
              refine Or.inr ⟨newId, hkey, ?_, rfl⟩
              simpa [Option.isSome_iff_ne_none] using hsplit

/-- A rule looks at the documents that it selects, and at the ids of all others. -/
theorem move?_of_not_selected {rule : RekeyRule} {collection id : String} {d : Document}
    (hid : d.id = .ok id) (h : rule.rekey? id = none) : rule.move? collection d = .ok none := by
  unfold move?
  rw [scannedId_eq_ok.2 hid]
  simp only [h]

theorem within_serviceKeyRule (keyField : Option String) (collection : String) :
    ((serviceKeyRule keyField).step collection).Within (.rekeys collection) := by
  refine Step.within_ofTransaction ?_ ?_
  · intro s s' hk hk' hagree
    unfold plan
    refine Snapshot.planEach_congr (hagree (collection, .ids) (by simp)) fun id d d' hd hd' => ?_
    cases hkey : isServiceKey id with
    | true =>
        rw [hagree (collection, .ofServices) (by simp) id hkey, hd'] at hd
        cases hd
        rfl
    | false =>
        have hnone : (serviceKeyRule keyField).rekey? id = none :=
          Option.not_isSome_iff_eq_none.1 (Bool.not_eq_true _ ▸ hkey)
        rw [move?_of_not_selected (hk _ id d hd) hnone, move?_of_not_selected (hk' _ id d' hd') hnone]
  · intro s ops _ hplan op hop
    obtain ⟨id, d, part, -, hone, hmem⟩ := Snapshot.planEach_ok_of_mem hplan hop
    obtain ⟨id, -, ⟨-, rfl⟩ | ⟨newId, -, -, rfl⟩⟩ := move?_spec hone
    · exact absurd hmem List.not_mem_nil
    · exact touches_relocate_within hmem

end RekeyRule

/-! ## Moves and updates of single documents -/

theorem ProviderIds.editFor_spec {collection kind : String} {d : Document} {part : Transaction}
    (h : ProviderIds.editFor collection kind d = .ok part) :
    ∃ id, d.id = .ok id ∧ (part = [] ∨ ∃ u newId body,
      part = [.update collection id u, .insert providerIds newId body]) := by
  unfold ProviderIds.editFor at h
  obtain ⟨id, hid, h⟩ := Except.bind_eq_ok.1 h
  obtain ⟨modelUuid, -, h⟩ := Except.bind_eq_ok.1 h
  obtain ⟨providerId, -, h⟩ := Except.bind_eq_ok.1 h
  refine ⟨id, scannedId_eq_ok.1 hid, ?_⟩
  split at h
  · cases h
    exact Or.inl rfl
  · cases h
    exact Or.inr ⟨_, _, _, rfl⟩

theorem within_moveEach {name description collection : String}
    {move : Document → Except StepError Transaction}
    (hmove : MovesWithin collection move) :
    (Step.ofTransaction name description fun view => view.planEach collection move).Within
      (.moves collection) := by
  refine within_planEach fun d part hpart op hop => ?_
  obtain ⟨id, -, rfl | ⟨newId, body, rfl⟩⟩ := hmove hpart
  · exact absurd hop List.not_mem_nil
  · exact touches_relocate_within hop

theorem within_editEach {name description collection : String}
    {editFor : Document → Except StepError Transaction}
    (hedit : EditsWithin collection editFor) :
    (Step.ofTransaction name description fun view => view.planEach collection editFor).Within
      (.edits collection) := by
  refine within_planEach fun d part hpart op hop => ?_
  obtain ⟨id, -, rfl | ⟨u, rfl⟩⟩ := hedit hpart
  · exact absurd hop List.not_mem_nil
  · rw [List.mem_singleton.1 hop]
    exact touches_update_subset collection id u

theorem ProviderIds.within (collection kind : String) :
    (ProviderIds.step collection kind).Within (.registers collection) := by
  refine within_planEach fun d part hpart op hop => ?_
  obtain ⟨id, -, rfl | ⟨u, newId, body, rfl⟩⟩ := ProviderIds.editFor_spec hpart
  · exact absurd hop List.not_mem_nil
  · rcases List.mem_cons.1 hop with rfl | hlast
    · exact List.Subset.trans (touches_update_subset collection id u) (List.subset_append_left _ _)
    · rw [List.mem_singleton.1 hlast]
      exact List.Subset.trans (Operation.touches_subset_whole _) (List.subset_append_right _ _)

/-! ## The steps of a kind of their own -/

theorem fetch_eq_ok_iff {s : Snapshot} {name id : String} {d : Document} :
    s.view.fetch name id = .ok d ↔ s.find? name id = some d := by
  have hfind : s.view.find name id = s.find name id := rfl
  unfold StoreView.fetch
  rw [hfind]
  unfold Snapshot.find
  cases s.find? name id <;> simp

theorem fetch_congr {s s' : Snapshot} {name : String}
    (h : ∀ id, s.find? name id = s'.find? name id) (id : String) :
    s.view.fetch name id = s'.view.fetch name id := by
  have hfind : s.find name id = s'.find name id := by
    unfold Snapshot.find
    rw [h]
  have hview : s.view.find name id = s'.view.find name id := hfind
  unfold StoreView.fetch
  rw [hview]

theorem touches_of_collections {ops : Transaction} {names : List String}
    (h : ∀ op ∈ ops, op.collection ∈ names) :
    ops.flatMap Operation.touches ⊆ names.flatMap Facet.whole := by
  intro r hr
  obtain ⟨op, hop, hmem⟩ := List.mem_flatMap.1 hr
  exact List.mem_flatMap.2 ⟨op.collection, h op hop, op.touches_subset_whole hmem⟩

namespace ServiceMove

theorem ofDocument_spec {view : StoreView} {d : Document} {move : ServiceMove}
    (h : ofDocument view d = .ok move) :
    ∃ id constraints, d.id = .ok id ∧
      DocId.split? id = some (move.modelUuid, move.application) ∧
      d.getString "charmurl" = .ok move.charmUrl ∧ d.getInt "unitcount" = .ok move.unitCount ∧
      view.fetch storageConstraints (move.modelUuid ++ ":s#" ++ move.application) =
        .ok constraints ∧
      move.transaction =
        relocate services id applications id (d.withoutBookkeeping.remove "ownertag") ++
          relocate storageConstraints (move.modelUuid ++ ":s#" ++ move.application)
            storageConstraints (constraintsId move.modelUuid move.application move.charmUrl)
            constraints.withoutBookkeeping := by
  unfold ofDocument at h
  obtain ⟨id, hid, h⟩ := Except.bind_eq_ok.1 h
  split at h
  · cases h
  · next hsplit =>
      obtain ⟨charmUrl, hcharm, h⟩ := Except.bind_eq_ok.1 h
      obtain ⟨unitCount, hunits, h⟩ := Except.bind_eq_ok.1 h
      obtain ⟨constraints, hfetch, h⟩ := Except.bind_eq_ok.1 h
      cases h
      exact ⟨id, constraints, scannedId_eq_ok.1 hid, hsplit, inDocument_eq_ok.1 hcharm,
        inDocument_eq_ok.1 hunits, hfetch, rfl⟩

theorem collection_of_mem_plan {view : StoreView} {moves : List ServiceMove}
    (h : ∀ move ∈ moves, ∃ d, ofDocument view d = .ok move) {op : Operation}
    (hop : op ∈ plan moves) :
    op.collection ∈ [services, applications, storageConstraints, refcounts] := by
  unfold plan at hop
  rcases List.mem_append.1 hop with hmove | hcount
  · obtain ⟨part, hpart, hmem⟩ := List.mem_flatten.1 hmove
    obtain ⟨move, hin, rfl⟩ := List.mem_map.1 hpart
    obtain ⟨d, hd⟩ := h move hin
    obtain ⟨id, constraints, -, -, -, -, -, htransaction⟩ := ofDocument_spec hd
    rw [htransaction] at hmem
    simp only [relocate, List.cons_append, List.nil_append, List.mem_cons, List.not_mem_nil,
      or_false] at hmem
    rcases hmem with rfl | rfl | rfl | rfl
    · exact List.mem_cons_self
    · exact List.mem_cons_of_mem _ List.mem_cons_self
    · exact List.mem_cons_of_mem _ (List.mem_cons_of_mem _ List.mem_cons_self)
    · exact List.mem_cons_of_mem _ (List.mem_cons_of_mem _ List.mem_cons_self)
  · obtain ⟨entry, -, rfl⟩ := List.mem_map.1 hcount
    simp [countOperation, Operation.insert]

end ServiceMove

theorem within_servicesToApplications : servicesToApplications.Within
    ⟨Facet.documents services ++ Facet.documents storageConstraints,
      [services, applications, storageConstraints, refcounts].flatMap Facet.whole, [], false⟩ := by
  refine Step.within_ofTransaction ?_ ?_
  · intro s s' _ _ hagree
    have hservices := Facet.eq_of_agrees_documents fun r hr =>
      hagree r (List.mem_append_left _ hr)
    have hconstraints := Facet.eq_of_agrees_documents fun r hr =>
      hagree r (List.mem_append_right _ hr)
    have hone : ∀ d, ServiceMove.ofDocument s.view d = ServiceMove.ofDocument s'.view d := by
      intro d
      unfold ServiceMove.ofDocument
      simp only [fetch_congr hconstraints]
    congr 1
    exact Snapshot.readEach_congr_of_eq hservices hone
  · intro s ops _ hplan op hop
    obtain ⟨moves, hread, rfl⟩ := Except.map_eq_ok.1 hplan
    have hmoves : ∀ move ∈ moves, ∃ d, ServiceMove.ofDocument s.view d = .ok move := by
      intro move hmove
      obtain ⟨id, d, -, hd⟩ := Snapshot.readEach_ok_of_mem hread hmove
      exact ⟨d, hd⟩
    intro r hr
    exact List.mem_flatMap.2 ⟨op.collection, ServiceMove.collection_of_mem_plan hmoves hop,
      op.touches_subset_whole hr⟩

theorem within_updateController (directory : String) : (updateController directory).Within
    ⟨Facet.documents controllers ++ Facet.documents models ++ Facet.documents settings,
      [controllers, clouds, cloudCredentials, permissions, controllerUsers].flatMap Facet.whole,
      [], true⟩ where
  reads {s s' _ _} vars _ _ hagree _ := by
    have hcontrollers := Facet.eq_of_agrees_documents fun r hr =>
      hagree r (List.mem_append_left _ (List.mem_append_left _ hr))
    have hmodels := Facet.eq_of_agrees_documents fun r hr =>
      hagree r (List.mem_append_left _ (List.mem_append_right _ hr))
    have hsettings := Facet.eq_of_agrees_documents fun r hr =>
      hagree r (List.mem_append_right _ hr)
    have hread : ControllerFacts.read s.view directory = ControllerFacts.read s'.view directory := by
      unfold ControllerFacts.read
      simp only [fetch_congr hcontrollers, fetch_congr hmodels, fetch_congr hsettings]
    unfold updateController
    dsimp only
    rw [hread]
  changes _ _ h := by
    obtain ⟨facts, -, hplan⟩ := Except.map_eq_ok.1 h
    cases hplan
    simp only [StepPlan.touches, List.flatMap_nil, List.append_nil]
    refine touches_of_collections fun op hop => ?_
    simp only [ControllerFacts.transaction, List.mem_cons, List.not_mem_nil, or_false] at hop
    rcases hop with rfl | rfl | rfl | rfl | rfl | rfl
    all_goals simp [Operation.update, Operation.insert, grantAdmin]
  files _ _ hfile := absurd hfile List.not_mem_nil
  writes h := by cases h

theorem within_dropLegacyCollections : dropLegacyCollections.Within
    ⟨[], [services, settingsRefs, legacyIpAddresses].flatMap Facet.whole, [], false⟩ where
  reads _ _ _ _ _ := rfl
  changes _ _ h := by
    cases h
    exact List.Subset.refl _
  files _ _ hfile := absurd hfile List.not_mem_nil
  writes _ h := by
    cases h
    rfl

theorem within_registerTools (path version : String) : (registerTools path version).Within
    ⟨[], Facet.whole CollectionName.toolsMetadata, [path], false⟩ where
  reads {s s' disk disk'} vars _ _ _ hfiles := by
    unfold registerTools
    dsimp only
    rw [hfiles path List.mem_cons_self]
  changes _ _ h := by
    simp only [registerTools] at h
    split at h
    · cases h
    · cases h
      simp only [StepPlan.touches, StepPlan.ofTransaction, List.flatMap_cons, List.flatMap_nil,
        List.append_nil]
      exact Operation.touches_subset_whole _
  files {view disk vars result} h file hfile := by
    rw [List.mem_singleton.1 hfile]
    simp only [registerTools] at h
    split at h
    · cases h
    · next archive hread => rw [hread, Option.isSome_some]
  writes _ h := by
    simp only [registerTools] at h
    split at h
    · cases h
    · cases h
      rfl

/-! ## Models and their settings -/

/-- The settings of a model are not under a key of services. -/
theorem ofId_modelSettings {uuid : String} (h : ':' ∉ uuid.toList) :
    Facet.ofId (uuid ++ ":e") = .ofOthers := by
  have hchars : (uuid ++ ":e").toList = uuid.toList ++ ':' :: ['e'] := String.toList_append
  have hcut : Text.cutFirst ':' (uuid ++ ":e") = some (uuid, "e") := by
    unfold Text.cutFirst
    rw [hchars, Text.splitFirst_append _ h, Option.map_some, String.ofList_toList]
  have hnone : (serviceKeyRule none).rekey? (uuid ++ ":e") = none := by
    unfold RekeyRule.rekey? DocId.split?
    rw [hcut]
    by_cases hempty : uuid = ""
    · simp [hempty]
    · simp only [hempty, false_or]
      rfl
  unfold Facet.ofId isServiceKey
  rw [hnone]
  rfl

namespace ModelUpdate

theorem ofDocument_spec {agentVersion cloud credential controllerUuid : String}
    {removed : List String} {d : Document} {part : Transaction × Bool}
    (h : ofDocument agentVersion cloud credential controllerUuid removed d = .ok part) :
    ∃ uuid name, d.id = .ok uuid ∧ d.getString "name" = .ok name ∧
      part = ([.update models uuid (changes cloud credential controllerUuid name),
        grantAdmin "admin" ("e#" ++ uuid),
        .update settings (uuid ++ ":e") (settingsChanges agentVersion removed)],
        name == "admin") := by
  unfold ofDocument at h
  obtain ⟨uuid, huuid, h⟩ := Except.bind_eq_ok.1 h
  obtain ⟨name, hname, h⟩ := Except.bind_eq_ok.1 h
  cases h
  exact ⟨uuid, name, scannedId_eq_ok.1 huuid, inDocument_eq_ok.1 hname, rfl⟩

def touched : List (String × Facet) :=
  Facet.documents models ++ Facet.whole permissions ++ [(settings, .ofOthers)] ++
    Facet.whole userModelName

theorem touches_subset_touched {agentVersion cloud credential controllerUuid uuid : String}
    {removed : List String} {d : Document} {part : Transaction × Bool} (hid : d.id = .ok uuid)
    (hplain : ':' ∉ uuid.toList)
    (h : ofDocument agentVersion cloud credential controllerUuid removed d = .ok part) :
    ∀ op ∈ part.1, op.touches ⊆ touched := by
  obtain ⟨other, name, hother, -, rfl⟩ := ofDocument_spec h
  rw [hid] at hother
  cases hother
  intro op hop r hr
  simp only [List.mem_cons, List.not_mem_nil, or_false] at hop
  unfold touched
  rcases hop with rfl | rfl | rfl
  · have hmem := touches_update_subset _ _ _ hr
    simp [hmem]
  · have hmem : r ∈ Facet.whole permissions := Operation.touches_subset_whole _ hr
    simp [hmem]
  · rw [Operation.touches_update, List.mem_singleton, ofId_modelSettings hplain] at hr
    simp [hr]

theorem mem_adminRenamed {admin : Bool} {op : Operation}
    (h : op ∈ if admin then adminRenamed else []) : op ∈ adminRenamed := by
  split at h
  · exact h
  · exact absurd h List.not_mem_nil

theorem collection_of_mem_adminRenamed {op : Operation} (h : op ∈ adminRenamed) :
    op.collection = userModelName := by
  simp only [adminRenamed, List.mem_cons, List.not_mem_nil, or_false] at h
  rcases h with rfl | rfl
  · rfl
  · rfl

theorem touches_adminRenamed {op : Operation} (h : op ∈ adminRenamed) : op.touches ⊆ touched := by
  intro r hr
  have hmem := op.touches_subset_whole hr
  rw [collection_of_mem_adminRenamed h] at hmem
  exact List.mem_append_right _ hmem

end ModelUpdate

theorem Cloud.ofTag_eq_ok {tag : String} {cloud : Cloud} (h : ofTag tag = .ok cloud) :
    tag = cloud.tag := by
  unfold ofTag at h
  split at h
  · cases h
    rfl
  · cases h
    rfl
  · cases h

/-- All models are updated, and the users' models are renamed if one was the administrator's. -/
theorem updateModels_spec {agentVersion : String} {view : StoreView} {disk : Disk}
    {vars vars' : Variables} {plan : StepPlan}
    (h : (updateModels agentVersion).plan view disk vars = .ok (plan, vars')) :
    ∃ cloud credential parts, vars.cloud = some (Cloud.tag cloud) ∧
      vars.credential = some credential ∧
      view.readEach models (ModelUpdate.ofDocument agentVersion cloud.tag credential
        vars.controllerUuid cloud.allRemovedSettings) = .ok parts ∧
      plan = .ofTransaction ((parts.map Prod.fst).flatten ++
        if parts.any Prod.snd then ModelUpdate.adminRenamed else []) ∧ vars' = vars := by
  unfold updateModels at h
  obtain ⟨tag, htag, h⟩ := Except.bind_eq_ok.1 h
  obtain ⟨credential, hcredential, h⟩ := Except.bind_eq_ok.1 h
  obtain ⟨cloud, hcloud, h⟩ := Except.bind_eq_ok.1 h
  obtain ⟨parts, hread, h⟩ := Except.bind_eq_ok.1 h
  cases h
  obtain rfl := Cloud.ofTag_eq_ok hcloud
  refine ⟨cloud, credential, parts, ?_, ?_, hread, rfl, rfl⟩
  · unfold Variables.theCloud at htag
    split at htag
    · next hsome => exact hsome.trans (congrArg some (Except.ok.inj htag))
    · cases htag
  · unfold Variables.theCredential at hcredential
    split at hcredential
    · next hsome => exact hsome.trans (congrArg some (Except.ok.inj hcredential))
    · cases hcredential

theorem within_updateModels (agentVersion : String) : (updateModels agentVersion).Within
    ⟨Facet.documents models, ModelUpdate.touched, [], false⟩ where
  reads {s s' _ _} vars _ _ hagree _ := by
    have hmodels := Facet.eq_of_agrees_documents hagree
    have hread : ∀ readOne : Document → Except StepError (Transaction × Bool),
        s.view.readEach models readOne = s'.view.readEach models readOne :=
      fun _ => Snapshot.readEach_congr_of_eq hmodels fun _ => rfl
    unfold updateModels
    simp only [hread]
  changes {s _ vars vars' plan} hk hplain h := by
    obtain ⟨_, _, parts, -, -, hread, rfl, -⟩ := updateModels_spec h
    simp only [StepPlan.touches, StepPlan.ofTransaction, List.flatMap_nil, List.append_nil]
    intro r hr
    obtain ⟨op, hop, hmem⟩ := List.mem_flatMap.1 hr
    rcases List.mem_append.1 hop with hmodel | hrename
    · obtain ⟨ops, hops, hin⟩ := List.mem_flatten.1 hmodel
      obtain ⟨part, hpart, rfl⟩ := List.mem_map.1 hops
      obtain ⟨id, d, hd, hone⟩ := Snapshot.readEach_ok_of_mem hread hpart
      have hid : ':' ∉ id.toList := hplain id (by rw [hd]; rfl)
      exact ModelUpdate.touches_subset_touched (hk _ id d hd) hid hone op hin hmem
    · exact ModelUpdate.touches_adminRenamed (ModelUpdate.mem_adminRenamed hrename) hmem
  files _ _ hfile := absurd hfile List.not_mem_nil
  writes {view disk vars vars' plan} _ h := by
    obtain ⟨_, _, _, -, -, -, rfl, -⟩ := updateModels_spec h
    rfl

/-! ## All steps -/

def storeFootprints : List Footprint :=
  [⟨Facet.documents controllers ++ Facet.documents models ++ Facet.documents settings,
      [controllers, clouds, cloudCredentials, permissions, controllerUsers].flatMap Facet.whole,
      [], true⟩,
    ⟨Facet.documents models, ModelUpdate.touched, [], false⟩,
    ⟨Facet.documents services ++ Facet.documents storageConstraints,
      [services, applications, storageConstraints, refcounts].flatMap Facet.whole, [], false⟩,
    .edits units, .moves leases, .edits modelEntityRefs, .edits relations, .edits resources,
    .rekeys annotations, .rekeys constraints, .rekeys endpointBindings, .rekeys settings,
    .rekeys statuses, .edits statusesHistory, .moves sequence,
    ⟨[], [services, settingsRefs, legacyIpAddresses].flatMap Facet.whole, [], false⟩,
    .edits users, .edits modelUsers, .edits machines, .moves cloudImageMetadata,
    .registers spaces, .registers subnets, .registers linkLayerDevices, .registers ipAddresses,
    .overwrites [machines, units]]

def upgradeFootprints (options : UpgradeOptions) : List Footprint :=
  storeFootprints ++
    match options.toolsFile with
    | some path => [⟨[], Facet.whole CollectionName.toolsMetadata, [path], false⟩]
    | none => []

theorem storeSteps_within (options : UpgradeOptions) :
    List.Forall₂ Step.Within (storeSteps options) storeFootprints :=
  .cons (within_updateController options.certDirectory) <|
  .cons (within_updateModels options.agentVersion) <|
  .cons within_servicesToApplications <|
  .cons (FieldEdit.within_ofCollection _ _ _) <|
  .cons (within_moveEach Lease.movesWithin) <|
  .cons (FieldEdit.within_ofCollection _ _ _) <|
  .cons (FieldEdit.within_ofCollection _ _ _) <|
  .cons (FieldEdit.within_ofCollection _ _ _) <|
  .cons (RekeyRule.within_serviceKeyRule _ _) <|
  .cons (RekeyRule.within_serviceKeyRule _ _) <|
  .cons (RekeyRule.within_serviceKeyRule _ _) <|
  .cons (RekeyRule.within_serviceKeyRule _ _) <|
  .cons (RekeyRule.within_serviceKeyRule _ _) <|
  .cons (within_editEach StatusHistory.editsWithin) <|
  .cons (within_moveEach Sequence.movesWithin) <|
  .cons within_dropLegacyCollections <|
  .cons (FieldEdit.within_ofCollection _ _ _) <|
  .cons (FieldEdit.within_ofCollection _ _ _) <|
  .cons (within_editEach MachineContainers.editsWithin) <|
  .cons (within_moveEach ImageMetadata.movesWithin) <|
  .cons (ProviderIds.within _ _) <|
  .cons (ProviderIds.within _ _) <|
  .cons (ProviderIds.within _ _) <|
  .cons (ProviderIds.within _ _) <|
  .cons (FieldEdit.within_of_blind fun _ _ => rfl) .nil

theorem upgradeSteps_within (options : UpgradeOptions) :
    List.Forall₂ Step.Within (upgradeSteps options) (upgradeFootprints options) := by
  unfold upgradeSteps upgradeFootprints
  refine List.rel_append (storeSteps_within options) ?_
  cases options.toolsFile with
  | none => exact .nil
  | some path => exact .cons (within_registerTools path options.toolsVersion) .nil

theorem storeFootprints_pairwise : storeFootprints.Pairwise Footprint.Before := by
  decide +kernel

theorem mem_upgradeFootprints {options : UpgradeOptions} {fp : Footprint}
    (h : fp ∈ upgradeFootprints options) : fp ∈ storeFootprints ∨
      ∃ path, options.toolsFile = some path ∧
        fp = ⟨[], Facet.whole CollectionName.toolsMetadata, [path], false⟩ := by
  rcases List.mem_append.1 h with hstore | htools
  · exact Or.inl hstore
  · split at htools
    · next path hpath => exact Or.inr ⟨path, hpath, List.mem_singleton.1 htools⟩
    · exact absurd htools List.not_mem_nil

/-- No step of the upgrade reads what a step before it may change. -/
theorem upgradeFootprints_pairwise (options : UpgradeOptions) :
    (upgradeFootprints options).Pairwise Footprint.Before := by
  unfold upgradeFootprints
  split
  · refine List.pairwise_append.2 ⟨storeFootprints_pairwise, List.pairwise_singleton _ _, ?_⟩
    intro first _ second hsecond r hr
    rw [List.mem_singleton.1 hsecond] at hr
    exact absurd hr List.not_mem_nil
  · rw [List.append_nil]
    exact storeFootprints_pairwise

/-- No step of the upgrade makes or removes a model. -/
theorem modelIds_not_changed {options : UpgradeOptions} {fp : Footprint}
    (h : fp ∈ upgradeFootprints options) : (models, Facet.ids) ∉ fp.changes := by
  have hstore : ∀ fp ∈ storeFootprints, (models, Facet.ids) ∉ fp.changes := by decide +kernel
  rcases mem_upgradeFootprints h with hmem | ⟨path, -, rfl⟩
  · exact hstore fp hmem
  · change (models, Facet.ids) ∉ Facet.whole CollectionName.toolsMetadata
    decide

/-- No step of the upgrade reads a file other than the archive. -/
theorem files_of_upgradeFootprints {options : UpgradeOptions} {fp : Footprint}
    (h : fp ∈ upgradeFootprints options) : ∀ file ∈ fp.files, file ∈ options.toolsFile.toList := by
  have hstore : ∀ fp ∈ storeFootprints, fp.files = [] := by decide +kernel
  intro file hfile
  rcases mem_upgradeFootprints h with hmem | ⟨path, hpath, rfl⟩
  · rw [hstore fp hmem] at hfile
    exact absurd hfile List.not_mem_nil
  · rwa [hpath]

/-- Only the controller step writes files. -/
theorem files_of_upgradeSteps {options : UpgradeOptions} {step : Step}
    (hstep : step ∈ upgradeSteps options) {view : StoreView} {disk : Disk}
    {vars vars' : Variables} {plan : StepPlan} (h : step.plan view disk vars = .ok (plan, vars')) :
    plan.files = [] ∨ ∃ facts, ControllerFacts.read view options.certDirectory = .ok facts ∧
      plan.files = facts.files := by
  have hquiet : ∀ fp ∈ storeFootprints.tail, fp.writes = false := by decide +kernel
  rcases List.mem_append.1 hstep with hstore | htools
  · rcases List.mem_cons.1 hstore with rfl | hlater
    · obtain ⟨facts, hfacts, hplan⟩ := Except.map_eq_ok.1 h
      cases hplan
      exact Or.inr ⟨facts, hfacts, rfl⟩
    · have hwithin := (List.forall₂_cons.1 (storeSteps_within options)).2
      obtain ⟨fp, hfp, hstep⟩ := List.exists_of_mem_forall₂ hwithin hlater
      exact Or.inl (hstep.writes (hquiet fp hfp) h)
  · split at htools
    · next path hpath =>
        rw [List.mem_singleton.1 htools] at h
        exact Or.inl ((within_registerTools path options.toolsVersion).writes rfl h)
    · exact absurd htools List.not_mem_nil

end FleetUpgrade
