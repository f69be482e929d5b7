import FleetUpgrade.Proofs.Keyed
import FleetUpgrade.Proofs.SnapshotStore
import FleetUpgrade.Upgrade.Steps

/-! # What steps read and change

A footprint lists what the plan of a step depends on and what carrying the plan
out may change, facet by facet: which ids of a collection are taken, its
documents with keys of services, and its other documents. Two steps whose
footprints do not meet can be planned without regard to each other.
-/

namespace FleetUpgrade

/-- What can be looked at of a collection. -/
inductive Facet where
  /-- which ids have documents -/
  | ids
  /-- the documents with keys of services -/
  | ofServices
  /-- all other documents -/
  | ofOthers
  deriving DecidableEq

def isServiceKey (id : String) : Bool := ((serviceKeyRule none).rekey? id).isSome

namespace Facet

/-- Two stores show the same facet of a collection. -/
def Agrees (facet : Facet) (name : String) (docs docs' : Documents) : Prop :=
  match facet with
  | .ids => ∀ id, (docs name id).isSome = (docs' name id).isSome
  | .ofServices => ∀ id, isServiceKey id = true → docs name id = docs' name id
  | .ofOthers => ∀ id, isServiceKey id = false → docs name id = docs' name id

def ofId (id : String) : Facet := if isServiceKey id then .ofServices else .ofOthers

def documents (name : String) : List (String × Facet) := [(name, .ofServices), (name, .ofOthers)]

def whole (name : String) : List (String × Facet) := (name, .ids) :: documents name

theorem Agrees.refl (facet : Facet) (name : String) (docs : Documents) :
    facet.Agrees name docs docs := by
  cases facet with
  | ids => exact fun _ => rfl
  | ofServices => exact fun _ _ => rfl
  | ofOthers => exact fun _ _ => rfl

theorem Agrees.trans {facet : Facet} {name : String} {docs₁ docs₂ docs₃ : Documents}
    (h₁ : facet.Agrees name docs₁ docs₂) (h₂ : facet.Agrees name docs₂ docs₃) :
    facet.Agrees name docs₁ docs₃ := by
  cases facet with
  | ids => exact fun id => (h₁ id).trans (h₂ id)
  | ofServices => exact fun id hid => (h₁ id hid).trans (h₂ id hid)
  | ofOthers => exact fun id hid => (h₁ id hid).trans (h₂ id hid)

theorem agrees_of_eq {name : String} {docs docs' : Documents}
    (h : ∀ id, docs name id = docs' name id) (facet : Facet) : facet.Agrees name docs docs' := by
  cases facet with
  | ids => exact fun id => by rw [h]
  | ofServices => exact fun id _ => h id
  | ofOthers => exact fun id _ => h id

theorem eq_of_agrees_documents {name : String} {docs docs' : Documents}
    (h : ∀ r ∈ documents name, r.2.Agrees r.1 docs docs') (id : String) :
    docs name id = docs' name id := by
  cases hid : isServiceKey id with
  | true => exact h (name, .ofServices) (by simp [documents]) id hid
  | false => exact h (name, .ofOthers) (by simp [documents]) id hid

theorem mem_documents_ofId (name id : String) : (name, ofId id) ∈ documents name := by
  unfold ofId documents
  split <;> simp

end Facet

/-! ## What changes -/

namespace Operation

def touches (op : Operation) : List (String × Facet) :=
  if op.kind = .update then [(op.collection, .ofId op.id)]
  else [(op.collection, .ids), (op.collection, .ofId op.id)]

theorem ofId_mem_touches (op : Operation) : (op.collection, Facet.ofId op.id) ∈ op.touches := by
  unfold touches
  split <;> simp

theorem touches_subset_whole (op : Operation) : op.touches ⊆ Facet.whole op.collection := by
  have hmem := Facet.mem_documents_ofId op.collection op.id
  unfold touches Facet.whole
  intro r hr
  split at hr
  · rw [List.mem_singleton.1 hr]
    exact List.mem_cons_of_mem _ hmem
  · rcases List.mem_cons.1 hr with rfl | hlast
    · exact List.mem_cons_self
    · rw [List.mem_singleton.1 hlast]
      exact List.mem_cons_of_mem _ hmem

theorem touches_update (name id : String) (u : Update) :
    (update name id u).touches = [(name, Facet.ofId id)] :=
  if_pos rfl

theorem execute_agrees {op : Operation} {docs docs' : Documents} {name : String} {facet : Facet}
    (h : op.execute docs = .ok docs') (hno : (name, facet) ∉ op.touches) :
    facet.Agrees name docs docs' := by
  have hother : ∀ id, ¬(name = op.collection ∧ id = op.id) → docs name id = docs' name id :=
    fun id hid => (execute_other h hid).symm
  by_cases hname : name = op.collection
  · subst hname
    -- the id of the operation belongs to a facet that is not this one
    have hfacet : facet ≠ Facet.ofId op.id := by
      rintro rfl
      exact hno op.ofId_mem_touches
    cases facet with
    | ids =>
        have hkind : op.kind = .update := by
          by_contra hkind
          exact hno (by simp [touches, hkind])
        intro id
        by_cases hid : id = op.id
        · rw [hid, isSome_execute_update h hkind]
        · rw [hother id fun hh => hid hh.2]
    | ofServices =>
        intro id hkey
        refine hother id fun hh => hfacet ?_
        rw [← hh.2, Facet.ofId, if_pos hkey]
    | ofOthers =>
        intro id hkey
        refine hother id fun hh => hfacet ?_
        rw [← hh.2, Facet.ofId, hkey]
        rfl
  · exact Facet.agrees_of_eq (fun id => hother id fun hh => hname hh.1) facet

end Operation

namespace StepPlan

def touches (plan : StepPlan) : List (String × Facet) :=
  plan.transaction.flatMap Operation.touches ++ plan.droppedCollections.flatMap Facet.whole

def applyTo (plan : StepPlan) (s : Snapshot) : Except StoreError Snapshot :=
  (s.apply plan.transaction).map fun s => plan.droppedCollections.foldl Snapshot.dropCollection s

theorem applyTo_ok_iff {plan : StepPlan} {s s' : Snapshot} :
    plan.applyTo s = .ok s' ↔ ∃ between, s.apply plan.transaction = .ok between ∧
      plan.droppedCollections.foldl Snapshot.dropCollection between = s' :=
  Except.map_eq_ok

theorem foldl_dropCollection_agrees {names : List String} {s : Snapshot} {name : String}
    {facet : Facet} (hno : (name, facet) ∉ names.flatMap Facet.whole) :
    facet.Agrees name s.find? (names.foldl Snapshot.dropCollection s).find? := by
  induction names generalizing s with
  | nil => exact .refl facet name s.find?
  | cons dropped names ih =>
      rw [List.flatMap_cons, List.mem_append, not_or] at hno
      have hne : dropped ≠ name := by
        rintro rfl
        refine hno.1 ?_
        cases facet <;> simp [Facet.whole, Facet.documents]
      have hfirst : facet.Agrees name s.find? (s.dropCollection dropped).find? :=
        Facet.agrees_of_eq (fun id => by rw [Snapshot.find?_dropCollection, if_neg hne]) facet
      exact hfirst.trans (ih hno.2)

/-- Carrying a plan out leaves every facet alone that the plan does not touch. -/
theorem applyTo_agrees {plan : StepPlan} {s s' : Snapshot} {name : String} {facet : Facet}
    (h : plan.applyTo s = .ok s') (hno : (name, facet) ∉ plan.touches) :
    facet.Agrees name s.find? s'.find? := by
  obtain ⟨between, happly, rfl⟩ := applyTo_ok_iff.1 h
  rw [touches, List.mem_append, not_or] at hno
  refine Facet.Agrees.trans ?_ (foldl_dropCollection_agrees hno.2)
  refine Transaction.execute_induction (P := fun now => facet.Agrees name s.find? now)
    (Snapshot.apply_ok happly).1 (.refl facet name s.find?) ?_
  intro op hop before after hbefore hstep
  exact hbefore.trans (Operation.execute_agrees hstep fun hmem =>
    hno.1 (List.mem_flatMap.2 ⟨op, hop, hmem⟩))

theorem applyTo_keyed {plan : StepPlan} {s s' : Snapshot} (hk : s.Keyed)
    (h : plan.applyTo s = .ok s') : s'.Keyed := by
  obtain ⟨between, happly, rfl⟩ := applyTo_ok_iff.1 h
  have hbetween := hk.apply happly
  clear happly h
  induction plan.droppedCollections generalizing between with
  | nil => exact hbetween
  | cons dropped names ih => exact ih _ (hbetween.dropCollection dropped)

end StepPlan

/-! ## What is read -/

namespace StoreView

variable {β : Type} {view : StoreView} {name : String}

/-- A collection that was read was read to its end. -/
theorem readEach_ok {readOne : Document → Except StepError β} {parts : List β}
    (h : view.readEach name readOne = .ok parts) :
    ∃ documents, view.scan name .all = .ok ⟨documents, none⟩ ∧
      documents.mapM readOne = .ok parts := by
  unfold readEach at h
  split at h
  · cases h
  · next cursor hscan =>
      split at h
      · cases h
      · next read hread =>
          split at h
          · cases h
          · next hend =>
              cases h
              refine ⟨cursor.documents, ?_, hread⟩
              rw [hscan, ← hend]

theorem readEach_ok_of_mem {readOne : Document → Except StepError β} {parts : List β}
    (h : view.readEach name readOne = .ok parts) {part : β} (hpart : part ∈ parts) :
    ∃ d, readOne d = .ok part := by
  obtain ⟨documents, -, hread⟩ := readEach_ok h
  obtain ⟨d, -, hd⟩ := List.mapM_ok_of_mem hread hpart
  exact ⟨d, hd⟩

theorem planEach_ok {planOne : Document → Except StepError Transaction} {ops : Transaction}
    (h : view.planEach name planOne = .ok ops) :
    ∃ documents, view.scan name .all = .ok ⟨documents, none⟩ ∧
      (∀ d ∈ documents, ∃ part, planOne d = .ok part) ∧
      ∀ op, op ∈ ops ↔ ∃ d ∈ documents, ∃ part, planOne d = .ok part ∧ op ∈ part := by
  obtain ⟨parts, hplan, rfl⟩ := Except.map_eq_ok.1 h
  obtain ⟨documents, hscan, hread⟩ := readEach_ok hplan
  refine ⟨documents, hscan, fun d hd => List.exists_ok_of_mapM_ok hread hd, fun op => ?_⟩
  rw [List.mem_flatten]
  constructor
  · rintro ⟨part, hpart, hmem⟩
    obtain ⟨d, hd, hone⟩ := List.mapM_ok_of_mem hread hpart
    exact ⟨d, hd, part, hone, hmem⟩
  · rintro ⟨d, hd, part, hone, hmem⟩
    obtain ⟨part', hpart, hone'⟩ := List.exists_of_mem_forall₂ (List.forall₂_of_mapM_ok hread) hd
    rw [hone] at hone'
    cases hone'
    exact ⟨part, hpart, hmem⟩

theorem planEach_ok_of_mem {planOne : Document → Except StepError Transaction} {ops : Transaction}
    (h : view.planEach name planOne = .ok ops) {op : Operation} (hop : op ∈ ops) :
    ∃ d part, planOne d = .ok part ∧ op ∈ part := by
  obtain ⟨_, -, -, hmem⟩ := planEach_ok h
  obtain ⟨d, -, part, hplan, hin⟩ := (hmem op).1 hop
  exact ⟨d, part, hplan, hin⟩

end StoreView

namespace Snapshot

variable {α : Type} {s s' : Snapshot} {name : String}

theorem readEach_eq (s : Snapshot) (name : String) (readOne : Document → Except StepError α) :
    s.view.readEach name readOne = (s.documents name).mapM readOne := by
  have hall : s.select name .all = s.documents name :=
    List.filter_eq_self.2 fun d _ => rfl
  have hscan : s.view.scan name .all = .ok ⟨s.documents name, none⟩ :=
    congrArg (fun documents => Except.ok (Cursor.mk documents none)) hall
  unfold StoreView.readEach
  rw [hscan]
  cases hparts : (s.documents name).mapM readOne with
  | error e => simp only [hparts]
  | ok parts => simp only [hparts]

theorem readEach_ok_of_mem {readOne : Document → Except StepError α} {parts : List α}
    (h : s.view.readEach name readOne = .ok parts) {part : α} (hpart : part ∈ parts) :
    ∃ id d, s.find? name id = some d ∧ readOne d = .ok part := by
  rw [readEach_eq] at h
  obtain ⟨d, hd, hread⟩ := List.mapM_ok_of_mem h hpart
  obtain ⟨id, hid⟩ := (Table.mem_values_iff _ d).1 hd
  exact ⟨id, d, hid, hread⟩

/-- Reading goes the same way in two stores whose documents are read the same way pairwise. -/
theorem readEach_congr {readOne readOne' : Document → Except StepError α}
    (hids : Facet.Agrees .ids name s.find? s'.find?)
    (hone : ∀ id d d', s.find? name id = some d → s'.find? name id = some d' →
      readOne d = readOne' d') :
    s.view.readEach name readOne = s'.view.readEach name readOne' := by
  rw [readEach_eq, readEach_eq]
  apply List.mapM_congr_forall₂
  refine (Table.forall₂_values (Table.keys_eq_of_isSome_eq hids)).imp ?_
  rintro d d' ⟨id, hd, hd'⟩
  exact hone id d d' hd hd'

theorem planEach_ok_of_mem {planOne : Document → Except StepError Transaction} {ops : Transaction}
    (h : s.view.planEach name planOne = .ok ops) {op : Operation} (hop : op ∈ ops) :
    ∃ id d part, s.find? name id = some d ∧ planOne d = .ok part ∧ op ∈ part := by
  unfold StoreView.planEach at h
  obtain ⟨parts, hread, rfl⟩ := Except.map_eq_ok.1 h
  obtain ⟨part, hpart, hmem⟩ := List.mem_flatten.1 hop
  obtain ⟨id, d, hd, hplan⟩ := readEach_ok_of_mem hread hpart
  exact ⟨id, d, part, hd, hplan, hmem⟩

theorem planEach_congr {planOne planOne' : Document → Except StepError Transaction}
    (hids : Facet.Agrees .ids name s.find? s'.find?)
    (hone : ∀ id d d', s.find? name id = some d → s'.find? name id = some d' →
      planOne d = planOne' d') :
    s.view.planEach name planOne = s'.view.planEach name planOne' := by
  unfold StoreView.planEach
  rw [readEach_congr hids hone]

theorem readEach_congr_of_eq {readOne readOne' : Document → Except StepError α}
    (hsame : ∀ id, s.find? name id = s'.find? name id) (hone : ∀ d, readOne d = readOne' d) :
    s.view.readEach name readOne = s'.view.readEach name readOne' := by
  refine readEach_congr (Facet.agrees_of_eq hsame .ids) fun id d d' hd hd' => ?_
  rw [hsame, hd'] at hd
  cases hd
  exact hone d

def ModelIdsPlain (s : Snapshot) : Prop :=
  ∀ id, (s.find? CollectionName.models id).isSome → ':' ∉ id.toList

instance (s : Snapshot) : Decidable s.ModelIdsPlain :=
  decidable_of_iff
    (∀ id ∈ (s.collections.collection CollectionName.models).keys, ':' ∉ id.toList)
    (forall_congr' fun id => by rw [Table.mem_keys_iff]; rfl)

end Snapshot

/-! ## Footprints -/

/-- What the plan of a step depends on and may change. -/
structure Footprint where
  /-- facets that the plan depends on -/
  reads : List (String × Facet)
  /-- facets that the plan may change -/
  changes : List (String × Facet)
  /-- files that must be there to read -/
  files : List String
  /-- whether files may be written -/
  writes : Bool

/-- A step keeps to a footprint. -/
structure Step.Within (step : Step) (fp : Footprint) : Prop where
  reads {s s' : Snapshot} {disk disk' : Disk} (vars : Variables) :
    s.Keyed → s'.Keyed → (∀ r ∈ fp.reads, r.2.Agrees r.1 s.find? s'.find?) →
      (∀ file ∈ fp.files, disk.read? file = disk'.read? file) →
      step.plan s.view disk vars = step.plan s'.view disk' vars
  changes {s : Snapshot} {disk : Disk} {vars vars' : Variables} {plan : StepPlan} :
    s.Keyed → s.ModelIdsPlain → step.plan s.view disk vars = .ok (plan, vars') →
      plan.touches ⊆ fp.changes
  files {view : StoreView} {disk : Disk} {vars : Variables} {result : StepPlan × Variables} :
    step.plan view disk vars = .ok result → ∀ file ∈ fp.files, (disk.read? file).isSome
  writes {view : StoreView} {disk : Disk} {vars vars' : Variables} {plan : StepPlan} :
    fp.writes = false → step.plan view disk vars = .ok (plan, vars') → plan.files = []

/-- A step whose plan is a transaction that depends on the store alone. -/
theorem Step.within_ofTransaction {name description : String}
    {plan : StoreView → Except StepError Transaction} {reads changes : List (String × Facet)}
    (hreads : ∀ s s' : Snapshot, s.Keyed → s'.Keyed →
      (∀ r ∈ reads, r.2.Agrees r.1 s.find? s'.find?) → plan s.view = plan s'.view)
    (hchanges : ∀ (s : Snapshot) ops, s.Keyed → plan s.view = .ok ops →
      ∀ op ∈ ops, op.touches ⊆ changes) :
    (Step.ofTransaction name description plan).Within ⟨reads, changes, [], false⟩ where
  reads {s s' _ _} vars hk hk' hagree _ := by
    change (plan s.view).map _ = (plan s'.view).map _
    rw [hreads s s' hk hk' hagree]
  changes {s _ vars vars' p} hk _ h := by
    obtain ⟨ops, hplan, hp⟩ := Except.map_eq_ok.1 h
    cases hp
    intro r hr
    simp only [StepPlan.touches, StepPlan.ofTransaction, List.flatMap_nil,
      List.append_nil] at hr
    obtain ⟨op, hop, hmem⟩ := List.mem_flatMap.1 hr
    exact hchanges s ops hk hplan op hop hmem
  files _ _ hfile := absurd hfile List.not_mem_nil
  writes {view _ vars vars' p} _ h := by
    obtain ⟨ops, -, hp⟩ := Except.map_eq_ok.1 h
    cases hp
    rfl

end FleetUpgrade
