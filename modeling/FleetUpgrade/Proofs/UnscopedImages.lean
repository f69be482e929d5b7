import FleetUpgrade.Proofs.Relocations

/-! # Image metadata without scopes

The ids of image metadata lose the scopes that told documents of different models
apart, and a store takes only one document under a local part. What follows the
first colon of an id may hold more colons: such a local part has a scope again.
-/

namespace FleetUpgrade.ImageMetadata

open CollectionName (cloudImageMetadata)
open Document (StoredAnew)
open SnapshotStore (snapshot)

variable {s after : Snapshot} {ops : Transaction}

/-- The step, among those that give documents new ids. -/
abbrev relocating : Relocating := .imageMetadata

def Scoped (s : Snapshot) (id scope localPart : String) : Prop :=
  (s.find? cloudImageMetadata id).isSome = true ∧ DocId.split? id = some (scope, localPart)

def LocalPartsFree (s : Snapshot) : Prop :=
  ∀ id scope localPart, Scoped s id scope localPart →
    s.find? cloudImageMetadata localPart = none

instance (s : Snapshot) : Decidable (LocalPartsFree s) :=
  decidable_of_iff (∀ id ∈ (s.collections.collection cloudImageMetadata).keys,
      ∀ parts ∈ DocId.split? id, s.find? cloudImageMetadata parts.2 = none) <| by
    constructor
    · rintro h id scope localPart ⟨hthere, hsplit⟩
      exact h id ((Table.mem_keys_iff _ id).2 hthere) (scope, localPart) hsplit
    · rintro h id hid ⟨scope, localPart⟩ hsplit
      exact h id scope localPart ⟨(Table.mem_keys_iff _ id).1 hid, hsplit⟩

def LocalPartsDistinct (s : Snapshot) : Prop :=
  ∀ id scope id' scope' localPart, Scoped s id scope localPart → Scoped s id' scope' localPart →
    id' = id

/-- The collection before and after its documents lost their scopes. -/
structure Unscoped (before after : Snapshot) : Prop extends relocating.Relocated before after where
  reachable : ∀ id scope localPart d, before.find? cloudImageMetadata id = some d →
    DocId.split? id = some (scope, localPart) →
    ∃ copy, after.find? cloudImageMetadata localPart = some copy ∧
      StoredAnew localPart ["model-uuid"] none d copy
  cleared : ∀ id scope localPart, Scoped before id scope localPart →
    after.find? cloudImageMetadata id = none
  kept : ∀ id d, before.find? cloudImageMetadata id = some d → DocId.split? id = none →
    after.find? cloudImageMetadata id = some d

/-! ## The plan -/

theorem selects_iff {id newId : String} {d : Document} {rewritten : Option (String × Value)} :
    relocating.Selects id d newId rewritten ↔
      ∃ scope, DocId.split? id = some (scope, newId) ∧ rewritten = none := by
  constructor
  · intro h
    cases h with
    | imageMetadata hsplit => exact ⟨_, hsplit, rfl⟩
  · rintro ⟨scope, hsplit, rfl⟩
    exact .imageMetadata hsplit

theorem exists_plan (hk : s.Keyed) : ∃ ops, s.view.planEach cloudImageMetadata move = .ok ops := by
  refine Snapshot.exists_planEach fun id d hd => ?_
  unfold move
  rw [scannedId_eq_ok.2 (hk cloudImageMetadata id d hd)]
  dsimp only [bind, Except.bind]
  split <;> exact ⟨_, rfl⟩

theorem newIdsFree_iff : relocating.NewIdsFree s ↔ LocalPartsFree s := by
  constructor
  · rintro h id scope localPart ⟨hthere, hsplit⟩
    obtain ⟨d, hd⟩ := Option.isSome_iff_exists.1 hthere
    exact h id d localPart none hd (selects_iff.2 ⟨scope, hsplit, rfl⟩)
  · intro h id d newId rewritten hd hselects
    obtain ⟨scope, hsplit, -⟩ := selects_iff.1 hselects
    exact h id scope newId ⟨Option.isSome_iff_exists.2 ⟨d, hd⟩, hsplit⟩

theorem selected_iff {id newId : String} :
    (∃ d rewritten, s.find? cloudImageMetadata id = some d ∧
      relocating.Selects id d newId rewritten) ↔ ∃ scope, Scoped s id scope newId := by
  constructor
  · rintro ⟨d, rewritten, hd, hselects⟩
    obtain ⟨scope, hsplit, -⟩ := selects_iff.1 hselects
    exact ⟨scope, Option.isSome_iff_exists.2 ⟨d, hd⟩, hsplit⟩
  · rintro ⟨scope, hthere, hsplit⟩
    obtain ⟨d, hd⟩ := Option.isSome_iff_exists.1 hthere
    exact ⟨d, none, hd, selects_iff.2 ⟨scope, hsplit, rfl⟩⟩

/-! ## Documents that meet -/

theorem meet_iff {id id' localPart : String} : relocating.Meet s id id' localPart ↔
    id' ≠ id ∧ (∃ scope, Scoped s id scope localPart) ∧ ∃ scope, Scoped s id' scope localPart :=
  ⟨fun h => ⟨h.different, selected_iff.1 h.first, selected_iff.1 h.second⟩,
    fun h => ⟨h.1, selected_iff.2 h.2.1, selected_iff.2 h.2.2⟩⟩

theorem localPartsDistinct_iff :
    LocalPartsDistinct s ↔ ∀ id id' localPart, ¬relocating.Meet s id id' localPart := by
  constructor
  · intro h id id' localPart hmeet
    obtain ⟨hne, ⟨scope, hid⟩, scope', hid'⟩ := meet_iff.1 hmeet
    exact hne (h id scope id' scope' localPart hid hid')
  · intro h id scope id' scope' localPart hid hid'
    by_contra hne
    exact h id id' localPart (meet_iff.2 ⟨hne, ⟨scope, hid⟩, scope', hid'⟩)

theorem unscoped_of_apply (hk : s.Keyed) (hfree : LocalPartsFree s)
    (h : s.view.planEach cloudImageMetadata move = .ok ops) (happly : s.apply ops = .ok after) :
    Unscoped s after := by
  have hrelocated : relocating.Relocated s after := Relocating.relocated_of_apply hk h happly
  refine ⟨hrelocated, fun id scope localPart d hd hsplit => ?_, fun id scope localPart hid => ?_,
    fun id d hd hsplit => ?_⟩
  · exact hrelocated.moved hd (selects_iff.2 ⟨scope, hsplit, rfl⟩)
  · refine Option.eq_none_iff_forall_ne_some.2 fun copy hcopy => ?_
    rcases hrelocated.origin hcopy with ⟨-, hno⟩ | ⟨old, d, _, hd, hselects, -⟩
    · exact hno localPart none (selects_iff.2 ⟨scope, hid.2, rfl⟩)
    · -- a document comes under this id only where none was
      obtain ⟨scope', hsplit', -⟩ := selects_iff.1 hselects
      have hnone := hfree old scope' id ⟨Option.isSome_iff_exists.2 ⟨d, hd⟩, hsplit'⟩
      have hthere := hid.1
      rw [hnone] at hthere
      cases hthere
  · refine hrelocated.kept hd fun newId rewritten hselects => ?_
    obtain ⟨scope, hsplit', -⟩ := selects_iff.1 hselects
    rw [hsplit] at hsplit'
    cases hsplit'

/-- Image metadata always has a plan. If no local part is in use, the plan is carried out just if
no two documents have the same local part, and then every document with a scope is reachable under
its local part. The refusal names a local part that two documents have. -/
theorem unscopes_iff_local_parts_distinct {σ : Type} [DocumentStore σ] [SnapshotStore σ] {store : σ}
    (hk : (snapshot store).Keyed) (hfree : LocalPartsFree (snapshot store)) :
    ∃ ops, (∀ disk vars, step.plan (DocumentStore.view store) disk vars =
        .ok (.ofTransaction ops, vars)) ∧
      ((∃ after, (snapshot store).apply ops = .ok after) ↔ LocalPartsDistinct (snapshot store)) ∧
      (∀ after, (snapshot store).apply ops = .ok after → Unscoped (snapshot store) after) ∧
      ∀ e, (snapshot store).apply ops = .error e → ∃ id scope id' scope' localPart,
        Scoped (snapshot store) id scope localPart ∧ Scoped (snapshot store) id' scope' localPart ∧
        id' ≠ id ∧ e = .preconditionFailed cloudImageMetadata localPart .mustNotExist := by
  obtain ⟨ops, hops⟩ := exists_plan hk
  have hnew := newIdsFree_iff.2 hfree
  refine ⟨ops, fun disk vars => ?_,
    (Relocating.apply_ok_iff_no_meeting (r := relocating) hk hops hnew).trans
      localPartsDistinct_iff.symm,
    fun after happly => unscoped_of_apply hk hfree hops happly, fun e he => ?_⟩
  · rw [SnapshotStore.view_eq]
    exact (Relocating.step_plan_ok_iff (r := relocating)).2 ⟨ops, hops, rfl, rfl⟩
  · obtain ⟨id, id', localPart, hmeet, rfl⟩ :=
      Relocating.meet_of_refused (r := relocating) hk hops hnew he
    obtain ⟨hne, ⟨scope, hid⟩, scope', hid'⟩ := meet_iff.1 hmeet
    exact ⟨id, scope, id', scope', localPart, hid, hid', hne, rfl⟩

def imagesUnder (ids : List String) : MemoryStore :=
  let entries : List Sample.Entry := ids.map fun id =>
    ⟨cloudImageMetadata, id, [("image_id", "ubuntu"), ("model-uuid", "m"), ("txn-revno", .int 2)]⟩
  ⟨entries.foldl Sample.Entry.addTo .empty, []⟩

def imagesOfTwoModels : MemoryStore := imagesUnder ["m:a:b", "m:trusty", "n:xenial", "zesty"]

theorem unscopes_images_of_two_models :
    (snapshot imagesOfTwoModels).Keyed ∧ LocalPartsFree (snapshot imagesOfTwoModels) ∧
      ∃ ops, (∀ disk vars, step.plan (DocumentStore.view imagesOfTwoModels) disk vars =
          .ok (.ofTransaction ops, vars)) ∧
        LocalPartsDistinct (snapshot imagesOfTwoModels) ∧
        ∃ after, (snapshot imagesOfTwoModels).apply ops = .ok after ∧
          Unscoped (snapshot imagesOfTwoModels) after := by
  have hk : (snapshot imagesOfTwoModels).Keyed := by decide +kernel
  have hfree : LocalPartsFree (snapshot imagesOfTwoModels) := by decide +kernel
  obtain ⟨plan, vars, htaken, hdone⟩ :=
    step.exists_taken_plan imagesOfTwoModels (.ofUuid "u") (by decide +kernel)
  obtain ⟨ops, hplan, haccepted, hafter, -⟩ := unscopes_iff_local_parts_distinct hk hfree
  rw [hplan] at htaken
  cases htaken
  obtain ⟨after, happly⟩ : ∃ after, (snapshot imagesOfTwoModels).apply ops = .ok after :=
    ⟨_, SnapshotStore.apply_ok hdone⟩
  exact ⟨hk, hfree, ops, hplan, haccepted.1 ⟨after, happly⟩, after, happly, hafter after happly⟩

def imageOfTwoModels : MemoryStore := imagesUnder ["m:xenial", "n:xenial"]

theorem refuses_image_of_two_models :
    ¬∀ (store : MemoryStore) (disk : Disk) (vars vars' : Variables) (plan : StepPlan),
      (snapshot store).Keyed → LocalPartsFree (snapshot store) →
      step.plan (DocumentStore.view store) disk vars = .ok (plan, vars') →
      (DocumentStore.apply plan.transaction store disk).result = .ok () := by
  intro hall
  have hrefused : ((step.plan (DocumentStore.view imageOfTwoModels) .empty
      (.ofUuid "u")).toOption.any fun planned =>
        !(DocumentStore.apply planned.1.transaction imageOfTwoModels .empty).result.isOk) =
      true := by decide +kernel
  obtain ⟨⟨plan, vars⟩, hplan, hrefused⟩ := exists_ok_of_any hrefused
  have haccepted := hall imageOfTwoModels .empty (.ofUuid "u") vars plan (by decide +kernel)
    (by decide +kernel) hplan
  rw [haccepted] at hrefused
  cases hrefused

/-! ## A second pass -/

/-- The ids after the step are those without a scope and the local parts of the others. -/
theorem nothing_scoped_iff (hk : s.Keyed) (h : s.view.planEach cloudImageMetadata move = .ok ops)
    (happly : s.apply ops = .ok after) :
    (∀ id scope localPart, ¬Scoped after id scope localPart) ↔
      ∀ id scope localPart, Scoped s id scope localPart → DocId.split? localPart = none := by
  have hrelocated : relocating.Relocated s after := Relocating.relocated_of_apply hk h happly
  constructor
  · intro hnone id scope localPart hid
    obtain ⟨d, hd⟩ := Option.isSome_iff_exists.1 hid.1
    obtain ⟨copy, hcopy, -⟩ := hrelocated.moved hd (selects_iff.2 ⟨scope, hid.2, rfl⟩)
    refine Option.eq_none_iff_forall_ne_some.2 fun parts hparts => ?_
    exact hnone localPart parts.1 parts.2 ⟨Option.isSome_iff_exists.2 ⟨copy, hcopy⟩, hparts⟩
  · intro hlocal id scope localPart hid
    obtain ⟨copy, hcopy⟩ := Option.isSome_iff_exists.1 hid.1
    rcases hrelocated.origin hcopy with ⟨-, hno⟩ | ⟨old, d, _, hd, hselects, -⟩
    · exact hno localPart none (selects_iff.2 ⟨scope, hid.2, rfl⟩)
    · obtain ⟨scope', hsplit', -⟩ := selects_iff.1 hselects
      have hnone := hlocal old scope' id ⟨Option.isSome_iff_exists.2 ⟨d, hd⟩, hsplit'⟩
      rw [hid.2] at hnone
      cases hnone

theorem plan_eq_nil_iff (hk : s.Keyed) (h : s.view.planEach cloudImageMetadata move = .ok ops) :
    ops = [] ↔ ∀ id scope localPart, ¬Scoped s id scope localPart := by
  refine (Relocating.plan_eq_nil_iff (r := relocating) hk h).trans ?_
  constructor
  · rintro hno id scope localPart ⟨hthere, hsplit⟩
    obtain ⟨d, hd⟩ := Option.isSome_iff_exists.1 hthere
    exact hno id d localPart none hd (selects_iff.2 ⟨scope, hsplit, rfl⟩)
  · intro hno id d newId rewritten hd hselects
    obtain ⟨scope, hsplit, -⟩ := selects_iff.1 hselects
    exact hno id scope newId ⟨Option.isSome_iff_exists.2 ⟨d, hd⟩, hsplit⟩

/-- A pass takes one scope from each id. After one that was carried out there is always another
plan, and it has nothing to do just if no local part had a scope again. -/
theorem second_pass_empty_iff {σ : Type} [DocumentStore σ] [SnapshotStore σ] {store : σ}
    {disk disk' : Disk} {vars vars' : Variables} {plan : StepPlan} (hk : (snapshot store).Keyed)
    (hplan : step.plan (DocumentStore.view store) disk vars = .ok (plan, vars'))
    (h : (DocumentStore.apply plan.transaction store disk').result = .ok ()) :
    ∃ again, (∀ disk vars, step.plan
          (DocumentStore.view (DocumentStore.apply plan.transaction store disk').store) disk vars =
        .ok (.ofTransaction again, vars)) ∧
      (again = [] ↔ ∀ id scope localPart, Scoped (snapshot store) id scope localPart →
        DocId.split? localPart = none) := by
  rw [SnapshotStore.view_eq] at hplan
  obtain ⟨ops, hops, rfl, rfl⟩ := (Relocating.step_plan_ok_iff (r := relocating)).1 hplan
  have happly := SnapshotStore.apply_ok h
  obtain ⟨again, hagain⟩ := exists_plan (hk.apply happly)
  refine ⟨again, fun disk vars => ?_, ?_⟩
  · rw [SnapshotStore.view_eq]
    exact (Relocating.step_plan_ok_iff (r := relocating)).2 ⟨again, hagain, rfl, rfl⟩
  · exact (plan_eq_nil_iff (hk.apply happly) hagain).trans (nothing_scoped_iff hk hops happly)

def plainImages : MemoryStore := imagesUnder ["m:trusty", "n:xenial", "zesty"]

theorem second_pass_empty_plain_images :
    (snapshot plainImages).Keyed ∧ ∃ plan vars,
      step.plan (DocumentStore.view plainImages) .empty (.ofUuid "u") = .ok (plan, vars) ∧
      (DocumentStore.apply plan.transaction plainImages .empty).result = .ok () ∧
      ∀ disk vars, step.plan
          (DocumentStore.view (DocumentStore.apply plan.transaction plainImages .empty).store)
          disk vars =
        .ok (.ofTransaction [], vars) := by
  have hk : (snapshot plainImages).Keyed := by decide +kernel
  have hlocal : ∀ id ∈ (plainImages.snapshot.collections.collection cloudImageMetadata).keys,
      ∀ parts ∈ DocId.split? id, DocId.split? parts.2 = none := by decide +kernel
  obtain ⟨plan, vars, hplan, hdone⟩ :=
    step.exists_taken_plan plainImages (.ofUuid "u") (by decide +kernel)
  obtain ⟨again, hagain, hempty⟩ := second_pass_empty_iff hk hplan hdone
  have hnil : again = [] := by
    refine hempty.2 fun id scope localPart hid => ?_
    exact hlocal id ((Table.mem_keys_iff _ id).2 hid.1) (scope, localPart) hid.2
  exact ⟨hk, plan, vars, hplan, hdone, hnil ▸ hagain⟩

def nestedImage : MemoryStore := imagesUnder ["m:a:b"]

theorem second_pass_moves_nested_image :
    ¬∀ (store : MemoryStore) (disk disk' : Disk) (vars vars' again' : Variables)
      (plan again : StepPlan), (snapshot store).Keyed →
      step.plan (DocumentStore.view store) disk vars = .ok (plan, vars') →
      (DocumentStore.apply plan.transaction store disk').result = .ok () →
      step.plan (DocumentStore.view (DocumentStore.apply plan.transaction store disk').store)
        disk vars = .ok (again, again') →
      again.transaction = [] := by
  intro hall
  have htwice : ((step.plan (DocumentStore.view nestedImage) .empty
      (.ofUuid "u")).toOption.any fun planned =>
        let done := DocumentStore.apply planned.1.transaction nestedImage .empty
        done.result.isOk && (step.plan (DocumentStore.view done.store) .empty
          (.ofUuid "u")).toOption.any fun again => !again.1.transaction.isEmpty) =
      true := by decide +kernel
  obtain ⟨⟨plan, vars⟩, hplan, htwice⟩ := exists_ok_of_any htwice
  obtain ⟨hdone, hmoves⟩ := Bool.and_eq_true_iff.1 htwice
  obtain ⟨_, hdone⟩ := exists_ok_of_isOk hdone
  obtain ⟨⟨again, vars'⟩, hagain, hmoves⟩ := exists_ok_of_any hmoves
  have hnil := hall nestedImage .empty .empty (.ofUuid "u") vars vars' plan again
    (by decide +kernel) hplan hdone hagain
  rw [hnil] at hmoves
  cases hmoves

end FleetUpgrade.ImageMetadata
