import FleetUpgrade.Proofs.Relocations

/-! # Ids that split

New ids are put together from a scope and a local part. Where the scope comes from
the old id, and the result is looked at before it is used, every new id splits into
two parts. Leases and sequences take the scope from a field, which may hold any text,
and use what results.
-/

namespace FleetUpgrade

open CollectionName (leases sequence)

namespace DocId

/-- What begins with a scope: there is something, and it is not a colon that comes first. -/
def BeginsScope (front : String) : Prop :=
  front ≠ "" ∧ ∀ rest, front ≠ ":" ++ rest

theorem beginsScope_iff_of_not_mem {front : String} (h : ':' ∉ front.toList) :
    BeginsScope front ↔ front ≠ "" := by
  refine and_iff_left_of_imp fun _ rest he => h ?_
  rw [he]
  simp

/-- Up to the first colon there must be something. -/
theorem beginsScope_join_iff {scope : String} (rest : String) (h : ':' ∉ scope.toList) :
    BeginsScope (scope ++ ":" ++ rest) ↔ scope ≠ "" := by
  constructor
  · rintro ⟨-, hfirst⟩ rfl
    exact hfirst rest (by rw [String.empty_append])
  · refine fun hne => ⟨by simp, fun other he => ?_⟩
    have hjoin : scope ++ ":" ++ rest = "" ++ ":" ++ other := by rw [he, String.empty_append]
    exact hne ((join_inj h (by decide)).1 hjoin).1

/-- Only the first colon counts, so an id splits just if it begins with a scope. -/
theorem isSome_split?_iff {front localPart : String} (hlocal : localPart ≠ "") :
    (split? (front ++ ":" ++ localPart)).isSome = true ↔ BeginsScope front := by
  unfold split?
  by_cases hcolon : ':' ∈ front.toList
  · obtain ⟨before, after, hchars, hfirst⟩ := List.eq_append_cons_of_mem hcolon
    let scope := String.ofList before
    let rest := String.ofList after
    have hscope : ':' ∉ scope.toList := by simpa [scope] using hfirst
    have hfront : front = scope ++ ":" ++ rest := by
      apply String.toList_inj.1
      simp [scope, rest, hchars]
    -- what follows the first colon is never empty, since the local part is its end
    have hid : front ++ ":" ++ localPart = scope ++ ":" ++ (rest ++ ":" ++ localPart) := by
      simp only [hfront, String.append_assoc]
    rw [hid, cutFirst_join _ hscope, hfront, beginsScope_join_iff rest hscope]
    simp
  · rw [beginsScope_iff_of_not_mem hcolon, cutFirst_join localPart hcolon]
    simp [hlocal]

end DocId

open DocId (BeginsScope isSome_split?_iff)

def StepPlan.InsertsSplit (plan : StepPlan) : Prop :=
  ∀ op ∈ plan.transaction, op.kind = .insert → (DocId.split? op.id).isSome = true

instance (plan : StepPlan) : Decidable plan.InsertsSplit :=
  inferInstanceAs (Decidable (∀ op ∈ plan.transaction, _))

theorem insert_of_mem_relocate {source oldId target newId : String} {body : Document}
    {op : Operation} (h : op ∈ relocate source oldId target newId body)
    (hkind : op.kind = .insert) : op = .insert target newId body := by
  rcases List.mem_cons.1 h with rfl | hlast
  · cases hkind
  · exact List.mem_singleton.1 hlast

variable {view : StoreView} {disk : Disk} {vars vars' : Variables} {plan : StepPlan}

theorem RekeyRule.insertsSplit {rule : RekeyRule} {collection : String}
    (h : (rule.step collection).plan view disk vars = .ok (plan, vars')) : plan.InsertsSplit := by
  obtain ⟨ops, hops, rfl, -⟩ :=
    (Relocating.step_plan_ok_iff (r := .rekey rule collection)).1 h
  intro op hop hkind
  obtain ⟨d, part, hpart, hmem⟩ := StoreView.planEach_ok_of_mem hops hop
  obtain ⟨id, -, ⟨-, rfl⟩ | ⟨newId, -, hsplit, rfl⟩⟩ := RekeyRule.move?_spec hpart
  · exact absurd hmem List.not_mem_nil
  · rw [insert_of_mem_relocate hmem hkind]
    exact hsplit

/-- Where the scopes of the new ids are taken from the documents, all depends on these. -/
theorem StoreView.insertsSplit_iff {name : String} {move : Document → Except StepError Transaction}
    {NewScope : Document → String → Prop} {ops : Transaction}
    (hmove : ∀ {d part}, move d = .ok part → (part = [] ∧ ∀ scope, ¬NewScope d scope) ∨
      ∃ id scope localPart body, (∀ other, NewScope d other ↔ other = scope) ∧ localPart ≠ "" ∧
        part = relocate name id name (scope ++ ":" ++ localPart) body)
    (h : view.planEach name move = .ok ops) :
    ∃ documents, view.scan name .all = .ok ⟨documents, none⟩ ∧
      ((StepPlan.ofTransaction ops).InsertsSplit ↔
        ∀ d ∈ documents, ∀ scope, NewScope d scope → BeginsScope scope) := by
  obtain ⟨documents, hscan, hread, hops⟩ := planEach_ok h
  refine ⟨documents, hscan, fun hsplit d hd scope hscope => ?_, fun hscopes op hop hkind => ?_⟩
  · obtain ⟨part, hpart⟩ := hread d hd
    rcases hmove hpart with ⟨-, hnone⟩ | ⟨id, own, localPart, body, hown, hlocal, rfl⟩
    · exact absurd hscope (hnone scope)
    · rw [(hown scope).1 hscope]
      let op : Operation := .insert name (own ++ ":" ++ localPart) body
      have hop : op ∈ ops := (hops op).2 ⟨d, hd, _, hpart, by simp [relocate, op]⟩
      exact (isSome_split?_iff hlocal).1 (hsplit op hop rfl)
  · obtain ⟨d, hd, part, hpart, hmem⟩ := (hops op).1 hop
    rcases hmove hpart with ⟨rfl, -⟩ | ⟨id, own, localPart, body, hown, hlocal, rfl⟩
    · exact absurd hmem List.not_mem_nil
    · rw [insert_of_mem_relocate hmem hkind]
      exact (isSome_split?_iff hlocal).2 (hscopes d hd own ((hown own).2 rfl))

/-- The text that the new id of a lease begins with. -/
def Lease.NewScope (d : Document) (scope : String) : Prop :=
  d.get? "namespace" = some (.string serviceLeadership) ∧ d.getString "model-uuid" = .ok scope

def Sequence.NewScope (d : Document) (scope : String) : Prop :=
  ∃ tag service, d.get? "name" = some (.string tag) ∧ ServiceTag.name? tag = some service ∧
    d.getString "model-uuid" = .ok scope

theorem getString_eq_ok_iff_eq {d : Document} {scope other : String}
    (h : d.getString "model-uuid" = .ok scope) :
    d.getString "model-uuid" = .ok other ↔ other = scope := by
  rw [h, Except.ok.injEq, eq_comm]

theorem Lease.exists_localPart (kind : String) (name : Option String) :
    ∃ localPart, localPart ≠ "" ∧
      ∀ scope, newId scope kind name = scope ++ ":" ++ localPart := by
  simp only [newId, String.append_assoc]
  exact ⟨_, by simp, fun scope => rfl⟩

theorem Lease.move_newScope {d : Document} {part : Transaction} (h : move d = .ok part) :
    (part = [] ∧ ∀ scope, ¬NewScope d scope) ∨
      ∃ id scope localPart body, (∀ other, NewScope d other ↔ other = scope) ∧ localPart ≠ "" ∧
        part = relocate leases id leases (scope ++ ":" ++ localPart) body := by
  obtain ⟨id, -, ⟨rfl, hother⟩ | ⟨scope, kind, name, hspace, hmodel, -, -, rfl⟩⟩ := move_spec h
  · exact Or.inl ⟨rfl, fun scope hscope => hother hscope.1⟩
  · obtain ⟨localPart, hne, hid⟩ := exists_localPart kind name
    refine Or.inr ⟨id, scope, localPart, _, fun other => ?_, hne, by rw [← hid scope]⟩
    exact (and_iff_right hspace).trans (getString_eq_ok_iff_eq hmodel)

theorem Sequence.move_newScope {d : Document} {part : Transaction} (h : move d = .ok part) :
    (part = [] ∧ ∀ scope, ¬NewScope d scope) ∨
      ∃ id scope localPart body, (∀ other, NewScope d other ↔ other = scope) ∧ localPart ≠ "" ∧
        part = relocate sequence id sequence (scope ++ ":" ++ localPart) body := by
  obtain ⟨id, tag, -, htag, ⟨rfl, hnone⟩ | ⟨service, scope, hservice, hmodel, rfl⟩⟩ := move_spec h
  · refine Or.inl ⟨rfl, ?_⟩
    rintro scope ⟨tag', service, htag', hservice, -⟩
    rw [htag] at htag'
    cases htag'
    rw [hnone] at hservice
    cases hservice
  · refine Or.inr ⟨id, scope, "application-" ++ service, _, fun other => ?_, by simp, rfl⟩
    constructor
    · rintro ⟨_, _, -, -, hother⟩
      exact (getString_eq_ok_iff_eq hmodel).1 hother
    · rintro rfl
      exact ⟨tag, service, htag, hservice, hmodel⟩

/-- Rekeying inserts only ids that split. The new ids of leases and sequences split just if the
texts that they begin with do begin with a scope. -/
theorem new_ids_split_iff (view : StoreView) (disk : Disk) (vars vars' : Variables)
    (plan : StepPlan) :
    (∀ (rule : RekeyRule) collection,
      (rule.step collection).plan view disk vars = .ok (plan, vars') → plan.InsertsSplit) ∧
    (Lease.step.plan view disk vars = .ok (plan, vars') →
      ∃ documents, view.scan leases .all = .ok ⟨documents, none⟩ ∧
        (plan.InsertsSplit ↔
          ∀ d ∈ documents, ∀ scope, Lease.NewScope d scope → BeginsScope scope)) ∧
    (Sequence.step.plan view disk vars = .ok (plan, vars') →
      ∃ documents, view.scan sequence .all = .ok ⟨documents, none⟩ ∧
        (plan.InsertsSplit ↔
          ∀ d ∈ documents, ∀ scope, Sequence.NewScope d scope → BeginsScope scope)) := by
  refine ⟨fun rule collection h => RekeyRule.insertsSplit h, fun h => ?_, fun h => ?_⟩
  · obtain ⟨ops, hops, rfl, -⟩ := (Relocating.step_plan_ok_iff (r := .leases)).1 h
    exact StoreView.insertsSplit_iff Lease.move_newScope hops
  · obtain ⟨ops, hops, rfl, -⟩ := (Relocating.step_plan_ok_iff (r := .sequences)).1 h
    exact StoreView.insertsSplit_iff Sequence.move_newScope hops

def servicesOf (leaseModel sequenceModel : String) : MemoryStore :=
  let entries : List Sample.Entry :=
    [⟨"units", "m:s#a:b", []⟩,
      ⟨leases, "l", [("namespace", "service-leadership"), ("type", "lease"), ("name", "a"),
        ("model-uuid", leaseModel)]⟩,
      ⟨sequence, "s", [("name", "service-a"), ("model-uuid", sequenceModel)]⟩]
  ⟨entries.foldl Sample.Entry.addTo .empty, []⟩

/-- Whether a plan does something, and inserts only ids that split, can be tried out. -/
theorem Step.exists_plan_inserting (step : Step) (store : MemoryStore) (all : Bool)
    (h : ((step.plan (DocumentStore.view store) .empty (.ofUuid "u")).toOption.any fun planned =>
      !planned.1.transaction.isEmpty && decide planned.1.InsertsSplit == all) = true) :
    ∃ plan vars, step.plan (DocumentStore.view store) .empty (.ofUuid "u") = .ok (plan, vars) ∧
      plan.transaction ≠ [] ∧ decide plan.InsertsSplit = all := by
  obtain ⟨⟨plan, vars⟩, hplan, htried⟩ := exists_ok_of_any h
  obtain ⟨hsome, hall⟩ := Bool.and_eq_true_iff.1 htried
  refine ⟨plan, vars, hplan, fun hnil => ?_, beq_iff_eq.1 hall⟩
  rw [hnil] at hsome
  cases hsome

theorem new_ids_split_of_colons :
    (∃ plan vars, ((serviceKeyRule none).step "units").plan
        (DocumentStore.view (servicesOf "m:n" "m")) .empty (.ofUuid "u") = .ok (plan, vars) ∧
      plan.transaction ≠ [] ∧ plan.InsertsSplit) ∧
    (∃ plan vars documents, Lease.step.plan (DocumentStore.view (servicesOf "m:n" "m")) .empty
        (.ofUuid "u") = .ok (plan, vars) ∧ plan.transaction ≠ [] ∧ plan.InsertsSplit ∧
      (DocumentStore.view (servicesOf "m:n" "m")).scan leases .all = .ok ⟨documents, none⟩ ∧
      ∀ d ∈ documents, ∀ scope, Lease.NewScope d scope → BeginsScope scope) ∧
    ∃ plan vars documents, Sequence.step.plan (DocumentStore.view (servicesOf "m:n" "m")) .empty
        (.ofUuid "u") = .ok (plan, vars) ∧ plan.transaction ≠ [] ∧ plan.InsertsSplit ∧
      (DocumentStore.view (servicesOf "m:n" "m")).scan sequence .all = .ok ⟨documents, none⟩ ∧
      ∀ d ∈ documents, ∀ scope, Sequence.NewScope d scope → BeginsScope scope := by
  refine ⟨?_, ?_, ?_⟩
  · obtain ⟨plan, vars, hplan, hne, -⟩ := ((serviceKeyRule none).step "units").exists_plan_inserting
      (servicesOf "m:n" "m") true (by decide +kernel)
    exact ⟨plan, vars, hplan, hne, (new_ids_split_iff _ _ _ _ plan).1 _ _ hplan⟩
  · obtain ⟨plan, vars, hplan, hne, hall⟩ := Lease.step.exists_plan_inserting
      (servicesOf "m:n" "m") true (by decide +kernel)
    have hsplit := of_decide_eq_true hall
    obtain ⟨documents, hscan, hiff⟩ := (new_ids_split_iff _ _ _ _ plan).2.1 hplan
    exact ⟨plan, vars, documents, hplan, hne, hsplit, hscan, hiff.1 hsplit⟩
  · obtain ⟨plan, vars, hplan, hne, hall⟩ := Sequence.step.exists_plan_inserting
      (servicesOf "m:n" "m") true (by decide +kernel)
    have hsplit := of_decide_eq_true hall
    obtain ⟨documents, hscan, hiff⟩ := (new_ids_split_iff _ _ _ _ plan).2.2 hplan
    exact ⟨plan, vars, documents, hplan, hne, hsplit, hscan, hiff.1 hsplit⟩

theorem new_ids_not_split_of_empty_model :
    (¬∀ (store : MemoryStore) (disk : Disk) (vars vars' : Variables) (plan : StepPlan),
      Lease.step.plan (DocumentStore.view store) disk vars = .ok (plan, vars') →
        plan.InsertsSplit) ∧
    ¬∀ (store : MemoryStore) (disk : Disk) (vars vars' : Variables) (plan : StepPlan),
      Sequence.step.plan (DocumentStore.view store) disk vars = .ok (plan, vars') →
        plan.InsertsSplit := by
  refine ⟨fun hall => ?_, fun hall => ?_⟩
  · obtain ⟨plan, vars, hplan, -, hno⟩ := Lease.step.exists_plan_inserting
      (servicesOf "" "") false (by decide +kernel)
    exact of_decide_eq_false hno (hall _ _ _ vars plan hplan)
  · obtain ⟨plan, vars, hplan, -, hno⟩ := Sequence.step.exists_plan_inserting
      (servicesOf "" "") false (by decide +kernel)
    exact of_decide_eq_false hno (hall _ _ _ vars plan hplan)

end FleetUpgrade
