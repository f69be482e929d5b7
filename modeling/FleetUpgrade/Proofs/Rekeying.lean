import FleetUpgrade.Proofs.Relocations

/-! # Rekeying

The starts of a rule may be arbitrary texts, and what follows them may contain
further colons and further marks. If neither start is a start of the other, the
new ids are all different, none of them is selected again, and only documents
that are there already can be in their way.
-/

namespace FleetUpgrade.RekeyRule

open Document (StoredAnew)

variable {rule : RekeyRule} {collection : String} {s after : Snapshot} {ops : Transaction}

def NewIdsFree (rule : RekeyRule) (collection : String) (s : Snapshot) : Prop :=
  ∀ id scope rest, (s.find? collection id).isSome = true → rule.Selected id scope rest →
    s.find? collection (rule.newId scope rest) = none

/-- A collection before and after its selected documents got their new ids. -/
structure Rekeyed (rule : RekeyRule) (collection : String) (before after : Snapshot) : Prop where
  cleared : ∀ id scope rest, rule.Selected id scope rest → after.find? collection id = none
  renamed : ∀ id scope rest d, rule.Selected id scope rest → before.find? collection id = some d →
    ∃ copy, after.find? collection (rule.newId scope rest) = some copy ∧
      StoredAnew (rule.newId scope rest) rule.stripFields
        (rule.keyField.map fun field => (field, .string (rule.newStart ++ rest))) d copy
  kept : ∀ id d, (∀ scope rest, ¬rule.Selected id scope rest) →
    before.find? collection id = some d → after.find? collection id = some d
  origin : ∀ id copy, after.find? collection id = some copy →
    ((∀ scope rest, ¬rule.Selected id scope rest) ∧ before.find? collection id = some copy) ∨
      ∃ old scope rest, rule.Selected old scope rest ∧ id = rule.newId scope rest ∧
        (before.find? collection old).isSome = true
  others : ∀ name, name ≠ collection →
    after.collections.get? name = before.collections.get? name
  pending : after.pending = before.pending
  again : rule.plan collection after.view = .ok []

theorem exists_plan (collection : String) (hapart : rule.Apart) (hk : s.Keyed) :
    ∃ ops, rule.plan collection s.view = .ok ops := by
  refine Snapshot.exists_planEach fun id d hd => ?_
  have hown : scannedId collection d = .ok id := scannedId_eq_ok.2 (hk collection id d hd)
  unfold move?
  rw [hown]
  dsimp only
  cases hkey : rule.rekey? id with
  | none => exact ⟨[], rfl⟩
  | some other =>
      obtain ⟨scope, rest, hselected, rfl⟩ := rekey?_eq_some_iff.1 hkey
      simp only [hapart.split?_newId hselected]
      exact ⟨_, rfl⟩

theorem selects_iff {id newId : String} {d : Document} {rewritten : Option (String × Value)} :
    (Relocating.rekey rule collection).Selects id d newId rewritten ↔
      ∃ scope rest, rule.Selected id scope rest ∧ newId = rule.newId scope rest ∧
        rewritten = rule.keyField.map fun field => (field, .string (rule.newStart ++ rest)) := by
  constructor
  · intro h
    cases h with
    | rekey hselected => exact ⟨_, _, hselected, rfl, rfl⟩
  · rintro ⟨scope, rest, hselected, rfl, rfl⟩
    exact .rekey hselected

theorem apply_ok_iff_new_ids_free (hapart : rule.Apart) (hk : s.Keyed)
    (h : rule.plan collection s.view = .ok ops) :
    (∃ after, s.apply ops = .ok after) ↔ rule.NewIdsFree collection s := by
  let r := Relocating.rekey rule collection
  constructor
  · rintro ⟨after, happly⟩ id scope rest hsome hselected
    have hrelocated : r.Relocated s after := Relocating.relocated_of_apply hk h happly
    obtain ⟨d, hd⟩ := Option.isSome_iff_exists.1 hsome
    refine Option.eq_none_iff_forall_ne_some.2 fun other hother => ?_
    -- only selected documents make room, and a new id is not selected
    obtain ⟨next, _, hselects⟩ := hrelocated.makes_room hd
      (selects_iff.2 ⟨scope, rest, hselected, rfl, rfl⟩) hother
    obtain ⟨scope', rest', hselected', -⟩ := selects_iff.1 hselects
    exact hapart.not_selected_newId hselected scope' rest' hselected'
  · intro hfree
    have hfreed : r.NewIdsFree s := by
      intro id d newId rewritten hd hselects
      obtain ⟨scope, rest, hselected, rfl, -⟩ := selects_iff.1 hselects
      exact hfree id scope rest (Option.isSome_iff_exists.2 ⟨d, hd⟩) hselected
    refine (Relocating.apply_ok_iff_no_meeting (r := r) hk h hfreed).2 fun id id' newId hmeet => ?_
    obtain ⟨_, _, -, hselects⟩ := hmeet.first
    obtain ⟨_, _, -, hselects'⟩ := hmeet.second
    obtain ⟨scope, rest, hselected, hid, -⟩ := selects_iff.1 hselects
    obtain ⟨scope', rest', hselected', hid', -⟩ := selects_iff.1 hselects'
    exact hmeet.different (hapart.eq_of_newId_eq hselected hselected' (hid.symm.trans hid')).symm

theorem plan_eq_nil (hapart : rule.Apart) (hk : s.Keyed)
    (hno : ∀ id scope rest, rule.Selected id scope rest → s.find? collection id = none) :
    rule.plan collection s.view = .ok [] := by
  obtain ⟨ops, hops⟩ := exists_plan collection hapart hk
  have hnil : ops = [] := by
    refine (Relocating.plan_eq_nil_iff (r := .rekey rule collection) hk hops).2 ?_
    intro id d newId rewritten hd hselects
    obtain ⟨scope, rest, hselected, -⟩ := selects_iff.1 hselects
    have hfound : s.find? collection id = some d := hd
    rw [hno id scope rest hselected] at hfound
    cases hfound
  rw [hops, hnil]

theorem rekeyed_of_apply (hapart : rule.Apart) (hk : s.Keyed)
    (h : rule.plan collection s.view = .ok ops) (happly : s.apply ops = .ok after) :
    rule.Rekeyed collection s after := by
  let r := Relocating.rekey rule collection
  have hrelocated : r.Relocated s after := Relocating.relocated_of_apply hk h happly
  have horigin : ∀ id copy, after.find? collection id = some copy →
      ((∀ scope rest, ¬rule.Selected id scope rest) ∧ s.find? collection id = some copy) ∨
        ∃ old scope rest, rule.Selected old scope rest ∧ id = rule.newId scope rest ∧
          (s.find? collection old).isSome = true := by
    intro id copy hcopy
    rcases hrelocated.origin hcopy with ⟨hkept, hno⟩ | ⟨old, d, _, hd, hselects, -⟩
    · refine Or.inl ⟨fun scope rest hselected => ?_, hkept⟩
      exact hno _ _ (selects_iff.2 ⟨scope, rest, hselected, rfl, rfl⟩)
    · obtain ⟨scope, rest, hselected, hid, -⟩ := selects_iff.1 hselects
      exact Or.inr ⟨old, scope, rest, hselected, hid, Option.isSome_iff_exists.2 ⟨d, hd⟩⟩
  have hcleared : ∀ id scope rest, rule.Selected id scope rest →
      after.find? collection id = none := by
    intro id scope rest hselected
    refine Option.eq_none_iff_forall_ne_some.2 fun copy hcopy => ?_
    rcases horigin id copy hcopy with ⟨hno, -⟩ | ⟨_, scope', rest', hselected', rfl, -⟩
    · exact hno scope rest hselected
    · exact hapart.not_selected_newId hselected' scope rest hselected
  refine ⟨hcleared, fun id scope rest d hselected hd => ?_, fun id d hno hd => ?_, horigin,
    hrelocated.others, hrelocated.pending, plan_eq_nil hapart (hk.apply happly) hcleared⟩
  · exact hrelocated.moved hd (selects_iff.2 ⟨scope, rest, hselected, rfl, rfl⟩)
  · refine hrelocated.kept hd fun newId rewritten hselects => ?_
    obtain ⟨scope, rest, hselected, -, -⟩ := selects_iff.1 hselects
    exact hno scope rest hselected

/-- Rekeying always has a plan. It is carried out just if no new id is in use, and then every
selected document has its new id, all others are as they were, and there is nothing left to do. -/
theorem rekeys_iff_new_ids_free {σ : Type} [DocumentStore σ] [SnapshotStore σ] (rule : RekeyRule)
    (collection : String) {store : σ} (hk : (SnapshotStore.snapshot store).Keyed)
    (hapart : rule.Apart) :
    ∃ ops, (∀ disk vars, (rule.step collection).plan (DocumentStore.view store) disk vars =
        .ok (.ofTransaction ops, vars)) ∧
      ((∃ after, (SnapshotStore.snapshot store).apply ops = .ok after) ↔
        rule.NewIdsFree collection (SnapshotStore.snapshot store)) ∧
      ∀ after, (SnapshotStore.snapshot store).apply ops = .ok after →
        rule.Rekeyed collection (SnapshotStore.snapshot store) after := by
  obtain ⟨ops, hops⟩ := exists_plan collection hapart hk
  refine ⟨ops, fun disk vars => ?_, apply_ok_iff_new_ids_free hapart hk hops,
    fun after happly => rekeyed_of_apply hapart hk hops happly⟩
  change (rule.plan collection (DocumentStore.view store)).map _ = _
  rw [SnapshotStore.view_eq, hops]
  rfl

/-- Units whose ids hold further colons and further marks, and one that only looks like a unit of
a service. -/
def markedUnits : MemoryStore :=
  let entries : List Sample.Entry :=
    [⟨"units", "m:s#", [("key", "s#"), ("txn-queue", .list [])]⟩,
      ⟨"units", "m:s#s#a:s#b", [("key", "s#s#a:s#b"), ("service", "a"), ("life", .int 0)]⟩,
      ⟨"units", "n:a#s#b", [("key", "a#s#b")]⟩,
      ⟨"units", "s#b", [("service", "b")]⟩]
  ⟨entries.foldl Sample.Entry.addTo .empty, []⟩

def unitRule : RekeyRule :=
  ⟨"s#", "a#", some "key", ["service"]⟩

theorem rekeys_marked_units :
    (SnapshotStore.snapshot markedUnits).Keyed ∧ unitRule.Apart ∧ ∃ ops,
      (∀ disk vars, (unitRule.step "units").plan (DocumentStore.view markedUnits) disk vars =
        .ok (.ofTransaction ops, vars)) ∧
      unitRule.NewIdsFree "units" (SnapshotStore.snapshot markedUnits) ∧
      ∃ after, (SnapshotStore.snapshot markedUnits).apply ops = .ok after ∧
        unitRule.Rekeyed "units" (SnapshotStore.snapshot markedUnits) after := by
  have hk : markedUnits.snapshot.Keyed := by decide +kernel
  have hkeyed : (SnapshotStore.snapshot markedUnits).Keyed := hk
  have hapart : unitRule.Apart := by decide +kernel
  obtain ⟨plan, vars, htaken, hdone⟩ :=
    (unitRule.step "units").exists_taken_plan markedUnits (.ofUuid "u") (by decide +kernel)
  obtain ⟨ops, hplan, hfree, hafter⟩ := rekeys_iff_new_ids_free unitRule "units" hkeyed hapart
  rw [hplan] at htaken
  cases htaken
  obtain ⟨after, happly⟩ : ∃ after, (SnapshotStore.snapshot markedUnits).apply ops = .ok after :=
    ⟨_, SnapshotStore.apply_ok hdone⟩
  exact ⟨hk, hapart, ops, hplan, hfree.1 ⟨after, happly⟩, after, happly, hafter after happly⟩

end FleetUpgrade.RekeyRule
