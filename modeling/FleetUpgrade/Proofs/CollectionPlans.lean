import FleetUpgrade.Proofs.Journal
import FleetUpgrade.Proofs.UpgradeFootprints

/-! # What planning each document of a collection brings about

A plan that visits the documents of a collection either moves them within it or
updates them in place. The operations for different documents name different
places, so what a plan leaves can be told from what was planned for each
document on its own.
-/

namespace FleetUpgrade

/-! ## Single operations -/

namespace Operation

def Apart (a b : Operation) : Prop := ¬(a.collection = b.collection ∧ a.id = b.id)

variable {name id : String} {docs docs' : Documents}

theorem execute_remove_ok_iff : (remove name id).execute docs = .ok docs' ↔
    (docs name id).isSome = true ∧ docs' = docs.place name id none := by
  unfold execute
  cases hd : docs name id with
  | none => simp [remove, hd, Precondition.holds]
  | some d => simp [remove, hd, Precondition.holds, eq_comm]

theorem execute_insert_ok_iff {body : Document} :
    (insert name id body).execute docs = .ok docs' ↔
      docs name id = none ∧ docs' = docs.place name id (some (.inserted id body)) := by
  unfold execute
  cases hd : docs name id with
  | none => simp [insert, hd, Precondition.holds, eq_comm]
  | some d => simp [insert, hd, Precondition.holds]

/-- An operation looks only at its own place. -/
theorem execute_congr {op : Operation} {other done : Documents}
    (hsame : docs op.collection op.id = other op.collection op.id)
    (h : op.execute other = .ok done) :
    ∃ docs', op.execute docs = .ok docs' ∧
      done op.collection op.id = docs' op.collection op.id := by
  obtain ⟨c, hc⟩ : ∃ c : Collection, c.get? op.id = docs op.collection op.id := by
    cases docs op.collection op.id with
    | none => exact ⟨Table.empty, Table.get?_empty op.id⟩
    | some d => exact ⟨Table.empty.insert op.id d, Table.get?_insert_self _ _ _⟩
  have hhere := applyTo_sameOutcome hc
  have hthere := applyTo_sameOutcome (hc.trans hsame)
  rw [h] at hthere
  generalize op.applyTo c = applied at hhere hthere
  cases hthere with
  | ok hdone =>
      obtain ⟨docs', hexec, hdocs⟩ := hhere.of_ok
      exact ⟨docs', hexec, by rw [hdone.1, hdocs.1, Documents.place_self, Documents.place_self]⟩

theorem execute_update {u : Update} (h : (update name id u).execute docs = .ok docs') :
    ∃ d d', docs name id = some d ∧ u.execute d = .ok d' ∧ docs' name id = some d' := by
  unfold execute at h
  cases hd : docs name id with
  | none => simp [update, hd, Precondition.holds] at h
  | some d =>
      simp only [update, hd, Precondition.holds, Option.isSome_some, if_true] at h
      cases hu : u.execute d with
      | error cause => simp [hu] at h
      | ok d' =>
          simp only [hu, Except.ok.injEq] at h
          exact ⟨d, d', rfl, hu, by rw [← h, Documents.place_self]⟩

theorem execute_update_ok {u : Update} {d d' : Document} (hd : docs name id = some d)
    (h : u.execute d = .ok d') :
    (update name id u).execute docs = .ok (docs.place name id (some d')) := by
  simp [execute, update, hd, h, Precondition.holds]

end Operation

namespace Transaction

/-- Operations that remove documents and insert ones with a property, leave only documents with the
property, if those that are not removed have it. -/
theorem execute_moves {name : String} {P : String → Document → Prop} {ops : Transaction}
    {docs docs' : Documents} (h : execute ops docs = .ok docs')
    (hops : ∀ op ∈ ops, (∃ id, op = .remove name id) ∨
      ∃ id body, op = .insert name id body ∧ P id (.inserted id body))
    (hstay : ∀ id d, docs name id = some d → Operation.remove name id ∉ ops → P id d) :
    ∀ id d, docs' name id = some d → P id d := by
  induction ops generalizing docs with
  | nil =>
      cases h
      intro id d hd
      exact hstay id d hd List.not_mem_nil
  | cons op ops ih =>
      obtain ⟨between, hop, hrest⟩ := execute_cons_ok.1 h
      simp only [List.mem_cons, forall_eq_or_imp] at hops
      refine ih hrest hops.2 fun id d hd hno => ?_
      rcases hops.1 with ⟨place, rfl⟩ | ⟨place, body, rfl, hbody⟩
      · rw [(Operation.execute_remove_ok_iff.1 hop).2] at hd
        by_cases hid : id = place
        · subst hid
          simp at hd
        · rw [Documents.place_other _ _ fun hh => hid hh.2] at hd
          refine hstay id d hd ?_
          simp [Operation.remove, hid] at hno ⊢
          exact hno
      · rw [(Operation.execute_insert_ok_iff.1 hop).2] at hd
        by_cases hid : id = place
        · subst hid
          simp only [Documents.place_self, Option.some.injEq] at hd
          exact hd ▸ hbody
        · rw [Documents.place_other _ _ fun hh => hid hh.2] at hd
          refine hstay id d hd ?_
          simp [Operation.remove, Operation.insert] at hno ⊢
          exact hno

/-- What is in a place that only one operation names is what the operation made of it. -/
theorem execute_once {op : Operation} {before after : Transaction} {docs docs' : Documents}
    (h : execute (before ++ op :: after) docs = .ok docs')
    (hothers : ∀ other ∈ before ++ after,
      ¬(other.collection = op.collection ∧ other.id = op.id)) :
    ∃ done, op.execute docs = .ok done ∧ docs' op.collection op.id = done op.collection op.id := by
  obtain ⟨reached, hbefore, h⟩ := execute_append_ok.1 h
  obtain ⟨updated, hop, hafter⟩ := execute_cons_ok.1 h
  have hstart := execute_untouched hbefore fun other hin =>
    hothers other (List.mem_append_left _ hin)
  have hend := execute_untouched hafter fun other hin =>
    hothers other (List.mem_append_right _ hin)
  obtain ⟨done, hdone, hsame⟩ := Operation.execute_congr hstart.symm hop
  exact ⟨done, hdone, hend.trans hsame⟩

theorem execute_update_once {name id : String} {u : Update} {before after : Transaction}
    {docs docs' : Documents}
    (h : execute (before ++ .update name id u :: after) docs = .ok docs')
    (hothers : ∀ op ∈ before ++ after, ¬(op.collection = name ∧ op.id = id)) :
    ∃ d d', docs name id = some d ∧ u.execute d = .ok d' ∧ docs' name id = some d' := by
  obtain ⟨done, hdone, hsame⟩ := execute_once h hothers
  obtain ⟨d, d', hd, hu, hd'⟩ := Operation.execute_update hdone
  exact ⟨d, d', hd, hu, by rw [← hd']; exact hsame⟩

/-- Operations on different places are carried out as if each were alone. -/
theorem execute_each {ops : Transaction} {docs docs' : Documents}
    (hapart : ops.Pairwise Operation.Apart) (h : execute ops docs = .ok docs') {op : Operation}
    (hop : op ∈ ops) :
    ∃ done, op.execute docs = .ok done ∧ docs' op.collection op.id = done op.collection op.id := by
  obtain ⟨before, after, rfl⟩ := List.append_of_mem hop
  rw [List.pairwise_append, List.pairwise_cons] at hapart
  obtain ⟨-, ⟨hafter, -⟩, hbefore⟩ := hapart
  refine execute_once h fun other hin => ?_
  rcases List.mem_append.1 hin with hfirst | hlast
  · exact hbefore other hfirst op List.mem_cons_self
  · exact fun he => hafter other hlast ⟨he.1.symm, he.2.symm⟩

end Transaction

/-! ## Plans -/

namespace Snapshot

variable {s : Snapshot} {name id : String} {ops : Transaction} {start docs : Documents}

theorem exists_planEach {planOne : Document → Except StepError Transaction}
    (h : ∀ id d, s.find? name id = some d → ∃ part, planOne d = .ok part) :
    ∃ ops, s.view.planEach name planOne = .ok ops := by
  have hread : ∃ parts, (s.documents name).mapM planOne = .ok parts := by
    refine List.mapM_ok_of_forall fun d hd => ?_
    obtain ⟨id, hid⟩ := (Table.mem_values_iff _ d).1 hd
    exact h id d hid
  obtain ⟨parts, hparts⟩ := hread
  refine ⟨parts.flatten, ?_⟩
  unfold StoreView.planEach
  rw [readEach_eq, hparts]
  rfl

theorem planEach_split {planOne : Document → Except StepError Transaction} {d : Document}
    (hk : s.Keyed) (hd : s.find? name id = some d)
    (h : s.view.planEach name planOne = .ok ops) :
    ∃ before part after, planOne d = .ok part ∧ ops = before ++ part ++ after ∧
      ∀ op ∈ before ++ after, ∃ other d' part', d'.id = .ok other ∧ other ≠ id ∧
        planOne d' = .ok part' ∧ op ∈ part' := by
  unfold StoreView.planEach at h
  obtain ⟨parts, hread, rfl⟩ := Except.map_eq_ok.1 h
  obtain ⟨earlier, later, hvalues, hothers⟩ := Table.values_split hd
  rw [readEach_eq, documents, hvalues] at hread
  obtain ⟨before, part, after, rfl, hpart, hplanned⟩ := List.mapM_append_cons_ok hread
  refine ⟨before.flatten, part, after.flatten, hpart, by simp, fun op hop => ?_⟩
  rw [← List.flatten_append] at hop
  obtain ⟨part', hin, hmem⟩ := List.mem_flatten.1 hop
  obtain ⟨d', hd', hpart'⟩ := hplanned part' hin
  obtain ⟨other, hne, hother⟩ := hothers d' hd'
  exact ⟨other, d', part', hk name other d' hother, hne, hpart', hmem⟩

/-- A plan that moves documents leaves only documents with a property, if every document that stays
has it and every document that moves gets it. -/
theorem planEach_moves {move : Document → Except StepError Transaction}
    {P : String → Document → Prop} (hk : s.Keyed)
    (hmove : ∀ d part, move d = .ok part → ∃ id, d.id = .ok id ∧ ((part = [] ∧ P id d) ∨
      ∃ newId body, part = relocate name id name newId body ∧ P newId (.inserted newId body)))
    (h : s.view.planEach name move = .ok ops) (hexec : ops.execute s.find? = .ok docs) :
    ∀ id d, docs name id = some d → P id d := by
  refine Transaction.execute_moves hexec (fun op hop => ?_) fun id d hd hno => ?_
  · obtain ⟨-, d, part, -, hpart, hmem⟩ := planEach_ok_of_mem h hop
    obtain ⟨id, -, ⟨rfl, -⟩ | ⟨newId, body, rfl, hbody⟩⟩ := hmove d part hpart
    · exact absurd hmem List.not_mem_nil
    · rcases List.mem_cons.1 hmem with rfl | hlast
      · exact Or.inl ⟨id, rfl⟩
      · exact Or.inr ⟨newId, body, List.mem_singleton.1 hlast, hbody⟩
  · obtain ⟨before, part, after, hpart, rfl, -⟩ := planEach_split hk hd h
    obtain ⟨own, hown, hshape⟩ := hmove d part hpart
    rw [hk name id d hd] at hown
    cases hown
    rcases hshape with ⟨-, hP⟩ | ⟨newId, body, rfl, -⟩
    · exact hP
    · exact absurd (by simp [relocate]) hno

/-- A plan that edits documents leaves the edited ones, and those that it has no edit for. Other
collections may have changed since it was made. -/
theorem planEach_edited {editFor : Document → Except StepError Transaction} (hk : s.Keyed)
    (hedit : EditsWithin name editFor)
    (h : s.view.planEach name editFor = .ok ops) (hstart : start name = s.find? name)
    (hexec : ops.execute start = .ok docs) {d' : Document} (hd' : docs name id = some d') :
    ∃ d, s.find? name id = some d ∧ ((editFor d = .ok [] ∧ d' = d) ∨
      ∃ u, editFor d = .ok [.update name id u] ∧ u.execute d = .ok d') := by
  have hown : ∀ {id d part}, d.id = .ok id → editFor d = .ok part →
      part = [] ∨ ∃ u, part = [.update name id u] := by
    intro id d part hid hpart
    obtain ⟨other, hother, hshape⟩ := hedit hpart
    rw [hid] at hother
    cases hother
    exact hshape
  have hupdates : ∀ op ∈ ops, op.kind = .update := by
    intro op hop
    obtain ⟨other, d, part, hd, hpart, hmem⟩ := planEach_ok_of_mem h hop
    rcases hown (hk name other d hd) hpart with rfl | ⟨u, rfl⟩
    · exact absurd hmem List.not_mem_nil
    · rw [List.mem_singleton.1 hmem]
      rfl
  have hsome : (docs name id).isSome = (start name id).isSome :=
    Transaction.isSome_execute_of_updates hexec (fun op hop _ => hupdates op hop) id
  rw [hd', Option.isSome_some, hstart, eq_comm, Option.isSome_iff_exists] at hsome
  obtain ⟨d, hd⟩ := hsome
  obtain ⟨before, part, after, hpart, rfl, hothers⟩ := planEach_split hk hd h
  have hapart : ∀ op ∈ before ++ after, ¬(op.collection = name ∧ op.id = id) := by
    intro op hop
    obtain ⟨other, e, part', hid, hne, hpart', hmem⟩ := hothers op hop
    rcases hown hid hpart' with rfl | ⟨u, rfl⟩
    · exact absurd hmem List.not_mem_nil
    · rw [List.mem_singleton.1 hmem]
      exact fun hplace => hne hplace.2
  refine ⟨d, hd, ?_⟩
  rcases hown (hk name id d hd) hpart with rfl | ⟨u, rfl⟩
  · rw [List.append_nil] at hexec
    have hsame := Transaction.execute_untouched hexec hapart
    rw [hd', hstart, hd] at hsame
    exact Or.inl ⟨hpart, Option.some.inj hsame⟩
  · rw [List.append_assoc] at hexec
    obtain ⟨e, e', he, hu, he'⟩ := Transaction.execute_update_once hexec hapart
    rw [hstart, hd] at he
    rw [hd'] at he'
    cases he
    cases he'
    exact Or.inr ⟨u, hpart, hu⟩

/-- Such a plan leaves only documents with a property, if every document without an edit has it and
every edit brings it about. -/
theorem planEach_edits {editFor : Document → Except StepError Transaction} {P : Document → Prop}
    (hk : s.Keyed)
    (hedit : ∀ d part, editFor d = .ok part → ∃ id, d.id = .ok id ∧ ((part = [] ∧ P d) ∨
      ∃ u, part = [.update name id u] ∧ ∀ d', u.execute d = .ok d' → P d'))
    (h : s.view.planEach name editFor = .ok ops) (hexec : ops.execute s.find? = .ok docs) :
    ∀ id d, docs name id = some d → P d := by
  intro id d' hd'
  have hshape : EditsWithin name editFor := by
    intro d part hpart
    obtain ⟨id, hid, ⟨hnone, -⟩ | ⟨u, hone, -⟩⟩ := hedit d part hpart
    · exact ⟨id, hid, Or.inl hnone⟩
    · exact ⟨id, hid, Or.inr ⟨u, hone⟩⟩
  obtain ⟨d, hd, ⟨hpart, rfl⟩ | ⟨u, hpart, hu⟩⟩ := planEach_edited hk hshape h rfl hexec hd'
  · obtain ⟨_, -, ⟨-, hP⟩ | ⟨u, hone, -⟩⟩ := hedit _ _ hpart
    · exact hP
    · cases hone
  · obtain ⟨_, -, ⟨hnone, -⟩ | ⟨u', hone, hP⟩⟩ := hedit _ _ hpart
    · cases hnone
    · cases hone
      exact hP d' hu

end Snapshot

namespace FieldEdit

variable {s : Snapshot} {r : FieldEdit} {name id : String} {ops : Transaction} {docs : Documents}

theorem collection_of_mem_planEach {view : StoreView} (h : (view.planEach name fun d =>
      (r.updateFor name d).map fun op => [op]) = .ok ops) {op : Operation} (hop : op ∈ ops) :
    op.collection = name := by
  obtain ⟨d, part, hpart, hmem⟩ := StoreView.planEach_ok_of_mem h hop
  obtain ⟨only, honly, rfl⟩ := Except.map_eq_ok.1 hpart
  obtain ⟨id, u, -, -, rfl⟩ := updateFor_spec honly
  rw [List.mem_singleton.1 hmem]
  rfl

/-- After a field edit of several collections, every document of theirs is the updated one. -/
theorem edited (hk : s.Keyed) (hnodup : r.collections.Nodup) (hname : name ∈ r.collections)
    (h : r.plan s.view = .ok ops) (hexec : ops.execute s.find? = .ok docs) {d' : Document}
    (hd' : docs name id = some d') :
    ∃ d u, s.find? name id = some d ∧ extendAll d r.actions .empty = .ok u ∧
      u.execute d = .ok d' := by
  obtain ⟨parts, hparts, rfl⟩ := Except.map_eq_ok.1 h
  obtain ⟨earlier, later, hsplit⟩ := List.append_of_mem hname
  rw [hsplit] at hparts hnodup
  obtain ⟨before, part, after, rfl, hpart, hothers⟩ := List.mapM_append_cons_ok hparts
  have hfresh : name ∉ earlier ++ later := by
    have hperm : (earlier ++ name :: later).Perm (name :: (earlier ++ later)) := List.perm_middle
    exact (List.nodup_cons.1 (hperm.nodup_iff.1 hnodup)).1
  have hother : ∀ op ∈ before.flatten ++ after.flatten, op.collection ≠ name := by
    intro op hop he
    rw [← List.flatten_append] at hop
    obtain ⟨piece, hpiece, hmem⟩ := List.mem_flatten.1 hop
    obtain ⟨other, hin, hplan⟩ := hothers piece hpiece
    rw [collection_of_mem_planEach hplan hmem] at he
    exact hfresh (he ▸ hin)
  -- only the middle part is about this collection
  rw [List.flatten_append, List.flatten_cons] at hexec
  obtain ⟨reached, hfirst, hexec⟩ := Transaction.execute_append_ok.1 hexec
  obtain ⟨between, hmiddle, hlast⟩ := Transaction.execute_append_ok.1 hexec
  have hstart : reached name = s.find? name := funext fun id =>
    Transaction.execute_untouched hfirst fun op hop hplace =>
      hother op (List.mem_append_left _ hop) hplace.1
  have hend : docs name id = between name id :=
    Transaction.execute_untouched hlast fun op hop hplace =>
      hother op (List.mem_append_right _ hop) hplace.1
  rw [hend] at hd'
  obtain ⟨d, hd, ⟨hplan, -⟩ | ⟨u, hplan, hu⟩⟩ :=
    Snapshot.planEach_edited hk (r.editsWithin name) hpart hstart hmiddle hd'
  · obtain ⟨op, -, hnone⟩ := Except.map_eq_ok.1 hplan
    cases hnone
  · obtain ⟨op, hop, hone⟩ := Except.map_eq_ok.1 hplan
    obtain ⟨_, u', -, hu', rfl⟩ := updateFor_spec hop
    cases hone
    exact ⟨d, u, hd, hu', hu⟩

end FieldEdit
end FleetUpgrade
