import FleetUpgrade.Proofs.PreviewParity
import FleetUpgrade.Proofs.RunInvariants

/-! # Live steps as changes of snapshots

What a live run does to the store is what its plans do to the snapshot, each
planned on what the plans before it left. `Taken` says this without the site, so
that a property of the final store can be followed from the step that
establishes it. A collection that the other steps keep away from is, around that
step, what it was at the start and what it is at the end.
-/

namespace FleetUpgrade

open SnapshotStore (snapshot)

/-! ## Carrying plans out -/

/-- A snapshot of a store follows its calls: what they do to the store when they succeed, the
snapshot's own operations do to the snapshot. -/
structure DocumentStore.FollowedBy {σ : Type} [DocumentStore σ] (held : σ → Snapshot) : Prop where
  apply_ok {ops : Transaction} {store : σ} {disk : Disk}
    (h : (DocumentStore.apply ops store disk).result = .ok ()) :
    (held store).apply ops = .ok (held (DocumentStore.apply ops store disk).store)
  drop_ok {name : String} {store : σ} {disk : Disk}
    (h : (DocumentStore.drop name store disk).result = .ok ()) :
    held (DocumentStore.drop name store disk).store = (held store).dropCollection name

theorem SnapshotStore.followed {σ : Type} [DocumentStore σ] [SnapshotStore σ] :
    DocumentStore.FollowedBy (snapshot (σ := σ)) :=
  ⟨SnapshotStore.apply_ok, SnapshotStore.drop_ok⟩

theorem AtomicStore.followed {σ : Type} [DocumentStore σ] [TransactionalStore σ] [AtomicStore σ] :
    DocumentStore.FollowedBy (TransactionalStore.contents (σ := σ)) :=
  ⟨TransactionalStore.apply_ok, fun _ => AtomicStore.drop_contents _ _ _⟩

section

variable {σ : Type} [DocumentStore σ] {held : σ → Snapshot} {site site' : Site σ}

theorem Site.apply_live_ok (hheld : DocumentStore.FollowedBy held) {ops : Transaction}
    (h : site.apply .live ops = (.ok (), site')) :
    (held site.store).apply ops = .ok (held site'.store) ∧
      site'.audit.records = site.audit.records ++ ops.map .ofOperation := by
  unfold Site.apply at h
  split at h
  · next hnone =>
      cases h
      rw [List.isEmpty_iff.1 hnone]
      exact ⟨rfl, by simp⟩
  · simp only [Site.change] at h
    cases hresult : (DocumentStore.apply ops site.store site.disk).result with
    | error e => simp [hresult, Except.mapError] at h
    | ok =>
        simp only [hresult, Except.mapError] at h
        have hrecords := Site.forEach_record_records h
        -- recording the operations leaves the store alone
        have hstore := congrArg (fun result => result.2.store) h
        simp only [Site.forEach_store Site.record_store] at hstore
        rw [← hstore]
        exact ⟨hheld.apply_ok hresult, hrecords⟩

theorem Site.drop_live_ok (hheld : DocumentStore.FollowedBy held) {name : String}
    (h : site.drop .live name = (.ok (), site')) :
    held site'.store = (held site.store).dropCollection name ∧ site'.audit = site.audit := by
  simp only [Site.drop, Site.change] at h
  cases hresult : (DocumentStore.drop name site.store site.disk).result with
  | error e => simp [hresult, Except.mapError] at h
  | ok =>
      simp only [hresult, Except.mapError, Prod.mk.injEq] at h
      rw [← h.2]
      exact ⟨hheld.drop_ok hresult, rfl⟩

theorem Site.forEach_drop_live_ok (hheld : DocumentStore.FollowedBy held) {names : List String}
    (h : site.forEach (Site.drop .live) names = (.ok (), site')) :
    held site'.store = names.foldl Snapshot.dropCollection (held site.store) ∧
      site'.audit = site.audit := by
  induction names generalizing site with
  | nil =>
      cases h
      exact ⟨rfl, rfl⟩
  | cons name names ih =>
      obtain ⟨between, hdrop, hrest⟩ := Site.forEach_cons_ok.1 h
      obtain ⟨hstore, haudit⟩ := Site.drop_live_ok hheld hdrop
      have hall := ih hrest
      rw [hstore, haudit] at hall
      exact hall

/-- A plan that was carried out did to the snapshot of the store what it does to snapshots, and its
operations were recorded. -/
theorem StepPlan.execute_live_ok (hheld : DocumentStore.FollowedBy held) {plan : StepPlan}
    (h : plan.execute .live site = (.ok (), site')) :
    plan.applyTo (held site.store) = .ok (held site'.store) ∧
      site'.audit.records = site.audit.records ++ plan.transaction.map .ofOperation := by
  have hfiles := Site.forEach_writeFile .live plan.files site
  unfold StepPlan.execute at h
  split at h
  · cases h
  · next written hwritten =>
      rw [hwritten] at hfiles
      split at h
      · cases h
      · next applied happly =>
          obtain ⟨hops, hrecords⟩ := Site.apply_live_ok hheld happly
          obtain ⟨hdropped, haudit⟩ := Site.forEach_drop_live_ok hheld h
          rw [hfiles.1] at hops
          rw [hfiles.2] at hrecords
          exact ⟨applyTo_ok_iff.2 ⟨_, hops, hdropped.symm⟩, by rw [haudit, hrecords]⟩

end

/-! ## Taking steps -/

/-- Steps that were taken one after another, from one snapshot to another. -/
inductive Taken : List Step → Snapshot → Snapshot → Prop where
  | nil (s : Snapshot) : Taken [] s s
  | cons {step : Step} {steps : List Step} {s between s' : Snapshot} {plan : StepPlan} {disk : Disk}
      {vars vars' : Variables} (hplan : step.plan s.view disk vars = .ok (plan, vars'))
      (happly : plan.applyTo s = .ok between) (hrest : Taken steps between s') :
      Taken (step :: steps) s s'

theorem Migration.taken_of_takeSteps {σ : Type} [DocumentStore σ] [SnapshotStore σ]
    {steps : List Step} {vars : Variables} {site : Site σ} {reports : List StepReport}
    (h : (takeSteps .live steps vars site).result = .ok reports) :
    Taken steps (snapshot site.store) (snapshot (takeSteps .live steps vars site).site.store) := by
  induction steps generalizing vars site reports with
  | nil => exact .nil _
  | cons step steps ih =>
      obtain ⟨plan, vars', site', rest, hplan, hexecute, hrest, -⟩ := takeSteps_cons_ok h
      have hlast : (takeSteps .live (step :: steps) vars site).site =
          (takeSteps .live steps vars' site').site := by
        rw [takeSteps_cons steps hplan hexecute]
      rw [hlast]
      rw [SnapshotStore.view_eq] at hplan
      exact .cons hplan (StepPlan.execute_live_ok SnapshotStore.followed hexecute).1 (ih hrest)

def Step.Confined (step : Step) (names : List String) : Prop :=
  ∀ ⦃view : StoreView⦄ ⦃disk : Disk⦄ ⦃vars vars' : Variables⦄ ⦃plan : StepPlan⦄,
    step.plan view disk vars = .ok (plan, vars') →
      (∀ op ∈ plan.transaction, op.collection ∈ names) ∧ plan.droppedCollections ⊆ names

def Step.Avoids (step : Step) (name : String) : Prop :=
  ∀ ⦃view : StoreView⦄ ⦃disk : Disk⦄ ⦃vars vars' : Variables⦄ ⦃plan : StepPlan⦄,
    step.plan view disk vars = .ok (plan, vars') →
      (∀ op ∈ plan.transaction, op.collection ≠ name) ∧ name ∉ plan.droppedCollections

theorem Step.Confined.avoids {step : Step} {names : List String} {name : String}
    (h : step.Confined names) (hname : name ∉ names) : step.Avoids name := by
  intro view disk vars vars' plan hplan
  obtain ⟨hops, hdrops⟩ := h hplan
  exact ⟨fun op hop he => hname (he ▸ hops op hop), fun hin => hname (hdrops hin)⟩

theorem Snapshot.find?_congr {s s' : Snapshot} {name : String}
    (h : s'.collections.get? name = s.collections.get? name) : s'.find? name = s.find? name := by
  funext id
  unfold find? Collections.find? Collections.collection
  rw [h]

theorem Snapshot.get?_foldl_dropCollection (s : Snapshot) (names : List String) (name : String) :
    (names.foldl dropCollection s).collections.get? name =
      if name ∈ names then none else s.collections.get? name := by
  induction names generalizing s with
  | nil => rfl
  | cons dropped names ih =>
      rw [List.foldl_cons, ih, dropCollection, Table.get?_erase]
      by_cases hname : name ∈ names
      · simp [hname]
      · by_cases hdropped : dropped = name
        · simp [hdropped]
        · simp [hname, hdropped, Ne.symm hdropped]

theorem StepPlan.applyTo_other {plan : StepPlan} {s s' : Snapshot} {name : String}
    (h : plan.applyTo s = .ok s') (hops : ∀ op ∈ plan.transaction, op.collection ≠ name)
    (hdrops : name ∉ plan.droppedCollections) :
    s'.collections.get? name = s.collections.get? name := by
  obtain ⟨between, happly, rfl⟩ := applyTo_ok_iff.1 h
  have hfirst := (Snapshot.apply_ok happly).2.untouched name hops
  rw [← hfirst, Snapshot.get?_foldl_dropCollection, if_neg hdrops]

namespace Taken

variable {steps : List Step} {names : List (List String)} {s s' : Snapshot} {name : String}

theorem append {first second : List Step} (h : Taken (first ++ second) s s') :
    ∃ between, Taken first s between ∧ Taken second between s' := by
  induction first generalizing s with
  | nil => exact ⟨s, .nil s, h⟩
  | cons step first ih =>
      cases h with
      | cons hplan happly hrest =>
          obtain ⟨between, hfirst, hsecond⟩ := ih hrest
          exact ⟨between, .cons hplan happly hfirst, hsecond⟩

theorem keyed (h : Taken steps s s') (hk : s.Keyed) : s'.Keyed := by
  induction h with
  | nil => exact hk
  | cons _ happly _ ih => exact ih (StepPlan.applyTo_keyed hk happly)

theorem avoided (h : Taken steps s s') (hno : ∀ step ∈ steps, step.Avoids name) :
    s'.collections.get? name = s.collections.get? name := by
  induction h with
  | nil => rfl
  | cons hplan happly _ ih =>
      obtain ⟨hstep, hsteps⟩ := List.forall_mem_cons.1 hno
      obtain ⟨hops, hdrops⟩ := hstep hplan
      rw [ih hsteps]
      exact StepPlan.applyTo_other happly hops hdrops

theorem other (h : Taken steps s s') (hconfined : List.Forall₂ Step.Confined steps names)
    (hno : ∀ about ∈ names, name ∉ about) :
    s'.collections.get? name = s.collections.get? name := by
  refine h.avoided fun step hstep => ?_
  obtain ⟨about, habout, hstep⟩ := List.exists_of_mem_forall₂ hconfined hstep
  exact hstep.avoids (hno about habout)

/-- The last step that is about a collection leaves it as it is at the end. -/
theorem last (h : Taken steps s s') (hk : s.Keyed)
    (hconfined : List.Forall₂ Step.Confined steps names) (name : String) {n : Nat} {step : Step}
    (hn : steps[n]? = some step) (hafter : ∀ about ∈ names.drop (n + 1), name ∉ about) :
    ∃ before between disk vars vars' plan, Taken (steps.take n) s before ∧ before.Keyed ∧
      step.plan before.view disk vars = .ok (plan, vars') ∧ plan.applyTo before = .ok between ∧
      s'.collections.get? name = between.collections.get? name := by
  have hsplit : steps = steps.take n ++ step :: steps.drop (n + 1) := by
    obtain ⟨hlt, hstep⟩ := List.getElem?_eq_some_iff.1 hn
    rw [← hstep, List.getElem_cons_drop, List.take_append_drop]
  rw [hsplit] at h
  obtain ⟨before, hearlier, hlater⟩ := h.append
  cases hlater with
  | cons hplan happly hrest =>
      have hend := hrest.other (List.forall₂_drop (n + 1) hconfined) hafter
      exact ⟨before, _, _, _, _, _, hearlier, hearlier.keyed hk, hplan, happly, hend⟩

/-- The same for a step that has a transaction alone: the collection holds in the end what carrying
the operations out leaves of it. -/
theorem last_ofTransaction (h : Taken steps s s') (hk : s.Keyed)
    (hconfined : List.Forall₂ Step.Confined steps names) (name : String) {n : Nat}
    {title description : String} {plan : StoreView → Except StepError Transaction}
    (hn : steps[n]? = some (.ofTransaction title description plan))
    (hafter : ∀ about ∈ names.drop (n + 1), name ∉ about) :
    ∃ before ops docs, Taken (steps.take n) s before ∧ before.Keyed ∧
      plan before.view = .ok ops ∧ ops.execute before.find? = .ok docs ∧
      s'.find? name = docs name := by
  obtain ⟨before, between, disk, vars, vars', p, hearlier, hkeyed, hplan, happly, hend⟩ :=
    h.last hk hconfined name hn hafter
  obtain ⟨ops, hops, hp⟩ := Except.map_eq_ok.1 hplan
  cases hp
  obtain ⟨_, hdone, rfl⟩ := StepPlan.applyTo_ok_iff.1 happly
  exact ⟨before, ops, _, hearlier, hkeyed, hops, (Snapshot.apply_ok hdone).1,
    Snapshot.find?_congr hend⟩

end Taken
end FleetUpgrade
