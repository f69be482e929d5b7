import FleetUpgrade.Proofs.Journal
import FleetUpgrade.Proofs.SnapshotStore
import FleetUpgrade.Run.Migration

/-! # What the check before a migration guarantees

The check reads the store as it is opened, and the journal is resumed after it.
So the collections that were found empty are empty for the first step exactly
when carrying the journal out leaves them empty; a journal that inserts into one
of them goes past the check.
-/

namespace FleetUpgrade

theorem Snapshot.count_eq_zero_iff (s : Snapshot) (name : String) :
    s.view.count name = .ok 0 ↔ ∀ id, s.find? name id = none := by
  change Except.ok _ = Except.ok 0 ↔ _
  rw [Except.ok.injEq, Table.size_eq_zero_iff, Table.isEmpty_iff]
  rfl

namespace Migration

theorem checkEmpty_ok_iff (view : StoreView) (names : List String) :
    checkEmpty view names = .ok () ↔ ∀ name ∈ names, view.count name = .ok 0 := by
  induction names with
  | nil => simp [checkEmpty]
  | cons name names ih =>
      rw [List.forall_mem_cons, ← ih, checkEmpty]
      cases view.count name with
      | error e => simp
      | ok n => cases n <;> simp

section
variable {σ : Type} [DocumentStore σ] [SnapshotStore σ]
open SnapshotStore (snapshot)

/-- What a live run has done when its first step is planned. -/
theorem prepare_live_ok {m : Migration} {site ready : Site σ} (hresumes : m.resumes = true)
    (h : m.prepare .live site = (.ok (), ready)) :
    (∀ name ∈ m.precheck, ∀ id, (snapshot site.store).find? name id = none) ∧
      ∃ n, (snapshot site.store).resume = (.ok n, snapshot ready.store) := by
  unfold prepare at h
  cases hcheck : checkEmpty (DocumentStore.view site.store) m.precheck with
  | error e => simp [hcheck] at h
  | ok =>
      simp only [hcheck, hresumes, if_true, Site.resume, Site.change] at h
      have hempty := (checkEmpty_ok_iff _ _).1 hcheck
      rw [SnapshotStore.view_eq] at hempty
      refine ⟨fun name hname => (Snapshot.count_eq_zero_iff _ name).1 (hempty name hname), ?_⟩
      cases hr : (DocumentStore.resume site.store site.disk).result with
      | error e => simp [hr, Except.mapError] at h
      | ok =>
          simp only [hr, Except.mapError, Prod.mk.injEq] at h
          rw [← h.2]
          exact SnapshotStore.resume_ok hr

/-- A live run that succeeds takes its steps from the store as it was, if there is no journal. -/
theorem takeSteps_of_run {m : Migration} {vars : Variables} {site : Site σ}
    {reports : List StepReport} (hresumes : m.resumes = true)
    (hempty : (snapshot site.store).pending = [])
    (h : (m.run .live vars site).result = .ok reports) :
    ∃ ready : Site σ, snapshot ready.store = snapshot site.store ∧
      m.run .live vars site = takeSteps .live m.steps vars ready := by
  unfold run at h ⊢
  split at h
  · cases h
  · next ready hready =>
      obtain ⟨-, n, hresume⟩ := prepare_live_ok hresumes hready
      rw [Snapshot.resume_of_empty hempty] at hresume
      exact ⟨ready, (Prod.mk.inj hresume).2.symm, rfl⟩

/-- A journal that inserts nothing into the checked collections leaves the check in force. -/
theorem prepare_live_stays_empty {m : Migration} {site ready : Site σ}
    (hresumes : m.resumes = true) (hready : m.prepare .live site = (.ok (), ready))
    (hno : ∀ ops ∈ (snapshot site.store).pending, ∀ op ∈ ops,
      op.collection ∈ m.precheck → op.kind ≠ .insert) :
    ∀ name ∈ m.precheck, (DocumentStore.view ready.store).count name = .ok 0 := by
  obtain ⟨hempty, n, hresume⟩ := prepare_live_ok hresumes hready
  have hexec := (Snapshot.resume_ok hresume).2.2
  intro name hname
  rw [SnapshotStore.view_eq]
  refine (Snapshot.count_eq_zero_iff _ name).2 fun id => ?_
  refine Transaction.execute_stays_empty hexec (hempty name hname) (fun op hop hplace => ?_) id
  obtain ⟨ops, hops, hmem⟩ := List.mem_flatten.1 hop
  exact hno ops hops op hmem (hplace ▸ hname)

/-- The checked collections were empty when the run began. For the first step they are empty just
when the operations of the journal, carried out in order, leave no document in them. -/
theorem checked_collections_empty_iff (m : Migration) (vars : Variables) {site ready : Site σ}
    (hresumes : m.resumes = true) (hready : m.prepare .live site = (.ok (), ready)) :
    m.run .live vars site = takeSteps .live m.steps vars ready ∧
      (∀ name ∈ m.precheck, ∀ id, (snapshot site.store).find? name id = none) ∧
      ∃ docs,
        Transaction.execute (snapshot site.store).pending.flatten (snapshot site.store).find? =
          .ok docs ∧
        ((∀ name ∈ m.precheck, (DocumentStore.view ready.store).count name = .ok 0) ↔
          ∀ name ∈ m.precheck, ∀ id, docs name id = none) := by
  obtain ⟨hempty, n, hresume⟩ := prepare_live_ok hresumes hready
  refine ⟨by rw [run, hready], hempty, _, (Snapshot.resume_ok hresume).2.2, ?_⟩
  simp only [SnapshotStore.view_eq, Snapshot.count_eq_zero_iff]

end

def journalSite (journal : List Transaction) : Site MemoryStore :=
  ⟨⟨⟨.empty, journal⟩⟩, .empty, .empty⟩

/-- A journal that puts a cleanup in and takes it out again leaves the cleanups empty. -/
theorem checked_collections_empty_of_settled_journal :
    let m := upgrade .standard
    let site := journalSite [[.insert "cleanups" "c" .empty], [.remove "cleanups" "c"]]
    let ready := (m.prepare .live site).2
    m.resumes = true ∧ m.prepare .live site = (.ok (), ready) ∧
      (∀ name ∈ m.precheck, (DocumentStore.view ready.store).count name = .ok 0) ∧
      ∃ docs,
        Transaction.execute site.store.snapshot.pending.flatten site.store.snapshot.find? =
          .ok docs ∧ ∀ name ∈ m.precheck, ∀ id, docs name id = none := by
  intro m site ready
  have hready : m.prepare .live site = (.ok (), ready) := rfl
  have hcounts : ∀ name ∈ m.precheck, (DocumentStore.view ready.store).count name = .ok 0 :=
    (checkEmpty_ok_iff _ _).1 rfl
  obtain ⟨-, -, docs, hexec, hiff⟩ :=
    checked_collections_empty_iff m (.ofUuid "u") rfl hready
  exact ⟨rfl, hready, hcounts, docs, hexec, hiff.1 hcounts⟩

/-- The check does not guard the steps: a journal can fill a collection that was found empty. -/
theorem journal_fills_checked_collection :
    ¬∀ (m : Migration) (site ready : Site MemoryStore), m.resumes = true →
      m.prepare .live site = (.ok (), ready) →
      ∀ name ∈ m.precheck, (DocumentStore.view ready.store).count name = .ok 0 := by
  intro hguard
  have hcount := hguard (upgrade .standard) (journalSite [[.insert "cleanups" "c" .empty]]) _ rfl
    rfl "cleanups" (by decide)
  cases hcount

end Migration
end FleetUpgrade
