import FleetUpgrade.Plan.Step
import FleetUpgrade.Proofs.AtomicWrite
import FleetUpgrade.Proofs.Effects
import FleetUpgrade.Proofs.Except

/-! # Stores that are one snapshot

To its readers a store in memory or in a file is a snapshot, and a changing call
that succeeds does to it what the snapshot's own operation does. The class says
this once for both, together with the files whose contents such a call may alter.
-/

namespace FleetUpgrade

def Snapshot.view (s : Snapshot) : StoreView := ⟨s.scan, s.find, s.count⟩

theorem Snapshot.resume_of_empty {s : Snapshot} (h : s.pending = []) : s.resume = (.ok 0, s) := by
  obtain ⟨cs, pending⟩ := s
  subst h
  rfl

/-- A call that, when it succeeds, alters the contents of no file but the store's own ones and keeps
which files these are. -/
def Outcome.Discreet {σ : Type} (files : σ → List String) (call : σ → Disk → Outcome σ) : Prop :=
  ∀ store disk, (call store disk).result = .ok () →
    files (call store disk).store = files store ∧
      ∀ loc, (∀ file ∈ files store, disk.place file ≠ loc) →
        Disk.Keeps loc disk (call store disk).disk

/-- Stores that are one snapshot. -/
class SnapshotStore (σ : Type) [DocumentStore σ] where
  snapshot : σ → Snapshot
  /-- the files that hold the store's contents -/
  files : σ → List String
  view_eq (store : σ) : DocumentStore.view store = (snapshot store).view
  apply_ok {ops : Transaction} {store : σ} {disk : Disk}
    (h : (DocumentStore.apply ops store disk).result = .ok ()) :
    (snapshot store).apply ops = .ok (snapshot (DocumentStore.apply ops store disk).store)
  resume_ok {store : σ} {disk : Disk} (h : (DocumentStore.resume store disk).result = .ok ()) :
    ∃ n, (snapshot store).resume = (.ok n, snapshot (DocumentStore.resume store disk).store)
  drop_ok {name : String} {store : σ} {disk : Disk}
    (h : (DocumentStore.drop name store disk).result = .ok ()) :
    snapshot (DocumentStore.drop name store disk).store = (snapshot store).dropCollection name
  apply_discreet (ops : Transaction) : Outcome.Discreet files (DocumentStore.apply ops)
  resume_discreet : Outcome.Discreet files DocumentStore.resume
  drop_discreet (name : String) : Outcome.Discreet files (DocumentStore.drop name)

/-! ## In memory -/

namespace MemoryStore

theorem apply_result {ops : Transaction} {m : MemoryStore} {disk : Disk}
    (h : (apply ops m disk).result = .ok ()) :
    m.snapshot.apply ops = .ok (apply ops m disk).store.snapshot := by
  unfold apply at h ⊢
  cases hs : m.snapshot.apply ops with
  | error e => simp [hs] at h
  | ok s => rfl

theorem apply_of_refused {ops : Transaction} {m : MemoryStore} {disk : Disk} {e : StoreError}
    (h : m.snapshot.apply ops = .error e) : apply ops m disk = ⟨.error e, m, disk⟩ := by
  unfold apply
  rw [h]

theorem resume_result {m : MemoryStore} {disk : Disk} (h : (resume m disk).result = .ok ()) :
    ∃ n, m.snapshot.resume = (.ok n, (resume m disk).store.snapshot) := by
  obtain ⟨n, hn, -⟩ := Except.map_eq_ok.1 h
  exact ⟨n, Prod.ext hn rfl⟩

instance : SnapshotStore MemoryStore where
  snapshot := snapshot
  files _ := []
  view_eq _ := rfl
  apply_ok h := apply_result h
  resume_ok h := resume_result h
  drop_ok _ := rfl
  apply_discreet ops m disk h := by
    refine ⟨rfl, fun loc _ => ?_⟩
    change Disk.Keeps loc disk (apply ops m disk).disk
    unfold apply
    cases m.snapshot.apply ops with
    | error e => exact Disk.Keeps.refl loc disk
    | ok s => exact Disk.Keeps.refl loc disk
  resume_discreet _ disk _ := ⟨rfl, fun loc _ => Disk.Keeps.refl loc disk⟩
  drop_discreet _ _ disk _ := ⟨rfl, fun loc _ => Disk.Keeps.refl loc disk⟩

end MemoryStore

/-! ## In a file -/

namespace FileStore

theorem persist_error {path : String} {s : Snapshot} {disk after : Disk} {e : StoreError}
    (h : persist path s disk = (.error e, after)) : ∃ file, e = .io file := by
  unfold persist at h
  split at h
  · cases h
    exact ⟨_, rfl⟩
  · split at h
    · cases h
      exact ⟨_, rfl⟩
    · cases h

theorem persist_keeps {path : String} {s : Snapshot} {disk replaced : Disk} {loc : Location}
    (h : persist path s disk = (.ok (), replaced)) (hne : disk.place path ≠ loc) :
    Disk.Keeps loc disk replaced := by
  obtain ⟨written, hwrite, hmove⟩ := persist_spec h
  exact Disk.keeps_replace hwrite hmove hne

/-- A transaction is applied when both writes succeed and the snapshot takes it. -/
theorem apply_spec {ops : Transaction} {f : FileStore} {disk : Disk}
    (h : (apply ops f disk).result = .ok ()) :
    ∃ s recorded after, persist f.path (f.snapshot.stage ops) disk = (.ok (), recorded) ∧
      f.snapshot.apply ops = .ok s ∧ persist f.path s recorded = (.ok (), after) ∧
      apply ops f disk = ⟨.ok (), ⟨f.path, s⟩, after⟩ := by
  unfold apply applyWith at h ⊢
  split at h
  · cases h
  · next recorded hrecord =>
      split at h
      · split at h <;> cases h
      · next s hs =>
          split at h
          · cases h
          · next after hsettle =>
              exact ⟨s, recorded, after, hrecord, hs, hsettle, rfl⟩

/-- A transaction that the snapshot refuses leaves the store, whatever comes of the writes. -/
theorem applyWith_of_refused {write : Writing} {ops : Transaction} {f : FileStore} {disk : Disk}
    {e : StoreError} (h : f.snapshot.apply ops = .error e) :
    (applyWith write ops f disk).store = f := by
  unfold applyWith
  split
  · rfl
  · simp only [h]
    split <;> rfl

/-- A journal is resumed when the snapshot takes all of it and what it leaves is written. -/
theorem resume_spec {f : FileStore} {disk : Disk} (h : (resume f disk).result = .ok ()) :
    (f.snapshot.pending = [] ∧ resume f disk = ⟨.ok (), f, disk⟩) ∨
      ∃ n s after, f.snapshot.resume = (.ok n, s) ∧ persist f.path s disk = (.ok (), after) ∧
        resume f disk = ⟨.ok (), ⟨f.path, s⟩, after⟩ := by
  unfold resume resumeWith at h ⊢
  split at h
  · next hnone => exact Or.inl ⟨hnone, if_pos hnone⟩
  · next hsome =>
      rw [if_neg hsome]
      dsimp only at h ⊢
      split at h
      · cases h
      · next after hwrite =>
          obtain ⟨n, hn, -⟩ := Except.map_eq_ok.1 h
          refine Or.inr ⟨n, _, after, Prod.ext hn rfl, hwrite, ?_⟩
          simp only [hn, Except.map]

theorem dropWith_snapshot (write : Writing) (name : String) (f : FileStore) (disk : Disk) :
    (dropWith write name f disk).store.snapshot = f.snapshot.dropCollection name := by
  unfold dropWith
  split
  · rfl
  · next habsent =>
      have hnone : f.snapshot.collections.get? name = none := by
        simpa [Table.contains] using habsent
      unfold Snapshot.dropCollection
      rw [Table.erase_of_absent hnone]

theorem apply_keeps {ops : Transaction} {f : FileStore} {disk : Disk} {loc : Location}
    (h : (apply ops f disk).result = .ok ()) (hne : disk.place f.path ≠ loc) :
    Disk.Keeps loc disk (apply ops f disk).disk := by
  obtain ⟨s, recorded, after, hrecord, -, hsettle, hdone⟩ := apply_spec h
  have hfirst := persist_keeps hrecord hne
  rw [hdone]
  refine hfirst.trans (persist_keeps hsettle ?_)
  rwa [Disk.place_of_here hfirst.here]

theorem resume_keeps {f : FileStore} {disk : Disk} {loc : Location}
    (h : (resume f disk).result = .ok ()) (hne : disk.place f.path ≠ loc) :
    Disk.Keeps loc disk (resume f disk).disk := by
  rcases resume_spec h with ⟨-, hdone⟩ | ⟨n, s, after, -, hwrite, hdone⟩
  · rw [hdone]
    exact Disk.Keeps.refl loc disk
  · rw [hdone]
    exact persist_keeps hwrite hne

theorem drop_keeps {name : String} {f : FileStore} {disk : Disk} {loc : Location}
    (h : (drop name f disk).result = .ok ()) (hne : disk.place f.path ≠ loc) :
    Disk.Keeps loc disk (drop name f disk).disk := by
  unfold drop dropWith at h ⊢
  split
  · next hthere =>
      rw [if_pos hthere] at h
      exact persist_keeps (Prod.ext h rfl) hne
  · exact Disk.Keeps.refl loc disk

instance : SnapshotStore FileStore where
  snapshot := snapshot
  files f := [f.path]
  view_eq _ := rfl
  apply_ok {ops f disk} h := by
    obtain ⟨s, recorded, after, -, hs, -, hdone⟩ := apply_spec h
    change f.snapshot.apply ops = Except.ok (apply ops f disk).store.snapshot
    rw [hdone, hs]
  resume_ok {f disk} h := by
    change ∃ n, f.snapshot.resume = (Except.ok n, (resume f disk).store.snapshot)
    rcases resume_spec h with ⟨hnone, hdone⟩ | ⟨n, s, after, hs, -, hdone⟩
    · rw [hdone]
      exact ⟨0, Snapshot.resume_of_empty hnone⟩
    · rw [hdone]
      exact ⟨n, hs⟩
  drop_ok {name f disk} _ := dropWith_snapshot (persist f.path) name f disk
  apply_discreet ops f disk h := by
    obtain ⟨s, recorded, after, -, -, -, hdone⟩ := apply_spec h
    have hpath : (apply ops f disk).store.path = f.path := by rw [hdone]
    exact ⟨congrArg (fun path => [path]) hpath, fun loc hloc => apply_keeps h (hloc _ (by simp))⟩
  resume_discreet f disk h := by
    have hpath : (resume f disk).store.path = f.path := by
      rcases resume_spec h with ⟨-, hdone⟩ | ⟨n, s, after, -, -, hdone⟩
      · rw [hdone]
      · rw [hdone]
    exact ⟨congrArg (fun path => [path]) hpath, fun loc hloc => resume_keeps h (hloc _ (by simp))⟩
  drop_discreet name f disk h := by
    have hpath : (drop name f disk).store.path = f.path := by
      unfold drop dropWith
      split <;> rfl
    exact ⟨congrArg (fun path => [path]) hpath, fun loc hloc => drop_keeps h (hloc _ (by simp))⟩

end FileStore

/-- Whether a step has a plan, and a store in memory takes it, can be tried out. -/
theorem Step.exists_taken_plan (step : Step) (store : MemoryStore) (vars : Variables)
    (h : ((step.plan (DocumentStore.view store) .empty vars).toOption.any fun planned =>
      (DocumentStore.apply planned.1.transaction store .empty).result.isOk) = true) :
    ∃ plan vars', step.plan (DocumentStore.view store) .empty vars = .ok (plan, vars') ∧
      (DocumentStore.apply plan.transaction store .empty).result = .ok () := by
  obtain ⟨⟨plan, vars'⟩, hplan, htaken⟩ := exists_ok_of_any h
  obtain ⟨_, hdone⟩ := exists_ok_of_isOk htaken
  exact ⟨plan, vars', hplan, hdone⟩

end FleetUpgrade
