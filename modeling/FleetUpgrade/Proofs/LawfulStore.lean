import FleetUpgrade.Proofs.FailedApply
import FleetUpgrade.Proofs.WriteFailures

/-! # Stores that obey their calls

What a changing call makes of the contents of a store is what the snapshot's own
operation makes of them, also when the call fails: a journal is carried out as far
as it goes, and a collection that is dropped is gone although the file may not say
so. A transaction is carried out as a whole or not at all, but it may be carried
out and fail all the same, when a store in a file writes the record and then
cannot write the outcome.

Where nothing but an obstacle keeps a file from being written, that does not
happen. A disk as it is modelled here is without faults of its own: once the
record went through, nothing stands at the place that is written, the directory is
open, and so the outcome goes through as well. On such a disk a transaction that
fails was not carried out. A disk that is full at the second write, or that fails
then for another reason, is not covered by this.
-/

namespace FleetUpgrade

open TransactionalStore (contents)

/-! ## However snapshots are written -/

/-- Stores whose changing calls do to the contents what the snapshot's operations do, whatever the
calls answer, except that a transaction may be left out. -/
class AtomicStore (σ : Type) [DocumentStore σ] [TransactionalStore σ] : Prop where
  apply_whole (ops : Transaction) (store : σ) (disk : Disk) :
    contents (DocumentStore.apply ops store disk).store = contents store ∨
      (contents store).apply ops = .ok (contents (DocumentStore.apply ops store disk).store)
  resume_contents (store : σ) (disk : Disk) :
    contents (DocumentStore.resume store disk).store = (contents store).resume.2
  drop_contents (name : String) (store : σ) (disk : Disk) :
    contents (DocumentStore.drop name store disk).store = (contents store).dropCollection name

instance : AtomicStore WritingStore where
  apply_whole ops s disk := by
    change (FileStore.applyWith s.write ops s.file disk).store.snapshot = s.file.snapshot ∨
      s.file.snapshot.apply ops =
        .ok (FileStore.applyWith s.write ops s.file disk).store.snapshot
    rcases FileStore.applyWith_snapshot s.write s.file disk ops with ⟨-, hsame⟩ | ⟨-, hsettled⟩
    · exact Or.inl hsame
    · rw [hsettled]
      cases happly : s.file.snapshot.apply ops with
      | error refused => exact Or.inl (FileStore.settled_of_error happly)
      | ok next => exact Or.inr (by rw [FileStore.settled_of_ok happly])
  resume_contents s disk := FileStore.resumeWith_snapshot s.write s.file disk
  drop_contents name s disk := FileStore.dropWith_snapshot s.write name s.file disk

/-! ## Writing again -/

/-- A file that was written and moved over another can be written and moved again. -/
theorem Disk.Replaceable.again {d written moved : Disk} {source target : String}
    {contents : ByteArray} (hapart : d.place source ≠ d.place target)
    (hwrite : d.write? source contents = some written)
    (hmove : written.rename? source target = some moved) : moved.Replaceable source target := by
  obtain ⟨loc, hloc, -⟩ := write?_spec hwrite
  obtain rfl := locate_eq_place hloc
  have hspares := spares_write? hwrite hapart
  have hsource : written.place source = d.place source := place_of_here hspares.here source
  have htarget : written.place target = d.place target := place_of_here hspares.here target
  have hne : written.place target ≠ written.place source := by
    rw [hsource, htarget]
    exact Ne.symm hapart
  have hgone := entry?_source_of_rename? hmove hne
  obtain ⟨old, new, number, file, mode, hold, hnew, hstands, -, hopen, hopen', hmoved⟩ :=
    rename?_spec hmove
  obtain rfl := locate_eq_place hold
  obtain rfl := locate_eq_place hnew
  have hplain : written.isDirectory (written.place source) = false :=
    isDirectory_eq_false (by simp [hstands])
  have hroot : written.place source ≠ .root := ne_root_of_plain hplain
  have hroot' : written.place target ≠ .root := place_ne_root_of_rename? hmove
  -- directories are spared whatever location is asked about, so the root will do
  have hspared : Spares .root written moved := spares_rename? hmove hroot hroot'
  have hhere : moved.here = written.here := hspared.here
  have hclosed : moved.closed = written.closed := by rw [hmoved]; rfl
  have hthere : moved.fileAt (written.place target) = some (number, file, mode) := by
    rw [hmoved]
    exact fileAt_withEntry hroot' number mode file
  refine ⟨?_, ?_, ?_, ?_, ?_, ?_, ?_, ?_⟩
  · rw [place_of_here hhere, locate_mono hhere hspared.directories hold]
  · rw [place_of_here hhere, locate_mono hhere hspared.directories hnew]
  · rw [place_of_here hhere, place_of_here hhere]
    exact Ne.symm hne
  · rw [place_of_here hhere, mayChange, hclosed]
    exact hopen
  · rw [place_of_here hhere, mayChange, hclosed]
    exact hopen'
  · rw [place_of_here hhere]
    exact isDirectory_eq_false (by simp [hgone])
  · rw [place_of_here hhere]
    exact plain_of_fileAt hthere
  · rw [place_of_here hhere, fileAt_source_of_rename? hmove hne]
    rintro stands ⟨⟩

namespace FileStore

/-- Where a snapshot was written, any other can be written next: the disk has no faults of its own. -/
theorem persist_again {path : String} {s : Snapshot} {disk replaced : Disk}
    (h : persist path s disk = (.ok (), replaced)) (next : Snapshot) :
    ∃ after, persist path next replaced = (.ok (), after) := by
  obtain ⟨written, hwrite, hmove⟩ := persist_spec h
  obtain ⟨_, new, _, _, _, -, hnew, -⟩ := Disk.rename?_spec hmove
  have hapart : disk.place (temporaryPath path) ≠ disk.place path := by
    -- only a path that may stand for a file is moved to
    have hfile : FilePath.namesDirectory path = false := by
      unfold Disk.locate at hnew
      split at hnew
      · cases hnew
      · next hno =>
          simp only [Bool.or_eq_true, not_or, Bool.not_eq_true] at hno
          exact hno.1
    exact place_temporaryPath disk hfile
  have hready : replaced.Replaceable (temporaryPath path) path := .again hapart hwrite hmove
  obtain ⟨after, hafter, -⟩ := persist_of_replaceable hready next
  exact ⟨after, hafter⟩

/-- On a disk without faults a transaction that fails was not carried out: its record could not be
written, or the snapshot refuses it. -/
theorem apply_refused {ops : Transaction} {f : FileStore} {disk : Disk} {e : StoreError}
    (h : (apply ops f disk).result = .error e) : (apply ops f disk).store.snapshot = f.snapshot := by
  unfold apply at h ⊢
  rcases applyWith_snapshot (persist f.path) f disk ops with ⟨-, hsame⟩ | ⟨hrecord, hsettled⟩
  · exact hsame
  · rw [hsettled]
    cases happly : f.snapshot.apply ops with
    | error refused => exact settled_of_error happly
    | ok s =>
        have hrecorded : persist f.path (f.snapshot.stage ops) disk = (.ok (), _) :=
          Prod.ext hrecord rfl
        obtain ⟨after, hsettle⟩ := persist_again hrecorded s
        unfold applyWith at h
        rw [hrecorded] at h
        simp [happly, hsettle] at h

end FileStore

/-! ## Without faults of the disk -/

/-- Stores whose changing calls do to the contents what the snapshot's operations do, whether they
succeed or not, and whose transactions are not carried out when they fail. -/
class LawfulStore (σ : Type) [DocumentStore σ] extends TransactionalStore σ where
  apply_refused {ops : Transaction} {store : σ} {disk : Disk} {e : StoreError}
    (h : (DocumentStore.apply ops store disk).result = .error e) :
    contents (DocumentStore.apply ops store disk).store = contents store
  resume_contents (store : σ) (disk : Disk) :
    contents (DocumentStore.resume store disk).store = (contents store).resume.2
  resume_ok {store : σ} {disk : Disk} (h : (DocumentStore.resume store disk).result = .ok ()) :
    ∃ n, (contents store).resume.1 = .ok n
  drop_contents (name : String) (store : σ) (disk : Disk) :
    contents (DocumentStore.drop name store disk).store = (contents store).dropCollection name
  drop_error {name : String} {store : σ} {disk : Disk} {e : StoreError}
    (h : (DocumentStore.drop name store disk).result = .error e) : ∃ file, e = .io file

instance : LawfulStore MemoryStore where
  apply_refused {ops m disk e} h := by
    change (MemoryStore.apply ops m disk).result = _ at h
    change (MemoryStore.apply ops m disk).store.snapshot = m.snapshot
    unfold MemoryStore.apply at h ⊢
    cases happly : m.snapshot.apply ops with
    | error refused => rfl
    | ok s => simp [happly] at h
  resume_contents _ _ := rfl
  resume_ok h := by
    obtain ⟨n, hn, -⟩ := Except.map_eq_ok.1 h
    exact ⟨n, hn⟩
  drop_contents _ _ _ := rfl
  drop_error h := by cases h

-- by `persist_again`, so only because the disk has no faults of its own: `WritingStore` is without
-- this law
instance : LawfulStore FileStore where
  apply_refused h := FileStore.apply_refused h
  resume_contents f disk := FileStore.resumeWith_snapshot (FileStore.persist f.path) f disk
  resume_ok h := by
    obtain ⟨n, hn⟩ := SnapshotStore.resume_ok h
    exact ⟨n, congrArg Prod.fst hn⟩
  drop_contents name f disk := FileStore.dropWith_snapshot (FileStore.persist f.path) name f disk
  drop_error {name f disk e} h := by
    change (FileStore.dropWith (FileStore.persist f.path) name f disk).result = _ at h
    unfold FileStore.dropWith at h
    split at h
    · exact FileStore.persist_error (Prod.ext h rfl)
    · cases h

instance {σ : Type} [DocumentStore σ] [LawfulStore σ] : LawfulStore (FaultyStore σ) where
  apply_refused {ops f disk e} h := by
    simp only [DocumentStore.apply] at h ⊢
    by_cases hfails : f.faults.applyFails = true
    · rw [if_pos hfails]
      rfl
    · rw [if_neg hfails] at h ⊢
      exact LawfulStore.apply_refused h
  resume_contents f disk := LawfulStore.resume_contents f.inner disk
  resume_ok {f disk} h := by
    change (DocumentStore.resume f.inner disk).result = _ at h
    exact LawfulStore.resume_ok h
  drop_contents name f disk := LawfulStore.drop_contents name f.inner disk
  drop_error {name f disk e} h := by
    change (DocumentStore.drop name f.inner disk).result = _ at h
    exact LawfulStore.drop_error h

instance {σ : Type} [DocumentStore σ] [LawfulStore σ] : AtomicStore σ where
  apply_whole ops store disk := by
    cases hresult : (DocumentStore.apply ops store disk).result with
    | error e => exact Or.inl (LawfulStore.apply_refused hresult)
    | ok => exact Or.inr (TransactionalStore.apply_ok hresult)
  resume_contents := LawfulStore.resume_contents
  drop_contents := LawfulStore.drop_contents

end FleetUpgrade
