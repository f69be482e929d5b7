import FleetUpgrade.Proofs.SnapshotStore
import FleetUpgrade.Run.Runner
import FleetUpgrade.Store.Faulty

/-! # What a failed transaction leaves

A transaction is put to the store first and recorded afterwards, one record for
each operation. A refusal by the store therefore leaves no record. A refusal by
the audit sink comes when the store has the transaction and the sink has the
records of the operations before; nothing of that is taken back.
-/

namespace FleetUpgrade

/-! ## The store -/

/-- Stores whose contents a transaction changes as a whole, and not at all when it is refused for
another reason than a write that failed. -/
class TransactionalStore (σ : Type) [DocumentStore σ] where
  contents : σ → Snapshot
  apply_ok {ops : Transaction} {store : σ} {disk : Disk}
    (h : (DocumentStore.apply ops store disk).result = .ok ()) :
    (contents store).apply ops = .ok (contents (DocumentStore.apply ops store disk).store)
  apply_error {ops : Transaction} {store : σ} {disk : Disk} {e : StoreError}
    (h : (DocumentStore.apply ops store disk).result = .error e) (hdata : ∀ file, e ≠ .io file) :
    contents (DocumentStore.apply ops store disk).store = contents store

instance : TransactionalStore MemoryStore where
  contents := MemoryStore.snapshot
  apply_ok h := MemoryStore.apply_result h
  apply_error {ops m disk e} h _ := by
    change (MemoryStore.apply ops m disk).result = _ at h
    change (MemoryStore.apply ops m disk).store.snapshot = m.snapshot
    unfold MemoryStore.apply at h ⊢
    cases happly : m.snapshot.apply ops with
    | error refused => rfl
    | ok s => simp [happly] at h

/-- A way to write snapshots can only fail by the file system. -/
def FileStore.Writing.FailsByIo (write : FileStore.Writing) : Prop :=
  ∀ ⦃s : Snapshot⦄ ⦃disk : Disk⦄ ⦃e : StoreError⦄, (write s disk).1 = .error e →
    ∃ file, e = .io file

theorem FileStore.persist_failsByIo (path : String) : Writing.FailsByIo (persist path) :=
  fun _ _ _ h => persist_error (Prod.ext h rfl)

theorem FileStore.applyWith_error {write : Writing} (hwrite : write.FailsByIo) {ops : Transaction}
    {f : FileStore} {disk : Disk} {e : StoreError}
    (h : (applyWith write ops f disk).result = .error e) (hdata : ∀ file, e ≠ .io file) :
    (applyWith write ops f disk).store.snapshot = f.snapshot := by
  unfold applyWith at h ⊢
  cases hrecord : write (f.snapshot.stage ops) disk with
  | mk result recorded =>
      cases result with
      | error e => rfl
      | ok =>
          simp only [hrecord] at h ⊢
          cases happly : f.snapshot.apply ops with
          | error refused =>
              simp only []
              split <;> rfl
          | ok s =>
              -- what is left to fail is the last write
              simp only [happly] at h
              split at h
              · next hsettle =>
                  obtain ⟨file, rfl⟩ := hwrite (congrArg Prod.fst hsettle)
                  cases h
                  exact absurd rfl (hdata file)
              · cases h

instance : TransactionalStore FileStore where
  contents := FileStore.snapshot
  apply_ok h := SnapshotStore.apply_ok h
  apply_error {_ f _ _} h hdata :=
    FileStore.applyWith_error (FileStore.persist_failsByIo f.path) h hdata

/-- A store in a file that is told how to write its snapshots, so that any of its writes may fail on
its own. With `FileStore.persist` it is the store in a file as it is. -/
structure WritingStore where
  file : FileStore
  write : FileStore.Writing
  failsByIo : write.FailsByIo

namespace WritingStore

def passed (s : WritingStore) (o : Outcome FileStore) : Outcome WritingStore :=
  ⟨o.result, { s with file := o.store }, o.disk⟩

instance : DocumentStore WritingStore where
  names s := DocumentStore.names s.file
  scan s := DocumentStore.scan s.file
  find s := DocumentStore.find s.file
  count s := DocumentStore.count s.file
  apply ops s disk := s.passed (FileStore.applyWith s.write ops s.file disk)
  resume s disk := s.passed (FileStore.resumeWith s.write s.file disk)
  drop name s disk := s.passed (FileStore.dropWith s.write name s.file disk)

theorem apply_result {ops : Transaction} {s : WritingStore} {disk : Disk}
    (h : (DocumentStore.apply ops s disk).result = .ok ()) :
    s.file.snapshot.apply ops = .ok (DocumentStore.apply ops s disk).store.file.snapshot := by
  simp only [DocumentStore.apply, passed, FileStore.applyWith] at h ⊢
  split at h
  · cases h
  · split at h
    · split at h <;> cases h
    · split at h
      · cases h
      · assumption

instance : TransactionalStore WritingStore where
  contents s := s.file.snapshot
  apply_ok h := apply_result h
  apply_error {_ s _ _} h hdata := FileStore.applyWith_error s.failsByIo h hdata

end WritingStore

instance {σ : Type} [DocumentStore σ] [TransactionalStore σ] :
    TransactionalStore (FaultyStore σ) where
  contents f := TransactionalStore.contents f.inner
  apply_ok {ops f disk} h := by
    simp only [DocumentStore.apply] at h ⊢
    split at h
    · cases h
    · next hfine =>
        rw [if_neg hfine]
        exact TransactionalStore.apply_ok h
  apply_error {ops f disk e} h hdata := by
    simp only [DocumentStore.apply] at h ⊢
    split at h
    · next hfails => rw [if_pos hfails]
    · next hfine =>
        rw [if_neg hfine]
        exact TransactionalStore.apply_error h hdata

/-! ## The sink -/

/-- A tee that refuses a record stops at the sink that did: the sinks before it keep the record, and
those after it never see it. -/
theorem AuditTee.recordEach_refused {α : Type} [AuditSink α] {r : AuditRecord} {sinks left : List α}
    {disk after : Disk} (h : recordEach r sinks disk = (false, left, after)) :
    ∃ before sink rest before' between sink', sinks = before ++ sink :: rest ∧
      left = before' ++ sink' :: rest ∧ recordEach r before disk = (true, before', between) ∧
      AuditSink.record r sink between = (false, sink', after) := by
  induction sinks generalizing left disk with
  | nil => cases h
  | cons sink sinks ih =>
      unfold recordEach at h
      split at h
      · next sink' between hrecord =>
          cases h
          exact ⟨[], sink, sinks, [], disk, sink', rfl, rfl, rfl, hrecord⟩
      · next sink' between hrecord =>
          simp only [Prod.mk.injEq] at h
          obtain ⟨hresult, rfl, hdisk⟩ := h
          have hrest : recordEach r sinks between =
              (false, (recordEach r sinks between).2.1, after) :=
            Prod.ext hresult (Prod.ext rfl hdisk)
          obtain ⟨before, refusing, rest, before', between', refused, hsinks, hleft, htook, hno⟩ :=
            ih hrest
          refine ⟨sink :: before, refusing, rest, sink' :: before', between', refused, ?_, ?_, ?_,
            hno⟩
          · rw [hsinks, List.cons_append]
          · rw [hleft, List.cons_append]
          · simp only [recordEach, hrecord, htook]

namespace Site

variable {σ α : Type}

theorem forEach_error {ι ε : Type} {act : ι → Site σ α → Except ε Unit × Site σ α}
    {items : List ι} {site after : Site σ α} {e : ε}
    (h : forEach act items site = (.error e, after)) :
    ∃ done item rest reached, items = done ++ item :: rest ∧
      forEach act done site = (.ok (), reached) ∧ act item reached = (.error e, after) := by
  induction items generalizing site with
  | nil => cases h
  | cons item items ih =>
      unfold forEach at h
      split at h
      · next hact =>
          cases h
          exact ⟨[], item, items, site, rfl, rfl, hact⟩
      · next hact =>
          obtain ⟨done, failing, rest, reached, rfl, hdone, hfails⟩ := ih h
          refine ⟨item :: done, failing, rest, reached, rfl, ?_, hfails⟩
          simp only [forEach, hact, hdone]

theorem forEach_store {ι ε : Type} {act : ι → Site σ α → Except ε Unit × Site σ α}
    (hact : ∀ item site, (act item site).2.store = site.store) (items : List ι) (site : Site σ α) :
    (forEach act items site).2.store = site.store := by
  induction items generalizing site with
  | nil => rfl
  | cons item items ih =>
      have hone := hact item site
      unfold forEach
      split
      · next hitem =>
          rw [hitem] at hone
          exact hone
      · next hitem =>
          rw [hitem] at hone
          rw [ih, hone]

section

variable [AuditSink α]

theorem record_store (op : Operation) (site : Site σ α) :
    (record op site).2.store = site.store := by
  unfold record
  split <;> rfl

theorem record_error {op : Operation} {site after : Site σ α} {e : RunnerError}
    (h : record op site = (.error e, after)) : e = .audit := by
  unfold record at h
  split at h
  · cases h
  · cases h
    rfl

/-- The records of the operations before one were taken in order, and that one's was refused. -/
def StopsRecording (ops : Transaction) (before after : Site σ α) : Prop :=
  ∃ done op rest reached, ops = done ++ op :: rest ∧
    forEach record done before = (.ok (), reached) ∧ record op reached = (.error .audit, after)

theorem stopsRecording {ops : Transaction} {site after : Site σ α} {e : RunnerError}
    (h : forEach record ops site = (.error e, after)) :
    e = .audit ∧ StopsRecording ops site after ∧ after.store = site.store := by
  obtain ⟨done, op, rest, reached, hops, hdone, hrefused⟩ := forEach_error h
  obtain rfl := record_error hrefused
  have hstore := forEach_store record_store ops site
  rw [h] at hstore
  exact ⟨rfl, ⟨done, op, rest, reached, hops, hdone, hrefused⟩, hstore⟩

end

theorem record_taken {op : Operation} {site after : Site σ}
    (h : record op site = (.ok (), after)) :
    after.audit.records = site.audit.records ++ [.ofOperation op] := by
  simp only [record, AuditSink.record, AuditLog.record?] at h
  split at h
  · next htaken =>
      cases h
      split at htaken
      · next hsome =>
          cases htaken
          split at hsome
          · cases hsome
          · split at hsome <;> (cases hsome; rfl)
      · cases htaken
  · cases h

theorem record_refused {op : Operation} {site after : Site σ} {e : RunnerError}
    (h : record op site = (.error e, after)) : after.audit = site.audit := by
  simp only [record, AuditSink.record] at h
  split at h
  · cases h
  · next hrefused =>
      cases h
      split at hrefused
      · cases hrefused
      · cases hrefused
        rfl

theorem forEach_record_records {ops : Transaction} {site after : Site σ}
    (h : forEach record ops site = (.ok (), after)) :
    after.audit.records = site.audit.records ++ ops.map .ofOperation := by
  induction ops generalizing site with
  | nil =>
      cases h
      simp
  | cons op ops ih =>
      unfold forEach at h
      split at h
      · cases h
      · next reached hrecord =>
          rw [ih h, record_taken hrecord]
          simp

/-- A log that stops recording gained one record for each operation before the refused one. -/
theorem StopsRecording.records {ops : Transaction} {before after : Site σ}
    (h : StopsRecording ops before after) :
    ∃ done op rest, ops = done ++ op :: rest ∧
      after.audit.records = before.audit.records ++ done.map .ofOperation := by
  obtain ⟨done, op, rest, reached, hops, hdone, hrefused⟩ := h
  refine ⟨done, op, rest, hops, ?_⟩
  rw [record_refused hrefused, forEach_record_records hdone]

/-! ## The transaction -/

variable [DocumentStore σ] [TransactionalStore σ] [AuditSink α]

open TransactionalStore (contents)

/-- A transaction that the store refuses leaves no record, and leaves the store as it was unless a
write failed. One that is refused by the sink was carried out as a whole in a live run, and is
recorded up to the operation that was refused. -/
theorem apply_failed {mode : RunMode} {ops : Transaction} {site after : Site σ α} {e : RunnerError}
    (h : site.apply mode ops = (.error e, after)) :
    match e with
    | .store cause =>
        mode = .live ∧ after.audit = site.audit ∧
          ((∀ file, cause ≠ .io file) → contents after.store = contents site.store)
    | .audit =>
        (match mode with
          | .preview => after.store = site.store
          | .live => (contents site.store).apply ops = .ok (contents after.store)) ∧
        ∃ before : Site σ α, before.audit = site.audit ∧ StopsRecording ops before after
    | .file _ => False := by
  unfold apply at h
  split at h
  · cases h
  · cases mode with
    | preview =>
        obtain ⟨rfl, hstops, hstore⟩ := stopsRecording h
        exact ⟨hstore, site, rfl, hstops⟩
    | live =>
        simp only [change] at h
        cases hresult : (DocumentStore.apply ops site.store site.disk).result with
        | error cause =>
            simp only [hresult, Except.mapError, Prod.mk.injEq, Except.error.injEq] at h
            obtain ⟨rfl, rfl⟩ := h
            exact ⟨rfl, rfl, TransactionalStore.apply_error hresult⟩
        | ok =>
            simp only [hresult, Except.mapError] at h
            obtain ⟨rfl, hstops, hstore⟩ := stopsRecording h
            refine ⟨?_, _, ?_, hstops⟩
            · rw [hstore]
              exact TransactionalStore.apply_ok hresult
            · rfl

def twoMachines : Transaction :=
  [.insert "machines" "0" ⟨[]⟩, .insert "machines" "1" ⟨[]⟩]

def crampedSite : Site MemoryStore :=
  ⟨⟨.empty⟩, .ofDirectories [], ⟨[], some 1, none⟩⟩

/-- Both machines are there, and one of them is recorded. -/
theorem apply_failed_two_machines :
    ∃ after, crampedSite.apply .live twoMachines = (.error .audit, after) ∧
      (contents crampedSite.store).apply twoMachines = .ok (contents after.store) ∧
      ∃ before : Site MemoryStore, before.audit = crampedSite.audit ∧
        StopsRecording twoMachines before after := by
  have hfails : crampedSite.apply .live twoMachines =
      (.error .audit, (crampedSite.apply .live twoMachines).2) := rfl
  exact ⟨_, hfails, apply_failed hfails⟩

/-- A transaction that fails does not leave every store and log as they were. -/
theorem failed_apply_may_change :
    ¬∀ (mode : RunMode) (ops : Transaction) (site after : Site MemoryStore) (e : RunnerError),
      site.apply mode ops = (.error e, after) →
        after.store.snapshot = site.store.snapshot ∧ after.audit.records = site.audit.records := by
  intro hall
  have hsame :=
    hall .live twoMachines crampedSite (crampedSite.apply .live twoMachines).2 .audit rfl
  have hcount := congrArg List.length hsame.2
  revert hcount
  decide

end Site
end FleetUpgrade
