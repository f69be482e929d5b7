import FleetUpgrade.Proofs.StoreCalls

/-! # Calls whose write fails

The changing calls of a store in a file alter the snapshot in memory before they
write it. Only applying a transaction undoes that, and only when the record of
the transaction could not be written: after any other failed write, memory holds
what the call would have left if it had been written.

A call may write twice and either write may fail, so nothing is assumed here
about how snapshots are written.
-/

namespace FleetUpgrade

def StoreChange.runWith (write : FileStore.Writing) :
    StoreChange → FileStore → Disk → Outcome FileStore
  | .apply ops => FileStore.applyWith write ops
  | .stage ops => FileStore.stageWith write ops
  | .resume => FileStore.resumeWith write
  | .drop collection => FileStore.dropWith write collection

theorem StoreChange.run_eq_runWith (call : StoreChange) (f : FileStore) (disk : Disk) :
    call.run f disk = call.runWith (FileStore.persist f.path) f disk := by
  cases call <;> simp only [StoreChange.run, StoreChange.runWith] <;> rfl

/-- The snapshot that a call puts in memory and in the file when all its writes succeed. -/
def StoreChange.effect : StoreChange → FileStore → Snapshot
  | .apply ops, f => f.settled ops
  | .stage ops, f => f.snapshot.stage ops
  | .resume, f => f.snapshot.resume.2
  | .drop collection, f => f.snapshot.dropCollection collection

/-- Whether a call is given up before it does anything. -/
def StoreChange.GivenUp (write : FileStore.Writing) : StoreChange → FileStore → Disk → Prop
  | .apply ops, f, disk => (write (f.snapshot.stage ops) disk).1 ≠ .ok ()
  | _, _, _ => False

namespace Snapshot

theorem stage_ne_self (s : Snapshot) (ops : Transaction) : s.stage ops ≠ s := by
  intro h
  have hlength := congrArg (fun t => t.pending.length) h
  simp [stage] at hlength

theorem dropCollection_ne_self {s : Snapshot} {name : String}
    (h : s.collections.contains name = true) : s.dropCollection name ≠ s := by
  intro hsame
  have hgone : (s.dropCollection name).collections.contains name = false := by
    simp [dropCollection, Table.contains, Table.get?_erase]
  rw [hsame, h] at hgone
  cases hgone

theorem length_pending_resumeFrom_le (cs : Collections) (journal : List Transaction) :
    (resumeFrom cs journal).2.pending.length ≤ journal.length := by
  induction journal generalizing cs with
  | nil => simp [resumeFrom]
  | cons ops rest ih =>
      unfold resumeFrom
      cases ops.applyTo cs with
      | error e => simp
      | ok cs' =>
          have hrest := ih cs'
          simp only [List.length_cons]
          omega

theorem resume_eq_self_iff {s : Snapshot} (hsome : s.pending ≠ []) :
    s.resume.2 = s ↔
      ∃ ops rest refused, s.pending = ops :: rest ∧ s.apply ops = .error refused := by
  obtain ⟨cs, journal⟩ := s
  cases journal with
  | nil => exact absurd rfl hsome
  | cons ops rest =>
      unfold resume resumeFrom
      cases happly : ops.applyTo cs with
      | error refused =>
          refine iff_of_true rfl ⟨ops, rest, refused, rfl, ?_⟩
          simp only [apply, happly]
      | ok cs' =>
          refine iff_of_false (fun hsame => ?_) ?_
          · -- the transaction at the head left the journal
            have hle := length_pending_resumeFrom_le cs' rest
            rw [show (resumeFrom cs' rest).2 = _ from hsame, List.length_cons] at hle
            omega
          · rintro ⟨ops', rest', refused, hpending, hrefused⟩
            obtain ⟨rfl, -⟩ := List.cons.inj hpending
            simp [apply, happly] at hrefused

end Snapshot

namespace FileStore

section

variable (write : Writing) (f : FileStore) (disk : Disk)

/-- A transaction is given up when its record is not written, and otherwise carried out in memory
before the outcome is written. -/
theorem applyWith_snapshot (ops : Transaction) :
    ((write (f.snapshot.stage ops) disk).1 ≠ .ok () ∧
        (applyWith write ops f disk).store.snapshot = f.snapshot) ∨
      ((write (f.snapshot.stage ops) disk).1 = .ok () ∧
        (applyWith write ops f disk).store.snapshot = f.settled ops) := by
  unfold applyWith
  cases hrecord : write (f.snapshot.stage ops) disk with
  | mk result recorded =>
      cases result with
      | error e => exact Or.inl ⟨nofun, rfl⟩
      | ok =>
          refine Or.inr ⟨rfl, ?_⟩
          cases happly : f.snapshot.apply ops with
          | error refused =>
              rw [settled_of_error happly]
              simp only []
              split <;> rfl
          | ok s =>
              rw [settled_of_ok happly]
              simp only []
              split <;> rfl

/-- A transaction fails and changes documents all the same just when its record is written, it has an
effect, and its outcome is not written. -/
theorem failed_applyWith_changes_iff (ops : Transaction) :
    ((applyWith write ops f disk).result ≠ .ok () ∧
        (applyWith write ops f disk).store.snapshot.find? ≠ f.snapshot.find?) ↔
      ∃ recorded s, write (f.snapshot.stage ops) disk = (.ok (), recorded) ∧
        f.snapshot.apply ops = .ok s ∧ (write s recorded).1 ≠ .ok () ∧
        s.find? ≠ f.snapshot.find? := by
  unfold applyWith
  cases hrecord : write (f.snapshot.stage ops) disk with
  | mk result recorded =>
      cases result with
      | error e => simp
      | ok =>
          cases happly : f.snapshot.apply ops with
          | error refused =>
              simp only []
              split <;> simp
          | ok s =>
              cases hsettle : write s recorded with
              | mk last settled => cases last <;> simp [hsettle]

theorem resumeWith_snapshot :
    (resumeWith write f disk).store.snapshot = f.snapshot.resume.2 := by
  unfold resumeWith
  split
  · next hnone => rw [Snapshot.resume_of_empty hnone]
  · simp only []
    split <;> rfl

/-- Apart from a transaction that is given up, memory holds the effect of a call however its writes
went. -/
theorem snapshot_runWith (call : StoreChange) :
    (call.GivenUp write f disk ∧ (call.runWith write f disk).store.snapshot = f.snapshot) ∨
      (¬call.GivenUp write f disk ∧
        (call.runWith write f disk).store.snapshot = call.effect f) := by
  cases call with
  | apply ops =>
      rcases applyWith_snapshot write f disk ops with h | h
      · exact Or.inl h
      · exact Or.inr ⟨fun hno => hno h.1, h.2⟩
  | stage ops => exact Or.inr ⟨id, rfl⟩
  | resume => exact Or.inr ⟨id, resumeWith_snapshot write f disk⟩
  | drop name => exact Or.inr ⟨id, dropWith_snapshot write name f disk⟩

variable {write f disk}

theorem pending_ne_nil_of_resumeWith_io {file : String}
    (h : (resumeWith write f disk).result = .error (.io file)) : f.snapshot.pending ≠ [] := by
  intro hnone
  rw [resumeWith, if_pos hnone] at h
  cases h

theorem contains_of_dropWith_io {name file : String}
    (h : (dropWith write name f disk).result = .error (.io file)) :
    f.snapshot.collections.contains name = true := by
  by_contra habsent
  rw [dropWith, if_neg habsent] at h
  cases h

/-- A call whose write failed left the store as it was just when it applied a transaction that was
given up or has no effect, or when it resumed a journal whose first transaction is refused. -/
theorem unchanged_of_failed_write_iff {file : String} (call : StoreChange)
    (h : (call.runWith write f disk).result = .error (.io file)) :
    (call.runWith write f disk).store.snapshot = f.snapshot ↔
      match call with
      | .apply ops => (write (f.snapshot.stage ops) disk).1 ≠ .ok () ∨ f.settled ops = f.snapshot
      | .stage _ => False
      | .resume =>
          ∃ ops rest refused, f.snapshot.pending = ops :: rest ∧
            f.snapshot.apply ops = .error refused
      | .drop _ => False := by
  have hholds := snapshot_runWith write f disk call
  cases call with
  | apply ops =>
      rcases hholds with ⟨hno, hsnapshot⟩ | ⟨hyes, hsnapshot⟩
      · exact iff_of_true hsnapshot (Or.inl hno)
      · rw [hsnapshot]
        exact (or_iff_right hyes).symm
  | stage ops => exact iff_of_false (Snapshot.stage_ne_self f.snapshot ops) id
  | resume =>
      rcases hholds with ⟨hno, -⟩ | ⟨-, hsnapshot⟩
      · exact hno.elim
      · rw [hsnapshot]
        exact Snapshot.resume_eq_self_iff (pending_ne_nil_of_resumeWith_io h)
  | drop name =>
      rcases hholds with ⟨hno, -⟩ | ⟨-, hsnapshot⟩
      · exact hno.elim
      · rw [hsnapshot]
        exact iff_of_false (Snapshot.dropCollection_ne_self (contains_of_dropWith_io h)) id

end

/-- Without its directory nothing can be recorded for an empty store, yet memory has the record. -/
theorem unchanged_of_failed_write_iff_stage :
    ((StoreChange.stage []).runWith (persist emptyStore.path) emptyStore
        (.ofDirectories [])).result = .error (.io (temporaryPath emptyStore.path)) ∧
      ((StoreChange.stage []).runWith (persist emptyStore.path) emptyStore
        (.ofDirectories [])).store.snapshot ≠ emptyStore.snapshot := by
  have hfails : ((StoreChange.stage []).runWith (persist emptyStore.path) emptyStore
      (.ofDirectories [])).result = .error (.io (temporaryPath emptyStore.path)) := rfl
  exact ⟨hfails, (unchanged_of_failed_write_iff (.stage []) hfails).1⟩

/-- Failed writes do not leave every store as it was. -/
theorem failed_write_may_change :
    ¬∀ (call : StoreChange) (f : FileStore) (disk : Disk) (file : String),
      (call.run f disk).result = .error (.io file) →
        (call.run f disk).store.snapshot = f.snapshot := by
  intro hall
  have hsame := hall (.stage []) emptyStore (.ofDirectories []) (temporaryPath emptyStore.path) rfl
  exact Snapshot.stage_ne_self emptyStore.snapshot [] hsame

end FileStore
end FleetUpgrade
