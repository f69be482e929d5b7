import FleetUpgrade.Proofs.Keyed
import FleetUpgrade.Proofs.WriteFailures

/-! # No call takes a document from its id

A snapshot is changed by putting a document, by transactions, by staging and
resuming them, and by dropping collections. Whatever the calls are and however
they end, documents that stood under their ids still do; of a journal that is
refused, this is so of the part that was carried out.
-/

namespace FleetUpgrade

inductive SnapshotCall where
  | put (collection : String) (d : Document)
  | apply (ops : Transaction)
  | stage (ops : Transaction)
  | resume
  | drop (collection : String)

namespace SnapshotCall

/-- The snapshot after a call. A refused document or transaction leaves it as it was. -/
def run (s : Snapshot) : SnapshotCall → Snapshot
  | .put collection d => (s.put collection d).toOption.getD s
  | .apply ops => (s.apply ops).toOption.getD s
  | .stage ops => s.stage ops
  | .resume => s.resume.2
  | .drop collection => s.dropCollection collection

def runAll (s : Snapshot) (calls : List SnapshotCall) : Snapshot := calls.foldl run s

end SnapshotCall

namespace Snapshot

theorem keyed_empty : empty.Keyed := by decide

theorem Keyed.put {s s' : Snapshot} {collection : String} {d : Document} (hk : s.Keyed)
    (h : s.put collection d = .ok s') : s'.Keyed := by
  unfold Snapshot.put at h
  cases hid : d.id with
  | error e => simp [hid] at h
  | ok i =>
      simp only [hid, Except.ok.injEq] at h
      subst h
      intro name id found hfound
      unfold find? Collections.find? at hfound
      rw [Transaction.collection_insert] at hfound
      by_cases hname : collection = name
      · rw [if_pos hname, Table.get?_insert] at hfound
        by_cases hplace : i = id
        · -- the document was put under the id that it names itself
          rw [if_pos hplace] at hfound
          cases hfound
          rw [hid, hplace]
        · rw [if_neg hplace] at hfound
          exact hk collection id found hfound
      · rw [if_neg hname] at hfound
        exact hk name id found hfound

theorem Keyed.stage {s : Snapshot} (hk : s.Keyed) (ops : Transaction) : (s.stage ops).Keyed := hk

theorem keyed_resumeFrom {cs : Collections} (journal : List Transaction)
    (hk : Documents.Keyed cs.find?) : (resumeFrom cs journal).2.Keyed := by
  induction journal generalizing cs with
  | nil => exact hk
  | cons ops rest ih =>
      unfold resumeFrom
      cases happly : ops.applyTo cs with
      | error refused => exact hk
      | ok cs' =>
          have hone : (Snapshot.mk cs []).apply ops = .ok ⟨cs', []⟩ := by
            unfold Snapshot.apply
            rw [happly]
          have hbefore : (Snapshot.mk cs []).Keyed := hk
          exact ih (hbefore.apply hone)

theorem Keyed.resume {s : Snapshot} (hk : s.Keyed) : s.resume.2.Keyed :=
  keyed_resumeFrom s.pending hk

theorem Keyed.run {s : Snapshot} (hk : s.Keyed) (call : SnapshotCall) : (call.run s).Keyed := by
  cases call with
  | put collection d =>
      cases h : s.put collection d with
      | error refused => simpa [SnapshotCall.run, h, Except.toOption] using hk
      | ok s' => simpa [SnapshotCall.run, h, Except.toOption] using hk.put h
  | apply ops =>
      cases h : s.apply ops with
      | error refused => simpa [SnapshotCall.run, h, Except.toOption] using hk
      | ok s' => simpa [SnapshotCall.run, h, Except.toOption] using hk.apply h
  | stage ops => exact hk.stage ops
  | resume => exact hk.resume
  | drop collection => exact hk.dropCollection collection

/-- From documents that stand under their ids no run of calls leads to one that does not. -/
theorem keyed_after_calls {s : Snapshot} (hk : s.Keyed) (calls : List SnapshotCall) :
    (SnapshotCall.runAll s calls).Keyed := by
  induction calls generalizing s with
  | nil => exact hk
  | cons call calls ih => exact ih (hk.run call)

/-- Attempts on ids: by the body of an insertion, by paths that are the id's, lead through it or
are empty, and by a journal of which the second transaction is refused. -/
def attempts : List SnapshotCall :=
  [.put "machines" ⟨[("_id", .string "0")]⟩, .put "machines" ⟨[("_id", .int 7)]⟩,
    .apply [.insert "machines" "1" ⟨[("_id", .string "0"), ("series", .string "xenial")]⟩],
    .apply [.update "machines" "0" (Update.empty.setting "_id.x" (.string "1"))],
    .apply [.update "machines" "0" (Update.empty.setting "" (.string "1"))],
    .stage [.update "machines" "1" ((Update.empty.setting "life" .null).clearing "_id.x")],
    .stage [.remove "machines" "0", .update "machines" "1" (Update.empty.clearing "_id")],
    .resume]

theorem keyed_after_attempts :
    empty.Keyed ∧ (SnapshotCall.runAll empty attempts).Keyed ∧
      (SnapshotCall.runAll empty attempts).documents "machines" =
        [⟨[("_id", .string "0")]⟩,
          ⟨[("_id", .string "1"), ("series", .string "xenial"), ("life", .null)]⟩] :=
  ⟨keyed_empty, keyed_after_calls keyed_empty attempts, by rfl⟩

end Snapshot

/-! ## Stores in files -/

theorem StoreChange.keyed_effect {f : FileStore} (hk : f.snapshot.Keyed) (call : StoreChange) :
    (call.effect f).Keyed := by
  cases call with
  | apply ops =>
      change (f.settled ops).Keyed
      cases h : f.snapshot.apply ops with
      | error refused => rwa [FileStore.settled_of_error h]
      | ok s =>
          rw [FileStore.settled_of_ok h]
          exact hk.apply h
  | stage ops => exact hk.stage ops
  | resume => exact hk.resume
  | drop collection => exact hk.dropCollection collection

/-- A store in a file keeps its documents under their ids, whichever of its writes fail. -/
theorem StoreChange.keyed_runWith {write : FileStore.Writing} {f : FileStore} {disk : Disk}
    (hk : f.snapshot.Keyed) (call : StoreChange) :
    (call.runWith write f disk).store.snapshot.Keyed := by
  rcases FileStore.snapshot_runWith write f disk call with ⟨-, hsame⟩ | ⟨-, heffect⟩
  · rwa [hsame]
  · rw [heffect]
    exact StoreChange.keyed_effect hk call

end FleetUpgrade
