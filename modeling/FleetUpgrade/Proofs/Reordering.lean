import FleetUpgrade.Proofs.CollectionPlans
import FleetUpgrade.Proofs.SnapshotStore
import FleetUpgrade.Sample.Controller

/-! # Transactions in another order

An operation sees its own place only. A transaction whose operations are all about
different places is therefore accepted just if each of them would be accepted alone,
and it leaves at each place what its operation makes of it. The order of the
operations cannot be told from the store afterwards.
-/

namespace FleetUpgrade

theorem Operation.Apart.symm {a b : Operation} (h : a.Apart b) : b.Apart a :=
  fun he => h ⟨he.1.symm, he.2.symm⟩

namespace Transaction

variable {ops ops' : Transaction} {docs docs' : Documents}

/-- Operations on different places do not get in each other's way. -/
theorem execute_ok_iff_each (hapart : ops.Pairwise Operation.Apart) :
    (∃ docs', execute ops docs = .ok docs') ↔
      ∀ op ∈ ops, ∃ done, op.execute docs = .ok done := by
  constructor
  · rintro ⟨docs', h⟩ op hop
    obtain ⟨done, hdone, -⟩ := execute_each hapart h hop
    exact ⟨done, hdone⟩
  · intro hall
    induction ops generalizing docs with
    | nil => exact ⟨docs, rfl⟩
    | cons op ops ih =>
        obtain ⟨hfirst, hrest⟩ := List.pairwise_cons.1 hapart
        obtain ⟨between, hop⟩ := hall op List.mem_cons_self
        have hlater : ∀ other ∈ ops, ∃ done, other.execute between = .ok done := by
          intro other hother
          obtain ⟨done, hdone⟩ := hall other (List.mem_cons_of_mem op hother)
          have hsame : between other.collection other.id = docs other.collection other.id :=
            Operation.execute_other hop (hfirst other hother).symm
          obtain ⟨done', hdone', -⟩ := Operation.execute_congr hsame hdone
          exact ⟨done', hdone'⟩
        obtain ⟨docs', hdocs'⟩ := ih hrest hlater
        exact ⟨docs', execute_cons_ok.2 ⟨between, hop, hdocs'⟩⟩

theorem execute_ok_of_perm (hapart : ops.Pairwise Operation.Apart) (hperm : ops.Perm ops')
    (h : execute ops docs = .ok docs') : execute ops' docs = .ok docs' := by
  have hapart' : ops'.Pairwise Operation.Apart :=
    hperm.pairwise hapart fun hab => Operation.Apart.symm hab
  obtain ⟨other, hother⟩ : ∃ other, execute ops' docs = .ok other := by
    refine (execute_ok_iff_each hapart').2 fun op hop => ?_
    exact (execute_ok_iff_each hapart).1 ⟨docs', h⟩ op (hperm.mem_iff.2 hop)
  have hsame : other = docs' := by
    funext name id
    by_cases hplace : ∃ op ∈ ops, op.collection = name ∧ op.id = id
    · -- both orders leave what the operation on this place makes of it
      obtain ⟨op, hop, rfl, rfl⟩ := hplace
      obtain ⟨done, hdone, hleft⟩ := execute_each hapart h hop
      obtain ⟨done', hdone', hleft'⟩ := execute_each hapart' hother (hperm.mem_iff.1 hop)
      rw [hdone, Except.ok.injEq] at hdone'
      rw [hleft, hleft', hdone']
    · have hno : ∀ op ∈ ops, ¬(op.collection = name ∧ op.id = id) :=
        fun op hop he => hplace ⟨op, hop, he⟩
      have hno' : ∀ op ∈ ops', ¬(op.collection = name ∧ op.id = id) :=
        fun op hop => hno op (hperm.mem_iff.2 hop)
      rw [execute_untouched h hno, execute_untouched hother hno']
  rw [hother, hsame]

end Transaction

namespace Snapshot

/-- A snapshot is known by its documents, by the names of its collections and by its journal. -/
theorem ext_find? {s t : Snapshot} (hdocs : s.find? = t.find?)
    (hnames : ∀ name, s.collections.contains name = t.collections.contains name)
    (hpending : s.pending = t.pending) : s = t := by
  have hcollections : s.collections = t.collections := by
    refine Table.ext_get? fun name => ?_
    have hname := hnames name
    have hfind : ∀ id, s.find? name id = t.find? name id := fun id => by rw [hdocs]
    unfold find? Collections.find? Collections.collection at hfind
    unfold Table.contains at hname
    cases hs : s.collections.get? name with
    | none =>
        rw [hs] at hname
        exact (Option.isSome_eq_false_iff.1 hname.symm |> Option.isNone_iff_eq_none.1).symm
    | some c =>
        rw [hs] at hname
        obtain ⟨c', hc'⟩ := Option.isSome_iff_exists.1 hname.symm
        rw [hs, hc'] at hfind
        rw [hc']
        exact congrArg some (Table.ext_get? hfind)
  obtain ⟨collections, pending⟩ := s
  obtain ⟨collections', pending'⟩ := t
  cases hcollections
  cases hpending
  rfl

/-- What transactions leave is told by the documents alone. -/
theorem Applied.unique {s t t' : Snapshot} {ops ops' : Transaction} {docs : Documents}
    (h : Applied s ops docs t) (h' : Applied s ops' docs t') : t = t' := by
  have hdocs : t.find? = t'.find? := h.documents.trans h'.documents.symm
  refine ext_find? hdocs (fun name => ?_) (h.pending.trans h'.pending.symm)
  rw [Bool.eq_iff_iff, h.names, h'.names, hdocs]

theorem apply_ok_of_perm {s after : Snapshot} {ops ops' : Transaction}
    (hapart : ops.Pairwise Operation.Apart) (hperm : ops.Perm ops')
    (h : s.apply ops = .ok after) : s.apply ops' = .ok after := by
  obtain ⟨hexec, happlied⟩ := apply_ok h
  have hexec' := Transaction.execute_ok_of_perm hapart hperm hexec
  have hsame := apply_sameOutcome s ops'
  rw [hexec'] at hsame
  generalize s.apply ops' = applied at hsame ⊢
  cases hsame with
  | ok happlied' => exact congrArg Except.ok (happlied'.unique happlied)

/-- Operations on different documents may be put in any order: the store takes them in one order
just if it takes them in the other, and holds the same afterwards. -/
theorem apply_of_reordered {s : Snapshot} {ops ops' : Transaction}
    (hapart : ops.Pairwise Operation.Apart) (hperm : ops.Perm ops') :
    ((∃ after, s.apply ops' = .ok after) ↔ ∃ after, s.apply ops = .ok after) ∧
      ∀ after after', s.apply ops = .ok after → s.apply ops' = .ok after' → after' = after := by
  have hapart' : ops'.Pairwise Operation.Apart :=
    hperm.pairwise hapart fun hab => Operation.Apart.symm hab
  refine ⟨⟨?_, ?_⟩, fun after after' h h' => ?_⟩
  · rintro ⟨after, h⟩
    exact ⟨after, apply_ok_of_perm hapart' hperm.symm h⟩
  · rintro ⟨after, h⟩
    exact ⟨after, apply_ok_of_perm hapart hperm h⟩
  · rw [apply_ok_of_perm hapart hperm h, Except.ok.injEq] at h'
    exact h'.symm

/-- Operations that empty one collection and bring another into being, with all three demands. -/
def upkeep : Transaction :=
  [.remove "cleanups" "c", .insert "providerIDs" "m:subnet:x" .empty,
    .update "units" "u" (Update.empty.setting "life" (.int 1)),
    ⟨"units", "v", .none, .insert (Document.empty.insert "life" (.int 0))⟩]

def beforeUpkeep : Snapshot :=
  let entries : List Sample.Entry :=
    [⟨"cleanups", "c", []⟩, ⟨"units", "u", [("life", .int 0)]⟩, ⟨"units", "v", []⟩]
  ⟨entries.foldl Sample.Entry.addTo .empty, []⟩

theorem apply_of_reordered_upkeep :
    upkeep.Pairwise Operation.Apart ∧ upkeep.Perm upkeep.reverse ∧
      ∃ after, beforeUpkeep.apply upkeep = .ok after ∧
        beforeUpkeep.apply upkeep.reverse = .ok after := by
  have hapart : upkeep.Pairwise Operation.Apart := by
    simp [upkeep, Operation.Apart, Operation.remove, Operation.insert, Operation.update]
  have hperm : upkeep.Perm upkeep.reverse := (List.reverse_perm upkeep).symm
  obtain ⟨after, hafter⟩ : ∃ after, beforeUpkeep.apply upkeep = .ok after :=
    exists_ok_of_isOk (by decide +kernel)
  obtain ⟨haccepted, hsame⟩ := apply_of_reordered (s := beforeUpkeep) hapart hperm
  obtain ⟨after', hafter'⟩ := haccepted.2 ⟨after, hafter⟩
  rw [hsame after after' hafter hafter'] at hafter'
  exact ⟨hapart, hperm, after, hafter, hafter'⟩

end Snapshot
end FleetUpgrade
