import FleetUpgrade.Proofs.Except
import FleetUpgrade.Proofs.Journal
import FleetUpgrade.Sample.Controller

/-! # Demands in turn

What an operation demands of its document is asked when its turn comes, so an earlier
operation of the transaction may have put the document there or taken it away. A
transaction is refused, and leaves the store, if a demand is not met in turn. Whether
it was met before the transaction does not matter: a document may be replaced, and one
that was just inserted may be updated.
-/

namespace FleetUpgrade

namespace Operation

variable {op : Operation} {docs docs' : Documents}

def leaves (op : Operation) (present : Bool) : Bool :=
  match op.kind with
  | .insert => true
  | .update => present
  | .remove => false

theorem isSome_execute (h : op.execute docs = .ok docs') :
    (docs' op.collection op.id).isSome = op.leaves (docs op.collection op.id).isSome := by
  unfold execute at h
  unfold leaves kind
  split at h
  · cases hd : docs op.collection op.id with
    | none =>
        cases hc : op.change <;> simp only [hc, hd, Except.ok.injEq] at h <;> subst h <;> simp [hd]
    | some d =>
        cases hc : op.change with
        | insert body =>
            simp only [hc, hd, Except.ok.injEq] at h
            simp [← h, hd]
        | update changes =>
            simp only [hc, hd] at h
            cases hu : changes.execute d with
            | error cause => simp [hu] at h
            | ok d' =>
                simp only [hu, Except.ok.injEq] at h
                simp [← h]
        | remove =>
            simp only [hc, hd, Except.ok.injEq] at h
            simp [← h]
  · cases h

/-- An operation fails for its demand, or because the document does not take the update. -/
theorem execute_error {e : StoreError} (h : op.execute docs = .error e) :
    (op.precondition.holds (docs op.collection op.id).isSome = false ∧
        e = .preconditionFailed op.collection op.id op.precondition) ∨
      ∃ cause, e = .invalidOperation op.collection op.id cause := by
  unfold execute at h
  split at h
  · right
    split at h
    · cases h
    · next changes d _ _ =>
        cases hu : changes.execute d with
        | error cause =>
            simp only [hu, Except.error.injEq] at h
            exact ⟨cause, h.symm⟩
        | ok d' => simp [hu] at h
    · cases h
    · cases h
  · next hunmet =>
      simp only [Except.error.injEq] at h
      exact Or.inl ⟨(Bool.not_eq_true _).mp hunmet, h.symm⟩

end Operation

namespace Transaction

variable {ops done : Transaction} {docs docs' : Documents}

/-- Whether a document is there after operations, if it was there before them or not: the last of
them that inserts or removes it decides. -/
def leaves (ops : Transaction) (name id : String) (present : Bool) : Bool :=
  ops.foldl (fun now op => if op.collection = name ∧ op.id = id then op.leaves now else now) present

theorem isSome_execute (h : execute done docs = .ok docs') (name id : String) :
    (docs' name id).isSome = done.leaves name id (docs name id).isSome := by
  induction done generalizing docs with
  | nil =>
      cases h
      rfl
  | cons op done ih =>
      obtain ⟨between, hop, hrest⟩ := execute_cons_ok.1 h
      rw [ih hrest]
      unfold leaves
      rw [List.foldl_cons]
      by_cases hplace : op.collection = name ∧ op.id = id
      · rw [if_pos hplace]
        obtain ⟨rfl, rfl⟩ := hplace
        rw [Operation.isSome_execute hop]
      · rw [if_neg hplace, Operation.execute_other hop fun he => hplace ⟨he.1.symm, he.2.symm⟩]

/-- Some operation finds its demand unmet when its turn comes. -/
def MissesDemand (ops : Transaction) (docs : Documents) : Prop :=
  ∃ (done : Transaction) (op : Operation) (rest : Transaction), ops = done ++ op :: rest ∧
    op.precondition.holds
      (done.leaves op.collection op.id (docs op.collection op.id).isSome) = false

theorem MissesDemand.execute_ne_ok (h : ops.MissesDemand docs) : execute ops docs ≠ .ok docs' := by
  obtain ⟨done, op, rest, rfl, hunmet⟩ := h
  intro hexec
  obtain ⟨between, hdone, hlast⟩ := execute_append_ok.1 hexec
  obtain ⟨_, hop, -⟩ := execute_cons_ok.1 hlast
  have hmet := (Operation.execute_spec hop).1
  rw [isSome_execute hdone, hunmet] at hmet
  cases hmet

/-- What is refused is refused for a demand that is not met in turn, or for an update. -/
theorem missesDemand_or_of_execute_error {e : StoreError} (h : execute ops docs = .error e) :
    (ops.MissesDemand docs ∧ e.isPrecondition = true) ∨
      ∃ collection id cause, e = .invalidOperation collection id cause := by
  obtain ⟨done, op, rest, before, rfl, hdone, hop⟩ := execute_error_iff.1 h
  rcases Operation.execute_error hop with ⟨hunmet, rfl⟩ | ⟨cause, rfl⟩
  · rw [isSome_execute hdone] at hunmet
    exact Or.inl ⟨⟨done, op, rest, rfl, hunmet⟩, rfl⟩
  · exact Or.inr ⟨_, _, cause, rfl⟩

end Transaction

namespace Snapshot

/-- A transaction with a demand that is not met in turn is refused, and the store is as it was. For
a demand it is refused only then. -/
theorem apply_of_missed_demand (s : Snapshot) (ops : Transaction) (disk : Disk) :
    (ops.MissesDemand s.find? → ∃ e, s.apply ops = .error e ∧
      MemoryStore.apply ops ⟨s⟩ disk = ⟨.error e, ⟨s⟩, disk⟩ ∧
      (e.isPrecondition = true ∨
        ∃ collection id cause, e = .invalidOperation collection id cause)) ∧
    ∀ e, s.apply ops = .error e → e.isPrecondition = true → ops.MissesDemand s.find? := by
  constructor
  · intro hmissed
    cases happly : s.apply ops with
    | ok after => exact absurd (apply_ok happly).1 hmissed.execute_ne_ok
    | error e =>
        refine ⟨e, rfl, ?_, ?_⟩
        · unfold MemoryStore.apply
          rw [happly]
        · have hcause := Transaction.missesDemand_or_of_execute_error (apply_error happly)
          exact hcause.imp_left And.right
  · intro e happly hdemand
    rcases Transaction.missesDemand_or_of_execute_error (apply_error happly) with
      ⟨hmissed, -⟩ | ⟨_, _, _, rfl⟩
    · exact hmissed
    · cases hdemand

def oneUnit : Snapshot :=
  ⟨Sample.Entry.addTo .empty ⟨"units", "u1", [("life", .int 0)]⟩, []⟩

/-- The unit is there before the transaction, but no longer when it is to be updated. -/
theorem apply_of_demand_missed_after_removal :
    let ops : Transaction := [.remove "units" "u1",
      .update "units" "u1" (Update.empty.setting "life" (.int 1))]
    (∀ op ∈ ops, op.precondition.holds (oneUnit.find? op.collection op.id).isSome = true) ∧
      ops.MissesDemand oneUnit.find? ∧
      ∃ e, oneUnit.apply ops = .error e ∧
        MemoryStore.apply ops ⟨oneUnit⟩ .empty = ⟨.error e, ⟨oneUnit⟩, .empty⟩ := by
  intro ops
  have hmissed : ops.MissesDemand oneUnit.find? :=
    ⟨[.remove "units" "u1"], .update "units" "u1" (Update.empty.setting "life" (.int 1)), [], rfl,
      by decide +kernel⟩
  obtain ⟨e, happly, hstore, -⟩ := (apply_of_missed_demand oneUnit ops .empty).1 hmissed
  exact ⟨by decide +kernel, hmissed, e, happly, hstore⟩

/-- A unit that is there may not be inserted, but it may be replaced. -/
theorem unmet_demand_met_in_turn :
    ¬∀ (s : Snapshot) (ops : Transaction),
      (∃ op ∈ ops, op.precondition.holds (s.find? op.collection op.id).isSome = false) →
        ∃ e, s.apply ops = .error e := by
  intro hall
  obtain ⟨e, he⟩ := hall oneUnit [.remove "units" "u1", .insert "units" "u1" .empty]
    ⟨.insert "units" "u1" .empty, by simp, by decide +kernel⟩
  obtain ⟨after, hafter⟩ :
      ∃ after, oneUnit.apply [.remove "units" "u1", .insert "units" "u1" .empty] = .ok after :=
    exists_ok_of_isOk (by decide +kernel)
  rw [hafter] at he
  cases he

end Snapshot
end FleetUpgrade
