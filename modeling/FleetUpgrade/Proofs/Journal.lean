import FleetUpgrade.Proofs.Effects

/-! # Journals as sequential execution

Resuming applies the transactions of the journal one after another, so a resumed
snapshot holds the documents that the journal's operations leave when they are
carried out in order. A journal with a transaction that fails is applied up to it.
-/

namespace FleetUpgrade

namespace Transaction

theorem execute_append_ok {first second : Transaction} {docs docs' : Documents} :
    execute (first ++ second) docs = .ok docs' ↔
      ∃ between, execute first docs = .ok between ∧ execute second between = .ok docs' := by
  induction first generalizing docs with
  | nil => simp
  | cons op first ih =>
      rw [List.cons_append, execute_cons_ok]
      constructor
      · rintro ⟨after, hop, hrest⟩
        obtain ⟨between, hfirst, hsecond⟩ := ih.1 hrest
        exact ⟨between, execute_cons_ok.2 ⟨after, hop, hfirst⟩, hsecond⟩
      · rintro ⟨between, hfirst, hsecond⟩
        obtain ⟨after, hop, hrest⟩ := execute_cons_ok.1 hfirst
        exact ⟨after, hop, ih.2 ⟨between, hrest, hsecond⟩⟩

/-- Operations that insert nothing into a collection leave it without documents if it had none. -/
theorem execute_stays_empty {ops : Transaction} {docs docs' : Documents} {name : String}
    (h : execute ops docs = .ok docs') (hempty : ∀ id, docs name id = none)
    (hno : ∀ op ∈ ops, op.collection = name → op.kind ≠ .insert) (id : String) :
    docs' name id = none := by
  refine execute_induction (P := fun now => ∀ id, now name id = none) h hempty ?_ id
  intro op hop before after hbefore hstep id
  by_cases hplace : name = op.collection ∧ id = op.id
  · obtain ⟨rfl, rfl⟩ := hplace
    obtain ⟨-, -, hb⟩ := Operation.execute_spec hstep
    rw [hbefore] at hb
    generalize after op.collection op.id = new at hb ⊢
    cases hb with
    | kept => rfl
    | inserted body hc => exact absurd (by simp [Operation.kind, hc]) (hno op hop rfl)
  · rw [Operation.execute_other hstep hplace, hbefore]

end Transaction

namespace Snapshot

theorem resumeFrom_ok {cs : Collections} {journal : List Transaction} {n : Nat} {s : Snapshot}
    (h : resumeFrom cs journal = (.ok n, s)) :
    n = journal.length ∧ s.pending = [] ∧
      Transaction.execute journal.flatten cs.find? = .ok s.find? := by
  induction journal generalizing cs n with
  | nil =>
      cases h
      exact ⟨rfl, rfl, rfl⟩
  | cons ops rest ih =>
      unfold resumeFrom at h
      cases happly : ops.applyTo cs with
      | error e => simp [happly] at h
      | ok cs' =>
          simp only [happly, Prod.mk.injEq] at h
          obtain ⟨hn, hs⟩ := h
          cases hr : (resumeFrom cs' rest).1 with
          | error e => simp [hr, Except.map] at hn
          | ok k =>
              obtain ⟨rfl, hpending, hexec⟩ := ih (Prod.ext hr hs)
              have hone : (Snapshot.mk cs []).apply ops = .ok ⟨cs', []⟩ := by
                unfold Snapshot.apply
                rw [happly]
              rw [hr] at hn
              refine ⟨(Except.ok.inj hn).symm, hpending, ?_⟩
              exact Transaction.execute_append_ok.2 ⟨_, (apply_ok hone).1, hexec⟩

/-- A resumed journal was carried out in order, and nothing of it is left. -/
theorem resume_ok {s s' : Snapshot} {n : Nat} (h : s.resume = (.ok n, s')) :
    n = s.pending.length ∧ s'.pending = [] ∧
      Transaction.execute s.pending.flatten s.find? = .ok s'.find? :=
  resumeFrom_ok h

/-! ## The part of a journal that is applied -/

theorem applyTo_collections (s : Snapshot) (ops : Transaction) :
    ops.applyTo s.collections = (s.apply ops).map collections := by
  unfold apply
  cases ops.applyTo s.collections <;> rfl

theorem resumeFrom_prefix (s : Snapshot) (journal : List Transaction) :
    match journal.foldlM apply s with
    | .ok after => resumeFrom s.collections journal = (.ok journal.length, ⟨after.collections, []⟩)
    | .error e =>
        ∃ done failed rest reached, journal = done ++ failed :: rest ∧
          done.foldlM apply s = .ok reached ∧ reached.apply failed = .error e ∧
          resumeFrom s.collections journal = (.error e, ⟨reached.collections, failed :: rest⟩) := by
  -- the snapshot that was reached takes the place of the one at the beginning
  induction journal generalizing s with
  | nil => rfl
  | cons ops rest ih =>
      rw [List.foldlM_cons]
      cases happly : s.apply ops with
      | error e =>
          refine ⟨[], ops, rest, s, rfl, rfl, happly, ?_⟩
          simp only [resumeFrom, applyTo_collections, happly, Except.map]
      | ok next =>
          have hrest := ih next
          change match rest.foldlM apply next with | .ok after => _ | .error e => _
          cases hfold : rest.foldlM apply next with
          | ok after =>
              rw [hfold] at hrest
              simp only [resumeFrom, applyTo_collections, happly, hrest, Except.map,
                List.length_cons]
          | error e =>
              rw [hfold] at hrest
              obtain ⟨done, failed, later, reached, rfl, hreached, hfailed, hresume⟩ := hrest
              refine ⟨ops :: done, failed, later, reached, rfl, ?_, hfailed, ?_⟩
              · rw [List.foldlM_cons, happly]
                exact hreached
              · simp only [resumeFrom, applyTo_collections, happly, hresume, Except.map]

/-- Resuming applies the transactions of the journal up to the first that fails. That one and those
after it stay in the journal, nothing of them is applied, and resuming again changes nothing. -/
theorem resume_longest_prefix (s : Snapshot) :
    match s.pending.foldlM apply s with
    | .ok after => s.resume = (.ok s.pending.length, ⟨after.collections, []⟩)
    | .error e =>
        ∃ done failed rest reached, s.pending = done ++ failed :: rest ∧
          done.foldlM apply s = .ok reached ∧ reached.apply failed = .error e ∧
          let left : Snapshot := ⟨reached.collections, failed :: rest⟩
          s.resume = (.error e, left) ∧ left.resume = (.error e, left) := by
  have hprefix := resumeFrom_prefix s s.pending
  cases hfold : s.pending.foldlM apply s with
  | ok after =>
      rw [hfold] at hprefix
      exact hprefix
  | error e =>
      rw [hfold] at hprefix
      obtain ⟨done, failed, rest, reached, hjournal, hreached, hfailed, hresume⟩ := hprefix
      refine ⟨done, failed, rest, reached, hjournal, hreached, hfailed, hresume, ?_⟩
      simp only [resume, resumeFrom, applyTo_collections, hfailed, Except.map]

end Snapshot
end FleetUpgrade
