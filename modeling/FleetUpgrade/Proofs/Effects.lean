import FleetUpgrade.Proofs.Sequential

/-! # What a transaction can change

An operation that is carried out changes at most the place of its own document.
`Operation.Becomes` lists what may stand there afterwards. From it follow the
frame laws of transactions: a place that no operation names keeps its document,
and a place that is only updated keeps having one.
-/

namespace FleetUpgrade

namespace Operation

/-- What stands in an operation's place after it was carried out. -/
inductive Becomes (op : Operation) : Option Document → Option Document → Prop where
  | kept (d : Option Document) : Becomes op d d
  | inserted (body : Document) (h : op.change = .insert body) :
      Becomes op none (some (Document.inserted op.id body))
  | updated (changes : Update) {d d' : Document} (h : op.change = .update changes)
      (hd : changes.execute d = .ok d') : Becomes op (some d) (some d')
  | removed (d : Document) (h : op.change = .remove) : Becomes op (some d) none

/-- Everything a successful operation does. -/
theorem execute_spec {op : Operation} {docs docs' : Documents} (h : op.execute docs = .ok docs') :
    op.precondition.holds (docs op.collection op.id).isSome = true ∧
      docs' = docs.place op.collection op.id (docs' op.collection op.id) ∧
      Becomes op (docs op.collection op.id) (docs' op.collection op.id) := by
  unfold execute at h
  split at h
  · next hholds =>
      refine ⟨hholds, ?_⟩
      have hplace : ∀ d, docs' = docs.place op.collection op.id d →
          Becomes op (docs op.collection op.id) d →
          docs' = docs.place op.collection op.id (docs' op.collection op.id) ∧
            Becomes op (docs op.collection op.id) (docs' op.collection op.id) := by
        rintro d rfl hd
        rw [Documents.place_self]
        exact ⟨rfl, hd⟩
      cases hd : docs op.collection op.id with
      | none =>
          rw [hd] at h hplace
          cases hc : op.change with
          | insert body =>
              simp only [hc, Except.ok.injEq] at h
              exact hplace _ h.symm (.inserted body hc)
          | update changes =>
              simp only [hc, Except.ok.injEq] at h
              exact hplace none (by rw [← h, ← hd, Documents.place_same]) (.kept none)
          | remove =>
              simp only [hc, Except.ok.injEq] at h
              exact hplace none (by rw [← h, ← hd, Documents.place_same]) (.kept none)
      | some d =>
          rw [hd] at h hplace
          cases hc : op.change with
          | insert body =>
              simp only [hc, Except.ok.injEq] at h
              exact hplace (some d) (by rw [← h, ← hd, Documents.place_same]) (.kept _)
          | update changes =>
              simp only [hc] at h
              cases hu : changes.execute d with
              | error cause => simp [hu] at h
              | ok d' =>
                  simp only [hu, Except.ok.injEq] at h
                  exact hplace _ h.symm (.updated changes hc hu)
          | remove =>
              simp only [hc, Except.ok.injEq] at h
              exact hplace none h.symm (.removed d hc)
  · cases h

theorem execute_other {op : Operation} {docs docs' : Documents} {name id : String}
    (h : op.execute docs = .ok docs') (hother : ¬(name = op.collection ∧ id = op.id)) :
    docs' name id = docs name id := by
  rw [(execute_spec h).2.1, Documents.place_other _ _ hother]

theorem isSome_execute_update {op : Operation} {docs docs' : Documents}
    (h : op.execute docs = .ok docs') (hkind : op.kind = .update) :
    (docs' op.collection op.id).isSome = (docs op.collection op.id).isSome := by
  obtain ⟨-, -, hb⟩ := execute_spec h
  generalize docs op.collection op.id = old at hb ⊢
  generalize docs' op.collection op.id = new at hb ⊢
  cases hb with
  | kept => rfl
  | inserted body hc => simp [kind, hc] at hkind
  | updated changes hc hd => rfl
  | removed d hc => simp [kind, hc] at hkind

end Operation

namespace Transaction

@[simp] theorem execute_nil (docs : Documents) : execute [] docs = .ok docs := rfl

theorem execute_cons_ok {op : Operation} {ops : Transaction} {docs docs' : Documents} :
    execute (op :: ops) docs = .ok docs' ↔
      ∃ between, op.execute docs = .ok between ∧ execute ops between = .ok docs' := by
  rw [execute]
  cases op.execute docs with
  | error e => simp
  | ok between => simp

/-- What every successful operation of a transaction keeps, the transaction keeps. -/
theorem execute_induction {P : Documents → Prop} {ops : Transaction} {docs docs' : Documents}
    (h : execute ops docs = .ok docs') (hstart : P docs)
    (hstep : ∀ op ∈ ops, ∀ before after, P before → op.execute before = .ok after → P after) :
    P docs' := by
  induction ops generalizing docs with
  | nil =>
      cases h
      exact hstart
  | cons op ops ih =>
      obtain ⟨between, hop, hrest⟩ := execute_cons_ok.1 h
      refine ih hrest (hstep op List.mem_cons_self docs between hstart hop) ?_
      exact fun o ho => hstep o (List.mem_cons_of_mem _ ho)

theorem execute_untouched {ops : Transaction} {docs docs' : Documents} {name id : String}
    (h : execute ops docs = .ok docs')
    (hno : ∀ op ∈ ops, ¬(op.collection = name ∧ op.id = id)) : docs' name id = docs name id := by
  refine execute_induction (P := fun now => now name id = docs name id) h rfl ?_
  intro op hop before after hbefore hstep
  rw [Operation.execute_other hstep fun hh => hno op hop ⟨hh.1.symm, hh.2.symm⟩, hbefore]

theorem isSome_execute_of_updates {ops : Transaction} {docs docs' : Documents} {name : String}
    (h : execute ops docs = .ok docs')
    (hupdates : ∀ op ∈ ops, op.collection = name → op.kind = .update) (id : String) :
    (docs' name id).isSome = (docs name id).isSome := by
  refine execute_induction (P := fun now => (now name id).isSome = (docs name id).isSome) h rfl ?_
  intro op hop before after hbefore hstep
  by_cases hplace : name = op.collection ∧ id = op.id
  · obtain ⟨rfl, rfl⟩ := hplace
    rw [Operation.isSome_execute_update hstep (hupdates op hop rfl), hbefore]
  · rw [Operation.execute_other hstep hplace, hbefore]

end Transaction

namespace Snapshot

theorem apply_ok {s s' : Snapshot} {ops : Transaction} (h : s.apply ops = .ok s') :
    ops.execute s.find? = .ok s'.find? ∧ Applied s ops s'.find? s' := by
  have hsame := apply_sameOutcome s ops
  rw [h] at hsame
  obtain ⟨docs, hexec, happlied⟩ := hsame.of_ok
  have hdocs := happlied.documents
  subst hdocs
  exact ⟨hexec, happlied⟩

theorem apply_error {s : Snapshot} {ops : Transaction} {e : StoreError}
    (h : s.apply ops = .error e) : ops.execute s.find? = .error e := by
  have hsame := apply_sameOutcome s ops
  rw [h] at hsame
  generalize ops.execute s.find? = executed at hsame ⊢
  cases hsame with
  | error _ => rfl

theorem exists_apply_iff {s : Snapshot} {ops : Transaction} :
    (∃ after, s.apply ops = .ok after) ↔ ∃ docs, ops.execute s.find? = .ok docs := by
  constructor
  · rintro ⟨after, h⟩
    exact ⟨after.find?, (apply_ok h).1⟩
  · rintro ⟨docs, h⟩
    cases happly : s.apply ops with
    | ok after => exact ⟨after, rfl⟩
    | error e =>
        rw [apply_error happly] at h
        cases h

/-- What holds of all entries holds of all that can be looked up. -/
theorem forall_entries_iff {P : String → String → Document → Prop} (s : Snapshot) :
    (∀ c ∈ s.collections.entries, ∀ entry ∈ c.2.entries, P c.1 entry.1 entry.2) ↔
      ∀ name id d, s.find? name id = some d → P name id d := by
  constructor
  · intro hall name id d hd
    unfold find? Collections.find? Collections.collection at hd
    cases hc : s.collections.get? name with
    | none =>
        rw [hc, Option.getD_none, Table.get?_empty] at hd
        cases hd
    | some c =>
        rw [hc, Option.getD_some] at hd
        exact hall (name, c) ((s.collections.mem_entries_iff name c).2 hc) (id, d)
          ((c.mem_entries_iff id d).2 hd)
  · rintro hall ⟨name, c⟩ hc ⟨id, d⟩ hd
    refine hall name id d ?_
    unfold find? Collections.find? Collections.collection
    rw [(s.collections.mem_entries_iff name c).1 hc, Option.getD_some]
    exact (c.mem_entries_iff id d).1 hd

theorem find?_dropCollection (s : Snapshot) (dropped name id : String) :
    (s.dropCollection dropped).find? name id =
      if dropped = name then none else s.find? name id := by
  unfold find? dropCollection Collections.find? Collections.collection
  rw [Table.get?_erase]
  split <;> rfl

end Snapshot
end FleetUpgrade
