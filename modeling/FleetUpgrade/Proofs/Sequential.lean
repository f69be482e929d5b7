import FleetUpgrade.Proofs.Table
import FleetUpgrade.Store.Memory

/-! # Transactions as sequential execution

`Transaction.execute` carries operations out one at a time on the documents of
the whole store, with no copies. A transaction applied by a store succeeds
exactly when this execution does, and then leaves the same documents; the copies
of the named collections and their way back into the store cannot be observed.
-/

namespace FleetUpgrade

/-- Results that fail alike, or succeed with related values. -/
inductive SameOutcome {ε α β : Type} (R : α → β → Prop) : Except ε α → Except ε β → Prop where
  | error (e : ε) : SameOutcome R (.error e) (.error e)
  | ok {a : α} {b : β} (h : R a b) : SameOutcome R (.ok a) (.ok b)

theorem SameOutcome.of_ok {ε α β : Type} {R : α → β → Prop} {a : α} {y : Except ε β}
    (h : SameOutcome R (.ok a) y) : ∃ b, y = .ok b ∧ R a b := by
  cases h with
  | ok h => exact ⟨_, rfl, h⟩

/-- The documents of a whole store, by collection and id. -/
abbrev Documents := String → String → Option Document

/-- The documents with another one, or none, at one place. -/
def Documents.place (docs : Documents) (collection id : String) (d : Option Document) :
    Documents :=
  fun name key => if name = collection ∧ key = id then d else docs name key

theorem Documents.place_other (docs : Documents) {collection id name key : String}
    (d : Option Document) (h : ¬(name = collection ∧ key = id)) :
    docs.place collection id d name key = docs name key := if_neg h

@[simp] theorem Documents.place_self (docs : Documents) (collection id : String)
    (d : Option Document) : docs.place collection id d collection id = d := if_pos ⟨rfl, rfl⟩

theorem Documents.place_same (docs : Documents) (collection id : String) :
    docs.place collection id (docs collection id) = docs := by
  funext name key
  unfold Documents.place
  split
  · next h => rw [h.1, h.2]
  · rfl

/-! ## One operation -/

namespace Update

def setOne (d : Document) (entry : String × Value) : Except Refusal Document :=
  if entry.1 = Document.idField then .error .immutableId
  else
    match d.setPath entry.1 entry.2 with
    | (_, some e) => .error (.field e)
    | (d', none) => .ok d'

def clearOne (d : Document) (path : String) : Except Refusal Document :=
  if path = Document.idField then .error .immutableId else .ok (d.unsetPath path)

/-- All values are set in order, and then all places are cleared in order. -/
def execute (u : Update) (d : Document) : Except Refusal Document :=
  (u.set.fields.foldlM setOne d).bind fun d' => u.unset.foldlM clearOne d'

theorem applySets_eq (fields : Fields) (d : Document) :
    applySets fields d = fields.foldlM setOne d := by
  induction fields generalizing d with
  | nil => rfl
  | cons entry rest ih =>
      obtain ⟨path, value⟩ := entry
      simp only [applySets, List.foldlM_cons, setOne]
      split
      · rfl
      · cases h : d.setPath path value with
        | mk d' failure =>
            cases failure with
            | some e => rfl
            | none => exact ih d'

theorem applyUnsets_eq (paths : List String) (d : Document) :
    applyUnsets paths d = paths.foldlM clearOne d := by
  induction paths generalizing d with
  | nil => rfl
  | cons path rest ih =>
      simp only [applyUnsets, List.foldlM_cons, clearOne]
      split
      · rfl
      · exact ih (d.unsetPath path)

theorem applyTo_eq_execute (u : Update) (d : Document) : u.applyTo d = u.execute d := by
  unfold applyTo execute
  rw [applySets_eq]
  cases u.set.fields.foldlM setOne d with
  | error e => rfl
  | ok d' => exact applyUnsets_eq u.unset d'

end Update

namespace Operation

def execute (op : Operation) (docs : Documents) : Except StoreError Documents :=
  if op.precondition.holds (docs op.collection op.id).isSome then
    match op.change, docs op.collection op.id with
    | .insert body, none =>
        .ok (docs.place op.collection op.id (some (Document.inserted op.id body)))
    | .update changes, some d =>
        match changes.execute d with
        | .ok d' => .ok (docs.place op.collection op.id (some d'))
        | .error cause => .error (.invalidOperation op.collection op.id cause)
    | .remove, some _ => .ok (docs.place op.collection op.id none)
    | _, _ => .ok docs
  else .error (.preconditionFailed op.collection op.id op.precondition)

/-- What an operation does to its collection: only the place of its own document may change, and
there the collection holds what execution puts there. -/
theorem applyTo_sameOutcome {op : Operation} {c : Collection} {docs : Documents}
    (h : c.get? op.id = docs op.collection op.id) :
    SameOutcome
      (fun c' docs' => docs' = docs.place op.collection op.id (c'.get? op.id) ∧
        ∀ id, id ≠ op.id → c'.get? id = c.get? id)
      (op.applyTo c) (op.execute docs) := by
  have hkeep : docs = docs.place op.collection op.id (c.get? op.id) := by
    rw [h, Documents.place_same]
  unfold applyTo execute
  dsimp only
  rw [← h]
  split
  · cases op.change with
    | insert body =>
        cases hd : c.get? op.id with
        | none =>
            refine .ok ⟨by rw [Table.get?_insert_self], fun id hid => ?_⟩
            exact Table.get?_insert_of_ne _ _ (Ne.symm hid)
        | some d => exact .ok ⟨hkeep, fun _ _ => rfl⟩
    | update changes =>
        cases hd : c.get? op.id with
        | none => exact .ok ⟨hkeep, fun _ _ => rfl⟩
        | some d =>
            dsimp only
            rw [← Update.applyTo_eq_execute]
            cases changes.applyTo d with
            | error cause => exact .error _
            | ok d' =>
                refine .ok ⟨by rw [Table.get?_insert_self], fun id hid => ?_⟩
                exact Table.get?_insert_of_ne _ _ (Ne.symm hid)
    | remove =>
        have hgone : (c.erase op.id).get? op.id = none := by rw [Table.get?_erase, if_pos rfl]
        have hother : ∀ id, id ≠ op.id → (c.erase op.id).get? id = c.get? id := fun id hid => by
          rw [Table.get?_erase, if_neg (Ne.symm hid)]
        cases hd : c.get? op.id with
        | none => exact .ok ⟨by rw [hgone, ← hd]; exact hkeep, hother⟩
        | some d => exact .ok ⟨by rw [hgone], hother⟩
  · exact .error _

end Operation

/-! ## Working copies -/

namespace Transaction

def execute : Transaction → Documents → Except StoreError Documents
  | [], docs => .ok docs
  | op :: ops, docs =>
      match op.execute docs with
      | .error e => .error e
      | .ok docs' => execute ops docs'

theorem collection_insert (work : Collections) (name other : String) (c : Collection) :
    Collections.collection (work.insert name c) other =
      if name = other then c else work.collection other := by
  unfold Collections.collection
  rw [Table.get?_insert]
  split <;> rfl

/-- What running on copies keeps: the copies hold the executed documents, and collections without
a copy are as they were. -/
structure CopiesOf (work : Collections) (before docs : Documents) (copies : Collections) : Prop where
  names : ∀ name, copies.contains name = work.contains name
  agree : ∀ name, work.contains name = true → ∀ id, copies.find? name id = docs name id
  rest : ∀ name, work.contains name = false → docs name = before name

theorem CopiesOf.step {work copies : Collections} {before docs docs' : Documents} {op : Operation}
    {c : Collection} (h : CopiesOf work before docs copies)
    (hop : work.contains op.collection = true)
    (hdocs : docs' = docs.place op.collection op.id (c.get? op.id))
    (hc : ∀ id, id ≠ op.id → c.get? id = (copies.collection op.collection).get? id) :
    CopiesOf work before docs' (copies.insert op.collection c) := by
  subst hdocs
  refine ⟨fun name => ?_, fun name hname id => ?_, fun name hname => ?_⟩
  · rw [Table.contains_insert, h.names]
    by_cases he : op.collection = name
    · simp [← he, hop]
    · simp [he]
  · unfold Collections.find?
    rw [collection_insert]
    by_cases he : op.collection = name
    · subst he
      rw [if_pos rfl]
      by_cases hid : id = op.id
      · rw [hid, Documents.place_self]
      · rw [hc id hid, Documents.place_other _ _ fun hh => hid hh.2]
        exact h.agree _ hname id
    · rw [if_neg he, Documents.place_other _ _ fun hh => he hh.1.symm]
      exact h.agree name hname id
  · have hne : name ≠ op.collection := fun he => by rw [he, hop] at hname; cases hname
    rw [← h.rest name hname]
    funext id
    exact Documents.place_other _ _ fun hh => hne hh.1

theorem runOn_sameOutcome {ops : Transaction} {work copies : Collections}
    {before docs : Documents} (hops : ∀ op ∈ ops, work.contains op.collection = true)
    (h : CopiesOf work before docs copies) :
    SameOutcome (fun copies' docs' => CopiesOf work before docs' copies')
      (runOn ops copies) (execute ops docs) := by
  induction ops generalizing copies docs with
  | nil => exact .ok h
  | cons op ops ih =>
      have hop := hops op List.mem_cons_self
      have hget : (copies.collection op.collection).get? op.id = docs op.collection op.id :=
        h.agree op.collection hop op.id
      have hone := Operation.applyTo_sameOutcome hget
      unfold runOn execute
      generalize op.applyTo (copies.collection op.collection) = applied at hone ⊢
      generalize op.execute docs = executed at hone ⊢
      cases hone with
      | error e => exact .error e
      | ok hc =>
          exact ih (fun o ho => hops o (List.mem_cons_of_mem _ ho)) (h.step hop hc.1 hc.2)

theorem get?_workingCopy (ops : Transaction) (cs : Collections) (name : String) :
    (workingCopy ops cs).get? name =
      if (∃ op ∈ ops, op.collection = name) then some (cs.collection name) else none := by
  have hfold : ∀ work : Collections,
      (ops.foldl (fun work op => work.insert op.collection (cs.collection op.collection))
        work).get? name =
      if (∃ op ∈ ops, op.collection = name) then some (cs.collection name) else work.get? name := by
    induction ops with
    | nil => intro work; simp
    | cons op ops ih =>
        intro work
        rw [List.foldl_cons, ih, Table.get?_insert]
        by_cases hrest : ∃ o ∈ ops, o.collection = name
        · have hall : ∃ o ∈ op :: ops, o.collection = name := by
            obtain ⟨o, ho, he⟩ := hrest
            exact ⟨o, List.mem_cons_of_mem _ ho, he⟩
          rw [if_pos hrest, if_pos hall]
        · by_cases he : op.collection = name
          · rw [if_neg hrest, if_pos he, if_pos ⟨op, List.mem_cons_self, he⟩, he]
          · have hnone : ¬∃ o ∈ op :: ops, o.collection = name := by
              rintro ⟨o, ho, hn⟩
              rcases List.mem_cons.1 ho with rfl | ho
              · exact he hn
              · exact hrest ⟨o, ho, hn⟩
            rw [if_neg hrest, if_neg he, if_neg hnone]
  exact hfold Table.empty

theorem contains_workingCopy (ops : Transaction) (cs : Collections) (name : String) :
    (workingCopy ops cs).contains name = true ↔ ∃ op ∈ ops, op.collection = name := by
  unfold Table.contains
  rw [get?_workingCopy]
  split
  · next h => exact iff_of_true rfl h
  · next h => exact iff_of_false (by simp) h

theorem copiesOf_workingCopy (ops : Transaction) (cs : Collections) :
    CopiesOf (workingCopy ops cs) cs.find? cs.find? (workingCopy ops cs) where
  names _ := rfl
  agree name hname id := by
    unfold Collections.find? Collections.collection
    rw [get?_workingCopy, if_pos ((contains_workingCopy ops cs name).1 hname)]
    rfl
  rest _ _ := rfl

theorem get?_commit {work : List (String × Collection)} (cs : Collections) (name : String)
    (hwork : work.Pairwise fun x y => x.1 < y.1) :
    (commit work cs).get? name =
      match Table.lookup name work with
      | none => cs.get? name
      | some c => if c.isEmpty && !cs.contains name then none else some c := by
  induction work generalizing cs with
  | nil => rfl
  | cons entry work ih =>
      obtain ⟨hhead, hrest⟩ := List.pairwise_cons.1 hwork
      unfold commit at ih ⊢
      rw [List.foldl_cons, ih _ hrest]
      by_cases he : entry.1 = name
      · have hno : Table.lookup name work = none :=
          Table.lookup_eq_none_of_lt fun e hm => he ▸ hhead e hm
        rw [hno]
        simp only [Table.lookup, he, if_true]
        split
        · next hskip =>
            rw [Bool.and_eq_true, Bool.not_eq_true'] at hskip
            exact Option.isSome_eq_false_iff.1 hskip.2 |> Option.isNone_iff_eq_none.1
        · exact Table.get?_insert_self cs name entry.2
      · simp only [Table.lookup, he, if_false]
        have hget : (if entry.2.isEmpty && !cs.contains entry.1 then cs
            else cs.insert entry.1 entry.2).get? name = cs.get? name := by
          split
          · rfl
          · exact Table.get?_insert_of_ne cs entry.2 he
        rw [hget, show Table.contains _ name = cs.contains name from congrArg Option.isSome hget]

/-- A transaction that fails does so at its first operation that fails. -/
theorem execute_error_iff {ops : Transaction} {docs : Documents} {e : StoreError} :
    execute ops docs = .error e ↔
      ∃ done op rest before, ops = done ++ op :: rest ∧ execute done docs = .ok before ∧
        op.execute before = .error e := by
  induction ops generalizing docs with
  | nil =>
      constructor
      · intro h
        cases h
      · rintro ⟨done, op, rest, before, h, -⟩
        simp at h
  | cons op ops ih =>
      constructor
      · intro h
        unfold execute at h
        cases hop : op.execute docs with
        | error e' =>
            rw [hop] at h
            cases h
            exact ⟨[], op, ops, docs, rfl, rfl, hop⟩
        | ok docs' =>
            rw [hop] at h
            obtain ⟨done, failed, rest, before, rfl, hdone, hfailed⟩ := ih.1 h
            refine ⟨op :: done, failed, rest, before, rfl, ?_, hfailed⟩
            simp only [execute, hop, hdone]
      · rintro ⟨done, failed, rest, before, hops, hdone, hfailed⟩
        cases done with
        | nil =>
            cases hops
            cases hdone
            simp only [execute, hfailed]
        | cons first done =>
            obtain ⟨rfl, rfl⟩ : op = first ∧ ops = done ++ failed :: rest := by simpa using hops
            unfold execute at hdone ⊢
            cases hop : op.execute docs with
            | error e' =>
                rw [hop] at hdone
                cases hdone
            | ok docs' =>
                rw [hop] at hdone
                exact ih.2 ⟨done, failed, rest, before, rfl, hdone, hfailed⟩

end Transaction

/-! ## Snapshots -/

namespace Snapshot

/-- What a transaction that leaves the documents `docs` makes of a snapshot. -/
structure Applied (s : Snapshot) (ops : Transaction) (docs : Documents) (s' : Snapshot) :
    Prop where
  documents : s'.find? = docs
  untouched : ∀ name, (∀ op ∈ ops, op.collection ≠ name) →
    s'.collections.get? name = s.collections.get? name
  names : ∀ name, s'.collections.contains name = true ↔
    s.collections.contains name = true ∨ ∃ id, (s'.find? name id).isSome = true
  pending : s'.pending = s.pending

theorem find?_eq_none_of_absent {cs : Collections} {name : String}
    (h : cs.contains name = false) (id : String) : cs.find? name id = none := by
  have hnone : cs.get? name = none :=
    Option.isNone_iff_eq_none.1 (Option.isSome_eq_false_iff.1 h)
  simp [Collections.find?, Collections.collection, hnone]

theorem get?_commit_copies {ops : Transaction} {cs copies : Collections}
    (hnames : ∀ name, copies.contains name = (Transaction.workingCopy ops cs).contains name)
    (name : String) :
    (Transaction.commit copies.entries cs).get? name =
      if (∃ op ∈ ops, op.collection = name) then
        if (copies.collection name).isEmpty && !cs.contains name then none
        else some (copies.collection name)
      else cs.get? name := by
  rw [Transaction.get?_commit cs name copies.sorted]
  have hname := hnames name
  unfold Table.contains at hname
  rw [Transaction.get?_workingCopy] at hname
  change (match copies.get? name with
    | none => cs.get? name
    | some c => if c.isEmpty && !cs.contains name then none else some c) = _
  cases hc : copies.get? name with
  | none =>
      rw [hc] at hname
      rw [if_neg fun hop => by rw [if_pos hop] at hname; cases hname]
  | some c =>
      rw [hc] at hname
      have hop : ∃ op ∈ ops, op.collection = name := by
        by_contra hno
        rw [if_neg hno] at hname
        cases hname
      have hcoll : copies.collection name = c := by simp [Collections.collection, hc]
      rw [if_pos hop, hcoll]

theorem find?_commit_copies {ops : Transaction} {cs copies : Collections} {docs : Documents}
    (h : Transaction.CopiesOf (Transaction.workingCopy ops cs) cs.find? docs copies)
    (name id : String) :
    Collections.find? (Transaction.commit copies.entries cs) name id = docs name id := by
  change ((Table.get? _ name).getD Table.empty).get? id = _
  rw [get?_commit_copies h.names]
  by_cases hop : ∃ op ∈ ops, op.collection = name
  · rw [if_pos hop, ← h.agree name ((Transaction.contains_workingCopy ops cs name).2 hop) id]
    split
    · next hempty =>
        rw [Bool.and_eq_true] at hempty
        exact ((Table.isEmpty_iff _).1 hempty.1 id).symm
    · rfl
  · have hno : (Transaction.workingCopy ops cs).contains name = false := by
      rw [← Bool.not_eq_true, Transaction.contains_workingCopy]
      exact hop
    rw [if_neg hop, h.rest name hno]
    rfl

/-- A collection comes into being just when it holds a document. -/
theorem contains_commit_copies {ops : Transaction} {cs copies : Collections} {docs : Documents}
    (h : Transaction.CopiesOf (Transaction.workingCopy ops cs) cs.find? docs copies)
    (name : String) :
    (Transaction.commit copies.entries cs).contains name = true ↔
      cs.contains name = true ∨ ∃ id, (docs name id).isSome = true := by
  constructor
  · intro hafter
    rw [Table.contains, get?_commit_copies h.names] at hafter
    split at hafter
    · next hop =>
        cases hs : cs.contains name with
        | true => exact Or.inl rfl
        | false =>
            have hsome : (copies.collection name).isEmpty = false := by
              cases he : (copies.collection name).isEmpty with
              | true => simp [he, hs] at hafter
              | false => rfl
            obtain ⟨id, hid⟩ := (Table.isEmpty_eq_false_iff _).1 hsome
            refine Or.inr ⟨id, ?_⟩
            rw [← h.agree name ((Transaction.contains_workingCopy ops cs name).2 hop) id]
            exact hid
    · exact Or.inl hafter
  · rintro (hs | ⟨id, hid⟩)
    · rw [Table.contains, get?_commit_copies h.names]
      split
      · simp [hs]
      · exact hs
    · by_contra habsent
      have hnone := find?_eq_none_of_absent ((Bool.not_eq_true _).mp habsent) id
      rw [find?_commit_copies h] at hnone
      rw [hnone] at hid
      cases hid

theorem applied_of_copies {s : Snapshot} {ops : Transaction} {copies : Collections}
    {docs : Documents}
    (h : Transaction.CopiesOf (Transaction.workingCopy ops s.collections) s.find? docs copies) :
    Applied s ops docs
      { s with collections := Transaction.commit copies.entries s.collections } := by
  have hdocs : Collections.find? (Transaction.commit copies.entries s.collections) = docs :=
    funext fun name => funext fun id => find?_commit_copies h name id
  refine ⟨hdocs, fun name hname => ?_, fun name => ?_, rfl⟩
  · rw [get?_commit_copies h.names, if_neg]
    rintro ⟨op, hop, he⟩
    exact hname op hop he
  · change _ ↔ _ ∨ ∃ id, (Collections.find? _ name id).isSome = true
    rw [hdocs]
    exact contains_commit_copies h name

theorem apply_sameOutcome (s : Snapshot) (ops : Transaction) :
    SameOutcome (fun s' docs => Applied s ops docs s') (s.apply ops) (ops.execute s.find?) := by
  have hrun := Transaction.runOn_sameOutcome
    (fun op hop => (Transaction.contains_workingCopy ops s.collections _).2 ⟨op, hop, rfl⟩)
    (Transaction.copiesOf_workingCopy ops s.collections)
  unfold Snapshot.apply Transaction.applyTo
  change SameOutcome _ _ (ops.execute s.collections.find?)
  generalize Transaction.runOn ops (Transaction.workingCopy ops s.collections) = ran at hrun ⊢
  generalize ops.execute s.collections.find? = executed at hrun ⊢
  cases hrun with
  | error e => exact .error e
  | ok hcopies => exact .ok (applied_of_copies hcopies)

/-- A store applies a transaction just when carrying its operations out one at a time never fails.
It then holds the documents so reached, and only named collections that hold a document come into
being; otherwise the error is that of the first operation that fails, and the store is as it was. -/
theorem apply_as_sequence (s : Snapshot) (ops : Transaction) (disk : Disk) :
    let after := MemoryStore.apply ops ⟨s⟩ disk
    match ops.execute s.find? with
    | .ok docs =>
        after.result = .ok () ∧ s.apply ops = .ok after.store.snapshot ∧
          Applied s ops docs after.store.snapshot
    | .error e =>
        after.result = .error e ∧ s.apply ops = .error e ∧ after.store.snapshot = s ∧
          ∃ done op rest docs, ops = done ++ op :: rest ∧
            Transaction.execute done s.find? = .ok docs ∧ op.execute docs = .error e := by
  have hsame := apply_sameOutcome s ops
  unfold MemoryStore.apply
  cases hexec : ops.execute s.find? with
  | error e =>
      rw [hexec] at hsame
      generalize s.apply ops = applied at hsame ⊢
      cases hsame with
      | error => exact ⟨rfl, rfl, rfl, Transaction.execute_error_iff.1 hexec⟩
  | ok docs =>
      rw [hexec] at hsame
      generalize s.apply ops = applied at hsame ⊢
      cases hsame with
      | ok h => exact ⟨rfl, rfl, h⟩

end Snapshot
end FleetUpgrade
