import FleetUpgrade.Proofs.Effects
import FleetUpgrade.Proofs.Except

/-! # Documents keep the ids they are stored under

No update can reach a document's id: the path of the id is refused, a longer
path that starts with it meets a string, and every other path leads elsewhere.
So a store whose documents stand under their ids stays such a store.
-/

namespace FleetUpgrade

theorem Path.segments_idField : Path.segments Document.idField = [Document.idField] := by decide

theorem Path.eq_of_segments_eq {path segment : String} (h : Path.segments path = [segment]) :
    path = segment := by
  unfold Path.segments at h
  obtain ⟨part, hpart, rfl⟩ := List.map_eq_singleton_iff.1 h
  have hjoin := Text.joinWith_segments '.' path.toList
  rw [hpart] at hjoin
  change part = path.toList at hjoin
  rw [hjoin, String.ofList_toList]

theorem Path.segments_ne_nil (path : String) : Path.segments path ≠ [] := by
  unfold Path.segments
  simpa using Text.segments_ne_nil '.' path.toList

namespace Document

theorem getPath_idField (d : Document) : d.getPath idField = d.get? idField := by
  unfold getPath
  rw [Path.segments_idField]
  change (Fields.get? d.fields idField).bind (Value.getAt []) = Fields.get? d.fields idField
  cases Fields.get? d.fields idField <;> rfl

theorem id_eq_ok_iff {d : Document} {i : String} :
    d.id = .ok i ↔ d.get? idField = some (.string i) := by
  unfold id getString require
  rw [getPath_idField]
  cases d.get? idField with
  | none => simp
  | some v => cases v <;> simp

/-- Writing a value at a path other than the id's keeps the id. -/
theorem id_setPath {d d' : Document} {path i : String} {v : Value} (hid : d.id = .ok i)
    (hpath : path ≠ idField) (h : d.setPath path v = (d', none)) : d'.id = .ok i := by
  rw [id_eq_ok_iff] at hid ⊢
  unfold setPath at h
  cases hs : Path.segments path with
  | nil => exact absurd hs (Path.segments_ne_nil path)
  | cons segment rest =>
      rw [hs] at h
      simp only [Value.ofDocument, Value.setAt] at h
      split at h
      · simp at h
      · simp only [Prod.mk.injEq] at h
        obtain ⟨rfl, hok⟩ := h
        change Fields.get? (Fields.put segment _ d.fields) idField = _
        rw [Fields.get?_put]
        split
        · next he =>
            subst he
            change Fields.get? d.fields idField = some (.string i) at hid
            rw [hid] at hok
            cases rest with
            | nil => exact absurd (Path.eq_of_segments_eq hs) hpath
            | cons next rest => simp [Value.setAt] at hok
        · exact hid

theorem id_unsetPath {d : Document} {path i : String} (hid : d.id = .ok i)
    (hpath : path ≠ idField) : (d.unsetPath path).id = .ok i := by
  rw [id_eq_ok_iff] at hid ⊢
  unfold unsetPath
  cases hs : Path.segments path with
  | nil => exact absurd hs (Path.segments_ne_nil path)
  | cons segment rest =>
      cases rest with
      | nil =>
          have hne : segment ≠ idField := fun he => hpath ((Path.eq_of_segments_eq hs).trans he)
          change Fields.get? (Fields.erase segment d.fields) idField = _
          rw [Fields.get?_erase, if_neg hne]
          exact hid
      | cons next rest =>
          simp only [Value.ofDocument, Value.unsetAt]
          cases hc : Fields.get? d.fields segment with
          | none => exact hid
          | some child =>
              change Fields.get? (Fields.put segment _ d.fields) idField = _
              rw [Fields.get?_put]
              split
              · next he =>
                  subst he
                  have hchild : child = .string i := by
                    rw [get?, hc] at hid
                    exact Option.some.inj hid
                  rw [hchild]
                  simp [Value.unsetAt]
              · exact hid

theorem id_inserted (id : String) (body : Document) : (inserted id body).id = .ok id := by
  rw [id_eq_ok_iff]
  simp [inserted, get?, withId, insert, empty, Fields.put, Fields.get?, Table.lookup]

end Document

namespace Update

theorem id_setOne {d d' : Document} {entry : String × Value} {i : String} (hid : d.id = .ok i)
    (h : setOne d entry = .ok d') : d'.id = .ok i := by
  unfold setOne at h
  split at h
  · cases h
  · next hpath =>
      split at h
      · cases h
      · next next hset =>
          cases h
          exact Document.id_setPath hid hpath hset

theorem id_clearOne {d d' : Document} {path i : String} (hid : d.id = .ok i)
    (h : clearOne d path = .ok d') : d'.id = .ok i := by
  unfold clearOne at h
  split at h
  · cases h
  · next hpath =>
      cases h
      exact Document.id_unsetPath hid hpath

/-- An update that succeeds keeps the id of its document. -/
theorem id_execute {u : Update} {d d' : Document} {i : String} (hid : d.id = .ok i)
    (h : u.execute d = .ok d') : d'.id = .ok i := by
  obtain ⟨between, hsets, hclears⟩ := Except.bind_eq_ok.1 h
  have hbetween : between.id = .ok i :=
    List.foldlM_ok_induction (P := fun now => now.id = .ok i) hsets hid
      fun _ _ _ hbefore hset => id_setOne hbefore hset
  exact List.foldlM_ok_induction (P := fun now => now.id = .ok i) hclears hbetween
    fun _ _ _ hbefore hclear => id_clearOne hbefore hclear

end Update

def Documents.Keyed (docs : Documents) : Prop :=
  ∀ name id d, docs name id = some d → d.id = .ok id

def Snapshot.Keyed (s : Snapshot) : Prop := Documents.Keyed s.find?

/-- Only the documents that a snapshot holds have to be looked at. -/
theorem Snapshot.keyed_iff (s : Snapshot) :
    s.Keyed ↔ ∀ c ∈ s.collections.entries, ∀ entry ∈ c.2.entries, entry.2.id = .ok entry.1 :=
  (forall_entries_iff s).symm

instance (s : Snapshot) : Decidable s.Keyed := decidable_of_iff _ s.keyed_iff.symm

theorem Operation.execute_keyed {op : Operation} {docs docs' : Documents} (hk : docs.Keyed)
    (h : op.execute docs = .ok docs') : docs'.Keyed := by
  obtain ⟨-, -, hb⟩ := execute_spec h
  intro name id d hd
  by_cases hplace : name = op.collection ∧ id = op.id
  · obtain ⟨rfl, rfl⟩ := hplace
    have hold := hk op.collection op.id
    rw [hd] at hb
    generalize docs op.collection op.id = old at hb hold
    cases hb with
    | kept => exact hold d rfl
    | inserted body hc => exact Document.id_inserted op.id body
    | updated changes hc hu => exact Update.id_execute (hold _ rfl) hu
  · rw [execute_other h hplace] at hd
    exact hk name id d hd

theorem Transaction.execute_keyed {ops : Transaction} {docs docs' : Documents} (hk : docs.Keyed)
    (h : execute ops docs = .ok docs') : docs'.Keyed :=
  execute_induction h hk fun _ _ _ _ hbefore hop => Operation.execute_keyed hbefore hop

namespace Snapshot

theorem Keyed.apply {s s' : Snapshot} {ops : Transaction} (hk : s.Keyed)
    (h : s.apply ops = .ok s') : s'.Keyed :=
  Transaction.execute_keyed hk (apply_ok h).1

theorem Keyed.dropCollection {s : Snapshot} (hk : s.Keyed) (name : String) :
    (s.dropCollection name).Keyed := by
  intro other id d hd
  rw [find?_dropCollection] at hd
  split at hd
  · cases hd
  · exact hk other id d hd

end Snapshot
end FleetUpgrade
