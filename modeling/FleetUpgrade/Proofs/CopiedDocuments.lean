import FleetUpgrade.Proofs.DocumentFields

/-! # Documents stored anew

An id never changes, so a document gets a new one by being stored anew: its copy
begins with the new id, leaves the bookkeeping and certain other fields behind,
and may say something else in one field. All else is as it was, in the same order.
-/

namespace FleetUpgrade

namespace Fields

/-- The same names in the same order, with the same values except under one name. -/
def SameBut (name : Option String) : Fields → Fields → Prop :=
  List.Forall₂ fun old new => new.1 = old.1 ∧ (name ≠ some old.1 → new.2 = old.2)

theorem SameBut.refl (name : Option String) (fields : Fields) : SameBut name fields fields :=
  List.forall₂_same.2 fun _ _ => ⟨rfl, fun _ => rfl⟩

theorem SameBut.filter {name : Option String} {old new : Fields} (h : SameBut name old new)
    (p : String → Bool) :
    SameBut name (List.filter (fun field => p field.1) old)
      (List.filter (fun field => p field.1) new) := by
  induction h with
  | nil => exact .nil
  | @cons before after _ _ hsame _ ih =>
      simp only [List.filter_cons, hsame.1]
      split
      · exact .cons hsame ih
      · exact ih

theorem sameBut_put {fields : Fields} {name : String} (value : Value)
    (h : (get? fields name).isSome = true) : SameBut (some name) fields (put name value fields) := by
  induction fields with
  | nil => cases h
  | cons field rest ih =>
      obtain ⟨key, old⟩ := field
      unfold put
      by_cases hkey : key = name
      · subst hkey
        rw [if_pos rfl]
        exact .cons ⟨rfl, fun hne => absurd rfl hne⟩ (SameBut.refl _ rest)
      · rw [if_neg hkey]
        refine .cons ⟨rfl, fun _ => rfl⟩ (ih ?_)
        simpa [get?, Table.lookup, hkey] using h

end Fields

namespace Document

theorem fields_inserted (id : String) (body : Document) :
    (inserted id body).fields = (idField, .string id) :: Fields.erase idField body.fields := rfl

/-- A copy of a document under another id: the id comes first, the bookkeeping and the dropped
fields are gone, and at most one field was rewritten. -/
structure StoredAnew (newId : String) (dropped : List String) (rewritten : Option (String × Value))
    (old new : Document) : Prop where
  id_first : new.fields.head? = some (idField, .string newId)
  fields : Fields.SameBut (rewritten.map Prod.fst)
    (old.fields.filter fun field => decide (field.1 ∉ bookkeepingFields ++ dropped))
    new.fields.tail
  rewritten : ∀ name value, rewritten = some (name, value) →
    name ∉ bookkeepingFields ++ dropped → old.contains name = true → new.get? name = some value

def rewrittenCopy (d : Document) (rewritten : Option (String × Value)) : Document :=
  match rewritten with
  | none => d.withoutBookkeeping
  | some (name, value) => d.withoutBookkeeping.replace name value

theorem sameBut_rewrittenCopy (d : Document) (rewritten : Option (String × Value)) :
    Fields.SameBut (rewritten.map Prod.fst) d.withoutBookkeeping.fields
      (d.rewrittenCopy rewritten).fields := by
  unfold rewrittenCopy
  split
  · exact .refl _ _
  · unfold replace
    split
    · next hthere => exact Fields.sameBut_put _ hthere
    · exact .refl _ _

theorem storedAnew_inserted (d : Document) (newId : String) (dropped : List String)
    (rewritten : Option (String × Value)) :
    StoredAnew newId dropped rewritten d
      (inserted newId ((d.rewrittenCopy rewritten).without dropped)) := by
  refine ⟨rfl, ?_, fun name value hrewritten hname hthere => ?_⟩
  · rw [fields_inserted, List.tail_cons, Fields.erase, fields_without, List.filter_filter]
    have hcopy := (sameBut_rewrittenCopy d rewritten).filter fun name =>
      decide (name ≠ idField) && decide (name ∉ dropped)
    rw [withoutBookkeeping, fields_without, List.filter_filter] at hcopy
    -- the id is one of the bookkeeping fields
    have hdropped : ∀ field : String × Value,
        ((decide (field.1 ≠ idField) && decide (field.1 ∉ dropped)) &&
            decide (field.1 ∉ bookkeepingFields)) =
          decide (field.1 ∉ bookkeepingFields ++ dropped) := by
      intro field
      by_cases hid : field.1 = idField
      · simp [hid, bookkeepingFields]
      · simp [hid, and_comm]
    simp only [hdropped] at hcopy
    exact hcopy
  · obtain ⟨old, hold⟩ := Option.isSome_iff_exists.1 hthere
    rw [List.mem_append, not_or] at hname
    have hne : name ≠ idField := by
      rintro rfl
      exact hname.1 (by simp [bookkeepingFields])
    have hkept : d.withoutBookkeeping.get? name = some old := by
      rw [withoutBookkeeping, get?_without d hname.1, hold]
    rw [get?_inserted _ hne, get?_without _ hname.2, hrewritten]
    exact get?_replace_self _ hkept

end Document
end FleetUpgrade
