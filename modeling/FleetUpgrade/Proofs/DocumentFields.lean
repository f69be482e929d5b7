import FleetUpgrade.Plan.DocId
import FleetUpgrade.Proofs.Keyed

/-! # Fields after an update

What stands at a path after it was written, and what stands at the top-level
names that a path does not start with. A path without dots is a top-level name,
so reading, writing and clearing it are the operations on that field.
-/

namespace FleetUpgrade

namespace Text

theorem stripLead_eq_some_iff {lead text rest : String} :
    stripLead lead text = some rest ↔ text = lead ++ rest := by
  unfold stripLead
  simp only [Option.map_eq_some_iff, List.isPrefixOf?_eq_some_iff_append_eq]
  constructor
  · rintro ⟨cs, hcs, rfl⟩
    apply String.toList_inj.1
    simp [hcs]
  · rintro rfl
    exact ⟨rest.toList, by simp, by simp⟩

theorem stripLead_eq_none_iff {lead text : String} :
    stripLead lead text = none ↔ ∀ rest, text ≠ lead ++ rest := by
  rw [Option.eq_none_iff_forall_ne_some]
  simp only [ne_eq, stripLead_eq_some_iff]

end Text

/-! ## Top-level fields -/

namespace Fields

theorem put_put (name : String) (value other : Value) (fields : Fields) :
    put name value (put name other fields) = put name value fields := by
  induction fields with
  | nil => simp [put]
  | cons field rest ih =>
      obtain ⟨key, old⟩ := field
      by_cases hkey : key = name
      · simp [put, hkey]
      · simp [put, hkey, ih]

theorem filter_put {p : String → Bool} {name : String} (value : Value) (hname : p name = false)
    (fields : Fields) :
    (put name value fields).filter (fun field => p field.1) =
      fields.filter fun field => p field.1 := by
  induction fields with
  | nil => simp [put, hname]
  | cons field rest ih =>
      obtain ⟨key, old⟩ := field
      by_cases hkey : key = name
      · simp [put, hkey, hname]
      · simp [put, hkey, List.filter_cons, ih]

end Fields

namespace Document

@[simp] theorem get?_insert (d : Document) (name other : String) (value : Value) :
    (d.insert name value).get? other = if name = other then some value else d.get? other :=
  Fields.get?_put d.fields name other value

@[simp] theorem get?_remove (d : Document) (name other : String) :
    (d.remove name).get? other = if name = other then none else d.get? other :=
  Fields.get?_erase d.fields name other

theorem get?_without (d : Document) {names : List String} {name : String} (h : name ∉ names) :
    (d.without names).get? name = d.get? name := by
  unfold without
  induction names generalizing d with
  | nil => rfl
  | cons first names ih =>
      simp only [List.mem_cons, not_or] at h
      rw [List.foldl_cons, ih _ h.2, get?_remove, if_neg (Ne.symm h.1)]

theorem get?_without_of_mem (d : Document) {names : List String} {name : String}
    (h : name ∈ names) : (d.without names).get? name = none := by
  unfold without
  induction names generalizing d with
  | nil => cases h
  | cons first names ih =>
      rw [List.foldl_cons]
      by_cases hlater : name ∈ names
      · exact ih (d.remove first) hlater
      · have hfirst : first = name := by
          rcases List.mem_cons.1 h with rfl | hin
          · rfl
          · exact absurd hin hlater
        exact (get?_without (d.remove first) hlater).trans (by rw [get?_remove, if_pos hfirst])

theorem fields_without (d : Document) (names : List String) :
    (d.without names).fields = d.fields.filter fun field => decide (field.1 ∉ names) := by
  unfold without
  induction names generalizing d with
  | nil => simp
  | cons name names ih =>
      rw [List.foldl_cons, ih, remove, Fields.erase, List.filter_filter]
      refine List.filter_congr fun field _ => ?_
      simp [Bool.and_comm]

theorem without_insert (d : Document) {names : List String} {name : String} (value : Value)
    (h : name ∈ names) : (d.insert name value).without names = d.without names := by
  have hfields := Fields.filter_put (p := fun key => decide (key ∉ names)) value
    (by simpa using h) d.fields
  have hsame : ((d.insert name value).without names).fields = (d.without names).fields := by
    rw [fields_without, fields_without]
    exact hfields
  exact congrArg mk hsame

theorem without_without (d : Document) {names more : List String} (h : names ⊆ more) :
    (d.without names).without more = d.without more := by
  have hsame : ((d.without names).without more).fields = (d.without more).fields := by
    rw [fields_without, fields_without, fields_without, List.filter_filter]
    refine List.filter_congr fun field _ => ?_
    by_cases hmem : field.1 ∈ names
    · simp [hmem, h hmem]
    · simp [hmem]
  exact congrArg mk hsame

theorem without_remove (d : Document) {names : List String} {name : String} (h : name ∈ names) :
    (d.remove name).without names = d.without names := by
  have hsub : [name] ⊆ names := by simpa using h
  exact without_without d hsub

theorem insert_insert (d : Document) (name : String) (value other : Value) :
    (d.insert name other).insert name value = d.insert name value :=
  congrArg mk (Fields.put_put name value other d.fields)

theorem get?_replace_self (d : Document) {name : String} {value old : Value}
    (h : d.get? name = some old) : (d.replace name value).get? name = some value := by
  have hthere : d.contains name = true := by simp [contains, h]
  simp [replace, hthere]

theorem get?_inserted {id name : String} (body : Document) (h : name ≠ idField) :
    (inserted id body).get? name = body.get? name := by
  have hbody := Fields.get?_erase body.fields idField name
  rw [if_neg (Ne.symm h)] at hbody
  simp only [inserted, get?, withId, insert, empty, Fields.put, List.cons_append, List.nil_append]
  rw [← hbody]
  simp [Fields.get?, Table.lookup, Ne.symm h]

end Document

/-! ## Paths -/

namespace Value

theorem getAt_setAt {path : String} {new : Value} {segments : List String} {v v' : Value}
    (h : setAt path new segments v = (v', none)) : getAt segments v' = some new := by
  induction segments generalizing v v' with
  | nil =>
      cases h
      rfl
  | cons segment rest ih =>
      cases v with
      | document fields =>
          simp only [setAt] at h
          split at h
          · cases h
          · simp only [Prod.mk.injEq] at h
            obtain ⟨rfl, hchild⟩ := h
            simp only [getAt, Fields.get?_put, if_true, Option.bind_some]
            exact ih (Prod.ext rfl hchild)
      | list items =>
          simp only [setAt] at h
          split at h
          · cases h
          · next i item hindex =>
              simp only [Prod.mk.injEq] at h
              obtain ⟨rfl, hchild⟩ := h
              obtain ⟨_, hi, hitem⟩ := Option.bind_eq_some_iff.1 hindex
              obtain ⟨_, hfound, hpair⟩ := Option.map_eq_some_iff.1 hitem
              cases hpair
              have hlt : i < items.length := (List.getElem?_eq_some_iff.1 hfound).1
              simp only [getAt, hi, Option.bind_some, List.getElem?_set_self hlt]
              exact ih (Prod.ext rfl hchild)
      | null => simp [setAt] at h
      | bool b => simp [setAt] at h
      | int i => simp [setAt] at h
      | float x => simp [setAt] at h
      | string s => simp [setAt] at h

end Value

namespace Document

section

variable {d d' : Document} {path name : String} {value : Value}

theorem getPath_setPath (h : d.setPath path value = (d', none)) :
    d'.getPath path = some value := by
  unfold setPath at h
  obtain ⟨hd', hok⟩ := Prod.mk.inj h
  have hwritten := Value.getAt_setAt (Prod.ext rfl hok :
    Value.setAt path value (Path.segments path) (Value.ofDocument d) = (_, none))
  cases hs : Path.segments path with
  | nil => exact absurd hs (Path.segments_ne_nil path)
  | cons segment rest =>
      -- what a document becomes is a document
      rw [hs] at hd' hok hwritten
      simp only [Value.ofDocument, Value.setAt] at hd' hok hwritten
      split at hok
      · cases hok
      · next hsegment =>
          rw [if_neg hsegment] at hd' hwritten
          subst hd'
          unfold getPath
          rw [hs]
          exact hwritten

theorem get?_setPath_of_ne (hname : ∀ rest, Path.segments path ≠ name :: rest) :
    (d.setPath path value).1.get? name = d.get? name := by
  unfold setPath
  cases hs : Path.segments path with
  | nil => exact absurd hs (Path.segments_ne_nil path)
  | cons segment rest =>
      have hne : segment ≠ name := fun he => hname rest (by rw [hs, he])
      simp only [Value.ofDocument, Value.setAt]
      split
      · rfl
      · simp only [ofValue, get?, Fields.get?_put, if_neg hne]

theorem getPath_of_plain (hplain : Path.segments name = [name]) : d.getPath name = d.get? name := by
  unfold getPath
  rw [hplain]
  change (Fields.get? d.fields name).bind (Value.getAt []) = Fields.get? d.fields name
  cases Fields.get? d.fields name <;> rfl

theorem setPath_of_plain (hplain : Path.segments name = [name]) (hne : name ≠ "") :
    d.setPath name value = (d.insert name value, none) := by
  unfold setPath
  rw [hplain]
  simp only [Value.ofDocument, Value.setAt, if_neg hne]
  rfl

theorem unsetPath_of_plain (hplain : Path.segments name = [name]) :
    d.unsetPath name = d.remove name := by
  unfold unsetPath
  rw [hplain]
  rfl

/-- The document under a field; one that is missing counts as one without fields. -/
def inner? (d : Document) (name : String) : Option Document :=
  match d.get? name with
  | none => some .empty
  | some (.document fields) => some ⟨fields⟩
  | some _ => none

@[simp] theorem inner?_insert (d inner : Document) (name : String) :
    (d.insert name inner).inner? name = some inner := by
  unfold inner?
  rw [get?_insert, if_pos rfl]
  rfl

theorem setPath_of_nested {outer : String} (hpath : Path.segments path = [outer, name])
    (houter : outer ≠ "") (hne : name ≠ "") (hindex : Path.index? name = none) :
    d.setPath path value = (d', none) ↔
      ∃ inner, d.inner? outer = some inner ∧ d' = d.insert outer (inner.insert name value) := by
  unfold setPath inner? get?
  rw [hpath]
  simp only [Value.ofDocument, Value.setAt, if_neg houter]
  cases Fields.get? d.fields outer with
  | none => simp [Value.setAt, hne, ofValue, insert, empty, eq_comm]
  | some v =>
      cases v with
      | document fields => simp [Value.setAt, hne, ofValue, insert, eq_comm]
      | list items => simp [Value.setAt, hindex]
      | null => simp [Value.setAt]
      | bool b => simp [Value.setAt]
      | int i => simp [Value.setAt]
      | float x => simp [Value.setAt]
      | string s => simp [Value.setAt]

theorem unsetPath_of_nested {outer : String} {inner : Document}
    (hpath : Path.segments path = [outer, name]) (h : d.get? outer = some (.ofDocument inner)) :
    d.unsetPath path = d.insert outer (inner.remove name) := by
  have hfound : Fields.get? d.fields outer = some (.document inner.fields) := h
  unfold unsetPath
  rw [hpath]
  simp only [Value.ofDocument, Value.unsetAt, hfound]
  rfl

theorem require_eq_ok_iff (hplain : Path.segments name = [name]) :
    d.require name = .ok value ↔ d.get? name = some value := by
  unfold require
  rw [getPath_of_plain hplain]
  cases d.get? name <;> simp

theorem getString_eq_ok_iff {text : String} (hplain : Path.segments name = [name]) :
    d.getString name = .ok text ↔ d.get? name = some (.string text) := by
  unfold getString
  rw [← require_eq_ok_iff hplain]
  cases d.require name with
  | error e => simp
  | ok v => cases v <;> simp

theorem getList_eq_ok_iff {items : List Value} (hplain : Path.segments name = [name]) :
    d.getList name = .ok items ↔ d.get? name = some (.list items) := by
  unfold getList
  rw [← require_eq_ok_iff hplain]
  cases d.require name with
  | error e => simp
  | ok v => cases v <;> simp

theorem getString?_eq_ok_some_iff {text : String} (hplain : Path.segments name = [name]) :
    d.getString? name = .ok (some text) ↔ d.get? name = some (.string text) := by
  unfold getString?
  rw [getPath_of_plain hplain]
  cases d.get? name with
  | none => simp
  | some v => cases v <;> simp

theorem getString?_eq_ok_none_iff (hplain : Path.segments name = [name]) :
    d.getString? name = .ok none ↔ d.get? name = none := by
  unfold getString?
  rw [getPath_of_plain hplain]
  cases d.get? name with
  | none => simp
  | some v => cases v <;> simp

end

end Document
end FleetUpgrade
