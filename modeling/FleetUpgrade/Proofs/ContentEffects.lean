import FleetUpgrade.Proofs.Contents
import FleetUpgrade.Proofs.Effects
import FleetUpgrade.Proofs.Except

/-! # What transactions keep of the contents

A property of values that documents keep while fields are put and taken out is
kept by every transaction that writes only values with the property, and a
transaction that is refused changes nothing. So a store never holds a document
with a name twice, and a store without binary64 numbers stays one.
-/

namespace FleetUpgrade

namespace Fields

variable {fields : Fields} {name : String} {value : Value} {field : String × Value}

theorem mem_put (h : field ∈ put name value fields) : field = (name, value) ∨ field ∈ fields := by
  induction fields with
  | nil => exact Or.inl (List.mem_singleton.1 h)
  | cons first rest ih =>
      unfold put at h
      split at h
      · rcases List.mem_cons.1 h with hfirst | hrest
        · exact Or.inl hfirst
        · exact Or.inr (List.mem_cons_of_mem first hrest)
      · rcases List.mem_cons.1 h with hfirst | hrest
        · exact Or.inr (hfirst ▸ List.mem_cons_self)
        · exact (ih hrest).imp_right (List.mem_cons_of_mem first)

theorem names_put (name : String) (value : Value) (fields : Fields) :
    names (put name value fields) =
      if name ∈ names fields then names fields else names fields ++ [name] := by
  induction fields with
  | nil => rfl
  | cons first rest ih =>
      obtain ⟨key, old⟩ := first
      unfold put
      by_cases hkey : key = name
      · subst hkey
        rw [if_pos rfl]
        exact (if_pos List.mem_cons_self).symm
      · have hstep : names ((key, old) :: put name value rest) =
            key :: names (put name value rest) := rfl
        have hmem : name ∈ names ((key, old) :: rest) ↔ name ∈ names rest :=
          ⟨fun h => (List.mem_cons.1 h).resolve_left (Ne.symm hkey), List.mem_cons_of_mem key⟩
        rw [if_neg hkey, hstep, ih]
        simp only [hmem]
        split <;> rfl

theorem nodup_put (h : (names fields).Nodup) : (names (put name value fields)).Nodup := by
  rw [names_put]
  split
  · exact h
  · next hfresh =>
      refine List.nodup_append.2 ⟨h, by simp, ?_⟩
      rintro other hother _ hsame rfl
      exact hfresh (List.mem_singleton.1 hsame ▸ hother)

theorem put_of_not_mem (h : name ∉ names fields) :
    put name value fields = fields ++ [(name, value)] := by
  induction fields with
  | nil => rfl
  | cons field rest ih =>
      obtain ⟨hne, hrest⟩ := not_or.1 (mt List.mem_cons.2 h)
      rw [put, if_neg (Ne.symm hne), ih hrest, List.cons_append]

theorem collapse_of_nodup {fields : Fields} (h : (names fields).Nodup) :
    collapse fields = fields := by
  have hfold : ∀ (rest done : Fields), (names (done ++ rest)).Nodup →
      rest.foldl (fun done field => put field.1 field.2 done) done = done ++ rest := by
    intro rest
    induction rest with
    | nil => exact fun done _ => (List.append_nil done).symm
    | cons field rest ih =>
        intro done hdone
        have hfresh : field.1 ∉ names done := by
          unfold names at hdone
          rw [List.map_append, List.nodup_append] at hdone
          exact fun hmem => hdone.2.2 _ hmem _ List.mem_cons_self rfl
        have hsplit : done ++ field :: rest = done ++ [field] ++ rest := by simp
        rw [hsplit] at hdone ⊢
        rw [List.foldl_cons, put_of_not_mem hfresh]
        exact ih _ hdone
  exact hfold fields [] h

theorem nodup_erase (h : (names fields).Nodup) : (names (erase name fields)).Nodup :=
  h.sublist (List.filter_sublist.map Prod.fst)

theorem not_mem_names_erase : name ∉ names (erase name fields) := by
  intro h
  obtain ⟨field, hfield, hname⟩ := List.mem_map.1 h
  exact of_decide_eq_true (List.mem_filter.1 hfield).2 hname

end Fields

namespace Value

/-- A property that documents keep while fields are put and taken out, and that a document with an
id and values like null have from the beginning. -/
structure Kept (p : Value → Bool) : Prop where
  null : p .null = true
  string : ∀ s, p (.string s) = true
  list : ∀ items, p (.list items) = true
  empty : p (.document []) = true
  put : ∀ fields name value, p (.document fields) = true →
    p (.document (Fields.put name value fields)) = true
  erase : ∀ fields name, p (.document fields) = true →
    p (.document (Fields.erase name fields)) = true
  withId : ∀ fields id, p (.document fields) = true →
    p (.document ((Document.idField, .string id) :: Fields.erase Document.idField fields)) = true

theorem kept_noFloat : Kept noFloat where
  null := rfl
  string _ := rfl
  list _ := rfl
  empty := rfl
  put _ _ _ _ := rfl
  erase _ _ _ := rfl
  withId _ _ _ := rfl

theorem kept_namesOnce : Kept namesOnce where
  null := decide_eq_true List.nodup_nil
  string _ := decide_eq_true List.nodup_nil
  list _ := decide_eq_true List.nodup_nil
  empty := decide_eq_true List.nodup_nil
  put _ _ _ h := decide_eq_true (Fields.nodup_put (of_decide_eq_true h))
  erase _ _ h := decide_eq_true (Fields.nodup_erase (of_decide_eq_true h))
  withId _ _ h := decide_eq_true
    (List.nodup_cons.2 ⟨Fields.not_mem_names_erase, Fields.nodup_erase (of_decide_eq_true h)⟩)

section

variable {p : Value → Bool} {fields : Fields} {items : List Value} {v new : Value}

theorem all_of_mem_items (h : (Value.list items).all p = true) (hmem : v ∈ items) :
    v.all p = true :=
  allItems_iff.1 (all_list.1 h).2 v hmem

theorem all_of_get? {name : String} (h : (Value.document fields).all p = true)
    (hget : Fields.get? fields name = some v) : v.all p = true :=
  allFields_iff.1 (all_document.1 h).2 (name, v) (Table.mem_of_lookup hget)

theorem mem_of_index {segment : String} {i : Nat}
    (h : ((Path.index? segment).bind fun i => items[i]?.map fun item => (i, item)) = some (i, v)) :
    v ∈ items := by
  obtain ⟨j, -, hj⟩ := Option.bind_eq_some_iff.1 h
  obtain ⟨item, hitem, hpair⟩ := Option.map_eq_some_iff.1 hj
  cases hpair
  exact List.mem_of_getElem? hitem

theorem all_set_item {i : Nat} (hp : Kept p) (h : (Value.list items).all p = true)
    (hnew : new.all p = true) : (Value.list (items.set i new)).all p = true := by
  refine all_list.2 ⟨hp.list _, allItems_iff.2 fun item hitem => ?_⟩
  rcases List.mem_or_eq_of_mem_set hitem with hold | rfl
  · exact all_of_mem_items h hold
  · exact hnew

theorem all_put {name : String} (hp : Kept p) (h : (Value.document fields).all p = true)
    (hnew : new.all p = true) :
    (Value.document (Fields.put name new fields)).all p = true := by
  obtain ⟨hself, hfields⟩ := all_document.1 h
  refine all_document.2 ⟨hp.put fields name new hself, allFields_iff.2 fun field hfield => ?_⟩
  rcases Fields.mem_put hfield with rfl | hold
  · exact hnew
  · exact allFields_iff.1 hfields field hold

theorem all_erase {name : String} (hp : Kept p) (h : (Value.document fields).all p = true) :
    (Value.document (Fields.erase name fields)).all p = true := by
  obtain ⟨hself, hfields⟩ := all_document.1 h
  refine all_document.2 ⟨hp.erase fields name hself, allFields_iff.2 fun field hfield => ?_⟩
  exact allFields_iff.1 hfields field (List.mem_of_mem_filter hfield)

/-- Writing a value keeps a property, also when the writing fails on its way. -/
theorem all_setAt (hp : Kept p) (path : String) (segments : List String)
    (h : v.all p = true) (hnew : new.all p = true) :
    (setAt path new segments v).1.all p = true := by
  induction segments generalizing v with
  | nil => exact hnew
  | cons segment rest ih =>
      cases v with
      | document fields =>
          unfold setAt
          split
          · exact h
          · refine all_put hp h (ih ?_)
            cases hget : Fields.get? fields segment with
            -- where nothing stands, the writing goes on in an empty document
            | none => exact all_document.2 ⟨hp.empty, rfl⟩
            | some child => exact all_of_get? h hget
      | list items =>
          unfold setAt
          split
          · exact h
          · next i item hitem =>
              exact all_set_item hp h (ih (all_of_mem_items h (mem_of_index hitem)))
      | null => exact h
      | bool b => exact h
      | int i => exact h
      | float x => exact h
      | string s => exact h

theorem all_unsetAt (hp : Kept p) (segments : List String) (h : v.all p = true) :
    (unsetAt segments v).all p = true := by
  induction segments generalizing v with
  | nil =>
      unfold unsetAt
      exact h
  | cons segment rest ih =>
      cases v with
      | document fields =>
          cases rest with
          | nil => exact all_erase hp h
          | cons next rest =>
              unfold unsetAt
              split
              · exact h
              · next child hget => exact all_put hp h (ih (all_of_get? h hget))
      | list items =>
          have hchild : ∀ item ∈ items,
              (if rest = [] then .null else unsetAt rest item).all p = true := by
            intro item hitem
            split
            · exact hp.null
            · exact ih (all_of_mem_items h hitem)
          rw [unsetAt]
          split
          · exact h
          · next i item hitem =>
              exact all_set_item hp h (hchild item (mem_of_index hitem))
      | null => simpa [unsetAt] using h
      | bool b => simpa [unsetAt] using h
      | int i => simpa [unsetAt] using h
      | float x => simpa [unsetAt] using h
      | string s => simpa [unsetAt] using h

end

end Value

namespace Document

variable {p : Value → Bool} {d : Document} {v : Value}

theorem all_ofValue (hp : Value.Kept p) (h : v.all p = true) : (ofValue v).all p = true := by
  have hempty : empty.all p = true := Value.all_document.2 ⟨hp.empty, rfl⟩
  cases v with
  | document fields => exact h
  | null => exact hempty
  | bool b => exact hempty
  | int i => exact hempty
  | float x => exact hempty
  | string s => exact hempty
  | list items => exact hempty

theorem all_setPath (hp : Value.Kept p) (path : String) (h : d.all p = true)
    (hv : v.all p = true) : (d.setPath path v).1.all p = true :=
  all_ofValue hp (Value.all_setAt hp path (Path.segments path) h hv)

theorem all_unsetPath (hp : Value.Kept p) (path : String) (h : d.all p = true) :
    (d.unsetPath path).all p = true :=
  all_ofValue hp (Value.all_unsetAt hp (Path.segments path) h)

theorem all_inserted (hp : Value.Kept p) (id : String) (h : d.all p = true) :
    (inserted id d).all p = true := by
  have herased : (Value.document (Fields.erase idField d.fields)).all p = true :=
    Value.all_erase hp h
  refine Value.all_document.2 ⟨hp.withId d.fields id (Value.all_document.1 h).1, ?_⟩
  have hid : (Value.string id).all p = true := hp.string id
  exact Bool.and_eq_true_iff.2 ⟨hid, (Value.all_document.1 herased).2⟩

end Document

theorem Update.all_execute {p : Value → Bool} {u : Update} {d d' : Document} (hp : Value.Kept p)
    (hset : u.set.all p = true) (h : d.all p = true) (hexec : u.execute d = .ok d') :
    d'.all p = true := by
  obtain ⟨between, hsets, hclears⟩ := Except.bind_eq_ok.1 hexec
  have hvalues := Value.allFields_iff.1 (Value.all_document.1 hset).2
  have hbetween : between.all p = true := by
    refine List.foldlM_ok_induction_mem (P := fun now => now.all p = true) hsets h ?_
    intro entry hentry before after hbefore hone
    unfold setOne at hone
    split at hone
    · cases hone
    · have hwritten := Document.all_setPath hp entry.1 hbefore (hvalues entry hentry)
      split at hone
      · cases hone
      · next hpath =>
          cases hone
          rwa [hpath] at hwritten
  refine List.foldlM_ok_induction (P := fun now => now.all p = true) hclears hbetween ?_
  intro path before after hbefore hone
  unfold clearOne at hone
  split at hone
  · cases hone
  · cases hone
    exact Document.all_unsetPath hp path hbefore

def Documents.All (p : Value → Bool) (docs : Documents) : Prop :=
  ∀ name id d, docs name id = some d → d.all p = true

section

variable {p : Value → Bool} {docs docs' : Documents}

theorem Operation.execute_all {op : Operation} (hp : Value.Kept p)
    (hop : op.change.all p = true) (h : docs.All p) (hexec : op.execute docs = .ok docs') :
    docs'.All p := by
  obtain ⟨-, -, hb⟩ := execute_spec hexec
  intro name id d hd
  by_cases hplace : name = op.collection ∧ id = op.id
  · obtain ⟨rfl, rfl⟩ := hplace
    have hold := h op.collection op.id
    rw [hd] at hb
    generalize docs op.collection op.id = old at hb hold
    cases hb with
    | kept => exact hold d rfl
    | inserted body hc =>
        rw [hc] at hop
        exact Document.all_inserted hp op.id hop
    | updated changes hc hu =>
        rw [hc] at hop
        exact Update.all_execute hp hop (hold _ rfl) hu
  · rw [execute_other hexec hplace] at hd
    exact h name id d hd

theorem Transaction.execute_all {ops : Transaction} (hp : Value.Kept p)
    (hops : Transaction.all p ops = true) (h : docs.All p) (hexec : execute ops docs = .ok docs') :
    docs'.All p :=
  execute_induction hexec h fun op hop _ _ hbefore hone =>
    Operation.execute_all hp (List.all_eq_true.1 hops op hop) hbefore hone

end

namespace Snapshot

variable {p : Value → Bool} {s s' : Snapshot}

theorem all_iff_find? :
    s.all p = true ↔
      Documents.All p s.find? ∧ ∀ ops ∈ s.pending, Transaction.all p ops = true := by
  rw [all_iff]
  exact and_congr_left' (forall_entries_iff (P := fun _ _ d => d.all p = true) s)

theorem all_apply {ops : Transaction} (hp : Value.Kept p) (hops : Transaction.all p ops = true)
    (h : s.all p = true) (happly : s.apply ops = .ok s') : s'.all p = true := by
  obtain ⟨hdocuments, hpending⟩ := all_iff_find?.1 h
  have hjournal : s'.pending = s.pending := by
    unfold apply at happly
    split at happly
    · cases happly
    · cases happly
      rfl
  refine all_iff_find?.2 ⟨Transaction.execute_all hp hops hdocuments (apply_ok happly).1, ?_⟩
  rwa [hjournal]

end Snapshot

end FleetUpgrade
