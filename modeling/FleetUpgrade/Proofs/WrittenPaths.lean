import FleetUpgrade.Proofs.PathFrames

/-! # What a write reaches

A write walks down the segments of its path. It fails exactly where the walk
meets something that it cannot pass (`Obstructed`), and then the documents that
it made on its way are all that has changed. If it succeeds, the value is read at
the path, and every path that diverges reads what it read before.
-/

namespace FleetUpgrade

namespace Value

/-- Neither a document nor a list, so that no path goes on below it. -/
def Scalar (v : Value) : Prop :=
  v.kind ≠ .document ∧ v.kind ≠ .list

instance (v : Value) : Decidable v.Scalar :=
  inferInstanceAs (Decidable (_ ∧ _))

/-- A walk from a value down some segments meets what it cannot pass, which makes this error. The
error names the whole path. Where a field is missing the walk goes on in the document that is made
for it. -/
inductive Obstructed (path : String) : List String → Value → FieldError → Prop
  | scalar {v : Value} (hscalar : v.Scalar) (s : String) (rest : List String) :
      Obstructed path (s :: rest) v (.wrongKind path .document v.kind)
  | noItem {s : String} {items : List Value}
      (hindex : ∀ i, Path.index? s = some i → items.length ≤ i) (rest : List String) :
      Obstructed path (s :: rest) (.list items) (.invalidPath path)
  | noName (fields : Fields) (rest : List String) :
      Obstructed path ("" :: rest) (.document fields) (.invalidPath path)
  | field {s : String} {rest : List String} {fields : Fields} {e : FieldError} (hname : s ≠ "")
      (below : Obstructed path rest ((Fields.get? fields s).getD (.document [])) e) :
      Obstructed path (s :: rest) (.document fields) e
  | item {s : String} {rest : List String} {items : List Value} {i : Nat} {c : Value}
      {e : FieldError} (hindex : Path.index? s = some i) (hitem : items[i]? = some c)
      (below : Obstructed path rest c e) : Obstructed path (s :: rest) (.list items) e

/-- Below a value two lists of segments diverge: in a document by their names, in a list where they
do not write the same index. -/
inductive Diverge : Value → List String → List String → Prop
  | names {s t : String} (hne : s ≠ t) (fields : Fields) (ps qs : List String) :
      Diverge (.document fields) (s :: ps) (t :: qs)
  | indices {s t : String} (hne : ∀ i, ¬(Path.index? s = some i ∧ Path.index? t = some i))
      (items : List Value) (ps qs : List String) : Diverge (.list items) (s :: ps) (t :: qs)
  | field {s : String} {fields : Fields} {ps qs : List String}
      (below : Diverge ((Fields.get? fields s).getD (.document [])) ps qs) :
      Diverge (.document fields) (s :: ps) (s :: qs)
  | item {s t : String} {items : List Value} {i : Nat} {c : Value} {ps qs : List String}
      (hs : Path.index? s = some i) (ht : Path.index? t = some i) (hitem : items[i]? = some c)
      (below : Diverge c ps qs) : Diverge (.list items) (s :: ps) (t :: qs)

variable {path s t : String} {new v w c : Value} {fields : Fields} {items : List Value} {i : Nat}
  {ps qs rest : List String} {e : FieldError}

theorem Diverge.ne_nil_left (h : Diverge v ps qs) : ps ≠ [] := by
  cases h <;> exact List.cons_ne_nil _ _

theorem Diverge.ne_nil_right (h : Diverge v ps qs) : qs ≠ [] := by
  cases h <;> exact List.cons_ne_nil _ _

/-! ## One segment of a write -/

theorem setAt_scalar (h : v.Scalar) :
    setAt path new (s :: rest) v = (v, some (.wrongKind path .document v.kind)) := by
  cases v with
  | document fields => exact absurd rfl h.1
  | list items => exact absurd rfl h.2
  | _ => rfl

theorem setAt_field (h : s ≠ "") :
    setAt path new (s :: rest) (.document fields) =
      (.document (Fields.put s
          (setAt path new rest ((Fields.get? fields s).getD (.document []))).1 fields),
        (setAt path new rest ((Fields.get? fields s).getD (.document []))).2) := by
  simp only [setAt, if_neg h]

theorem setAt_item (hindex : Path.index? s = some i) (hitem : items[i]? = some c) :
    setAt path new (s :: rest) (.list items) =
      (.list (items.set i (setAt path new rest c).1), (setAt path new rest c).2) := by
  simp only [setAt, hindex, hitem, Option.bind_some, Option.map_some]

theorem setAt_noItem (h : ∀ i, Path.index? s = some i → items.length ≤ i) :
    setAt path new (s :: rest) (.list items) = (.list items, some (.invalidPath path)) := by
  cases hindex : Path.index? s with
  | none => simp only [setAt, hindex, Option.bind_none]
  | some i =>
      have hitem : items[i]? = none := List.getElem?_eq_none (h i hindex)
      simp only [setAt, hindex, hitem, Option.bind_some, Option.map_none]

theorem item_or_noItem (s : String) (items : List Value) :
    (∃ i c, Path.index? s = some i ∧ items[i]? = some c) ∨
      ∀ i, Path.index? s = some i → items.length ≤ i := by
  by_cases hitem : ∃ i c, Path.index? s = some i ∧ items[i]? = some c
  · exact .inl hitem
  · exact .inr fun i hindex =>
      Nat.not_lt.1 fun hlt => hitem ⟨i, items[i], hindex, List.getElem?_eq_getElem hlt⟩

/-! ## When a write fails -/

theorem setAt_of_obstructed (h : Obstructed path ps v e) : (setAt path new ps v).2 = some e := by
  induction h with
  | scalar hscalar s rest => rw [setAt_scalar hscalar]
  | noItem hindex rest => rw [setAt_noItem hindex]
  | noName fields rest => rfl
  | field hname _ ih =>
      rw [setAt_field hname]
      exact ih
  | item hindex hitem _ ih =>
      rw [setAt_item hindex hitem]
      exact ih

theorem obstructed_of_setAt (h : (setAt path new ps v).2 = some e) : Obstructed path ps v e := by
  induction ps generalizing v with
  | nil => cases h
  | cons s rest ih =>
      cases v with
      | document fields =>
          by_cases hname : s = ""
          · subst hname
            cases h
            exact .noName fields rest
          · rw [setAt_field hname] at h
            exact .field hname (ih h)
      | list items =>
          obtain ⟨i, c, hindex, hitem⟩ | hindex := item_or_noItem s items
          · rw [setAt_item hindex hitem] at h
            exact .item hindex hitem (ih h)
          · rw [setAt_noItem hindex] at h
            cases h
            exact .noItem hindex rest
      | _ =>
          cases h
          exact .scalar (by simp [Scalar, kind]) s rest

/-- A write that fails leaves every scalar where it was. -/
theorem getAt_setAt_of_obstructed (h : Obstructed path ps v e) (hw : w.Scalar)
    (hthere : getAt qs v = some w) : getAt qs (setAt path new ps v).1 = some w := by
  induction h generalizing qs with
  | scalar hscalar s rest => rwa [setAt_scalar hscalar]
  | noItem hindex rest => rwa [setAt_noItem hindex]
  | noName fields rest => exact hthere
  | @field s rest fields e hname _ ih =>
      rw [setAt_field hname]
      cases qs with
      | nil =>
          cases hthere
          exact absurd rfl hw.1
      | cons q qs =>
          simp only [getAt, Fields.get?_put] at hthere ⊢
          by_cases hq : s = q
          · subst hq
            -- something is read there, so this write did not make the field
            obtain ⟨c, hget, hc⟩ := Option.bind_eq_some_iff.1 hthere
            rw [if_pos rfl, Option.bind_some]
            exact ih (by rwa [hget])
          · rwa [if_neg hq]
  | @item s rest items i c e hindex hitem _ ih =>
      rw [setAt_item hindex hitem]
      cases qs with
      | nil =>
          cases hthere
          exact absurd rfl hw.2
      | cons q qs =>
          simp only [getAt] at hthere ⊢
          obtain ⟨j, hj, hbelow⟩ := Option.bind_eq_some_iff.1 hthere
          rw [hj, Option.bind_some]
          by_cases hij : i = j
          · subst hij
            rw [hitem] at hbelow
            rw [List.getElem?_set_self (List.getElem?_eq_some_iff.1 hitem).1]
            exact ih hbelow
          · rwa [List.getElem?_set_ne hij]

/-! ## Paths that diverge -/

theorem getAt_getD (hrest : rest ≠ []) (child : Option Value) :
    getAt rest (child.getD (.document [])) = child.bind (getAt rest) := by
  cases child with
  | some c => rfl
  | none =>
      obtain ⟨s, more, rfl⟩ := List.exists_cons_of_ne_nil hrest
      rfl

/-- A write, whether it succeeds or fails, is not seen along a path that diverges. -/
theorem getAt_setAt_of_diverge (h : Diverge v ps qs) :
    getAt qs (setAt path new ps v).1 = getAt qs v := by
  induction h with
  | @names s t hne fields ps qs =>
      by_cases hname : s = ""
      · subst hname
        rfl
      · rw [setAt_field hname]
        simp only [getAt, Fields.get?_put, if_neg hne]
  | @indices s t hne items ps qs =>
      obtain ⟨i, c, hindex, hitem⟩ | hindex := item_or_noItem s items
      · rw [setAt_item hindex hitem]
        cases hj : Path.index? t with
        | none => simp only [getAt, hj, Option.bind_none]
        | some j =>
            have hij : i ≠ j := fun he => hne i ⟨hindex, he ▸ hj⟩
            simp only [getAt, hj, Option.bind_some, List.getElem?_set_ne hij]
      · rw [setAt_noItem hindex]
  | @field s fields ps qs below ih =>
      by_cases hname : s = ""
      · subst hname
        rfl
      · rw [setAt_field hname]
        simp only [getAt, Fields.get?_put, if_true, Option.bind_some, ih]
        exact getAt_getD below.ne_nil_right _
  | @item s t items i c ps qs hs ht hitem below ih =>
      rw [setAt_item hs hitem]
      have hlt := (List.getElem?_eq_some_iff.1 hitem).1
      simp only [getAt, ht, Option.bind_some, List.getElem?_set_self hlt, hitem, ih]

end Value

namespace Document

variable {d : Document} {path : String} {value : Value}

def Obstructed (d : Document) (path : String) (e : FieldError) : Prop :=
  Value.Obstructed path (Path.segments path) (.ofDocument d) e

def Diverge (d : Document) (path other : String) : Prop :=
  Value.Diverge (.ofDocument d) (Path.segments path) (Path.segments other)

theorem ofDocument_setPath (d : Document) (path : String) (value : Value) :
    Value.ofDocument (d.setPath path value).1 =
      (Value.setAt path value (Path.segments path) (.ofDocument d)).1 := by
  refine ofDocument_ofValue ?_
  obtain ⟨s, rest, hpath⟩ := List.exists_cons_of_ne_nil (Path.segments_ne_nil path)
  rw [hpath]
  by_cases hname : s = ""
  · subst hname
    exact ⟨d.fields, rfl⟩
  · exact ⟨_, congrArg Prod.fst (Value.setAt_field hname)⟩

/-- A write fails exactly where the walk down its path is obstructed. If it succeeds, the value is
read at the path; along a path that diverges nothing has changed. If it fails, every scalar is read
where it was. -/
theorem written_where_read (d : Document) (path : String) (value : Value) :
    (∀ e, (d.setPath path value).2 = some e ↔ d.Obstructed path e) ∧
      (∀ d', d.setPath path value = (d', none) →
        d'.getPath path = some value ∧
          ∀ other, d.Diverge path other → d'.getPath other = d.getPath other) ∧
      ∀ d' e, d.setPath path value = (d', some e) →
        ∀ other w, d.getPath other = some w → w.Scalar → d'.getPath other = some w := by
  have hfails : ∀ e, (d.setPath path value).2 = some e ↔ d.Obstructed path e := fun e =>
    ⟨Value.obstructed_of_setAt, Value.setAt_of_obstructed⟩
  refine ⟨hfails, fun d' hset => ⟨getPath_setPath hset, fun other hother => ?_⟩,
    fun d' e hset other w hthere hw => ?_⟩
  · have hd' : d' = (d.setPath path value).1 := (congrArg Prod.fst hset).symm
    unfold getPath
    rw [hd', ofDocument_setPath]
    exact Value.getAt_setAt_of_diverge hother
  · have hd' : d' = (d.setPath path value).1 := (congrArg Prod.fst hset).symm
    have hobstructed := (hfails e).1 (congrArg Prod.snd hset)
    unfold getPath
    rw [hd', ofDocument_setPath]
    exact Value.getAt_setAt_of_obstructed hobstructed hw hthere

/-- Two spellings of one index go on together and diverge below it; a write that fails has made
documents on its way. -/
theorem written_where_read_spelled_index :
    let d : Document :=
      ⟨[("hosts", .list [.document [("name", .string "juju")], .int 2]), ("life", .int 0)]⟩
    (d.setPath "hosts.00.series" (.string "xenial")).2 = none ∧
      (d.setPath "hosts.00.series" (.string "xenial")).1.getPath "hosts.00.series" =
        some (.string "xenial") ∧
      d.Diverge "hosts.00.series" "hosts.+0.name" ∧
      (d.setPath "hosts.00.series" (.string "xenial")).1.getPath "hosts.+0.name" =
        some (.string "juju") ∧
      d.Obstructed "hosts.0.tools..sha256" (.invalidPath "hosts.0.tools..sha256") ∧
      (d.setPath "hosts.0.tools..sha256" .null).1.getPath "hosts.0.name" =
        some (.string "juju") := by
  intro d
  have hdone : (d.setPath "hosts.00.series" (.string "xenial")).2 = none := by rfl
  have hfailed : (d.setPath "hosts.0.tools..sha256" .null).2 =
      some (.invalidPath "hosts.0.tools..sha256") := by rfl
  have hdiverge : d.Diverge "hosts.00.series" "hosts.+0.name" :=
    .field (.item (i := 0) rfl rfl rfl (.names (by decide) _ [] []))
  obtain ⟨-, hwritten, -⟩ := written_where_read d "hosts.00.series" (.string "xenial")
  obtain ⟨hread, hother⟩ := hwritten _ (Prod.ext rfl hdone)
  obtain ⟨hfails, -, hscalars⟩ := written_where_read d "hosts.0.tools..sha256" .null
  exact ⟨hdone, hread, hdiverge, hother _ hdiverge, (hfails _).1 hfailed,
    hscalars _ _ (Prod.ext rfl hfailed) "hosts.0.name" _ rfl (by decide)⟩

end Document

end FleetUpgrade
