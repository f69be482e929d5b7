import FleetUpgrade.Proofs.ClearedPaths
import FleetUpgrade.Proofs.ContentEffects
import FleetUpgrade.Store.Query
import Mathlib.Data.List.Perm.Subperm

/-! # Equality without the order of fields

Two values are equal if they agree at every level: the same names with equal
values in documents, equal items at the same indices in lists (`Equal`). The
check that compares them decides it for values without a name twice. It is an
equivalence where no binary64 number occurs, paths read equal values from equal
documents, and so queries do not tell them apart.
-/

namespace FleetUpgrade

theorem Binary64.equal_symm {x y : Binary64} (h : x.equal y = true) : y.equal x = true := by
  simp only [equal, isZero, Bool.and_eq_true, Bool.or_eq_true, beq_iff_eq] at h ⊢
  obtain ⟨hmagnitude, hsign⟩ := h
  exact ⟨hmagnitude.symm, hsign.imp Eq.symm hmagnitude.symm.trans⟩

theorem Binary64.equal_trans {x y z : Binary64} (hxy : x.equal y = true) (hyz : y.equal z = true) :
    x.equal z = true := by
  simp only [equal, isZero, Bool.and_eq_true, Bool.or_eq_true, beq_iff_eq] at hxy hyz ⊢
  obtain ⟨hmagnitude, hsign⟩ := hxy
  obtain ⟨hmagnitude', hsign'⟩ := hyz
  refine ⟨hmagnitude.trans hmagnitude', ?_⟩
  rcases hsign with hsign | hzero
  · exact hsign'.imp hsign.trans hmagnitude.trans
  · exact .inr hzero

namespace Fields

variable {fields : Fields} {name : String} {v : Value}

theorem get?_of_mem (honce : (names fields).Nodup) (h : (name, v) ∈ fields) :
    get? fields name = some v := by
  induction fields with
  | nil => cases h
  | cons field rest ih =>
      obtain ⟨key, old⟩ := field
      obtain ⟨hfresh, hrest⟩ := List.nodup_cons.1 honce
      rw [get?_cons]
      rcases List.mem_cons.1 h with heq | hmem
      · cases heq
        exact if_pos rfl
      · have hname : name ∈ names rest := List.mem_map_of_mem hmem
        have hne : key ≠ name := by
          rintro rfl
          exact hfresh hname
        rw [if_neg hne]
        exact ih hrest hmem

end Fields

namespace Value

/-- Two values agree at every level. -/
inductive Equal : Value → Value → Prop
  | null : Equal .null .null
  | bool (b : Bool) : Equal (.bool b) (.bool b)
  | int (i : Int64) : Equal (.int i) (.int i)
  | float {x y : Binary64} (h : x.equal y = true) : Equal (.float x) (.float y)
  | string (s : String) : Equal (.string s) (.string s)
  | list {items items' : List Value} (hlength : items.length = items'.length)
      (hitems : ∀ (i : Nat) item item', items[i]? = some item → items'[i]? = some item' →
        Equal item item') : Equal (.list items) (.list items')
  | document {fields fields' : Fields}
      (hnames : ∀ name, (Fields.get? fields name).isSome = (Fields.get? fields' name).isSome)
      (hvalues : ∀ name v v', Fields.get? fields name = some v →
        Fields.get? fields' name = some v' → Equal v v') :
      Equal (.document fields) (.document fields')

variable {u v w : Value} {fields fields' : Fields} {items items' : List Value} {s : String}
  {ps : List String}

/-- Induction over a value that knows of every item and every field. -/
theorem induction_on_parts {motive : Value → Prop} (null : motive .null)
    (bool : ∀ b, motive (.bool b)) (int : ∀ i, motive (.int i)) (float : ∀ x, motive (.float x))
    (string : ∀ s, motive (.string s))
    (list : ∀ items, (∀ item ∈ items, motive item) → motive (.list items))
    (document : ∀ fields : Fields, (∀ field ∈ fields, motive field.2) → motive (.document fields))
    (v : Value) : motive v := by
  refine Value.rec (motive_1 := motive) (motive_2 := fun items => ∀ item ∈ items, motive item)
    (motive_3 := fun fields => ∀ field ∈ fields, motive field.2)
    (motive_4 := fun field => motive field.2) null bool int float string list document
    ?_ ?_ ?_ ?_ ?_ v
  · exact fun _ hitem => nomatch hitem
  · exact fun _ _ hitem hitems => List.forall_mem_cons.2 ⟨hitem, hitems⟩
  · exact fun _ hfield => nomatch hfield
  · exact fun _ _ hfield hfields => List.forall_mem_cons.2 ⟨hfield, hfields⟩
  · exact fun _ _ hvalue => hvalue

/-! ## The laws of equality -/

theorem Equal.refl (hfloat : v.all noFloat = true) : Equal v v := by
  induction v using induction_on_parts with
  | null => exact .null
  | bool b => exact .bool b
  | int i => exact .int i
  | float x => cases hfloat
  | string s => exact .string s
  | list items ih =>
      refine .list rfl fun i item item' hitem hitem' => ?_
      obtain rfl : item = item' := Option.some.inj (hitem.symm.trans hitem')
      have hmem := List.mem_of_getElem? hitem
      exact ih item hmem (all_of_mem_items hfloat hmem)
  | document fields ih =>
      refine .document (fun _ => rfl) fun name v v' hget hget' => ?_
      obtain rfl : v = v' := Option.some.inj (hget.symm.trans hget')
      exact ih (name, v) (Table.mem_of_lookup hget) (all_of_get? hfloat hget)

theorem Equal.symm (h : Equal v w) : Equal w v := by
  induction h with
  | null => exact .null
  | bool b => exact .bool b
  | int i => exact .int i
  | float h => exact .float (Binary64.equal_symm h)
  | string s => exact .string s
  | list hlength _ ih =>
      exact .list hlength.symm fun i item item' hitem hitem' => ih i item' item hitem' hitem
  | document hnames _ ih =>
      exact .document (fun name => (hnames name).symm) fun name v v' hget hget' =>
        ih name v' v hget' hget

theorem Equal.trans (huv : Equal u v) (hvw : Equal v w) : Equal u w := by
  induction huv generalizing w with
  | null => exact hvw
  | bool b => exact hvw
  | int i => exact hvw
  | string s => exact hvw
  | float hxy =>
      cases hvw with
      | float hyz => exact .float (Binary64.equal_trans hxy hyz)
  | @list items items' hlength _ ih =>
      cases hvw with
      | list hlength' hitems' =>
          refine .list (hlength.trans hlength') fun i item item'' hitem hitem'' => ?_
          have hlt : i < items'.length := hlength ▸ (List.getElem?_eq_some_iff.1 hitem).1
          have hmiddle := List.getElem?_eq_getElem hlt
          exact ih i item _ hitem hmiddle (hitems' i _ item'' hmiddle hitem'')
  | @document fields fields' hnames _ ih =>
      cases hvw with
      | document hnames' hvalues' =>
          refine .document (fun name => (hnames name).trans (hnames' name))
            fun name v v'' hget hget'' => ?_
          have hmiddle : (Fields.get? fields' name).isSome = true := by
            rw [← hnames name, hget]
            rfl
          obtain ⟨v', hget'⟩ := Option.isSome_iff_exists.1 hmiddle
          exact ih name v v' hget hget' (hvalues' name v' v'' hget' hget'')

/-! ## What paths read -/

theorem Equal.child? (h : Equal v w) (s : String) :
    Option.Rel Equal (v.child? s) (w.child? s) := by
  cases h with
  | @list items items' hlength hitems =>
      simp only [Value.child?]
      cases Path.index? s with
      | none => exact .none
      | some i =>
          rw [Option.bind_some, Option.bind_some]
          cases hitem : items[i]? with
          | none =>
              have hlong : items'.length ≤ i := hlength ▸ List.getElem?_eq_none_iff.1 hitem
              rw [List.getElem?_eq_none hlong]
              exact .none
          | some item =>
              have hlt : i < items'.length := hlength ▸ (List.getElem?_eq_some_iff.1 hitem).1
              rw [List.getElem?_eq_getElem hlt]
              exact .some (hitems i item _ hitem (List.getElem?_eq_getElem hlt))
  | @document fields fields' hnames hvalues =>
      have hname := hnames s
      simp only [Value.child?]
      cases hget : Fields.get? fields s with
      | none =>
          rw [hget] at hname
          rw [Option.isSome_eq_false_iff.1 hname.symm |> Option.isNone_iff_eq_none.1]
          exact .none
      | some v =>
          rw [hget] at hname
          obtain ⟨v', hget'⟩ := Option.isSome_iff_exists.1 hname.symm
          rw [hget']
          exact .some (hvalues s v v' hget hget')
  | _ => exact .none

theorem Equal.getAt (h : Equal v w) (ps : List String) :
    Option.Rel Equal (v.getAt ps) (w.getAt ps) := by
  induction ps generalizing v w with
  | nil =>
      rw [getAt_nil, getAt_nil]
      exact .some h
  | cons p ps ih =>
      rw [getAt_cons, getAt_cons]
      have hstep := h.child? p
      generalize v.child? p = c, w.child? p = c' at hstep
      cases hstep with
      | none => exact .none
      | some hchild => exact ih hchild

/-! ## The check decides equality -/

theorem sameItems_iff : sameItems items items' = true ↔ items.length = items'.length ∧
    ∀ (i : Nat) item item', items[i]? = some item → items'[i]? = some item' →
      item.same item' = true := by
  induction items generalizing items' with
  | nil => cases items' <;> simp [sameItems]
  | cons item items ih =>
      cases items' with
      | nil => simp [sameItems]
      | cons item' items' =>
          rw [sameItems, Bool.and_eq_true, ih, List.length_cons, List.length_cons, Nat.succ_inj]
          constructor
          · rintro ⟨hfirst, hlength, hrest⟩
            refine ⟨hlength, fun i x y hx hy => ?_⟩
            cases i with
            | zero =>
                cases hx
                cases hy
                exact hfirst
            | succ i => exact hrest i x y hx hy
          · rintro ⟨hlength, hall⟩
            exact ⟨hall 0 item item' rfl rfl, hlength, fun i => hall (i + 1)⟩

theorem sameFields_iff : sameFields fields fields' = true ↔
    ∀ field ∈ fields, ∃ v', Fields.get? fields' field.1 = some v' ∧ field.2.same v' = true := by
  induction fields with
  | nil => simp [sameFields]
  | cons field fields ih =>
      obtain ⟨name, v⟩ := field
      rw [sameFields, Bool.and_eq_true, ih, List.forall_mem_cons]
      cases Fields.get? fields' name <;> simp

/-- Fields that have all names of as many other fields have no more names. -/
theorem names_perm (honce : (Fields.names fields).Nodup) (hlength : fields.length = fields'.length)
    (hsub : Fields.names fields ⊆ Fields.names fields') :
    (Fields.names fields).Perm (Fields.names fields') := by
  refine (List.subperm_of_subset honce hsub).perm_of_length_le ?_
  simp only [Fields.names, List.length_map, hlength, Nat.le_refl]

theorem equal_of_same (hv : v.all namesOnce = true) (h : v.same w = true) : Equal v w := by
  induction v using induction_on_parts generalizing w with
  | null =>
      cases w with
      | null => exact .null
      | _ => cases h
  | bool b =>
      cases w with
      | bool c => exact eq_of_beq h ▸ .bool b
      | _ => cases h
  | int i =>
      cases w with
      | int j => exact eq_of_beq h ▸ .int i
      | _ => cases h
  | float x =>
      cases w with
      | float y => exact .float h
      | _ => cases h
  | string s =>
      cases w with
      | string t => exact eq_of_beq h ▸ .string s
      | _ => cases h
  | list items ih =>
      cases w with
      | list items' =>
          obtain ⟨hlength, hitems⟩ := sameItems_iff.1 h
          refine .list hlength fun i item item' hitem hitem' => ?_
          have hmem := List.mem_of_getElem? hitem
          exact ih item hmem (all_of_mem_items hv hmem) (hitems i item item' hitem hitem')
      | _ => cases h
  | document fields ih =>
      cases w with
      | document fields' =>
          obtain ⟨hlength, hfields⟩ := Bool.and_eq_true_iff.1 h
          have honce : (Fields.names fields).Nodup := of_decide_eq_true (all_document.1 hv).1
          -- the check goes over one side's fields; the other side has no more, as it has as many
          have hsub : Fields.names fields ⊆ Fields.names fields' := fun name hname => by
            obtain ⟨field, hfield, rfl⟩ := List.mem_map.1 hname
            obtain ⟨v', hget', -⟩ := sameFields_iff.1 hfields field hfield
            exact Fields.isSome_get?_iff.1 (by rw [hget']; rfl)
          have hperm := names_perm honce (eq_of_beq hlength) hsub
          refine .document (fun name => ?_) fun name v v' hget hget' => ?_
          · rw [Bool.eq_iff_iff, Fields.isSome_get?_iff, Fields.isSome_get?_iff, hperm.mem_iff]
          · have hfield := Table.mem_of_lookup hget
            obtain ⟨found, hfound, hsame⟩ := sameFields_iff.1 hfields _ hfield
            obtain rfl : found = v' := Option.some.inj (hfound.symm.trans hget')
            exact ih _ hfield (all_of_get? hv hget) hsame
      | _ => cases h

theorem same_of_equal (hv : v.all namesOnce = true) (hw : w.all namesOnce = true)
    (h : Equal v w) : v.same w = true := by
  induction h with
  | null => rfl
  | bool b => exact beq_self_eq_true b
  | int i => exact beq_self_eq_true i
  | float h => exact h
  | string s => exact beq_self_eq_true s
  | list hlength _ ih =>
      exact sameItems_iff.2 ⟨hlength, fun i item item' hitem hitem' =>
        ih i item item' hitem hitem' (all_of_mem_items hv (List.mem_of_getElem? hitem))
          (all_of_mem_items hw (List.mem_of_getElem? hitem'))⟩
  | @document fields fields' hnames _ ih =>
      have honce : (Fields.names fields).Nodup := of_decide_eq_true (all_document.1 hv).1
      have honce' : (Fields.names fields').Nodup := of_decide_eq_true (all_document.1 hw).1
      have hperm : (Fields.names fields).Perm (Fields.names fields') :=
        (List.perm_ext_iff_of_nodup honce honce').2 fun name => by
          rw [← Fields.isSome_get?_iff, ← Fields.isSome_get?_iff, hnames name]
      have hlength : fields.length = fields'.length := by
        simpa only [Fields.names, List.length_map] using hperm.length_eq
      refine Bool.and_eq_true_iff.2 ⟨beq_iff_eq.2 hlength, sameFields_iff.2 fun field hfield => ?_⟩
      have hget := Fields.get?_of_mem honce hfield
      have hthere : (Fields.get? fields' field.1).isSome = true := by
        rw [← hnames field.1, hget]
        rfl
      obtain ⟨v', hget'⟩ := Option.isSome_iff_exists.1 hthere
      exact ⟨v', hget',
        ih field.1 field.2 v' hget hget' (all_of_get? hv hget) (all_of_get? hw hget')⟩

theorem same_iff_equal (hv : v.all namesOnce = true) (hw : w.all namesOnce = true) :
    v.same w = true ↔ Equal v w :=
  ⟨equal_of_same hv, same_of_equal hv hw⟩

theorem all_of_child? {p : Value → Bool} {c : Value} (h : v.all p = true)
    (hchild : v.child? s = some c) : c.all p = true := by
  cases v with
  | document fields => exact all_of_get? h hchild
  | list items =>
      obtain ⟨i, -, hitem⟩ := Option.bind_eq_some_iff.1 hchild
      exact all_of_mem_items h (List.mem_of_getElem? hitem)
  | _ => cases hchild

theorem all_of_getAt {p : Value → Bool} {c : Value} (h : v.all p = true)
    (hthere : v.getAt ps = some c) : c.all p = true := by
  induction ps generalizing v with
  | nil =>
      rw [getAt_nil, Option.some.injEq] at hthere
      exact hthere ▸ h
  | cons s ps ih =>
      rw [getAt_cons] at hthere
      obtain ⟨next, hchild, hbelow⟩ := Option.bind_eq_some_iff.1 hthere
      exact ih (all_of_child? h hchild) hbelow

end Value

/-! ## Queries -/

namespace Query

def namesOnce (q : Query) : Bool :=
  q.conditions.all fun condition => condition.2.all Value.namesOnce

def Alike (q q' : Query) : Prop :=
  List.Forall₂ (fun c c' => c.1 = c'.1 ∧ c.2.same c'.2 = true) q.conditions q'.conditions

variable {q q' : Query} {d e : Document}

/-- Queries that ask for values to which the same values are equal accept equal documents alike. -/
theorem accepts_congr (hd : d.all Value.namesOnce = true) (he : e.all Value.namesOnce = true)
    (hequal : Value.Equal (.ofDocument d) (.ofDocument e)) (hq : q.namesOnce = true)
    (hq' : q'.namesOnce = true)
    (h : List.Forall₂ (fun c c' => c.1 = c'.1 ∧ ∀ v, Value.Equal v c.2 ↔ Value.Equal v c'.2)
      q.conditions q'.conditions) : q.accepts d = q'.accepts e := by
  obtain ⟨conditions⟩ := q
  obtain ⟨conditions'⟩ := q'
  dsimp only at h
  unfold accepts
  unfold namesOnce at hq hq'
  induction h with
  | nil => rfl
  | @cons c c' rest rest' hc _ ih =>
      obtain ⟨path, x⟩ := c
      obtain ⟨_, x'⟩ := c'
      obtain ⟨rfl, hx⟩ := hc
      obtain ⟨hxonce, hrest⟩ := Bool.and_eq_true_iff.1 hq
      obtain ⟨hxonce', hrest'⟩ := Bool.and_eq_true_iff.1 hq'
      rw [List.all_cons, List.all_cons, ih hrest hrest']
      refine congrArg (· && _) ?_
      have hread : Option.Rel Value.Equal (d.getPath path) (e.getPath path) := hequal.getAt _
      generalize hv : d.getPath path = found, hw : e.getPath path = found' at hread ⊢
      cases hread with
      | none => rfl
      | some hvw =>
          rw [Bool.eq_iff_iff, Value.same_iff_equal (Value.all_of_getAt hd hv) hxonce,
            Value.same_iff_equal (Value.all_of_getAt he hw) hxonce', hx]
          exact ⟨hvw.symm.trans, hvw.trans⟩

end Query

/-! ## Documents -/

namespace Document

/-- A document in which no binary64 number and no name twice occurs, at any level. -/
structure Comparable (d : Document) : Prop where
  floatFree : d.all Value.noFloat = true
  once : d.all Value.namesOnce = true

variable {d e f : Document}

theorem same_iff_equal (hd : d.Comparable) (he : e.Comparable) :
    d.same e = true ↔ Value.Equal (.ofDocument d) (.ofDocument e) :=
  Value.same_iff_equal hd.once he.once

/-- Documents are the same if they agree at every level, whatever the order of fields. This is an
equivalence, every path reads the same from documents that are the same, and every query accepts
both or neither; what a query accepts does not depend on how its expected values are ordered. -/
theorem queries_ignore_field_order (hd : d.Comparable) (he : e.Comparable) (hf : f.Comparable) :
    (d.same e = true ↔ Value.Equal (.ofDocument d) (.ofDocument e)) ∧
      d.same d = true ∧
      (d.same e = true → e.same d = true) ∧
      (d.same e = true → e.same f = true → d.same f = true) ∧
      (d.same e = true →
        (∀ path, Option.Rel (fun v w => v.same w = true) (d.getPath path) (e.getPath path)) ∧
          ∀ q : Query, q.namesOnce = true → q.accepts d = q.accepts e) ∧
      ∀ q q' : Query, q.namesOnce = true → q'.namesOnce = true → q.Alike q' →
        q.accepts d = q'.accepts d := by
  have hrefl : Value.Equal (.ofDocument d) (.ofDocument d) := .refl hd.floatFree
  refine ⟨same_iff_equal hd he, (same_iff_equal hd hd).2 hrefl, fun h => ?_, fun h h' => ?_,
    fun h => ⟨fun path => ?_, fun q hq => ?_⟩, fun q q' hq hq' h => ?_⟩
  · exact (same_iff_equal he hd).2 ((same_iff_equal hd he).1 h).symm
  · exact (same_iff_equal hd hf).2
      (((same_iff_equal hd he).1 h).trans ((same_iff_equal he hf).1 h'))
  · have hread : Option.Rel Value.Equal (d.getPath path) (e.getPath path) :=
      ((same_iff_equal hd he).1 h).getAt _
    generalize hv : d.getPath path = found, hw : e.getPath path = found' at hread ⊢
    cases hread with
    | none => exact .none
    | some hvw =>
        exact .some (Value.same_of_equal (Value.all_of_getAt hd.once hv)
          (Value.all_of_getAt he.once hw) hvw)
  · exact Query.accepts_congr hd.once he.once ((same_iff_equal hd he).1 h) hq hq
      (List.forall₂_same.2 fun c _ => ⟨rfl, fun v => Iff.rfl⟩)
  · have hboth := (List.forall₂_and_left q.conditions q'.conditions).2
      ⟨List.all_eq_true.1 hq, h⟩
    refine Query.accepts_congr hd.once hd.once hrefl hq hq' (hboth.imp fun c c' hc => ?_)
    obtain ⟨honce, hpath, hsame⟩ := hc
    have hequal := Value.equal_of_same honce hsame
    exact ⟨hpath, fun v => ⟨fun hv => hv.trans hequal, fun hv => hv.trans hequal.symm⟩⟩

/-- Names in another order at two levels, and an expected value in yet another. -/
theorem queries_ignore_field_order_nested :
    let d : Document := ⟨[("_id", .string "0"), ("tools", .list [.document
      [("version", .string "2.0"), ("size", .int 7), ("sha256", .null)]])]⟩
    let e : Document := ⟨[("tools", .list [.document
      [("size", .int 7), ("sha256", .null), ("version", .string "2.0")]]), ("_id", .string "0")]⟩
    let q : Query := ⟨[("tools.00", .document
      [("sha256", .null), ("version", .string "2.0"), ("size", .int 7)])]⟩
    d.Comparable ∧ e.Comparable ∧ d.same e = true ∧ e.same d = true ∧ q.namesOnce = true ∧
      q.accepts d = true ∧ q.accepts e = true := by
  intro d e q
  have hd : d.Comparable := ⟨by decide, by decide⟩
  have he : e.Comparable := ⟨by decide, by decide⟩
  have hsame : d.same e = true := by decide
  have hq : q.namesOnce = true := by decide
  have hfound : q.accepts d = true := by decide +kernel
  obtain ⟨-, -, hsymm, -, hread, -⟩ := queries_ignore_field_order hd he hd
  exact ⟨hd, he, hsame, hsymm hsame, hq, hfound, ((hread hsame).2 q hq).symm.trans hfound⟩

end Document

end FleetUpgrade
