import FleetUpgrade.Proofs.WrittenPaths

/-! # What a clearing takes out

Clearing a path takes a field out of one document or puts null for one item of
one list, and leaves all else what and where it was (`Thinned`). Where nothing
stands at the path nothing happens, and clearing it again changes nothing.
-/

namespace FleetUpgrade

namespace Fields

variable {fields : Fields} {name : String} {old : Value}

theorem get?_append (before after : Fields) (name : String) :
    get? (before ++ after) name = (get? before name).or (get? after name) := by
  induction before with
  | nil => rfl
  | cons field before ih =>
      obtain ⟨key, v⟩ := field
      simp only [get?] at ih
      by_cases hkey : key = name <;> simp [get?, Table.lookup, hkey, ih]

theorem get?_cons (key : String) (v : Value) (fields : Fields) (name : String) :
    get? ((key, v) :: fields) name = if key = name then some v else get? fields name :=
  rfl

theorem get?_eq_none_iff : get? fields name = none ↔ name ∉ names fields := by
  induction fields with
  | nil => simp [get?, Table.lookup, names]
  | cons field rest ih =>
      obtain ⟨key, v⟩ := field
      have hnames : names ((key, v) :: rest) = key :: names rest := rfl
      rw [get?_cons, hnames, List.mem_cons, not_or, ← ih]
      by_cases hkey : key = name
      · simp [hkey]
      · simp [hkey, Ne.symm hkey]

theorem isSome_get?_iff : (get? fields name).isSome = true ↔ name ∈ names fields := by
  rw [← not_iff_not, ← get?_eq_none_iff, Bool.not_eq_true, Option.isSome_eq_false_iff,
    Option.isNone_iff_eq_none]

theorem erase_of_get?_eq_none (h : get? fields name = none) : erase name fields = fields := by
  refine List.filter_eq_self.2 fun field hfield => decide_eq_true fun hname => ?_
  exact get?_eq_none_iff.1 h (hname ▸ List.mem_map_of_mem hfield)

theorem put_split (h : get? fields name = some old) :
    ∃ before after, fields = before ++ (name, old) :: after ∧
      ∀ value, put name value fields = before ++ (name, value) :: after := by
  induction fields with
  | nil => cases h
  | cons field rest ih =>
      obtain ⟨key, v⟩ := field
      rw [get?_cons] at h
      by_cases hkey : key = name
      · subst hkey
        rw [if_pos rfl] at h
        cases h
        exact ⟨[], rest, rfl, fun value => if_pos rfl⟩
      · rw [if_neg hkey] at h
        obtain ⟨before, after, rfl, hput⟩ := ih h
        refine ⟨(key, v) :: before, after, rfl, fun value => ?_⟩
        rw [put, if_neg hkey, hput, List.cons_append]

theorem get?_middle {before after : Fields} {key : String} {v found : Value}
    (h : get? (before ++ (key, v) :: after) name = some found) :
    (found = v ∧ ∀ other, get? (before ++ (key, other) :: after) name = some other) ∨
      ∀ other, get? (before ++ (key, other) :: after) name = some found := by
  simp only [get?_append, get?_cons] at h ⊢
  cases hbefore : get? before name with
  | some first => exact .inr fun _ => by rwa [hbefore] at h
  | none =>
      rw [hbefore, Option.none_or] at h
      by_cases hkey : key = name
      · rw [if_pos hkey, Option.some.injEq] at h
        exact .inl ⟨h.symm, fun _ => by rw [if_pos hkey, Option.none_or]⟩
      · rw [if_neg hkey] at h
        exact .inr fun _ => by rwa [if_neg hkey, Option.none_or]

end Fields

namespace Value

/-- A value before and after one place in it was cleared, if any: the fields of one name are out of
one document, or one list has null for one item. -/
inductive Thinned : Value → Value → Prop
  | same (v : Value) : Thinned v v
  | dropped (name : String) (fields : Fields) :
      Thinned (.document fields) (.document (fields.filter fun field => field.1 ≠ name))
  | nulled (before : List Value) (old : Value) (after : List Value) :
      Thinned (.list (before ++ old :: after)) (.list (before ++ .null :: after))
  | field (before : Fields) (name : String) {old new : Value} (after : Fields)
      (below : Thinned old new) :
      Thinned (.document (before ++ (name, old) :: after))
        (.document (before ++ (name, new) :: after))
  | item (before : List Value) {old new : Value} (after : List Value) (below : Thinned old new) :
      Thinned (.list (before ++ old :: after)) (.list (before ++ new :: after))

def AddressesItem (ps : List String) (v : Value) : Prop :=
  ∃ start s items i, ps = start ++ [s] ∧ getAt start v = some (.list items) ∧
    Path.index? s = some i ∧ i < items.length

variable {s t : String} {v v' w c new : Value} {fields : Fields} {items : List Value} {i : Nat}
  {ps qs rest : List String}

theorem getAt_append (ps qs : List String) (v : Value) :
    getAt (ps ++ qs) v = (getAt ps v).bind (getAt qs) := by
  induction ps generalizing v with
  | nil => rw [List.nil_append, getAt_nil, Option.bind_some]
  | cons p ps ih =>
      rw [List.cons_append, getAt_cons, getAt_cons, Option.bind_assoc]
      exact congrArg (Option.bind _) (funext ih)

theorem set_split (h : items[i]? = some c) :
    ∃ before after, items = before ++ c :: after ∧
      ∀ value, items.set i value = before ++ value :: after := by
  obtain ⟨hlt, rfl⟩ := List.getElem?_eq_some_iff.1 h
  refine ⟨items.take i, items.drop (i + 1), ?_, fun value =>
    List.set_eq_take_append_cons_drop.trans (if_pos hlt)⟩
  rw [← List.drop_eq_getElem_cons hlt, List.take_append_drop]

theorem getElem?_middle {before after : List Value} {found : Value}
    (h : (before ++ v :: after)[i]? = some found) :
    (found = v ∧ ∀ other, (before ++ other :: after)[i]? = some other) ∨
      ∀ other, (before ++ other :: after)[i]? = some found := by
  by_cases hi : i = before.length
  · subst hi
    exact .inl ⟨by simpa using h.symm, fun other => by simp⟩
  · refine .inr fun other => ?_
    rw [← h]
    simp only [List.getElem?_append, List.getElem?_cons]
    grind

/-! ## One step of a clearing -/

theorem child?_putChild_document (hne : s ≠ t) (new : Value) (fields : Fields) :
    ((document fields).putChild s new).child? t = (document fields).child? t := by
  simp only [putChild, child?, Fields.get?_put, if_neg hne]

theorem child?_putChild_list (hne : ∀ i, ¬(Path.index? s = some i ∧ Path.index? t = some i))
    (new : Value) (items : List Value) :
    ((list items).putChild s new).child? t = (list items).child? t := by
  cases hi : Path.index? s with
  | none => simp only [putChild, hi, Option.elim_none]
  | some i =>
      cases hj : Path.index? t with
      | none => simp only [child?, putChild, hj, Option.bind_none]
      | some j =>
          have hij : i ≠ j := fun he => hne i ⟨hi, he ▸ hj⟩
          simp only [putChild, child?, hi, hj, Option.elim_some, Option.bind_some,
            List.getElem?_set_ne hij]

theorem child?_dropChild_self (s : String) (fields : Fields) :
    ((document fields).dropChild s).child? s = none := by
  simp only [dropChild, child?, Fields.get?_erase, if_true]

theorem dropChild_of_child?_eq_none (h : v.child? s = none) : v.dropChild s = v := by
  cases v with
  | document fields => exact congrArg document (Fields.erase_of_get?_eq_none h)
  | list items =>
      cases hi : Path.index? s with
      | none => simp only [dropChild, hi, Option.elim_none]
      | some i =>
          have hlong : items.length ≤ i := by simpa [child?, hi] using h
          simp only [dropChild, hi, Option.elim_some, List.set_eq_of_length_le hlong]
  | _ => rfl

theorem dropChild_dropChild (s : String) (v : Value) :
    (v.dropChild s).dropChild s = v.dropChild s := by
  cases v with
  | document fields => simp [dropChild, Fields.erase]
  | list items => cases hi : Path.index? s <;> simp [dropChild, hi]
  | _ => rfl

/-! ## What is read afterwards -/

theorem unsetAt_of_getAt_eq_none (h : getAt ps v = none) : unsetAt ps v = v := by
  induction ps generalizing v with
  | nil => rw [getAt_nil] at h; cases h
  | cons p ps ih =>
      rw [getAt_cons] at h
      by_cases hps : ps = []
      · subst hps
        have hchild : v.child? p = none := by
          cases hchild : v.child? p with
          | none => rfl
          | some c => rw [hchild, Option.bind_some, getAt_nil] at h; cases h
        rw [unsetAt_singleton, dropChild_of_child?_eq_none hchild]
      · rw [unsetAt_cons p hps]
        cases hchild : v.child? p with
        | none => rfl
        | some c =>
            rw [hchild, Option.bind_some] at h
            rw [Option.elim_some, ih h, putChild_child hchild]

theorem unsetAt_unsetAt (ps : List String) (v : Value) :
    unsetAt ps (unsetAt ps v) = unsetAt ps v := by
  induction ps generalizing v with
  | nil => cases v <;> rfl
  | cons p ps ih =>
      by_cases hps : ps = []
      · subst hps
        simp only [unsetAt_singleton, dropChild_dropChild]
      · rw [unsetAt_cons p hps v]
        cases hchild : v.child? p with
        | none => rw [Option.elim_none, unsetAt_cons p hps, hchild, Option.elim_none]
        | some c =>
            rw [Option.elim_some, unsetAt_cons p hps, child?_putChild_of_child? _ hchild,
              Option.elim_some, putChild_putChild, ih]

/-- Null is read at a path to an item of a list after it was cleared. -/
theorem getAt_unsetAt_of_item (h : AddressesItem ps v) : getAt ps (unsetAt ps v) = some .null := by
  obtain ⟨start, s, items, i, rfl, hlist, hindex, hlt⟩ := h
  rw [unsetAt_append hlist (List.cons_ne_nil s []), getAt_append, getAt_putAt _ hlist,
    Option.bind_some, unsetAt_singleton, getAt_cons]
  simp only [dropChild, child?, hindex, Option.elim_some, Option.bind_some,
    List.getElem?_set_self hlt, getAt_nil]

theorem getAt_unsetAt_of_not_item (hps : ps ≠ []) (h : ¬AddressesItem ps v) :
    getAt ps (unsetAt ps v) = none := by
  cases hthere : getAt ps v with
  | none => rw [unsetAt_of_getAt_eq_none hthere, hthere]
  | some old =>
      obtain ⟨start, s, rfl⟩ : ∃ start s, ps = start ++ [s] :=
        ⟨_, _, (List.dropLast_append_getLast hps).symm⟩
      rw [getAt_append] at hthere
      obtain ⟨parent, hparent, hold⟩ := Option.bind_eq_some_iff.1 hthere
      rw [unsetAt_append hparent (List.cons_ne_nil s []), getAt_append, getAt_putAt _ hparent,
        Option.bind_some, unsetAt_singleton, getAt_cons]
      cases parent with
      | document fields => rw [child?_dropChild_self, Option.bind_none]
      | list items =>
          -- an item is there, so the path does lead to one
          rw [getAt_cons] at hold
          obtain ⟨item, hchild, -⟩ := Option.bind_eq_some_iff.1 hold
          obtain ⟨i, hindex, hitem⟩ := Option.bind_eq_some_iff.1 hchild
          exact absurd ⟨start, s, items, i, rfl, hparent, hindex,
            (List.getElem?_eq_some_iff.1 hitem).1⟩ h
      | _ => cases hold

theorem child?_unsetAt_document (hne : s ≠ t) (rest : List String) (fields : Fields) :
    (unsetAt (s :: rest) (.document fields)).child? t = (document fields).child? t := by
  by_cases hrest : rest = []
  · rw [hrest, unsetAt_singleton]
    simp only [dropChild, child?, Fields.get?_erase, if_neg hne]
  · rw [unsetAt_cons s hrest]
    cases child? s (.document fields) with
    | none => rfl
    | some c => exact child?_putChild_document hne _ fields

theorem child?_unsetAt_list (hne : ∀ i, ¬(Path.index? s = some i ∧ Path.index? t = some i))
    (rest : List String) (items : List Value) :
    (unsetAt (s :: rest) (.list items)).child? t = (list items).child? t := by
  by_cases hrest : rest = []
  · rw [hrest, unsetAt_singleton]
    exact child?_putChild_list hne .null items
  · rw [unsetAt_cons s hrest]
    cases child? s (.list items) with
    | none => rfl
    | some c => exact child?_putChild_list hne _ items

/-- A clearing is not seen along a path that diverges. -/
theorem getAt_unsetAt_of_diverge (h : Diverge v ps qs) : getAt qs (unsetAt ps v) = getAt qs v := by
  induction h with
  | names hne fields ps qs => rw [getAt_cons, getAt_cons, child?_unsetAt_document hne]
  | indices hne items ps qs => rw [getAt_cons, getAt_cons, child?_unsetAt_list hne]
  | @field s fields ps qs below ih =>
      rw [unsetAt_cons s below.ne_nil_left]
      cases hchild : child? s (.document fields) with
      | none => rw [Option.elim_none]
      | some c =>
          have hget : Fields.get? fields s = some c := hchild
          rw [hget, Option.getD_some] at ih
          rw [Option.elim_some, getAt_cons, getAt_cons, child?_putChild_of_child? _ hchild, hchild,
            Option.bind_some, Option.bind_some, ih]
  | @item s t items i c ps qs hs ht hitem below ih =>
      have hchild : child? s (.list items) = some c := by
        simp only [child?, hs, Option.bind_some, hitem]
      rw [unsetAt_cons s below.ne_nil_left, hchild, Option.elim_some]
      have hlt := (List.getElem?_eq_some_iff.1 hitem).1
      simp only [putChild, getAt, hs, ht, Option.elim_some, Option.bind_some,
        List.getElem?_set_self hlt, hitem, ih]

/-! ## What remains -/

theorem Thinned.putChild (hchild : v.child? s = some c) (below : Thinned c new) :
    Thinned v (v.putChild s new) := by
  cases v with
  | document fields =>
      have hfield : Fields.get? fields s = some c := hchild
      obtain ⟨before, after, hsplit, hput⟩ := Fields.put_split hfield
      rw [Value.putChild, hput, hsplit]
      exact .field before s after below
  | list items =>
      obtain ⟨i, hindex, hitem⟩ := Option.bind_eq_some_iff.1 hchild
      obtain ⟨before, after, hsplit, hset⟩ := set_split hitem
      rw [Value.putChild, hindex, Option.elim_some, hset, hsplit]
      exact .item before after below
  | _ => cases hchild

theorem thinned_dropChild (s : String) (v : Value) : Thinned v (v.dropChild s) := by
  cases hchild : v.child? s with
  | none =>
      rw [dropChild_of_child?_eq_none hchild]
      exact .same v
  | some c =>
      cases v with
      | document fields => exact .dropped s fields
      | list items =>
          obtain ⟨i, hindex, hitem⟩ := Option.bind_eq_some_iff.1 hchild
          obtain ⟨before, after, hsplit, hset⟩ := set_split hitem
          rw [dropChild, hindex, Option.elim_some, hset, hsplit]
          exact .nulled before c after
      | _ => cases hchild

theorem thinned_unsetAt (ps : List String) (v : Value) : Thinned v (unsetAt ps v) := by
  induction ps generalizing v with
  | nil => cases v <;> exact .same _
  | cons p ps ih =>
      by_cases hps : ps = []
      · rw [hps, unsetAt_singleton]
        exact thinned_dropChild p v
      · rw [unsetAt_cons p hps]
        cases hchild : v.child? p with
        | none => exact .same v
        | some c => exact (ih c).putChild hchild

/-- What is left below a segment was there and was thinned at most, or it is the null that was put for
an item. -/
theorem Thinned.child? (h : Thinned v v') {c' : Value} (hchild : v'.child? s = some c') :
    c' = .null ∨ ∃ c, v.child? s = some c ∧ Thinned c c' := by
  cases h with
  | same => exact .inr ⟨c', hchild, .same c'⟩
  | dropped name fields =>
      have hget := Fields.get?_erase fields name s
      rw [Fields.erase] at hget
      have hchild : Fields.get? (fields.filter fun field => field.1 ≠ name) s = some c' := hchild
      rw [hget] at hchild
      split at hchild
      · cases hchild
      · exact .inr ⟨c', hchild, .same c'⟩
  | nulled before old after =>
      obtain ⟨i, hindex, hitem⟩ := Option.bind_eq_some_iff.1 hchild
      rcases getElem?_middle hitem with ⟨hnull, -⟩ | hsame
      · exact .inl hnull
      · exact .inr ⟨c', Option.bind_eq_some_iff.2 ⟨i, hindex, hsame old⟩, .same c'⟩
  | @field before name old new after below =>
      rcases Fields.get?_middle hchild with ⟨rfl, hthere⟩ | hsame
      · exact .inr ⟨old, hthere old, below⟩
      · exact .inr ⟨c', hsame old, .same c'⟩
  | @item before old new after below =>
      obtain ⟨i, hindex, hitem⟩ := Option.bind_eq_some_iff.1 hchild
      rcases getElem?_middle hitem with ⟨rfl, hthere⟩ | hsame
      · exact .inr ⟨old, Option.bind_eq_some_iff.2 ⟨i, hindex, hthere old⟩, below⟩
      · exact .inr ⟨c', Option.bind_eq_some_iff.2 ⟨i, hindex, hsame old⟩, .same c'⟩

theorem Thinned.getAt (h : Thinned v v') (hthere : Value.getAt ps v' = some w) :
    w = .null ∨ ∃ old, Value.getAt ps v = some old ∧ Thinned old w := by
  induction ps generalizing v v' with
  | nil =>
      rw [getAt_nil, Option.some.injEq] at hthere
      exact .inr ⟨v, getAt_nil v, hthere ▸ h⟩
  | cons p ps ih =>
      rw [getAt_cons] at hthere
      obtain ⟨c', hchild', hbelow⟩ := Option.bind_eq_some_iff.1 hthere
      rcases h.child? hchild' with rfl | ⟨c, hchild, hc⟩
      · cases ps with
        | nil =>
            rw [getAt_nil, Option.some.injEq] at hbelow
            exact .inl hbelow.symm
        | cons q qs => cases hbelow
      · rw [getAt_cons, hchild, Option.bind_some]
        exact ih hc hbelow

theorem Thinned.names_sublist (h : Thinned v (.document fields)) :
    ∃ old, v = .document old ∧ (Fields.names fields).Sublist (Fields.names old) := by
  cases h with
  | same => exact ⟨fields, rfl, .refl _⟩
  | dropped name old => exact ⟨old, rfl, List.filter_sublist.map Prod.fst⟩
  | @field before name old new after below =>
      exact ⟨_, rfl, by simp [Fields.names]⟩

theorem Thinned.length_eq (h : Thinned v (.list items)) :
    ∃ old, v = .list old ∧ items.length = old.length := by
  cases h with
  | same => exact ⟨items, rfl, rfl⟩
  | nulled before old after => exact ⟨_, rfl, by simp⟩
  | @item before old new after below => exact ⟨_, rfl, by simp⟩

end Value

namespace Document

variable {d : Document} {path : String}

def AddressesItem (d : Document) (path : String) : Prop :=
  Value.AddressesItem (Path.segments path) (.ofDocument d)

/-- What became of a document when a path was cleared. -/
structure Cleared (d : Document) (path : String) (d' : Document) : Prop where
  /-- for an item of a list null is read -/
  item : d.AddressesItem path → d'.getPath path = some .null
  /-- at any other path nothing is read -/
  gone : ¬d.AddressesItem path → d'.getPath path = none
  /-- every list was a list of the same length before -/
  lengths : ∀ place items', (Value.ofDocument d').getAt place = some (.list items') →
    ∃ items, (Value.ofDocument d).getAt place = some (.list items) ∧ items'.length = items.length
  /-- along a path that diverges nothing has changed -/
  others : ∀ other, d.Diverge path other → d'.getPath other = d.getPath other
  /-- where nothing was nothing is done -/
  absent : d.getPath path = none → d' = d
  /-- every document was a document before in which its names stood in the same order -/
  order : ∀ place fields', (Value.ofDocument d').getAt place = some (.document fields') →
    ∃ fields, (Value.ofDocument d).getAt place = some (.document fields) ∧
      (Fields.names fields').Sublist (Fields.names fields)
  /-- all else is what and where it was -/
  thinned : Value.Thinned (.ofDocument d) (.ofDocument d')
  /-- clearing the path again changes nothing -/
  again : d'.unsetPath path = d'

theorem thinned_unsetPath (d : Document) (path : String) :
    Value.Thinned (.ofDocument d) (.ofDocument (d.unsetPath path)) := by
  rw [ofDocument_unsetPath]
  exact Value.thinned_unsetAt _ _

theorem cleared_one_place (d : Document) (path : String) : d.Cleared path (d.unsetPath path) := by
  have hthinned := thinned_unsetPath d path
  refine ⟨fun hitem => ?_, fun hitem => ?_, fun place items' hthere => ?_, fun other hother => ?_,
    fun habsent => ?_, fun place fields' hthere => ?_, hthinned, ?_⟩
  · unfold getPath
    rw [ofDocument_unsetPath]
    exact Value.getAt_unsetAt_of_item hitem
  · unfold getPath
    rw [ofDocument_unsetPath]
    exact Value.getAt_unsetAt_of_not_item (Path.segments_ne_nil path) hitem
  · rcases hthinned.getAt hthere with hnull | ⟨_, hold, hbelow⟩
    · cases hnull
    · obtain ⟨items, rfl, hlength⟩ := hbelow.length_eq
      exact ⟨items, hold, hlength⟩
  · unfold getPath
    rw [ofDocument_unsetPath]
    exact Value.getAt_unsetAt_of_diverge hother
  · apply ofDocument_inj
    rw [ofDocument_unsetPath]
    exact Value.unsetAt_of_getAt_eq_none habsent
  · rcases hthinned.getAt hthere with hnull | ⟨_, hold, hbelow⟩
    · cases hnull
    · obtain ⟨fields, rfl, hnames⟩ := hbelow.names_sublist
      exact ⟨fields, hold, hnames⟩
  · apply ofDocument_inj
    simp only [ofDocument_unsetPath]
    exact Value.unsetAt_unsetAt _ _

/-- An item is cleared under another spelling of its index, and an index out of range is none. -/
theorem cleared_one_place_spelled_index :
    let d : Document := ⟨[("hosts", .list [.document [("name", .string "juju")], .int 2]),
      ("life", .int 0)]⟩
    d.AddressesItem "hosts.+01" ∧ (d.unsetPath "hosts.+01").getPath "hosts.+01" = some .null ∧
      d.Diverge "hosts.+01" "hosts.0.name" ∧
      (d.unsetPath "hosts.+01").getPath "hosts.0.name" = some (.string "juju") ∧
      d.getPath "hosts.2" = none ∧ d.unsetPath "hosts.2" = d := by
  intro d
  have hitem : d.AddressesItem "hosts.+01" :=
    ⟨["hosts"], "+01", _, 1, by decide +kernel, rfl, by decide +kernel, by decide⟩
  have hdiverge : d.Diverge "hosts.+01" "hosts.0.name" :=
    .field (.indices (by rintro i ⟨⟨⟩, h⟩; exact nomatch h) _ [] ["name"])
  have habsent : d.getPath "hosts.2" = none := by rfl
  have hcleared := cleared_one_place d "hosts.+01"
  exact ⟨hitem, hcleared.item hitem, hdiverge, hcleared.others _ hdiverge, habsent,
    (cleared_one_place d "hosts.2").absent habsent⟩

end Document

end FleetUpgrade
