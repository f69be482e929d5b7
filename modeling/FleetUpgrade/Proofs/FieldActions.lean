import FleetUpgrade.Proofs.AtomicWrite
import FleetUpgrade.Proofs.PathFrames
import FleetUpgrade.Proofs.StepDocuments
import Mathlib.Algebra.Group.Nat.Defs
import Mathlib.Data.List.Nodup

/-! # Single actions on a document

What one action of a table means for the document it stands in: which values it
takes, which update it makes of them, and what performing it does. The update of
one action, carried out, performs the action.
-/

namespace FleetUpgrade

/-! ## Indexes in paths -/

namespace Path

theorem text_ofNat (n : Nat) : Decimal.text (Decimal.ofNat n) = Nat.toDigits 10 n := by
  have hdigit : ∀ d : Decimal.Digit, d.char = d.val.digitChar := by decide
  induction n using Nat.strongRecOn with
  | ind n ih =>
      unfold Decimal.ofNat
      by_cases hlt : n < 10
      · rw [dif_pos hlt, Nat.toDigits_of_lt_base hlt]
        exact congrArg (fun c => [c]) (hdigit ⟨n, hlt⟩)
      · rw [dif_neg hlt, Nat.toDigits_of_base_le (by decide) (Nat.le_of_not_lt hlt),
          ← ih (n / 10) (by omega)]
        simp [Decimal.text, hdigit]

theorem toList_toString (n : Nat) : (toString n).toList = Decimal.text (Decimal.ofNat n) := by
  rw [text_ofNat, Nat.toString_eq_repr, Nat.repr_eq_ofList_toDigits, String.toList_ofList]

theorem span_toString (n : Nat) : Decimal.span (toString n).toList = (Decimal.ofNat n, []) := by
  have hspan : Decimal.span (Decimal.text (Decimal.ofNat n) ++ []) = (Decimal.ofNat n, []) :=
    Decimal.span_text_append (Decimal.ofNat n) (by simp)
  rwa [List.append_nil, ← toList_toString] at hspan

theorem toString_inj {n m : Nat} (h : toString n = toString m) : n = m := by
  have hspan := (span_toString n).symm.trans (h ▸ span_toString m)
  rw [← Decimal.value_ofNat n, (Prod.mk.inj hspan).1, Decimal.value_ofNat]

/-- The index that a number writes, as long as it fits a word. -/
theorem index?_toString (n : Nat) : index? (toString n) = if n < 2 ^ 64 then some n else none := by
  have hsign : ∀ d : Decimal.Digit, d.char ≠ '+' := by decide
  have hspan := span_toString n
  rw [toList_toString] at hspan
  unfold index?
  rw [toList_toString]
  split
  · next cs hplus =>
      obtain ⟨d, ds, hds⟩ := List.exists_cons_of_ne_nil (Decimal.ofNat_ne_nil n)
      rw [hds] at hplus
      exact absurd (List.cons.inj hplus).1 (hsign d)
  · have hne : Decimal.text (Decimal.ofNat n) ≠ [] := by
      simpa [Decimal.text] using Decimal.ofNat_ne_nil n
    unfold digitsIndex?
    rw [hspan]
    simp [hne, Decimal.value_ofNat]

theorem lt_of_index? {segment : String} {i : Nat} (h : index? segment = some i) : i < 2 ^ 64 := by
  have hdigits : ∀ cs, digitsIndex? cs = some i → i < 2 ^ 64 := by
    intro cs hcs
    unfold digitsIndex? at hcs
    split at hcs
    · next hfits =>
        cases hcs
        exact hfits.2.2
    · cases hcs
  unfold index? at h
  split at h <;> exact hdigits _ h

theorem segments_append (before after : String) :
    segments (before ++ "." ++ after) = segments before ++ segments after := by
  have hdot : (before ++ "." ++ after).toList = before.toList ++ '.' :: after.toList := by
    simp
  unfold segments
  rw [hdot, Text.segments_append, List.map_append]

theorem segments_of_no_dot {segment : String} (h : '.' ∉ segment.toList) :
    segments segment = [segment] := by
  unfold segments
  rw [Text.segments_of_not_mem h, List.map_singleton, String.ofList_toList]

theorem segments_toString (n : Nat) : segments (toString n) = [toString n] := by
  have hdot : ∀ d : Decimal.Digit, d.char ≠ '.' := by decide
  refine segments_of_no_dot fun hmem => ?_
  rw [toList_toString] at hmem
  obtain ⟨d, -, hd⟩ := List.mem_map.1 hmem
  exact hdot d hd

end Path

/-! ## The meaning of an action -/

namespace Document

/-- A document after a field was renamed: the new field takes the value, then the old one is
cleared. -/
def renamed? (d : Document) (source target : String) : Option Document :=
  (d.getPath source).bind fun value =>
    (d.written? target value).map fun written => written.unsetPath source

end Document

namespace Value

def field? (field : String) : Value → Option Value
  | .document fields => Document.getPath ⟨fields⟩ field
  | _ => none

def renamed? (source target : String) : Value → Option Value
  | .document fields => (Document.renamed? ⟨fields⟩ source target).map ofDocument
  | _ => none

/-- An element after the new field of a renaming was set in it. -/
def targeted? (source target : String) (item : Value) : Option Value :=
  (item.field? source).bind fun value => written? value (Path.segments target) item

end Value

namespace FieldAction

def perform (action : FieldAction) (d : Document) : Option Document :=
  match action with
  | .rename source target => d.renamed? source target
  | .copy source target => (d.getPath source).bind fun value => d.written? target value
  | .renameEach list source target =>
      match d.getPath list with
      | some (.list items) =>
          (items.mapM (Value.renamed? source target)).map fun renamed =>
            d.putPath list (.list renamed)
      | _ => none
  | .unset field => some (d.unsetPath field)
  | .set field value => d.written? field value

/-- Perform actions one after another, each on what the one before left. -/
def performAll (d : Document) (actions : List FieldAction) : Option Document :=
  actions.foldlM (fun d action => action.perform d) d

/-! ## What an action takes and writes -/

/-- The values an action takes from a document. -/
def taken? (action : FieldAction) (d : Document) : Option (List Value) :=
  match action with
  | .rename source _ => (d.getPath source).map fun value => [value]
  | .copy source _ => (d.getPath source).map fun value => [value]
  | .renameEach list source _ =>
      match d.getPath list with
      | some (.list items) => items.mapM (Value.field? source)
      | _ => none
  | .unset _ => some []
  | .set _ _ => some []

def elementPath (list : String) (index : Nat) (field : String) : String :=
  list ++ "." ++ toString index ++ "." ++ field

def elementsEdit (list source target : String) (index : Nat) (values : List Value) : Update :=
  ⟨⟨(values.zipIdx index).map fun entry => (elementPath list entry.2 target, entry.1)⟩,
    (values.zipIdx index).map fun entry => elementPath list entry.2 source⟩

def edit (action : FieldAction) (values : List Value) : Update :=
  match action with
  | .rename source target => ⟨⟨values.map fun value => (target, value)⟩, [source]⟩
  | .copy _ target => ⟨⟨values.map fun value => (target, value)⟩, []⟩
  | .renameEach list source target => elementsEdit list source target 0 values
  | .unset field => ⟨.empty, [field]⟩
  | .set field value => ⟨⟨[(field, value)]⟩, []⟩

/-- The places from which an action takes its values; of a list without elements, the list. -/
def takes (action : FieldAction) (values : List Value) : List String :=
  match action with
  | .rename source _ => [source]
  | .copy source _ => [source]
  | .renameEach list source _ =>
      if values = [] then [list]
      else (List.range values.length).map fun index => elementPath list index source
  | .unset _ => []
  | .set _ _ => []

end FieldAction

def Update.also (u more : Update) : Update :=
  ⟨more.set.fields.foldl (fun set entry => set.insert entry.1 entry.2) u.set,
    u.unset ++ more.unset⟩

namespace FieldAction

variable {action : FieldAction} {d d' : Document} {u u' : Update} {values : List Value}

theorem segments_elementPath (list : String) (index : Nat) (field : String) :
    Path.segments (elementPath list index field) =
      Path.segments list ++ toString index :: Path.segments field := by
  unfold elementPath
  rw [Path.segments_append, Path.segments_append, Path.segments_toString, List.append_assoc]
  rfl

theorem renameElements_cons {list source target : String} {index : Nat} {item : Value}
    {items : List Value} :
    renameElements list source target index (item :: items) u = .ok u' ↔
      ∃ value, item.field? source = some value ∧
        renameElements list source target (index + 1) items
          ((u.setting (elementPath list index target) value).clearing
            (elementPath list index source)) = .ok u' := by
  cases item with
  | document fields =>
      simp only [renameElements, Value.field?, Document.require]
      cases Document.getPath ⟨fields⟩ source with
      | none => simp
      | some value => simp [elementPath]
  | _ => simp [renameElements, Value.field?]

theorem renameElements_ok {list source target : String} {index : Nat} {items : List Value} :
    renameElements list source target index items u = .ok u' ↔
      ∃ values, items.mapM (Value.field? source) = some values ∧
        u' = u.also (elementsEdit list source target index values) := by
  simp only [List.mapM_eq_some_iff]
  induction items generalizing index u with
  | nil =>
      have hnone : u.also (elementsEdit list source target index []) = u := by
        simp [Update.also, elementsEdit]
      simp only [renameElements, List.forall₂_nil_left_iff, exists_eq_left, Except.ok.injEq, hnone,
        eq_comm]
  | cons item items ih =>
      have hmore : ∀ value values,
          ((u.setting (elementPath list index target) value).clearing
            (elementPath list index source)).also
              (elementsEdit list source target (index + 1) values) =
            u.also (elementsEdit list source target index (value :: values)) := fun value values => by
        simp [Update.also, elementsEdit, Update.setting, Update.clearing]
      rw [renameElements_cons]
      constructor
      · rintro ⟨value, hvalue, hrest⟩
        obtain ⟨values, hvalues, rfl⟩ := ih.1 hrest
        exact ⟨value :: values, .cons hvalue hvalues, hmore value values⟩
      · rintro ⟨_, hvalues, rfl⟩
        cases hvalues with
        | cons hvalue hvalues => exact ⟨_, hvalue, ih.2 ⟨_, hvalues, (hmore _ _).symm⟩⟩

theorem taken?_renameEach {list source target : String} :
    (renameEach list source target).taken? d = some values ↔
      ∃ items, d.getPath list = some (.list items) ∧
        items.mapM (Value.field? source) = some values := by
  simp only [taken?]
  constructor
  · intro h
    split at h
    · next items hitems => exact ⟨items, hitems, h⟩
    · cases h
  · rintro ⟨items, hitems, h⟩
    rw [hitems]
    exact h

theorem extend_ok :
    action.extend d u = .ok u' ↔
      ∃ values, action.taken? d = some values ∧ u' = u.also (action.edit values) := by
  cases action with
  | rename source target =>
      simp only [extend, taken?, Document.require]
      cases d.getPath source with
      | none => simp [Except.map]
      | some value => simp [Except.map, edit, Update.also, Update.setting, Update.clearing, eq_comm]
  | copy source target =>
      simp only [extend, taken?, Document.require]
      cases d.getPath source with
      | none => simp [Except.map]
      | some value => simp [Except.map, edit, Update.also, Update.setting, eq_comm]
  | renameEach list source target =>
      simp only [extend, taken?, Document.getList, Document.require]
      cases d.getPath list with
      | none => simp
      | some value =>
          cases value with
          | list items => exact renameElements_ok
          | _ => simp
  | unset field => simp [extend, taken?, edit, Update.also, Update.clearing, Document.empty, eq_comm]
  | set field value => simp [extend, taken?, edit, Update.also, Update.setting, eq_comm]

/-! ## Values taken after a change elsewhere -/

/-- A change inside a list that reaches no source keeps the sources of the elements. -/
theorem sources_changed {source p : String} {ps : List String} {items : List Value} {v : Value}
    (hchanged : Value.Changed (p :: ps) (.list items) v)
    (hsources : items.mapM (Value.field? source) = some values)
    (hfork : ∀ i < values.length, Path.Fork (p :: ps) (toString i :: Path.segments source)) :
    ∃ items', v = .list items' ∧ items'.mapM (Value.field? source) = some values := by
  rcases hchanged.of_list with rfl | ⟨i, c, c', hindex, hc, rfl, hbelow⟩
  · exact ⟨items, rfl, hsources⟩
  · obtain ⟨hlt, rfl⟩ := List.getElem?_eq_some_iff.1 hc
    have hall := List.mapM_eq_some_iff.1 hsources
    have hlong := hall.length_eq
    have hvalue : items[i].field? source = some values[i] := hall.get hlt (hlong ▸ hlt)
    have hsame : c'.field? source = items[i].field? source := by
      rcases hfork i (hlong ▸ hlt) with hsep | ⟨-, hrest⟩
      · -- both segments are the index of this element
        rw [Path.Separate, hindex, Path.index?_toString, if_pos (Path.lt_of_index? hindex)] at hsep
        simp at hsep
      · have hbelow := hbelow hrest.ne_nil
        cases helement : items[i] with
        | document fields =>
            rw [helement] at hbelow
            obtain ⟨fields', rfl⟩ := hbelow.of_document hrest.ne_nil
            exact hbelow.getAt_eq hrest
        | _ =>
            rw [helement] at hvalue
            cases hvalue
    refine ⟨items.set i c', rfl, ?_⟩
    rw [List.mapM_eq_some_iff_map] at hsources ⊢
    rw [← hsources, List.map_set, hsame, ← List.map_set, List.set_getElem_self]

/-- An action takes the same values after a change apart from where it takes them. -/
theorem taken?_changed {path : String}
    (hchanged : Value.Changed (Path.segments path) (.ofDocument d) (.ofDocument d'))
    (h : action.taken? d = some values)
    (hapart : ∀ place ∈ action.takes values, Path.Apart path place) :
    action.taken? d' = some values := by
  have hplace : ∀ place, Path.Apart path place → d'.getPath place = d.getPath place :=
    fun place hplace => hchanged.getAt_eq hplace
  cases action with
  | rename source target =>
      rw [taken?, hplace source (hapart source List.mem_cons_self)]
      exact h
  | copy source target =>
      rw [taken?, hplace source (hapart source List.mem_cons_self)]
      exact h
  | renameEach list source target =>
      obtain ⟨items, hlist, h⟩ := taken?_renameEach.1 h
      have helement : ∀ i < values.length, Path.Apart path (elementPath list i source) := by
        intro i hi
        have hne : values ≠ [] := List.length_pos_iff.1 (Nat.zero_lt_of_lt hi)
        refine hapart _ ?_
        rw [takes, if_neg hne]
        exact List.mem_map.2 ⟨i, List.mem_range.2 hi, rfl⟩
      -- the list stands where it stood, unless the change is inside it
      have hinside : Path.Apart path list ∨ ∃ q qs, Path.segments path =
          Path.segments list ++ q :: qs := by
        by_cases hnone : values = []
        · exact .inl (hapart list (by simp [takes, hnone]))
        · have hfirst := helement 0 (List.length_pos_iff.2 hnone)
          rw [Path.Apart, segments_elementPath] at hfirst
          rcases hfirst.of_append with hlistApart | ⟨more, hmore, hrest⟩
          · exact .inl hlistApart
          · obtain ⟨q, qs, rfl⟩ := List.exists_cons_of_ne_nil hrest.ne_nil
            exact .inr ⟨q, qs, hmore⟩
      rcases hinside with hlistApart | ⟨q, qs, hinside⟩
      · exact taken?_renameEach.2 ⟨items, (hplace list hlistApart).trans hlist, h⟩
      · rw [hinside] at hchanged
        obtain ⟨v, hbelow, hv⟩ := hchanged.below (by simp) hlist
        obtain ⟨items', rfl, hsources⟩ := sources_changed hbelow h fun i hi => by
          have happart := helement i hi
          rw [Path.Apart, segments_elementPath, hinside] at happart
          exact happart.of_append_left
        exact taken?_renameEach.2 ⟨items', hv, hsources⟩
  | unset field => exact h
  | set field value => exact h

end FieldAction

/-! ## The update of one action carried out -/

namespace Update

variable {d d' : Document} {path : String} {value : Value}

theorem setOne_ok_iff : setOne d (path, value) = .ok d' ↔
    path ≠ Document.idField ∧ d.written? path value = some d' := by
  rw [Document.written?_eq_some_iff]
  unfold setOne
  by_cases hid : path = Document.idField
  · simp [hid]
  · rw [if_neg hid]
    cases d.setPath path value with
    | mk after failure => cases failure <;> simp [hid]

theorem clearOne_ok_iff : clearOne d path = .ok d' ↔
    path ≠ Document.idField ∧ d' = d.unsetPath path := by
  unfold clearOne
  by_cases hid : path = Document.idField <;> simp [hid, eq_comm]

end Update

namespace FieldAction

section elements

variable {list source target : String} {index : Nat} {d d' : Document} {items : List Value}
  {item : Value}

theorem elementPath_ne_idField (list : String) (index : Nat) (field : String) :
    elementPath list index field ≠ Document.idField := by
  intro he
  have hlength := congrArg List.length
    ((segments_elementPath list index field).symm.trans (he ▸ Path.segments_idField))
  have hlist := List.length_pos_iff.2 (Path.segments_ne_nil list)
  simp at hlength
  omega

/-- Writing a field of an element writes it in the element, which stays at its place in the list. -/
theorem written?_elementPath {value : Value} (hlist : d.getPath list = some (.list items))
    (hitem : items[index]? = some item) :
    d.written? (elementPath list index target) value = some d' ↔
      (∀ segment ∈ Path.segments list, segment ≠ "") ∧ index < 2 ^ 64 ∧
        ∃ written, Value.written? value (Path.segments target) item = some written ∧
          d' = d.putPath list (.list (items.set index written)) := by
  rw [Document.written?_iff, segments_elementPath, Value.written?_append hlist]
  refine and_congr_right fun _ => ?_
  simp only [Value.written?_cons, Value.slot?]
  by_cases hfits : index < 2 ^ 64
  · have hindex : Path.index? (toString index) = some index := by
      rw [Path.index?_toString, if_pos hfits]
    simp only [hindex, Option.bind_some, hitem, Option.some.injEq, hfits, true_and,
      Value.putChild, Option.elim_some]
    constructor
    · rintro ⟨_, ⟨_, written, rfl, hwritten, rfl⟩, hd'⟩
      exact ⟨written, hwritten, Document.ofDocument_inj (hd'.trans
        (Document.ofDocument_putPath d list _).symm)⟩
    · rintro ⟨written, hwritten, rfl⟩
      exact ⟨_, ⟨item, written, rfl, hwritten, rfl⟩, Document.ofDocument_putPath d list _⟩
  · have hnone : Path.index? (toString index) = none := by
      rw [Path.index?_toString, if_neg hfits]
    simp only [hnone, Option.bind_none, reduceCtorEq, false_and, exists_false, hfits]

theorem unsetPath_elementPath (hlist : d.getPath list = some (.list items))
    (hitem : items[index]? = some item) (hfits : index < 2 ^ 64) :
    d.unsetPath (elementPath list index source) =
      d.putPath list (.list (items.set index (Value.unsetAt (Path.segments source) item))) := by
  apply Document.ofDocument_inj
  rw [Document.ofDocument_unsetPath, Document.ofDocument_putPath, segments_elementPath,
    Value.unsetAt_append hlist (by simp), Value.unsetAt_cons _ (Path.segments_ne_nil source)]
  simp only [Value.child?, Value.putChild, Path.index?_toString, if_pos hfits, Option.bind_some,
    hitem, Option.elim_some]

/-- A list whose elements can be addressed by paths: the path to it has no empty segment, and every
index fits a word. -/
def Addressable (list : String) (length : Nat) : Prop :=
  length ≠ 0 → (∀ segment ∈ Path.segments list, segment ≠ "") ∧ length ≤ 2 ^ 64

theorem getElem?_next {done rest : List Value} (hindex : done.length = index) :
    (done ++ item :: rest)[index]? = some item := by
  rw [List.getElem?_append_right (Nat.le_of_eq hindex)]
  simp [hindex]

theorem set_next {done rest : List Value} (hindex : done.length = index) (new : Value) :
    (done ++ item :: rest).set index new = (done ++ [new]) ++ rest := by
  rw [List.set_append_right _ _ (Nat.le_of_eq hindex)]
  simp [hindex]

theorem foldlM_setOne_elements (done : List Value) {rest values : List Value}
    (hsources : List.Forall₂ (fun item value => item.field? source = some value) rest values)
    (hlist : d.getPath list = some (.list (done ++ rest))) (hindex : done.length = index) :
    (elementsEdit list source target index values).set.fields.foldlM Update.setOne d = .ok d' ↔
      (rest ≠ [] → Addressable list (index + rest.length)) ∧
        ∃ written, List.Forall₂ (fun item new => item.targeted? source target = some new)
          rest written ∧ d' = d.putPath list (.list (done ++ written)) := by
  induction hsources generalizing done d index with
  | nil =>
      have hsame := Document.putPath_same hlist
      simp only [List.forall₂_nil_left_iff, exists_eq_left, ne_eq, not_true_eq_false,
        false_implies, true_and, hsame]
      exact ⟨fun h => (Except.ok.inj h).symm, fun h => h ▸ rfl⟩
  | @cons item value rest values hvalue hrest ih =>
      have hitem : (done ++ item :: rest)[index]? = some item := getElem?_next hindex
      have htargeted : ∀ new, item.targeted? source target = some new ↔
          Value.written? value (Path.segments target) item = some new := fun new => by
        rw [Value.targeted?, hvalue, Option.bind_some]
      change (List.foldlM Update.setOne d ((elementPath list index target, value) ::
        (elementsEdit list source target (index + 1) values).set.fields)) = .ok d' ↔ _
      rw [List.foldlM_cons, Except.bind_eq_ok]
      simp only [Update.setOne_ok_iff, elementPath_ne_idField, ne_eq, not_false_eq_true, true_and,
        written?_elementPath hlist hitem, set_next hindex, List.forall₂_cons_left_iff, htargeted]
      have hnext : ∀ new, (d.putPath list (.list (done ++ [new] ++ rest))).getPath list =
          some (.list (done ++ [new] ++ rest)) := fun new => Document.getPath_putPath hlist
      have hindex' : ∀ new, (done ++ [new]).length = index + 1 := fun new => by simp [hindex]
      constructor
      · rintro ⟨_, ⟨hsegments, hfits, new, hnew, rfl⟩, hfold⟩
        obtain ⟨haddress, more, hmore, rfl⟩ := (ih _ (hnext new) (hindex' new)).1 hfold
        refine ⟨fun _ _ => ⟨hsegments, ?_⟩, new :: more, ⟨new, more, hnew, hmore, rfl⟩, ?_⟩
        · cases rest with
          | nil => exact hfits
          | cons next rest =>
              have hlong := (haddress (by simp) (by simp)).2
              simp only [List.length_cons] at hlong ⊢
              omega
        · rw [Document.putPath_putPath, List.append_assoc]
          rfl
      · rintro ⟨haddress, _, ⟨new, more, hnew, hmore, rfl⟩, rfl⟩
        obtain ⟨hsegments, hlong⟩ := haddress (by simp) (by simp)
        rw [List.length_cons] at hlong
        refine ⟨_, ⟨hsegments, by omega, new, hnew, rfl⟩, (ih _ (hnext new) (hindex' new)).2
          ⟨fun _ _ => ⟨hsegments, by omega⟩, more, hmore, ?_⟩⟩
        rw [Document.putPath_putPath, List.append_assoc]
        rfl

theorem foldlM_clearOne_elements (done : List Value) {rest values : List Value}
    (hlength : rest.length = values.length)
    (hlist : d.getPath list = some (.list (done ++ rest))) (hindex : done.length = index)
    (hfits : index + rest.length ≤ 2 ^ 64) :
    (elementsEdit list source target index values).unset.foldlM Update.clearOne d =
      .ok (d.putPath list
        (.list (done ++ rest.map (Value.unsetAt (Path.segments source))))) := by
  induction rest generalizing done d index values with
  | nil =>
      obtain rfl : values = [] := List.length_eq_zero_iff.1 hlength.symm
      rw [List.map_nil, Document.putPath_same hlist]
      rfl
  | cons item rest ih =>
      obtain ⟨value, values, rfl⟩ := List.exists_cons_of_length_pos
        (hlength ▸ Nat.succ_pos rest.length : 0 < values.length)
      have hitem : (done ++ item :: rest)[index]? = some item := getElem?_next hindex
      rw [List.length_cons] at hfits
      change (List.foldlM Update.clearOne d (elementPath list index source ::
        (elementsEdit list source target (index + 1) values).unset)) = _
      rw [List.foldlM_cons, Update.clearOne_ok_iff.2 ⟨elementPath_ne_idField list index source,
        (unsetPath_elementPath hlist hitem (by omega)).symm⟩, set_next hindex]
      refine (ih _ (Nat.succ.inj hlength) (Document.getPath_putPath hlist) (by simp [hindex])
        (by omega)).trans ?_
      rw [Document.putPath_putPath, List.append_assoc]
      rfl

theorem renamed?_eq (source target : String) (item : Value) :
    item.renamed? source target =
      (item.targeted? source target).map (Value.unsetAt (Path.segments source)) := by
  cases item with
  | document fields =>
      simp only [Value.renamed?, Document.renamed?, Value.targeted?, Value.field?]
      cases Document.getPath ⟨fields⟩ source with
      | none => rfl
      | some value =>
          have hwritten := Document.map_written? ⟨fields⟩ target value
          change _ = Value.written? value (Path.segments target) (.document fields) at hwritten
          rw [Option.bind_some, Option.bind_some, ← hwritten, Option.map_map, Option.map_map]
          exact congrArg (Option.map · _) (funext fun written =>
            Document.ofDocument_unsetPath written source)
  | _ => rfl

theorem sets_elementsEdit {values : List Value} (hlist : d.getPath list = some (.list items))
    (hsources : items.mapM (Value.field? source) = some values) :
    (elementsEdit list source target 0 values).set.fields.foldlM Update.setOne d = .ok d' ↔
      Addressable list items.length ∧
        ∃ written, items.mapM (Value.targeted? source target) = some written ∧
          d' = d.putPath list (.list written) := by
  have haddress : (items ≠ [] → Addressable list (0 + items.length)) ↔
      Addressable list items.length := by
    rw [Nat.zero_add]
    exact ⟨fun h hlong => h (fun hnil => hlong (congrArg List.length hnil)) hlong, fun h _ => h⟩
  rw [foldlM_setOne_elements [] (List.mapM_eq_some_iff.1 hsources) hlist List.length_nil, haddress]
  simp only [← List.mapM_eq_some_iff, List.nil_append]

theorem clears_elementsEdit {values written : List Value}
    (hlist : d.getPath list = some (.list items)) (hlength : written.length = values.length)
    (haddress : Addressable list written.length) :
    (elementsEdit list source target 0 values).unset.foldlM Update.clearOne
        (d.putPath list (.list written)) =
      .ok (d.putPath list (.list (written.map (Value.unsetAt (Path.segments source))))) := by
  have hfits : 0 + written.length ≤ 2 ^ 64 := by
    by_cases hnone : written.length = 0
    · omega
    · have := (haddress hnone).2
      omega
  refine (foldlM_clearOne_elements [] hlength (Document.getPath_putPath hlist) rfl hfits).trans ?_
  rw [Document.putPath_putPath]
  rfl

/-- The update of a renaming in every element, carried out, renames in every element. -/
theorem execute_elementsEdit {values : List Value} (hlist : d.getPath list = some (.list items))
    (hsources : items.mapM (Value.field? source) = some values) :
    (elementsEdit list source target 0 values).execute d = .ok d' ↔
      Addressable list items.length ∧
        ∃ renamed, items.mapM (Value.renamed? source target) = some renamed ∧
          d' = d.putPath list (.list renamed) := by
  have hlength : items.length = values.length := (List.mapM_eq_some_iff.1 hsources).length_eq
  have hlong : ∀ written, items.mapM (Value.targeted? source target) = some written →
      items.length = written.length := fun _ h => (List.mapM_eq_some_iff.1 h).length_eq
  have hrenamed : items.mapM (Value.renamed? source target) =
      (items.mapM (Value.targeted? source target)).map
        (List.map (Value.unsetAt (Path.segments source))) := by
    rw [← List.mapM_option_map]
    exact congrArg (items.mapM ·) (funext (renamed?_eq source target))
  constructor
  · intro h
    obtain ⟨between, hset, hclear⟩ := Except.bind_eq_ok.1 h
    obtain ⟨haddress, written, hwritten, rfl⟩ := (sets_elementsEdit hlist hsources).1 hset
    have hsame := hlong written hwritten
    rw [clears_elementsEdit hlist (hsame.symm.trans hlength) (hsame ▸ haddress)] at hclear
    cases hclear
    exact ⟨haddress, _, by rw [hrenamed, hwritten]; rfl, rfl⟩
  · rintro ⟨haddress, renamed, hall, rfl⟩
    rw [hrenamed] at hall
    obtain ⟨written, hwritten, rfl⟩ := Option.map_eq_some_iff.1 hall
    have hsame := hlong written hwritten
    exact Except.bind_eq_ok.2
      ⟨_, (sets_elementsEdit hlist hsources).2 ⟨haddress, written, hwritten, rfl⟩,
        clears_elementsEdit hlist (hsame.symm.trans hlength) (hsame ▸ haddress)⟩

theorem elementPath_inj {other : Nat}
    (h : elementPath list index target = elementPath list other target) : index = other := by
  have hsegments := congrArg Path.segments h
  rw [segments_elementPath, segments_elementPath, List.append_cancel_left_eq] at hsegments
  exact Path.toString_inj (List.cons.inj hsegments).1

theorem nodup_elementsEdit (list source target : String) (index : Nat) (values : List Value) :
    (elementsEdit list source target index values).set.names.Nodup := by
  have hnames : (elementsEdit list source target index values).set.names =
      (List.range' index values.length).map fun i => elementPath list i target := by
    rw [← List.zipIdx_map_snd, List.map_map]
    exact List.map_map
  rw [hnames]
  exact List.Nodup.map (fun _ _ => elementPath_inj) (List.nodup_range' 1)

end elements

/-- The update of one action, carried out on a document from which the action takes its values,
performs the action. -/
theorem perform_of_execute {action : FieldAction} {d d' : Document} {values : List Value}
    (htaken : action.taken? d = some values) (h : (action.edit values).execute d = .ok d') :
    action.perform d = some d' := by
  cases action with
  | rename source target =>
      obtain ⟨value, hvalue, rfl⟩ := Option.map_eq_some_iff.1 htaken
      obtain ⟨between, hset, hclear⟩ := Except.bind_eq_ok.1 h
      simp only [edit, List.map_cons, List.map_nil, List.foldlM_cons, List.foldlM_nil,
        bind_pure, Update.setOne_ok_iff, Update.clearOne_ok_iff] at hset hclear
      rw [perform, Document.renamed?, hvalue, Option.bind_some, hset.2, hclear.2]
      rfl
  | copy source target =>
      obtain ⟨value, hvalue, rfl⟩ := Option.map_eq_some_iff.1 htaken
      obtain ⟨between, hset, hclear⟩ := Except.bind_eq_ok.1 h
      cases hclear
      simp only [edit, List.map_cons, List.map_nil, List.foldlM_cons, List.foldlM_nil,
        bind_pure, Update.setOne_ok_iff] at hset
      rw [perform, hvalue, Option.bind_some, hset.2]
  | renameEach list source target =>
      obtain ⟨items, hlist, hsources⟩ := taken?_renameEach.1 htaken
      obtain ⟨-, renamed, hrenamed, rfl⟩ := (execute_elementsEdit hlist hsources).1 h
      rw [perform, hlist]
      exact congrArg (Option.map _) hrenamed
  | unset field =>
      obtain ⟨between, hset, hclear⟩ := Except.bind_eq_ok.1 h
      cases hset
      simp only [edit, List.foldlM_cons, List.foldlM_nil, bind_pure,
        Update.clearOne_ok_iff] at hclear
      rw [perform, hclear.2]
  | set field value =>
      obtain ⟨between, hset, hclear⟩ := Except.bind_eq_ok.1 h
      cases hclear
      simp only [edit, List.foldlM_cons, List.foldlM_nil, bind_pure,
        Update.setOne_ok_iff] at hset
      rw [perform, hset.2]

end FieldAction

end FleetUpgrade
