import FleetUpgrade.Proofs.CollectionPlans
import FleetUpgrade.Proofs.ContentEffects
import FleetUpgrade.Proofs.FieldActions

/-! # A field renamed in every element of a list

Each element is reached through its index, which is written into a path and read
back from it. A table that renames a field of all elements has an update for a
document just if every element has the field, the store takes the update, and
afterwards the list has the same elements but for the one field.
-/

namespace FleetUpgrade

/-! ## Names as paths -/

/-- A field name that is a path of one segment. -/
def Path.IsName (name : String) : Prop :=
  name ≠ "" ∧ '.' ∉ name.toList

instance (name : String) : Decidable (Path.IsName name) :=
  inferInstanceAs (Decidable (_ ∧ _))

theorem Path.IsName.segments {name : String} (h : IsName name) : segments name = [name] :=
  segments_of_no_dot h.2

theorem Document.putPath_of_plain {d : Document} {name : String} {value old : Value}
    (hplain : Path.segments name = [name]) (h : d.get? name = some old) :
    d.putPath name value = d.insert name value := by
  have hfound : Fields.get? d.fields name = some old := h
  unfold putPath
  rw [hplain]
  simp only [Value.putAt, Value.child?, Value.ofDocument, hfound, Option.elim_some]
  rfl

/-! ## One element -/

/-- An element before and after a field was renamed: the new field has the old one's value, the old
one is gone, and all other fields are what they were, in their order. -/
structure ElementRenamed (source target : String) (old new : Document) : Prop where
  moved : new.get? target = old.get? source
  gone : new.get? source = none
  rest : new.without [source, target] = old.without [source, target]

theorem Document.renamed?_of_plain {source target : String} (hsource : Path.IsName source)
    (htarget : Path.IsName target) (d : Document) :
    d.renamed? source target =
      (d.get? source).map fun value => (d.insert target value).remove source := by
  unfold renamed?
  rw [getPath_of_plain hsource.segments]
  cases d.get? source with
  | none => rfl
  | some value =>
      rw [Option.bind_some, written?_eq_some_iff.2 (setPath_of_plain htarget.segments htarget.1),
        Option.map_some, Option.map_some, unsetPath_of_plain hsource.segments]

theorem ElementRenamed.of_insert_remove {source target : String} {d : Document} {value : Value}
    (hne : source ≠ target) (hvalue : d.get? source = some value) :
    ElementRenamed source target d ((d.insert target value).remove source) where
  moved := by simp [hne, hvalue]
  gone := by simp
  rest := by
    rw [Document.without_remove _ (by simp), Document.without_insert _ _ (by simp)]

/-! ## The elements of a list -/

def ListsField (list field : String) (d : Document) : Prop :=
  ∃ items, d.get? list = some (.list items) ∧
    ∀ item ∈ items, ∃ element : Document, item = element ∧ element.contains field = true

/-- A document before and after a field was renamed in every element of a list. -/
structure ElementsRenamed (list source target : String) (old new : Document) : Prop where
  elements : ∃ items items', old.get? list = some (.list items) ∧
    new.get? list = some (.list items') ∧
      List.Forall₂ (fun item item' : Value => ∃ element element' : Document, item = element ∧
        item' = element' ∧ ElementRenamed source target element element') items items'
  rest : new.without [list] = old.without [list]

namespace FieldAction

variable {list source target : String} {d : Document} {items values : List Value}

theorem empty_also_elementsEdit (list source target : String) (values : List Value) :
    Update.empty.also (elementsEdit list source target 0 values) =
      elementsEdit list source target 0 values := by
  have hfold : ∀ (fields : Fields) (d : Document),
      fields.foldl (fun set entry => set.insert entry.1 entry.2) d =
        ⟨fields.foldl (fun done field => Fields.put field.1 field.2 done) d.fields⟩ := by
    intro fields
    induction fields with
    | nil => exact fun _ => rfl
    | cons field fields ih => exact fun d => ih (d.insert field.1 field.2)
  unfold Update.also
  rw [hfold]
  have hcollapse := Fields.collapse_of_nodup (nodup_elementsEdit list source target 0 values)
  rw [Fields.collapse] at hcollapse
  exact congrArg (Update.mk · _) (congrArg Document.mk hcollapse)

theorem field?_ofDocument (hsource : Path.IsName source) (element : Document) :
    Value.field? source element = element.get? source :=
  Document.getPath_of_plain hsource.segments

/-- The values are there just if every element is a document with the field. -/
theorem exists_taken?_iff (target : String) (hlist : Path.IsName list) (hsource : Path.IsName source) :
    (∃ values, (renameEach list source target).taken? d = some values) ↔
      ListsField list source d := by
  have helement : ∀ item : Value, (∃ value, item.field? source = some value) ↔
      ∃ element : Document, item = element ∧ element.contains source = true := by
    intro item
    constructor
    · rintro ⟨value, hvalue⟩
      cases item with
      | document fields =>
          refine ⟨⟨fields⟩, rfl, ?_⟩
          rw [Document.contains, ← field?_ofDocument hsource]
          exact Option.isSome_iff_exists.2 ⟨value, hvalue⟩
      | _ => cases hvalue
    · rintro ⟨element, rfl, hcontains⟩
      rw [field?_ofDocument hsource]
      exact Option.isSome_iff_exists.1 hcontains
  unfold ListsField
  simp only [taken?_renameEach, Document.getPath_of_plain hlist.segments, ← helement,
    ← List.exists_mapM_iff]
  constructor
  · rintro ⟨values, items, hitems, hvalues⟩
    exact ⟨items, hitems, values, hvalues⟩
  · rintro ⟨items, hitems, values, hvalues⟩
    exact ⟨values, items, hitems, hvalues⟩

theorem exists_renamed? {item value : Value} (hsource : Path.IsName source)
    (htarget : Path.IsName target) (hvalue : item.field? source = some value) :
    ∃ item', item.renamed? source target = some item' := by
  cases item with
  | document fields =>
      have hget : Document.get? ⟨fields⟩ source = some value :=
        (field?_ofDocument hsource ⟨fields⟩).symm.trans hvalue
      rw [Value.renamed?, Document.renamed?_of_plain hsource htarget, hget]
      exact ⟨_, rfl⟩
  | _ => cases hvalue

theorem elementRenamed_of_renamed? {item item' : Value} (hsource : Path.IsName source)
    (htarget : Path.IsName target) (hne : source ≠ target)
    (h : item.renamed? source target = some item') :
    ∃ element element' : Document, item = element ∧ item' = element' ∧
      ElementRenamed source target element element' := by
  cases item with
  | document fields =>
      rw [Value.renamed?, Document.renamed?_of_plain hsource htarget] at h
      obtain ⟨element', helement, rfl⟩ := Option.map_eq_some_iff.1 h
      obtain ⟨value, hvalue, rfl⟩ := Option.map_eq_some_iff.1 helement
      exact ⟨⟨fields⟩, _, rfl, rfl, .of_insert_remove hne hvalue⟩
  | _ => cases h

/-- The update is carried out on every document from which its values were taken, if the indexes fit
a word. -/
theorem execute_renameEach (hlist : Path.IsName list) (hsource : Path.IsName source)
    (htarget : Path.IsName target) (hne : source ≠ target)
    (htaken : (renameEach list source target).taken? d = some values)
    (hfits : ∀ items, d.get? list = some (.list items) → items.length ≤ 2 ^ 64) :
    ∃ d', (elementsEdit list source target 0 values).execute d = .ok d' ∧
      ElementsRenamed list source target d d' := by
  obtain ⟨items, hitems, hvalues⟩ := taken?_renameEach.1 htaken
  have hget : d.get? list = some (.list items) :=
    (Document.getPath_of_plain hlist.segments).symm.trans hitems
  have haddress : Addressable list items.length := fun _ =>
    ⟨by simp [hlist.segments, hlist.1], hfits items hget⟩
  obtain ⟨items', hrenamed⟩ : ∃ items', items.mapM (Value.renamed? source target) = some items' :=
    List.exists_mapM_iff.2 fun item hitem => by
      obtain ⟨value, hvalue⟩ := List.exists_mapM_iff.1 ⟨values, hvalues⟩ item hitem
      exact exists_renamed? hsource htarget hvalue
  refine ⟨d.insert list (.list items'), ?_, ⟨items, items', hget, by simp, ?_⟩, ?_⟩
  · rw [← Document.putPath_of_plain hlist.segments hget]
    exact (execute_elementsEdit hitems hvalues).2 ⟨haddress, items', hrenamed, rfl⟩
  · exact (List.mapM_eq_some_iff.1 hrenamed).imp fun _ _ =>
      elementRenamed_of_renamed? hsource htarget hne
  · exact Document.without_insert d _ List.mem_cons_self

end FieldAction

namespace FieldEdit

variable {r : FieldEdit} {s : Snapshot} {collection id list source target : String}
  {d : Document}

/-- A table that renames a field in the elements of a list has an update just for the documents in
which that is a list of documents with the field. The store takes such an update of a document that
it holds, and then in every element the new field has the value of the old one, the old one is gone,
and nothing else has changed. -/
theorem renames_in_elements (hr : r.actions = [.renameEach list source target])
    (hlist : Path.IsName list) (hsource : Path.IsName source) (htarget : Path.IsName target)
    (hne : source ≠ target) (hid : d.id = .ok id) :
    ((∃ op, r.updateFor collection d = .ok op) ↔ ListsField list source d) ∧
      ∀ op, r.updateFor collection d = .ok op → s.find? collection id = some d →
        (∀ items, d.get? list = some (.list items) → items.length ≤ 2 ^ 64) →
        ∃ after d', s.apply [op] = .ok after ∧ after.find? collection id = some d' ∧
          ElementsRenamed list source target d d' ∧
          (∀ name key, ¬(name = collection ∧ key = id) →
            after.find? name key = s.find? name key) ∧
          after.pending = s.pending := by
  have hupdate : ∀ op, r.updateFor collection d = .ok op ↔ ∃ values,
      (FieldAction.renameEach list source target).taken? d = some values ∧
        op = .update collection id (FieldAction.elementsEdit list source target 0 values) := by
    intro op
    have hextend : ∀ u, extendAll d [.renameEach list source target] .empty = .ok u ↔
        ∃ values, (FieldAction.renameEach list source target).taken? d = some values ∧
          u = FieldAction.elementsEdit list source target 0 values := by
      intro u
      have hone : extendAll d [.renameEach list source target] .empty =
          (FieldAction.renameEach list source target).extend d .empty := by
        simp only [extendAll]
        split <;> simp_all
      rw [hone, FieldAction.extend_ok]
      simp only [FieldAction.edit, FieldAction.empty_also_elementsEdit]
    unfold updateFor
    simp only [scannedId_eq_ok.2 hid, hr, Except.map_eq_ok, inDocument_eq_ok, hextend]
    constructor
    · rintro ⟨_, ⟨values, htaken, rfl⟩, rfl⟩
      exact ⟨values, htaken, rfl⟩
    · rintro ⟨values, htaken, rfl⟩
      exact ⟨_, ⟨values, htaken, rfl⟩, rfl⟩
  refine ⟨?_, fun op hop hd hfits => ?_⟩
  · rw [← FieldAction.exists_taken?_iff target hlist hsource]
    simp only [hupdate]
    constructor
    · rintro ⟨_, values, htaken, _⟩
      exact ⟨values, htaken⟩
    · rintro ⟨values, htaken⟩
      exact ⟨_, values, htaken, rfl⟩
  · obtain ⟨values, htaken, rfl⟩ := (hupdate op).1 hop
    obtain ⟨d', hexecute, hrenamed⟩ :=
      FieldAction.execute_renameEach hlist hsource htarget hne htaken hfits
    have hexec := Transaction.execute_cons_ok.2
      ⟨_, Operation.execute_update_ok hd hexecute, Transaction.execute_nil _⟩
    obtain ⟨after, happly⟩ := Snapshot.exists_apply_iff.2 ⟨_, hexec⟩
    obtain ⟨hdone, happlied⟩ := Snapshot.apply_ok happly
    have hdocs : after.find? = Documents.place s.find? collection id (some d') :=
      Except.ok.inj (hdone.symm.trans hexec)
    refine ⟨after, d', happly, ?_, hrenamed, fun name key hother => ?_, happlied.pending⟩
    · rw [hdocs, Documents.place_self]
    · rw [hdocs, Documents.place_other _ _ hother]

/-- A relation of which one endpoint has a field of the new name already. -/
def relationDocument : Document :=
  ⟨[("_id", "m:db"), ("endpoints", .list [
      .document [("servicename", "wordpress"), ("role", "requirer")],
      .document [("role", "provider"), ("applicationname", .null), ("servicename", "mysql")],
      .document [("_id", .int 2), ("servicename", .list [])]]), ("life", .int 0)]⟩

def relationEdit : FieldEdit :=
  .ofCollection "relations" "relations" [.renameEach "endpoints" "servicename" "applicationname"]

def relationStore : Snapshot :=
  ⟨Table.empty.insert "relations" (Table.empty.insert "m:db" relationDocument), []⟩

theorem renames_in_endpoints :
    Path.IsName "endpoints" ∧ Path.IsName "servicename" ∧ Path.IsName "applicationname" ∧
      relationDocument.id = .ok "m:db" ∧
      ListsField "endpoints" "servicename" relationDocument ∧
      ∃ op after d', relationEdit.updateFor "relations" relationDocument = .ok op ∧
        relationStore.apply [op] = .ok after ∧ after.find? "relations" "m:db" = some d' ∧
        ElementsRenamed "endpoints" "servicename" "applicationname" relationDocument d' := by
  have hlist : Path.IsName "endpoints" := by decide
  have hsource : Path.IsName "servicename" := by decide
  have htarget : Path.IsName "applicationname" := by decide
  have hid : relationDocument.id = .ok "m:db" := by decide +kernel
  obtain ⟨hupdate, haccepted⟩ := @renames_in_elements relationEdit relationStore "relations"
    "m:db" "endpoints" "servicename" "applicationname" relationDocument rfl hlist hsource htarget
    (by decide) hid
  obtain ⟨op, hop⟩ := exists_ok_of_isOk (x := relationEdit.updateFor "relations" relationDocument)
    (by decide +kernel)
  obtain ⟨after, d', happly, hstored, hrenamed, -⟩ := haccepted op hop rfl (by
    rintro _ ⟨⟩
    decide)
  exact ⟨hlist, hsource, htarget, hid, hupdate.1 ⟨op, hop⟩, op, after, d', hop, happly, hstored,
    hrenamed⟩

end FieldEdit

end FleetUpgrade
