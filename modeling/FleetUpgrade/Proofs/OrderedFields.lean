import FleetUpgrade.Proofs.ClearedPaths
import FleetUpgrade.Proofs.DecodedSnapshots

/-! # Documents stay ordered maps

A decoded document has no name twice at any level, and no call on it gives it
one. Each call leaves what it does not touch what and where it was: a field that
is overwritten keeps its place, a new one comes after all others, and those that
remain when others are taken out keep their order. A write at a path does so in
every document on its way, also if it fails (`Rewritten`).
-/

namespace FleetUpgrade

namespace Fields

/-- Fields before and after a name was given a value. -/
inductive Assigned (name : String) (value : Value) : Fields → Fields → Prop
  | overwritten (before : Fields) (old : Value) (after : Fields) :
      Assigned name value (before ++ (name, old) :: after) (before ++ (name, value) :: after)
  | created (fields : Fields) (hfresh : name ∉ names fields) :
      Assigned name value fields (fields ++ [(name, value)])

variable {fields : Fields} {name : String} {value : Value}

theorem assigned_put (name : String) (value : Value) (fields : Fields) :
    Assigned name value fields (put name value fields) := by
  cases hget : get? fields name with
  | none =>
      have hfresh := get?_eq_none_iff.1 hget
      rw [put_of_not_mem hfresh]
      exact .created fields hfresh
  | some old =>
      obtain ⟨before, after, hsplit, hput⟩ := put_split hget
      rw [hput, hsplit]
      exact .overwritten before old after

end Fields

namespace Value

/-- A value before and after a write into it, which arrived or was stopped on its way. The write goes
on in a field or an item, or in a document that it makes for a new name. -/
inductive Rewritten (new : Value) : Bool → Value → Value → Prop
  | arrived (old : Value) : Rewritten new true old new
  | stopped (v : Value) : Rewritten new false v v
  | field {arrived : Bool} {old child : Value} (below : Rewritten new arrived old child)
      (before : Fields) (name : String) (after : Fields) :
      Rewritten new arrived (.document (before ++ (name, old) :: after))
        (.document (before ++ (name, child) :: after))
  | made {arrived : Bool} {child : Value} (below : Rewritten new arrived (.document []) child)
      (fields : Fields) {name : String} (hfresh : name ∉ Fields.names fields) :
      Rewritten new arrived (.document fields) (.document (fields ++ [(name, child)]))
  | item {arrived : Bool} {old child : Value} (below : Rewritten new arrived old child)
      (before after : List Value) :
      Rewritten new arrived (.list (before ++ old :: after)) (.list (before ++ child :: after))

theorem rewritten_setAt (path : String) (new : Value) (ps : List String) (v : Value) :
    Rewritten new (setAt path new ps v).2.isNone v (setAt path new ps v).1 := by
  induction ps generalizing v with
  | nil => exact .arrived v
  | cons s rest ih =>
      cases v with
      | document fields =>
          by_cases hname : s = ""
          · subst hname
            exact .stopped (.document fields)
          · rw [setAt_field hname]
            cases hget : Fields.get? fields s with
            | none =>
                have hfresh := Fields.get?_eq_none_iff.1 hget
                rw [Fields.put_of_not_mem hfresh, Option.getD_none]
                exact .made (ih _) fields hfresh
            | some old =>
                obtain ⟨before, after, hsplit, hput⟩ := Fields.put_split hget
                rw [hput, hsplit, Option.getD_some]
                exact .field (ih old) before s after
      | list items =>
          obtain ⟨i, c, hindex, hitem⟩ | hindex := item_or_noItem s items
          · rw [setAt_item hindex hitem]
            obtain ⟨before, after, hsplit, hset⟩ := set_split hitem
            rw [hset, hsplit]
            exact .item (ih c) before after
          · rw [setAt_noItem hindex]
            exact .stopped (.list items)
      | _ => exact .stopped _

end Value

/-! ## Calls -/

inductive DocumentCall where
  | insert (name : String) (value : Value)
  | replace (name : String) (value : Value)
  | remove (name : String)
  | without (names : List String)
  | setPath (path : String) (value : Value)
  | unsetPath (path : String)

namespace DocumentCall

/-- The document after a call; a write that fails leaves what it made. -/
def perform : DocumentCall → Document → Document
  | .insert name value, d => d.insert name value
  | .replace name value, d => d.replace name value
  | .remove name, d => d.remove name
  | .without names, d => d.without names
  | .setPath path value, d => (d.setPath path value).1
  | .unsetPath path, d => d.unsetPath path

def performAll (calls : List DocumentCall) (d : Document) : Document :=
  calls.foldl (fun d c => c.perform d) d

def namesOnce : DocumentCall → Bool
  | .insert _ value => value.all Value.namesOnce
  | .replace _ value => value.all Value.namesOnce
  | .setPath _ value => value.all Value.namesOnce
  | _ => true

/-- How a call changes a document, name by name and place by place. -/
def Changes : DocumentCall → Document → Document → Prop
  | .insert name value, d, d' => Fields.Assigned name value d.fields d'.fields
  | .replace name value, d, d' =>
      if name ∈ d.names then Fields.Assigned name value d.fields d'.fields else d' = d
  | .remove name, d, d' => d'.fields = d.fields.filter fun field => field.1 ≠ name
  | .without names, d, d' => d'.fields = d.fields.filter fun field => field.1 ∉ names
  | .setPath path value, d, d' =>
      Value.Rewritten value (d.setPath path value).2.isNone (.ofDocument d) (.ofDocument d')
  | .unsetPath _, d, d' => Value.Thinned (.ofDocument d) (.ofDocument d')

theorem changes_perform (c : DocumentCall) (d : Document) : c.Changes d (c.perform d) := by
  cases c with
  | insert name value => exact Fields.assigned_put name value d.fields
  | replace name value =>
      have hthere : d.contains name = true ↔ name ∈ d.names := Fields.isSome_get?_iff
      simp only [Changes, perform, Document.replace, hthere]
      split
      · exact Fields.assigned_put name value d.fields
      · rfl
  | remove name => rfl
  | without names => exact Document.fields_without d names
  | setPath path value =>
      simp only [Changes, perform, Document.ofDocument_setPath]
      exact Value.rewritten_setAt path value _ _
  | unsetPath path => exact Document.thinned_unsetPath d path

variable {c : DocumentCall} {calls : List DocumentCall} {d : Document}

theorem namesOnce_perform (hvalue : c.namesOnce = true) (h : d.all Value.namesOnce = true) :
    (c.perform d).all Value.namesOnce = true := by
  cases c with
  | insert name value => exact Value.all_put Value.kept_namesOnce h hvalue
  | replace name value =>
      simp only [perform, Document.replace]
      split
      · exact Value.all_put Value.kept_namesOnce h hvalue
      · exact h
  | remove name => exact Value.all_erase Value.kept_namesOnce h
  | without names =>
      exact List.foldlRecOn (motive := fun d : Document => d.all Value.namesOnce = true) names _ h
        fun _ hbefore _ _ => Value.all_erase Value.kept_namesOnce hbefore
  | setPath path value => exact Document.all_setPath Value.kept_namesOnce path h hvalue
  | unsetPath path => exact Document.all_unsetPath Value.kept_namesOnce path h

theorem namesOnce_performAll (hvalues : ∀ c ∈ calls, c.namesOnce = true)
    (h : d.all Value.namesOnce = true) : (performAll calls d).all Value.namesOnce = true :=
  List.foldlRecOn (motive := fun d : Document => d.all Value.namesOnce = true) calls _ h
    fun _ hbefore c hc => namesOnce_perform (hvalues c hc) hbefore

end DocumentCall

/-- A decoded document and all that calls make of it have no name twice, at any level. Every call
leaves what it does not touch what and where it was: the fields that remain keep their order, one
that is overwritten keeps its place, and a new one comes after all others. -/
theorem Document.ordered_through_calls {room : Nat} {j : Json} {d : Document}
    {calls : List DocumentCall} (hdecoded : decode? room j = some d)
    (hvalues : ∀ c ∈ calls, c.namesOnce = true) :
    (∀ done rest, calls = done ++ rest →
        (DocumentCall.performAll done d).all Value.namesOnce = true) ∧
      ∀ done c rest, calls = done ++ c :: rest →
        c.Changes (DocumentCall.performAll done d) (DocumentCall.performAll (done ++ [c]) d) := by
  have honce := (decode?_spec hdecoded).1
  refine ⟨fun done rest hsplit => ?_, fun done c rest _ => ?_⟩
  · refine DocumentCall.namesOnce_performAll (fun c hc => hvalues c ?_) honce
    exact hsplit ▸ List.mem_append_left rest hc
  · have hlast : DocumentCall.performAll (done ++ [c]) d =
        c.perform (DocumentCall.performAll done d) := List.foldl_concat ..
    rw [hlast]
    exact c.changes_perform _

/-- Names repeated at two levels, and a write that is stopped in a document that it made. -/
theorem Document.ordered_through_calls_repeated_names :
    let j : Json := .object [("_id", .string "0"),
      ("tools", .object [("size", .null), ("series", .null), ("size", .bool true)]),
      ("_id", .string "1")]
    let d : Document := ⟨[("_id", .string "1"),
      ("tools", .document [("size", .bool true), ("series", .null)])]⟩
    let d' : Document := ⟨[("_id", .string "1"),
      ("tools", .document [("size", .bool true), ("series", .null), ("hash", .document [])])]⟩
    let calls : List DocumentCall := [.setPath "tools.hash..sha256" .null,
      .insert "life" (.document [("b", .null), ("a", .null)]), .unsetPath "tools.size",
      .replace "tools" .null, .without ["life", "_id"]]
    decode? Json.room j = some d ∧ (∀ c ∈ calls, c.namesOnce = true) ∧
      (DocumentCall.performAll calls d).all Value.namesOnce = true ∧
      (DocumentCall.setPath "tools.hash..sha256" .null).Changes d d' := by
  intro j d d' calls
  have hdecoded : decode? Json.room j = some d := by rfl
  have hvalues : ∀ c ∈ calls, c.namesOnce = true := by decide
  obtain ⟨honce, hchanges⟩ := ordered_through_calls hdecoded hvalues
  exact ⟨hdecoded, hvalues, honce calls [] (List.append_nil calls).symm, hchanges [] _ _ rfl⟩

end FleetUpgrade
