import FleetUpgrade.Snapshot.Basic

/-! # What a snapshot holds at every level

A property of values is asked of every value in a snapshot: of those in its
documents and of those in the bodies and settings of its journal, at any depth.
Two are used: that no value is a binary64 number, and that no document has a name
twice. Documents are read and changed in ways that never give them a name twice.
-/

namespace FleetUpgrade

namespace Value

mutual

/-- Whether a value and all values inside it have a property. -/
def all (p : Value → Bool) : Value → Bool
  | .list items => p (.list items) && allItems p items
  | .document fields => p (.document fields) && allFields p fields
  | .null => p .null
  | .bool b => p (.bool b)
  | .int i => p (.int i)
  | .float x => p (.float x)
  | .string s => p (.string s)

def allItems (p : Value → Bool) : List Value → Bool
  | [] => true
  | item :: items => item.all p && allItems p items

def allFields (p : Value → Bool) : List (String × Value) → Bool
  | [] => true
  | (_, value) :: fields => value.all p && allFields p fields

end

def noFloat (v : Value) : Bool :=
  v.kind != .float

def namesOnce (v : Value) : Bool :=
  decide (Document.ofValue v).names.Nodup

end Value

def Document.all (p : Value → Bool) (d : Document) : Bool :=
  (Value.ofDocument d).all p

def Change.all (p : Value → Bool) : Change → Bool
  | .insert body => body.all p
  | .update changes => changes.set.all p
  | .remove => true

def Transaction.all (p : Value → Bool) (ops : Transaction) : Bool :=
  List.all ops fun op => op.change.all p

namespace Snapshot

/-- Whether all values in the documents and in the journal have a property. -/
def all (p : Value → Bool) (s : Snapshot) : Bool :=
  (s.collections.values.all fun c => c.values.all (Document.all p)) &&
    s.pending.all (Transaction.all p)

def floatFree (s : Snapshot) : Bool :=
  s.all Value.noFloat

def namesOnce (s : Snapshot) : Bool :=
  s.all Value.namesOnce

end Snapshot

namespace Value

variable {p : Value → Bool} {items : List Value} {fields : Fields}

theorem allItems_iff : allItems p items = true ↔ ∀ v ∈ items, v.all p = true := by
  induction items with
  | nil => simp [allItems]
  | cons item items ih => simp [allItems, ih]

theorem allFields_iff :
    allFields p fields = true ↔ ∀ field ∈ fields, field.2.all p = true := by
  induction fields with
  | nil => simp [allFields]
  | cons field fields ih => simp [allFields, ih]

theorem all_list : (Value.list items).all p = true ↔
    p (.list items) = true ∧ allItems p items = true := by
  rw [all, Bool.and_eq_true]

theorem all_document : (Value.document fields).all p = true ↔
    p (.document fields) = true ∧ allFields p fields = true := by
  rw [all, Bool.and_eq_true]

end Value

theorem Snapshot.all_iff {p : Value → Bool} {s : Snapshot} :
    s.all p = true ↔
      (∀ entry ∈ s.collections.entries, ∀ document ∈ entry.2.entries,
        document.2.all p = true) ∧ ∀ ops ∈ s.pending, Transaction.all p ops = true := by
  simp only [Snapshot.all, Bool.and_eq_true, List.all_eq_true, Table.values, List.mem_map]
  constructor
  · rintro ⟨hdocuments, hpending⟩
    exact ⟨fun entry hentry document hdocument =>
      hdocuments entry.2 ⟨entry, hentry, rfl⟩ document.2 ⟨document, hdocument, rfl⟩, hpending⟩
  · rintro ⟨hdocuments, hpending⟩
    refine ⟨?_, hpending⟩
    rintro _ ⟨entry, hentry, rfl⟩ _ ⟨document, hdocument, rfl⟩
    exact hdocuments entry hentry document hdocument

end FleetUpgrade
