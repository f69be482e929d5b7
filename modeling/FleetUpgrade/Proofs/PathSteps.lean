import FleetUpgrade.Proofs.DocumentFields

/-! # One step down a path

A path goes down one child at a time: `child?` reads it, `slot?` is where a
write goes on, `putChild` and `dropChild` change it. Separate segments never
lead to the same child, so what is done under one is not seen under the other.
Two paths are apart if they agree up to separate segments.
-/

namespace FleetUpgrade

/-! ## Paths apart -/

namespace Path

/-- Two segments that lead to different children of every value: different names that are not the
same index. -/
def Separate (a b : String) : Prop :=
  a ≠ b ∧ (index? a = none ∨ index? a ≠ index? b)

instance (a b : String) : Decidable (Separate a b) :=
  inferInstanceAs (Decidable (_ ∧ _))

/-- Two lists of segments that agree up to separate segments. -/
def Fork : List String → List String → Prop
  | a :: as, b :: bs => Separate a b ∨ (a = b ∧ Fork as bs)
  | _, _ => False

instance decidableFork : (as bs : List String) → Decidable (Fork as bs)
  | [], _ => .isFalse not_false
  | _ :: _, [] => .isFalse not_false
  | a :: as, b :: bs =>
      have := decidableFork as bs
      inferInstanceAs (Decidable (Separate a b ∨ (a = b ∧ Fork as bs)))

/-- Two paths to places of which neither is inside the other. -/
def Apart (p q : String) : Prop :=
  Fork (segments p) (segments q)

instance (p q : String) : Decidable (Apart p q) :=
  decidableFork (segments p) (segments q)

theorem Separate.symm {a b : String} (h : Separate a b) : Separate b a := by
  obtain ⟨hne, hindex⟩ := h
  refine ⟨hne.symm, ?_⟩
  rcases hindex with hnone | hother
  · by_cases hb : index? b = none
    · exact .inl hb
    · exact .inr fun he => hb (he.trans hnone)
  · exact .inr hother.symm

theorem Fork.symm {as bs : List String} (h : Fork as bs) : Fork bs as := by
  induction as generalizing bs with
  | nil => exact h.elim
  | cons a as ih =>
      cases bs with
      | nil => exact h.elim
      | cons b bs =>
          rcases h with hsep | ⟨rfl, hrest⟩
          · exact .inl hsep.symm
          · exact .inr ⟨rfl, ih hrest⟩

theorem Apart.symm {p q : String} (h : Apart p q) : Apart q p :=
  Fork.symm h

theorem Fork.ne_nil {as bs : List String} (h : Fork as bs) : as ≠ [] := by
  rintro rfl
  exact h.elim

/-- What forks from a longer list forks from its start, or goes through the start and forks from the
rest. -/
theorem Fork.of_append {as start rest : List String} (h : Fork as (start ++ rest)) :
    Fork as start ∨ ∃ more, as = start ++ more ∧ Fork more rest := by
  induction start generalizing as with
  | nil => exact .inr ⟨as, rfl, h⟩
  | cons b start ih =>
      cases as with
      | nil => exact h.elim
      | cons a as =>
          rcases h with hsep | ⟨rfl, hrest⟩
          · exact .inl (.inl hsep)
          · rcases ih hrest with hstart | ⟨more, rfl, hmore⟩
            · exact .inl (.inr ⟨rfl, hstart⟩)
            · exact .inr ⟨more, rfl, hmore⟩

theorem Fork.of_append_left {start as bs : List String} (h : Fork (start ++ as) (start ++ bs)) :
    Fork as bs := by
  induction start with
  | nil => exact h
  | cons a start ih =>
      rcases h with hsep | ⟨-, hrest⟩
      · exact absurd rfl hsep.1
      · exact ih hrest

end Path

/-! ## Fields put and erased in another order -/

namespace Fields

theorem put_comm {name other : String} (value : Value) {otherValue : Value} {fields : Fields}
    (hne : name ≠ other) (h : (get? fields name).isSome = true) :
    put name value (put other otherValue fields) =
      put other otherValue (put name value fields) := by
  induction fields with
  | nil => cases h
  | cons field rest ih =>
      obtain ⟨key, old⟩ := field
      by_cases hname : key = name
      · subst hname
        simp [put, hne]
      · by_cases hother : key = other
        · subst hother
          simp [put, hname]
        · have hrest : (get? rest name).isSome = true := by
            simpa [get?, Table.lookup, hname] using h
          simp [put, hname, hother, ih hrest]

theorem put_erase {name other : String} (value : Value) (hne : name ≠ other) (fields : Fields) :
    put name value (erase other fields) = erase other (put name value fields) := by
  induction fields with
  | nil => simp [put, erase, hne]
  | cons field rest ih =>
      obtain ⟨key, old⟩ := field
      by_cases hother : key = other
      · subst hother
        simpa [put, erase, Ne.symm hne] using ih
      · by_cases hname : key = name
        · subst hname
          simp [put, erase, hne]
        · simpa [put, erase, hname, hother] using ih

theorem put_same {name : String} {value : Value} {fields : Fields}
    (h : get? fields name = some value) : put name value fields = fields := by
  induction fields with
  | nil => cases h
  | cons field rest ih =>
      obtain ⟨key, old⟩ := field
      by_cases hname : key = name
      · subst hname
        have hold : old = value := by simpa [get?, Table.lookup] using h
        simp [put, hold]
      · have hrest : get? rest name = some value := by simpa [get?, Table.lookup, hname] using h
        simp [put, hname, ih hrest]

end Fields

/-! ## One step down -/

namespace Value

def child? (segment : String) : Value → Option Value
  | .document fields => Fields.get? fields segment
  | .list items => (Path.index? segment).bind fun i => items[i]?
  | _ => none

/-- The value in which a write goes on below a segment; a field that is missing is made. -/
def slot? (segment : String) : Value → Option Value
  | .document fields =>
      if segment = "" then none else some ((Fields.get? fields segment).getD (.document []))
  | .list items => (Path.index? segment).bind fun i => items[i]?
  | _ => none

def putChild (v : Value) (segment : String) (new : Value) : Value :=
  match v with
  | .document fields => .document (Fields.put segment new fields)
  | .list items => .list ((Path.index? segment).elim items fun i => items.set i new)
  | v => v

def dropChild (segment : String) : Value → Value
  | .document fields => .document (Fields.erase segment fields)
  | .list items => .list ((Path.index? segment).elim items fun i => items.set i .null)
  | v => v

variable {s t : String} {v c : Value}

theorem slot?_spec (h : v.slot? s = some c) :
    (∃ fields, v = .document fields ∧ s ≠ "" ∧
      c = (Fields.get? fields s).getD (.document [])) ∨
    ∃ items i, v = .list items ∧ Path.index? s = some i ∧ items[i]? = some c := by
  cases v with
  | document fields =>
      simp only [slot?] at h
      split at h
      · cases h
      · next hs => exact .inl ⟨fields, rfl, hs, (Option.some.inj h).symm⟩
  | list items =>
      obtain ⟨i, hi, hitem⟩ := Option.bind_eq_some_iff.1 h
      exact .inr ⟨items, i, rfl, hi, hitem⟩
  | _ => cases h

/-- A write goes on in the child, or in a document that is made for it. -/
theorem child?_of_slot? (h : v.slot? s = some c) :
    v.child? s = some c ∨ v.child? s = none ∧ c = .document [] := by
  obtain ⟨fields, rfl, -, rfl⟩ | ⟨items, i, rfl, -, -⟩ := slot?_spec h
  · simp only [child?]
    cases Fields.get? fields s with
    | none => exact .inr ⟨rfl, rfl⟩
    | some old => exact .inl rfl
  · exact .inl h

theorem slot?_putChild_self (new : Value) (h : v.slot? s = some c) :
    (v.putChild s new).slot? s = some new := by
  obtain ⟨fields, rfl, hs, -⟩ | ⟨items, i, rfl, hi, hitem⟩ := slot?_spec h
  · simp [putChild, slot?, hs, Fields.get?_put]
  · have hlt := (List.getElem?_eq_some_iff.1 hitem).1
    simp [putChild, slot?, hi, hlt]

theorem child?_putChild_self (new : Value) (h : v.slot? s = some c) :
    (v.putChild s new).child? s = some new := by
  obtain ⟨fields, rfl, -, -⟩ | ⟨items, i, rfl, -, -⟩ := slot?_spec h
  · simp [putChild, child?, Fields.get?_put]
  · exact slot?_putChild_self new h

/-- A field can be read under every name, and written under every name but the empty one. -/
theorem child?_putChild_of_child? (new : Value) (h : v.child? s = some c) :
    (v.putChild s new).child? s = some new := by
  cases v with
  | document fields => simp [putChild, child?, Fields.get?_put]
  | list items =>
      have hslot : (list items).slot? s = some c := h
      exact slot?_putChild_self new hslot
  | _ => cases h

/-- Where there is a child, a write goes on in it unless the segment is empty. -/
theorem slot?_of_child? {e : Value} (h : v.child? s = some c) :
    v.slot? s = some e ↔ s ≠ "" ∧ e = c := by
  cases v with
  | document fields =>
      have hget : Fields.get? fields s = some c := h
      by_cases hs : s = ""
      · simp [slot?, hs]
      · simp [slot?, hs, hget, eq_comm]
  | list items =>
      have hs : s ≠ "" := by
        rintro rfl
        cases h
      have hslot : (list items).slot? s = some c := h
      simp [hslot, hs, eq_comm]
  | _ => cases h

theorem slot?_putChild_eq_none (new : Value) (h : v.slot? s = none) :
    (v.putChild s new).slot? s = none := by
  cases v with
  | document fields =>
      have hs : s = "" := by
        by_contra hs
        simp [slot?, hs] at h
      simp [putChild, slot?, hs]
  | list items =>
      cases hi : Path.index? s with
      | none => simp [putChild, slot?, hi]
      | some i =>
          have hlong : items.length ≤ i := by simpa [slot?, hi] using h
          simp [putChild, slot?, hi, hlong]
  | _ => rfl

theorem putChild_putChild (v : Value) (s : String) (new old : Value) :
    (v.putChild s old).putChild s new = v.putChild s new := by
  cases v with
  | document fields => simp [putChild, Fields.put_put]
  | list items => cases hi : Path.index? s <;> simp [putChild, hi]
  | _ => rfl

theorem putChild_child (h : v.child? s = some c) : v.putChild s c = v := by
  cases v with
  | document fields => exact congrArg document (Fields.put_same h)
  | list items =>
      obtain ⟨i, hi, hitem⟩ := Option.bind_eq_some_iff.1 h
      obtain ⟨hlt, rfl⟩ := List.getElem?_eq_some_iff.1 hitem
      simp [putChild, hi]
  | _ => rfl

section separate

variable (hsep : Path.Separate s t)
include hsep

theorem child?_putChild (v new : Value) : (v.putChild s new).child? t = v.child? t := by
  obtain ⟨hne, hindex⟩ := hsep
  cases v with
  | document fields => simp [putChild, child?, Fields.get?_put, hne]
  | list items =>
      cases hi : Path.index? s with
      | none => simp [putChild, child?, hi]
      | some i =>
          cases hj : Path.index? t with
          | none => simp [putChild, child?, hj]
          | some j =>
              have hij : i ≠ j := by simpa [hi, hj] using hindex
              simp [putChild, child?, hi, hj, List.getElem?_set_ne hij]
  | _ => rfl

theorem child?_dropChild (v : Value) : (v.dropChild s).child? t = v.child? t := by
  cases v with
  | document fields => simp [dropChild, child?, Fields.get?_erase, hsep.1]
  | list items => exact child?_putChild hsep (.list items) .null
  | _ => rfl

/-- Where a write goes on is the child, as far as there is one, or does not depend on it. -/
theorem slot?_putChild (v new : Value) : (v.putChild s new).slot? t = v.slot? t := by
  cases v with
  | document fields => simp [putChild, slot?, Fields.get?_put, hsep.1]
  | list items => exact child?_putChild hsep (.list items) new
  | _ => rfl

theorem slot?_dropChild (v : Value) : (v.dropChild s).slot? t = v.slot? t := by
  cases v with
  | document fields => simp [dropChild, slot?, Fields.get?_erase, hsep.1]
  | list items => exact child?_putChild hsep (.list items) .null
  | _ => rfl

/-- Children of separate segments are put in either order, if the first is there. -/
theorem putChild_comm (new : Value) {other : Value} (h : (v.child? s).isSome = true) :
    (v.putChild t other).putChild s new = (v.putChild s new).putChild t other := by
  obtain ⟨hne, hindex⟩ := hsep
  cases v with
  | document fields => exact congrArg document (Fields.put_comm new hne h)
  | list items =>
      cases hi : Path.index? s with
      | none => simp [putChild, hi]
      | some i =>
          cases hj : Path.index? t with
          | none => simp [putChild, hi, hj]
          | some j =>
              have hij : i ≠ j := by simpa [hi, hj] using hindex
              simp [putChild, hi, hj, List.set_comm _ _ hij.symm]
  | _ => rfl

theorem putChild_dropChild (v new : Value) :
    (v.dropChild t).putChild s new = (v.putChild s new).dropChild t := by
  cases v with
  | document fields => exact congrArg document (Fields.put_erase new hsep.1 fields)
  | list items =>
      obtain ⟨-, hindex⟩ := hsep
      cases hi : Path.index? s with
      | none => simp [putChild, dropChild, hi]
      | some i =>
          cases hj : Path.index? t with
          | none => simp [putChild, dropChild, hi, hj]
          | some j =>
              have hij : i ≠ j := by simpa [hi, hj] using hindex
              simp [putChild, dropChild, hi, hj, List.set_comm _ _ hij.symm]
  | _ => rfl

end separate

end Value

end FleetUpgrade
