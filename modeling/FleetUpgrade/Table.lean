/-!
# Tables

A table assigns values to names. Its entries stand in strictly increasing order of their names,
compared by code point, so two tables that answer every look-up alike are equal (`ext_get?`).
-/

namespace FleetUpgrade

/-- Names with a value each, in increasing order of the names. -/
structure Table (α : Type) where
  entries : List (String × α)
  sorted : entries.Pairwise fun x y => x.1 < y.1

namespace Table

variable {α β : Type}

def empty : Table α :=
  ⟨[], List.Pairwise.nil⟩

instance : Inhabited (Table α) :=
  ⟨empty⟩

def lookup (name : String) : List (String × α) → Option α
  | [] => none
  | (key, value) :: rest => if key = name then some value else lookup name rest

/-- Put a value under a name, keeping the order. -/
def insertEntry (name : String) (value : α) : List (String × α) → List (String × α)
  | [] => [(name, value)]
  | (key, old) :: rest =>
      if name = key then (name, value) :: rest
      else if name < key then (name, value) :: (key, old) :: rest
      else (key, old) :: insertEntry name value rest

theorem mem_insertEntry {name : String} {value : α} {entries : List (String × α)}
    {entry : String × α} (h : entry ∈ insertEntry name value entries) :
    entry = (name, value) ∨ entry ∈ entries := by
  induction entries with
  | nil => simpa [insertEntry] using h
  | cons head rest ih =>
      obtain ⟨key, old⟩ := head
      simp only [insertEntry] at h
      split at h
      · rcases List.mem_cons.1 h with h | h
        · exact Or.inl h
        · exact Or.inr (List.mem_cons_of_mem _ h)
      · split at h
        · rcases List.mem_cons.1 h with h | h
          · exact Or.inl h
          · exact Or.inr h
        · rcases List.mem_cons.1 h with h | h
          · exact Or.inr (h ▸ List.mem_cons_self)
          · rcases ih h with h | h
            · exact Or.inl h
            · exact Or.inr (List.mem_cons_of_mem _ h)

theorem sorted_insertEntry {name : String} {value : α} {entries : List (String × α)}
    (h : entries.Pairwise fun x y => x.1 < y.1) :
    (insertEntry name value entries).Pairwise fun x y => x.1 < y.1 := by
  induction entries with
  | nil => simp [insertEntry]
  | cons head rest ih =>
      obtain ⟨key, old⟩ := head
      obtain ⟨hhead, hrest⟩ := List.pairwise_cons.1 h
      simp only [insertEntry]
      split
      · next he => exact List.pairwise_cons.2 ⟨fun e he' => he ▸ hhead e he', hrest⟩
      · next hne =>
          split
          · next hlt =>
              refine List.pairwise_cons.2 ⟨fun e he => ?_, h⟩
              rcases List.mem_cons.1 he with rfl | he
              · exact hlt
              · exact String.lt_trans hlt (hhead e he)
          · next hnlt =>
              refine List.pairwise_cons.2 ⟨fun e he => ?_, ih hrest⟩
              rcases mem_insertEntry he with rfl | he
              · rcases Std.Trichotomous.rel_or_eq_or_rel_swap
                    (r := ((· < ·) : String → String → Prop)) (a := key) (b := name) with h | h | h
                · exact h
                · exact absurd h.symm hne
                · exact absurd h hnlt
              · exact hhead e he

def get? (t : Table α) (name : String) : Option α :=
  lookup name t.entries

def insert (t : Table α) (name : String) (value : α) : Table α :=
  ⟨insertEntry name value t.entries, sorted_insertEntry t.sorted⟩

def erase (t : Table α) (name : String) : Table α :=
  ⟨t.entries.filter fun entry => entry.1 ≠ name, t.sorted.filter _⟩

def contains (t : Table α) (name : String) : Bool :=
  (t.get? name).isSome

def keys (t : Table α) : List String :=
  t.entries.map Prod.fst

def values (t : Table α) : List α :=
  t.entries.map Prod.snd

def size (t : Table α) : Nat :=
  t.entries.length

def isEmpty (t : Table α) : Bool :=
  t.entries.isEmpty

/-- The table of a list of entries; of entries with one name the last counts. -/
def ofList (entries : List (String × α)) : Table α :=
  entries.foldl (fun t entry => t.insert entry.1 entry.2) empty

@[simp] theorem get?_empty (name : String) : (empty : Table α).get? name = none :=
  rfl

theorem lookup_insertEntry (name other : String) (value : α) (entries : List (String × α)) :
    lookup other (insertEntry name value entries) =
      if name = other then some value else lookup other entries := by
  induction entries with
  | nil => simp [insertEntry, lookup]
  | cons head rest ih =>
      obtain ⟨key, old⟩ := head
      simp only [insertEntry]
      split
      · next he => subst he; by_cases h : name = other <;> simp [lookup, h]
      · next hne =>
          split
          · simp only [lookup]
          · simp only [lookup, ih]
            by_cases h : key = other
            · have hno : ¬ name = other := fun e => hne (e.trans h.symm)
              simp [h, hno]
            · simp [h]

theorem get?_insert (t : Table α) (name other : String) (value : α) :
    (t.insert name value).get? other = if name = other then some value else t.get? other :=
  lookup_insertEntry name other value t.entries

theorem lookup_filter_ne (name other : String) (entries : List (String × α)) :
    lookup other (entries.filter fun entry => entry.1 ≠ name) =
      if name = other then none else lookup other entries := by
  induction entries with
  | nil => simp [lookup]
  | cons head rest ih =>
      obtain ⟨key, old⟩ := head
      by_cases hk : key = name
      · simp only [hk, ne_eq, not_true_eq_false, decide_false, Bool.false_eq_true,
          not_false_eq_true, List.filter_cons_of_neg, lookup]
        rw [ih]
        by_cases h : name = other <;> simp [h]
      · simp only [ne_eq, hk, not_false_eq_true, decide_true, List.filter_cons_of_pos, lookup]
        rw [ih]
        by_cases h : name = other
        · have : ¬ key = other := fun e => hk (e.trans h.symm)
          simp [h, this]
        · simp [h]

theorem get?_erase (t : Table α) (name other : String) :
    (t.erase name).get? other = if name = other then none else t.get? other :=
  lookup_filter_ne name other t.entries

theorem lookup_eq_none_of_lt {name : String} {entries : List (String × α)}
    (h : ∀ entry ∈ entries, name < entry.1) : lookup name entries = none := by
  induction entries with
  | nil => rfl
  | cons head rest ih =>
      have hne : head.1 ≠ name := fun e =>
        String.lt_irrefl name (e ▸ h head List.mem_cons_self)
      simp only [lookup, hne, if_false]
      exact ih fun entry he => h entry (List.mem_cons_of_mem _ he)

theorem mem_of_lookup {name : String} {value : α} {entries : List (String × α)}
    (h : lookup name entries = some value) : (name, value) ∈ entries := by
  induction entries with
  | nil => simp [lookup] at h
  | cons head rest ih =>
      obtain ⟨key, old⟩ := head
      simp only [lookup] at h
      split at h
      · next hk => cases h; exact hk ▸ List.mem_cons_self
      · exact List.mem_cons_of_mem _ (ih h)

theorem lookup_of_mem {name : String} {value : α} {entries : List (String × α)}
    (hsorted : entries.Pairwise fun x y => x.1 < y.1) (h : (name, value) ∈ entries) :
    lookup name entries = some value := by
  induction entries with
  | nil => simp at h
  | cons head rest ih =>
      obtain ⟨hhead, hrest⟩ := List.pairwise_cons.1 hsorted
      rcases List.mem_cons.1 h with rfl | h
      · simp [lookup]
      · have hlt : head.1 < name := hhead _ h
        have hne : head.1 ≠ name := fun e => String.lt_irrefl name (e ▸ hlt)
        simp only [lookup, hne, if_false]
        exact ih hrest h

theorem mem_entries_iff (t : Table α) (name : String) (value : α) :
    (name, value) ∈ t.entries ↔ t.get? name = some value :=
  ⟨lookup_of_mem t.sorted, mem_of_lookup⟩

theorem eq_of_lookup_eq {xs ys : List (String × α)}
    (hx : xs.Pairwise fun x y => x.1 < y.1) (hy : ys.Pairwise fun x y => x.1 < y.1)
    (h : ∀ name, lookup name xs = lookup name ys) : xs = ys := by
  induction xs generalizing ys with
  | nil =>
      cases ys with
      | nil => rfl
      | cons y ys =>
          have := h y.1
          simp [lookup] at this
  | cons x xs ih =>
      cases ys with
      | nil =>
          have := h x.1
          simp [lookup] at this
      | cons y ys =>
          obtain ⟨hxh, hxr⟩ := List.pairwise_cons.1 hx
          obtain ⟨hyh, hyr⟩ := List.pairwise_cons.1 hy
          have hkey : x.1 = y.1 := by
            rcases Std.Trichotomous.rel_or_eq_or_rel_swap
                (r := ((· < ·) : String → String → Prop)) (a := x.1) (b := y.1) with hlt | he | hlt
            · have hnone : lookup x.1 (y :: ys) = none := by
                refine lookup_eq_none_of_lt fun e he => ?_
                rcases List.mem_cons.1 he with rfl | he
                · exact hlt
                · exact String.lt_trans hlt (hyh e he)
              have := h x.1
              rw [hnone] at this
              simp [lookup] at this
            · exact he
            · have hnone : lookup y.1 (x :: xs) = none := by
                refine lookup_eq_none_of_lt fun e he => ?_
                rcases List.mem_cons.1 he with rfl | he
                · exact hlt
                · exact String.lt_trans hlt (hxh e he)
              have := h y.1
              rw [hnone] at this
              simp [lookup] at this
          have hvalue : x.2 = y.2 := by
            have := h x.1
            simpa [lookup, hkey] using this
          have hhead : x = y := Prod.ext hkey hvalue
          have hrest : xs = ys := by
            refine ih hxr hyr fun name => ?_
            by_cases hn : x.1 = name
            · rw [← hn, lookup_eq_none_of_lt hxh, hkey, lookup_eq_none_of_lt hyh]
            · have := h name
              have hn' : ¬ y.1 = name := fun e => hn (hkey.trans e)
              simpa [lookup, hn, hn'] using this
          rw [hhead, hrest]

/-- Two tables that answer every look-up alike are equal. -/
theorem ext_get? {t u : Table α} (h : ∀ name, t.get? name = u.get? name) : t = u := by
  obtain ⟨xs, hx⟩ := t
  obtain ⟨ys, hy⟩ := u
  have : xs = ys := eq_of_lookup_eq hx hy h
  subst this
  rfl

end Table

end FleetUpgrade
