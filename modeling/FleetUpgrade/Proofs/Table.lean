import FleetUpgrade.Table
import Mathlib.Data.List.Nodup
import Mathlib.Data.Set.Function

/-! # Tables seen through their look-ups

A table is known by what `get?` answers. Its keys are the names with a value, in
order, so two tables with the same names list their values at the same places.
-/

namespace FleetUpgrade.Table

variable {α β : Type}

theorem get?_insert_self (t : Table α) (name : String) (value : α) :
    (t.insert name value).get? name = some value := by
  rw [get?_insert, if_pos rfl]

theorem get?_insert_of_ne (t : Table α) {name other : String} (value : α)
    (h : name ≠ other) : (t.insert name value).get? other = t.get? other := by
  rw [get?_insert, if_neg h]

theorem contains_insert (t : Table α) (name other : String) (value : α) :
    (t.insert name value).contains other = (decide (name = other) || t.contains other) := by
  unfold contains
  rw [get?_insert]
  by_cases h : name = other <;> simp [h]

theorem erase_of_absent {t : Table α} {name : String} (h : t.get? name = none) :
    t.erase name = t := by
  apply ext_get?
  intro other
  rw [get?_erase]
  split
  · next he => rw [← he, h]
  · rfl

theorem isEmpty_iff (t : Table α) : t.isEmpty = true ↔ ∀ name, t.get? name = none := by
  constructor
  · intro h name
    have hnil : t.entries = [] := List.isEmpty_iff.1 h
    simp [get?, hnil, lookup]
  · intro h
    cases he : t.entries with
    | nil => simp [isEmpty, he]
    | cons entry rest =>
        have hmem : (entry.1, entry.2) ∈ t.entries := by rw [he]; exact List.mem_cons_self
        rw [mem_entries_iff, h] at hmem
        cases hmem

theorem isEmpty_eq_false_iff (t : Table α) :
    t.isEmpty = false ↔ ∃ name, (t.get? name).isSome = true := by
  rw [← Bool.not_eq_true, isEmpty_iff, not_forall]
  simp only [← ne_eq, Option.isSome_iff_ne_none]

theorem size_eq_zero_iff (t : Table α) : t.size = 0 ↔ t.isEmpty = true := by
  unfold size isEmpty
  rw [List.length_eq_zero_iff, List.isEmpty_iff]

theorem mem_keys_iff (t : Table α) (name : String) :
    name ∈ t.keys ↔ (t.get? name).isSome = true := by
  unfold keys
  rw [List.mem_map, Option.isSome_iff_exists]
  constructor
  · rintro ⟨⟨key, value⟩, hmem, rfl⟩
    exact ⟨value, (t.mem_entries_iff key value).1 hmem⟩
  · rintro ⟨value, h⟩
    exact ⟨(name, value), (t.mem_entries_iff name value).2 h, rfl⟩

theorem keys_sorted (t : Table α) : t.keys.Pairwise (· < ·) :=
  List.pairwise_map.2 t.sorted

theorem keys_nodup (t : Table α) : t.keys.Nodup := by
  refine t.keys_sorted.imp fun {a b} hlt he => ?_
  exact String.lt_irrefl a (he ▸ hlt)

/-- Tables with the same names have the same keys, in the same order. -/
theorem keys_eq_of_isSome_eq {t : Table α} {u : Table β}
    (h : ∀ name, (t.get? name).isSome = (u.get? name).isSome) : t.keys = u.keys := by
  have hperm : t.keys.Perm u.keys := by
    refine (List.perm_ext_iff_of_nodup t.keys_nodup u.keys_nodup).2 fun name => ?_
    rw [mem_keys_iff, mem_keys_iff, h]
  refine hperm.eq_of_pairwise (fun a b _ _ hab hba => ?_) t.keys_sorted u.keys_sorted
  exact absurd (String.lt_trans hab hba) (String.lt_irrefl a)

private theorem forall₂_values_of_keys {xs : List (String × α)} {ys : List (String × β)}
    (h : xs.map Prod.fst = ys.map Prod.fst) :
    List.Forall₂ (fun v w => ∃ name, (name, v) ∈ xs ∧ (name, w) ∈ ys)
      (xs.map Prod.snd) (ys.map Prod.snd) := by
  induction xs generalizing ys with
  | nil =>
      cases ys with
      | nil => exact List.Forall₂.nil
      | cons y ys => cases h
  | cons x xs ih =>
      cases ys with
      | nil => cases h
      | cons y ys =>
          simp only [List.map_cons, List.cons.injEq] at h
          refine List.Forall₂.cons ⟨x.1, List.mem_cons_self, ?_⟩ ((ih h.2).imp ?_)
          · rw [h.1]
            exact List.mem_cons_self
          · rintro v w ⟨name, hv, hw⟩
            exact ⟨name, List.mem_cons_of_mem _ hv, List.mem_cons_of_mem _ hw⟩

/-- Values at the same place of tables with the same keys belong to one name. -/
theorem forall₂_values {t : Table α} {u : Table β} (h : t.keys = u.keys) :
    List.Forall₂ (fun v w => ∃ name, t.get? name = some v ∧ u.get? name = some w)
      t.values u.values := by
  refine (forall₂_values_of_keys h).imp ?_
  rintro v w ⟨name, hv, hw⟩
  exact ⟨name, (t.mem_entries_iff name v).1 hv, (u.mem_entries_iff name w).1 hw⟩

theorem mem_values_iff (t : Table α) (value : α) :
    value ∈ t.values ↔ ∃ name, t.get? name = some value := by
  unfold values
  rw [List.mem_map]
  constructor
  · rintro ⟨⟨key, v⟩, hmem, rfl⟩
    exact ⟨key, (t.mem_entries_iff key v).1 hmem⟩
  · rintro ⟨name, h⟩
    exact ⟨(name, value), (t.mem_entries_iff name value).2 h, rfl⟩

theorem mem_of_mem_ofList {entries : List (String × α)} {entry : String × α}
    (h : entry ∈ (ofList entries).entries) : entry ∈ entries := by
  refine List.foldlRecOn (motive := fun t : Table α => entry ∈ t.entries → entry ∈ entries)
    entries _ (fun hnil => absurd hnil List.not_mem_nil)
    (fun done hdone first hfirst hinsert => ?_) h
  rcases mem_insertEntry hinsert with rfl | hold
  · exact hfirst
  · exact hdone hold

theorem insertEntry_of_lt {name : String} {value : α} {entries : List (String × α)}
    (h : ∀ entry ∈ entries, entry.1 < name) :
    insertEntry name value entries = entries ++ [(name, value)] := by
  induction entries with
  | nil => rfl
  | cons entry rest ih =>
      have hlt := h entry List.mem_cons_self
      have hne : name ≠ entry.1 := fun he => String.lt_irrefl name (he ▸ hlt)
      have hnlt : ¬name < entry.1 := fun hgt => String.lt_irrefl name (String.lt_trans hgt hlt)
      rw [insertEntry, if_neg hne, if_neg hnlt, ih fun other hother =>
        h other (List.mem_cons_of_mem entry hother), List.cons_append]

theorem ofList_entries (t : Table α) : ofList t.entries = t := by
  have hfold : ∀ (rest : List (String × α)) (done : Table α),
      (done.entries ++ rest).Pairwise (fun x y => x.1 < y.1) →
        (rest.foldl (fun t entry => t.insert entry.1 entry.2) done).entries =
          done.entries ++ rest := by
    intro rest
    induction rest with
    | nil => exact fun done _ => (List.append_nil done.entries).symm
    | cons entry rest ih =>
        intro done hsorted
        have hlast : (done.insert entry.1 entry.2).entries = done.entries ++ [entry] :=
          insertEntry_of_lt fun other hother =>
            (List.pairwise_append.1 hsorted).2.2 other hother entry List.mem_cons_self
        have hsplit : done.entries ++ entry :: rest =
            (done.insert entry.1 entry.2).entries ++ rest := by
          rw [hlast, List.append_assoc]
          rfl
        rw [hsplit] at hsorted ⊢
        exact ih _ hsorted
  have hentries := hfold t.entries empty t.sorted
  obtain ⟨entries, hsorted⟩ := t
  change (ofList entries).entries = entries at hentries
  cases htable : ofList entries with
  | mk found hfound =>
      rw [htable] at hentries
      subst hentries
      rfl

/-- The values of a table around one of them, which all stand under other names. -/
theorem values_split {t : Table α} {name : String} {value : α}
    (h : t.get? name = some value) :
    ∃ before after, t.values = before ++ value :: after ∧
      ∀ w ∈ before ++ after, ∃ other, other ≠ name ∧ t.get? other = some w := by
  have hmem := (t.mem_entries_iff name value).2 h
  obtain ⟨before, after, hsplit⟩ := List.append_of_mem hmem
  refine ⟨before.map Prod.snd, after.map Prod.snd, by simp [values, hsplit], ?_⟩
  intro w hw
  rw [← List.map_append] at hw
  obtain ⟨⟨other, w⟩, hentry, rfl⟩ := List.mem_map.1 hw
  have hother : (other, w) ∈ t.entries := by
    rw [hsplit]
    simp only [List.mem_append, List.mem_cons] at hentry ⊢
    tauto
  refine ⟨other, fun he => ?_, (t.mem_entries_iff other w).1 hother⟩
  have hsorted := t.sorted
  rw [hsplit, List.pairwise_append, List.pairwise_cons] at hsorted
  obtain ⟨-, ⟨hafter, -⟩, hbefore⟩ := hsorted
  rcases List.mem_append.1 hentry with hin | hin
  · have hlt : other < name := hbefore (other, w) hin (name, value) List.mem_cons_self
    exact String.lt_irrefl name (he ▸ hlt)
  · have hlt : name < other := hafter (other, w) hin
    exact String.lt_irrefl name (he ▸ hlt)

/-- Two tables whose names belong together one to one have the same size. -/
theorem size_eq_of_bijOn {t : Table α} {u : Table β} {f : String → String}
    (h : Set.BijOn f {name | (t.get? name).isSome = true} {name | (u.get? name).isSome = true}) :
    u.size = t.size := by
  have hmap : (t.keys.map f).Nodup := by
    refine List.Nodup.map_on (fun x hx y hy he => ?_) t.keys_nodup
    exact h.injOn ((t.mem_keys_iff x).1 hx) ((t.mem_keys_iff y).1 hy) he
  have hperm : (t.keys.map f).Perm u.keys := by
    refine (List.perm_ext_iff_of_nodup hmap u.keys_nodup).2 fun name => ?_
    rw [List.mem_map, mem_keys_iff]
    constructor
    · rintro ⟨old, hold, rfl⟩
      exact h.mapsTo ((t.mem_keys_iff old).1 hold)
    · intro hname
      obtain ⟨old, hold, rfl⟩ := h.surjOn hname
      exact ⟨old, (t.mem_keys_iff old).2 hold, rfl⟩
  have hlength := hperm.length_eq
  simpa [keys, size] using hlength.symm

end FleetUpgrade.Table
