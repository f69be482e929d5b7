import Mathlib.Data.List.Forall2
import Mathlib.Data.List.Nodup

/-! # Folds, traversals and selections of lists

What a result that succeeded says about the results it was put together from, and
what is selected of a list whose items have keys.
-/

namespace FleetUpgrade

/-! ## Results -/

theorem Except.map_eq_ok {ε α β : Type} {x : Except ε α} {f : α → β} {b : β} :
    x.map f = .ok b ↔ ∃ a, x = .ok a ∧ f a = b := by
  cases x with
  | error e => simp [Except.map]
  | ok a => simp [Except.map]

theorem Except.bind_eq_ok {ε α β : Type} {x : Except ε α} {f : α → Except ε β} {b : β} :
    x >>= f = .ok b ↔ ∃ a, x = .ok a ∧ f a = .ok b := by
  cases x with
  | error e => simp [bind, Except.bind]
  | ok a => simp [bind, Except.bind]

theorem exists_ok_of_isOk {ε α : Type} {x : Except ε α} (h : x.isOk = true) : ∃ a, x = .ok a := by
  cases x with
  | error e => cases h
  | ok a => exact ⟨a, rfl⟩

theorem exists_ok_of_any {ε α : Type} {x : Except ε α} {p : α → Bool}
    (h : x.toOption.any p = true) : ∃ a, x = .ok a ∧ p a = true := by
  cases x with
  | error e => cases h
  | ok a => exact ⟨a, rfl, h⟩

/-! ## Folds and traversals -/

/-- What every step of a fold over its own items keeps, a fold that succeeds keeps. -/
theorem List.foldlM_ok_induction_mem {ε σ α : Type} {P : σ → Prop} {step : σ → α → Except ε σ}
    {items : List α} {s s' : σ} (h : items.foldlM step s = .ok s') (hstart : P s)
    (hstep : ∀ item ∈ items, ∀ before after, P before → step before item = .ok after → P after) :
    P s' := by
  induction items generalizing s with
  | nil =>
      cases h
      exact hstart
  | cons item items ih =>
      rw [List.foldlM_cons, Except.bind_eq_ok] at h
      obtain ⟨between, hfirst, hrest⟩ := h
      have hbetween := hstep item List.mem_cons_self s between hstart hfirst
      exact ih hrest hbetween fun other hother => hstep other (List.mem_cons_of_mem item hother)

/-- What every step of a fold keeps, a fold that succeeds keeps. -/
theorem List.foldlM_ok_induction {ε σ α : Type} {P : σ → Prop} {step : σ → α → Except ε σ}
    {items : List α} {s s' : σ} (h : items.foldlM step s = .ok s') (hstart : P s)
    (hstep : ∀ item before after, P before → step before item = .ok after → P after) : P s' :=
  foldlM_ok_induction_mem h hstart fun item _ => hstep item

theorem List.forall₂_of_mapM_ok {ε α β : Type} {f : α → Except ε β} {xs : List α} {ys : List β}
    (h : xs.mapM f = .ok ys) : List.Forall₂ (fun x y => f x = .ok y) xs ys := by
  induction xs generalizing ys with
  | nil =>
      cases h
      exact .nil
  | cons x xs ih =>
      rw [List.mapM_cons, Except.bind_eq_ok] at h
      obtain ⟨first, hfirst, hrest⟩ := h
      obtain ⟨others, hothers, hys⟩ := Except.bind_eq_ok.1 hrest
      cases hys
      exact .cons hfirst (ih hothers)

/-- A traversal gives something if it finds something for every item. -/
theorem List.mapM_eq_some_iff {α β : Type} {f : α → Option β} {xs : List α} {ys : List β} :
    xs.mapM f = some ys ↔ List.Forall₂ (fun x y => f x = some y) xs ys := by
  induction xs generalizing ys with
  | nil =>
      rw [List.forall₂_nil_left_iff]
      exact ⟨fun h => (Option.some.inj h).symm, fun h => h ▸ rfl⟩
  | cons x xs ih =>
      rw [List.forall₂_cons_left_iff, List.mapM_cons]
      constructor
      · intro h
        obtain ⟨y, hy, h⟩ := Option.bind_eq_some_iff.1 h
        obtain ⟨rest, hrest, h⟩ := Option.bind_eq_some_iff.1 h
        exact ⟨y, rest, hy, ih.1 hrest, (Option.some.inj h).symm⟩
      · rintro ⟨y, rest, hy, hrest, rfl⟩
        rw [hy, ih.2 hrest]
        rfl

theorem List.mapM_eq_some_iff_map {α β : Type} {f : α → Option β} {xs : List α} {ys : List β} :
    xs.mapM f = some ys ↔ xs.map f = ys.map some := by
  rw [mapM_eq_some_iff, ← List.forall₂_eq_eq_eq, List.forall₂_map_left_iff,
    List.forall₂_map_right_iff]

theorem List.mapM_option_map {α β γ : Type} (f : α → Option β) (g : β → γ) (xs : List α) :
    xs.mapM (fun x => (f x).map g) = (xs.mapM f).map (List.map g) := by
  induction xs with
  | nil => rfl
  | cons x xs ih =>
      rw [List.mapM_cons, List.mapM_cons, ih]
      cases f x with
      | none => rfl
      | some y => cases xs.mapM f <;> rfl

theorem List.exists_of_mem_forall₂ {α β : Type} {R : α → β → Prop} {xs : List α} {ys : List β}
    (h : List.Forall₂ R xs ys) {x : α} (hx : x ∈ xs) : ∃ y ∈ ys, R x y := by
  induction h with
  | nil => exact absurd hx List.not_mem_nil
  | cons hxy _ ih =>
      rcases List.mem_cons.1 hx with rfl | hmem
      · exact ⟨_, List.mem_cons_self, hxy⟩
      · obtain ⟨y, hy, hr⟩ := ih hmem
        exact ⟨y, List.mem_cons_of_mem _ hy, hr⟩

theorem List.mapM_ok_of_mem {ε α β : Type} {f : α → Except ε β} {xs : List α} {ys : List β}
    (h : xs.mapM f = .ok ys) {y : β} (hy : y ∈ ys) : ∃ x ∈ xs, f x = .ok y :=
  exists_of_mem_forall₂ (forall₂_of_mapM_ok h).flip hy

theorem List.exists_mapM_iff {α β : Type} {f : α → Option β} {xs : List α} :
    (∃ ys, xs.mapM f = some ys) ↔ ∀ x ∈ xs, ∃ y, f x = some y := by
  constructor
  · rintro ⟨ys, hys⟩ x hx
    obtain ⟨y, -, hy⟩ := exists_of_mem_forall₂ (mapM_eq_some_iff.1 hys) hx
    exact ⟨y, hy⟩
  · intro h
    induction xs with
    | nil => exact ⟨[], rfl⟩
    | cons x xs ih =>
        obtain ⟨y, hy⟩ := h x List.mem_cons_self
        obtain ⟨ys, hys⟩ := ih fun other hother => h other (List.mem_cons_of_mem x hother)
        exact ⟨y :: ys, mapM_eq_some_iff.2 (.cons hy (mapM_eq_some_iff.1 hys))⟩

theorem List.exists_ok_of_mapM_ok {ε α β : Type} {f : α → Except ε β} {xs : List α} {ys : List β}
    (h : xs.mapM f = .ok ys) {x : α} (hx : x ∈ xs) : ∃ y, f x = .ok y := by
  obtain ⟨y, -, hread⟩ := exists_of_mem_forall₂ (forall₂_of_mapM_ok h) hx
  exact ⟨y, hread⟩

theorem List.mapM_ok_of_forall {ε α β : Type} {f : α → Except ε β} {xs : List α}
    (h : ∀ x ∈ xs, ∃ y, f x = .ok y) : ∃ ys, xs.mapM f = .ok ys := by
  induction xs with
  | nil => exact ⟨[], rfl⟩
  | cons x xs ih =>
      obtain ⟨y, hy⟩ := h x List.mem_cons_self
      obtain ⟨ys, hys⟩ := ih fun other hother => h other (List.mem_cons_of_mem x hother)
      exact ⟨y :: ys, by rw [List.mapM_cons, hy, hys]; rfl⟩

theorem List.mapM_ok_map {ε α β : Type} {f : α → Except ε β} {g : α → β} {xs : List α}
    (h : ∀ x ∈ xs, f x = .ok (g x)) : xs.mapM f = .ok (xs.map g) := by
  induction xs with
  | nil => rfl
  | cons x xs ih =>
      rw [List.mapM_cons, h x List.mem_cons_self, ih fun y hy => h y (List.mem_cons_of_mem x hy)]
      rfl

theorem List.mapM_append_cons_ok {ε α β : Type} {f : α → Except ε β} {xs ys : List α} {x : α}
    {zs : List β} (h : (xs ++ x :: ys).mapM f = .ok zs) :
    ∃ before z after, zs = before ++ z :: after ∧ f x = .ok z ∧
      ∀ w ∈ before ++ after, ∃ y ∈ xs ++ ys, f y = .ok w := by
  rw [List.mapM_append, Except.bind_eq_ok] at h
  obtain ⟨before, hbefore, h⟩ := h
  obtain ⟨rest, hrest, hzs⟩ := Except.bind_eq_ok.1 h
  cases hzs
  rw [List.mapM_cons, Except.bind_eq_ok] at hrest
  obtain ⟨z, hz, hrest⟩ := hrest
  obtain ⟨after, hafter, hzs⟩ := Except.bind_eq_ok.1 hrest
  cases hzs
  refine ⟨before, z, after, rfl, hz, fun w hw => ?_⟩
  rcases List.mem_append.1 hw with hin | hin
  · obtain ⟨y, hy, hread⟩ := mapM_ok_of_mem hbefore hin
    exact ⟨y, List.mem_append_left _ hy, hread⟩
  · obtain ⟨y, hy, hread⟩ := mapM_ok_of_mem hafter hin
    exact ⟨y, List.mem_append_right _ hy, hread⟩

theorem List.mapM_congr_forall₂ {ε α β : Type} {f g : α → Except ε β} {xs ys : List α}
    (h : List.Forall₂ (fun x y => f x = g y) xs ys) : xs.mapM f = ys.mapM g := by
  induction h with
  | nil => rfl
  | cons hxy _ ih => rw [List.mapM_cons, List.mapM_cons, hxy, ih]

/-! ## Items with a key -/

/-- What is found by a test that only one key passes is all that passes it. -/
theorem List.filter_eq_find? {α κ : Type} {key : α → κ} {p : α → Bool} {l : List α}
    (hnodup : (l.map key).Nodup) (hkey : ∀ a b, p a = true → p b = true → key a = key b) :
    l.filter p = (l.find? p).toList := by
  induction l with
  | nil => rfl
  | cons a l ih =>
      rw [List.map_cons, List.nodup_cons] at hnodup
      cases hp : p a with
      | false => simp only [List.filter_cons, List.find?_cons, hp, ih hnodup.2, Bool.false_eq_true,
          if_false]
      | true =>
          have hrest : l.filter p = [] := by
            refine List.filter_eq_nil_iff.2 fun b hb hpb => hnodup.1 ?_
            rw [hkey a b hp hpb]
            exact List.mem_map_of_mem hb
          simp only [List.filter_cons, List.find?_cons, hp, hrest, if_true, Option.toList_some]

/-- Going through the keys one by one meets all items with one of the keys. -/
theorem List.flatMap_filter_key_perm {α κ : Type} [DecidableEq κ] {keys : List κ}
    (key : α → Option κ) (l : List α) (hnodup : keys.Nodup) :
    (keys.flatMap fun k => l.filter fun a => key a = some k).Perm
      (l.filter fun a => (key a).any keys.contains) := by
  induction keys with
  | nil =>
      have hnone : (l.filter fun a => (key a).any ([] : List κ).contains) = [] := by
        simp [List.filter_eq_nil_iff, Option.any_eq_true]
      rw [hnone]
      exact .nil
  | cons k keys ih =>
      obtain ⟨hfresh, hrest⟩ := List.nodup_cons.1 hnodup
      -- those with the first key, and among the others those with one of the later keys
      have hsplit := List.filter_append_perm (fun a => decide (key a = some k))
        (l.filter fun a => (key a).any (k :: keys).contains)
      rw [List.filter_filter, List.filter_filter] at hsplit
      have hfirst : (l.filter fun a =>
            decide (key a = some k) && (key a).any (k :: keys).contains) =
          l.filter fun a => key a = some k := by
        refine List.filter_congr fun a _ => ?_
        by_cases h : key a = some k <;> simp [h]
      have hlater : (l.filter fun a =>
            !decide (key a = some k) && (key a).any (k :: keys).contains) =
          l.filter fun a => (key a).any keys.contains := by
        refine List.filter_congr fun a _ => ?_
        cases ha : key a with
        | none => simp
        | some other =>
            by_cases h : other = k
            · subst h
              simp [hfresh]
            · simp [h]
      rw [hfirst, hlater] at hsplit
      exact ((ih hrest).append_left _).trans hsplit

/-- A test that is the same for all parts of an item may be asked of the item. -/
theorem List.flatMap_filter_eq {α β : Type} {f : α → List β} {p : α → Bool} {q : β → Bool}
    {l : List α} (h : ∀ a ∈ l, ∀ b ∈ f a, q b = p a) :
    (l.filter p).flatMap f = (l.flatMap f).filter q := by
  induction l with
  | nil => rfl
  | cons a l ih =>
      have hrest := ih fun other hother => h other (List.mem_cons_of_mem a hother)
      have hparts := h a List.mem_cons_self
      rw [List.flatMap_cons, List.filter_append, ← hrest]
      cases hp : p a with
      | true =>
          rw [List.filter_cons_of_pos hp, List.flatMap_cons,
            List.filter_eq_self.2 fun b hb => (hparts b hb).trans hp]
      | false =>
          have hnone : (f a).filter q = [] :=
            List.filter_eq_nil_iff.2 fun b hb => by simp [hparts b hb, hp]
          rw [List.filter_cons_of_neg (by simp [hp]), hnone, List.nil_append]

end FleetUpgrade
