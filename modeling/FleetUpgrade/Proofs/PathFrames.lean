import FleetUpgrade.Proofs.PathSteps

/-! # Places that a write does not reach

Reading, writing and clearing at a path are the steps of its segments, so the
laws of one step carry over to whole paths by induction on their common start.
What is written or cleared at one place leaves every place apart from it alone,
and comes before or after a writing there alike.
-/

namespace FleetUpgrade

namespace Value

variable {s t : String} {v c : Value}

/-! ## Whole paths -/

@[simp] theorem getAt_nil (v : Value) : getAt [] v = some v := by cases v <;> rfl

theorem getAt_cons (s : String) (rest : List String) (v : Value) :
    getAt (s :: rest) v = (v.child? s).bind (getAt rest) := by
  cases v with
  | document fields => rfl
  | list items => exact (Option.bind_assoc _ _ _).symm
  | _ => rfl

/-- A value after writing at a place, if the writing succeeds. -/
def written? (new : Value) : List String → Value → Option Value
  | [], _ => some new
  | s :: rest, v => (v.slot? s).bind fun c => (written? new rest c).map fun c' => v.putChild s c'

theorem written?_cons {new : Value} {s : String} {rest : List String} {v v' : Value} :
    written? new (s :: rest) v = some v' ↔
      ∃ c c', v.slot? s = some c ∧ written? new rest c = some c' ∧ v' = v.putChild s c' := by
  simp only [written?, Option.bind_eq_some_iff, Option.map_eq_some_iff, eq_comm (a := v')]
  constructor
  · rintro ⟨c, hc, c', hc', hv⟩
    exact ⟨c, c', hc, hc', hv⟩
  · rintro ⟨c, c', hc, hc', hv⟩
    exact ⟨c, hc, c', hc', hv⟩

/-- The model writes at a place step by step as well, and fails where there is no step. -/
theorem setAt_cons (path : String) (new : Value) (s : String) (rest : List String) (v : Value) :
    (∃ c, v.slot? s = some c ∧ setAt path new (s :: rest) v =
      (v.putChild s (setAt path new rest c).1, (setAt path new rest c).2)) ∨
    (v.slot? s = none ∧ (setAt path new (s :: rest) v).2 ≠ none) := by
  cases v with
  | document fields =>
      by_cases hs : s = ""
      · exact .inr (by simp [slot?, setAt, hs])
      · exact .inl ⟨_, by simp [slot?, hs]; rfl, by simp [setAt, hs, putChild]⟩
  | list items =>
      cases hi : Path.index? s with
      | none => exact .inr (by simp [slot?, setAt, hi])
      | some i =>
          cases hitem : items[i]? with
          | none => exact .inr (by simp [slot?, setAt, hi, hitem])
          | some c => exact .inl ⟨c, by simp [slot?, hi, hitem], by simp [setAt, putChild, hi, hitem]⟩
  | _ => exact .inr (by simp [slot?, setAt])

theorem setAt_eq_none_iff {path : String} {new : Value} {ps : List String} {v v' : Value} :
    setAt path new ps v = (v', none) ↔ written? new ps v = some v' := by
  induction ps generalizing v v' with
  | nil => simp [setAt, written?]
  | cons s rest ih =>
      rw [written?_cons]
      obtain ⟨c, hc, hset⟩ | ⟨hnone, hfail⟩ := setAt_cons path new s rest v
      · rw [hset, hc]
        constructor
        · intro h
          obtain ⟨rfl, hdone⟩ := Prod.mk.inj h
          exact ⟨c, _, rfl, ih.1 (Prod.ext rfl hdone), rfl⟩
        · rintro ⟨_, c', hsome, hc', rfl⟩
          cases hsome
          rw [ih.2 hc']
      · constructor
        · intro h
          exact absurd (congrArg Prod.snd h) hfail
        · rintro ⟨c, c', hc, -, -⟩
          rw [hnone] at hc
          cases hc

theorem unsetAt_singleton (s : String) (v : Value) : unsetAt [s] v = v.dropChild s := by
  cases v with
  | document fields => rfl
  | list items =>
      cases hi : Path.index? s with
      | none => simp [unsetAt, dropChild, hi]
      | some i =>
          cases hitem : items[i]? with
          | none =>
              have hlong : items.length ≤ i := List.getElem?_eq_none_iff.1 hitem
              simp [unsetAt, dropChild, hi, hitem, List.set_eq_of_length_le hlong]
          | some c => simp [unsetAt, dropChild, hi, hitem]
  | _ => rfl

theorem unsetAt_cons (s : String) {rest : List String} (hrest : rest ≠ []) (v : Value) :
    unsetAt (s :: rest) v = (v.child? s).elim v fun c => v.putChild s (unsetAt rest c) := by
  obtain ⟨next, more, rfl⟩ := List.exists_cons_of_ne_nil hrest
  cases v with
  | document fields => cases hget : Fields.get? fields s <;> simp [unsetAt, child?, putChild, hget]
  | list items =>
      cases hi : Path.index? s with
      | none => simp [unsetAt, child?, hi]
      | some i =>
          cases hitem : items[i]? with
          | none => simp [unsetAt, child?, hi, hitem]
          | some c => simp [unsetAt, child?, putChild, hi, hitem]
  | _ => rfl

theorem unsetAt_empty (ps : List String) : unsetAt ps (.document []) = .document [] := by
  cases ps with
  | nil => rfl
  | cons s rest =>
      cases rest with
      | nil => rfl
      | cons next more => rfl

section separate

variable (hsep : Path.Separate s t)
include hsep

theorem child?_unsetAt (rest : List String) (v : Value) :
    (unsetAt (s :: rest) v).child? t = v.child? t := by
  by_cases hrest : rest = []
  · rw [hrest, unsetAt_singleton, child?_dropChild hsep]
  · rw [unsetAt_cons s hrest]
    cases v.child? s with
    | none => rfl
    | some c => exact child?_putChild hsep v _

theorem slot?_unsetAt (rest : List String) (v : Value) :
    (unsetAt (s :: rest) v).slot? t = v.slot? t := by
  by_cases hrest : rest = []
  · rw [hrest, unsetAt_singleton, slot?_dropChild hsep]
  · rw [unsetAt_cons s hrest]
    cases v.child? s with
    | none => rfl
    | some c => exact slot?_putChild hsep v _

theorem putChild_unsetAt (rest : List String) (v new : Value) :
    (unsetAt (t :: rest) v).putChild s new = unsetAt (t :: rest) (v.putChild s new) := by
  by_cases hrest : rest = []
  · rw [hrest, unsetAt_singleton, unsetAt_singleton, putChild_dropChild hsep]
  · rw [unsetAt_cons t hrest, unsetAt_cons t hrest, child?_putChild hsep]
    cases hchild : v.child? t with
    | none => rfl
    | some c => exact (putChild_comm hsep.symm _ (by rw [hchild]; rfl)).symm

end separate

theorem slot?_unsetAt_self (s : String) {rest : List String} (hrest : rest ≠ []) (v : Value) :
    (unsetAt (s :: rest) v).slot? s = (v.slot? s).map (unsetAt rest) := by
  rw [unsetAt_cons s hrest]
  cases hslot : v.slot? s with
  | none =>
      cases v.child? s with
      | none => exact hslot
      | some c => exact slot?_putChild_eq_none _ hslot
  | some c =>
      rcases child?_of_slot? hslot with hchild | ⟨hnone, rfl⟩
      · rw [hchild, Option.elim_some, Option.map_some, slot?_putChild_self _ hslot]
      · rw [hnone, Option.elim_none, hslot, Option.map_some, unsetAt_empty]

section fork

variable {ps qs : List String} {v v' new other : Value}

/-- What stands at a place is what stood there before a write elsewhere. -/
theorem getAt_written? (hfork : Path.Fork ps qs) (h : written? new ps v = some v') :
    getAt qs v' = getAt qs v := by
  induction ps generalizing qs v v' with
  | nil => exact hfork.elim
  | cons p ps ih =>
      cases qs with
      | nil => exact hfork.elim
      | cons q qs =>
          obtain ⟨c, c', hslot, hwritten, rfl⟩ := written?_cons.1 h
          rw [getAt_cons, getAt_cons]
          rcases hfork with hsep | ⟨rfl, hrest⟩
          · rw [child?_putChild hsep]
          · rw [child?_putChild_self c' hslot, Option.bind_some, ih hrest hwritten]
            rcases child?_of_slot? hslot with hchild | ⟨hnone, rfl⟩
            · rw [hchild, Option.bind_some]
            · -- a document that the write made had nothing in it
              rw [hnone, Option.bind_none]
              obtain ⟨next, more, rfl⟩ := List.exists_cons_of_ne_nil hrest.symm.ne_nil
              rfl

theorem getAt_unsetAt (hfork : Path.Fork ps qs) (v : Value) :
    getAt qs (unsetAt ps v) = getAt qs v := by
  induction ps generalizing qs v with
  | nil => exact hfork.elim
  | cons p ps ih =>
      cases qs with
      | nil => exact hfork.elim
      | cons q qs =>
          rw [getAt_cons, getAt_cons]
          rcases hfork with hsep | ⟨rfl, hrest⟩
          · rw [child?_unsetAt hsep]
          · rw [unsetAt_cons p hrest.ne_nil]
            cases hchild : v.child? p with
            | none => rw [Option.elim_none, hchild]
            | some c =>
                rw [Option.elim_some, child?_putChild_of_child? _ hchild]
                exact ih hrest c

/-- Writing after clearing elsewhere is clearing after writing. -/
theorem written?_unsetAt (hfork : Path.Fork ps qs) (new v : Value) :
    written? new ps (unsetAt qs v) = (written? new ps v).map (unsetAt qs) := by
  induction ps generalizing qs v with
  | nil => exact hfork.elim
  | cons p ps ih =>
      cases qs with
      | nil => exact hfork.elim
      | cons q qs =>
          simp only [written?]
          rcases hfork with hsep | ⟨rfl, hrest⟩
          · rw [slot?_unsetAt hsep.symm]
            cases v.slot? p with
            | none => rfl
            | some c =>
                rw [Option.bind_some, Option.bind_some, Option.map_map]
                exact congrArg (Option.map · (written? new ps c)) <| funext fun c' =>
                  putChild_unsetAt hsep qs v c'
          · rw [slot?_unsetAt_self p hrest.symm.ne_nil]
            cases hslot : v.slot? p with
            | none => rfl
            | some c =>
                simp only [Option.map_some, Option.bind_some, ih hrest c]
                cases written? new ps c with
                | none => rfl
                | some c' =>
                    refine congrArg some ?_
                    rw [unsetAt_cons p hrest.symm.ne_nil (v.putChild p c'),
                      child?_putChild_self c' hslot, Option.elim_some, putChild_putChild,
                      unsetAt_cons p hrest.symm.ne_nil v]
                    cases v.child? p with
                    | none => rfl
                    | some old => exact putChild_putChild v p _ _

/-- Whether a place can be written does not depend on what is written there, and the last writing
counts. -/
theorem written?_written? (new old : Value) (ps : List String) (v : Value) :
    (written? old ps v).bind (written? new ps) = written? new ps v := by
  induction ps generalizing v with
  | nil => rfl
  | cons p ps ih =>
      simp only [written?]
      cases hslot : v.slot? p with
      | none => rfl
      | some c =>
          simp only [Option.bind_some, ← ih c]
          cases written? old ps c with
          | none => rfl
          | some c' =>
              simp only [Option.map_some, Option.bind_some, slot?_putChild_self c' hslot]
              cases written? new ps c' with
              | none => rfl
              | some c'' => exact congrArg some (putChild_putChild v p c'' c')

/-- A writing at a place that is there may come after a writing elsewhere as well; a place that is
not there is made last. -/
theorem written?_comm {between : Value} (hfork : Path.Fork ps qs)
    (hthere : (getAt ps v).isSome = true) (hfirst : written? new ps v = some between)
    (hsecond : written? other qs between = some v') :
    ∃ w, written? other qs v = some w ∧ written? new ps w = some v' := by
  induction ps generalizing qs v between v' with
  | nil => exact hfork.elim
  | cons p ps ih =>
      cases qs with
      | nil => exact hfork.elim
      | cons q qs =>
          obtain ⟨c, c₁, hslot, hc₁, rfl⟩ := written?_cons.1 hfirst
          obtain ⟨e, e₁, hother, he₁, rfl⟩ := written?_cons.1 hsecond
          rcases hfork with hsep | ⟨rfl, hrest⟩
          · rw [slot?_putChild hsep] at hother
            have hchild : (v.child? p).isSome = true := by
              rw [getAt_cons] at hthere
              exact Option.isSome_of_isSome_bind hthere
            exact ⟨v.putChild q e₁, written?_cons.2 ⟨e, e₁, hother, he₁, rfl⟩,
              written?_cons.2 ⟨c, c₁, (slot?_putChild hsep.symm v e₁).trans hslot, hc₁,
                (putChild_comm hsep c₁ hchild).symm⟩⟩
          · rw [slot?_putChild_self c₁ hslot, Option.some.injEq] at hother
            subst hother
            have hbelow : (getAt ps c).isSome = true := by
              rw [getAt_cons] at hthere
              rcases child?_of_slot? hslot with hchild | ⟨hnone, -⟩
              · rwa [hchild, Option.bind_some] at hthere
              · rw [hnone] at hthere
                cases hthere
            obtain ⟨u, hu, hlast⟩ := ih hrest hbelow hc₁ he₁
            exact ⟨v.putChild p u, written?_cons.2 ⟨c, u, hslot, hu, rfl⟩,
              written?_cons.2 ⟨u, e₁, slot?_putChild_self u hslot, hlast,
                by rw [putChild_putChild, putChild_putChild]⟩⟩

end fork

/-! ## The value at a place put back -/

def putAt (new : Value) : List String → Value → Value
  | [], _ => new
  | s :: rest, v => (v.child? s).elim v fun c => v.putChild s (putAt new rest c)

section putAt

variable {ps : List String} {v w : Value}

theorem getAt_putAt (new : Value) (h : getAt ps v = some w) :
    getAt ps (putAt new ps v) = some new := by
  induction ps generalizing v with
  | nil => rw [putAt, getAt_nil]
  | cons p ps ih =>
      rw [getAt_cons] at h
      obtain ⟨c, hchild, hc⟩ := Option.bind_eq_some_iff.1 h
      rw [putAt, hchild, Option.elim_some, getAt_cons, child?_putChild_of_child? _ hchild,
        Option.bind_some, ih hc]

theorem putAt_putAt (new old : Value) (ps : List String) (v : Value) :
    putAt new ps (putAt old ps v) = putAt new ps v := by
  induction ps generalizing v with
  | nil => rfl
  | cons p ps ih =>
      simp only [putAt]
      cases hchild : v.child? p with
      | none => rw [Option.elim_none, hchild, Option.elim_none]
      | some c =>
          rw [Option.elim_some, child?_putChild_of_child? _ hchild, Option.elim_some, ih,
            putChild_putChild, Option.elim_some]

theorem putAt_same (h : getAt ps v = some w) : putAt w ps v = v := by
  induction ps generalizing v with
  | nil =>
      rw [getAt_nil, Option.some.injEq] at h
      exact h.symm
  | cons p ps ih =>
      rw [getAt_cons] at h
      obtain ⟨c, hchild, hc⟩ := Option.bind_eq_some_iff.1 h
      rw [putAt, hchild, Option.elim_some, ih hc, putChild_child hchild]

/-- Writing below a value is writing in the value, which is put back; no segment on the way is
empty. -/
theorem written?_append {new v' : Value} {qs : List String} (h : getAt ps v = some w) :
    written? new (ps ++ qs) v = some v' ↔
      (∀ p ∈ ps, p ≠ "") ∧ ∃ w', written? new qs w = some w' ∧ v' = putAt w' ps v := by
  induction ps generalizing v v' with
  | nil =>
      rw [getAt_nil, Option.some.injEq] at h
      simp [putAt, h]
  | cons p ps ih =>
      rw [getAt_cons] at h
      obtain ⟨c, hchild, hc⟩ := Option.bind_eq_some_iff.1 h
      have hput : ∀ w', putAt w' (p :: ps) v = v.putChild p (putAt w' ps c) := fun w' => by
        rw [putAt, hchild, Option.elim_some]
      simp only [List.cons_append, written?_cons, List.forall_mem_cons, hput]
      constructor
      · rintro ⟨e, e', hslot, he, rfl⟩
        obtain ⟨hp, rfl⟩ := (slot?_of_child? hchild).1 hslot
        obtain ⟨hps, w', hw', rfl⟩ := (ih hc).1 he
        exact ⟨⟨hp, hps⟩, w', hw', rfl⟩
      · rintro ⟨⟨hp, hps⟩, w', hw', rfl⟩
        exact ⟨c, putAt w' ps c, (slot?_of_child? hchild).2 ⟨hp, rfl⟩,
          (ih hc).2 ⟨hps, w', hw', rfl⟩, rfl⟩

theorem unsetAt_append {qs : List String} (h : getAt ps v = some w) (hqs : qs ≠ []) :
    unsetAt (ps ++ qs) v = putAt (unsetAt qs w) ps v := by
  induction ps generalizing v with
  | nil =>
      rw [getAt_nil, Option.some.injEq] at h
      rw [List.nil_append, putAt, h]
  | cons p ps ih =>
      rw [getAt_cons] at h
      obtain ⟨c, hchild, hc⟩ := Option.bind_eq_some_iff.1 h
      rw [List.cons_append, unsetAt_cons p (by simp [hqs]), putAt, hchild, Option.elim_some,
        Option.elim_some, ih hc]

end putAt

/-! ## One place changed -/

/-- A value before and after one place was written or cleared. -/
def Changed (ps : List String) (v v' : Value) : Prop :=
  (∃ new, written? new ps v = some v') ∨ v' = unsetAt ps v

namespace Changed

variable {ps qs : List String} {p : String} {v v' w : Value}

theorem getAt_eq (h : Changed ps v v') (hfork : Path.Fork ps qs) : getAt qs v' = getAt qs v := by
  rcases h with ⟨new, hwritten⟩ | rfl
  · exact getAt_written? hfork hwritten
  · exact getAt_unsetAt hfork v

/-- A change below a value is a change in the value. -/
theorem below (h : Changed (ps ++ qs) v v') (hqs : qs ≠ []) (hw : getAt ps v = some w) :
    ∃ w', Changed qs w w' ∧ getAt ps v' = some w' := by
  rcases h with ⟨new, hwritten⟩ | rfl
  · obtain ⟨-, w', hw', rfl⟩ := (written?_append hw).1 hwritten
    exact ⟨w', .inl ⟨new, hw'⟩, getAt_putAt w' hw⟩
  · exact ⟨unsetAt qs w, .inr rfl, by rw [unsetAt_append hw hqs, getAt_putAt _ hw]⟩

theorem of_document {fields : Fields} (h : Changed ps (.document fields) v') (hps : ps ≠ []) :
    ∃ fields', v' = .document fields' := by
  obtain ⟨p, rest, rfl⟩ := List.exists_cons_of_ne_nil hps
  rcases h with ⟨new, hwritten⟩ | rfl
  · obtain ⟨_, _, -, -, rfl⟩ := written?_cons.1 hwritten
    exact ⟨_, rfl⟩
  · by_cases hrest : rest = []
    · subst hrest
      exact ⟨_, rfl⟩
    · rw [unsetAt_cons p hrest]
      cases child? p (.document fields) <;> exact ⟨_, rfl⟩

theorem of_list {items : List Value} (h : Changed (p :: ps) (.list items) v') :
    v' = .list items ∨ ∃ i c c', Path.index? p = some i ∧ items[i]? = some c ∧
      v' = .list (items.set i c') ∧ (ps ≠ [] → Changed ps c c') := by
  cases hi : Path.index? p with
  | none =>
      refine .inl ?_
      rcases h with ⟨new, hwritten⟩ | rfl
      · obtain ⟨c, c', hslot, -, rfl⟩ := written?_cons.1 hwritten
        simp [slot?, hi] at hslot
      · by_cases hps : ps = []
        · simp [hps, unsetAt_singleton, dropChild, hi]
        · simp [unsetAt_cons p hps, child?, hi]
  | some i =>
      rcases h with ⟨new, hwritten⟩ | rfl
      · obtain ⟨c, c', hslot, hc', rfl⟩ := written?_cons.1 hwritten
        have hitem : items[i]? = some c := by simpa [slot?, hi] using hslot
        exact .inr ⟨i, c, c', rfl, hitem, by simp [putChild, hi], fun _ => .inl ⟨new, hc'⟩⟩
      · cases hitem : items[i]? with
        | none =>
            have hlong : items.length ≤ i := List.getElem?_eq_none_iff.1 hitem
            refine .inl ?_
            by_cases hps : ps = []
            · simp [hps, unsetAt_singleton, dropChild, hi, List.set_eq_of_length_le hlong]
            · simp [unsetAt_cons p hps, child?, hi, hitem]
        | some c =>
            by_cases hps : ps = []
            · subst hps
              exact .inr ⟨i, c, .null, rfl, hitem, by simp [unsetAt_singleton, dropChild, hi],
                fun hne => absurd rfl hne⟩
            · exact .inr ⟨i, c, unsetAt ps c, rfl, hitem,
                by simp [unsetAt_cons p hps, child?, putChild, hi, hitem], fun _ => .inr rfl⟩

end Changed

end Value

/-! ## Documents -/

namespace Document

variable {d d' : Document} {path other : String} {value : Value}

def written? (d : Document) (path : String) (value : Value) : Option Document :=
  match d.setPath path value with
  | (d', none) => some d'
  | (_, some _) => none

def putPath (d : Document) (path : String) (value : Value) : Document :=
  ofValue (Value.putAt value (Path.segments path) (.ofDocument d))

theorem written?_eq_some_iff :
    d.written? path value = some d' ↔ d.setPath path value = (d', none) := by
  unfold written?
  cases d.setPath path value with
  | mk after failure => cases failure <;> simp

theorem ofDocument_inj (h : Value.ofDocument d = Value.ofDocument d') : d = d' := by
  cases d
  cases d'
  cases h
  rfl

theorem ofDocument_ofValue {v : Value} (h : ∃ fields, v = .document fields) :
    Value.ofDocument (ofValue v) = v := by
  obtain ⟨fields, rfl⟩ := h
  rfl

theorem ofDocument_unsetPath (d : Document) (path : String) :
    Value.ofDocument (d.unsetPath path) = Value.unsetAt (Path.segments path) (.ofDocument d) :=
  ofDocument_ofValue (Value.Changed.of_document (.inr rfl) (Path.segments_ne_nil path))

theorem ofDocument_of_written? {v : Value}
    (h : Value.written? value (Path.segments path) (.ofDocument d) = some v) :
    Value.ofDocument (ofValue v) = v :=
  ofDocument_ofValue (Value.Changed.of_document (.inl ⟨value, h⟩) (Path.segments_ne_nil path))

theorem written?_iff : d.written? path value = some d' ↔
    Value.written? value (Path.segments path) (.ofDocument d) = some (.ofDocument d') := by
  rw [written?_eq_some_iff]
  unfold setPath
  constructor
  · intro h
    obtain ⟨rfl, hdone⟩ := Prod.mk.inj h
    have hwritten := Value.setAt_eq_none_iff.1 (Prod.ext rfl hdone)
    rwa [ofDocument_of_written? hwritten]
  · intro h
    rw [Value.setAt_eq_none_iff.2 h]
    rfl

theorem map_written? (d : Document) (path : String) (value : Value) :
    (d.written? path value).map Value.ofDocument =
      Value.written? value (Path.segments path) (.ofDocument d) := by
  cases hwritten : Value.written? value (Path.segments path) (.ofDocument d) with
  | none =>
      rw [Option.map_eq_none_iff, Option.eq_none_iff_forall_ne_some]
      intro d' hd'
      rw [written?_iff, hwritten] at hd'
      cases hd'
  | some v =>
      have hdoc := ofDocument_of_written? hwritten
      rw [← hdoc, ← written?_iff] at hwritten
      rw [hwritten, Option.map_some, hdoc]

theorem ofDocument_putPath (d : Document) (path : String) (value : Value) :
    Value.ofDocument (d.putPath path value) =
      Value.putAt value (Path.segments path) (.ofDocument d) := by
  refine ofDocument_ofValue ?_
  obtain ⟨p, rest, hpath⟩ := List.exists_cons_of_ne_nil (Path.segments_ne_nil path)
  rw [hpath, Value.putAt]
  cases Value.child? p (.ofDocument d) <;> exact ⟨_, rfl⟩

theorem changed_of_written? (h : d.written? path value = some d') :
    Value.Changed (Path.segments path) (.ofDocument d) (.ofDocument d') :=
  .inl ⟨value, written?_iff.1 h⟩

theorem changed_unsetPath (d : Document) (path : String) :
    Value.Changed (Path.segments path) (.ofDocument d) (.ofDocument (d.unsetPath path)) :=
  .inr (ofDocument_unsetPath d path)

theorem getPath_putPath {old : Value} (h : d.getPath path = some old) :
    (d.putPath path value).getPath path = some value := by
  unfold getPath
  rw [ofDocument_putPath]
  exact Value.getAt_putAt value h

theorem putPath_putPath (d : Document) (path : String) (value old : Value) :
    (d.putPath path old).putPath path value = d.putPath path value := by
  apply ofDocument_inj
  simp only [ofDocument_putPath, Value.putAt_putAt]

theorem putPath_same (h : d.getPath path = some value) : d.putPath path value = d := by
  apply ofDocument_inj
  rw [ofDocument_putPath]
  exact Value.putAt_same h

theorem written?_unsetPath (hapart : Path.Apart path other)
    (h : d.written? path value = some d') :
    (d.unsetPath other).written? path value = some (d'.unsetPath other) := by
  rw [written?_iff] at h ⊢
  rw [ofDocument_unsetPath, ofDocument_unsetPath, Value.written?_unsetAt hapart, h,
    Option.map_some]

/-- Of two writings at one path the last one counts, and the first one succeeds if it does. -/
theorem written?_twice {new : Value} (old : Value) (h : d.written? path new = some d') :
    ∃ between, d.written? path old = some between ∧ between.written? path new = some d' := by
  rw [written?_iff, ← Value.written?_written? new old] at h
  obtain ⟨v, hold, hnew⟩ := Option.bind_eq_some_iff.1 h
  have hdoc := ofDocument_of_written? hold
  refine ⟨ofValue v, ?_, ?_⟩
  · rw [written?_iff, hdoc, hold]
  · rw [written?_iff, hdoc, hnew]

theorem written?_comm {between : Document} {new : Value} (hapart : Path.Apart path other)
    (hthere : (d.getPath path).isSome = true) (hfirst : d.written? path value = some between)
    (hsecond : between.written? other new = some d') :
    ∃ w, d.written? other new = some w ∧ w.written? path value = some d' := by
  rw [written?_iff] at hfirst hsecond
  obtain ⟨v, hother, hlast⟩ := Value.written?_comm hapart hthere hfirst hsecond
  have hdoc := ofDocument_of_written? hother
  refine ⟨ofValue v, ?_, ?_⟩
  · rw [written?_iff, hdoc, hother]
  · rw [written?_iff, hdoc, hlast]

end Document

end FleetUpgrade
