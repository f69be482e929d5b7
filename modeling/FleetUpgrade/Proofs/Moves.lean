import FleetUpgrade.Proofs.CollectionPlans
import Mathlib.Data.List.Induction
import Mathlib.Data.List.Nodup

/-! # Many moves in one transaction

A move takes the document of one place out and puts a document into another. The
places of many moves may overlap, and a new place may be the old place of another
move. That a transaction of moves is carried out rules out all that could lose or
cover a document: an insertion asks for a free place, so a place that is still to
be cleared cannot be filled before, and none is filled twice.
-/

namespace FleetUpgrade

theorem Documents.place_of_ne (docs : Documents) {collection id name key : String}
    (d : Option Document) (h : (name, key) ≠ (collection, id)) :
    docs.place collection id d name key = docs name key :=
  Documents.place_other docs d fun hh => h (Prod.ext hh.1 hh.2)

theorem Operation.execute_insert_error_iff {name id : String} {body : Document} {docs : Documents}
    {e : StoreError} : (insert name id body).execute docs = .error e ↔
      (docs name id).isSome = true ∧ e = .preconditionFailed name id .mustNotExist := by
  unfold execute
  cases hd : docs name id with
  | none => simp [insert, hd, Precondition.holds]
  | some d => simp [insert, hd, Precondition.holds, eq_comm]

theorem Transaction.execute_append {first second : Transaction} {docs : Documents} :
    execute (first ++ second) docs = execute first docs >>= execute second := by
  induction first generalizing docs with
  | nil => rfl
  | cons op first ih =>
      rw [List.cons_append, execute, execute]
      cases op.execute docs with
      | error e => rfl
      | ok between => exact ih

/-- A document that is taken out of one place, and the one that is put into another. -/
structure Move where
  source : String
  oldId : String
  target : String
  newId : String
  body : Document

namespace Move

def oldPlace (m : Move) : String × String := (m.source, m.oldId)

def newPlace (m : Move) : String × String := (m.target, m.newId)

def document (m : Move) : Document := .inserted m.newId m.body

def operations (m : Move) : Transaction := relocate m.source m.oldId m.target m.newId m.body

def carriedOut (m : Move) (docs : Documents) : Documents :=
  (docs.place m.source m.oldId none).place m.target m.newId (some m.document)

theorem execute_ok_iff {m : Move} {docs docs' : Documents} :
    m.operations.execute docs = .ok docs' ↔
      (docs m.source m.oldId).isSome = true ∧
        docs.place m.source m.oldId none m.target m.newId = none ∧ docs' = m.carriedOut docs := by
  unfold operations relocate
  rw [Transaction.execute_cons_ok]
  simp only [Transaction.execute_cons_ok, Transaction.execute_nil, Except.ok.injEq,
    Operation.execute_remove_ok_iff, Operation.execute_insert_ok_iff]
  constructor
  · rintro ⟨_, ⟨hthere, rfl⟩, _, ⟨hfree, rfl⟩, rfl⟩
    exact ⟨hthere, hfree, rfl⟩
  · rintro ⟨hthere, hfree, rfl⟩
    exact ⟨_, ⟨hthere, rfl⟩, _, ⟨hfree, rfl⟩, rfl⟩

/-- A move of a document that is there is refused for one thing: its new place is taken. -/
theorem execute_error {m : Move} {docs : Documents} {e : StoreError}
    (hthere : (docs m.source m.oldId).isSome = true) (h : m.operations.execute docs = .error e) :
    (docs m.target m.newId).isSome = true ∧
      e = .preconditionFailed m.target m.newId .mustNotExist := by
  have hremove : (Operation.remove m.source m.oldId).execute docs =
      .ok (docs.place m.source m.oldId none) :=
    Operation.execute_remove_ok_iff.2 ⟨hthere, rfl⟩
  unfold operations relocate at h
  simp only [Transaction.execute, hremove] at h
  split at h
  · next e' hinsert =>
      cases h
      obtain ⟨htaken, he⟩ := Operation.execute_insert_error_iff.1 hinsert
      refine ⟨?_, he⟩
      by_cases hplace : m.newPlace = m.oldPlace
      · obtain ⟨hname, hid⟩ := Prod.mk.inj hplace
        rwa [hname, hid]
      · rwa [Documents.place_of_ne _ _ hplace] at htaken
  · cases h

@[simp] theorem carriedOut_newPlace (m : Move) (docs : Documents) :
    m.carriedOut docs m.target m.newId = some m.document :=
  Documents.place_self _ _ _ _

theorem carriedOut_oldPlace {m : Move} (docs : Documents) (h : m.oldPlace ≠ m.newPlace) :
    m.carriedOut docs m.source m.oldId = none := by
  unfold carriedOut
  rw [Documents.place_of_ne _ _ h, Documents.place_self]

theorem carriedOut_other {m : Move} {name id : String} (docs : Documents)
    (hold : (name, id) ≠ m.oldPlace) (hnew : (name, id) ≠ m.newPlace) :
    m.carriedOut docs name id = docs name id := by
  unfold carriedOut
  rw [Documents.place_of_ne _ _ hnew, Documents.place_of_ne _ _ hold]

theorem isSome_carriedOut {m : Move} {docs : Documents} {name id : String}
    (hold : (name, id) ≠ m.oldPlace) (h : (docs name id).isSome = true) :
    (m.carriedOut docs name id).isSome = true := by
  by_cases hnew : (name, id) = m.newPlace
  · cases hnew
    rw [carriedOut_newPlace]
    rfl
  · rwa [carriedOut_other docs hold hnew]

end Move

/-! ## Moves that were all carried out -/

/-- What moves that were all carried out did. -/
structure Moved (moves : List Move) (docs docs' : Documents) : Prop where
  distinct : (moves.map Move.newPlace).Nodup
  free : ∀ m ∈ moves, docs m.target m.newId = none ∨ m.newPlace ∈ moves.map Move.oldPlace
  arrived : ∀ m ∈ moves, docs' m.target m.newId = some m.document
  gone : ∀ m ∈ moves, m.oldPlace ∉ moves.map Move.newPlace → docs' m.source m.oldId = none
  kept : ∀ name id, (name, id) ∉ moves.map Move.oldPlace → (name, id) ∉ moves.map Move.newPlace →
    docs' name id = docs name id

namespace Moved

variable {m : Move} {moves : List Move} {docs docs' : Documents}

theorem nil (docs : Documents) : Moved [] docs docs where
  distinct := List.nodup_nil
  free _ hm := absurd hm List.not_mem_nil
  arrived _ hm := absurd hm List.not_mem_nil
  gone _ hm := absurd hm List.not_mem_nil
  kept _ _ _ _ := rfl

theorem cons (hold : m.oldPlace ∉ moves.map Move.oldPlace)
    (hnew : m.newPlace ∉ moves.map Move.oldPlace)
    (hfree : docs.place m.source m.oldId none m.target m.newId = none)
    (h : Moved moves (m.carriedOut docs) docs') : Moved (m :: moves) docs docs' := by
  -- the new place is filled now, so no later move ends there
  have hfresh : m.newPlace ∉ moves.map Move.newPlace := by
    intro hin
    obtain ⟨other, hother, he⟩ := List.mem_map.1 hin
    obtain ⟨htarget, hid⟩ := Prod.mk.inj he
    rcases h.free other hother with hnone | hcleared
    · rw [htarget, hid, Move.carriedOut_newPlace] at hnone
      cases hnone
    · exact hnew (he ▸ hcleared)
  refine ⟨?_, ?_, ?_, ?_, ?_⟩
  · rw [List.map_cons, List.nodup_cons]
    exact ⟨hfresh, h.distinct⟩
  · intro other hother
    rw [List.map_cons, List.mem_cons]
    rcases List.mem_cons.1 hother with rfl | hlater
    · by_cases hplace : other.newPlace = other.oldPlace
      · exact Or.inr (Or.inl hplace)
      · rw [Documents.place_of_ne _ _ hplace] at hfree
        exact Or.inl hfree
    · rcases h.free other hlater with hnone | hcleared
      · by_cases hplace : other.newPlace = m.oldPlace
        · exact Or.inr (Or.inl hplace)
        · have hne : other.newPlace ≠ m.newPlace := fun he =>
            hfresh (he ▸ List.mem_map_of_mem hlater)
          rw [Move.carriedOut_other docs hplace hne] at hnone
          exact Or.inl hnone
      · exact Or.inr (Or.inr hcleared)
  · intro other hother
    rcases List.mem_cons.1 hother with rfl | hlater
    · rw [h.kept other.target other.newId hnew hfresh, Move.carriedOut_newPlace]
    · exact h.arrived other hlater
  · intro other hother hno
    rw [List.map_cons, List.mem_cons, not_or] at hno
    rcases List.mem_cons.1 hother with rfl | hlater
    · rw [h.kept other.source other.oldId hold hno.2, Move.carriedOut_oldPlace docs hno.1]
    · exact h.gone other hlater hno.2
  · intro name id hno hno'
    rw [List.map_cons, List.mem_cons, not_or] at hno hno'
    rw [h.kept name id hno.2 hno'.2, Move.carriedOut_other docs hno.1 hno'.1]

theorem stays (h : Moved moves docs docs') {name id : String}
    (hthere : (docs name id).isSome = true) (hold : (name, id) ∉ moves.map Move.oldPlace) :
    docs' name id = docs name id := by
  refine h.kept name id hold fun hin => ?_
  obtain ⟨m, hm, he⟩ := List.mem_map.1 hin
  obtain ⟨htarget, hid⟩ := Prod.mk.inj he
  rcases h.free m hm with hnone | hcleared
  · rw [htarget, hid] at hnone
    rw [hnone] at hthere
    cases hthere
  · exact hold (he ▸ hcleared)

/-- Where nothing was, only a move puts a document. -/
theorem mem_newPlaces_of_filled (h : Moved moves docs docs') {name id : String}
    (hnone : docs name id = none) (hfilled : (docs' name id).isSome = true) :
    (name, id) ∈ moves.map Move.newPlace := by
  by_contra hno
  have hempty : docs' name id = none := by
    by_cases hold : (name, id) ∈ moves.map Move.oldPlace
    · obtain ⟨m, hm, he⟩ := List.mem_map.1 hold
      obtain ⟨hsource, hid⟩ := Prod.mk.inj he
      have hgone := h.gone m hm (he ▸ hno)
      rwa [hsource, hid] at hgone
    · rw [h.kept name id hold hno, hnone]
  rw [hempty] at hfilled
  cases hfilled

end Moved

namespace Transaction

variable {moves : List Move}

/-- Moves of different documents that are carried out lose none and cover none. -/
theorem moved_of_execute {docs docs' : Documents} (hold : (moves.map Move.oldPlace).Nodup)
    (hthere : ∀ m ∈ moves, (docs m.source m.oldId).isSome = true)
    (h : execute (moves.flatMap Move.operations) docs = .ok docs') : Moved moves docs docs' := by
  induction moves generalizing docs with
  | nil =>
      cases h
      exact .nil _
  | cons m moves ih =>
      rw [List.map_cons, List.nodup_cons] at hold
      rw [List.flatMap_cons, execute_append_ok] at h
      obtain ⟨between, hmove, hrest⟩ := h
      obtain ⟨-, hfree, rfl⟩ := Move.execute_ok_iff.1 hmove
      have hne : ∀ other ∈ moves, other.oldPlace ≠ m.oldPlace := fun other hother he =>
        hold.1 (he ▸ List.mem_map_of_mem hother)
      -- a document that is still to be moved is in the way of the insertion
      have hnew : m.newPlace ∉ moves.map Move.oldPlace := by
        intro hin
        obtain ⟨other, hother, he⟩ := List.mem_map.1 hin
        have hstill := hthere other (List.mem_cons_of_mem m hother)
        have hplace := hne other hother
        obtain ⟨hsource, hid⟩ := Prod.mk.inj he
        rw [he] at hplace
        rw [hsource, hid] at hstill
        rw [Documents.place_of_ne _ _ hplace] at hfree
        rw [hfree] at hstill
        cases hstill
      refine .cons hold.1 hnew hfree (ih hold.2 (fun other hother => ?_) hrest)
      exact Move.isSome_carriedOut (hne other hother) (hthere other (List.mem_cons_of_mem m hother))

/-- Moves of different documents to free places are refused only where two of them meet, and the
error names that place. -/
theorem execute_moves_refused {docs : Documents} {e : StoreError}
    (hold : (moves.map Move.oldPlace).Nodup)
    (hthere : ∀ m ∈ moves, (docs m.source m.oldId).isSome = true)
    (hfree : ∀ m ∈ moves, docs m.target m.newId = none)
    (h : execute (moves.flatMap Move.operations) docs = .error e) :
    ∃ m ∈ moves, ∃ other ∈ moves, other.oldPlace ≠ m.oldPlace ∧ other.newPlace = m.newPlace ∧
      e = .preconditionFailed m.target m.newId .mustNotExist := by
  induction moves using List.reverseRecOn with
  | nil => cases h
  | append_singleton moves m ih =>
      have hearlier : ∀ {other}, other ∈ moves → other ∈ moves ++ [m] := List.mem_append_left _
      have hm : m ∈ moves ++ [m] := List.mem_append_right _ (List.mem_singleton_self m)
      rw [List.map_append, List.map_singleton, List.nodup_append'] at hold
      obtain ⟨hnodup, -, hdisjoint⟩ := hold
      have hno : m.oldPlace ∉ moves.map Move.oldPlace := fun hin =>
        hdisjoint hin (List.mem_singleton_self m.oldPlace)
      rw [List.flatMap_append, List.flatMap_singleton, execute_append] at h
      cases hfirst : execute (moves.flatMap Move.operations) docs with
      | error e' =>
          rw [hfirst] at h
          cases h
          obtain ⟨first, hin, other, hother, hmeet⟩ := ih hnodup
            (fun other hother => hthere other (hearlier hother))
            (fun other hother => hfree other (hearlier hother)) hfirst
          exact ⟨first, hearlier hin, other, hearlier hother, hmeet⟩
      | ok between =>
          rw [hfirst] at h
          have hmoved := moved_of_execute hnodup
            (fun other hother => hthere other (hearlier hother)) hfirst
          have hstill : (between m.source m.oldId).isSome = true := by
            rw [hmoved.stays (hthere m hm) hno]
            exact hthere m hm
          obtain ⟨htaken, he⟩ := Move.execute_error hstill h
          -- an earlier move has filled the place
          obtain ⟨other, hother, hmeet⟩ :=
            List.mem_map.1 (hmoved.mem_newPlaces_of_filled (hfree m hm) htaken)
          refine ⟨m, hm, other, hearlier hother, fun hplace => hno ?_, hmeet, he⟩
          exact hplace ▸ List.mem_map_of_mem hother

end Transaction

/-! ## Moves that were planned document by document -/

namespace Snapshot

variable {s : Snapshot} {name : String} {move : Document → Except StepError Transaction}

private theorem exists_moves_of_mapM (hmove : MovesWithin name move)
    {entries : List (String × Document)} (hids : ∀ entry ∈ entries, entry.2.id = .ok entry.1)
    {parts : List Transaction} (h : (entries.map Prod.snd).mapM move = .ok parts) :
    ∃ moves : List Move, parts.flatten = moves.flatMap Move.operations ∧
      (moves.map Move.oldPlace).Sublist (entries.map fun entry => (name, entry.1)) ∧
      (∀ m ∈ moves, m.target = name ∧
        ∃ d, (m.oldId, d) ∈ entries ∧ move d = .ok m.operations) ∧
      ∀ entry ∈ entries, move entry.2 = .ok [] ∨
        ∃ m ∈ moves, m.oldId = entry.1 ∧ move entry.2 = .ok m.operations := by
  induction entries generalizing parts with
  | nil =>
      cases h
      exact ⟨[], rfl, List.Sublist.slnil, by simp, by simp⟩
  | cons entry entries ih =>
      rw [List.map_cons, List.mapM_cons, Except.bind_eq_ok] at h
      obtain ⟨part, hpart, h⟩ := h
      obtain ⟨rest, hrest, hparts⟩ := Except.bind_eq_ok.1 h
      cases hparts
      obtain ⟨moves, hflat, hsub, hfrom, hall⟩ :=
        ih (fun other hother => hids other (List.mem_cons_of_mem entry hother)) hrest
      obtain ⟨id, hid, hshape⟩ := hmove hpart
      rw [hids entry List.mem_cons_self] at hid
      cases hid
      rcases hshape with rfl | ⟨newId, body, rfl⟩
      · refine ⟨moves, by simpa using hflat, hsub.cons _, fun m hm => ?_, ?_⟩
        · obtain ⟨htarget, d, hd, hplan⟩ := hfrom m hm
          exact ⟨htarget, d, List.mem_cons_of_mem entry hd, hplan⟩
        · exact List.forall_mem_cons.2 ⟨Or.inl hpart, hall⟩
      · let m : Move := ⟨name, entry.1, name, newId, body⟩
        refine ⟨m :: moves, ?_, hsub.cons_cons _, ?_, ?_⟩
        · rw [List.flatten_cons, List.flatMap_cons, hflat]
          rfl
        · refine List.forall_mem_cons.2
            ⟨⟨rfl, entry.2, List.mem_cons_self, hpart⟩, fun other hother => ?_⟩
          obtain ⟨htarget, d, hd, hplan⟩ := hfrom other hother
          exact ⟨htarget, d, List.mem_cons_of_mem entry hd, hplan⟩
        · refine List.forall_mem_cons.2
            ⟨Or.inr ⟨m, List.mem_cons_self, rfl, hpart⟩, fun other hother => ?_⟩
          rcases hall other hother with hnone | ⟨m', hm', hid, hplan⟩
          · exact Or.inl hnone
          · exact Or.inr ⟨m', List.mem_cons_of_mem m hm', hid, hplan⟩

/-- A plan that moves documents within their collection is a list of moves, one for each document
that is moved. -/
theorem exists_moves_of_planEach {ops : Transaction} (hk : s.Keyed)
    (hmove : MovesWithin name move) (h : s.view.planEach name move = .ok ops) :
    ∃ moves : List Move, ops = moves.flatMap Move.operations ∧
      (moves.map Move.oldPlace).Nodup ∧
      (∀ m ∈ moves, m.source = name ∧ m.target = name ∧
        ∃ d, s.find? name m.oldId = some d ∧ move d = .ok m.operations) ∧
      ∀ id d, s.find? name id = some d →
        (move d = .ok [] ∧ (name, id) ∉ moves.map Move.oldPlace) ∨
        ∃ m ∈ moves, m.oldId = id ∧ move d = .ok m.operations := by
  obtain ⟨parts, hread, rfl⟩ := Except.map_eq_ok.1 h
  rw [readEach_eq] at hread
  let c := s.collections.collection name
  have hids : ∀ entry ∈ c.entries, entry.2.id = .ok entry.1 := fun entry hentry =>
    hk name entry.1 entry.2 ((c.mem_entries_iff entry.1 entry.2).1 hentry)
  obtain ⟨moves, hflat, hsub, hfrom, hall⟩ := exists_moves_of_mapM hmove hids hread
  have hnodup : (c.entries.map fun entry => (name, entry.1)).Nodup := by
    refine List.pairwise_map.2 (c.sorted.imp fun {x y} hlt he => ?_)
    rw [(Prod.mk.inj he).2] at hlt
    exact String.lt_irrefl _ hlt
  have hsource : ∀ m ∈ moves, m.source = name := fun m hm => by
    obtain ⟨entry, -, he⟩ := List.mem_map.1 (hsub.subset (List.mem_map_of_mem hm))
    exact (Prod.mk.inj he).1.symm
  have hplanned : ∀ m ∈ moves, ∃ d, s.find? name m.oldId = some d ∧ move d = .ok m.operations := by
    intro m hm
    obtain ⟨-, d, hd, hplan⟩ := hfrom m hm
    exact ⟨d, (c.mem_entries_iff m.oldId d).1 hd, hplan⟩
  refine ⟨moves, hflat, hsub.nodup hnodup, fun m hm =>
    ⟨hsource m hm, (hfrom m hm).1, hplanned m hm⟩, fun id d hd => ?_⟩
  rcases hall (id, d) ((c.mem_entries_iff id d).2 hd) with hnone | ⟨m, hm, hid, hplan⟩
  · refine Or.inl ⟨hnone, fun hin => ?_⟩
    obtain ⟨m, hm, he⟩ := List.mem_map.1 hin
    obtain ⟨d', hd', hplan⟩ := hplanned m hm
    rw [(Prod.mk.inj he).2, hd] at hd'
    cases hd'
    rw [hnone] at hplan
    cases hplan
  · exact Or.inr ⟨m, hm, hid, hplan⟩

end Snapshot
end FleetUpgrade
