import FleetUpgrade.Proofs.CopiedDocuments
import FleetUpgrade.Proofs.Moves
import FleetUpgrade.Proofs.SnapshotStore
import FleetUpgrade.Sample.Controller

/-! # Relocated collections

Four kinds of steps give documents of a collection new ids. Whatever the ids, and
however new ones meet old ones, a step of them whose transaction a store takes
loses no document and makes none: old and new documents belong together one to one.
-/

namespace FleetUpgrade

open CollectionName (cloudImageMetadata)
open SnapshotStore (snapshot)

/-! ## Old and new ids -/

namespace Move

/-- The id under which the document of an id stands after moves within its collection. -/
def idAfter (moves : List Move) (id : String) : String :=
  match moves.find? fun m => m.oldId == id with
  | some m => m.newId
  | none => id

theorem idAfter_of_not_mem {moves : List Move} {id : String}
    (h : ∀ m ∈ moves, m.oldId ≠ id) : idAfter moves id = id := by
  have hnone : (moves.find? fun m => m.oldId == id) = none := by simpa using h
  simp only [idAfter, hnone]

theorem idAfter_of_mem {moves : List Move} {m : Move} (hm : m ∈ moves)
    (honce : ∀ other ∈ moves, other.oldId = m.oldId → other = m) :
    idAfter moves m.oldId = m.newId := by
  unfold idAfter
  cases hfound : moves.find? fun other => other.oldId == m.oldId with
  | none => exact absurd (beq_self_eq_true m.oldId) (List.find?_eq_none.1 hfound m hm)
  | some other =>
      have hsame : other.oldId = m.oldId := by simpa using List.find?_some hfound
      rw [honce other (List.mem_of_find?_eq_some hfound) hsame]

end Move

/-- Moves within a collection, each of a document of its own. -/
structure MovedWithin (name : String) (moves : List Move) (docs docs' : Documents) : Prop
    extends Moved moves docs docs' where
  once : (moves.map Move.oldPlace).Nodup
  within : ∀ m ∈ moves, m.source = name ∧ m.target = name
  there : ∀ m ∈ moves, (docs name m.oldId).isSome = true

namespace MovedWithin

variable {name id : String} {m : Move} {moves : List Move} {docs docs' : Documents}
  (h : MovedWithin name moves docs docs')

include h

theorem oldPlace_eq (hm : m ∈ moves) : m.oldPlace = (name, m.oldId) :=
  Prod.ext (h.within m hm).1 rfl

theorem newPlace_eq (hm : m ∈ moves) : m.newPlace = (name, m.newId) :=
  Prod.ext (h.within m hm).2 rfl

theorem idAfter_oldId (hm : m ∈ moves) : Move.idAfter moves m.oldId = m.newId := by
  refine Move.idAfter_of_mem hm fun other hother he => ?_
  refine List.inj_on_of_nodup_map h.once hother hm ?_
  rw [h.oldPlace_eq hm, h.oldPlace_eq hother, he]

theorem find_newId (hm : m ∈ moves) : docs' name m.newId = some m.document := by
  have harrived := h.arrived m hm
  rwa [(h.within m hm).2] at harrived

theorem idAfter_of_not_mem_oldPlaces (hno : (name, id) ∉ moves.map Move.oldPlace) :
    Move.idAfter moves id = id := by
  refine Move.idAfter_of_not_mem fun m hm he => hno ?_
  rw [← he, ← h.oldPlace_eq hm]
  exact List.mem_map_of_mem hm

/-- An id belongs to a move or keeps its document. -/
theorem moved_or_stays (id : String) : (∃ m ∈ moves, m.oldId = id) ∨
    ((name, id) ∉ moves.map Move.oldPlace ∧ Move.idAfter moves id = id) := by
  by_cases hin : (name, id) ∈ moves.map Move.oldPlace
  · obtain ⟨m, hm, he⟩ := List.mem_map.1 hin
    exact Or.inl ⟨m, hm, (Prod.mk.inj he).2⟩
  · exact Or.inr ⟨hin, h.idAfter_of_not_mem_oldPlaces hin⟩

/-- The new id of a document that is moved is no id of one that stays. -/
theorem newId_ne (hm : m ∈ moves) (hsome : (docs name id).isSome = true)
    (hno : (name, id) ∉ moves.map Move.oldPlace) : m.newId ≠ id := by
  rintro rfl
  rcases h.free m hm with hnone | hcleared
  · rw [(h.within m hm).2] at hnone
    rw [hnone] at hsome
    cases hsome
  · exact hno (h.newPlace_eq hm ▸ hcleared)

theorem mapsTo : Set.MapsTo (Move.idAfter moves) {id | (docs name id).isSome = true}
    {id | (docs' name id).isSome = true} := by
  intro id hid
  rcases h.moved_or_stays id with ⟨m, hm, rfl⟩ | ⟨hno, hsame⟩
  · rw [Set.mem_ofPred_eq, h.idAfter_oldId hm, h.find_newId hm]
    rfl
  · rw [Set.mem_ofPred_eq, hsame, h.stays hid hno]
    exact hid

theorem injOn : Set.InjOn (Move.idAfter moves) {id | (docs name id).isSome = true} := by
  intro id hid other hother he
  rcases h.moved_or_stays id with ⟨m, hm, rfl⟩ | ⟨hno, hsame⟩ <;>
    rcases h.moved_or_stays other with ⟨m', hm', rfl⟩ | ⟨hno', hsame'⟩
  · rw [h.idAfter_oldId hm, h.idAfter_oldId hm'] at he
    have heq : m = m' := by
      refine List.inj_on_of_nodup_map h.distinct hm hm' ?_
      rw [h.newPlace_eq hm, h.newPlace_eq hm', he]
    rw [heq]
  · rw [h.idAfter_oldId hm, hsame'] at he
    exact absurd he (h.newId_ne hm hother hno')
  · rw [h.idAfter_oldId hm', hsame] at he
    exact absurd he.symm (h.newId_ne hm' hid hno)
  · rw [← hsame, ← hsame', he]

theorem surjOn : Set.SurjOn (Move.idAfter moves) {id | (docs name id).isSome = true}
    {id | (docs' name id).isSome = true} := by
  intro id hid
  by_cases hnew : (name, id) ∈ moves.map Move.newPlace
  · obtain ⟨m, hm, he⟩ := List.mem_map.1 hnew
    have hmid : m.newId = id := (Prod.mk.inj he).2
    exact ⟨m.oldId, h.there m hm, (h.idAfter_oldId hm).trans hmid⟩
  · rcases h.moved_or_stays id with ⟨m, hm, rfl⟩ | ⟨hno, hsame⟩
    · have hgone := h.gone m hm (h.oldPlace_eq hm ▸ hnew)
      rw [(h.within m hm).1] at hgone
      rw [Set.mem_ofPred_eq, hgone] at hid
      cases hid
    · refine ⟨id, ?_, hsame⟩
      rw [Set.mem_ofPred_eq, ← h.kept name id hno hnew]
      exact hid

/-- Old and new ids belong together one to one. -/
theorem bijOn_idAfter : Set.BijOn (Move.idAfter moves) {id | (docs name id).isSome = true}
    {id | (docs' name id).isSome = true} :=
  ⟨h.mapsTo, h.injOn, h.surjOn⟩

end MovedWithin

/-! ## The steps -/

inductive Relocating where
  | rekey (rule : RekeyRule) (collection : String)
  | leases
  | sequences
  | imageMetadata

namespace Relocating

def step : Relocating → Step
  | .rekey rule collection => rule.step collection
  | .leases => Lease.step
  | .sequences => Sequence.step
  | .imageMetadata => ImageMetadata.step

def collection : Relocating → String
  | .rekey _ collection => collection
  | .leases => CollectionName.leases
  | .sequences => CollectionName.sequence
  | .imageMetadata => cloudImageMetadata

/-- Fields that are left behind, beside the bookkeeping. -/
def stripped : Relocating → List String
  | .rekey rule _ => rule.stripFields
  | .leases => []
  | .sequences => []
  | .imageMetadata => ["model-uuid"]

/-- Which documents a step selects, with the new id, and with the field that is rewritten if it is
there and the value that it gets. -/
inductive Selects : Relocating → String → Document → String → Option (String × Value) → Prop where
  | rekey {rule : RekeyRule} {collection id scope rest : String} {d : Document}
      (h : rule.Selected id scope rest) :
      Selects (.rekey rule collection) id d (rule.newId scope rest)
        (rule.keyField.map fun field => (field, .string (rule.newStart ++ rest)))
  | lease {id modelUuid kind : String} {name : Option String} {d : Document}
      (hscope : d.get? "namespace" = some (.string "service-leadership"))
      (hmodel : d.getString "model-uuid" = .ok modelUuid) (hkind : d.getString "type" = .ok kind)
      (hname : d.getString? "name" = .ok name) :
      Selects .leases id d (Lease.newId modelUuid kind name)
        (some ("namespace", .string "application-leadership"))
  | sequence {id tag service modelUuid : String} {d : Document}
      (htag : d.get? "name" = some (.string tag)) (hservice : ServiceTag.name? tag = some service)
      (hmodel : d.getString "model-uuid" = .ok modelUuid) :
      Selects .sequences id d (modelUuid ++ ":" ++ ("application-" ++ service))
        (some ("name", .string ("application-" ++ service)))
  | imageMetadata {id scope localPart : String} {d : Document}
      (h : DocId.split? id = some (scope, localPart)) : Selects .imageMetadata id d localPart none

theorem Selects.unique {r : Relocating} {id newId newId' : String} {d : Document}
    {rewritten rewritten' : Option (String × Value)} (h : r.Selects id d newId rewritten)
    (h' : r.Selects id d newId' rewritten') : newId' = newId ∧ rewritten' = rewritten := by
  cases h with
  | rekey hselected =>
      cases h' with
      | rekey hselected' =>
          obtain ⟨rfl, rfl⟩ := hselected.unique hselected'
          exact ⟨rfl, rfl⟩
  | lease _ hmodel hkind hname =>
      cases h' with
      | lease _ hmodel' hkind' hname' =>
          cases hmodel.symm.trans hmodel'
          cases hkind.symm.trans hkind'
          cases hname.symm.trans hname'
          exact ⟨rfl, rfl⟩
  | sequence htag hservice hmodel =>
      cases h' with
      | sequence htag' hservice' hmodel' =>
          cases htag.symm.trans htag'
          cases hservice.symm.trans hservice'
          cases hmodel.symm.trans hmodel'
          exact ⟨rfl, rfl⟩
  | imageMetadata hsplit =>
      cases h' with
      | imageMetadata hsplit' =>
          cases hsplit.symm.trans hsplit'
          exact ⟨rfl, rfl⟩

/-- What a step plans for one document. -/
def move : Relocating → Document → Except StepError Transaction
  | .rekey rule collection => fun d => (rule.move? collection d).map fun move => move.getD []
  | .leases => Lease.move
  | .sequences => Sequence.move
  | .imageMetadata => ImageMetadata.move

theorem plan_eq (r : Relocating) : r.step = .ofTransaction r.step.name r.step.description
    fun view => view.planEach r.collection r.move := by
  cases r <;> rfl

theorem step_plan_ok_iff {r : Relocating} {view : StoreView} {disk : Disk}
    {vars vars' : Variables} {plan : StepPlan} :
    r.step.plan view disk vars = .ok (plan, vars') ↔
      ∃ ops, view.planEach r.collection r.move = .ok ops ∧ plan = .ofTransaction ops ∧
        vars' = vars := by
  rw [plan_eq]
  refine Except.map_eq_ok.trans (exists_congr fun ops => and_congr_right fun _ => ?_)
  rw [Prod.mk.injEq]
  exact and_congr eq_comm eq_comm

open Document (StoredAnew inserted rewrittenCopy storedAnew_inserted)

theorem move_spec {r : Relocating} {d : Document} {part : Transaction} (h : r.move d = .ok part) :
    ∃ id, d.id = .ok id ∧
      ((part = [] ∧ ∀ newId rewritten, ¬r.Selects id d newId rewritten) ∨
        ∃ newId rewritten, r.Selects id d newId rewritten ∧
          part = relocate r.collection id r.collection newId
            ((d.rewrittenCopy rewritten).without r.stripped)) := by
  cases r with
  | rekey rule collection =>
      obtain ⟨id, hid, ⟨hnone, rfl⟩ | ⟨newId, hsome, hlocal, rfl⟩⟩ := RekeyRule.move?_spec h
      · refine ⟨id, hid, Or.inl ⟨rfl, fun newId rewritten hselects => ?_⟩⟩
        cases hselects with
        | rekey hselected => exact RekeyRule.rekey?_eq_none_iff.1 hnone _ _ hselected
      · obtain ⟨scope, rest, hselected, rfl⟩ := RekeyRule.rekey?_eq_some_iff.1 hsome
        refine ⟨id, hid, Or.inr ⟨_, _, .rekey hselected, ?_⟩⟩
        unfold RekeyRule.body rewrittenCopy
        rw [RekeyRule.localPart_newId hselected hlocal]
        cases rule.keyField <;> rfl
  | leases =>
      obtain ⟨id, hid, ⟨rfl, hother⟩ | ⟨_, _, _, hscope, hmodel, hkind, hname, rfl⟩⟩ :=
        Lease.move_spec h
      · refine ⟨id, hid, Or.inl ⟨rfl, fun newId rewritten hselects => ?_⟩⟩
        cases hselects with
        | lease hscope => exact hother hscope
      · exact ⟨id, hid, Or.inr ⟨_, _, .lease hscope hmodel hkind hname, rfl⟩⟩
  | sequences =>
      obtain ⟨id, tag, hid, htag, ⟨rfl, hnone⟩ | ⟨_, _, hservice, hmodel, rfl⟩⟩ :=
        Sequence.move_spec h
      · refine ⟨id, hid, Or.inl ⟨rfl, fun newId rewritten hselects => ?_⟩⟩
        cases hselects with
        | sequence htag' hservice =>
            rw [htag] at htag'
            cases htag'
            rw [hnone] at hservice
            cases hservice
      · exact ⟨id, hid, Or.inr ⟨_, _, .sequence htag hservice hmodel, rfl⟩⟩
  | imageMetadata =>
      obtain ⟨id, hid, ⟨rfl, hnone⟩ | ⟨scope, localPart, hsplit, rfl⟩⟩ := ImageMetadata.move_spec h
      · refine ⟨id, hid, Or.inl ⟨rfl, fun newId rewritten hselects => ?_⟩⟩
        cases hselects with
        | imageMetadata hsplit =>
            rw [hnone] at hsplit
            cases hsplit
      · exact ⟨id, hid, Or.inr ⟨localPart, none, .imageMetadata hsplit, rfl⟩⟩

theorem movesWithin (r : Relocating) : MovesWithin r.collection r.move := by
  intro d part h
  obtain ⟨id, hid, ⟨hnone, -⟩ | ⟨newId, _, -, hmove⟩⟩ := move_spec h
  · exact ⟨id, hid, Or.inl hnone⟩
  · exact ⟨id, hid, Or.inr ⟨newId, _, hmove⟩⟩

theorem exists_moves {r : Relocating} {s : Snapshot} {ops : Transaction} (hk : s.Keyed)
    (h : s.view.planEach r.collection r.move = .ok ops) :
    ∃ moves : List Move, ops = moves.flatMap Move.operations ∧
      (moves.map Move.oldPlace).Nodup ∧
      (∀ m ∈ moves, m.source = r.collection ∧ m.target = r.collection ∧
        ∃ d rewritten, s.find? r.collection m.oldId = some d ∧
          r.Selects m.oldId d m.newId rewritten ∧
          m.body = (d.rewrittenCopy rewritten).without r.stripped) ∧
      ∀ id d, s.find? r.collection id = some d →
        ((∀ newId rewritten, ¬r.Selects id d newId rewritten) ∧
          (r.collection, id) ∉ moves.map Move.oldPlace) ∨ ∃ m ∈ moves, m.oldId = id := by
  obtain ⟨moves, hops, hold, hfrom, hall⟩ := Snapshot.exists_moves_of_planEach hk r.movesWithin h
  refine ⟨moves, hops, hold, fun m hm => ?_, fun id d hd => ?_⟩
  · obtain ⟨hsource, htarget, d, hd, hplanned⟩ := hfrom m hm
    refine ⟨hsource, htarget, d, ?_⟩
    obtain ⟨own, hown, ⟨hnone, -⟩ | ⟨newId, rewritten, hselects, hmove⟩⟩ := move_spec hplanned
    · cases hnone
    · rw [hk _ _ d hd] at hown
      cases hown
      simp only [Move.operations, relocate, Operation.insert, List.cons.injEq,
        Operation.mk.injEq, Change.insert.injEq] at hmove
      obtain ⟨-, ⟨-, hid, -, hbody⟩, -⟩ := hmove
      exact ⟨rewritten, hd, hid ▸ hselects, hbody⟩
  · rcases hall id d hd with ⟨hnone, hno⟩ | ⟨m, hm, hid, -⟩
    · obtain ⟨own, hown, ⟨-, hunselected⟩ | ⟨_, _, -, hmove⟩⟩ := move_spec hnone
      · rw [hk _ id d hd] at hown
        cases hown
        exact Or.inl ⟨hunselected, hno⟩
      · cases hmove
    · exact Or.inr ⟨m, hm, hid⟩

theorem plan_eq_nil_iff {r : Relocating} {s : Snapshot} {ops : Transaction} (hk : s.Keyed)
    (h : s.view.planEach r.collection r.move = .ok ops) :
    ops = [] ↔ ∀ id d newId rewritten, s.find? r.collection id = some d →
      ¬r.Selects id d newId rewritten := by
  obtain ⟨moves, rfl, -, hfrom, hall⟩ := exists_moves hk h
  have hempty : moves.flatMap Move.operations = [] ↔ moves = [] := by
    cases moves with
    | nil => simp
    | cons m moves => simp [Move.operations, relocate]
  rw [hempty]
  constructor
  · rintro rfl id d newId rewritten hd
    rcases hall id d hd with ⟨hno, -⟩ | ⟨m, hm, -⟩
    · exact hno newId rewritten
    · exact absurd hm List.not_mem_nil
  · intro hno
    refine List.eq_nil_iff_forall_not_mem.2 fun m hm => ?_
    obtain ⟨-, -, d, rewritten, hd, hselects, -⟩ := hfrom m hm
    exact hno m.oldId d m.newId rewritten hd hselects

/-! ## Collections after a step -/

/-- What the document of an id has become: one that is not selected is as it was, and one that is
selected stands as a copy under its new id. -/
inductive Becomes (r : Relocating) (after : Snapshot) (id : String) (d : Document) :
    String → Prop where
  | kept (hno : ∀ newId rewritten, ¬r.Selects id d newId rewritten)
      (hafter : after.find? r.collection id = some d) : Becomes r after id d id
  | relocated {newId : String} {rewritten : Option (String × Value)} {copy : Document}
      (h : r.Selects id d newId rewritten) (hafter : after.find? r.collection newId = some copy)
      (hcopy : StoredAnew newId r.stripped rewritten d copy) : Becomes r after id d newId

/-- No document was lost and none was made, and nothing else was changed. -/
structure Relocated (r : Relocating) (before after : Snapshot) : Prop where
  count : after.count r.collection = before.count r.collection
  documents : ∃ idAfter : String → String,
    Set.BijOn idAfter {id | (before.find? r.collection id).isSome = true}
      {id | (after.find? r.collection id).isSome = true} ∧
    ∀ id d, before.find? r.collection id = some d → r.Becomes after id d (idAfter id)
  others : ∀ name, name ≠ r.collection →
    after.collections.get? name = before.collections.get? name
  pending : after.pending = before.pending

theorem relocated_of_apply {r : Relocating} {before after : Snapshot} {ops : Transaction}
    (hk : before.Keyed) (hplan : before.view.planEach r.collection r.move = .ok ops)
    (h : before.apply ops = .ok after) : r.Relocated before after := by
  obtain ⟨hexec, happlied⟩ := Snapshot.apply_ok h
  obtain ⟨moves, rfl, hold, hfrom, hall⟩ := exists_moves hk hplan
  have hthere : ∀ m ∈ moves, (before.find? r.collection m.oldId).isSome = true := by
    intro m hm
    obtain ⟨-, -, d, -, hd, -⟩ := hfrom m hm
    rw [hd]
    rfl
  have hwithin : ∀ m ∈ moves, m.source = r.collection ∧ m.target = r.collection :=
    fun m hm => ⟨(hfrom m hm).1, (hfrom m hm).2.1⟩
  have hmoved : MovedWithin r.collection moves before.find? after.find? :=
    ⟨Transaction.moved_of_execute hold (fun m hm => (hfrom m hm).1 ▸ hthere m hm) hexec, hold,
      hwithin, hthere⟩
  refine ⟨?_, ⟨Move.idAfter moves, hmoved.bijOn_idAfter, fun id d hd => ?_⟩, fun name hname => ?_,
    happlied.pending⟩
  · exact congrArg Except.ok (Table.size_eq_of_bijOn hmoved.bijOn_idAfter)
  · rcases hall id d hd with ⟨hunselected, hno⟩ | ⟨m, hm, rfl⟩
    · rw [hmoved.idAfter_of_not_mem_oldPlaces hno]
      exact .kept hunselected (by rw [hmoved.stays (by rw [hd]; rfl) hno, hd])
    · obtain ⟨-, -, own, rewritten, hown, hselects, hbody⟩ := hfrom m hm
      rw [hd] at hown
      cases hown
      have harrived := hmoved.find_newId hm
      rw [Move.document, hbody] at harrived
      rw [hmoved.idAfter_oldId hm]
      exact .relocated hselects harrived (storedAnew_inserted d m.newId r.stripped rewritten)
  · refine happlied.untouched name fun op hop => ?_
    obtain ⟨m, hm, hin⟩ := List.mem_flatMap.1 hop
    obtain ⟨hsource, htarget⟩ := hwithin m hm
    simp only [Move.operations, relocate, List.mem_cons, List.not_mem_nil, or_false] at hin
    rcases hin with rfl | rfl
    · exact fun he => hname (he.symm.trans hsource)
    · exact fun he => hname (he.symm.trans htarget)

namespace Relocated

variable {r : Relocating} {before after : Snapshot} {id newId : String} {d copy : Document}
  {rewritten : Option (String × Value)}

theorem kept (h : r.Relocated before after) (hd : before.find? r.collection id = some d)
    (hno : ∀ newId rewritten, ¬r.Selects id d newId rewritten) :
    after.find? r.collection id = some d := by
  obtain ⟨idAfter, -, hbecomes⟩ := h.documents
  have hafter := hbecomes id d hd
  generalize idAfter id = id' at hafter
  cases hafter with
  | kept _ hfound => exact hfound
  | relocated hselects _ _ => exact absurd hselects (hno _ _)

theorem moved (h : r.Relocated before after) (hd : before.find? r.collection id = some d)
    (hselects : r.Selects id d newId rewritten) :
    ∃ copy, after.find? r.collection newId = some copy ∧
      StoredAnew newId r.stripped rewritten d copy := by
  obtain ⟨idAfter, -, hbecomes⟩ := h.documents
  have hafter := hbecomes id d hd
  generalize idAfter id = id' at hafter
  cases hafter with
  | kept hno _ => exact absurd hselects (hno _ _)
  | relocated hselects' hfound hcopy =>
      obtain ⟨rfl, rfl⟩ := hselects.unique hselects'
      exact ⟨_, hfound, hcopy⟩

/-- Only a document that makes room itself stood under the new id of another. -/
theorem makes_room {other : Document} (h : r.Relocated before after)
    (hd : before.find? r.collection id = some d) (hselects : r.Selects id d newId rewritten)
    (hother : before.find? r.collection newId = some other) :
    ∃ next rewritten', r.Selects newId other next rewritten' := by
  by_contra hno
  obtain ⟨idAfter, hbij, hbecomes⟩ := h.documents
  have hstays : idAfter newId = newId := by
    have hafter := hbecomes newId other hother
    generalize idAfter newId = id' at hafter ⊢
    cases hafter with
    | kept _ _ => rfl
    | relocated hselects' _ _ => exact absurd ⟨_, _, hselects'⟩ hno
  have hcomes : idAfter id = newId := by
    have hafter := hbecomes id d hd
    generalize idAfter id = id' at hafter ⊢
    cases hafter with
    | kept hnone _ => exact absurd hselects (hnone _ _)
    | relocated hselects' _ _ => exact (hselects.unique hselects').1
  have hsame : id = newId :=
    hbij.injOn (Option.isSome_iff_exists.2 ⟨d, hd⟩) (Option.isSome_iff_exists.2 ⟨other, hother⟩)
      (hcomes.trans hstays.symm)
  subst hsame
  cases hd.symm.trans hother
  exact hno ⟨_, _, hselects⟩

theorem origin (h : r.Relocated before after) (hcopy : after.find? r.collection id = some copy) :
    (before.find? r.collection id = some copy ∧
        ∀ newId rewritten, ¬r.Selects id copy newId rewritten) ∨
      ∃ old d rewritten, before.find? r.collection old = some d ∧
        r.Selects old d id rewritten ∧ StoredAnew id r.stripped rewritten d copy := by
  obtain ⟨idAfter, hbij, hbecomes⟩ := h.documents
  obtain ⟨old, hold, hid⟩ := hbij.surjOn (Option.isSome_iff_exists.2 ⟨copy, hcopy⟩)
  obtain ⟨d, hd⟩ := Option.isSome_iff_exists.1 hold
  have hafter := hbecomes old d hd
  rw [hid] at hafter
  cases hafter with
  | kept hno hfound =>
      cases hfound.symm.trans hcopy
      exact Or.inl ⟨hd, hno⟩
  | relocated hselects hfound hstored =>
      cases hfound.symm.trans hcopy
      exact Or.inr ⟨old, d, _, hd, hselects, hstored⟩

end Relocated

/-! ## When a step is carried out -/

/-- No new id is the id of a document. -/
def NewIdsFree (r : Relocating) (s : Snapshot) : Prop :=
  ∀ id d newId rewritten, s.find? r.collection id = some d → r.Selects id d newId rewritten →
    s.find? r.collection newId = none

structure Meet (r : Relocating) (s : Snapshot) (id id' newId : String) : Prop where
  different : id' ≠ id
  first : ∃ d rewritten, s.find? r.collection id = some d ∧ r.Selects id d newId rewritten
  second : ∃ d rewritten, s.find? r.collection id' = some d ∧ r.Selects id' d newId rewritten

theorem no_meeting_of_apply {r : Relocating} {before after : Snapshot} {ops : Transaction}
    (hk : before.Keyed) (hplan : before.view.planEach r.collection r.move = .ok ops)
    (h : before.apply ops = .ok after) {id id' newId : String} : ¬r.Meet before id id' newId := by
  rintro ⟨hne, ⟨d, rewritten, hd, hselects⟩, d', rewritten', hd', hselects'⟩
  obtain ⟨moves, rfl, hold, hfrom, hall⟩ := exists_moves hk hplan
  have hmoved : Moved moves before.find? after.find? := by
    refine Transaction.moved_of_execute hold (fun m hm => ?_) (Snapshot.apply_ok h).1
    obtain ⟨hsource, -, own, -, hown, -⟩ := hfrom m hm
    rw [hsource, hown]
    rfl
  have hnew : ∀ {id d newId rewritten}, before.find? r.collection id = some d →
      r.Selects id d newId rewritten →
      ∃ m ∈ moves, m.oldId = id ∧ m.newPlace = (r.collection, newId) := by
    intro id d newId rewritten hd hselects
    rcases hall id d hd with ⟨hno, -⟩ | ⟨m, hm, rfl⟩
    · exact absurd hselects (hno _ _)
    · obtain ⟨-, htarget, own, rewritten', hown, hselects', -⟩ := hfrom m hm
      cases hd.symm.trans hown
      exact ⟨m, hm, rfl, Prod.ext htarget (hselects.unique hselects').1⟩
  obtain ⟨m, hm, rfl, hplace⟩ := hnew hd hselects
  obtain ⟨m', hm', rfl, hplace'⟩ := hnew hd' hselects'
  exact hne (congrArg Move.oldId
    (List.inj_on_of_nodup_map hmoved.distinct hm' hm (hplace'.trans hplace.symm)))

/-- If no new id is in use, only two documents that get one new id are refused. -/
theorem meet_of_refused {r : Relocating} {s : Snapshot} {ops : Transaction} {e : StoreError}
    (hk : s.Keyed) (hplan : s.view.planEach r.collection r.move = .ok ops)
    (hfree : r.NewIdsFree s) (h : s.apply ops = .error e) :
    ∃ id id' newId, r.Meet s id id' newId ∧
      e = .preconditionFailed r.collection newId .mustNotExist := by
  obtain ⟨moves, rfl, hold, hfrom, -⟩ := exists_moves hk hplan
  have hthere : ∀ m ∈ moves, (s.find? m.source m.oldId).isSome = true := by
    intro m hm
    obtain ⟨hsource, -, d, -, hd, -⟩ := hfrom m hm
    rw [hsource, hd]
    rfl
  have hnew : ∀ m ∈ moves, s.find? m.target m.newId = none := by
    intro m hm
    obtain ⟨-, htarget, d, rewritten, hd, hselects, -⟩ := hfrom m hm
    rw [htarget]
    exact hfree m.oldId d m.newId rewritten hd hselects
  obtain ⟨m, hm, other, hother, hne, hmeet, rfl⟩ :=
    Transaction.execute_moves_refused hold hthere hnew (Snapshot.apply_error h)
  obtain ⟨hsource, htarget, d, rewritten, hd, hselects, -⟩ := hfrom m hm
  obtain ⟨hsource', -, d', rewritten', hd', hselects', -⟩ := hfrom other hother
  have hid : other.newId = m.newId := (Prod.mk.inj hmeet).2
  refine ⟨m.oldId, other.oldId, m.newId,
    ⟨fun he => hne ?_, ⟨d, rewritten, hd, hselects⟩, d', rewritten', hd', hid ▸ hselects'⟩,
    by rw [htarget]⟩
  exact Prod.ext (hsource'.trans hsource.symm) he

/-- If no new id is in use, a plan is carried out just if no two documents get the same one. -/
theorem apply_ok_iff_no_meeting {r : Relocating} {s : Snapshot} {ops : Transaction}
    (hk : s.Keyed) (hplan : s.view.planEach r.collection r.move = .ok ops)
    (hfree : r.NewIdsFree s) :
    (∃ after, s.apply ops = .ok after) ↔ ∀ id id' newId, ¬r.Meet s id id' newId := by
  constructor
  · rintro ⟨after, happly⟩ id id' newId
    exact no_meeting_of_apply hk hplan happly
  · intro hno
    cases happly : s.apply ops with
    | ok after => exact ⟨after, rfl⟩
    | error e =>
        obtain ⟨id, id', newId, hmeet, -⟩ := meet_of_refused hk hplan hfree happly
        exact absurd hmeet (hno id id' newId)

/-! ## Every document is kept -/

/-- A step that gives new ids loses no document and makes none, whatever ids there are: if it has a
plan and the store takes the transaction, old and new documents belong together one to one. -/
theorem relocation_keeps_documents {σ : Type} [DocumentStore σ] [SnapshotStore σ]
    (r : Relocating) {store : σ} {disk disk' : Disk} {vars vars' : Variables} {plan : StepPlan}
    (hk : (snapshot store).Keyed)
    (hplan : r.step.plan (DocumentStore.view store) disk vars = .ok (plan, vars'))
    (h : (DocumentStore.apply plan.transaction store disk').result = .ok ()) :
    plan.droppedCollections = [] ∧
      r.Relocated (snapshot store)
        (snapshot (DocumentStore.apply plan.transaction store disk').store) := by
  rw [SnapshotStore.view_eq, plan_eq] at hplan
  obtain ⟨ops, hops, hpair⟩ := Except.map_eq_ok.1 hplan
  cases hpair
  exact ⟨rfl, relocated_of_apply hk hops (SnapshotStore.apply_ok h)⟩

/-- Two units, of which the second gets the id that the first gives up. -/
def chainedUnits : MemoryStore :=
  let entries : List Sample.Entry :=
    [⟨"units", "m:xa", [("key", "xa"), ("txn-revno", .int 2), ("life", .int 0)]⟩,
      ⟨"units", "m:xxa", [("life", .int 1), ("key", "xxa")]⟩]
  ⟨entries.foldl Sample.Entry.addTo .empty, []⟩

def dropLead : Relocating :=
  .rekey ⟨"x", "", some "key", []⟩ "units"

theorem relocation_keeps_chained_units :
    (snapshot chainedUnits).Keyed ∧ ∃ plan vars,
      dropLead.step.plan (DocumentStore.view chainedUnits) .empty (.ofUuid "u") =
        .ok (plan, vars) ∧
      (DocumentStore.apply plan.transaction chainedUnits .empty).result = .ok () ∧
      plan.droppedCollections = [] ∧
      dropLead.Relocated (snapshot chainedUnits)
        (snapshot (DocumentStore.apply plan.transaction chainedUnits .empty).store) := by
  have hk : chainedUnits.snapshot.Keyed := by decide +kernel
  obtain ⟨plan, vars, hplan, hdone⟩ :=
    dropLead.step.exists_taken_plan chainedUnits (.ofUuid "u") (by decide +kernel)
  exact ⟨hk, plan, vars, hplan, hdone, relocation_keeps_documents dropLead hk hplan hdone⟩

end Relocating
end FleetUpgrade
